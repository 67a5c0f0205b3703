import ProviderSdk.Bytes
import ProviderSdk.Lib.StreamCode
import Mathlib.Data.UInt
import Mathlib.Tactic.Linarith

/-!
# Length-prefixed framing

`src/anolis/provider_sdk/transport.cpp`. A frame is a little-endian `uint32_t` length
and that many payload bytes. `readFrame` and `writeFrame` are the source's, over an
input stream that is a finite byte sequence with an ending (`IStream`) and an output
stream whose operations succeed or fail as a given sequence says (`OStream`).

`frameCode` is the framing as a `StreamCode` : `readFrame` is its step
(`readFrame_of_item` and its siblings) and `writeFrame` on a sound stream appends one
block (`writeFrame_sound`). `framing_lossless` is the code's laws, read for successive
calls of the two functions.
-/

namespace ProviderSdk

/-! ## Streams -/

/-- How an input stream ends. -/
inductive Ending where
  | eof
  | failure
  deriving DecidableEq, Repr

/-- A `std::istream` : the bytes not yet read, how the stream ends after them, and the
ending once it was met (`eofbit` or `badbit`, with `failbit`). -/
structure IStream where
  rest : Bytes
  ending : Ending
  met : Option Ending
  deriving DecidableEq, Repr

/-- A stream of `bytes`, not yet read. -/
def IStream.of (bytes : Bytes) (ending : Ending) : IStream :=
  ⟨bytes, ending, none⟩

/-- `input.read(buffer, n)` : the bytes counted by `gcount()`. A read that finds fewer
bytes meets the ending, and a stream that met its ending gives nothing. -/
def IStream.read (s : IStream) (n : ℕ) : Bytes × IStream :=
  match s.met with
  | some _ => ([], s)
  | none =>
    (s.rest.take n,
      { s with rest := s.rest.drop n
               met := if s.rest.length < n then some s.ending else none })

/-- What one operation on an output stream does : all of it, or a failure after some of
its bytes. -/
inductive WriteOutcome where
  | ok
  | failed (accepted : ℕ)
  deriving DecidableEq, Repr

/-- A `std::ostream` : the bytes that reached the sink, whether it is still `good()`, and
the outcome of each operation to come. -/
structure OStream where
  written : Bytes
  good : Bool
  outcomes : ℕ → WriteOutcome

/-- `output.write(data, size)`. -/
def OStream.write (s : OStream) (data : Bytes) : OStream :=
  if s.good then
    match s.outcomes 0 with
    | .ok => { s with written := s.written ++ data, outcomes := fun n => s.outcomes (n + 1) }
    | .failed k =>
      { written := s.written ++ data.take k, good := false
        outcomes := fun n => s.outcomes (n + 1) }
  else s

/-- `output.flush()`. -/
def OStream.flush (s : OStream) : OStream :=
  s.write []

/-- A stream none of whose operations fails. -/
def OStream.Sound (s : OStream) : Prop :=
  s.good = true ∧ ∀ n, s.outcomes n = .ok

/-! ## The source's functions -/

/-- Upper bound for one framed payload (1 MiB). -/
def kMaxFrameBytes : UInt32 :=
  1024 * 1024

def decodeU32Le (b₀ b₁ b₂ b₃ : UInt8) : UInt32 :=
  b₀.toUInt32 ||| (b₁.toUInt32 <<< 8) ||| (b₂.toUInt32 <<< 16) ||| (b₃.toUInt32 <<< 24)

def encodeU32Le (value : UInt32) : Bytes :=
  [(value &&& 0xFF).toUInt8, ((value >>> 8) &&& 0xFF).toUInt8,
    ((value >>> 16) &&& 0xFF).toUInt8, ((value >>> 24) &&& 0xFF).toUInt8]

/-- Read exactly `size` bytes or fail on the stream's ending. Gives also the bytes that
were stored, which are fewer on a failure. -/
def readExact (input : IStream) (size : ℕ) : Bool × Bytes × IStream :=
  if _hsize : size = 0 then (true, [], input)
  else
    match input.read size with
    | ([], input) => (false, [], input)
    | (b :: bs, input) =>
      let r := readExact input (size - (bs.length + 1))
      (r.1, b :: bs ++ r.2.1, r.2.2)
termination_by size

/-- What `read_frame` leaves its caller : the return value, `out`, and `error`. -/
structure FrameRead where
  ok : Bool
  out : Bytes
  error : Bytes
  deriving DecidableEq, Repr

/-- Read one frame into `out`. `false` with an empty `error` is a clean end of stream,
`false` with a non-empty one a framing error. -/
def readFrame (input : IStream) (out : Bytes) (maxLen : UInt32) : FrameRead × IStream :=
  match input.read 1 with
  | ([], input) => (⟨false, out, []⟩, input)
  | (b₀ :: _, input) =>
    match readExact input 3 with
    | (true, [b₁, b₂, b₃], input) =>
      let size := decodeU32Le b₀ b₁ b₂ b₃
      if size = 0 then (⟨false, out, lit "invalid frame length: 0"⟩, input)
      else if size > maxLen then (⟨false, out, lit "frame length exceeds max"⟩, input)
      else
        match readExact input size.toNat with
        | (true, payload, input) => (⟨true, payload, []⟩, input)
        | (false, got, input) =>
          -- `out` was zero-filled, so a torn payload leaves its bytes and zeros there
          (⟨false, got ++ List.replicate (size.toNat - got.length) 0,
            lit "unexpected EOF while reading frame payload"⟩, input)
    | (_, _, input) => (⟨false, out, lit "unexpected EOF while reading frame header"⟩, input)

/-- Write one frame and flush. Gives the return value, `error`, and the stream. -/
def writeFrame (output : OStream) (data : Bytes) (maxLen : UInt32) : Bool × Bytes × OStream :=
  if data.length = 0 then (false, lit "invalid frame length: 0", output)
  else if data.length > maxLen.toNat then (false, lit "frame length exceeds max", output)
  else if data.length > 0xFFFFFFFF then (false, lit "frame length exceeds uint32", output)
  else
    let output := output.write (encodeU32Le (UInt32.ofNat data.length))
    if !output.good then (false, lit "failed writing frame header", output)
    else
      let output := output.write data
      if !output.good then (false, lit "failed writing frame payload", output)
      else
        let output := output.flush
        if !output.good then (false, lit "failed flushing output", output)
        else (true, [], output)

/-! ## The length header -/

/-- The header's value, byte by byte. The bytes do not overlap, so `|` is `+`. -/
theorem toNat_decodeU32Le (b₀ b₁ b₂ b₃ : UInt8) :
    (decodeU32Le b₀ b₁ b₂ b₃).toNat =
      b₀.toNat + 256 * b₁.toNat + 65536 * b₂.toNat + 16777216 * b₃.toNat := by
  have h0 := b₀.toNat_lt
  have h1 := b₁.toNat_lt
  have h2 := b₂.toNat_lt
  have h3 := b₃.toNat_lt
  have hor : ∀ {x y k : ℕ}, x < 2 ^ k → x ||| y <<< k = x + 2 ^ k * y := by
    intro x y k hx
    rw [Nat.or_comm, ← Nat.shiftLeft_add_eq_or_of_lt hx, Nat.shiftLeft_eq]
    ring
  simp only [decodeU32Le, UInt32.toNat_or, UInt32.toNat_shiftLeft, UInt8.toNat_toUInt32,
    UInt32.reduceToNat, Nat.reduceMod]
  have e1 : b₁.toNat <<< 8 % 2 ^ 32 = b₁.toNat <<< 8 := by
    rw [Nat.shiftLeft_eq]; omega
  have e2 : b₂.toNat <<< 16 % 2 ^ 32 = b₂.toNat <<< 16 := by
    rw [Nat.shiftLeft_eq]; omega
  have e3 : b₃.toNat <<< 24 % 2 ^ 32 = b₃.toNat <<< 24 := by
    rw [Nat.shiftLeft_eq]; omega
  rw [e1, e2, e3, hor (k := 8) (by omega), hor (k := 16) (by omega), hor (k := 24) (by omega)]
  norm_num

theorem toNat_low_byte (v : UInt32) : (v &&& 0xFF).toUInt8.toNat = v.toNat % 256 := by
  have hmask : v.toNat &&& 255 = v.toNat % 256 := Nat.and_two_pow_sub_one_eq_mod _ 8
  simp only [UInt32.toNat_toUInt8, UInt32.toNat_and, UInt32.reduceToNat, hmask]
  omega

/-- The bytes of a header are the base-256 digits of the length. -/
theorem encodeU32Le_eq (value : UInt32) :
    encodeU32Le value = [UInt8.ofNat value.toNat, UInt8.ofNat (value.toNat / 256),
      UInt8.ofNat (value.toNat / 65536), UInt8.ofNat (value.toNat / 16777216)] := by
  have hbyte : ∀ (v : UInt32) (n : ℕ), v.toNat % 256 = n % 256 →
      (v &&& 0xFF).toUInt8 = UInt8.ofNat n := by
    intro v n h
    apply UInt8.toNat_inj.mp
    rw [toNat_low_byte, UInt8.toNat_ofNat', h]
  have hshift : ∀ k : UInt32, (value >>> k).toNat = value.toNat / 2 ^ (k.toNat % 32) := fun k => by
    rw [UInt32.toNat_shiftRight, Nat.shiftRight_eq_div_pow]
  simp only [encodeU32Le, List.cons.injEq, and_true]
  refine ⟨hbyte _ _ rfl, hbyte _ _ ?_, hbyte _ _ ?_, hbyte _ _ ?_⟩
  · rw [hshift]; rfl
  · rw [hshift]; rfl
  · rw [hshift]; rfl

/-- The header of a length reads back as the length. -/
theorem decodeU32Le_encode (value : UInt32) :
    ∃ b₀ b₁ b₂ b₃, encodeU32Le value = [b₀, b₁, b₂, b₃] ∧ decodeU32Le b₀ b₁ b₂ b₃ = value := by
  refine ⟨_, _, _, _, encodeU32Le_eq value, ?_⟩
  apply UInt32.toNat_inj.mp
  have hv := value.toNat_lt
  rw [toNat_decodeU32Le]
  simp only [UInt8.toNat_ofNat']
  omega

/-- Every header is the header of its value. -/
theorem encodeU32Le_decode (b₀ b₁ b₂ b₃ : UInt8) :
    encodeU32Le (decodeU32Le b₀ b₁ b₂ b₃) = [b₀, b₁, b₂, b₃] := by
  have h0 := b₀.toNat_lt
  have h1 := b₁.toNat_lt
  have h2 := b₂.toNat_lt
  have h3 := b₃.toNat_lt
  rw [encodeU32Le_eq, toNat_decodeU32Le]
  simp only [List.cons.injEq, and_true]
  refine ⟨?_, ?_, ?_, ?_⟩ <;>
  · apply UInt8.toNat_inj.mp
    rw [UInt8.toNat_ofNat']
    omega

/-! ## Reading -/

theorem readExact_met (bytes : Bytes) (e m : Ending) {size : ℕ} (hsize : size ≠ 0) :
    readExact ⟨bytes, e, some m⟩ size = (false, [], ⟨bytes, e, some m⟩) := by
  rw [readExact]
  simp [hsize, IStream.read]

/-- `readExact` on a stream that met no ending takes the bytes if they are there, and
otherwise all there are. -/
theorem readExact_of (bytes : Bytes) (e : Ending) (size : ℕ) :
    readExact (.of bytes e) size =
      if size ≤ bytes.length then (true, bytes.take size, .of (bytes.drop size) e)
      else (false, bytes, ⟨[], e, some e⟩) := by
  by_cases hsize : size = 0
  · rw [readExact]
    simp [hsize]
  cases bytes with
  | nil =>
    rw [readExact]
    simp [hsize, IStream.of, IStream.read, Nat.pos_of_ne_zero hsize]
  | cons b bs =>
    obtain ⟨n, rfl⟩ : ∃ n, size = n + 1 := ⟨size - 1, by omega⟩
    rw [readExact]
    simp only [hsize, IStream.of, IStream.read, List.take_succ_cons, List.drop_succ_cons,
      List.length_cons, List.length_take, Nat.add_lt_add_iff_right, Nat.add_le_add_iff_right,
      dite_false, Nat.add_sub_add_right]
    by_cases hn : n ≤ bs.length
    · have h0 : n - min n bs.length = 0 := by omega
      rw [if_neg (by omega), if_pos hn, h0, readExact]
      simp
    · have h0 : n - min n bs.length ≠ 0 := by omega
      rw [if_pos (by omega), if_neg hn, readExact_met _ _ _ h0]
      simp [List.take_of_length_le (by omega : bs.length ≤ n),
        List.drop_of_length_le (by omega : bs.length ≤ n)]

theorem readFrame_met (bytes out : Bytes) (e m : Ending) (maxLen : UInt32) :
    readFrame ⟨bytes, e, some m⟩ out maxLen = (⟨false, out, []⟩, ⟨bytes, e, some m⟩) := by
  simp [readFrame, IStream.read]

/-- Before the next frame starts, the end of the stream is a clean one. -/
theorem readFrame_nil (out : Bytes) (e : Ending) (maxLen : UInt32) :
    readFrame (.of [] e) out maxLen = (⟨false, out, []⟩, ⟨[], e, some e⟩) := by
  simp [readFrame, IStream.read, IStream.of]

/-- Fewer than four bytes are a torn header. -/
theorem readFrame_short {bytes : Bytes} (hb : bytes ≠ []) (hlen : bytes.length < 4)
    (out : Bytes) (e : Ending) (maxLen : UInt32) :
    readFrame (.of bytes e) out maxLen =
      (⟨false, out, lit "unexpected EOF while reading frame header"⟩, ⟨[], e, some e⟩) := by
  obtain ⟨b, bs, rfl⟩ := List.exists_cons_of_ne_nil hb
  have hread : (IStream.of (b :: bs) e).read 1 = ([b], IStream.of bs e) := by
    simp [IStream.read, IStream.of]
  rw [readFrame, hread]
  simp only [readExact_of]
  rw [if_neg (by simp only [List.length_cons] at hlen; omega)]

/-- What `readFrame` does once it has a header. -/
theorem readFrame_header (b₀ b₁ b₂ b₃ : UInt8) (bytes out : Bytes) (e : Ending)
    (maxLen : UInt32) :
    readFrame (.of (b₀ :: b₁ :: b₂ :: b₃ :: bytes) e) out maxLen =
      let size := decodeU32Le b₀ b₁ b₂ b₃
      if size = 0 then (⟨false, out, lit "invalid frame length: 0"⟩, .of bytes e)
      else if size > maxLen then (⟨false, out, lit "frame length exceeds max"⟩, .of bytes e)
      else if size.toNat ≤ bytes.length then
        (⟨true, bytes.take size.toNat, []⟩, .of (bytes.drop size.toNat) e)
      else
        (⟨false, bytes ++ List.replicate (size.toNat - bytes.length) 0,
          lit "unexpected EOF while reading frame payload"⟩, ⟨[], e, some e⟩) := by
  have hread : (IStream.of (b₀ :: b₁ :: b₂ :: b₃ :: bytes) e).read 1 =
      ([b₀], IStream.of (b₁ :: b₂ :: b₃ :: bytes) e) := by
    simp [IStream.read, IStream.of]
  have hexact : readExact (IStream.of (b₁ :: b₂ :: b₃ :: bytes) e) 3 =
      (true, [b₁, b₂, b₃], .of bytes e) := by
    rw [readExact_of]
    simp
  rw [readFrame, hread]
  simp only [hexact, readExact_of]
  split_ifs <;> rfl

/-! ## The framing as a stream code -/

/-- One frame : the header and the payload. -/
def frameBytes (payload : Bytes) : Bytes :=
  encodeU32Le (UInt32.ofNat payload.length) ++ payload

/-- A payload `writeFrame` accepts. -/
def FramePayload (maxLen : UInt32) (payload : Bytes) : Prop :=
  1 ≤ payload.length ∧ payload.length ≤ maxLen.toNat

/-- `readFrame` at the front of a byte sequence. -/
def frameStep (maxLen : UInt32) (bytes : Bytes) : StreamCode.Step Bytes UInt8 Bytes :=
  match readFrame (.of bytes .eof) [] maxLen with
  | (⟨true, payload, _⟩, input) => .item payload input.rest
  | (⟨false, _, []⟩, _) => .done
  | (⟨false, _, e :: es⟩, _) => .fail (e :: es)

theorem FramePayload.toNat_length {maxLen : UInt32} {payload : Bytes}
    (h : FramePayload maxLen payload) : (UInt32.ofNat payload.length).toNat = payload.length := by
  have hm := maxLen.toNat_lt
  have := h.2
  rw [UInt32.toNat_ofNat_of_lt' (by omega : payload.length < 2 ^ 32)]

/-- A frame is read back and leaves what follows it. -/
theorem readFrame_frameBytes {maxLen : UInt32} {payload : Bytes}
    (h : FramePayload maxLen payload) (rest out : Bytes) (e : Ending) :
    readFrame (.of (frameBytes payload ++ rest) e) out maxLen =
      (⟨true, payload, []⟩, .of rest e) := by
  obtain ⟨b₀, b₁, b₂, b₃, hb, hd⟩ := decodeU32Le_encode (UInt32.ofNat payload.length)
  have hn := h.toNat_length
  have h0 : UInt32.ofNat payload.length ≠ 0 := fun h0 => by
    have := h.1
    rw [h0] at hn
    simp at hn
    omega
  have hmax : ¬UInt32.ofNat payload.length > maxLen := by
    rw [gt_iff_lt, UInt32.lt_iff_toNat_lt, hn]
    exact Nat.not_lt.mpr h.2
  rw [frameBytes, hb]
  simp only [List.cons_append, List.nil_append]
  rw [readFrame_header]
  simp only [hd, hn]
  rw [if_neg h0, if_neg hmax, if_pos (by simp)]
  simp

theorem exists_header : ∀ {bytes : Bytes}, ¬bytes.length < 4 →
    ∃ b₀ b₁ b₂ b₃ t, bytes = b₀ :: b₁ :: b₂ :: b₃ :: t
  | b₀ :: b₁ :: b₂ :: b₃ :: t, _ => ⟨b₀, b₁, b₂, b₃, t, rfl⟩
  | [], h | [_], h | [_, _], h | [_, _, _], h => by simp at h

/-- Whatever `readFrame` delivers is a payload, and the stream started with its frame. -/
theorem frameBytes_of_readFrame {maxLen : UInt32} {bytes out payload error : Bytes}
    {e : Ending} {input : IStream}
    (h : readFrame (.of bytes e) out maxLen = (⟨true, payload, error⟩, input)) :
    FramePayload maxLen payload ∧ bytes = frameBytes payload ++ input.rest ∧
      input = .of input.rest e := by
  by_cases hlen : bytes.length < 4
  · rcases eq_or_ne bytes [] with rfl | hb
    · simp [readFrame_nil] at h
    · simp [readFrame_short hb hlen] at h
  · obtain ⟨b₀, b₁, b₂, b₃, t, rfl⟩ := exists_header hlen
    rw [readFrame_header] at h
    simp only at h
    split_ifs at h with h0 hmax hfit
    all_goals simp only [Prod.mk.injEq, FrameRead.mk.injEq, Bool.false_eq_true, false_and] at h
    obtain ⟨⟨-, rfl, -⟩, rfl⟩ := h
    have hpos : decodeU32Le b₀ b₁ b₂ b₃ ≠ 0 := h0
    have hle : (decodeU32Le b₀ b₁ b₂ b₃).toNat ≤ maxLen.toNat := by
      rwa [gt_iff_lt, UInt32.lt_iff_toNat_lt, Nat.not_lt] at hmax
    have hnat : (decodeU32Le b₀ b₁ b₂ b₃).toNat ≠ 0 := fun h0' =>
      hpos (UInt32.toNat_inj.mp (by simpa using h0'))
    have htake : (t.take (decodeU32Le b₀ b₁ b₂ b₃).toNat).length =
        (decodeU32Le b₀ b₁ b₂ b₃).toNat := by
      rw [List.length_take]
      omega
    refine ⟨⟨by omega, by omega⟩, ?_, rfl⟩
    rw [frameBytes, htake, UInt32.ofNat_toNat, encodeU32Le_decode]
    simp [IStream.of]

/-- A failure that is not the end of the stream says why. -/
theorem readFrame_error_ne_nil {maxLen : UInt32} {bytes out got error : Bytes} {e : Ending}
    {input : IStream} (hb : bytes ≠ [])
    (h : readFrame (.of bytes e) out maxLen = (⟨false, got, error⟩, input)) : error ≠ [] := by
  by_cases hlen : bytes.length < 4
  · simp only [readFrame_short hb hlen, Prod.mk.injEq, FrameRead.mk.injEq, true_and] at h
    obtain ⟨⟨-, rfl⟩, -⟩ := h
    simp
  · obtain ⟨b₀, b₁, b₂, b₃, t, rfl⟩ := exists_header hlen
    rw [readFrame_header] at h
    simp only at h
    split_ifs at h
    all_goals
      simp only [Prod.mk.injEq, FrameRead.mk.injEq, true_and, Bool.true_eq_false, false_and] at h
      try (obtain ⟨⟨-, rfl⟩, -⟩ := h; simp)

/-- The framing. -/
def frameCode (maxLen : UInt32) : StreamCode.Code Bytes UInt8 Bytes where
  Valid := FramePayload maxLen
  encode := frameBytes
  step := frameStep maxLen
  encode_ne_nil {payload} h h0 := by
    have := h.1
    simp only [frameBytes, List.append_eq_nil_iff] at h0
    simp [h0.2] at this
  step_nil := by simp [frameStep, readFrame_nil]
  step_encode {payload} h rest := by
    simp only [frameStep, readFrame_frameBytes h]
    rfl
  step_item {bytes payload rest} h := by
    unfold frameStep at h
    split at h
    case h_1 input heq =>
      simp only [StreamCode.Step.item.injEq] at h
      obtain ⟨rfl, rfl⟩ := h
      obtain ⟨hv, hcut, -⟩ := frameBytes_of_readFrame heq
      exact ⟨hv, hcut⟩
    all_goals simp at h
  step_done {bytes} h := by
    by_contra hb
    unfold frameStep at h
    split at h
    case h_2 out input heq => exact readFrame_error_ne_nil hb heq rfl
    all_goals simp at h

/-- `readFrame` is the code's step, whatever the stream's ending. -/
theorem readFrame_of_item {maxLen : UInt32} {bytes payload rest : Bytes}
    (h : (frameCode maxLen).step bytes = .item payload rest) (out : Bytes) (e : Ending) :
    readFrame (.of bytes e) out maxLen = (⟨true, payload, []⟩, .of rest e) := by
  obtain ⟨hv, rfl⟩ := (frameCode maxLen).step_item h
  exact readFrame_frameBytes hv rest out e

theorem readFrame_of_done {maxLen : UInt32} {bytes : Bytes}
    (h : (frameCode maxLen).step bytes = .done) (out : Bytes) (e : Ending) :
    readFrame (.of bytes e) out maxLen = (⟨false, out, []⟩, ⟨[], e, some e⟩) := by
  obtain rfl := (frameCode maxLen).step_done h
  exact readFrame_nil out e maxLen

theorem readFrame_of_fail {maxLen : UInt32} {bytes error : Bytes}
    (h : (frameCode maxLen).step bytes = .fail error) (out : Bytes) (e : Ending) :
    error ≠ [] ∧ (readFrame (.of bytes e) out maxLen).1.ok = false ∧
      (readFrame (.of bytes e) out maxLen).1.error = error := by
  have hstep : frameStep maxLen bytes = .fail error := h
  have hb : bytes ≠ [] := by
    rintro rfl
    rw [(frameCode maxLen).step_nil] at h
    cases h
  unfold frameStep at hstep
  have hne : ∀ {b : UInt8} {bs : Bytes}, b :: bs = error → error ≠ [] := by
    rintro b bs rfl
    simp
  by_cases hlen : bytes.length < 4
  · simp only [readFrame_short hb hlen] at hstep ⊢
    split at hstep <;> simp_all
    exact hne hstep
  · obtain ⟨b₀, b₁, b₂, b₃, t, rfl⟩ := exists_header hlen
    simp only [readFrame_header] at hstep ⊢
    split_ifs at hstep ⊢
    all_goals
      split at hstep <;> simp_all
      try exact hne hstep

/-- A length of `0` or above `maxLen` is refused. -/
theorem exists_fail_of_header {maxLen : UInt32} {b₀ b₁ b₂ b₃ : UInt8} (rest : Bytes)
    (hsize : decodeU32Le b₀ b₁ b₂ b₃ = 0 ∨ decodeU32Le b₀ b₁ b₂ b₃ > maxLen) :
    ∃ error, (frameCode maxLen).step (b₀ :: b₁ :: b₂ :: b₃ :: rest) = .fail error := by
  change ∃ error, frameStep maxLen _ = .fail error
  unfold frameStep
  simp only [readFrame_header]
  by_cases h0 : decodeU32Le b₀ b₁ b₂ b₃ = 0
  · exact ⟨lit "invalid frame length: 0", by rw [if_pos h0]; rfl⟩
  · exact ⟨lit "frame length exceeds max",
      by rw [if_neg h0, if_pos (hsize.resolve_left h0)]; rfl⟩

/-! ## Successive calls -/

theorem rest_lt_of_readFrame {maxLen : UInt32} {input input' : IStream}
    {out payload error : Bytes}
    (h : readFrame input out maxLen = (⟨true, payload, error⟩, input')) :
    input'.rest.length < input.rest.length := by
  obtain ⟨bytes, e, met⟩ := input
  cases met with
  | some m => simp [readFrame_met] at h
  | none =>
    obtain ⟨hv, hcut, -⟩ := frameBytes_of_readFrame h
    have := hv.1
    simp only [hcut, frameBytes, List.length_append]
    omega

/-- Successive `readFrame` calls until one returns `false` : the payloads, and the error
of that last call. -/
def readFrames (input : IStream) (maxLen : UInt32) : List Bytes × Bytes :=
  match _h : readFrame input [] maxLen with
  | (⟨false, _, error⟩, _) => ([], error)
  | (⟨true, payload, _⟩, input') =>
    (payload :: (readFrames input' maxLen).1, (readFrames input' maxLen).2)
termination_by input.rest.length
decreasing_by all_goals exact rest_lt_of_readFrame _h

/-- Successive `writeFrame` calls : what they return, and the stream after them. -/
def writeFrames (output : OStream) (maxLen : UInt32) : List Bytes → List Bool × OStream
  | [] => ([], output)
  | p :: ps =>
    let r := writeFrame output p maxLen
    let rs := writeFrames r.2.2 maxLen ps
    (r.1 :: rs.1, rs.2)

/-- Successive reads are the reading of the code. -/
theorem readFrames_of (bytes : Bytes) (e : Ending) (maxLen : UInt32) :
    readFrames (.of bytes e) maxLen =
      (((frameCode maxLen).readAll bytes).1, ((frameCode maxLen).readAll bytes).2.getD []) := by
  rw [readFrames]
  cases hs : (frameCode maxLen).step bytes with
  | done =>
    have hr := readFrame_of_done hs [] e
    rw [(frameCode maxLen).readAll_of_done hs]
    split <;> simp_all
  | fail error =>
    obtain ⟨-, hok, herr⟩ := readFrame_of_fail hs [] e
    rw [(frameCode maxLen).readAll_of_fail hs]
    split <;> simp_all
  | item payload rest =>
    have hlt := (frameCode maxLen).length_lt_of_step_item hs
    have hr := readFrame_of_item hs [] e
    have ih := readFrames_of rest e maxLen
    rw [(frameCode maxLen).readAll_of_item hs]
    split <;> simp_all
termination_by bytes.length

/-- On a good stream `writeFrame` appends the frame. -/
theorem writeFrame_sound {output : OStream} (ho : output.Sound) {maxLen : UInt32}
    {payload : Bytes} (h : FramePayload maxLen payload) :
    (writeFrame output payload maxLen).1 = true ∧
      (writeFrame output payload maxLen).2.2.Sound ∧
      (writeFrame output payload maxLen).2.2.written = output.written ++ frameBytes payload := by
  obtain ⟨hgood, hout⟩ := ho
  have hm := maxLen.toNat_lt
  have h1 := h.1
  have h2 := h.2
  rw [writeFrame, if_neg (by omega), if_neg (by omega), if_neg (by omega)]
  simp [OStream.write, OStream.flush, OStream.Sound, hgood, hout, frameBytes]

/-- A write appends its bytes, or only the first of them when the stream fails. -/
theorem exists_torn_write (s : OStream) (data : Bytes) :
    ∃ torn, (s.write data).written = s.written ++ torn ∧ torn <+: data ∧
      ((s.write data).good = true → torn = data) := by
  unfold OStream.write
  by_cases hgood : s.good = true
  · rw [if_pos hgood]
    cases s.outcomes 0 with
    | ok => exact ⟨data, rfl, List.prefix_rfl, fun _ => rfl⟩
    | failed k => exact ⟨data.take k, rfl, List.take_prefix k data, fun h => by cases h⟩
  · rw [if_neg hgood]
    exact ⟨[], by simp, List.nil_prefix, fun h => absurd h hgood⟩

/-- On any stream `writeFrame` appends the frame, or only the first of its bytes when it
fails. -/
theorem exists_torn_writeFrame (output : OStream) {maxLen : UInt32} {payload : Bytes}
    (h : FramePayload maxLen payload) :
    ∃ torn, (writeFrame output payload maxLen).2.2.written = output.written ++ torn ∧
      torn <+: frameBytes payload ∧
        ((writeFrame output payload maxLen).1 = true → torn = frameBytes payload) := by
  have hm := maxLen.toNat_lt
  have h1 := h.1
  have h2 := h.2
  rw [writeFrame, if_neg (by omega), if_neg (by omega), if_neg (by omega)]
  dsimp only
  obtain ⟨t₁, hw₁, hp₁, hg₁⟩ :=
    exists_torn_write output (encodeU32Le (UInt32.ofNat payload.length))
  generalize output.write (encodeU32Le (UInt32.ofNat payload.length)) = o₁ at *
  obtain ⟨t₂, hw₂, hp₂, hg₂⟩ := exists_torn_write o₁ payload
  generalize o₁.write payload = o₂ at *
  obtain ⟨t₃, hw₃, hp₃, -⟩ := exists_torn_write o₂ []
  cases List.prefix_nil.mp hp₃
  by_cases hgood₁ : o₁.good = true
  swap
  · exact ⟨t₁, by simp [hgood₁, hw₁], hp₁.trans (List.prefix_append _ _), by simp [hgood₁]⟩
  by_cases hgood₂ : o₂.good = true
  swap
  · refine ⟨t₁ ++ t₂, by simp [hgood₁, hgood₂, hw₁, hw₂], ?_, by simp [hgood₁, hgood₂]⟩
    rw [hg₁ hgood₁]
    exact (List.prefix_append_right_inj _).mpr hp₂
  refine ⟨frameBytes payload, ?_, List.prefix_rfl, fun _ => rfl⟩
  have hflush : o₂.flush.written = output.written ++ frameBytes payload := by
    rw [OStream.flush, hw₃, hw₂, hw₁, hg₁ hgood₁, hg₂ hgood₂]
    simp [frameBytes]
  by_cases hgood₃ : o₂.flush.good = true <;> simp [hgood₁, hgood₂, hgood₃, hflush]

theorem writeFrames_sound {maxLen : UInt32} : ∀ {payloads : List Bytes} {output : OStream},
    output.Sound → (∀ p ∈ payloads, FramePayload maxLen p) →
      (writeFrames output maxLen payloads).1 = payloads.map (fun _ => true) ∧
        (writeFrames output maxLen payloads).2.written =
          output.written ++ (frameCode maxLen).encodeAll payloads
  | [], output, _, _ => by simp [writeFrames]
  | p :: ps, output, ho, hp => by
    obtain ⟨hok, hsound, hwritten⟩ := writeFrame_sound ho (hp p (by simp))
    have hps : ∀ q ∈ ps, FramePayload maxLen q := fun q hq => hp q (by simp [hq])
    obtain ⟨hoks, hall⟩ := writeFrames_sound hsound hps
    simp only [writeFrames, hok, hoks, hall, hwritten, List.map_cons, true_and]
    rw [StreamCode.Code.encodeAll_cons, List.append_assoc]
    rfl

/-- The bytes of successive `writeFrame` calls on a good stream. -/
def emitted (maxLen : UInt32) (payloads : List Bytes) : Bytes :=
  (writeFrames ⟨[], true, fun _ => .ok⟩ maxLen payloads).2.written

theorem emitted_eq {maxLen : UInt32} {payloads : List Bytes}
    (hp : ∀ p ∈ payloads, FramePayload maxLen p) :
    emitted maxLen payloads = (frameCode maxLen).encodeAll payloads := by
  have ho : OStream.Sound ⟨[], true, fun _ => .ok⟩ := ⟨rfl, fun _ => rfl⟩
  simpa [emitted] using (writeFrames_sound ho hp).2

/-- An error of the code's reading is not empty, so `readFrames` ends cleanly exactly
when the code does. -/
theorem readFrames_clean_iff (bytes : Bytes) (maxLen : UInt32) :
    (readFrames (.of bytes .eof) maxLen).2 = [] ↔
      ((frameCode maxLen).readAll bytes).2 = none := by
  rw [readFrames_of]
  cases he : ((frameCode maxLen).readAll bytes).2 with
  | none => simp
  | some error =>
    obtain ⟨-, t, -, ht⟩ := (frameCode maxLen).readAll_sound bytes
    rw [he] at ht
    simpa using (readFrame_of_fail ht [] .eof).1

/-- Framing is a lossless, prefix-safe code. What `writeFrame` wrote is read back as
written. A strict prefix gives exactly the payloads whose frames it holds, and ends
cleanly exactly on a frame boundary. A stream read to a clean end is what `writeFrame`
writes for the payloads it gave. A header of `0` or above `maxLen` at a frame boundary
ends the reading with an error. -/
theorem framing_lossless (maxLen : UInt32) :
    (∀ payloads : List Bytes, (∀ p ∈ payloads, FramePayload maxLen p) →
      (∀ output : OStream, output.Sound →
        (writeFrames output maxLen payloads).1 = payloads.map (fun _ => true) ∧
          (writeFrames output maxLen payloads).2.written =
            output.written ++ emitted maxLen payloads) ∧
      readFrames (.of (emitted maxLen payloads) .eof) maxLen = (payloads, []) ∧
      ∀ p, p <+: emitted maxLen payloads → p ≠ emitted maxLen payloads →
        ∃ k < payloads.length, (readFrames (.of p .eof) maxLen).1 = payloads.take k ∧
          emitted maxLen (payloads.take k) <+: p ∧
          ¬emitted maxLen (payloads.take (k + 1)) <+: p ∧
          ((readFrames (.of p .eof) maxLen).2 = [] ↔ p = emitted maxLen (payloads.take k))) ∧
    (∀ bytes payloads, readFrames (.of bytes .eof) maxLen = (payloads, []) →
      (∀ p ∈ payloads, FramePayload maxLen p) ∧ bytes = emitted maxLen payloads) ∧
    ∀ payloads : List Bytes, (∀ p ∈ payloads, FramePayload maxLen p) →
      ∀ b₀ b₁ b₂ b₃ rest,
        decodeU32Le b₀ b₁ b₂ b₃ = 0 ∨ decodeU32Le b₀ b₁ b₂ b₃ > maxLen →
        ∃ error, error ≠ [] ∧
          readFrames (.of (emitted maxLen payloads ++ b₀ :: b₁ :: b₂ :: b₃ :: rest) .eof) maxLen =
            (payloads, error) := by
  refine ⟨fun payloads hp => ⟨fun output ho => ?_, ?_, fun p hpre hne => ?_⟩,
    fun bytes payloads h => ?_, fun payloads hp b₀ b₁ b₂ b₃ rest hsize => ?_⟩
  · rw [emitted_eq hp]
    exact writeFrames_sound ho hp
  · rw [readFrames_of, emitted_eq hp, (frameCode maxLen).readAll_encodeAll hp]
    rfl
  · have htake : ∀ n, emitted maxLen (payloads.take n) =
        (frameCode maxLen).encodeAll (payloads.take n) := fun n =>
      emitted_eq fun q hq => hp q (List.mem_of_mem_take hq)
    rw [emitted_eq hp] at hpre hne
    obtain ⟨k, hk, hread, hin, hout, hend⟩ := (frameCode maxLen).readAll_cut hp hpre hne
    refine ⟨k, hk, ?_, ?_, ?_, ?_⟩
    · rw [readFrames_of, hread]
    · rwa [htake]
    · rwa [htake]
    · rw [htake, readFrames_clean_iff, hend]
  · have hclean := (readFrames_clean_iff bytes maxLen).mp (by rw [h])
    have hread : (frameCode maxLen).readAll bytes = (payloads, none) := by
      refine Prod.ext ?_ hclean
      rw [readFrames_of] at h
      exact (Prod.mk.inj h).1
    obtain ⟨hv, hb⟩ := (frameCode maxLen).encodeAll_of_readAll hread
    exact ⟨hv, by rw [hb, emitted_eq hv]⟩
  · obtain ⟨error, hfail⟩ := exists_fail_of_header rest hsize
    refine ⟨error, (readFrame_of_fail hfail [] .eof).1, ?_⟩
    rw [readFrames_of, emitted_eq hp, (frameCode maxLen).readAll_encodeAll_fail hp hfail]
    rfl

end ProviderSdk

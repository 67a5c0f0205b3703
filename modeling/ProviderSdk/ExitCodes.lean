import ProviderSdk.Answers

/-!
# What the exit code says

The codes of `run_loop`, as `src/anolis/provider_sdk/runtime.hpp` documents them, against how the
run ended.

`Ends` is the first event that stops a run, read off the input, the codec and what the output
takes, with the requests before it. There is one (`Ends.unique`), and the loop stops at it
(`serve_ends`). But a read failure between two frames is reported as a clean end of file : the
code is right exactly when that is not how the input ends (`exit_classifies_iff`).
-/

namespace ProviderSdk

variable {σ : Type}

/-! ## How a run ends -/

/-- What stops a run. -/
inductive Stop where
  /-- The input ended between two frames. -/
  | endOfFile
  /-- Reading failed between two frames. -/
  | readFailure
  /-- What is left of the input starts with no frame. -/
  | framing
  /-- A frame is no request. -/
  | unparseable
  /-- A response could not be written. -/
  | unwritable
  deriving DecidableEq, Repr

/-- The front of an input that is neither over nor a frame. -/
inductive Malformed : Bytes → Prop
  /-- A header that is cut off. -/
  | header {bytes : Bytes} (hne : bytes ≠ []) (h : bytes.length < 4) : Malformed bytes
  /-- A length of zero, or over the cap. -/
  | length {b₀ b₁ b₂ b₃ : UInt8} (rest : Bytes)
      (h : decodeU32Le b₀ b₁ b₂ b₃ = 0 ∨ kMaxFrameBytes < decodeU32Le b₀ b₁ b₂ b₃) :
      Malformed (b₀ :: b₁ :: b₂ :: b₃ :: rest)
  /-- A payload that is cut off. -/
  | payload {b₀ b₁ b₂ b₃ : UInt8} {rest : Bytes}
      (h : rest.length < (decodeU32Le b₀ b₁ b₂ b₃).toNat) :
      Malformed (b₀ :: b₁ :: b₂ :: b₃ :: rest)

/-- The `k`-th frame written to a stream goes through : its header, its payload and the flush. -/
def OStream.Takes (output : OStream) (k : ℕ) : Prop :=
  output.good = true ∧ ∀ i < 3, output.outcomes (3 * k + i) = .ok

/-- How a run on the bytes ends, with the requests it answers or tries to, and where frames the
output takes. -/
inductive Ends (codec : Codec) (ending : Ending) : Bytes → (ℕ → Prop) → List Request → Stop → Prop
  | endOfFile {takes : ℕ → Prop} (h : ending = .eof) : Ends codec ending [] takes [] .endOfFile
  | readFailure {takes : ℕ → Prop} (h : ending = .failure) :
      Ends codec ending [] takes [] .readFailure
  | framing {bytes : Bytes} {takes : ℕ → Prop} (h : Malformed bytes) :
      Ends codec ending bytes takes [] .framing
  | unparseable {frame rest : Bytes} {takes : ℕ → Prop} (hframe : FramePayload kMaxFrameBytes frame)
      (h : codec.parse frame = none) :
      Ends codec ending (frameBytes frame ++ rest) takes [] .unparseable
  | unwritable {frame rest : Bytes} {request : Request} {takes : ℕ → Prop}
      (hframe : FramePayload kMaxFrameBytes frame) (hparse : codec.parse frame = some request)
      (h : ¬takes 0) : Ends codec ending (frameBytes frame ++ rest) takes [request] .unwritable
  | next {frame rest : Bytes} {request : Request} {takes : ℕ → Prop} {requests : List Request}
      {stop : Stop} (hframe : FramePayload kMaxFrameBytes frame)
      (hparse : codec.parse frame = some request) (htakes : takes 0)
      (h : Ends codec ending rest (fun k => takes (k + 1)) requests stop) :
      Ends codec ending (frameBytes frame ++ rest) takes (request :: requests) stop

/-! ### There is one end -/

/-- What starts a malformed input is a failure of the framing. -/
theorem Malformed.fails {bytes : Bytes} (h : Malformed bytes) (e : Ending) :
    ∃ out error rest, readFrame (.of bytes e) [] kMaxFrameBytes = (⟨false, out, error⟩, rest) ∧
      error ≠ [] := by
  cases h with
  | header hne h => exact ⟨_, _, _, readFrame_short hne h [] e _, by simp⟩
  | @length b₀ b₁ b₂ b₃ rest h =>
    rw [readFrame_header]
    dsimp only
    by_cases h0 : decodeU32Le b₀ b₁ b₂ b₃ = 0
    · rw [if_pos h0]
      exact ⟨_, _, _, rfl, by simp⟩
    · rw [if_neg h0, if_pos (h.resolve_left h0)]
      exact ⟨_, _, _, rfl, by simp⟩
  | @payload b₀ b₁ b₂ b₃ rest h =>
    rw [readFrame_header]
    dsimp only
    split_ifs
    · exact ⟨_, _, _, rfl, by simp⟩
    · exact ⟨_, _, _, rfl, by simp⟩
    · omega
    · exact ⟨_, _, _, rfl, by simp⟩

/-- The only failures of the framing are at the end of the input and on a malformed one. -/
theorem malformed_of_readFrame {bytes out error : Bytes} {e : Ending} {rest : IStream}
    (hne : bytes ≠ [])
    (h : readFrame (.of bytes e) [] kMaxFrameBytes = (⟨false, out, error⟩, rest)) :
    Malformed bytes := by
  by_cases hlen : bytes.length < 4
  · exact .header hne hlen
  · obtain ⟨b₀, b₁, b₂, b₃, t, rfl⟩ := exists_header hlen
    rw [readFrame_header] at h
    dsimp only at h
    split_ifs at h with h0 hmax hfit
    · exact .length t (.inl h0)
    · exact .length t (.inr hmax)
    · cases h
    · exact .payload (Nat.not_le.mp hfit)

theorem Malformed.ne_nil {bytes : Bytes} (h : Malformed bytes) : bytes ≠ [] := by
  cases h with
  | header hne _ => exact hne
  | length => exact List.cons_ne_nil _ _
  | payload => exact List.cons_ne_nil _ _

theorem Malformed.ne_frame {bytes frame rest : Bytes} (h : Malformed bytes)
    (hframe : FramePayload kMaxFrameBytes frame) : bytes ≠ frameBytes frame ++ rest := by
  rintro rfl
  obtain ⟨out, error, input, hread, -⟩ := h.fails .eof
  rw [readFrame_frameBytes hframe] at hread
  cases hread

theorem frame_ne_nil {frame rest : Bytes} : frameBytes frame ++ rest ≠ [] := by
  simp [frameBytes, encodeU32Le]

theorem frame_inj {frame frame' rest rest' : Bytes} (hframe : FramePayload kMaxFrameBytes frame)
    (hframe' : FramePayload kMaxFrameBytes frame')
    (h : frameBytes frame ++ rest = frameBytes frame' ++ rest') : frame = frame' ∧ rest = rest' := by
  have hread := readFrame_frameBytes hframe rest [] .eof
  rw [h, readFrame_frameBytes hframe'] at hread
  simp only [IStream.of, Prod.mk.injEq, FrameRead.mk.injEq, IStream.mk.injEq] at hread
  exact ⟨hread.1.2.1.symm, hread.2.1.symm⟩

/-- How a run ends on no bytes. -/
theorem Ends.nil_cases {codec : Codec} {e : Ending} {takes : ℕ → Prop}
    {requests : List Request} {stop : Stop} (h : Ends codec e [] takes requests stop) :
    requests = [] ∧ (e = .eof ∧ stop = .endOfFile ∨ e = .failure ∧ stop = .readFailure) := by
  generalize hbytes : ([] : Bytes) = bytes at h
  cases h with
  | endOfFile he => exact ⟨rfl, .inl ⟨he, rfl⟩⟩
  | readFailure he => exact ⟨rfl, .inr ⟨he, rfl⟩⟩
  | framing hm => exact absurd hbytes.symm hm.ne_nil
  | unparseable | unwritable | next => exact absurd hbytes.symm frame_ne_nil

/-- How a run ends, or goes on, on bytes that start with a frame. -/
theorem Ends.frame_cases {codec : Codec} {e : Ending} {frame rest : Bytes} {takes : ℕ → Prop}
    {requests : List Request} {stop : Stop} (hframe : FramePayload kMaxFrameBytes frame)
    (h : Ends codec e (frameBytes frame ++ rest) takes requests stop) :
    (codec.parse frame = none ∧ requests = [] ∧ stop = .unparseable) ∨
      ∃ request, codec.parse frame = some request ∧
        ((¬takes 0 ∧ requests = [request] ∧ stop = .unwritable) ∨
          takes 0 ∧ ∃ later, requests = request :: later ∧
            Ends codec e rest (fun k => takes (k + 1)) later stop) := by
  generalize hbytes : frameBytes frame ++ rest = bytes at h
  cases h with
  | endOfFile | readFailure => exact absurd hbytes frame_ne_nil
  | framing hm => exact absurd hbytes.symm (hm.ne_frame hframe)
  | unparseable hframe' hparse =>
    obtain ⟨rfl, rfl⟩ := frame_inj hframe hframe' hbytes
    exact .inl ⟨hparse, rfl, rfl⟩
  | unwritable hframe' hparse htakes =>
    obtain ⟨rfl, rfl⟩ := frame_inj hframe hframe' hbytes
    exact .inr ⟨_, hparse, .inl ⟨htakes, rfl, rfl⟩⟩
  | next hframe' hparse htakes hrest =>
    obtain ⟨rfl, rfl⟩ := frame_inj hframe hframe' hbytes
    exact .inr ⟨_, hparse, .inr ⟨htakes, _, rfl, hrest⟩⟩

/-- A run ends in one way. -/
theorem Ends.unique {codec : Codec} {e : Ending} {bytes : Bytes} {takes : ℕ → Prop}
    {requests requests' : List Request} {stop stop' : Stop}
    (h : Ends codec e bytes takes requests stop) (h' : Ends codec e bytes takes requests' stop') :
    requests = requests' ∧ stop = stop' := by
  induction h generalizing requests' stop' with
  | endOfFile he =>
    obtain ⟨rfl, ⟨-, rfl⟩ | ⟨he', -⟩⟩ := h'.nil_cases
    · exact ⟨rfl, rfl⟩
    · cases he.symm.trans he'
  | readFailure he =>
    obtain ⟨rfl, ⟨he', -⟩ | ⟨-, rfl⟩⟩ := h'.nil_cases
    · cases he.symm.trans he'
    · exact ⟨rfl, rfl⟩
  | framing hm =>
    cases h' with
    | endOfFile | readFailure => exact absurd rfl hm.ne_nil
    | framing => exact ⟨rfl, rfl⟩
    | unparseable hframe | unwritable hframe | next hframe => exact absurd rfl (hm.ne_frame hframe)
  | unparseable hframe hparse =>
    obtain ⟨-, rfl, rfl⟩ | ⟨request, hparse', -⟩ := h'.frame_cases hframe
    · exact ⟨rfl, rfl⟩
    · cases hparse.symm.trans hparse'
  | unwritable hframe hparse htakes =>
    obtain ⟨hparse', -⟩ | ⟨request, hparse', hend⟩ := h'.frame_cases hframe
    · cases hparse.symm.trans hparse'
    obtain ⟨-, rfl, rfl⟩ | ⟨htakes', -⟩ := hend
    · rw [Option.some.inj (hparse.symm.trans hparse')]
      exact ⟨rfl, rfl⟩
    · exact absurd htakes' htakes
  | next hframe hparse htakes _ ih =>
    obtain ⟨hparse', -⟩ | ⟨request, hparse', hend⟩ := h'.frame_cases hframe
    · cases hparse.symm.trans hparse'
    obtain ⟨htakes', -⟩ | ⟨-, later, rfl, hrest⟩ := hend
    · exact absurd htakes htakes'
    · obtain ⟨rfl, rfl⟩ := ih hrest
      rw [Option.some.inj (hparse.symm.trans hparse')]
      exact ⟨rfl, rfl⟩

/-! ## The loop stops there -/

/-- Whether a frame is written is up to the stream, not to the frame. -/
theorem writeFrame_takes (output : OStream) {payload : Bytes}
    (h : FramePayload kMaxFrameBytes payload) :
    ((writeFrame output payload kMaxFrameBytes).1 = true ↔ output.Takes 0) ∧
      ((writeFrame output payload kMaxFrameBytes).1 = true →
        (writeFrame output payload kMaxFrameBytes).2.2.Takes = fun k => output.Takes (k + 1)) := by
  have hmax : kMaxFrameBytes.toNat < 2 ^ 32 := kMaxFrameBytes.toNat_lt
  obtain ⟨h1, h2⟩ := h
  have htakes : output.Takes 0 ↔ output.good = true ∧ output.outcomes 0 = .ok ∧
      output.outcomes 1 = .ok ∧ output.outcomes 2 = .ok := by
    unfold OStream.Takes
    refine and_congr_right fun _ => ⟨fun h => ⟨h 0 (by omega), h 1 (by omega), h 2 (by omega)⟩,
      fun h i hi => ?_⟩
    obtain rfl | rfl | rfl : i = 0 ∨ i = 1 ∨ i = 2 := by omega
    · exact h.1
    · exact h.2.1
    · exact h.2.2
  rw [htakes, writeFrame, if_neg (by omega), if_neg (by omega), if_neg (by omega)]
  by_cases hgood : output.good = true
  swap
  · simp [OStream.write, hgood]
  cases h0 : output.outcomes 0 with
  | failed n => simp [OStream.write, hgood, h0]
  | ok =>
    cases h1 : output.outcomes 1 with
    | failed n => simp [OStream.write, hgood, h0, h1]
    | ok =>
      cases h2 : output.outcomes 2 with
      | failed n => simp [OStream.write, OStream.flush, hgood, h0, h1, h2]
      | ok =>
        refine ⟨by simp [OStream.write, OStream.flush, hgood, h0, h1, h2], fun _ => ?_⟩
        ext k
        simp only [OStream.write, OStream.flush, OStream.Takes, hgood, h0, h1, h2, if_true,
          Bool.not_true, Bool.false_eq_true, if_false, zero_add, mul_add, mul_one]
        have hshift : ∀ i, 3 * k + i + 1 + 1 + 1 = 3 * k + 3 + i := fun i => by omega
        simp only [hshift]

theorem reply_ends (codec : Codec) (output : OStream) (request : Request) (own : Response) :
    (reply codec output request own : Sdk σ _).Ensures fun out es =>
      (out.1 = true ↔ output.Takes 0) ∧
        (out.1 = true → out.2.Takes = fun k => output.Takes (k + 1)) ∧
          (ledger es).1 = [] ∧ (ledger es).2.1 = [] := by
  obtain ⟨htakes, hnext⟩ := writeFrame_takes output (encodeResponse_spec codec request own).2.1
  refine .ite (fun hok s => ?_) fun hok s => ?_
  · exact ⟨iff_of_true rfl (htakes.mp hok), fun _ => hnext hok, rfl, rfl⟩
  · exact ⟨iff_of_false Bool.false_ne_true fun h => hok (htakes.mpr h),
      fun h => absurd h Bool.false_ne_true, rfl, rfl⟩

/-- A turn of the loop answers its request if the output takes the frame. -/
theorem serveRequest_ends (host : Host σ) (codec : Codec) (flags : Flags) (output : OStream)
    (request : Request) :
    (serveRequest host codec flags output request).Ensures fun served es =>
      (served.written = true ↔ output.Takes 0) ∧
        (served.written = true → served.output.Takes = fun k => output.Takes (k + 1)) ∧
          (ledger es).1 = [request] ∧ (ledger es).2.1.map Prod.fst = [request] := by
  refine .bind (R := fun _ es => es = [.received request]) (fun _ => rfl) fun _ _ h => h ▸ ?_
  refine .bind (startUp_ledger flags request) fun flags es₁ h₁ => ?_
  refine .bind (dispatch_ledger flags request) fun out es₂ h₂ => ?_
  refine .bind (reply_ends codec output request out.1) fun replied es₃ ⟨h₃, h₄, h₅, h₆⟩ =>
    .pure ⟨h₃, h₄, ?_, ?_⟩
  · simp [ledger_received, ledger_append, h₁, h₂, h₅]
  · simp [ledger_received, ledger_append, h₁, h₂, h₆]

/-- The code the loop returns. -/
def Stop.code : Stop → ℕ
  | .endOfFile => 0
  | .readFailure => 0
  | .framing => 2
  | .unparseable => 3
  | .unwritable => 5

/-- The code tells the ends apart, but for a read failure. -/
theorem Stop.code_eq_iff {stop : Stop} (h : stop ≠ .readFailure) :
    (stop.code = 0 ↔ stop = .endOfFile) ∧ (stop.code = 2 ↔ stop = .framing) ∧
      (stop.code = 3 ↔ stop = .unparseable) ∧ (stop.code = 5 ↔ stop = .unwritable) ∧
        stop.code ∈ [0, 2, 3, 5] := by
  cases stop with
  | readFailure => exact absurd rfl h
  | endOfFile | framing | unparseable | unwritable => decide

/-- Each run ends somewhere, and is the loop's : its code, and the requests it handled. -/
theorem serve_ends (host : Host σ) (codec : Codec) (flags : Flags) (bytes : Bytes) (e : Ending)
    (output : OStream) :
    (serve host codec flags (.of bytes e) output).Ensures fun out es =>
      ∃ requests stop, Ends codec e bytes output.Takes requests stop ∧ out.1 = stop.code ∧
        (ledger es).1 = requests ∧ (ledger es).2.1.map Prod.fst = requests := by
  refine serve_induction (P := fun _ input output m => ∀ bytes, input = .of bytes e →
    m.Ensures fun out es => ∃ requests stop, Ends codec e bytes output.Takes requests stop ∧
      out.1 = stop.code ∧ (ledger es).1 = requests ∧ (ledger es).2.1.map Prod.fst = requests)
    ?_ ?_ ?_ flags (.of bytes e) output bytes rfl
  · rintro flags input output out error rest hread bytes rfl
    by_cases hne : bytes = []
    · subst hne
      have herror : error = [] := by
        rw [readFrame_nil] at hread
        simp only [Prod.mk.injEq, FrameRead.mk.injEq] at hread
        exact hread.1.2.2.symm
      rw [if_pos herror]
      cases e with
      | eof => exact .pure ⟨[], .endOfFile, .endOfFile rfl, rfl, rfl, rfl⟩
      | failure => exact .pure ⟨[], .readFailure, .readFailure rfl, rfl, rfl, rfl⟩
    · rw [if_neg (readFrame_error_ne_nil hne hread)]
      exact .pure ⟨[], .framing, .framing (malformed_of_readFrame hne hread), rfl, rfl, rfl⟩
  · rintro flags input output frame error rest hread hparse bytes rfl
    obtain ⟨hframe, rfl, -⟩ := frameBytes_of_readFrame hread
    exact .pure ⟨[], .unparseable, .unparseable hframe hparse, rfl, rfl, rfl⟩
  · rintro flags input output frame error rest request hread hparse ih bytes rfl
    obtain ⟨hframe, rfl, hrest⟩ := frameBytes_of_readFrame hread
    refine .bind (serveRequest_ends host codec flags output request) fun served es hserved => ?_
    obtain ⟨htakes, hnext, hreceived, hmade⟩ := hserved
    refine .ite (fun hok => ?_) fun hok => .pure ?_
    · refine (ih served.flags served.output rest.rest hrest).mono fun out es' h => ?_
      obtain ⟨requests, stop, hends, hcode, hreceived', hmade'⟩ := h
      rw [hnext hok] at hends
      refine ⟨request :: requests, stop, .next hframe hparse (htakes.mp hok) hends, hcode, ?_, ?_⟩
      · rw [ledger_append, hreceived, hreceived']
        rfl
      · rw [ledger_append, List.map_append, hmade, hmade']
        rfl
    · rw [List.append_nil]
      exact ⟨[request], .unwritable, .unwritable hframe hparse fun h => hok (htakes.mpr h), rfl,
        hreceived, hmade⟩

/-! ## The code and the end -/

/-- The input fails after frames that are all requests, whose answers the output takes. -/
def FailsBetweenFrames (codec : Codec) (bytes : Bytes) (e : Ending) (output : OStream) : Prop :=
  e = .failure ∧ ∃ frames : List Bytes, bytes = frames.flatMap frameBytes ∧
    (∀ frame ∈ frames, FramePayload kMaxFrameBytes frame ∧ (codec.parse frame).isSome) ∧
      ∀ k < frames.length, output.Takes k

theorem exists_ends_of_frames {codec : Codec} {frames : List Bytes} {takes : ℕ → Prop}
    (hframes : ∀ frame ∈ frames, FramePayload kMaxFrameBytes frame ∧ (codec.parse frame).isSome)
    (htakes : ∀ k < frames.length, takes k) :
    ∃ requests, Ends codec .failure (frames.flatMap frameBytes) takes requests .readFailure := by
  induction frames generalizing takes with
  | nil => exact ⟨[], .readFailure rfl⟩
  | cons frame frames ih =>
    obtain ⟨⟨hframe, hparse⟩, hframes⟩ := List.forall_mem_cons.mp hframes
    obtain ⟨request, hrequest⟩ := Option.isSome_iff_exists.mp hparse
    have hnext : ∀ k < frames.length, takes (k + 1) := fun k hk =>
      htakes (k + 1) (by simpa using hk)
    obtain ⟨requests, h⟩ := ih hframes hnext
    exact ⟨request :: requests, .next hframe hrequest (htakes 0 (by simp)) h⟩

theorem frames_of_ends {codec : Codec} {e : Ending} {bytes : Bytes} {takes : ℕ → Prop}
    {requests : List Request} {stop : Stop} (h : Ends codec e bytes takes requests stop)
    (hstop : stop = .readFailure) : e = .failure ∧ ∃ frames : List Bytes,
      bytes = frames.flatMap frameBytes ∧
        (∀ frame ∈ frames, FramePayload kMaxFrameBytes frame ∧ (codec.parse frame).isSome) ∧
          ∀ k < frames.length, takes k := by
  induction h with
  | endOfFile | framing | unparseable | unwritable => cases hstop
  | readFailure he => exact ⟨he, [], rfl, by simp, by simp⟩
  | @next frame rest request takes requests stop hframe hparse htakes _ ih =>
    obtain ⟨he, frames, rfl, hframes, hnext⟩ := ih hstop
    refine ⟨he, frame :: frames, rfl, ?_, fun k hk => ?_⟩
    · exact List.forall_mem_cons.mpr ⟨⟨hframe, by rw [hparse]; rfl⟩, hframes⟩
    · cases k with
      | zero => exact htakes
      | succ k => exact hnext k (by simpa using hk)

/-- A run that ends with a read failure between two frames is one whose input does. -/
theorem failsBetweenFrames_iff {codec : Codec} {bytes : Bytes} {e : Ending} {output : OStream} :
    FailsBetweenFrames codec bytes e output ↔
      ∃ requests, Ends codec e bytes output.Takes requests .readFailure := by
  constructor
  · rintro ⟨rfl, frames, rfl, hframes, htakes⟩
    exact exists_ends_of_frames hframes htakes
  · rintro ⟨requests, h⟩
    exact frames_of_ends h rfl

/-- The code says how the run ended, and nothing after that was handled. -/
structure ExitClassifies (codec : Codec) (bytes : Bytes) (e : Ending) (output : OStream)
    (ran : Ran Event σ (ℕ × OStream)) : Prop where
  clean : ran.value.1 = 0 ↔ ∃ requests, Ends codec e bytes output.Takes requests .endOfFile
  readError : ran.value.1 = 2 ↔ ∃ requests,
    Ends codec e bytes output.Takes requests .framing ∨
      Ends codec e bytes output.Takes requests .readFailure
  parseError : ran.value.1 = 3 ↔
    ∃ requests, Ends codec e bytes output.Takes requests .unparseable
  writeError : ran.value.1 = 5 ↔
    ∃ requests, Ends codec e bytes output.Takes requests .unwritable
  codes : ran.value.1 ∈ [0, 2, 3, 5]
  handled : ∀ requests stop, Ends codec e bytes output.Takes requests stop →
    ran.events.filterMap Event.received? = requests ∧
      (ran.events.filterMap Event.made?).map Prod.fst = requests

theorem runLoop_ends (host : Host σ) (codec : Codec) (bytes : Bytes) (e : Ending)
    (output : OStream) (s : σ) :
    ∃ requests stop, Ends codec e bytes output.Takes requests stop ∧
      (runLoop host codec (.of bytes e) output s).value.1 = stop.code ∧
        (runLoop host codec (.of bytes e) output s).events.filterMap Event.received? = requests ∧
          ((runLoop host codec (.of bytes e) output s).events.filterMap Event.made?).map Prod.fst =
            requests := by
  obtain ⟨requests, stop, hends, hcode, hreceived, hmade⟩ :=
    serve_ends host codec ⟨false, false⟩ bytes e output s
  have hevents : (runLoop host codec (.of bytes e) output s).events =
      (serve host codec ⟨false, false⟩ (.of bytes e) output s).events ++ [.onShutdown] := rfl
  refine ⟨requests, stop, hends, hcode, ?_, ?_⟩
  · rw [hevents, List.filterMap_append]
    exact (List.append_nil _).trans hreceived
  · rw [hevents, List.filterMap_append]
    exact (congrArg _ (List.append_nil _)).trans hmade

/-- The exit code classifies how a run ended, unless the input fails between two frames : that
is reported as an end of file. -/
theorem exit_classifies_iff (host : Host σ) (codec : Codec) (bytes : Bytes) (e : Ending)
    (output : OStream) (s : σ) :
    (∃ requests stop, Ends codec e bytes output.Takes requests stop) ∧
      (ExitClassifies codec bytes e output (runLoop host codec (.of bytes e) output s) ↔
        ¬FailsBetweenFrames codec bytes e output) := by
  obtain ⟨requests, stop, hends, hcode, hhandled⟩ := runLoop_ends host codec bytes e output s
  have hstop : ∀ {stop'}, (∃ requests', Ends codec e bytes output.Takes requests' stop') ↔
      stop = stop' := by
    intro stop'
    constructor
    · rintro ⟨requests', h⟩
      exact (hends.unique h).2
    · rintro rfl
      exact ⟨requests, hends⟩
  refine ⟨⟨requests, stop, hends⟩, ?_⟩
  rw [failsBetweenFrames_iff, hstop]
  constructor
  · rintro h rfl
    cases hstop.mp (h.clean.mp hcode)
  · intro hne
    obtain ⟨hclean, hframing, hparse, hwrite, hcodes⟩ := Stop.code_eq_iff hne
    refine ⟨?_, ?_, ?_, ?_, ?_, fun requests' stop' h => ?_⟩
    · rw [hstop, hcode, hclean]
    · rw [exists_or, hstop, hstop, hcode, hframing, or_iff_left hne]
    · rw [hstop, hcode, hparse]
    · rw [hstop, hcode, hwrite]
    · rw [hcode]
      exact hcodes
    · rw [← (hends.unique h).1]
      exact hhandled

/-- An input whose first read fails is reported as a clean end. -/
theorem not_exit_classifies_failure :
    ¬ExitClassifies Wire.twoRequests [] .failure .sink
      (runLoop (quiet (metadataWith ∅) emptyReport) Wire.twoRequests (.of [] .failure) .sink ()) := by
  intro h
  have hcode : (runLoop (quiet (metadataWith ∅) emptyReport) Wire.twoRequests
      (.of [] .failure) .sink ()).value.1 = 0 := by
    change (serve _ _ _ _ _ ()).value.1 = 0
    rw [serve_nil]
    rfl
  obtain ⟨requests, hends⟩ := h.clean.mp hcode
  cases hends with
  | endOfFile he => cases he

end ProviderSdk

import ProviderSdk.CheckedTree
import ProviderSdk.Emission
import ProviderSdk.EscapedText

/-!
# The schema as JSON text

The writer of `src/anolis/provider_sdk/config.cpp`, `escape_json` and `write_json`. Text
goes to the output as it was declared, so what is written is JSON only if every string is
UTF-8 and every number finite (`Writable`).

`derives_serialize` : what is written of a writable tree is a JSON text, of a value that
reads as the tree.
-/

namespace ProviderSdk.Config

open JsonSchema JsonText Utf8 Floating Numeral

variable {stl : Stl}

/-! ## UTF-8 -/

/-- What the table of lead bytes says of the lead and of the second byte. -/
def SecondByte (n : ℕ) (lead b : ℕ) : Prop :=
  (n = 2 ∧ 0xC2 ≤ lead ∧ lead ≤ 0xDF ∨
    n = 3 ∧ 0xE0 ≤ lead ∧ lead ≤ 0xEF ∧ (lead = 0xE0 → 0xA0 ≤ b) ∧ (lead = 0xED → b ≤ 0x9F) ∨
    n = 4 ∧ 0xF0 ≤ lead ∧ lead ≤ 0xF4 ∧ (lead = 0xF0 → 0x90 ≤ b) ∧ (lead = 0xF4 → b ≤ 0x8F)) ∧
  0x80 ≤ b ∧ b ≤ 0xBF

theorem exists_range {n k : ℕ} {lo hi b : UInt8} :
    (∃ lo' hi', some (k, lo, hi) = some (n, lo', hi') ∧ lo'.toNat ≤ b.toNat ∧
      b.toNat ≤ hi'.toNat) ↔ k = n ∧ lo.toNat ≤ b.toNat ∧ b.toNat ≤ hi.toNat := by
  constructor
  · rintro ⟨lo', hi', h, hb⟩
    cases h
    exact ⟨rfl, hb⟩
  · rintro ⟨rfl, hb⟩
    exact ⟨lo, hi, rfl, hb⟩

theorem secondByte_iff {lead b : UInt8} {n : ℕ} : SecondByte n lead.toNat b.toNat ↔
    ∃ lo hi, leadByte lead = some (n, lo, hi) ∧ lo ≤ b ∧ b ≤ hi := by
  unfold leadByte SecondByte
  simp only [UInt8.le_iff_toNat_le, ← UInt8.toNat_inj, UInt8.reduceToNat]
  split_ifs
  all_goals first
    | rw [exists_range]
      simp only [UInt8.reduceToNat]
      omega
    | simp only [false_and, exists_false, iff_false]
      omega

theorem isContinuation_iff {b : UInt8} : isContinuation b = true ↔ IsTail b := by
  simp only [isContinuation, IsTail, Bool.and_eq_true, decide_eq_true_eq, UInt8.le_iff_toNat_le,
    UInt8.reduceToNat]

theorem isValidUtf8_cons (lead : UInt8) (rest : Bytes) : isValidUtf8 (lead :: rest) =
    if lead < 0x80 then isValidUtf8 rest
    else
      match leadByte lead, rest with
      | some (2, lo, hi), b1 :: rest => lo ≤ b1 && b1 ≤ hi && isValidUtf8 rest
      | some (3, lo, hi), b1 :: b2 :: rest =>
        lo ≤ b1 && b1 ≤ hi && isContinuation b2 && isValidUtf8 rest
      | some (4, lo, hi), b1 :: b2 :: b3 :: rest =>
        lo ≤ b1 && b1 ≤ hi && isContinuation b2 && isContinuation b3 && isValidUtf8 rest
      | _, _ => false := by
  rw [isValidUtf8.eq_def]
  rfl

/-- A character at the front is passed over. -/
theorem isValidUtf8_append {s bs : Bytes} (h : Sequence s) :
    isValidUtf8 (s ++ bs) = isValidUtf8 bs := by
  have hsecond : ∀ {n : ℕ} {a b : UInt8}, SecondByte n a.toNat b.toNat →
      ∃ lo hi, leadByte a = some (n, lo, hi) ∧ lo ≤ b ∧ b ≤ hi := fun h => secondByte_iff.mp h
  cases h with
  | @one a ha =>
    rw [List.singleton_append, isValidUtf8_cons, if_pos (UInt8.lt_iff_toNat_lt.mpr ha)]
  | @two a b ha hb =>
    obtain ⟨hb, hb'⟩ := hb
    obtain ⟨lo, hi, hlead, hlo, hhi⟩ := @hsecond 2 a b (by unfold SecondByte; omega)
    have ha' : ¬a < 0x80 := by
      simp only [UInt8.lt_iff_toNat_lt, UInt8.reduceToNat]
      omega
    rw [List.cons_append, List.cons_append, List.nil_append, isValidUtf8_cons, if_neg ha', hlead]
    simp [hlo, hhi]
  | @three a b c ha hb hlow hhigh hc =>
    have hc' := isContinuation_iff.mpr hc
    obtain ⟨hb, hb'⟩ := hb
    obtain ⟨lo, hi, hlead, hlo, hhi⟩ := @hsecond 3 a b (by unfold SecondByte; omega)
    have ha' : ¬a < 0x80 := by
      simp only [UInt8.lt_iff_toNat_lt, UInt8.reduceToNat]
      omega
    simp only [List.cons_append, List.nil_append]
    rw [isValidUtf8_cons, if_neg ha', hlead]
    simp [hlo, hhi, hc']
  | @four a b c d ha hb hlow hhigh hc hd =>
    have hc' := isContinuation_iff.mpr hc
    have hd' := isContinuation_iff.mpr hd
    obtain ⟨hb, hb'⟩ := hb
    obtain ⟨lo, hi, hlead, hlo, hhi⟩ := @hsecond 4 a b (by unfold SecondByte; omega)
    have ha' : ¬a < 0x80 := by
      simp only [UInt8.lt_iff_toNat_lt, UInt8.reduceToNat]
      omega
    simp only [List.cons_append, List.nil_append]
    rw [isValidUtf8_cons, if_neg ha', hlead]
    simp [hlo, hhi, hc', hd']

/-- A string that passes starts with a character, and passes after it. -/
theorem exists_sequence_of_isValidUtf8 {bs : Bytes} (h : isValidUtf8 bs = true) (hne : bs ≠ []) :
    ∃ s rest, Sequence s ∧ bs = s ++ rest ∧ isValidUtf8 rest = true := by
  obtain ⟨lead, rest, rfl⟩ := List.exists_cons_of_ne_nil hne
  rw [isValidUtf8_cons] at h
  by_cases hlead : lead < 0x80
  · rw [if_pos hlead] at h
    exact ⟨[lead], rest, .one (UInt8.lt_iff_toNat_lt.mp hlead), rfl, h⟩
  · rw [if_neg hlead] at h
    have hsecond : ∀ {n : ℕ} {lo hi b : UInt8}, leadByte lead = some (n, lo, hi) → lo ≤ b ∧ b ≤ hi →
        SecondByte n lead.toNat b.toNat := fun h hb => secondByte_iff.mpr ⟨_, _, h, hb⟩
    split at h
    · next lo hi b1 rest' heq =>
      simp only [Bool.and_eq_true, decide_eq_true_eq] at h
      have hs := hsecond heq h.1
      unfold SecondByte at hs
      exact ⟨[lead, b1], rest', .two (by omega) (by unfold IsTail; omega), rfl, h.2⟩
    · next lo hi b1 b2 rest' heq =>
      simp only [Bool.and_eq_true, decide_eq_true_eq] at h
      have hs := hsecond heq h.1.1
      unfold SecondByte at hs
      exact ⟨[lead, b1, b2], rest', .three (by omega) (by unfold IsTail; omega) (by omega)
        (by omega) (isContinuation_iff.mp h.1.2), rfl, h.2⟩
    · next lo hi b1 b2 b3 rest' heq =>
      simp only [Bool.and_eq_true, decide_eq_true_eq] at h
      have hs := hsecond heq h.1.1.1
      unfold SecondByte at hs
      exact ⟨[lead, b1, b2, b3], rest', .four (by omega) (by unfold IsTail; omega) (by omega)
        (by omega) (isContinuation_iff.mp h.1.1.2) (isContinuation_iff.mp h.1.2), rfl, h.2⟩
    · exact absurd h Bool.false_ne_true

/-- The check accepts exactly the well-formed strings. -/
theorem isValidUtf8_iff {bs : Bytes} : isValidUtf8 bs = true ↔ WellFormed bs := by
  constructor
  · intro h
    induction hn : bs.length using Nat.strong_induction_on generalizing bs with
    | _ n ih =>
      by_cases hne : bs = []
      · rw [hne]
        exact wellFormed_nil
      · obtain ⟨s, rest, hs, rfl, hrest⟩ := exists_sequence_of_isValidUtf8 h hne
        have hpos := List.length_pos_iff.mpr hs.ne_nil
        rw [List.length_append] at hn
        exact hs.wellFormed.append (ih rest.length (by omega) hrest rfl)
  · intro h
    refine WellFormed.rec_sequence (P := fun bs => isValidUtf8 bs = true) rfl ?_ h
    intro s bs hs _ ih
    rw [isValidUtf8_append hs, ih]

/-! ## The writer -/

/-- What `escape_json` writes for a byte. -/
def escapeByte (b : UInt8) : Bytes :=
  if b = 0x22 then lit "\\\""
  else if b = 0x5C then lit "\\\\"
  else if b = 0x08 then lit "\\b"
  else if b = 0x0C then lit "\\f"
  else if b = 0x0A then lit "\\n"
  else if b = 0x0D then lit "\\r"
  else if b = 0x09 then lit "\\t"
  else if b < 0x20 then lit "\\u" ++ hexPadded 4 b.toNat
  else [b]

def escapeJson (text : Bytes) : Bytes :=
  0x22 :: (text.flatMap escapeByte ++ [0x22])

def indent (depth : ℕ) : Bytes :=
  List.replicate (depth * 2) 0x20

mutual

/-- `write_json`. -/
def writeJson (stl : Stl) : Json → ℕ → Bytes
  | .null, _ => lit "null"
  | .bool b, _ => if b then lit "true" else lit "false"
  | .int i, _ => toStringInt i
  | .num v, _ => stl.formatDouble v
  | .str s, _ => escapeJson s
  | .arr items, depth =>
    if items.isEmpty then lit "[]"
    else lit "[\n" ++ writeItems stl items (depth + 1) ++ indent depth ++ lit "]"
  | .obj fields, depth =>
    if fields.isEmpty then lit "\x7b\x7d"
    else lit "\x7b\n" ++ writeFields stl fields (depth + 1) ++ indent depth ++ lit "\x7d"

def writeItems (stl : Stl) : List Json → ℕ → Bytes
  | [], _ => []
  | v :: items, depth =>
    indent depth ++ writeJson stl v depth ++ (if items.isEmpty then [] else lit ",") ++ lit "\n" ++
      writeItems stl items depth

def writeFields (stl : Stl) : List (Text × Json) → ℕ → Bytes
  | [], _ => []
  | (key, v) :: fields, depth =>
    indent depth ++ escapeJson key ++ lit ": " ++ writeJson stl v depth ++
      (if fields.isEmpty then [] else lit ",") ++ lit "\n" ++ writeFields stl fields depth

end

def serialize (stl : Stl) (value : Json) : Bytes :=
  writeJson stl value 0

/-! ## What the writer needs -/

mutual

/-- Every string and key is UTF-8, and every number is finite. -/
def Writable : Json → Prop
  | .null => True
  | .bool _ => True
  | .int _ => True
  | .num v => v.isFinite = true
  | .str s => isValidUtf8 s = true
  | .arr items => ItemsWritable items
  | .obj fields => FieldsWritable fields

def ItemsWritable : List Json → Prop
  | [] => True
  | v :: items => Writable v ∧ ItemsWritable items

def FieldsWritable : List (Text × Json) → Prop
  | [] => True
  | (key, v) :: fields => (isValidUtf8 key = true ∧ Writable v) ∧ FieldsWritable fields

end

theorem itemsWritable_iff {items : List Json} :
    ItemsWritable items ↔ ∀ v ∈ items, Writable v := by
  induction items with
  | nil => simp [ItemsWritable]
  | cons v items ih => simp [ItemsWritable, ih]

theorem fieldsWritable_iff {fields : List (Text × Json)} :
    FieldsWritable fields ↔
      fields.Forall fun p => isValidUtf8 p.1 = true ∧ Writable p.2 := by
  induction fields with
  | nil => simp [FieldsWritable]
  | cons p fields ih =>
    obtain ⟨key, v⟩ := p
    rw [FieldsWritable, ih, List.forall_cons]

/-- `std::format` of a finite `double` is a JSON number that reads back to it. -/
def Stl.RoundTrips (stl : Stl) : Prop :=
  ∀ v, v.isFinite = true → number.rmatch (stl.formatDouble v) = true ∧
    ∃ q, tokenRat (stl.formatDouble v) = some q ∧ (binary64.round q).eq v = true

/-- A value of a text reads as a tree : keys and strings are the same bytes in the same order,
integers are exact, and numbers are equal as doubles. -/
inductive Reads : JsonText.Value → Json → Prop
  | null : Reads .null .null
  | bool (b : Bool) : Reads (.bool b) (.bool b)
  | int {t : Bytes} {i : ℤ} (h : tokenInt t = some i) : Reads (.number t) (.int i)
  | num {t : Bytes} {q : ℚ} {v : Double} (h : tokenRat t = some q)
      (hv : (binary64.round q).eq v = true) : Reads (.number t) (.num v)
  | str (s : Bytes) : Reads (.string s) (.str s)
  | arr {vs : List JsonText.Value} {items : List Json} (h : List.Forall₂ Reads vs items) :
      Reads (.array vs) (.arr items)
  | obj {ms : List (Bytes × JsonText.Value)} {fields : List (Text × Json)}
      (hkeys : ms.map Prod.fst = Json.keys fields)
      (h : List.Forall₂ Reads (ms.map Prod.snd) (fields.map Prod.snd)) :
      Reads (.object ms) (.obj fields)

/-! ## Strings and integers are written -/

theorem chars_escapeByte (b : UInt8) : Chars (escapeByte b) [b] := by
  unfold escapeByte
  split_ifs with h1 h2 h3 h4 h5 h6 h7 h8
  · subst h1
    exact .escape (by decide) .nil
  · subst h2
    exact .escape (by decide) .nil
  · subst h3
    exact .escape (by decide) .nil
  · subst h4
    exact .escape (by decide) .nil
  · subst h5
    exact .escape (by decide) .nil
  · subst h6
    exact .escape (by decide) .nil
  · subst h7
    exact .escape (by decide) .nil
  · exact chars_hexPadded (UInt8.lt_iff_toNat_lt.mp h8)
  · refine .plain ⟨?_, h1, h2⟩ .nil
    simpa [UInt8.lt_iff_toNat_lt] using h8

theorem chars_escapeJson (text : Bytes) : Chars (text.flatMap escapeByte) text := by
  induction text with
  | nil => exact .nil
  | cons b text ih =>
    rw [List.flatMap_cons]
    exact (chars_escapeByte b).append ih

theorem digitValue_digitByte {d : ℕ} (hd : d < 10) : digitValue (digitByte d) = some d := by
  have h : ∀ d : Fin 10, digitValue (digitByte d.val) = some d.val := by decide +kernel
  exact h ⟨d, hd⟩

theorem isNumeral_toStringNat (n : ℕ) : IsNumeral 10 (toStringNat n) := by
  constructor
  · unfold toStringNat
    split_ifs with hn
    · exact List.cons_ne_nil _ _
    · simpa [Nat.digits_ne_nil_iff_ne_zero] using hn
  · intro b hb
    obtain ⟨d, hd, rfl⟩ := exists_digit_of_mem_toStringNat hb
    simp [isDigit, digitValue_digitByte hd, hd]

/-- `std::to_string` prints the digits of the number. -/
theorem value_toStringNat (n : ℕ) : value 10 (toStringNat n) = n := by
  unfold toStringNat value
  split_ifs with hn
  · subst hn
    decide
  · have hmap : (Nat.digits 10 n).map (fun d => (digitValue (digitByte d)).getD 0) =
        Nat.digits 10 n := by
      rw [List.map_congr_left fun d hd => by
        rw [digitValue_digitByte (Nat.digits_lt_base (by omega) hd)]]
      simp
    rw [List.map_reverse, List.reverse_reverse, List.map_map]
    simp only [Function.comp_def, hmap]
    exact Nat.ofDigits_digits 10 n

/-- There is no leading zero. -/
theorem toStringNat_head {n : ℕ} (h : (toStringNat n).head? = some 48) :
    toStringNat n = [48] := by
  unfold toStringNat at h ⊢
  split_ifs at h ⊢ with hn
  · rfl
  · rw [List.head?_reverse, List.getLast?_map] at h
    obtain ⟨d, hd, hbyte⟩ := Option.map_eq_some_iff.mp h
    have hlast := Nat.getLast_digit_ne_zero 10 hn
    have hmem := List.mem_of_getLast? hd
    have hzero : d = 0 := digitByte_inj (Nat.digits_lt_base (by omega) hmem) (by omega) hbyte
    rw [List.getLast?_eq_some_getLast (Nat.digits_ne_nil_iff_ne_zero.mpr hn)] at hd
    exact absurd (Option.some.inj hd) (hzero ▸ hlast)

theorem scanSign_toStringInt (i : ℤ) (t : Bytes) :
    scanSign (toStringInt i ++ t) = (decide (i < 0), toStringNat i.natAbs ++ t) := by
  unfold toStringInt
  split_ifs with hi
  · rw [decide_eq_true hi]
    rfl
  · obtain ⟨hne, hdigits⟩ := isNumeral_toStringNat i.natAbs
    obtain ⟨b, ds, hb⟩ := List.exists_cons_of_ne_nil hne
    have hbyte : ∀ c : UInt8, isDigit 10 c = false → b ≠ c := by
      rintro c hc rfl
      simp [hdigits b (hb ▸ List.mem_cons_self)] at hc
    rw [decide_eq_false hi, hb, List.cons_append, scanSign, if_neg (hbyte 45 (by decide)),
      if_neg (hbyte 43 (by decide))]

theorem rmatch_toStringInt (i : ℤ) {e : Bytes}
    (he : e = [] ∨ ∃ es, e = 101 :: 45 :: es ∧ IsNumeral 10 es) :
    number.rmatch (toStringInt i ++ e) = true := by
  have hnat := isNumeral_toStringNat i.natAbs
  unfold toStringInt
  split_ifs
  · exact rmatch_number (.inr rfl) hnat toStringNat_head he
  · exact rmatch_number (.inl rfl) hnat toStringNat_head he

theorem rmatch_toStringInt_nil (i : ℤ) : number.rmatch (toStringInt i) = true := by
  have h := rmatch_toStringInt i (.inl rfl)
  rwa [List.append_nil] at h

theorem tokenInt_toStringInt (i : ℤ) : tokenInt (toStringInt i) = some i := by
  have hscan := scanSign_toStringInt i []
  rw [List.append_nil, List.append_nil] at hscan
  unfold tokenInt
  rw [hscan, if_pos (List.all_eq_true.mpr (isNumeral_toStringNat i.natAbs).2)]
  simp only [decide_eq_true_eq, value_toStringNat]
  split_ifs <;> congr 1 <;> omega

/-! ## Trees are written -/

theorem ws_indent (depth : ℕ) : Ws (indent depth) := by
  intro b hb
  rw [List.eq_of_mem_replicate hb]
  rfl

theorem ws_space : Ws [32] :=
  Pattern.forall_mem_of_all (by decide)

theorem ws_newline : Ws (lit "\n") :=
  Pattern.forall_mem_of_all (by decide)

/-! The text of each shape, as the grammar splits it. -/

theorem writeJson_arr (stl : Stl) (v : Json) (items : List Json) (depth : ℕ) :
    writeJson stl (.arr (v :: items)) depth =
      91 :: (lit "\n" ++ (writeItems stl (v :: items) (depth + 1) ++ indent depth) ++ [93]) := by
  rw [writeJson]
  simp only [List.isEmpty_cons, Bool.false_eq_true, if_false, List.append_assoc]
  rfl

theorem writeJson_obj (stl : Stl) (p : Text × Json) (fields : List (Text × Json)) (depth : ℕ) :
    writeJson stl (.obj (p :: fields)) depth =
      123 :: (lit "\n" ++ (writeFields stl (p :: fields) (depth + 1) ++ indent depth) ++ [125]) := by
  rw [writeJson]
  simp only [List.isEmpty_cons, Bool.false_eq_true, if_false, List.append_assoc]
  rfl

theorem writeItems_cons (stl : Stl) (v v' : Json) (items : List Json) (depth : ℕ) :
    writeItems stl (v :: v' :: items) depth = indent depth ++ (writeJson stl v depth ++
      44 :: (lit "\n" ++ writeItems stl (v' :: items) depth)) := by
  rw [writeItems]
  simp only [List.isEmpty_cons, Bool.false_eq_true, if_false, List.append_assoc]
  rfl

theorem writeFields_singleton (stl : Stl) (key : Bytes) (v : Json) (depth : ℕ) :
    writeFields stl [(key, v)] depth = indent depth ++ 34 :: (key.flatMap escapeByte ++
      34 :: 58 :: 32 :: (writeJson stl v depth ++ lit "\n")) := by
  simp only [writeFields, escapeJson, List.isEmpty_nil, if_true, List.append_assoc,
    List.append_nil, List.cons_append, List.nil_append]
  rfl

theorem writeFields_cons (stl : Stl) (key : Bytes) (v : Json) (p : Text × Json)
    (fields : List (Text × Json)) (depth : ℕ) :
    writeFields stl ((key, v) :: p :: fields) depth = indent depth ++ 34 ::
      (key.flatMap escapeByte ++ 34 :: 58 :: 32 :: (writeJson stl v depth ++
        44 :: (lit "\n" ++ writeFields stl (p :: fields) depth))) := by
  rw [writeFields]
  simp only [escapeJson, List.isEmpty_cons, Bool.false_eq_true, if_false, List.append_assoc,
    List.cons_append, List.nil_append]
  rfl

mutual

theorem derive_writeJson (hformat : stl.RoundTrips) : ∀ (j : Json) (depth : ℕ), Writable j →
    ∃ v, Derive (writeJson stl j depth) (.value v) ∧ Reads v j
  | .null, _, _ => ⟨_, .null, .null⟩
  | .bool true, _, _ => ⟨_, .true, .bool true⟩
  | .bool false, _, _ => ⟨_, .false, .bool false⟩
  | .int i, _, _ => ⟨_, .number (rmatch_toStringInt_nil i), .int (tokenInt_toStringInt i)⟩
  | .num v, _, hv => by
    obtain ⟨hmatch, q, hq, heq⟩ := hformat v hv
    exact ⟨_, .number hmatch, .num hq heq⟩
  | .str s, _, _ => ⟨_, .string (chars_escapeJson s), .str s⟩
  | .arr [], _, _ => ⟨_, .emptyArray ws_nil, .arr .nil⟩
  | .arr (v :: items), depth, hw => by
    obtain ⟨vs, hvs, hreads⟩ := derive_writeItems hformat (v :: items) (depth + 1) (by simp) hw
      ws_newline (ws_indent depth)
    refine ⟨_, ?_, .arr hreads⟩
    rw [writeJson_arr]
    exact .array hvs
  | .obj [], _, _ => ⟨_, .emptyObject ws_nil, .obj rfl .nil⟩
  | .obj (p :: fields), depth, hw => by
    obtain ⟨ms, hms, hkeys, hreads⟩ := derive_writeFields hformat (p :: fields) (depth + 1)
      (by simp) hw ws_newline (ws_indent depth)
    refine ⟨_, ?_, .obj hkeys hreads⟩
    rw [writeJson_obj]
    exact .object hms

/-- The items, with whitespace before the first and after the last. -/
theorem derive_writeItems (hformat : stl.RoundTrips) : ∀ (items : List Json) (depth : ℕ),
    items ≠ [] → ItemsWritable items → ∀ {before after : Bytes}, Ws before → Ws after →
      ∃ vs, Derive (before ++ (writeItems stl items depth ++ after)) (.items vs) ∧
        List.Forall₂ Reads vs items
  | [], _, hne, _, _, _, _, _ => absurd rfl hne
  | [v], depth, _, hw, before, after, hbefore, hafter => by
    obtain ⟨x, hx, hreads⟩ := derive_writeJson hformat v depth hw.1
    have hitem := Derive.item (Ws.append hbefore (ws_indent depth)) (Ws.append ws_newline hafter) hx
    refine ⟨[x], ?_, .cons hreads .nil⟩
    simpa [writeItems] using hitem
  | v :: v' :: items, depth, _, hw, before, after, hbefore, hafter => by
    obtain ⟨x, hx, hreads⟩ := derive_writeJson hformat v depth hw.1
    obtain ⟨vs, hvs, hreads'⟩ := derive_writeItems hformat (v' :: items) depth (by simp) hw.2
      ws_newline hafter
    have hitems := Derive.items (Ws.append hbefore (ws_indent depth)) ws_nil hx
      hvs
    refine ⟨x :: vs, ?_, .cons hreads hreads'⟩
    rw [writeItems_cons]
    simpa using hitems

/-- The members, with whitespace before the first and after the last. -/
theorem derive_writeFields (hformat : stl.RoundTrips) : ∀ (fields : List (Text × Json))
    (depth : ℕ), fields ≠ [] → FieldsWritable fields →
      ∀ {before after : Bytes}, Ws before → Ws after →
      ∃ ms, Derive (before ++ (writeFields stl fields depth ++ after)) (.members ms) ∧
        ms.map Prod.fst = Json.keys fields ∧
          List.Forall₂ Reads (ms.map Prod.snd) (fields.map Prod.snd)
  | [], _, hne, _, _, _, _, _ => absurd rfl hne
  | [(key, v)], depth, _, hw, before, after, hbefore, hafter => by
    obtain ⟨x, hx, hreads⟩ := derive_writeJson hformat v depth hw.1.2
    have hmember := Derive.member (Ws.append hbefore (ws_indent depth)) (chars_escapeJson key)
      ws_nil ws_space hx (Ws.append ws_newline hafter)
    refine ⟨[(key, x)], ?_, rfl, .cons hreads .nil⟩
    rw [writeFields_singleton]
    simpa using hmember
  | (key, v) :: p :: fields, depth, _, hw, before, after, hbefore, hafter => by
    obtain ⟨x, hx, hreads⟩ := derive_writeJson hformat v depth hw.1.2
    obtain ⟨ms, hms, hkeys, hreads'⟩ := derive_writeFields hformat (p :: fields) depth (by simp)
      hw.2 ws_newline hafter
    have hmembers := Derive.members (Ws.append hbefore (ws_indent depth)) (chars_escapeJson key)
      ws_nil ws_space hx ws_nil hms
    refine ⟨(key, x) :: ms, ?_, ?_, .cons hreads hreads'⟩
    · rw [writeFields_cons]
      simpa using hmembers
    · rw [List.map_cons, hkeys]
      rfl

end

/-! ## The text is UTF-8 -/

@[simp] theorem isValidUtf8_lit (s : String) : isValidUtf8 (lit s) = true :=
  isValidUtf8_iff.mpr (wellFormed_lit s)

@[simp] theorem isValidUtf8_name (s : String) : isValidUtf8 (name s) = true :=
  isValidUtf8_lit s

theorem wellFormed_number {t : Bytes} (h : number.rmatch t = true) : WellFormed t := by
  have hbyte : ∀ b : UInt8, isNumberByte b = true → b.toNat < 0x80 :=
    Text.forall_byte (by decide +kernel)
  exact wellFormed_ascii fun b hb => hbyte b (number_bytes t h b hb)

theorem wellFormed_indent (depth : ℕ) : WellFormed (indent depth) := by
  refine wellFormed_ascii fun b hb => ?_
  rw [List.eq_of_mem_replicate hb]
  decide

theorem escapeByte_low : ∀ n : Fin 128, ∀ c ∈ escapeByte (UInt8.ofNat n.val), c.toNat < 0x80 := by
  decide +kernel

theorem escapeByte_high {b : UInt8} (hb : 0x80 ≤ b.toNat) : escapeByte b = [b] := by
  have hne : ∀ c : UInt8, c.toNat < 0x80 → b ≠ c := by
    rintro c hc rfl
    omega
  unfold escapeByte
  rw [if_neg (hne _ (by decide)), if_neg (hne _ (by decide)), if_neg (hne _ (by decide)),
    if_neg (hne _ (by decide)), if_neg (hne _ (by decide)), if_neg (hne _ (by decide)),
    if_neg (hne _ (by decide)), if_neg]
  simp only [UInt8.lt_iff_toNat_lt, UInt8.reduceToNat]
  omega

/-- Escaping leaves a string UTF-8. -/
theorem wellFormed_escapeJson {text : Bytes} (h : isValidUtf8 text = true) :
    WellFormed (escapeJson text) := by
  have hquote : WellFormed [0x22] := wellFormed_ascii (Pattern.forall_mem_of_all (by decide))
  refine hquote.append (WellFormed.append ?_ hquote)
  refine WellFormed.flatMap (fun b hb => ?_) (fun b => escapeByte_high) (isValidUtf8_iff.mp h)
  simpa using escapeByte_low ⟨b.toNat, hb⟩

theorem wellFormed_comma (last : Bool) : WellFormed (if last then [] else lit ",") := by
  split_ifs
  · exact wellFormed_nil
  · exact wellFormed_lit _

mutual

theorem wellFormed_writeJson (hformat : stl.RoundTrips) : ∀ (j : Json) (depth : ℕ), Writable j →
    WellFormed (writeJson stl j depth)
  | .null, _, _ => wellFormed_lit _
  | .bool true, _, _ => wellFormed_lit _
  | .bool false, _, _ => wellFormed_lit _
  | .int i, _, _ => wellFormed_number (rmatch_toStringInt_nil i)
  | .num v, _, hv => wellFormed_number (hformat v hv).1
  | .str s, _, hs => wellFormed_escapeJson hs
  | .arr items, depth, hw => by
    rw [writeJson]
    split_ifs
    · exact wellFormed_lit _
    · exact (((wellFormed_lit _).append (wellFormed_writeItems hformat items _ hw)).append
        (wellFormed_indent _)).append (wellFormed_lit _)
  | .obj fields, depth, hw => by
    rw [writeJson]
    split_ifs
    · exact wellFormed_lit _
    · exact (((wellFormed_lit _).append (wellFormed_writeFields hformat fields _ hw)).append
        (wellFormed_indent _)).append (wellFormed_lit _)

theorem wellFormed_writeItems (hformat : stl.RoundTrips) : ∀ (items : List Json) (depth : ℕ),
    ItemsWritable items → WellFormed (writeItems stl items depth)
  | [], _, _ => wellFormed_nil
  | v :: items, depth, hw => by
    rw [writeItems]
    exact ((((wellFormed_indent _).append (wellFormed_writeJson hformat v depth hw.1)).append
      (wellFormed_comma _)).append (wellFormed_lit _)).append
        (wellFormed_writeItems hformat items depth hw.2)

theorem wellFormed_writeFields (hformat : stl.RoundTrips) : ∀ (fields : List (Text × Json))
    (depth : ℕ), FieldsWritable fields → WellFormed (writeFields stl fields depth)
  | [], _, _ => wellFormed_nil
  | (key, v) :: fields, depth, hw => by
    rw [writeFields]
    exact ((((((wellFormed_indent _).append (wellFormed_escapeJson hw.1.1)).append
      (wellFormed_lit _)).append (wellFormed_writeJson hformat v depth hw.1.2)).append
        (wellFormed_comma _)).append (wellFormed_lit _)).append
          (wellFormed_writeFields hformat fields depth hw.2)

end

/-- What is written of a writable tree is a text of a value that reads as the tree. -/
theorem derives_serialize (hformat : stl.RoundTrips) {j : Json} (hw : Writable j) :
    ∃ v, Derives (serialize stl j) v ∧ Reads v j := by
  obtain ⟨v, hv, hreads⟩ := derive_writeJson hformat j 0 hw
  exact ⟨v, ⟨wellFormed_writeJson hformat j 0 hw, [], _, [], ws_nil, ws_nil, hv,
    by simp [serialize]⟩, hreads⟩

end ProviderSdk.Config

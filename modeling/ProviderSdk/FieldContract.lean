import ProviderSdk.Contract
import ProviderSdk.CoreSchema

/-!
# The validator checks the contract of a field

`validateField` reports errors exactly when a scalar does not meet its field's contract
(`validateField_eq_nil`), all at the field's path, and the canonical strings that
uniqueness compares are those of the parsed values (`canonicalValue_eq`).
-/

namespace ProviderSdk.Config

open Floating

variable {stl : Stl}

/-! ## Errors and their paths -/

/-- Some error is about the path. -/
def Reports (errors : List ValidationError) (path : Bytes) : Prop :=
  ∃ e ∈ errors, e.path = path

@[simp] theorem reports_nil {p : Bytes} : ¬Reports [] p := by
  rintro ⟨e, he, -⟩
  exact absurd he List.not_mem_nil

@[simp] theorem reports_cons {e : ValidationError} {es : List ValidationError} {p : Bytes} :
    Reports (e :: es) p ↔ e.path = p ∨ Reports es p := by
  simp [Reports]

@[simp] theorem reports_append {es es' : List ValidationError} {p : Bytes} :
    Reports (es ++ es') p ↔ Reports es p ∨ Reports es' p := by
  simp [Reports, or_and_right, exists_or]

@[simp] theorem reports_errorIf {bad : Bool} {path message p : Bytes} :
    Reports (errorIf bad path message) p ↔ bad = true ∧ path = p := by
  cases bad <;> simp [errorIf]

@[simp] theorem reports_flatMap {α : Type} {l : List α} {g : α → List ValidationError}
    {p : Bytes} : Reports (l.flatMap g) p ↔ ∃ a ∈ l, Reports (g a) p := by
  constructor
  · rintro ⟨e, he, hp⟩
    obtain ⟨a, ha, he⟩ := List.mem_flatMap.mp he
    exact ⟨a, ha, e, he, hp⟩
  · rintro ⟨a, ha, e, he, hp⟩
    exact ⟨e, List.mem_flatMap.mpr ⟨a, ha, he⟩, hp⟩

@[simp] theorem reports_map {α : Type} {l : List α} {g : α → ValidationError} {p : Bytes} :
    Reports (l.map g) p ↔ ∃ a ∈ l, (g a).path = p := by
  simp [Reports]

theorem eq_nil_iff_not_reports {es : List ValidationError} :
    es = [] ↔ ∀ p, ¬Reports es p := by
  constructor
  · rintro rfl p
    exact reports_nil
  · intro h
    rw [List.eq_nil_iff_forall_not_mem]
    exact fun e he => h e.path ⟨e, he, rfl⟩

/-- Every error is about the one path. -/
def AllAt (path : Bytes) (errors : List ValidationError) : Prop :=
  ∀ e ∈ errors, e.path = path

theorem AllAt.reports_iff {path p : Bytes} {errors : List ValidationError}
    (h : AllAt path errors) : Reports errors p ↔ errors ≠ [] ∧ path = p := by
  constructor
  · rintro ⟨e, he, rfl⟩
    exact ⟨List.ne_nil_of_mem he, (h e he).symm⟩
  · rintro ⟨hne, rfl⟩
    obtain ⟨e, he⟩ := List.exists_mem_of_ne_nil errors hne
    exact ⟨e, he, h e he⟩

theorem AllAt.append {path : Bytes} {es es' : List ValidationError} (h : AllAt path es)
    (h' : AllAt path es') : AllAt path (es ++ es') := by
  intro e he
  rcases List.mem_append.mp he with he | he
  · exact h e he
  · exact h' e he

theorem allAt_nil {path : Bytes} : AllAt path [] := by
  intro e he
  exact absurd he List.not_mem_nil

theorem allAt_singleton {path message : Bytes} : AllAt path [⟨path, message⟩] := by
  intro e he
  rw [List.mem_singleton.mp he]

theorem allAt_errorIf {bad : Bool} {path message : Bytes} :
    AllAt path (errorIf bad path message) := by
  cases bad
  · exact allAt_nil
  · exact allAt_singleton

theorem errorIf_eq_nil {bad : Bool} {path message : Bytes} :
    errorIf bad path message = [] ↔ bad = false := by
  cases bad <;> simp [errorIf]

/-! ## Strings -/

theorem allAt_validateStringConstraints {spec : Field.Spec} {s path : Bytes} :
    AllAt path (validateStringConstraints stl spec s path) := by
  unfold validateStringConstraints
  refine allAt_errorIf.append ?_
  split
  · exact allAt_singleton
  · split_ifs
    · exact allAt_singleton
    · refine allAt_errorIf.append ?_
      intro e he
      obtain ⟨fv, -, rfl⟩ := List.mem_map.mp he
      rfl

theorem isEnumValue_iff {spec : Field.Spec} {s : Bytes} :
    isEnumValue spec s = true ↔ s ∈ spec.enumValues.map Field.EnumValue.value := by
  simp [isEnumValue]

theorem matches_iff {pattern : Option Bytes} {s : Bytes} :
    stl.matches pattern s = true ↔ ∀ p, pattern = some p → stl.regexSearch p s = true := by
  cases pattern <;> simp [Stl.matches]

theorem validateStringConstraints_eq_nil {spec : Field.Spec} {s path : Bytes} :
    validateStringConstraints stl spec s path = [] ↔ AcceptsString stl spec s := by
  have hconst : spec.constValue.filter (fun c => s ≠ c) = none ↔
      ∀ c, spec.constValue = some c → s = c := by
    cases spec.constValue <;> simp [Option.filter]
  have hforbidden : spec.forbiddenValues.filter (fun fv => fv.value = s) = [] ↔
      s ∉ spec.forbiddenValues.map Field.ForbiddenValue.value := by
    simp [List.filter_eq_nil_iff]
  unfold validateStringConstraints
  rw [List.append_eq_nil_iff, errorIf_eq_nil]
  constructor
  · rintro ⟨hne, h⟩
    split at h
    · exact absurd h (by simp)
    · next hc =>
      split_ifs at h with he
      rw [List.append_eq_nil_iff, errorIf_eq_nil, List.map_eq_nil_iff, hforbidden] at h
      refine ⟨?_, hconst.mp hc, ?_, matches_iff.mp (by simpa using h.1), h.2⟩
      · rintro hs rfl
        simp [hs] at hne
      · intro hen
        rw [← isEnumValue_iff]
        by_contra hv
        exact he ⟨hen, by simpa using hv⟩
  · rintro ⟨hne, hc, hen, hp, hf⟩
    rw [hconst.mpr hc]
    have hnot : ¬(spec.enumValues ≠ [] ∧ isEnumValue spec s = false) := by
      rintro ⟨h1, h2⟩
      rw [← Bool.not_eq_true, isEnumValue_iff] at h2
      exact h2 (hen h1)
    refine ⟨?_, ?_⟩
    · rw [Bool.and_eq_false_iff]
      by_cases hs : spec.nonEmpty = true
      · right
        simpa using hne hs
      · left
        simpa using hs
    · rw [if_neg hnot, List.append_eq_nil_iff, errorIf_eq_nil, List.map_eq_nil_iff, hforbidden,
        matches_iff.mpr hp]
      exact ⟨rfl, hf⟩

/-! ## Numbers -/

theorem allAt_boundError {α : Type} {bound : Option α} {bad : α → Bool} {path sign : Bytes}
    {print : α → Bytes} : AllAt path (boundError bound bad path sign print) := by
  cases bound
  · exact allAt_nil
  · exact allAt_errorIf

theorem boundError_eq_nil {α : Type} {bound : Option α} {bad : α → Bool} {path sign : Bytes}
    {print : α → Bytes} :
    boundError bound bad path sign print = [] ↔ ∀ b, bound = some b → bad b = false := by
  cases bound <;> simp [boundError, errorIf_eq_nil]

theorem validateInteger_eq_nil {spec : Field.Spec} {i : ℤ} {path : Bytes} :
    validateInteger spec i path = [] ↔ AcceptsInteger spec i := by
  unfold validateInteger
  simp only [List.append_eq_nil_iff, boundError_eq_nil, decide_eq_false_iff_not, not_lt]
  constructor
  · rintro ⟨h1, h2⟩
    exact ⟨h1, h2⟩
  · rintro ⟨h1, h2⟩
    exact ⟨h1, h2⟩

theorem validateNumber_eq_nil {f : Field} {v : Double} {path : Bytes} :
    validateNumber stl f.spec v path = [] ↔ AcceptsNumber f.spec v := by
  have hb := f.built
  unfold validateNumber
  split_ifs with hv
  · simp only [List.append_eq_nil_iff, boundError_eq_nil, and_assoc]
    constructor
    · rintro ⟨h1, h2, h3, h4⟩
      refine ⟨hv, fun m hm => ?_, fun m hm => ?_, fun m hm => ?_, fun m hm => ?_⟩
      · exact (Value.lt_eq_false hv (hb.minNumber_finite m hm)).mp (h1 m hm)
      · exact (Value.le_eq_false hv (hb.exclusiveMinNumber_finite m hm)).mp (h2 m hm)
      · exact (Value.lt_eq_false (hb.maxNumber_finite m hm) hv).mp (h3 m hm)
      · exact (Value.le_eq_false (hb.exclusiveMaxNumber_finite m hm) hv).mp (h4 m hm)
    · rintro ⟨-, h1, h2, h3, h4⟩
      refine ⟨fun m hm => ?_, fun m hm => ?_, fun m hm => ?_, fun m hm => ?_⟩
      · exact (Value.lt_eq_false hv (hb.minNumber_finite m hm)).mpr (h1 m hm)
      · exact (Value.le_eq_false hv (hb.exclusiveMinNumber_finite m hm)).mpr (h2 m hm)
      · exact (Value.lt_eq_false (hb.maxNumber_finite m hm) hv).mpr (h3 m hm)
      · exact (Value.le_eq_false (hb.exclusiveMaxNumber_finite m hm) hv).mpr (h4 m hm)
  · refine iff_of_false (by simp) ?_
    rintro ⟨hfin, -⟩
    exact hv hfin

/-! ## Addresses -/

/-- The classes of the two digits of an address, one pair for each alternative. -/
def addressDigits : List (Bytes × Bytes) :=
  [(lit "0", lit "89abcdefABCDEF"), (lit "123456", lit "0123456789abcdefABCDEF"),
    (lit "7", lit "01234567")]

theorem addressDigits_range : ∀ p ∈ addressDigits, ∀ d ∈ p.1, ∀ e ∈ p.2,
    (∀ b ∈ [d, e], Numeral.isDigit 16 b = true) ∧
      kI2cAddressMin ≤ Numeral.value 16 [d, e] ∧ Numeral.value 16 [d, e] ≤ kI2cAddressMax := by
  decide +kernel

/-- A text of the address pattern is `0`, an x and two digits. -/
theorem exists_of_i2cHexPattern {s : Bytes} (h : i2cHexPattern.rmatch s = true) :
    ∃ x d e, s = chr '0' :: x :: [d, e] ∧ ∃ p ∈ addressDigits, d ∈ p.1 ∧ e ∈ p.2 := by
  simp only [i2cHexPattern, Pattern.rmatch_mul, Pattern.rmatch_add, Pattern.rmatch_word,
    Pattern.rmatch_oneOf] at h
  obtain ⟨_, _, rfl, rfl, _, _, rfl, ⟨x, -, rfl⟩, h⟩ := h
  rcases h with (⟨_, _, rfl, rfl, e, he, rfl⟩ | ⟨_, _, rfl, ⟨d, hd, rfl⟩, e, he, rfl⟩) |
    ⟨_, _, rfl, rfl, e, he, rfl⟩
  · exact ⟨x, chr '0', e, rfl, _, List.mem_cons_self, by decide, he⟩
  · exact ⟨x, d, e, rfl, _, List.mem_cons_of_mem _ List.mem_cons_self, hd, he⟩
  · exact ⟨x, chr '7', e, rfl, (lit "7", lit "01234567"), by simp [addressDigits], by decide, he⟩

theorem inI2cRange_eq_some {v a : ℤ} :
    inI2cRange v = some a ↔ v = a ∧ kI2cAddressMin ≤ a ∧ a ≤ kI2cAddressMax := by
  unfold inI2cRange
  split_ifs with h
  · refine iff_of_false (by simp) ?_
    rintro ⟨rfl, h1, h2⟩
    omega
  · rw [Option.some.injEq]
    constructor
    · rintro rfl
      exact ⟨rfl, by omega, by omega⟩
    · exact fun h => h.1

/-- An address is in range. -/
theorem range_of_i2cAddressOf {r : Resolved} {a : ℤ} (h : i2cAddressOf r = some a) :
    kI2cAddressMin ≤ a ∧ a ≤ kI2cAddressMax := by
  unfold i2cAddressOf at h
  split at h
  · exact (inI2cRange_eq_some.mp h).2
  · split_ifs at h
    split at h
    · exact (inI2cRange_eq_some.mp h).2
    · exact absurd h (by simp)
  · exact absurd h (by simp)

/-- A string of the address pattern is an address. -/
theorem exists_i2cAddressOf_string {s : Bytes} (h : i2cHexPattern.rmatch s = true) :
    ∃ a, i2cAddressOf (.string s) = some a := by
  obtain ⟨x, d, e, rfl, p, hp, hd, he⟩ := exists_of_i2cHexPattern h
  obtain ⟨hdig, hmin, hmax⟩ := addressDigits_range p hp d hd e he
  have hfits : FitsInt64 (Numeral.value 16 [d, e]) := by
    have h1 : kI2cAddressMin = 8 := rfl
    have h2 : kI2cAddressMax = 119 := rfl
    constructor <;> omega
  have hparse : parseInt (chr '0' :: x :: [d, e]) 16 2 = some (Numeral.value 16 [d, e] : ℤ) := by
    rw [parseInt_based ⟨by simp, hdig⟩ (by decide) (by decide), held, if_pos hfits]
  refine ⟨Numeral.value 16 [d, e], ?_⟩
  unfold i2cAddressOf
  dsimp only [integerOf]
  rw [if_pos h, hparse]
  exact inI2cRange_eq_some.mpr ⟨rfl, hmin, hmax⟩

theorem i2cAddressOf_isSome {r : Resolved} : (∃ a, i2cAddressOf r = some a) ↔ AcceptsAddress r := by
  constructor
  · rintro ⟨a, ha⟩
    have hrange := range_of_i2cAddressOf ha
    unfold i2cAddressOf at ha
    split at ha
    · next v hv =>
      obtain rfl := (inI2cRange_eq_some.mp ha).1
      exact Or.inl ⟨v, hv, hrange⟩
    · next s _ =>
      split_ifs at ha with hm
      exact Or.inr ⟨s, rfl, hm⟩
    · exact absurd ha (by simp)
  · rintro (⟨i, hi, hrange⟩ | ⟨s, rfl, hm⟩)
    · refine ⟨i, ?_⟩
      unfold i2cAddressOf
      rw [hi]
      exact inI2cRange_eq_some.mpr ⟨rfl, hrange⟩
    · exact exists_i2cAddressOf_string hm

/-! ## `validateField` -/

theorem allAt_validateField {spec : Field.Spec} {n : Node} {path : Bytes} :
    AllAt path (validateField stl spec n path) := by
  unfold validateField
  split
  · split
    · exact allAt_validateStringConstraints
    · exact allAt_singleton
  · split
    · exact allAt_boundError.append allAt_boundError
    · exact allAt_singleton
  · split
    · unfold validateNumber
      split_ifs
      · exact ((allAt_boundError.append allAt_boundError).append allAt_boundError).append
          allAt_boundError
      · exact allAt_singleton
    · exact allAt_singleton
  · split_ifs
    · exact allAt_nil
    · exact allAt_singleton
  · split_ifs
    · exact allAt_singleton
    · exact allAt_errorIf

theorem typeError_ne_nil {path expected : Bytes} {r : Resolved} :
    typeError path expected r ≠ [] := by
  simp [typeError]

theorem integerLike_eq (r : Resolved) : integerLike r = (integerOf r).isSome := by
  cases r <;> rfl

/-- The validator passes a scalar exactly when it meets the field's contract. -/
theorem validateField_eq_nil {f : Field} {n : Node} {path : Bytes} :
    validateField stl f.spec n path = [] ↔ Accepts stl f.spec n.resolve := by
  unfold validateField Accepts
  cases hkind : f.spec.kind with
  | string =>
    cases hr : n.resolve <;> simp [typeError_ne_nil, validateStringConstraints_eq_nil]
  | integer =>
    cases hi : integerOf n.resolve <;> simp [typeError_ne_nil, validateInteger_eq_nil]
  | number =>
    cases hv : numberOf n.resolve <;> simp [typeError_ne_nil, validateNumber_eq_nil]
  | boolean =>
    cases hr : n.resolve <;> simp [typeError_ne_nil, Resolved.kind]
  | i2cAddress =>
    dsimp only
    rw [← i2cAddressOf_isSome]
    split_ifs with h
    · refine iff_of_false typeError_ne_nil ?_
      rw [i2cAddressOf_isSome, integerLike_eq, Bool.and_eq_true] at *
      rintro (⟨i, hi, -⟩ | ⟨s, hs, -⟩)
      · simp [hi] at h
      · simp [hs, Resolved.kind] at h
    · rw [errorIf_eq_nil, Option.isNone_eq_false_iff, Option.isSome_iff_exists]

theorem reports_validateField {f : Field} {n : Node} {path p : Bytes} :
    Reports (validateField stl f.spec n path) p ↔ ¬Accepts stl f.spec n.resolve ∧ path = p := by
  rw [allAt_validateField.reports_iff, ne_eq, validateField_eq_nil]

/-! ## Canonical values -/

/-- An integer that the resolver gives fits `int64_t`. -/
theorem fits_of_resolve {n : Node} {i : ℤ} (h : n.resolve = .int i) : FitsInt64 i := by
  cases n with
  | null => simp [Node.resolve] at h
  | sequence items => simp [Node.resolve] at h
  | map entries => simp [Node.resolve] at h
  | scalar tag text =>
    have h' : (if tag = lit "!" ∨ tag = lit "tag:yaml.org,2002:str" then Resolved.string text
      else resolvePlain text) = .int i := h
    split_ifs at h'
    exact (intText_of_resolvePlain h').2

theorem exists_doubleOfInt {i : ℤ} (h : FitsInt64 i) :
    ∃ q, (doubleOfInt i).toRat = some q ∧ (q = 0 → i = 0) := by
  refine Format.exists_round_int (n := 63) ?_ (by decide) (by decide)
  rw [abs_le]
  exact ⟨h.1, h.2.le⟩

/-- The canonical string of a parsed value. -/
def encode (stl : Stl) : Parsed → Bytes
  | .text s => lit "s:" ++ s
  | .integer i => lit "i:" ++ toStringInt i
  | .number q => lit "f:" ++ stl.formatDouble (binary64.round q)
  | .boolean true => lit "b:1"
  | .boolean false => lit "b:0"

theorem doubleOfInt_eq_round {i : ℤ} {q : ℚ} (h : (doubleOfInt i).toRat = some q)
    (h0 : q = 0 → i = 0) : doubleOfInt i = binary64.round q := by
  by_cases hq : q = 0
  · rw [hq, h0 hq, doubleOfInt, Int.cast_zero]
  · exact Value.ext_toRat h (Format.round_toRat h) hq

theorem normalizeZero_eq_round {v : Double} {q : ℚ} (h : v.toRat = some q) :
    normalizeZero v = binary64.round q := by
  have hzero : (Value.zero false : Double).toRat = some 0 := rfl
  have heq := Value.eq_iff h hzero
  unfold normalizeZero
  split_ifs with hv
  · rw [heq.mp hv]
    simp [Format.round]
  · exact Value.ext_toRat h (Format.round_toRat h) fun hq => hv (heq.mpr hq)

/-- Uniqueness compares the strings of the parsed values. -/
theorem canonicalValue_eq {spec : Field.Spec} {n : Node} :
    canonicalValue stl spec n = (parsedValue spec n.resolve).map (encode stl) := by
  unfold canonicalValue parsedValue
  cases spec.kind with
  | string => cases n.resolve <;> rfl
  | integer => cases integerOf n.resolve <;> rfl
  | number =>
    cases hr : n.resolve with
    | int i =>
      obtain ⟨q, hq, hq0⟩ := exists_doubleOfInt (fits_of_resolve hr)
      have hround := doubleOfInt_eq_round hq hq0
      simp only [numberOf, Option.bind_some, hq, Option.map_some, encode]
      rw [hround]
    | float v =>
      cases hv : v.toRat with
      | none => simp [numberOf, hv, Value.isFinite]
      | some q => simp [numberOf, hv, Value.isFinite, encode, normalizeZero_eq_round hv]
    | nonScalar => rfl
    | null => rfl
    | bool b => rfl
    | string s => rfl
  | boolean =>
    cases hr : n.resolve with
    | bool b => cases b <;> rfl
    | nonScalar => rfl
    | null => rfl
    | int i => rfl
    | float v => rfl
    | string s => rfl
  | i2cAddress => cases i2cAddressOf n.resolve <;> rfl

/-- The numbers of parsed values are finite values of the format. -/
def Parsed.Represented : Parsed → Prop
  | .number q => binary64.Representable q
  | _ => True

theorem represented_of_parsedValue {spec : Field.Spec} {r : Resolved} {v : Parsed}
    (h : parsedValue spec r = some v) : v.Represented := by
  unfold parsedValue at h
  split at h
  · split at h
    · obtain rfl := Option.some.inj h
      trivial
    · exact absurd h (by simp)
  · obtain ⟨i, -, rfl⟩ := Option.map_eq_some_iff.mp h
    trivial
  · obtain ⟨d, -, hd⟩ := Option.bind_eq_some_iff.mp h
    obtain ⟨q, hq, rfl⟩ := Option.map_eq_some_iff.mp hd
    exact Format.representable_of_toRat hq
  · split at h
    · obtain rfl := Option.some.inj h
      trivial
    · exact absurd h (by simp)
  · obtain ⟨i, -, rfl⟩ := Option.map_eq_some_iff.mp h
    trivial

/-- Different parsed values have different strings. -/
theorem encode_inj {v w : Parsed} (hv : v.Represented) (hw : w.Represented)
    (h : encode stl v = encode stl w) : v = w := by
  have htag : ∀ {a b : UInt8} {s t : Bytes}, a :: s = b :: t → a ≠ b → False := by
    intro a b s t hab hne
    exact hne (List.cons.inj hab).1
  rcases v with s | i | q | _ | _ <;> rcases w with s' | i' | q' | _ | _
  case text.text => exact congrArg Parsed.text (List.append_cancel_left h)
  case integer.integer =>
    exact congrArg Parsed.integer (toStringInt_inj (List.append_cancel_left h))
  case number.number =>
    have hq := Format.round_of_representable hv
    have hq' := Format.round_of_representable hw
    have hround := stl.formatDouble_inj _ _ (Value.isFinite_of_toRat hq)
      (Value.isFinite_of_toRat hq') (List.append_cancel_left h)
    rw [hround, hq'] at hq
    exact congrArg Parsed.number (Option.some.inj hq).symm
  case boolean.false.boolean.false => rfl
  case boolean.true.boolean.true => rfl
  case boolean.false.boolean.true =>
    have hwords : lit "b:1" ≠ lit "b:0" := by decide
    exact absurd h.symm hwords
  case boolean.true.boolean.false =>
    have hwords : lit "b:1" ≠ lit "b:0" := by decide
    exact absurd h hwords
  all_goals exact (htag h (by decide)).elim

end ProviderSdk.Config

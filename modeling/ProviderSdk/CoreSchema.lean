import ProviderSdk.Scalar

/-!
# Plain scalars and the YAML 1.2 core schema

The productions of the core schema, as the specification of `resolvePlain` : which texts
are null, boolean, integer and floating-point, and the number an integer text stands for.

An integer text outside `int64_t` falls through to the float branch when it is decimal,
and to a string when it has a prefix. `resolvePlain_coreTyped_iff` says that this is the
only way the resolver leaves the core schema.
-/

namespace ProviderSdk.Config

open Pattern Numeral Floating

/-! ## The productions -/

/-- `null`, `~` and the empty text. -/
def NullText (text : Bytes) : Prop :=
  text ∈ [[], lit "~", lit "null", lit "Null", lit "NULL"]

def BoolText (text : Bytes) : Bool → Prop
  | true => text ∈ [lit "true", lit "True", lit "TRUE"]
  | false => text ∈ [lit "false", lit "False", lit "FALSE"]

/-- `[-+]?`. -/
def signs : List Bytes :=
  [[], lit "+", lit "-"]

theorem mem_signs {sign : Bytes} :
    sign ∈ signs ↔ sign = [] ∨ sign = lit "+" ∨ sign = lit "-" := by
  simp [signs]

/-- Decimal integer texts, with the number they stand for. -/
inductive DecimalInt : Bytes → ℤ → Prop
  | unsigned {ds : Bytes} (h : IsNumeral 10 ds) : DecimalInt ds (value 10 ds)
  | plus {ds : Bytes} (h : IsNumeral 10 ds) : DecimalInt (lit "+" ++ ds) (value 10 ds)
  | minus {ds : Bytes} (h : IsNumeral 10 ds) : DecimalInt (lit "-" ++ ds) (-(value 10 ds : ℤ))

/-- Integer texts with a base prefix. -/
inductive PrefixedInt : Bytes → ℤ → Prop
  | oct {ds : Bytes} (h : IsNumeral 8 ds) : PrefixedInt (lit "0o" ++ ds) (value 8 ds)
  | hex {ds : Bytes} (h : IsNumeral 16 ds) : PrefixedInt (lit "0x" ++ ds) (value 16 ds)

/-- Integer texts. -/
def IntText (text : Bytes) (v : ℤ) : Prop :=
  DecimalInt text v ∨ PrefixedInt text v

/-- Floating-point texts. Decimal integers are among them. -/
inductive FloatText : Bytes → Prop
  | decimal {sign m ds fs e : Bytes} {k : ℤ} (hs : sign ∈ signs) (hm : Mantissa m ds fs)
      (he : Exponent e k) : FloatText (sign ++ (m ++ e))
  | inf {sign w : Bytes} (hs : sign ∈ signs) (hw : w ∈ [lit "inf", lit "Inf", lit "INF"]) :
      FloatText (sign ++ (lit "." ++ w))
  | nan {w : Bytes} (hw : w ∈ [lit "nan", lit "NaN", lit "NAN"]) : FloatText (lit "." ++ w)

/-- `r` is the core-schema value of the plain text `text`. A text that is an integer and
a floating-point number is an integer, unless `int64_t` cannot hold it. -/
structure CoreTyped (text : Bytes) (r : Resolved) : Prop where
  null_iff : r = .null ↔ NullText text
  bool_iff : ∀ b, r = .bool b ↔ BoolText text b
  int_iff : ∀ v, r = .int v ↔ IntText text v ∧ FitsInt64 v
  float_iff : r.kind = .float ↔
    (∃ v, IntText text v ∧ ¬FitsInt64 v) ∨ (FloatText text ∧ ¬∃ v, IntText text v)
  string_iff : r.kind = .string ↔
    ¬NullText text ∧ (∀ b, ¬BoolText text b) ∧ (∀ v, ¬IntText text v) ∧ ¬FloatText text
  string_text : ∀ s, r = .string s → s = text

/-! ## The patterns match the productions -/

theorem isDigit_ten : ∀ b, isDigit 10 b = true ↔ b ∈ lit "0123456789" :=
  Text.forall_byte (by decide +kernel)

theorem isDigit_eight : ∀ b, isDigit 8 b = true ↔ b ∈ lit "01234567" :=
  Text.forall_byte (by decide +kernel)

theorem isDigit_sixteen : ∀ b, isDigit 16 b = true ↔ b ∈ lit "0123456789abcdefABCDEF" :=
  Text.forall_byte (by decide +kernel)

/-- A class that holds the digits of a base, repeated, is a numeral of the base. -/
theorem rmatch_numeral {base : ℕ} {w ds : Bytes} (hw : ∀ b, isDigit base b = true ↔ b ∈ w) :
    (many1 (oneOf w)).rmatch ds = true ↔ IsNumeral base ds := by
  simp only [IsNumeral, rmatch_many1_oneOf, hw]

theorem rmatch_decimalDigits {ds : Bytes} :
    (many1 decimalDigit).rmatch ds = true ↔ IsNumeral 10 ds :=
  rmatch_numeral isDigit_ten

theorem rmatch_many_decimalDigit {ds : Bytes} :
    (many decimalDigit).rmatch ds = true ↔ ∀ b ∈ ds, isDigit 10 b = true := by
  simp only [decimalDigit, rmatch_many_oneOf, isDigit_ten]

theorem rmatch_optionalSign {s : Bytes} : optionalSign.rmatch s = true ↔ s ∈ signs := by
  rw [optionalSign, rmatch_opt, rmatch_oneOf]
  constructor
  · rintro (rfl | ⟨a, ha, rfl⟩)
    · simp [signs]
    · have : a ∈ [chr '-', chr '+'] := ha
      rcases List.mem_pair.mp this with rfl | rfl <;> decide
  · intro h
    rcases mem_signs.mp h with rfl | rfl | rfl
    · exact Or.inl rfl
    · exact Or.inr ⟨chr '+', by decide, rfl⟩
    · exact Or.inr ⟨chr '-', by decide, rfl⟩

/-- A decimal integer is a sign and a numeral of its magnitude. -/
theorem DecimalInt.exists_sign {text : Bytes} {v : ℤ} (h : DecimalInt text v) :
    ∃ sign ds, text = sign ++ ds ∧ sign ∈ signs ∧ IsNumeral 10 ds ∧ |v| = value 10 ds := by
  rcases h with h | h | h
  · exact ⟨[], _, rfl, by simp [signs], h, by simp⟩
  · exact ⟨lit "+", _, rfl, by simp [signs], h, by simp⟩
  · exact ⟨lit "-", _, rfl, by simp [signs], h, by simp⟩

theorem rmatch_intDec {text : Bytes} :
    intDecPattern.rmatch text = true ↔ ∃ v, DecimalInt text v := by
  simp only [intDecPattern, rmatch_mul, rmatch_optionalSign, rmatch_decimalDigits]
  constructor
  · rintro ⟨s, ds, rfl, hs, hds⟩
    rcases mem_signs.mp hs with rfl | rfl | rfl
    · exact ⟨_, .unsigned hds⟩
    · exact ⟨_, .plus hds⟩
    · exact ⟨_, .minus hds⟩
  · rintro ⟨v, h⟩
    obtain ⟨sign, ds, rfl, hs, hds, -⟩ := h.exists_sign
    exact ⟨sign, ds, rfl, hs, hds⟩

theorem rmatch_intHex {text : Bytes} : intHexPattern.rmatch text = true ↔
    ∃ ds, lit "0x" ++ ds = text ∧ IsNumeral 16 ds := by
  simp only [intHexPattern, rmatch_mul, rmatch_word, rmatch_numeral isDigit_sixteen]
  constructor
  · rintro ⟨s, ds, h, rfl, hds⟩
    exact ⟨ds, h, hds⟩
  · rintro ⟨ds, h, hds⟩
    exact ⟨_, ds, h, rfl, hds⟩

theorem rmatch_intOct {text : Bytes} : intOctPattern.rmatch text = true ↔
    ∃ ds, lit "0o" ++ ds = text ∧ IsNumeral 8 ds := by
  simp only [intOctPattern, rmatch_mul, rmatch_word, rmatch_numeral isDigit_eight]
  constructor
  · rintro ⟨s, ds, h, rfl, hds⟩
    exact ⟨ds, h, hds⟩
  · rintro ⟨ds, h, hds⟩
    exact ⟨_, ds, h, rfl, hds⟩

theorem rmatch_mantissa {m : Bytes} :
    mantissaPattern.rmatch m = true ↔ ∃ ds fs, Mantissa m ds fs := by
  simp only [mantissaPattern, rmatch_add, rmatch_mul, rmatch_word, rmatch_opt,
    rmatch_decimalDigits, rmatch_many_decimalDigit]
  constructor
  · rintro (⟨_, fs, rfl, rfl, hf⟩ | ⟨ds, _, rfl, hd, rfl | ⟨_, fs, rfl, rfl, hf⟩⟩)
    · exact ⟨[], fs, .point (fun b hb => absurd hb List.not_mem_nil) hf.2 fun h => hf.1 h.2⟩
    · rw [List.append_nil]
      exact ⟨ds, [], .whole hd⟩
    · exact ⟨ds, fs, .point hd.2 hf fun h => hd.1 h.1⟩
  · rintro ⟨ds, fs, h⟩
    cases h with
    | whole h => exact Or.inr ⟨_, [], by simp, h, Or.inl rfl⟩
    | point hd hf h =>
      by_cases hnil : ds = []
      · subst hnil
        exact Or.inl ⟨_, fs, rfl, rfl, fun hfs => h ⟨rfl, hfs⟩, hf⟩
      · exact Or.inr ⟨ds, _, rfl, ⟨hnil, hd⟩, Or.inr ⟨_, fs, rfl, rfl, hf⟩⟩

theorem rmatch_exponent {e : Bytes} :
    (opt exponentPattern).rmatch e = true ↔ ∃ k, Exponent e k := by
  have hletter : ∀ a : UInt8, a ∈ lit "eE" ↔ a = 101 ∨ a = 69 := by
    intro a
    rw [show lit "eE" = [101, 69] from rfl]
    simp
  rw [rmatch_opt, exponentPattern]
  simp only [rmatch_mul, rmatch_oneOf, rmatch_optionalSign, rmatch_decimalDigits, hletter]
  constructor
  · rintro (rfl | ⟨_, _, rfl, ⟨a, ha, rfl⟩, s, ds, rfl, hs, hds⟩)
    · exact ⟨0, .none⟩
    · rcases mem_signs.mp hs with rfl | rfl | rfl
      · exact ⟨_, .unsigned ha hds⟩
      · exact ⟨_, .plus ha hds⟩
      · exact ⟨_, .minus ha hds⟩
  · rintro ⟨k, h⟩
    cases h with
    | none => exact Or.inl rfl
    | unsigned he h => exact Or.inr ⟨_, _, rfl, ⟨_, he, rfl⟩, [], _, rfl, by simp [signs], h⟩
    | plus he h =>
      exact Or.inr ⟨_, _, rfl, ⟨_, he, rfl⟩, lit "+", _, rfl, by simp [signs], h⟩
    | minus he h =>
      exact Or.inr ⟨_, _, rfl, ⟨_, he, rfl⟩, lit "-", _, rfl, by simp [signs], h⟩

theorem rmatch_float {text : Bytes} : floatPattern.rmatch text = true ↔
    ∃ s ds fs m e k, s ++ (m ++ e) = text ∧ s ∈ signs ∧ Mantissa m ds fs ∧ Exponent e k := by
  simp only [floatPattern, rmatch_mul, rmatch_optionalSign, rmatch_mantissa, rmatch_exponent]
  constructor
  · rintro ⟨s, _, h, hs, m, e, rfl, ⟨ds, fs, hm⟩, k, he⟩
    exact ⟨s, ds, fs, m, e, k, h, hs, hm, he⟩
  · rintro ⟨s, ds, fs, m, e, k, h, hs, hm, he⟩
    exact ⟨s, _, h, hs, m, e, rfl, ⟨ds, fs, hm⟩, k, he⟩

/-- The two float patterns match the floating-point texts. -/
theorem rmatch_float_or_special {text : Bytes} :
    floatSpecialPattern.rmatch text = true ∨ floatPattern.rmatch text = true ↔
      FloatText text := by
  simp only [floatSpecialPattern, rmatch_add, rmatch_mul, rmatch_optionalSign, rmatch_word,
    rmatch_anyWord, rmatch_float]
  constructor
  · rintro ((⟨s, _, rfl, hs, _, w, rfl, rfl, hw⟩ | ⟨_, w, rfl, rfl, hw⟩) |
      ⟨s, ds, fs, m, e, k, rfl, hs, hm, he⟩)
    · exact .inf hs hw
    · exact .nan hw
    · exact .decimal hs hm he
  · rintro (⟨hs, hm, he⟩ | ⟨hs, hw⟩ | ⟨hw⟩)
    · exact Or.inr ⟨_, _, _, _, _, _, rfl, hs, hm, he⟩
    · exact Or.inl (Or.inl ⟨_, _, rfl, hs, _, _, rfl, rfl, hw⟩)
    · exact Or.inl (Or.inr ⟨_, _, rfl, rfl, hw⟩)

/-! ## The numbers they stand for -/

theorem fromCharsInt_unsigned {base : ℕ} {ds : Bytes} (h : IsNumeral base ds)
    (hsign : isDigit base (chr '-') = false) :
    fromCharsInt base ds =
      if FitsInt64 (value base ds) then .ok (value base ds) [] else .outOfRange [] := by
  simp [fromCharsInt, h.head_ne hsign, scanDigits_all h.2, h.1]

theorem fromCharsInt_minus {ds : Bytes} (h : IsNumeral 10 ds) :
    fromCharsInt 10 (lit "-" ++ ds) =
      if FitsInt64 (-(value 10 ds : ℤ)) then .ok (-(value 10 ds : ℤ)) []
      else .outOfRange [] := by
  have hhead : (lit "-" ++ ds).head? = some (chr '-') := rfl
  have htail : (lit "-" ++ ds).tail = ds := rfl
  simp [fromCharsInt, hhead, htail, scanDigits_all h.2, h.1]

/-- What `parseInt` makes of the integer that `std::from_chars` reads. -/
def held (v : ℤ) : Option ℤ :=
  if FitsInt64 v then some v else none

theorem parseInt_decimal {text : Bytes} {v : ℤ} (h : DecimalInt text v) :
    parseInt text 10 0 = held v := by
  rw [parseInt, if_neg (by simp)]
  rcases h with h | h | h
  · have hplus := h.head_ne (b := chr '+') (by decide)
    simp only [hplus, and_false, if_false, List.drop_zero, held,
      fromCharsInt_unsigned h (by decide)]
    split_ifs <;> rfl
  · rename_i ds
    have hhead : (lit "+" ++ ds).head? = some (chr '+') := rfl
    have hdrop : (lit "+" ++ ds).drop 1 = ds := rfl
    simp only [hhead, and_self, if_true, hdrop, fromCharsInt_unsigned h (by decide), held]
    split_ifs <;> rfl
  · rename_i ds
    have hhead : (lit "-" ++ ds).head? ≠ some (chr '+') := by
      rw [show (lit "-" ++ ds).head? = some (chr '-') from rfl]
      decide
    simp only [hhead, and_false, if_false, List.drop_zero, fromCharsInt_minus h, held]
    split_ifs <;> rfl

theorem parseInt_based {base : ℕ} {c : UInt8} {ds : Bytes} (h : IsNumeral base ds)
    (hbase : base ≠ 10) (hsign : isDigit base (chr '-') = false) :
    parseInt (chr '0' :: c :: ds) base 2 = held (value base ds) := by
  have hhead : ∀ b, (chr '0' :: c :: ds).head? = some b ↔ chr '0' = b := by simp
  rw [parseInt, if_neg]
  · simp only [hbase, false_and, if_false, List.drop_succ_cons, List.drop_zero,
      fromCharsInt_unsigned h hsign, held]
    split_ifs <;> rfl
  · simp only [hhead]
    decide

theorem fromCharsRounded_reads (q : ℚ) (rest : Bytes) :
    (∃ v, fromCharsRounded q rest = .ok v rest) ∨ fromCharsRounded q rest = .outOfRange rest := by
  have hnan := binary64.round_ne_nan q
  unfold fromCharsRounded
  split
  · next h => exact absurd h hnan
  · exact Or.inr rfl
  · split_ifs
    · exact Or.inl ⟨_, rfl⟩
    · exact Or.inr rfl
  · exact Or.inl ⟨_, rfl⟩

/-- `std::from_chars` reads a written decimal whole, in range or out of it. -/
theorem fromCharsDouble_decimal {m ds fs e : Bytes} {k : ℤ} (hm : Mantissa m ds fs)
    (he : Exponent e k) :
    (∃ v, fromCharsDouble (m ++ e) = .ok v []) ∨ fromCharsDouble (m ++ e) = .outOfRange [] := by
  rw [fromCharsDouble, scanDecimal_mantissa hm he]
  exact fromCharsRounded_reads _ _

/-- A text without its sign. -/
def unsigned (text : Bytes) : Bytes :=
  if text.head? = some (chr '+') ∨ text.head? = some (chr '-') then text.drop 1 else text

theorem unsigned_append {sign r : Bytes} (hs : sign ∈ signs) (hplus : r.head? ≠ some (chr '+'))
    (hminus : r.head? ≠ some (chr '-')) : unsigned (sign ++ r) = r := by
  unfold unsigned
  rcases mem_signs.mp hs with rfl | rfl | rfl
  · simp only [List.nil_append, hplus, hminus, or_self, if_false]
  · exact if_pos (Or.inl rfl)
  · exact if_pos (Or.inr rfl)

theorem unsigned_mantissa {sign m ds fs e : Bytes} (hs : sign ∈ signs) (hm : Mantissa m ds fs) :
    unsigned (sign ++ (m ++ e)) = m ++ e :=
  unsigned_append hs (hm.head_ne (by decide) (by decide)) (hm.head_ne (by decide) (by decide))

theorem resolveFloat_eq (raw : Bytes) :
    resolveFloat raw =
      match fromCharsDouble (unsigned raw) with
      | .ok parsed [] => .float (if raw.head? = some (chr '-') then parsed.neg else parsed)
      | .outOfRange [] =>
        if underflows (unsigned raw) then .float (.zero (raw.head? = some (chr '-')))
        else .float (.inf (raw.head? = some (chr '-')))
      | _ => .string raw :=
  rfl

/-- A written decimal with a sign resolves to a float. -/
theorem resolveFloat_decimal {sign m ds fs e : Bytes} {k : ℤ} (hs : sign ∈ signs)
    (hm : Mantissa m ds fs) (he : Exponent e k) :
    (resolveFloat (sign ++ (m ++ e))).kind = .float := by
  rw [resolveFloat_eq, unsigned_mantissa hs hm]
  rcases fromCharsDouble_decimal hm he with ⟨v, hv⟩ | hv
  · simp [hv, Resolved.kind]
  · simp only [hv]
    split_ifs <;> rfl

/-! ## `resolvePlain` -/

/-- The byte after the zero of a prefixed integer is no decimal digit. -/
theorem PrefixedInt.cons {text : Bytes} {v : ℤ} (h : PrefixedInt text v) :
    ∃ c ds, text = chr '0' :: c :: ds ∧ (c = chr 'o' ∨ c = chr 'x') := by
  rcases h with h | h
  · exact ⟨_, _, rfl, Or.inl rfl⟩
  · exact ⟨_, _, rfl, Or.inr rfl⟩

theorem not_prefixedInt_of_decimalInt {text : Bytes} {v w : ℤ} (h : DecimalInt text v) :
    ¬PrefixedInt text w := by
  intro hp
  obtain ⟨c, ds, rfl, hc⟩ := hp.cons
  generalize htext : chr '0' :: c :: ds = text at h
  rcases h with h | h | h
  · have := h.2 c (by simp [← htext])
    rcases hc with rfl | rfl <;> exact absurd this (by decide)
  · exact absurd (List.cons.inj htext).1 (by decide)
  · exact absurd (List.cons.inj htext).1 (by decide)

theorem prefixedInt_of_rmatch {text : Bytes}
    (h : intHexPattern.rmatch text = true ∨ intOctPattern.rmatch text = true) :
    ∃ v, PrefixedInt text v := by
  rcases h with h | h
  · obtain ⟨ds, rfl, hds⟩ := rmatch_intHex.mp h
    exact ⟨_, .hex hds⟩
  · obtain ⟨ds, rfl, hds⟩ := rmatch_intOct.mp h
    exact ⟨_, .oct hds⟩

theorem resolveInt_of_decimal {text : Bytes} {v : ℤ} (h : DecimalInt text v) :
    resolveInt text = held v := by
  have hbased : ¬(intHexPattern.rmatch text = true ∨ intOctPattern.rmatch text = true) := by
    intro hm
    obtain ⟨w, hw⟩ := prefixedInt_of_rmatch hm
    exact not_prefixedInt_of_decimalInt h hw
  rw [resolveInt, if_pos (rmatch_intDec.mpr ⟨v, h⟩), if_neg fun hm => hbased (Or.inl hm),
    if_neg fun hm => hbased (Or.inr hm), parseInt_decimal h]
  cases held v <;> rfl

theorem resolveInt_of_prefixed {text : Bytes} {v : ℤ} (h : PrefixedInt text v) :
    resolveInt text = held v := by
  have hdec : ¬intDecPattern.rmatch text = true := by
    intro hm
    obtain ⟨w, hw⟩ := rmatch_intDec.mp hm
    exact not_prefixedInt_of_decimalInt hw h
  rw [resolveInt, if_neg hdec]
  rcases h with h | h
  · rename_i ds
    have hhex : ¬intHexPattern.rmatch (lit "0o" ++ ds) = true := by
      intro hm
      obtain ⟨es, hes, -⟩ := rmatch_intHex.mp hm
      exact absurd (List.cons.inj (List.cons.inj hes).2).1 (by decide)
    rw [if_neg hhex, if_pos (rmatch_intOct.mpr ⟨ds, rfl, h⟩)]
    exact parseInt_based h (by decide) (by decide)
  · rename_i ds
    have hoct : ¬intOctPattern.rmatch (lit "0x" ++ ds) = true := by
      intro hm
      obtain ⟨es, hes, -⟩ := rmatch_intOct.mp hm
      exact absurd (List.cons.inj (List.cons.inj hes).2).1 (by decide)
    have hparse : parseInt (lit "0x" ++ ds) 16 2 = held (value 16 ds) :=
      parseInt_based h (by decide) (by decide)
    rw [if_pos (rmatch_intHex.mpr ⟨ds, rfl, h⟩), if_neg hoct, hparse]
    cases held (value 16 ds) <;> rfl

/-- The resolver holds an integer text's number, if it fits. -/
theorem resolveInt_of_intText {text : Bytes} {v : ℤ} (h : IntText text v) :
    resolveInt text = held v := by
  rcases h with h | h
  · exact resolveInt_of_decimal h
  · exact resolveInt_of_prefixed h

theorem resolveInt_eq_some {text : Bytes} {v : ℤ} :
    resolveInt text = some v ↔ IntText text v ∧ FitsInt64 v := by
  constructor
  · intro h
    obtain ⟨w, hw⟩ : ∃ w, IntText text w := by
      by_contra hno
      have hdec : ¬intDecPattern.rmatch text = true := by
        intro hm
        obtain ⟨w, hw⟩ := rmatch_intDec.mp hm
        exact hno ⟨w, Or.inl hw⟩
      have hbased : ¬(intHexPattern.rmatch text = true ∨ intOctPattern.rmatch text = true) := by
        intro hm
        obtain ⟨w, hw⟩ := prefixedInt_of_rmatch hm
        exact hno ⟨w, Or.inr hw⟩
      rw [resolveInt, if_neg hdec, if_neg fun hm => hbased (Or.inl hm),
        if_neg fun hm => hbased (Or.inr hm)] at h
      exact absurd h (by simp)
    rw [resolveInt_of_intText hw, held] at h
    split_ifs at h with hfits
    obtain rfl := Option.some.inj h
    exact ⟨hw, hfits⟩
  · rintro ⟨hv, hfits⟩
    rw [resolveInt_of_intText hv, held, if_pos hfits]

/-- The texts a number cannot be spelled as. -/
def reservedWords : List Bytes :=
  [[], lit "~", lit "null", lit "Null", lit "NULL",
    lit "true", lit "True", lit "TRUE", lit "false", lit "False", lit "FALSE"]

theorem not_number_of_reserved {text : Bytes} (h : text ∈ reservedWords) :
    (∀ v, ¬IntText text v) ∧ ¬FloatText text := by
  have hnone : ∀ w ∈ reservedWords, intDecPattern.rmatch w = false ∧
      intHexPattern.rmatch w = false ∧ intOctPattern.rmatch w = false ∧
      floatSpecialPattern.rmatch w = false ∧ floatPattern.rmatch w = false := by
    decide +kernel
  obtain ⟨hd, hx, ho, hs, hf⟩ := hnone text h
  refine ⟨?_, ?_⟩
  · rintro v (hv | hv)
    · simp [rmatch_intDec.mpr ⟨v, hv⟩] at hd
    · rcases hv with hv | hv
      · simp [rmatch_intOct.mpr ⟨_, rfl, hv⟩] at ho
      · simp [rmatch_intHex.mpr ⟨_, rfl, hv⟩] at hx
  · intro hfloat
    rcases rmatch_float_or_special.mpr hfloat with hm | hm
    · simp [hm] at hs
    · simp [hm] at hf

theorem isCoreNull_iff {text : Bytes} : isCoreNull text = true ↔ NullText text := by
  simp [isCoreNull, NullText, or_assoc]

theorem coreBool_eq_some {text : Bytes} {b : Bool} :
    coreBool text = some b ↔ BoolText text b := by
  have htwo : ∀ w ∈ [lit "true", lit "True", lit "TRUE"],
      w ∉ [lit "false", lit "False", lit "FALSE"] := by decide
  unfold coreBool
  cases b with
  | true =>
    split_ifs with h1 h2
    · simpa [BoolText] using h1
    · simpa [BoolText] using h1
    · simpa [BoolText] using h1
  | false =>
    split_ifs with h1 h2
    · have hmem : text ∈ [lit "true", lit "True", lit "TRUE"] := by simpa using h1
      simpa [BoolText] using htwo text hmem
    · simpa [BoolText] using h2
    · simpa [BoolText] using h2

theorem resolvePlain_null {text : Bytes} (h : NullText text) : resolvePlain text = .null := by
  rw [resolvePlain, if_pos (isCoreNull_iff.mpr h)]

theorem resolvePlain_bool {text : Bytes} {b : Bool} (h : BoolText text b)
    (hnull : ¬NullText text) : resolvePlain text = .bool b := by
  rw [resolvePlain, if_neg (mt isCoreNull_iff.mp hnull), coreBool_eq_some.mpr h]

/-- What is neither null nor boolean is tried as an integer, then as a float. -/
theorem resolvePlain_number {text : Bytes} (hnull : ¬NullText text)
    (hbool : ∀ b, ¬BoolText text b) :
    resolvePlain text =
      match resolveInt text with
      | some v => .int v
      | none =>
        if floatSpecialPattern.rmatch text then
          if text.getLast? = some (chr 'f') ∨ text.getLast? = some (chr 'F') then
            .float (.inf (text.head? = some (chr '-')))
          else .float .nan
        else if floatPattern.rmatch text then resolveFloat text
        else .string text := by
  refine (if_neg (mt isCoreNull_iff.mp hnull)).trans ?_
  cases hb : coreBool text with
  | some b => exact absurd (coreBool_eq_some.mp hb) (hbool b)
  | none => rfl

theorem resolvePlain_float {text : Bytes} (hnull : ¬NullText text)
    (hbool : ∀ b, ¬BoolText text b) (hint : resolveInt text = none) (h : FloatText text) :
    (resolvePlain text).kind = .float := by
  rw [resolvePlain_number hnull hbool, hint]
  dsimp only
  by_cases hspecial : floatSpecialPattern.rmatch text = true
  · rw [if_pos hspecial]
    split_ifs <;> rfl
  · have hf := (rmatch_float_or_special.mpr h).resolve_left hspecial
    rw [if_neg hspecial, if_pos hf]
    obtain ⟨s, ds, fs, m, e, k, rfl, hs, hm, he⟩ := rmatch_float.mp hf
    exact resolveFloat_decimal hs hm he

theorem resolvePlain_string {text : Bytes} (hnull : ¬NullText text)
    (hbool : ∀ b, ¬BoolText text b) (hint : resolveInt text = none) (h : ¬FloatText text) :
    resolvePlain text = .string text := by
  have hno := mt rmatch_float_or_special.mp h
  rw [resolvePlain_number hnull hbool, hint]
  dsimp only
  rw [if_neg (mt Or.inl hno), if_neg (mt Or.inr hno)]

/-- Only an integer text that fits resolves to an integer. -/
theorem intText_of_resolvePlain {text : Bytes} {v : ℤ} (h : resolvePlain text = .int v) :
    IntText text v ∧ FitsInt64 v := by
  by_cases hnull : NullText text
  · rw [resolvePlain_null hnull] at h
    exact absurd h (by simp)
  by_cases hbool : ∃ b, BoolText text b
  · obtain ⟨b, hb⟩ := hbool
    rw [resolvePlain_bool hb hnull] at h
    exact absurd h (by simp)
  have hbool' : ∀ b, ¬BoolText text b := fun b hb => hbool ⟨b, hb⟩
  rcases hint : resolveInt text with _ | w
  · by_cases hfloat : FloatText text
    · have hkind := resolvePlain_float hnull hbool' hint hfloat
      rw [h] at hkind
      exact absurd hkind (by simp [Resolved.kind])
    · rw [resolvePlain_string hnull hbool' hint hfloat] at h
      exact absurd h (by simp)
  · rw [resolvePlain_number hnull hbool', hint] at h
    obtain rfl : w = v := by simpa using h
    exact resolveInt_eq_some.mp hint

/-- A decimal integer is a floating-point text too. -/
theorem floatText_of_decimalInt {text : Bytes} {v : ℤ} (h : DecimalInt text v) :
    FloatText text := by
  obtain ⟨sign, ds, rfl, hs, hds, -⟩ := h.exists_sign
  have hf : FloatText (sign ++ (ds ++ [])) := .decimal hs (.whole hds) .none
  rwa [List.append_nil] at hf

theorem mem_reserved_of_null {text : Bytes} (h : NullText text) : text ∈ reservedWords :=
  List.mem_append_left [lit "true", lit "True", lit "TRUE", lit "false", lit "False",
    lit "FALSE"] h

theorem mem_reserved_of_bool {text : Bytes} {b : Bool} (h : BoolText text b) :
    text ∈ reservedWords := by
  have hwords : ∀ w ∈ [lit "true", lit "True", lit "TRUE"] ++
      [lit "false", lit "False", lit "FALSE"], w ∈ reservedWords := by decide
  cases b with
  | true => exact hwords text (List.mem_append_left _ h)
  | false => exact hwords text (List.mem_append_right _ h)

theorem not_boolText_of_null {text : Bytes} (h : NullText text) (b : Bool) :
    ¬BoolText text b := by
  have hwords : ∀ w ∈ [[], lit "~", lit "null", lit "Null", lit "NULL"], coreBool w = none := by
    decide
  intro hb
  rw [← coreBool_eq_some, hwords text h] at hb
  exact absurd hb (by simp)

/-- A byte of a written decimal. -/
def DecimalLetter (b : UInt8) : Prop :=
  isDigit 10 b = true ∨ b ∈ lit "+-.eE"

theorem decimalLetter_of_mem {sign m ds fs e : Bytes} {k : ℤ} (hs : sign ∈ signs)
    (hm : Mantissa m ds fs) (he : Exponent e k) : ∀ b ∈ sign ++ (m ++ e), DecimalLetter b := by
  have hsign : ∀ s ∈ signs, ∀ b ∈ s, b ∈ lit "+-.eE" := by decide +kernel
  have hletter : ∀ a : UInt8, a = 101 ∨ a = 69 → a ∈ lit "+-.eE" := by
    rintro a (rfl | rfl) <;> decide
  intro b hb
  rcases List.mem_append.mp hb with hb | hb
  · exact Or.inr (hsign sign hs b hb)
  rcases List.mem_append.mp hb with hb | hb
  · rcases hm with h | ⟨hd, hf, -⟩
    · exact Or.inl (h.2 b hb)
    · rcases List.mem_append.mp hb with hb | hb
      · exact Or.inl (hd b hb)
      · rcases List.mem_cons.mp hb with rfl | hb
        · exact Or.inr (by decide)
        · exact Or.inl (hf b hb)
  · rcases he with _ | ⟨ha, h⟩ | ⟨ha, h⟩ | ⟨ha, h⟩
    · simp at hb
    · rcases List.mem_cons.mp hb with rfl | hb
      · exact Or.inr (hletter b ha)
      · exact Or.inl (h.2 b hb)
    · rcases List.mem_cons.mp hb with rfl | hb
      · exact Or.inr (hletter b ha)
      · rcases List.mem_cons.mp hb with rfl | hb
        · exact Or.inr (by decide)
        · exact Or.inl (h.2 b hb)
    · rcases List.mem_cons.mp hb with rfl | hb
      · exact Or.inr (hletter b ha)
      · rcases List.mem_cons.mp hb with rfl | hb
        · exact Or.inr (by decide)
        · exact Or.inl (h.2 b hb)

theorem not_floatText_of_prefixed {text : Bytes} {v : ℤ} (h : PrefixedInt text v) :
    ¬FloatText text := by
  obtain ⟨c, ds, rfl, hc⟩ := h.cons
  intro hf
  generalize htext : chr '0' :: c :: ds = text at hf
  have hpoint : ∀ s ∈ signs, ∀ w, (s ++ (lit "." ++ w)).head? ≠ some (chr '0') := by
    intro s hs w
    rcases mem_signs.mp hs with rfl | rfl | rfl <;>
      simp [show lit "." = [chr '.'] from rfl, show lit "+" = [chr '+'] from rfl,
        show lit "-" = [chr '-'] from rfl] <;> decide
  rcases hf with ⟨hs, hm, he⟩ | ⟨hs, -⟩ | -
  · have hletter := decimalLetter_of_mem hs hm he c (by simp [← htext])
    rcases hc with rfl | rfl <;> rcases hletter with h | h <;> exact absurd h (by decide)
  · exact hpoint _ hs _ (by rw [← htext]; rfl)
  · exact hpoint [] (by simp [signs]) _ (by rw [List.nil_append, ← htext]; rfl)

/-- A prefixed integer that does not fit `int64_t` is left to the last branch. -/
theorem resolvePlain_prefixed {text : Bytes} {v : ℤ} (h : PrefixedInt text v)
    (hbig : ¬FitsInt64 v) : resolvePlain text = .string text := by
  have hint : resolveInt text = none := by
    rw [resolveInt_of_prefixed h, held, if_neg hbig]
  have hreserved : text ∉ reservedWords := fun hr =>
    (not_number_of_reserved hr).1 v (Or.inr h)
  exact resolvePlain_string (fun hn => hreserved (mem_reserved_of_null hn))
    (fun b hb => hreserved (mem_reserved_of_bool hb)) hint (not_floatText_of_prefixed h)

/-- The values of integer texts that fit, and of those that do not. -/
theorem fitsInt64_iff_of_intText {text : Bytes} {v w : ℤ} (hv : IntText text v)
    (hw : IntText text w) : (FitsInt64 v ↔ FitsInt64 w) := by
  have h := (resolveInt_of_intText hv).symm.trans (resolveInt_of_intText hw)
  unfold held at h
  split_ifs at h with h1 h2 h2
  · exact iff_of_true h1 h2
  · exact iff_of_false h1 h2

theorem PrefixedInt.nonneg {text : Bytes} {v : ℤ} (h : PrefixedInt text v) : 0 ≤ v := by
  rcases h with h | h <;> positivity

theorem coreTyped_null {text : Bytes} (h : NullText text) : CoreTyped text .null := by
  have hb := not_boolText_of_null h
  obtain ⟨hi, hf⟩ := not_number_of_reserved (mem_reserved_of_null h)
  constructor <;> simp [h, hb, hi, hf, Resolved.kind]

theorem coreTyped_bool {text : Bytes} {b : Bool} (h : BoolText text b)
    (hnull : ¬NullText text) : CoreTyped text (.bool b) := by
  obtain ⟨hi, hf⟩ := not_number_of_reserved (mem_reserved_of_bool h)
  have hb : ∀ c, b = c ↔ BoolText text c := by
    intro c
    rw [← coreBool_eq_some, coreBool_eq_some.mpr h, Option.some.injEq]
  refine ⟨by simp [hnull], by simp [hb], by simp [hi], by simp [hi, hf, Resolved.kind], ?_,
    by simp⟩
  simp only [Resolved.kind, reduceCtorEq, false_iff]
  rintro ⟨-, hno, -⟩
  exact hno b h

theorem coreTyped_int {text : Bytes} {v : ℤ} (h : IntText text v) (hfits : FitsInt64 v)
    (hnull : ¬NullText text) (hbool : ∀ b, ¬BoolText text b) : CoreTyped text (.int v) := by
  have hv : ∀ w, v = w ↔ IntText text w ∧ FitsInt64 w := by
    intro w
    rw [← resolveInt_eq_some, resolveInt_eq_some.mpr ⟨h, hfits⟩, Option.some.injEq]
  have hsame : ∀ w, IntText text w → FitsInt64 w := fun w hw =>
    (fitsInt64_iff_of_intText h hw).mp hfits
  refine ⟨by simp [hnull], by simp [hbool], by simp [hv], ?_, ?_, by simp⟩
  · simp only [Resolved.kind, reduceCtorEq, false_iff]
    rintro (⟨w, hw, hno⟩ | ⟨-, hno⟩)
    · exact hno (hsame w hw)
    · exact hno ⟨v, h⟩
  · simp only [Resolved.kind, reduceCtorEq, false_iff]
    rintro ⟨-, -, hno, -⟩
    exact hno v h

theorem coreTyped_float {text : Bytes} {r : Resolved} (h : FloatText text)
    (hbig : ∀ v, IntText text v → ¬FitsInt64 v) (hnull : ¬NullText text)
    (hbool : ∀ b, ¬BoolText text b) (hr : r.kind = .float) : CoreTyped text r := by
  cases r <;> simp only [Resolved.kind, reduceCtorEq] at hr
  refine ⟨by simp [hnull], by simp [hbool], ?_, ?_, by simp [Resolved.kind, h], by simp⟩
  · simp only [reduceCtorEq, false_iff]
    rintro v ⟨hv, hfits⟩
    exact hbig v hv hfits
  · simp only [Resolved.kind, true_iff]
    by_cases hi : ∃ v, IntText text v
    · obtain ⟨v, hv⟩ := hi
      exact Or.inl ⟨v, hv, hbig v hv⟩
    · exact Or.inr ⟨h, hi⟩

theorem coreTyped_string {text : Bytes} (hnull : ¬NullText text)
    (hbool : ∀ b, ¬BoolText text b) (hint : ∀ v, ¬IntText text v) (h : ¬FloatText text) :
    CoreTyped text (.string text) := by
  constructor <;> simp [hnull, hbool, hint, h, Resolved.kind]

/-- `resolvePlain` types a plain text by the core schema exactly when the text is not a
prefixed integer of `2 ^ 63` or more. -/
theorem resolvePlain_coreTyped_iff (text : Bytes) :
    CoreTyped text (resolvePlain text) ↔ ¬∃ v, PrefixedInt text v ∧ 2 ^ 63 ≤ v := by
  constructor
  · rintro h ⟨v, hv, hbig⟩
    have hfits : ¬FitsInt64 v := fun hf => absurd hf.2 (not_lt.mpr hbig)
    have hfloat := h.float_iff.mpr (Or.inl ⟨v, Or.inr hv, hfits⟩)
    rw [resolvePlain_prefixed hv hfits] at hfloat
    exact absurd hfloat (by simp [Resolved.kind])
  · intro hcond
    by_cases hnull : NullText text
    · rw [resolvePlain_null hnull]
      exact coreTyped_null hnull
    by_cases hbool : ∃ b, BoolText text b
    · obtain ⟨b, hb⟩ := hbool
      rw [resolvePlain_bool hb hnull]
      exact coreTyped_bool hb hnull
    have hbool' : ∀ b, ¬BoolText text b := fun b hb => hbool ⟨b, hb⟩
    by_cases hint : ∃ v, IntText text v ∧ FitsInt64 v
    · obtain ⟨v, hv, hfits⟩ := hint
      rw [resolvePlain_number hnull hbool', resolveInt_eq_some.mpr ⟨hv, hfits⟩]
      exact coreTyped_int hv hfits hnull hbool'
    have hbig : ∀ v, IntText text v → ¬FitsInt64 v := fun v hv hf => hint ⟨v, hv, hf⟩
    have hnone : resolveInt text = none := by
      rw [Option.eq_none_iff_forall_ne_some]
      exact fun v hv => hint ⟨v, resolveInt_eq_some.mp hv⟩
    by_cases hfloat : FloatText text
    · exact coreTyped_float hfloat hbig hnull hbool'
        (resolvePlain_float hnull hbool' hnone hfloat)
    · rw [resolvePlain_string hnull hbool' hnone hfloat]
      refine coreTyped_string hnull hbool' ?_ hfloat
      rintro v (hv | hv)
      · exact hfloat (floatText_of_decimalInt hv)
      · -- a prefixed integer that does not fit is `2 ^ 63` or more
        refine hcond ⟨v, hv, ?_⟩
        by_contra hlt
        exact hbig v (Or.inr hv) ⟨by linarith [hv.nonneg], not_le.mp hlt⟩

/-- `0x8000000000000000` is the integer `2 ^ 63`, and resolves to a string. -/
theorem resolvePlain_hex_overflow :
    PrefixedInt (lit "0x8000000000000000") (2 ^ 63) ∧
      resolvePlain (lit "0x8000000000000000") = .string (lit "0x8000000000000000") ∧
      ¬CoreTyped (lit "0x8000000000000000") (resolvePlain (lit "0x8000000000000000")) := by
  have hp : PrefixedInt (lit "0x8000000000000000") (2 ^ 63) := by
    have hv : (value 16 (lit "8000000000000000") : ℤ) = 2 ^ 63 := by decide +kernel
    rw [← hv]
    exact .hex ⟨by decide, by decide +kernel⟩
  have hs := resolvePlain_prefixed hp (fun hf => absurd hf.2 (lt_irrefl _))
  refine ⟨hp, hs, ?_⟩
  rw [hs]
  intro h
  have hfloat := h.float_iff.mpr (Or.inl ⟨_, Or.inr hp, fun hf => absurd hf.2 (lt_irrefl _)⟩)
  exact absurd hfloat (by simp [Resolved.kind])

end ProviderSdk.Config

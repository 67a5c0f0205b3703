import ProviderSdk.Extraction

/-!
# Decimals out of range

`std::from_chars` reports a magnitude that rounds to an infinity and one that rounds to
zero with the same error. The resolver takes the side from the spelling : towards zero if
the exponent part has a minus sign, or if there is none and the mantissa starts with `0.`.

The magnitude depends on the mantissa's length and the exponent together, so the spelling
can point the wrong way. `rightSide_iff` says that the resolver takes the right side of an
out-of-range text exactly when it is spelled small (`SpelledSmall`) if and only if its
magnitude is less than one.
-/

namespace ProviderSdk.Config

open Pattern Numeral Floating

/-! ## Written decimals -/

/-- `text` is a sign, the mantissa `m` and the exponent part `e`, of exact magnitude `q`. -/
inductive DecimalText : Bytes → Bool → Bytes → Bytes → ℚ → Prop
  | mk {sign m ds fs e : Bytes} {k : ℤ} (hs : sign ∈ signs) (hm : Mantissa m ds fs)
      (he : Exponent e k) :
      DecimalText (sign ++ (m ++ e)) (sign = lit "-") m e (Decimal.toRat ⟨ds, fs, k⟩)

/-- The float pattern matches the written decimals. -/
theorem rmatch_float_iff {text : Bytes} :
    floatPattern.rmatch text = true ↔ ∃ negative m e q, DecimalText text negative m e q := by
  rw [rmatch_float]
  constructor
  · rintro ⟨sign, ds, fs, m, e, k, rfl, hs, hm, he⟩
    exact ⟨_, m, e, _, .mk hs hm he⟩
  · rintro ⟨_, m, e, _, ⟨hs, hm, he⟩⟩
    exact ⟨_, _, _, m, e, _, rfl, hs, hm, he⟩

/-- The magnitude rounds to an infinity. -/
def Overflows (q : ℚ) : Prop :=
  ∃ s, binary64.round q = .inf s

/-- The magnitude rounds to zero, and is not zero. -/
def Vanishes (q : ℚ) : Prop :=
  q ≠ 0 ∧ ∃ s, binary64.round q = .zero s

/-- What `std::from_chars` reports as out of range. -/
theorem fromCharsRounded_outOfRange {q : ℚ} {rest : Bytes} :
    fromCharsRounded q rest = .outOfRange rest ↔ Overflows q ∨ Vanishes q := by
  unfold fromCharsRounded Overflows Vanishes
  cases binary64.round q with
  | nan => simp
  | inf s => simp
  | zero s =>
    dsimp only
    split_ifs with hq <;> simp [hq]
  | finite r h => simp

theorem Overflows.one_le {q : ℚ} (h0 : 0 ≤ q) (h : Overflows q) : 1 ≤ q := by
  obtain ⟨s, hs⟩ := h
  exact Format.one_le_of_round_inf h0 hs (by decide) (by decide)

theorem Vanishes.lt_one {q : ℚ} (h : Vanishes q) : q < 1 := by
  obtain ⟨-, s, hs⟩ := h
  exact Format.lt_one_of_round_zero hs (by decide)

theorem DecimalText.nonneg {text m e : Bytes} {negative : Bool} {q : ℚ}
    (h : DecimalText text negative m e q) : 0 ≤ q := by
  cases h
  unfold Decimal.toRat
  positivity

/-! ## The spelling -/

/-- The exponent part has a minus sign, or there is none and the mantissa starts with
`0.`. -/
def SpelledSmall (m e : Bytes) : Prop :=
  (∃ letter ds, e = letter :: chr '-' :: ds) ∨ e = [] ∧ ∃ fs, m = lit "0." ++ fs

/-- No byte of a mantissa is an exponent letter. -/
theorem not_letter_of_mantissa {m ds fs : Bytes} (hm : Mantissa m ds fs) :
    ∀ b ∈ m, (!(b = chr 'e' || b = chr 'E') : Bool) = true := by
  have hdigit : ∀ b, isDigit 10 b = true → (!(b = chr 'e' || b = chr 'E') : Bool) = true :=
    Text.forall_byte (by decide +kernel)
  intro b hb
  cases hm with
  | whole h => exact hdigit b (h.2 b hb)
  | point hd hf _ =>
    rcases List.mem_append.mp hb with hb | hb
    · exact hdigit b (hd b hb)
    · rcases List.mem_cons.mp hb with rfl | hb
      · decide
      · exact hdigit b (hf b hb)

/-- The exponent part is what starts at the first exponent letter. -/
theorem dropWhile_mantissa {m ds fs e : Bytes} {k : ℤ} (hm : Mantissa m ds fs)
    (he : Exponent e k) :
    ((m ++ e).dropWhile fun b => !(b = chr 'e' || b = chr 'E')) = e := by
  have hletter {a : UInt8} (ha : a = 101 ∨ a = 69) :
      (!(a = chr 'e' || a = chr 'E') : Bool) = false := by
    rcases ha with rfl | rfl <;> decide
  refine Text.dropWhile_append (not_letter_of_mantissa hm) ?_
  cases he with
  | none => simp
  | unsigned ha _ => simpa using hletter ha
  | plus ha _ => simpa using hletter ha
  | minus ha _ => simpa using hletter ha

theorem underflows_iff {m ds fs e : Bytes} {k : ℤ} (hm : Mantissa m ds fs)
    (he : Exponent e k) : underflows (m ++ e) = true ↔ SpelledSmall m e := by
  unfold underflows SpelledSmall
  rw [dropWhile_mantissa hm he]
  cases he with
  | none =>
    rw [List.append_nil]
    dsimp only
    rw [decide_eq_true_eq]
    constructor
    · intro h
      exact Or.inr ⟨rfl, m.drop 2, by rw [← h, List.take_append_drop]⟩
    · rintro (⟨_, _, h⟩ | ⟨-, fs, rfl⟩)
      · exact absurd h (by simp)
      · rfl
  | unsigned ha h =>
    obtain ⟨b, ds, rfl⟩ := List.exists_cons_of_ne_nil h.1
    have hb : b ≠ chr '-' := by
      rintro rfl
      exact absurd (h.2 (chr '-') (by simp)) (by decide)
    simp [hb]
  | plus ha h => simp
  | minus ha h => simp

/-! ## Which branch resolves them -/

section branch

variable {text m e : Bytes} {negative : Bool} {q : ℚ}

theorem DecimalText.floatText (h : DecimalText text negative m e q) : FloatText text := by
  obtain ⟨hs, hm, he⟩ := h
  exact .decimal hs hm he

theorem DecimalText.decimalLetter (h : DecimalText text negative m e q) :
    ∀ b ∈ text, DecimalLetter b := by
  obtain ⟨hs, hm, he⟩ := h
  exact decimalLetter_of_mem hs hm he

/-- The special floats are spelled with letters that no decimal has. -/
theorem DecimalText.not_special (h : DecimalText text negative m e q) :
    ¬floatSpecialPattern.rmatch text = true := by
  have hinf : ∀ w ∈ [lit "inf", lit "Inf", lit "INF"], ∃ b ∈ w, b = chr 'n' ∨ b = chr 'N' := by
    decide
  have hnan : ∀ w ∈ [lit "nan", lit "NaN", lit "NAN"], ∃ b ∈ w, b = chr 'n' ∨ b = chr 'N' := by
    decide
  have hno : ∀ b, b = chr 'n' ∨ b = chr 'N' → ¬DecimalLetter b := by
    rintro b (rfl | rfl) (h | h) <;> exact absurd h (by decide)
  have hletter := h.decimalLetter
  clear h
  simp only [floatSpecialPattern, rmatch_add, rmatch_mul, rmatch_word, rmatch_anyWord]
  rintro (⟨s, _, rfl, -, p, w, rfl, -, hw⟩ | ⟨p, w, rfl, -, hw⟩)
  · obtain ⟨b, hb, hbn⟩ := hinf w hw
    exact hno b hbn (hletter b (by simp [hb]))
  · obtain ⟨b, hb, hbn⟩ := hnan w hw
    exact hno b hbn (hletter b (by simp [hb]))

theorem unsigned_decimalInt {v : ℤ} (h : DecimalInt text v) :
    IsNumeral 10 (unsigned text) ∧ |v| = value 10 (unsigned text) := by
  obtain ⟨sign, ds, rfl, hs, hds, hv⟩ := h.exists_sign
  rw [unsigned_append hs (hds.head_ne (by decide)) (hds.head_ne (by decide))]
  exact ⟨hds, hv⟩

theorem DecimalText.scan (h : DecimalText text negative m e q) :
    ∃ d, scanDecimal (unsigned text) = some (d, []) ∧ d.toRat = q := by
  obtain ⟨hs, hm, he⟩ := h
  rw [unsigned_mantissa hs hm]
  exact ⟨_, scanDecimal_mantissa hm he, rfl⟩

/-- A decimal that is an integer text has the integer's magnitude. -/
theorem DecimalText.eq_abs {v : ℤ} (h : DecimalText text negative m e q)
    (hv : DecimalInt text v) : q = |v| := by
  obtain ⟨hnum, hval⟩ := unsigned_decimalInt hv
  obtain ⟨d, hd, rfl⟩ := h.scan
  have hwhole := scanDecimal_mantissa (.whole hnum) .none
  rw [List.append_nil, hd] at hwhole
  obtain rfl : d = ⟨unsigned text, [], 0⟩ := by simpa using hwhole
  rw [hval]
  simp [Decimal.toRat]

/-- An integer text that fits `int64_t` is in range. -/
theorem resolveInt_outOfRange (h : DecimalText text negative m e q)
    (hout : Overflows q ∨ Vanishes q) : resolveInt text = none := by
  rw [Option.eq_none_iff_forall_ne_some]
  intro v hv
  obtain ⟨hint, hfits⟩ := resolveInt_eq_some.mp hv
  rcases hint with hint | hint
  · obtain rfl := h.eq_abs hint
    obtain ⟨r, hr, hr0⟩ := Format.exists_round_int (F := binary64) (i := |v|) (n := 63)
      (by rw [abs_abs, abs_le]; exact ⟨hfits.1, hfits.2.le⟩) (by decide) (by decide)
    rcases hout with ⟨s, hs⟩ | ⟨hne, s, hs⟩
    · rw [hs] at hr
      exact absurd hr (by simp [Value.toRat])
    · rw [hs] at hr
      refine hne ?_
      rw [hr0 (Option.some.inj hr).symm, Int.cast_zero]
  · exact not_floatText_of_prefixed hint h.floatText

theorem head_minus_iff {sign ds fs : Bytes} (hs : sign ∈ signs) (hm : Mantissa m ds fs) :
    (sign ++ (m ++ e)).head? = some (chr '-') ↔ sign = lit "-" := by
  have hno : (m ++ e).head? ≠ some (chr '-') := hm.head_ne (by decide) (by decide)
  rcases mem_signs.mp hs with rfl | rfl | rfl
  · exact iff_of_false hno (by decide)
  · refine iff_of_false ?_ (by decide)
    rw [List.head?_append_of_ne_nil _ (by decide)]
    decide
  · exact iff_of_true rfl rfl

/-- What is out of range is resolved by its spelling. -/
theorem resolvePlain_outOfRange (h : DecimalText text negative m e q)
    (hout : Overflows q ∨ Vanishes q) :
    resolvePlain text =
      if underflows (m ++ e) then .float (.zero negative) else .float (.inf negative) := by
  have hnull : ¬NullText text := fun hn =>
    (not_number_of_reserved (mem_reserved_of_null hn)).2 h.floatText
  have hbool : ∀ b, ¬BoolText text b := fun b hb =>
    (not_number_of_reserved (mem_reserved_of_bool hb)).2 h.floatText
  rw [resolvePlain_number hnull hbool, resolveInt_outOfRange h hout]
  dsimp only
  rw [if_neg h.not_special, if_pos (rmatch_float_iff.mpr ⟨_, _, _, _, h⟩), resolveFloat_eq]
  obtain ⟨hs, hm, he⟩ := h
  rw [unsigned_mantissa hs hm, fromCharsDouble, scanDecimal_mantissa hm he]
  dsimp only
  rw [fromCharsRounded_outOfRange.mpr hout]
  simp only [head_minus_iff hs hm]

theorem resolvePlain_of_spelledSmall (h : DecimalText text negative m e q)
    (hout : Overflows q ∨ Vanishes q) (hs : SpelledSmall m e) :
    resolvePlain text = .float (.zero negative) := by
  rw [resolvePlain_outOfRange h hout]
  obtain ⟨-, hm, he⟩ := h
  exact if_pos ((underflows_iff hm he).mpr hs)

theorem resolvePlain_of_not_spelledSmall (h : DecimalText text negative m e q)
    (hout : Overflows q ∨ Vanishes q) (hs : ¬SpelledSmall m e) :
    resolvePlain text = .float (.inf negative) := by
  rw [resolvePlain_outOfRange h hout]
  obtain ⟨-, hm, he⟩ := h
  exact if_neg (mt (underflows_iff hm he).mp hs)

end branch

/-! ## What an infinity is good for -/

section infinity

variable {tag text : Bytes} {negative : Bool}

/-- A scalar of a text that resolves to an infinity is a string, by its tag, or the
infinity. -/
theorem resolve_of_inf (h : resolvePlain text = .float (.inf negative)) :
    (Node.scalar tag text).resolve = .string text ∨
      (Node.scalar tag text).resolve = .float (.inf negative) := by
  have hnode : (Node.scalar tag text).resolve =
      if tag = lit "!" ∨ tag = lit "tag:yaml.org,2002:str" then .string text
      else resolvePlain text := rfl
  rw [hnode, h]
  split_ifs
  · exact Or.inl rfl
  · exact Or.inr rfl

theorem integerOf_of_inf (h : resolvePlain text = .float (.inf negative)) :
    integerOf (Node.scalar tag text).resolve = none := by
  rcases resolve_of_inf h with hr | hr
  · rw [hr]
    rfl
  · rw [hr]
    rfl

/-- Neither an Integer nor a Number field takes it. -/
theorem not_accepts_of_inf {stl : Stl} {spec : Field.Spec}
    (h : resolvePlain text = .float (.inf negative))
    (hkind : spec.kind = .integer ∨ spec.kind = .number) :
    ¬Accepts stl spec (Node.scalar tag text).resolve := by
  unfold Accepts
  rcases hkind with hk | hk
  · rw [hk]
    rintro ⟨i, hi, -⟩
    rw [integerOf_of_inf h] at hi
    exact absurd hi (by simp)
  · rw [hk]
    rintro ⟨v, hv, hacc⟩
    rcases resolve_of_inf h with hr | hr
    · rw [hr] at hv
      exact absurd hv (by simp [numberOf])
    · rw [hr] at hv
      obtain rfl := Option.some.inj hv
      exact absurd hacc.finite (by simp [Value.isFinite, Value.toRat])

end infinity

/-! ## The side of an out-of-range text -/

/-- A text of the sign `negative` whose magnitude rounds to an infinity. -/
def TextOverflows (text : Bytes) (negative : Bool) : Prop :=
  ∃ m e q, DecimalText text negative m e q ∧ Overflows q

/-- A text of the sign `negative` whose magnitude is not zero, and rounds to zero. -/
def TextVanishes (text : Bytes) (negative : Bool) : Prop :=
  ∃ m e q, DecimalText text negative m e q ∧ Vanishes q

/-- An out-of-range text resolves to the side that its magnitude is on. -/
structure RightSide (text : Bytes) : Prop where
  inf : ∀ {negative}, TextOverflows text negative → resolvePlain text = .float (.inf negative)
  zero : ∀ {negative}, TextVanishes text negative → resolvePlain text = .float (.zero negative)
  /-- What overflows is no finite number, -/
  not_finite : ∀ {negative}, TextOverflows text negative →
    ∀ v, numberOf (resolvePlain text) = some v → v.isFinite = false
  /-- is not extracted, -/
  not_extracted : ∀ {negative}, TextOverflows text negative →
    ∀ tag, asInt64 (some (.scalar tag text)) = none
  /-- and does not pass for an Integer or a Number, wherever the field is declared. -/
  not_valid : ∀ {negative}, TextOverflows text negative →
    ∀ {stl : Stl} {schema : Schema stl} {doc : Node} {f : Field} {tag path : Bytes},
      Reaches (schema.site doc) ⟨.field f, .scalar tag text, path⟩ →
      f.spec.kind = .integer ∨ f.spec.kind = .number → validate schema doc ≠ []
  /-- What vanishes is no infinity. -/
  not_inf : ∀ {negative}, TextVanishes text negative → ∀ s, resolvePlain text ≠ .float (.inf s)

/-- If the text is out of range, it is spelled small exactly when its magnitude is less than
one. -/
def SpelledOnSide (text : Bytes) : Prop :=
  ∀ {negative m e q}, DecimalText text negative m e q → Overflows q ∨ Vanishes q →
    (SpelledSmall m e ↔ q < 1)

theorem SpelledOnSide.inf {text : Bytes} {negative : Bool} (hside : SpelledOnSide text)
    (h : TextOverflows text negative) : resolvePlain text = .float (.inf negative) := by
  obtain ⟨m, e, q, h, hover⟩ := h
  refine resolvePlain_of_not_spelledSmall h (Or.inl hover) ?_
  rw [hside h (Or.inl hover), not_lt]
  exact hover.one_le h.nonneg

theorem SpelledOnSide.zero {text : Bytes} {negative : Bool} (hside : SpelledOnSide text)
    (h : TextVanishes text negative) : resolvePlain text = .float (.zero negative) := by
  obtain ⟨m, e, q, h, hvan⟩ := h
  exact resolvePlain_of_spelledSmall h (Or.inr hvan) ((hside h (Or.inr hvan)).mpr hvan.lt_one)

/-- An out-of-range text resolves to the right side exactly when it is spelled on the side
its magnitude is on. -/
theorem rightSide_iff (text : Bytes) : RightSide text ↔ SpelledOnSide text := by
  constructor
  · intro hright negative m e q h hout
    rcases hout with hover | hvan
    · -- an infinity, so not spelled small
      have hone := hover.one_le h.nonneg
      refine iff_of_false ?_ (not_lt.mpr hone)
      intro hs
      have hinf := hright.inf ⟨m, e, q, h, hover⟩
      rw [resolvePlain_of_spelledSmall h (Or.inl hover) hs] at hinf
      exact absurd hinf (by simp)
    · -- a zero, so spelled small
      refine iff_of_true ?_ hvan.lt_one
      by_contra hs
      have hzero := hright.zero ⟨m, e, q, h, hvan⟩
      rw [resolvePlain_of_not_spelledSmall h (Or.inr hvan) hs] at hzero
      exact absurd hzero (by simp)
  · intro hside
    refine ⟨hside.inf, hside.zero, ?_, ?_, ?_, ?_⟩
    · intro negative h v hv
      rw [hside.inf h] at hv
      obtain rfl := Option.some.inj hv
      rfl
    · intro negative h tag
      exact integerOf_of_inf (hside.inf h)
    · intro negative h stl schema doc f tag path hreach hkind hvalid
      exact not_accepts_of_inf (hside.inf h) hkind (accepts_of_validate hvalid hreach)
    · intro negative h s hinf
      rw [hside.zero h] at hinf
      exact absurd hinf (by simp)

/-! ## Long mantissas -/

/-- `.00…01`, with `n` zeros. -/
def tinyText (n : ℕ) : Bytes :=
  lit "." ++ (List.replicate n (chr '0') ++ lit "1")

/-- `100…0e-1`, with `n` zeros. -/
def hugeText (n : ℕ) : Bytes :=
  lit "1" ++ List.replicate n (chr '0') ++ lit "e-1"

theorem value_zeros_one (n : ℕ) : value 10 (List.replicate n (chr '0') ++ lit "1") = 1 := by
  have h0 : (digitValue (chr '0')).getD 0 = 0 := rfl
  have h1 : (digitValue (chr '1')).getD 0 = 1 := rfl
  simp [value, show lit "1" = [chr '1'] from rfl, h0, h1, Nat.ofDigits_cons]

theorem value_one_zeros (n : ℕ) : value 10 (lit "1" ++ List.replicate n (chr '0')) = 10 ^ n := by
  have h0 : (digitValue (chr '0')).getD 0 = 0 := rfl
  have h1 : (digitValue (chr '1')).getD 0 = 1 := rfl
  simp [value, show lit "1" = [chr '1'] from rfl, h0, h1, Nat.ofDigits_append]

theorem isDigit_zeros {n : ℕ} : ∀ b ∈ List.replicate n (chr '0'), isDigit 10 b = true := by
  intro b hb
  rw [List.eq_of_mem_replicate hb]
  decide

theorem tinyText_decimal (n : ℕ) :
    DecimalText (tinyText n) false (tinyText n) [] (10 ^ (-(n + 1 : ℕ) : ℤ)) := by
  have hone : ∀ b ∈ lit "1", isDigit 10 b = true := forall_mem_of_all (by decide)
  have hm : Mantissa ([] ++ chr '.' :: (List.replicate n (chr '0') ++ lit "1")) []
      (List.replicate n (chr '0') ++ lit "1") := by
    refine .point (by simp) ?_ ?_
    · exact List.forall_mem_append.mpr ⟨isDigit_zeros, hone⟩
    · rintro ⟨-, h⟩
      exact absurd (List.append_eq_nil_iff.mp h).2 (by decide)
  have hq : Decimal.toRat ⟨[], List.replicate n (chr '0') ++ lit "1", 0⟩ =
      10 ^ (-(n + 1 : ℕ) : ℤ) := by
    have hl : (List.replicate n (chr '0') ++ lit "1").length = n + 1 := by
      rw [List.length_append, List.length_replicate]
      rfl
    rw [Decimal.toRat, List.nil_append, value_zeros_one, hl, Nat.cast_one, one_mul, zero_sub]
  have h := DecimalText.mk (mem_signs.mpr (Or.inl rfl)) hm .none
  rw [List.append_nil, hq] at h
  exact h

theorem hugeText_decimal (n : ℕ) :
    DecimalText (hugeText (n + 1)) false (lit "1" ++ List.replicate (n + 1) (chr '0'))
      (lit "e-1") (10 ^ (n : ℤ)) := by
  have hone : ∀ b ∈ lit "1", isDigit 10 b = true := forall_mem_of_all (by decide)
  have hm : Mantissa (lit "1" ++ List.replicate (n + 1) (chr '0'))
      (lit "1" ++ List.replicate (n + 1) (chr '0')) [] :=
    .whole ⟨by simp [show lit "1" = [chr '1'] from rfl],
      List.forall_mem_append.mpr ⟨hone, isDigit_zeros⟩⟩
  have he : Exponent (lit "e-1") (-(value 10 (lit "1") : ℤ)) :=
    .minus (Or.inl rfl) ⟨by decide, hone⟩
  have hq : Decimal.toRat ⟨lit "1" ++ List.replicate (n + 1) (chr '0'), [],
      -(value 10 (lit "1") : ℤ)⟩ = 10 ^ (n : ℤ) := by
    have h1 : value 10 (lit "1") = 1 := by decide +kernel
    rw [Decimal.toRat, List.append_nil, value_one_zeros, h1]
    push_cast
    rw [← zpow_natCast, ← zpow_add₀ (by norm_num)]
    congr 1
    simp
  have h := DecimalText.mk (mem_signs.mpr (Or.inl rfl)) hm he
  rw [hq] at h
  exact h

theorem vanishes_of_lt {n : ℕ} (h : 2 ^ 1075 < 10 ^ n) : Vanishes (10 ^ (-n : ℤ)) := by
  have hexp : binary64.emin - 1 = -(1075 : ℕ) := rfl
  have hq : (10 : ℚ) ^ (-n : ℤ) < 2 ^ (binary64.emin - 1) := by
    rw [hexp, zpow_neg, zpow_neg, zpow_natCast, zpow_natCast]
    exact inv_strictAnti₀ (by positivity) (by exact_mod_cast h)
  exact ⟨by positivity, false, Format.round_of_lt (by positivity) hq⟩

theorem overflows_of_le {n : ℕ} (h : 2 ^ 1024 ≤ 10 ^ n) : Overflows (10 ^ (n : ℤ)) := by
  have hexp : binary64.emax + binary64.prec = (1024 : ℕ) := rfl
  refine ⟨false, Format.round_of_le ?_⟩
  rw [hexp, zpow_natCast, zpow_natCast]
  exact_mod_cast h

/-- Enough zeros after the point make a text vanish. It resolves to an infinity. -/
theorem resolvePlain_tinyText {n : ℕ} (h : 2 ^ 1075 < 10 ^ (n + 1)) :
    TextVanishes (tinyText n) false ∧ resolvePlain (tinyText n) = .float (.inf false) := by
  have hvan := vanishes_of_lt h
  refine ⟨⟨_, _, _, tinyText_decimal n, hvan⟩,
    resolvePlain_of_not_spelledSmall (tinyText_decimal n) (Or.inr hvan) ?_⟩
  rintro (⟨_, _, h⟩ | ⟨-, fs, h⟩)
  · exact absurd h (by simp)
  · exact absurd (List.cons.inj h).1 (by decide)

/-- Enough zeros before `e-1` make a text overflow. It resolves to zero. -/
theorem resolvePlain_hugeText {n : ℕ} (h : 2 ^ 1024 ≤ 10 ^ n) :
    TextOverflows (hugeText (n + 1)) false ∧
      resolvePlain (hugeText (n + 1)) = .float (.zero false) := by
  have hover := overflows_of_le h
  exact ⟨⟨_, _, _, hugeText_decimal n, hover⟩,
    resolvePlain_of_spelledSmall (hugeText_decimal n) (Or.inl hover) (Or.inl ⟨_, _, rfl⟩)⟩

/-- Four hundred zeros are enough. -/
theorem not_rightSide_long : ¬RightSide (tinyText 400) ∧ ¬RightSide (hugeText 400) := by
  obtain ⟨hvan, htiny⟩ := resolvePlain_tinyText (n := 400) (by decide +kernel)
  obtain ⟨hover, hhuge⟩ := resolvePlain_hugeText (n := 399) (by decide +kernel)
  refine ⟨fun h => h.not_inf hvan false htiny, fun h => ?_⟩
  have hinf := h.inf hover
  rw [hhuge] at hinf
  exact absurd hinf (by simp)

end ProviderSdk.Config

import ProviderSdk.Lib.Floating

/-!
# Arithmetic of floating-point values

The operations of IEEE 754 on the values of a format : an exact result, rounded, and the
special cases of infinities, zeros and not-a-number.

Rounding does not cross a representable rational (`le_significand_mul`,
`significand_mul_le`), so a sum of values that are not negative is at least each of them
(`Nonneg.le_add`), and a fraction of a value is at most the value (`exists_mul_le`).
-/

namespace Floating

namespace Value

variable {F : Format}

/-- The sign bit. -/
def negative : Value F → Bool
  | nan => false
  | inf s => s
  | zero s => s
  | finite q _ => decide (q < 0)

/-- `a + b`. A sum of zeros is negative if both are. -/
def add (a b : Value F) : Value F :=
  match a, b with
  | nan, _ => nan
  | _, nan => nan
  | inf s, inf t => if s = t then inf s else nan
  | inf s, _ => inf s
  | _, inf t => inf t
  | zero s, zero t => zero (s && t)
  | zero _, finite y h => finite y h
  | finite x h, zero _ => finite x h
  | finite x _, finite y _ => F.round (x + y)

/-- `a - b`. -/
def sub (a b : Value F) : Value F :=
  a.add b.neg

/-- `a * b`. -/
def mul (a b : Value F) : Value F :=
  match a, b with
  | nan, _ => nan
  | _, nan => nan
  | inf _, zero _ => nan
  | zero _, inf _ => nan
  | inf s, b => inf (s ^^ b.negative)
  | a, inf t => inf (a.negative ^^ t)
  | zero s, b => zero (s ^^ b.negative)
  | a, zero t => zero (a.negative ^^ t)
  | finite x _, finite y _ => F.round (x * y)

/-- `a / b`. -/
def div (a b : Value F) : Value F :=
  match a, b with
  | nan, _ => nan
  | _, nan => nan
  | inf _, inf _ => nan
  | zero _, zero _ => nan
  | inf s, b => inf (s ^^ b.negative)
  | a, inf t => zero (a.negative ^^ t)
  | zero s, b => zero (s ^^ b.negative)
  | a, zero t => inf (a.negative ^^ t)
  | finite x _, finite y _ => F.round (x / y)

end Value

/-! ## Rounding and the representable rationals -/

namespace Format

variable {F : Format} {a q : ℚ}

/-- A representable rational is a multiple of the last bit of `q`, or too small to matter. -/
theorem Representable.multiple (ha : F.Representable a) (h0 : 0 ≤ a) (q : ℚ) :
    (∃ m : ℤ, a = m * 2 ^ F.lastBit q) ∨
      F.lastBit q ≠ F.emin ∧ a < 2 ^ (F.lastBit q + (F.prec - 1 : ℕ)) := by
  obtain ⟨m, e, hm, hmin, -, rfl⟩ := ha
  rcases Int.lt_or_le e (F.lastBit q) with he | he
  · refine .inr ⟨by omega, ?_⟩
    have hp := F.prec_pos
    have hm' : (m : ℚ) < 2 ^ (F.prec : ℤ) := by
      rw [zpow_natCast]
      exact_mod_cast lt_of_le_of_lt (le_abs_self m) hm
    calc (m : ℚ) * 2 ^ e < 2 ^ (F.prec : ℤ) * 2 ^ e :=
          mul_lt_mul_of_pos_right hm' (by positivity)
      _ = 2 ^ (F.prec + e) := by rw [← zpow_add₀ (by norm_num)]
      _ ≤ 2 ^ (F.lastBit q + (F.prec - 1 : ℕ)) :=
          zpow_le_zpow_right₀ (by norm_num) (by omega)
  · obtain ⟨k, hk⟩ := Int.le.dest he
    refine .inl ⟨m * 2 ^ k, ?_⟩
    rw [← hk, zpow_add₀ (by norm_num), zpow_natCast]
    push_cast
    ring

/-- An integer of at most as many bits as the significand is representable. -/
theorem representable_int {n : ℤ} (h : |n| < 2 ^ F.prec) (hmin : F.emin ≤ 0) (hmax : 0 ≤ F.emax) :
    F.Representable n :=
  ⟨n, 0, h, hmin, hmax, by simp⟩

/-- Rounding does not go below a representable rational. -/
theorem le_significand_mul (ha : F.Representable a) (h0 : 0 ≤ a) (hq : 0 < q) (h : a ≤ q) :
    a ≤ F.significand q * 2 ^ F.lastBit q := by
  rcases ha.multiple h0 q with ⟨m, rfl⟩ | ⟨hmin, hlt⟩
  · refine mul_le_mul_of_nonneg_right ?_ (by positivity)
    have hm : (m : ℚ) ≤ q / 2 ^ F.lastBit q := by rwa [le_div_iff₀ (by positivity)]
    exact_mod_cast le_roundHalfEven hm
  · refine hlt.le.trans ?_
    rw [add_comm, zpow_add₀ (by norm_num), zpow_natCast]
    exact mul_le_mul_of_nonneg_right (by exact_mod_cast F.le_significand hq hmin) (by positivity)

/-- Rounding does not go above a representable rational. -/
theorem significand_mul_le (ha : F.Representable a) (hq : 0 < q) (h : q ≤ a) :
    F.significand q * 2 ^ F.lastBit q ≤ a := by
  rcases ha.multiple (hq.le.trans h) q with ⟨m, rfl⟩ | ⟨hmin, hlt⟩
  · refine mul_le_mul_of_nonneg_right ?_ (by positivity)
    have hm : q / 2 ^ F.lastBit q ≤ m := by rwa [div_le_iff₀ (by positivity)]
    exact_mod_cast roundHalfEven_le hm
  · have hlast : F.lastBit q = Int.log 2 q - (F.prec - 1) := by
      rcases max_choice F.emin (Int.log 2 q - (F.prec - 1)) with hmax | hmax
      · exact absurd hmax hmin
      · exact hmax
    have hp := F.prec_pos
    have hexp : F.lastBit q + (F.prec - 1 : ℕ) = Int.log 2 q := by omega
    have hlog : (2 : ℚ) ^ Int.log 2 q ≤ q := by
      exact_mod_cast Int.zpow_log_le_self (b := 2) (by norm_num) hq
    rw [hexp] at hlt
    linarith

/-- What is at most a finite value rounds to at most it. -/
theorem exists_round_le (ha : F.Representable a) (hq : 0 ≤ q) (h : q ≤ a) :
    ∃ z, (F.round q).toRat = some z ∧ 0 ≤ z ∧ z ≤ a := by
  rcases hq.eq_or_lt with rfl | hq
  · exact ⟨0, by simp [round, Value.toRat], le_refl 0, h⟩
  · have hle := significand_mul_le ha hq h
    have hfit := hle.trans_lt (lt_of_representable ha)
    have hnonneg : (0 : ℚ) ≤ F.significand q := by exact_mod_cast F.significand_nonneg hq
    rw [round, dif_pos hq, roundPos, dif_pos hfit]
    split_ifs with hz
    · exact ⟨0, rfl, le_refl 0, hq.le.trans h⟩
    · exact ⟨_, rfl, by positivity, hle⟩

/-- What is at least a finite value rounds to at least it, or overflows. -/
theorem round_ge (ha : F.Representable a) (h0 : 0 ≤ a) (h : a ≤ q) :
    F.round q = .inf false ∨ ∃ z, (F.round q).toRat = some z ∧ a ≤ z := by
  rcases (h0.trans h).eq_or_lt with rfl | hq
  · exact .inr ⟨0, by simp [round, Value.toRat], h⟩
  · have hle := le_significand_mul ha h0 hq h
    rw [round, dif_pos hq, roundPos]
    split_ifs with hfit hz
    · refine .inr ⟨0, rfl, ?_⟩
      simpa [hz] using hle
    · exact .inr ⟨_, rfl, hle⟩
    · exact .inl rfl

end Format

/-! ## Values that are not negative -/

namespace Value

variable {F : Format} {a b c : Value F}

/-- Zero or more, and a number. -/
def Nonneg (v : Value F) : Prop :=
  v = .inf false ∨ ∃ q, v.toRat = some q ∧ 0 ≤ q

theorem nonneg_of_toRat {q : ℚ} (h : a.toRat = some q) (hq : 0 ≤ q) : a.Nonneg :=
  .inr ⟨q, h, hq⟩

theorem nonneg_round {q : ℚ} (h : 0 ≤ q) : (F.round q).Nonneg := by
  have hzero : F.Representable 0 := ⟨0, F.emin, by simp, le_refl _, F.emin_le_emax, by simp⟩
  exact Format.round_ge hzero (le_refl 0) h

theorem le_refl_of_nonneg (h : a.Nonneg) : a.le a = true := by
  rcases h with rfl | ⟨q, hq, -⟩
  · simp [le, num]
  · rw [le_iff hq hq]

theorem le_trans (hab : a.le b = true) (hbc : b.le c = true) : a.le c = true := by
  unfold le at *
  cases ha : a.num <;> cases hb : b.num <;> cases hc : c.num <;> simp_all
  exact hab.trans hbc

theorem le_inf (h : a.Nonneg) : a.le (.inf false) = true := by
  rcases h with rfl | ⟨q, hq, -⟩
  · simp [le, num]
  · rw [le, num_of_toRat hq]
    exact decide_eq_true (WithBot.coe_le_coe.mpr le_top)

/-- The sum of finite values is the sum of their rationals, rounded. -/
theorem add_of_toRat {x y : ℚ} (ha : a.toRat = some x) (hb : b.toRat = some y) :
    a.add b = F.round (x + y) ∨ (a.add b).toRat = some (x + y) := by
  cases a with
  | nan => cases ha
  | inf s => cases ha
  | zero s =>
    obtain rfl : 0 = x := by simpa [toRat] using ha
    cases b with
    | nan => cases hb
    | inf t => cases hb
    | zero t =>
      obtain rfl : 0 = y := by simpa [toRat] using hb
      exact .inr (by simp [add, toRat])
    | finite y' hy =>
      obtain rfl : y' = y := by simpa [toRat] using hb
      exact .inr (by simp [add, toRat])
  | finite x' hx =>
    obtain rfl : x' = x := by simpa [toRat] using ha
    cases b with
    | nan => cases hb
    | inf t => cases hb
    | zero t =>
      obtain rfl : 0 = y := by simpa [toRat] using hb
      exact .inr (by simp [add, toRat])
    | finite y' hy =>
      obtain rfl : y' = y := by simpa [toRat] using hb
      exact .inl rfl

/-- Adding what is not negative does not make a value less. -/
theorem Nonneg.le_add (ha : a.Nonneg) (hb : b.Nonneg) :
    (a.add b).Nonneg ∧ a.le (a.add b) = true := by
  have hinf : a.add b = .inf false → (a.add b).Nonneg ∧ a.le (a.add b) = true := fun h =>
    ⟨.inl h, h ▸ le_inf ha⟩
  rcases ha with rfl | ⟨x, hx, hx0⟩
  · refine hinf ?_
    rcases hb with rfl | ⟨y, hy, -⟩
    · rfl
    · cases b <;> simp_all [add, toRat]
  · rcases hb with rfl | ⟨y, hy, hy0⟩
    · refine hinf ?_
      cases a <;> simp_all [add, toRat]
    · have hle : x ≤ x + y := by linarith
      rcases add_of_toRat hx hy with h | h
      · rcases Format.round_ge (Format.representable_of_toRat hx) hx0 hle with hr | ⟨z, hz, hxz⟩
        · exact hinf (h.trans hr)
        · rw [h]
          exact ⟨.inr ⟨z, hz, hx0.trans hxz⟩, (le_iff hx hz).mpr hxz⟩
      · exact ⟨.inr ⟨_, h, hx0.trans hle⟩, (le_iff hx h).mpr hle⟩

/-- The product of finite values is the product of their rationals, rounded. -/
theorem mul_of_toRat {x y : ℚ} (ha : a.toRat = some x) (hb : b.toRat = some y) :
    a.mul b = F.round (x * y) ∨ (a.mul b).toRat = some 0 ∧ x * y = 0 := by
  cases a with
  | nan => cases ha
  | inf s => cases ha
  | zero s =>
    obtain rfl : 0 = x := by simpa [toRat] using ha
    cases b with
    | nan => cases hb
    | inf t => cases hb
    | zero t => exact .inr (by simp [mul, toRat])
    | finite y' hy => exact .inr (by simp [mul, toRat])
  | finite x' hx =>
    obtain rfl : x' = x := by simpa [toRat] using ha
    cases b with
    | nan => cases hb
    | inf t => cases hb
    | zero t =>
      obtain rfl : 0 = y := by simpa [toRat] using hb
      exact .inr (by simp [mul, toRat])
    | finite y' hy =>
      obtain rfl : y' = y := by simpa [toRat] using hb
      exact .inl rfl

theorem nonneg_mul {x y : ℚ} (ha : a.toRat = some x) (hb : b.toRat = some y) (hx : 0 ≤ x)
    (hy : 0 ≤ y) : (a.mul b).Nonneg := by
  rcases mul_of_toRat ha hb with h | ⟨h, -⟩
  · exact h ▸ nonneg_round (mul_nonneg hx hy)
  · exact nonneg_of_toRat h (le_refl 0)

/-- A fraction of a value is at most the value. -/
theorem exists_mul_le {x y : ℚ} (ha : a.toRat = some x) (hb : b.toRat = some y) (hx : 0 ≤ x)
    (hx1 : x ≤ 1) (hy : 0 ≤ y) : ∃ z, (a.mul b).toRat = some z ∧ 0 ≤ z ∧ z ≤ y := by
  rcases mul_of_toRat ha hb with h | ⟨h, -⟩
  · rw [h]
    exact Format.exists_round_le (Format.representable_of_toRat hb) (mul_nonneg hx hy)
      (mul_le_of_le_one_left hy hx1)
  · exact ⟨0, h, le_refl 0, hy⟩

/-- A quotient by one or more is at most the dividend. -/
theorem exists_div_le {x y : ℚ} (ha : a.toRat = some x) (hb : b.toRat = some y) (hx : 0 ≤ x)
    (hy : 1 ≤ y) : ∃ z, (a.div b).toRat = some z ∧ 0 ≤ z ∧ z ≤ x := by
  cases b with
  | nan => cases hb
  | inf t => cases hb
  | zero t =>
    obtain rfl : 0 = y := by simpa [toRat] using hb
    linarith
  | finite y' hy' =>
    obtain rfl : y' = y := by simpa [toRat] using hb
    cases a with
    | nan => cases ha
    | inf s => cases ha
    | zero s =>
      obtain rfl : 0 = x := by simpa [toRat] using ha
      exact ⟨0, rfl, le_refl 0, le_refl 0⟩
    | finite x' hx' =>
      obtain rfl : x' = x := by simpa [toRat] using ha
      exact Format.exists_round_le hx'.2 (by positivity) (div_le_self hx hy)

end Value

end Floating

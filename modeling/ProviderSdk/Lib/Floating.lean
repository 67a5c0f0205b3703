import Mathlib.Algebra.Order.Field.Power
import Mathlib.Data.Int.Log
import Mathlib.Data.Rat.Floor
import Mathlib.Order.WithBot
import Mathlib.Tactic.Linarith
import Mathlib.Tactic.Positivity
import Mathlib.Tactic.FieldSimp

/-!
# Binary floating-point values

A `Format` has `prec` bits of significand and last-bit exponents from `emin` to `emax`.
Its values are not-a-number, two infinities, two zeros and the nonzero rationals
`m * 2 ^ e` the format represents (`Value`), so a value that is not representable cannot
be built. Values compare as the extended rationals they stand for (`Value.num`).

`Format.round` is rounding to nearest, ties to even, with overflow to infinity. It is
exact on what the format represents (`round_of_representable`), so reading a value's
rational back gives the value (`round_toRat`).
-/

namespace Floating

/-- A binary format. -/
structure Format where
  /-- Bits of the significand. -/
  prec : ℕ
  /-- Least exponent of the last bit. -/
  emin : ℤ
  /-- Greatest exponent of the last bit. -/
  emax : ℤ
  prec_pos : 0 < prec
  emin_le_emax : emin ≤ emax

/-- IEEE 754 binary64. -/
def binary64 : Format :=
  ⟨53, -1074, 971, by decide, by decide⟩

namespace Format

variable (F : Format)

/-- The finite values of the format. -/
def Representable (q : ℚ) : Prop :=
  ∃ m e : ℤ, |m| < 2 ^ F.prec ∧ F.emin ≤ e ∧ e ≤ F.emax ∧ q = m * 2 ^ e

variable {F}

theorem Representable.neg {q : ℚ} (h : F.Representable q) : F.Representable (-q) := by
  obtain ⟨m, e, hm, h1, h2, rfl⟩ := h
  exact ⟨-m, e, by simpa using hm, h1, h2, by push_cast; ring⟩

end Format

/-- A value of the format. -/
inductive Value (F : Format) where
  | nan
  | inf (negative : Bool)
  | zero (negative : Bool)
  | finite (q : ℚ) (h : q ≠ 0 ∧ F.Representable q)
  deriving DecidableEq

namespace Value

variable {F : Format}

/-- The rational of a finite value. -/
def toRat : Value F → Option ℚ
  | nan => none
  | inf _ => none
  | zero _ => some 0
  | finite q _ => some q

/-- The extended rational a value stands for. Not-a-number stands for none. -/
def num : Value F → Option (WithBot (WithTop ℚ))
  | nan => none
  | inf true => some ⊥
  | inf false => some ((⊤ : WithTop ℚ) : WithBot (WithTop ℚ))
  | zero _ => some (((0 : ℚ) : WithTop ℚ) : WithBot (WithTop ℚ))
  | finite q _ => some ((q : WithTop ℚ) : WithBot (WithTop ℚ))

/-- Neither not-a-number nor an infinity. -/
def isFinite (v : Value F) : Bool :=
  v.toRat.isSome

/-- `a < b`. False if either is not-a-number. -/
def lt (a b : Value F) : Bool :=
  match a.num, b.num with
  | some x, some y => decide (x < y)
  | _, _ => false

/-- `a <= b`. False if either is not-a-number. -/
def le (a b : Value F) : Bool :=
  match a.num, b.num with
  | some x, some y => decide (x ≤ y)
  | _, _ => false

/-- `a == b`. The two zeros are equal, and not-a-number equals nothing. -/
def eq (a b : Value F) : Bool :=
  match a.num, b.num with
  | some x, some y => decide (x = y)
  | _, _ => false

/-- `-a`. -/
def neg : Value F → Value F
  | nan => nan
  | inf s => inf (!s)
  | zero s => zero (!s)
  | finite q h => finite (-q) ⟨neg_ne_zero.mpr h.1, h.2.neg⟩

/-- The integer a finite value is, if it is one (`v == floor(v)`). -/
def toInt (v : Value F) : Option ℤ :=
  v.toRat.bind fun q => if q.den = 1 then some q.num else none

theorem num_of_toRat {v : Value F} {q : ℚ} (h : v.toRat = some q) :
    v.num = some ((q : WithTop ℚ) : WithBot (WithTop ℚ)) := by
  cases v <;> simp_all [toRat, num]

/-- Finite values compare as their rationals. -/
theorem lt_iff {a b : Value F} {x y : ℚ} (ha : a.toRat = some x) (hb : b.toRat = some y) :
    a.lt b = true ↔ x < y := by
  simp [lt, num_of_toRat ha, num_of_toRat hb]

theorem le_iff {a b : Value F} {x y : ℚ} (ha : a.toRat = some x) (hb : b.toRat = some y) :
    a.le b = true ↔ x ≤ y := by
  simp [le, num_of_toRat ha, num_of_toRat hb]

theorem eq_iff {a b : Value F} {x y : ℚ} (ha : a.toRat = some x) (hb : b.toRat = some y) :
    a.eq b = true ↔ x = y := by
  simp [eq, num_of_toRat ha, num_of_toRat hb]

theorem isFinite_of_toRat {v : Value F} {q : ℚ} (h : v.toRat = some q) : v.isFinite = true := by
  simp [isFinite, h]

theorem exists_toRat {v : Value F} (h : v.isFinite = true) : ∃ q, v.toRat = some q :=
  Option.isSome_iff_exists.mp h

/-- Finite values are totally ordered. -/
theorem lt_eq_false {a b : Value F} (ha : a.isFinite = true) (hb : b.isFinite = true) :
    a.lt b = false ↔ b.le a = true := by
  obtain ⟨x, hx⟩ := exists_toRat ha
  obtain ⟨y, hy⟩ := exists_toRat hb
  rw [← Bool.not_eq_true, lt_iff hx hy, le_iff hy hx, not_lt]

theorem le_eq_false {a b : Value F} (ha : a.isFinite = true) (hb : b.isFinite = true) :
    a.le b = false ↔ b.lt a = true := by
  obtain ⟨x, hx⟩ := exists_toRat ha
  obtain ⟨y, hy⟩ := exists_toRat hb
  rw [← Bool.not_eq_true, le_iff hx hy, lt_iff hy hx, not_le]

/-- `-0.0` and `0.0` aside, a finite value is its rational. -/
theorem ext_toRat {a b : Value F} {q : ℚ} (ha : a.toRat = some q) (hb : b.toRat = some q)
    (hq : q ≠ 0) : a = b := by
  cases a <;> cases b <;> simp_all [toRat]

theorem toInt_eq_some {v : Value F} {n : ℤ} : v.toInt = some n ↔ v.toRat = some (n : ℚ) := by
  unfold toInt
  constructor
  · intro h
    obtain ⟨q, hq, h⟩ := Option.bind_eq_some_iff.mp h
    split_ifs at h with hd
    rw [hq, ← Option.some.inj h]
    exact congrArg some (Rat.den_eq_one_iff q |>.mp hd).symm
  · intro h
    simp [h]

end Value

namespace Format

variable (F : Format)

/-- The integer nearest a rational, the even one at a tie. -/
def roundHalfEven (q : ℚ) : ℤ :=
  if q - ⌊q⌋ < 1 / 2 then ⌊q⌋
  else if 1 / 2 < q - ⌊q⌋ then ⌊q⌋ + 1
  else ⌊q⌋ + ⌊q⌋ % 2

theorem roundHalfEven_intCast (n : ℤ) : roundHalfEven n = n := by
  simp [roundHalfEven]

theorem le_roundHalfEven {n : ℤ} {q : ℚ} (h : n ≤ q) : n ≤ roundHalfEven q := by
  have hf := Int.le_floor.mpr h
  unfold roundHalfEven
  split_ifs <;> omega

theorem roundHalfEven_le {n : ℤ} {q : ℚ} (h : q ≤ n) : roundHalfEven q ≤ n := by
  have hf : ⌊q⌋ ≤ n := by exact_mod_cast (Int.floor_le q).trans h
  rcases hf.eq_or_lt with heq | hlt
  · have hq : q = n := le_antisymm h (by rw [← heq]; exact Int.floor_le q)
    rw [hq, roundHalfEven_intCast]
  · unfold roundHalfEven
    split_ifs <;> omega

/-- Exponent of the last bit that `round` keeps of a positive rational. -/
def lastBit (q : ℚ) : ℤ :=
  max F.emin (Int.log 2 q - (F.prec - 1))

/-- The multiple of the last bit nearest a positive rational. -/
def significand (q : ℚ) : ℤ :=
  roundHalfEven (q / 2 ^ F.lastBit q)

theorem lt_two_pow_lastBit (q : ℚ) : q < 2 ^ (F.lastBit q + F.prec) := by
  have hlog := Int.lt_zpow_succ_log_self (b := 2) (by norm_num) q
  refine hlog.trans_le (zpow_le_zpow_right₀ (by norm_num) ?_)
  have := le_max_right F.emin (Int.log 2 q - (F.prec - 1))
  unfold lastBit
  omega

theorem significand_nonneg {q : ℚ} (hq : 0 < q) : 0 ≤ F.significand q := by
  refine le_roundHalfEven ?_
  have := hq.le
  positivity

theorem significand_le (q : ℚ) : F.significand q ≤ 2 ^ F.prec := by
  refine roundHalfEven_le ?_
  have h := F.lt_two_pow_lastBit q
  rw [zpow_add₀ (by norm_num), mul_comm] at h
  push_cast
  rw [div_le_iff₀ (by positivity)]
  exact_mod_cast h.le

/-- Above the subnormals the significand has all its bits. -/
theorem le_significand {q : ℚ} (hq : 0 < q) (he : F.lastBit q ≠ F.emin) :
    2 ^ (F.prec - 1) ≤ F.significand q := by
  have hlast : F.lastBit q = Int.log 2 q - (F.prec - 1) := by
    rcases max_choice F.emin (Int.log 2 q - (F.prec - 1)) with h | h
    · exact absurd h he
    · exact h
  refine le_roundHalfEven ?_
  rw [le_div_iff₀ (by positivity)]
  push_cast
  rw [← zpow_natCast, ← zpow_add₀ (by norm_num)]
  have hp := F.prec_pos
  have hexp : ((F.prec - 1 : ℕ) : ℤ) + F.lastBit q = Int.log 2 q := by omega
  rw [hexp]
  exact_mod_cast Int.zpow_log_le_self (b := 2) (by norm_num) hq

/-- What `round` gives a positive rational is representable, or overflows. -/
theorem representable_significand {q : ℚ} (hq : 0 < q)
    (hfit : (F.significand q : ℚ) * 2 ^ F.lastBit q < 2 ^ (F.emax + F.prec)) :
    F.Representable (F.significand q * 2 ^ F.lastBit q) := by
  have hp := F.prec_pos
  have hmin : F.emin ≤ F.lastBit q := le_max_left _ _
  have h0 := F.significand_nonneg hq
  have hlt : ∀ n : ℕ, (2 : ℤ) ^ n ≤ F.significand q → n + F.lastBit q < F.emax + F.prec := by
    intro n hn
    have h1 : (2 : ℚ) ^ (n : ℤ) ≤ F.significand q := by
      rw [zpow_natCast]
      exact_mod_cast hn
    have h2 : (2 : ℚ) ^ ((n : ℤ) + F.lastBit q) < 2 ^ (F.emax + F.prec) := by
      rw [zpow_add₀ (by norm_num)]
      exact lt_of_le_of_lt (mul_le_mul_of_nonneg_right h1 (by positivity)) hfit
    exact (zpow_lt_zpow_iff_right₀ (by norm_num)).mp h2
  rcases (F.significand_le q).eq_or_lt with hm | hm
  · -- the significand carried into one more bit
    have hc := hlt F.prec hm.ge
    refine ⟨2 ^ (F.prec - 1), F.lastBit q + 1, ?_, by omega, by omega, ?_⟩
    · rw [abs_of_nonneg (by positivity)]
      exact pow_lt_pow_right₀ (by norm_num) (by omega)
    · obtain ⟨k, hk⟩ : ∃ k, F.prec = k + 1 := ⟨F.prec - 1, by omega⟩
      rw [hm, zpow_add_one₀ (by norm_num), hk]
      push_cast
      rw [pow_succ]
      ring
  · refine ⟨F.significand q, F.lastBit q, by rwa [abs_of_nonneg h0], hmin, ?_, rfl⟩
    by_cases he : F.lastBit q = F.emin
    · rw [he]
      exact F.emin_le_emax
    · have hc := hlt (F.prec - 1) (F.le_significand hq he)
      omega

/-- Rounding of a positive rational. -/
def roundPos (q : ℚ) (hq : 0 < q) : Value F :=
  if hfit : (F.significand q : ℚ) * 2 ^ F.lastBit q < 2 ^ (F.emax + F.prec) then
    if hz : F.significand q = 0 then .zero false
    else
      .finite (F.significand q * 2 ^ F.lastBit q)
        ⟨mul_ne_zero (by exact_mod_cast hz) (by positivity), F.representable_significand hq hfit⟩
  else .inf false

/-- Rounding to nearest, ties to even. A zero result has the sign of the rational. -/
def round (q : ℚ) : Value F :=
  if hq : 0 < q then F.roundPos q hq
  else if hn : q < 0 then (F.roundPos (-q) (neg_pos.mpr hn)).neg
  else .zero false

variable {F}

theorem log_nonneg {q : ℚ} (hone : 1 ≤ q) : 0 ≤ Int.log 2 q := by
  have h := Int.log_mono_right (b := 2) one_pos hone
  simpa using h

theorem lastBit_le_log {q : ℚ} (hone : 1 ≤ q) (hmin : F.emin ≤ 0) :
    F.lastBit q ≤ Int.log 2 q := by
  have hlog := log_nonneg hone
  have hp := F.prec_pos
  exact max_le (hmin.trans hlog) (by omega)

/-- What is one or more does not vanish. -/
theorem one_le_significand {q : ℚ} (hone : 1 ≤ q) (hmin : F.emin ≤ 0) :
    1 ≤ F.significand q := by
  refine le_roundHalfEven ?_
  rw [Int.cast_one, one_le_div (by positivity)]
  calc (2 : ℚ) ^ F.lastBit q ≤ 2 ^ Int.log 2 q :=
        zpow_le_zpow_right₀ (by norm_num) (lastBit_le_log hone hmin)
    _ ≤ q := Int.zpow_log_le_self (b := 2) (by norm_num) (by linarith)

/-- Between the least exponent and the greatest, rounding neither overflows nor vanishes. -/
theorem exists_roundPos {q : ℚ} (hq : 0 < q) {n : ℕ} (hone : 1 ≤ q) (hle : q ≤ 2 ^ n)
    (hmin : F.emin ≤ 0) (hmax : n < F.emax + F.prec) :
    ∃ r, (F.roundPos q hq).toRat = some r ∧ r ≠ 0 := by
  have hbitn : F.lastBit q ≤ n := by
    refine (lastBit_le_log hone hmin).trans ?_
    have h : (2 : ℚ) ^ Int.log 2 q ≤ 2 ^ (n : ℤ) := by
      rw [zpow_natCast]
      exact (Int.zpow_log_le_self (b := 2) (by norm_num) hq).trans hle
    exact (zpow_le_zpow_iff_right₀ (a := (2 : ℚ)) (by norm_num)).mp h
  have hfit : (F.significand q : ℚ) * 2 ^ F.lastBit q < 2 ^ (F.emax + F.prec) := by
    obtain ⟨k, hk⟩ := Int.le.dest hbitn
    have hle' : F.significand q ≤ 2 ^ k := by
      refine roundHalfEven_le ?_
      rw [div_le_iff₀ (by positivity)]
      push_cast
      rw [← zpow_natCast, ← zpow_add₀ (by norm_num), add_comm, hk, zpow_natCast]
      exact hle
    calc (F.significand q : ℚ) * 2 ^ F.lastBit q
        ≤ 2 ^ (k : ℤ) * 2 ^ F.lastBit q := by
          refine mul_le_mul_of_nonneg_right ?_ (by positivity)
          rw [zpow_natCast]
          exact_mod_cast hle'
      _ = 2 ^ (n : ℤ) := by rw [← zpow_add₀ (by norm_num), add_comm, hk]
      _ < 2 ^ (F.emax + F.prec) := zpow_lt_zpow_right₀ (by norm_num) hmax
  have hz : F.significand q ≠ 0 := by
    have := one_le_significand hone hmin
    omega
  refine ⟨_, by rw [roundPos, dif_pos hfit, dif_neg hz]; rfl, ?_⟩
  exact mul_ne_zero (by exact_mod_cast hz) (by positivity)

/-- What is less than one does not overflow. -/
theorem significand_lt_of_lt_one {q : ℚ} (hq : 0 < q) (hlt : q < 1) (hmin : F.emin ≤ 0)
    (hmax : 0 < F.emax) : (F.significand q : ℚ) * 2 ^ F.lastBit q < 2 ^ (F.emax + F.prec) := by
  have hlog : Int.log 2 q ≤ 0 := by
    have h := Int.log_mono_right (b := 2) hq hlt.le
    simpa using h
  have hbit : F.lastBit q ≤ 0 := by
    have hp := F.prec_pos
    exact max_le hmin (by omega)
  have hsig : (F.significand q : ℚ) ≤ 2 ^ (F.prec : ℤ) := by
    rw [zpow_natCast]
    exact_mod_cast F.significand_le q
  calc (F.significand q : ℚ) * 2 ^ F.lastBit q
      ≤ 2 ^ (F.prec : ℤ) * 1 := by
        refine mul_le_mul hsig (zpow_le_one_of_nonpos₀ (by norm_num) hbit) ?_ ?_ <;> positivity
    _ < 2 ^ (F.emax + F.prec) := by
        rw [mul_one]
        exact zpow_lt_zpow_right₀ (by norm_num) (by omega)

/-- Only a magnitude of one or more overflows. -/
theorem one_le_of_round_inf {q : ℚ} {s : Bool} (h0 : 0 ≤ q) (h : F.round q = .inf s)
    (hmin : F.emin ≤ 0) (hmax : 0 < F.emax) : 1 ≤ q := by
  by_contra hlt
  rcases h0.eq_or_lt with rfl | hq
  · simp [round] at h
  · rw [round, dif_pos hq, roundPos,
      dif_pos (significand_lt_of_lt_one hq (not_le.mp hlt) hmin hmax)] at h
    split_ifs at h

/-- Only a magnitude of less than one vanishes. -/
theorem lt_one_of_round_zero {q : ℚ} {s : Bool} (h : F.round q = .zero s)
    (hmin : F.emin ≤ 0) : q < 1 := by
  by_contra hle
  have hone := not_lt.mp hle
  have hz : F.significand q ≠ 0 := by
    have := one_le_significand hone hmin
    omega
  rw [round, dif_pos (by linarith), roundPos] at h
  split_ifs at h

theorem roundHalfEven_eq_zero {q : ℚ} (h0 : 0 ≤ q) (h : q < 1 / 2) : roundHalfEven q = 0 := by
  have hf : ⌊q⌋ = 0 := Int.floor_eq_zero_iff.mpr ⟨h0, by linarith⟩
  rw [roundHalfEven, hf, Int.cast_zero, sub_zero, if_pos h]

/-- What is below half of the least value vanishes. -/
theorem round_of_lt {q : ℚ} (hq : 0 < q) (hlt : q < 2 ^ (F.emin - 1)) :
    F.round q = .zero false := by
  have hsig : F.significand q = 0 := by
    refine roundHalfEven_eq_zero (by positivity) ?_
    rw [div_lt_iff₀ (by positivity)]
    have hbit : (2 : ℚ) ^ F.emin ≤ 2 ^ F.lastBit q :=
      zpow_le_zpow_right₀ (by norm_num) (le_max_left _ _)
    calc q < 2 ^ (F.emin - 1) := hlt
      _ = 1 / 2 * 2 ^ F.emin := by rw [zpow_sub_one₀ (by norm_num)]; ring
      _ ≤ 1 / 2 * 2 ^ F.lastBit q := mul_le_mul_of_nonneg_left hbit (by norm_num)
  have hfit : (F.significand q : ℚ) * 2 ^ F.lastBit q < 2 ^ (F.emax + F.prec) := by
    rw [hsig, Int.cast_zero, zero_mul]
    positivity
  rw [round, dif_pos hq, roundPos, dif_pos hfit, dif_pos hsig]

/-- What is above the greatest exponent overflows. -/
theorem round_of_le {q : ℚ} (hle : 2 ^ (F.emax + F.prec) ≤ q) : F.round q = .inf false := by
  have hq : 0 < q := lt_of_lt_of_le (by positivity) hle
  have hlog : F.emax + F.prec ≤ Int.log 2 q :=
    (Int.zpow_le_iff_le_log (by norm_num) hq).mp (by exact_mod_cast hle)
  have hlast : F.lastBit q = Int.log 2 q - (F.prec - 1) := by
    have := F.emin_le_emax
    exact max_eq_right (by omega)
  have hne : F.lastBit q ≠ F.emin := by
    have := F.emin_le_emax
    omega
  have hfit : ¬(F.significand q : ℚ) * 2 ^ F.lastBit q < 2 ^ (F.emax + F.prec) := by
    rw [not_lt]
    have hsig : (2 : ℚ) ^ ((F.prec - 1 : ℕ) : ℤ) ≤ F.significand q := by
      rw [zpow_natCast]
      exact_mod_cast F.le_significand hq hne
    have hp := F.prec_pos
    calc (2 : ℚ) ^ (F.emax + F.prec) ≤ 2 ^ (((F.prec - 1 : ℕ) : ℤ) + F.lastBit q) :=
          zpow_le_zpow_right₀ (by norm_num) (by omega)
      _ = 2 ^ ((F.prec - 1 : ℕ) : ℤ) * 2 ^ F.lastBit q := zpow_add₀ (by norm_num) _ _
      _ ≤ F.significand q * 2 ^ F.lastBit q :=
          mul_le_mul_of_nonneg_right hsig (by positivity)
  rw [round, dif_pos hq, roundPos, dif_neg hfit]

/-- Rounding gives a number. -/
theorem round_ne_nan (q : ℚ) : F.round q ≠ .nan := by
  have hpos : ∀ (r : ℚ) (hr : 0 < r), F.roundPos r hr ≠ .nan := by
    intro r hr
    unfold roundPos
    split_ifs <;> simp
  unfold round
  split_ifs with hq hn
  · exact hpos q hq
  · have h := hpos (-q) (neg_pos.mpr hn)
    intro hnan
    generalize F.roundPos (-q) (neg_pos.mpr hn) = v at h hnan
    cases v <;> simp_all [Value.neg]
  · simp

theorem significand_of_representable {q : ℚ} (hq : 0 < q) (h : F.Representable q) :
    (F.significand q : ℚ) * 2 ^ F.lastBit q = q := by
  obtain ⟨m, e, hm, hmin, -, rfl⟩ := h
  have hm0 : 0 < m := by
    by_contra hneg
    have : (m : ℚ) ≤ 0 := by exact_mod_cast not_lt.mp hneg
    have : (m : ℚ) * 2 ^ e ≤ 0 := mul_nonpos_of_nonpos_of_nonneg this (by positivity)
    linarith
  rw [abs_of_pos hm0] at hm
  have hlog : Int.log 2 ((m : ℚ) * 2 ^ e) < F.prec + e := by
    have hlt : (m : ℚ) * 2 ^ e < 2 ^ ((F.prec : ℤ) + e) := by
      rw [zpow_add₀ (by norm_num), zpow_natCast]
      exact mul_lt_mul_of_pos_right (by exact_mod_cast hm) (by positivity)
    have hle := Int.zpow_log_le_self (b := 2) (r := (m : ℚ) * 2 ^ e) (by norm_num) hq
    exact (zpow_lt_zpow_iff_right₀ (a := (2 : ℚ)) (by norm_num)).mp
      (lt_of_le_of_lt (by exact_mod_cast hle) hlt)
  have he : F.lastBit (m * 2 ^ e) ≤ e := max_le hmin (by omega)
  obtain ⟨k, hk⟩ := Int.le.dest he
  have hdiv : (m : ℚ) * 2 ^ e / 2 ^ F.lastBit (m * 2 ^ e) = ((m * 2 ^ k : ℤ) : ℚ) := by
    rw [div_eq_iff (by positivity)]
    conv_lhs => rw [← hk]
    rw [zpow_add₀ (by norm_num), zpow_natCast]
    push_cast
    ring
  unfold significand
  rw [hdiv, roundHalfEven_intCast, ← hdiv, div_mul_cancel₀ _ (by positivity)]

theorem lt_of_representable {q : ℚ} (h : F.Representable q) : q < 2 ^ (F.emax + F.prec) := by
  obtain ⟨m, e, hm, -, hmax, rfl⟩ := h
  have h1 : (m : ℚ) < 2 ^ (F.prec : ℤ) := by
    rw [zpow_natCast]
    exact_mod_cast lt_of_le_of_lt (le_abs_self m) hm
  calc (m : ℚ) * 2 ^ e < 2 ^ (F.prec : ℤ) * 2 ^ e := mul_lt_mul_of_pos_right h1 (by positivity)
    _ ≤ 2 ^ (F.prec : ℤ) * 2 ^ F.emax := by
        exact mul_le_mul_of_nonneg_left (zpow_le_zpow_right₀ (by norm_num) hmax) (by positivity)
    _ = 2 ^ (F.emax + F.prec) := by rw [← zpow_add₀ (by norm_num), add_comm]

theorem roundPos_of_representable {q : ℚ} (hq : 0 < q) (h : F.Representable q) :
    (F.roundPos q hq).toRat = some q := by
  have hs := significand_of_representable hq h
  have hz : F.significand q ≠ 0 := fun h0 => by
    rw [h0] at hs
    simp only [Int.cast_zero, zero_mul] at hs
    exact hq.ne hs
  rw [roundPos, dif_pos (hs.trans_lt (lt_of_representable h)), dif_neg hz]
  simp [Value.toRat, hs]

theorem toRat_neg (v : Value F) : v.neg.toRat = v.toRat.map (-·) := by
  cases v <;> simp [Value.neg, Value.toRat]

/-- An integer in the range of the exponents rounds to a finite value, and to zero only if
it is zero. -/
theorem exists_round_int {i : ℤ} {n : ℕ} (h : |i| ≤ 2 ^ n) (hmin : F.emin ≤ 0)
    (hmax : n < F.emax + F.prec) :
    ∃ r, (F.round i).toRat = some r ∧ (r = 0 → i = 0) := by
  have habs : |(i : ℚ)| ≤ 2 ^ n := by exact_mod_cast h
  rcases lt_trichotomy i 0 with hneg | rfl | hpos
  · have hq : (i : ℚ) < 0 := by exact_mod_cast hneg
    have hone : (1 : ℚ) ≤ -i := by exact_mod_cast (by omega : 1 ≤ -i)
    obtain ⟨r, hr, hr0⟩ := exists_roundPos (F := F) (neg_pos.mpr hq) hone
      ((neg_le_abs _).trans habs) hmin hmax
    refine ⟨-r, ?_, fun h0 => absurd (neg_eq_zero.mp h0) hr0⟩
    rw [round, dif_neg (not_lt.mpr hq.le), dif_pos hq, toRat_neg, hr]
    rfl
  · exact ⟨0, by simp [round, Value.toRat], fun _ => rfl⟩
  · have hq : (0 : ℚ) < i := by exact_mod_cast hpos
    have hone : (1 : ℚ) ≤ i := by exact_mod_cast (by omega : 1 ≤ i)
    obtain ⟨r, hr, hr0⟩ := exists_roundPos (F := F) hq hone ((le_abs_self _).trans habs) hmin hmax
    exact ⟨r, by rw [round, dif_pos hq, hr], fun h0 => absurd h0 hr0⟩

/-- Rounding is exact on what the format represents. -/
theorem round_of_representable {q : ℚ} (h : F.Representable q) :
    (F.round q).toRat = some q := by
  unfold round
  split_ifs with hq hn
  · exact roundPos_of_representable hq h
  · rw [toRat_neg, roundPos_of_representable _ h.neg]
    simp
  · have h0 : q = 0 := le_antisymm (not_lt.mp hq) (not_lt.mp hn)
    simp [Value.toRat, h0]

theorem representable_of_toRat {v : Value F} {q : ℚ} (h : v.toRat = some q) :
    F.Representable q := by
  cases v with
  | nan => simp [Value.toRat] at h
  | inf s => simp [Value.toRat] at h
  | zero s =>
    obtain rfl : 0 = q := by simpa [Value.toRat] using h
    exact ⟨0, F.emin, by simp, le_refl _, F.emin_le_emax, by simp⟩
  | finite r hr =>
    obtain rfl : r = q := by simpa [Value.toRat] using h
    exact hr.2

/-- Rounding a value's rational gives the rational back. -/
theorem round_toRat {v : Value F} {q : ℚ} (h : v.toRat = some q) :
    (F.round q).toRat = some q :=
  round_of_representable (representable_of_toRat h)

end Format

end Floating

import ProviderSdk.Lib.Text
import Mathlib.Algebra.Order.Field.Power
import Mathlib.Data.Nat.Digits.Defs
import Mathlib.Tactic.Positivity

/-!
# Numerals in text

Positional numerals over ASCII digits, and scanners that read the longest numeral or
decimal fraction a text starts with. A `Decimal` is a number in scientific notation with
its digits as written, so its exact value (`Decimal.toRat`) is not rounded.

`scanDecimal_mantissa` is the round trip : a mantissa with an exponent part is scanned
whole, as the decimal that was written.
-/

namespace Numeral

/-! ## Digits -/

/-- The value of a digit : `0`-`9`, then `a`-`z` in either case. -/
def digitValue (b : UInt8) : Option ℕ :=
  if 48 ≤ b ∧ b ≤ 57 then some (b.toNat - 48)
  else if 97 ≤ b ∧ b ≤ 122 then some (b.toNat - 87)
  else if 65 ≤ b ∧ b ≤ 90 then some (b.toNat - 55)
  else none

/-- A digit of base `base`. -/
def isDigit (base : ℕ) (b : UInt8) : Bool :=
  match digitValue b with
  | some d => decide (d < base)
  | none => false

/-- One or more digits. -/
def IsNumeral (base : ℕ) (ds : List UInt8) : Prop :=
  ds ≠ [] ∧ ∀ b ∈ ds, isDigit base b = true

/-- The number a digit string stands for, the first digit the most significant. -/
def value (base : ℕ) (ds : List UInt8) : ℕ :=
  Nat.ofDigits base (ds.map fun b => (digitValue b).getD 0).reverse

/-- The longest digit string a text starts with, and what follows it. -/
def scanDigits (base : ℕ) : List UInt8 → List UInt8 × List UInt8
  | [] => ([], [])
  | b :: text =>
    if isDigit base b then (b :: (scanDigits base text).1, (scanDigits base text).2)
    else ([], b :: text)

/-- Digits are scanned whole if what follows them is not a digit. -/
theorem scanDigits_append {base : ℕ} {rest : List UInt8}
    (hrest : ∀ b ∈ rest.head?, isDigit base b = false) :
    ∀ {ds : List UInt8}, (∀ b ∈ ds, isDigit base b = true) →
      scanDigits base (ds ++ rest) = (ds, rest)
  | [], _ => by
    cases rest with
    | nil => rfl
    | cons b rest => simp [scanDigits, hrest b (by simp)]
  | b :: ds, hds => by
    have ih := scanDigits_append hrest fun c hc => hds c (List.mem_cons_of_mem b hc)
    simp [scanDigits, hds b (by simp), ih]

theorem scanDigits_all {base : ℕ} {ds : List UInt8} (hds : ∀ b ∈ ds, isDigit base b = true) :
    scanDigits base ds = (ds, []) := by
  have h : scanDigits base (ds ++ []) = (ds, []) := scanDigits_append (by simp) hds
  rwa [List.append_nil] at h

/-- A numeral starts with a digit. -/
theorem IsNumeral.head_ne {base : ℕ} {ds : List UInt8} {b : UInt8} (h : IsNumeral base ds)
    (hb : isDigit base b = false) : ds.head? ≠ some b := by
  intro hhead
  have := h.2 b (List.mem_of_head? hhead)
  simp [hb] at this

/-! ## Decimals -/

/-- A number in decimal scientific notation. -/
structure Decimal where
  intDigits : List UInt8
  fracDigits : List UInt8
  exponent : ℤ

namespace Decimal

/-- The exact value. -/
def toRat (d : Decimal) : ℚ :=
  (value 10 (d.intDigits ++ d.fracDigits) : ℚ) * 10 ^ (d.exponent - d.fracDigits.length)

end Decimal

/-- A sign, if the text starts with one. True is minus. -/
def scanSign : List UInt8 → Bool × List UInt8
  | [] => (false, [])
  | b :: text =>
    if b = 45 then (true, text) else if b = 43 then (false, text) else (false, b :: text)

/-- An exponent part `[eE][-+]?[0-9]+`. A text without one reads as zero, with nothing
consumed. -/
def scanExponent : List UInt8 → ℤ × List UInt8
  | [] => (0, [])
  | b :: text =>
    let digits := scanDigits 10 (scanSign text).2
    if (b = 101 ∨ b = 69) ∧ digits.1 ≠ [] then
      (if (scanSign text).1 then -(value 10 digits.1 : ℤ) else (value 10 digits.1 : ℤ), digits.2)
    else (0, b :: text)

/-- A point and the digits after it. -/
def scanFraction : List UInt8 → List UInt8 × List UInt8
  | [] => ([], [])
  | b :: text => if b = 46 then scanDigits 10 text else ([], b :: text)

/-- The longest unsigned decimal a text starts with : digits with at most one point among
them, at least one digit, and an exponent part if there is one. -/
def scanDecimal (text : List UInt8) : Option (Decimal × List UInt8) :=
  let whole := scanDigits 10 text
  let frac := scanFraction whole.2
  let exponent := scanExponent frac.2
  if whole.1 = [] ∧ frac.1 = [] then none
  else some (⟨whole.1, frac.1, exponent.1⟩, exponent.2)

/-! ## Written decimals -/

/-- `[0-9]*` without a point, or `[0-9]*\.[0-9]*`, with at least one digit : a mantissa
with its digits before and after the point. -/
inductive Mantissa : List UInt8 → List UInt8 → List UInt8 → Prop
  | whole {ds : List UInt8} (h : IsNumeral 10 ds) : Mantissa ds ds []
  | point {ds fs : List UInt8} (hd : ∀ b ∈ ds, isDigit 10 b = true)
      (hf : ∀ b ∈ fs, isDigit 10 b = true) (h : ¬(ds = [] ∧ fs = [])) :
      Mantissa (ds ++ 46 :: fs) ds fs

/-- Nothing, or `[eE][-+]?[0-9]+` : an exponent part with its value. -/
inductive Exponent : List UInt8 → ℤ → Prop
  | none : Exponent [] 0
  | unsigned {e : UInt8} {ds : List UInt8} (he : e = 101 ∨ e = 69) (h : IsNumeral 10 ds) :
      Exponent (e :: ds) (value 10 ds)
  | plus {e : UInt8} {ds : List UInt8} (he : e = 101 ∨ e = 69) (h : IsNumeral 10 ds) :
      Exponent (e :: 43 :: ds) (value 10 ds)
  | minus {e : UInt8} {ds : List UInt8} (he : e = 101 ∨ e = 69) (h : IsNumeral 10 ds) :
      Exponent (e :: 45 :: ds) (-(value 10 ds : ℤ))

theorem scanSign_digits {ds : List UInt8} (h : IsNumeral 10 ds) : scanSign ds = (false, ds) := by
  obtain ⟨b, ds, rfl⟩ := List.exists_cons_of_ne_nil h.1
  have hb := h.2 b (by simp)
  have h1 : b ≠ 45 := by
    rintro rfl
    exact absurd hb (by decide)
  have h2 : b ≠ 43 := by
    rintro rfl
    exact absurd hb (by decide)
  simp [scanSign, h1, h2]

theorem scanExponent_exponent {t : List UInt8} {k : ℤ} (h : Exponent t k) :
    scanExponent t = (k, []) := by
  cases h with
  | none => rfl
  | unsigned he h =>
    simp [scanExponent, scanSign_digits h, scanDigits_all h.2, he, h.1]
  | plus he h =>
    simp [scanExponent, scanSign, scanDigits_all h.2, he, h.1]
  | minus he h =>
    simp [scanExponent, scanSign, scanDigits_all h.2, he, h.1]

/-- What an exponent part starts with is neither a digit nor a point. -/
theorem Exponent.head {t : List UInt8} {k : ℤ} (h : Exponent t k) :
    ∀ b ∈ t.head?, isDigit 10 b = false ∧ b ≠ 46 := by
  have letter : ∀ e : UInt8, e = 101 ∨ e = 69 → isDigit 10 e = false ∧ e ≠ 46 := by
    rintro e (rfl | rfl) <;> decide
  cases h with
  | none => simp
  | unsigned he _ => simpa using letter _ he
  | plus he _ => simpa using letter _ he
  | minus he _ => simpa using letter _ he

/-- A mantissa starts with a digit or a point. -/
theorem Mantissa.head_ne {m ds fs e : List UInt8} {b : UInt8} (hm : Mantissa m ds fs)
    (hb : isDigit 10 b = false) (hpoint : b ≠ 46) : (m ++ e).head? ≠ some b := by
  cases hm with
  | whole h =>
    rw [List.head?_append_of_ne_nil _ h.1]
    exact h.head_ne hb
  | point hd hf h =>
    cases ds with
    | nil => simpa using hpoint.symm
    | cons c ds =>
      intro hhead
      have hc : c = b := by simpa using hhead
      have := hd c (by simp)
      simp [hc, hb] at this

theorem scanFraction_exponent {t : List UInt8} {k : ℤ} (h : Exponent t k) :
    scanFraction t = ([], t) := by
  cases t with
  | nil => rfl
  | cons b t =>
    have hb := (h.head b (by simp)).2
    simp [scanFraction, hb]

/-- A mantissa with an exponent part is scanned whole. -/
theorem scanDecimal_mantissa {m ds fs t : List UInt8} {k : ℤ} (hm : Mantissa m ds fs)
    (ht : Exponent t k) : scanDecimal (m ++ t) = some (⟨ds, fs, k⟩, []) := by
  have hdigit : ∀ b ∈ t.head?, isDigit 10 b = false := fun b hb => (ht.head b hb).1
  cases hm with
  | whole h =>
    have hw := scanDigits_append hdigit h.2
    simp [scanDecimal, hw, scanFraction_exponent ht, scanExponent_exponent ht, h.1]
  | point hd hf h =>
    have hw : scanDigits 10 (ds ++ 46 :: (fs ++ t)) = (ds, 46 :: (fs ++ t)) :=
      scanDigits_append (by simp; decide) hd
    have hfr : scanFraction (46 :: (fs ++ t)) = (fs, t) := by
      simpa [scanFraction] using scanDigits_append hdigit hf
    simp only [List.append_assoc, List.cons_append, scanDecimal, hw, hfr,
      scanExponent_exponent ht, if_neg h]

end Numeral

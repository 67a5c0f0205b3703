import ProviderSdk.Lib.Numeral

/-!
# Unsigned conversions of C

`strtoul` with base 0 and 64 bits, by its specification in C : blanks are skipped, a sign is
read, and then the longest integer constant there is, in decimal, in octal after a `0` or in
hexadecimal after `0x`. A constant too large is a range error. The value after a minus is
negated in the type of the result. The binary constants after `0b` of C23, which newer libraries
read, are not included.

`scanConstant_eq_iff` and `strtoul_eq_iff` say when a text is read whole. The blanks are a
parameter, as they are the locale's.
-/

namespace Strtoul

open Numeral

/-! ## Integer constants -/

/-- An integer constant without a suffix, with its value. -/
inductive Constant : List UInt8 → ℕ → Prop
  | decimal {ds : List UInt8} (h : IsNumeral 10 ds) (h0 : ds.head? ≠ some 48) :
      Constant ds (value 10 ds)
  | octal {ds : List UInt8} (h : IsNumeral 8 ds) (h0 : ds.head? = some 48) :
      Constant ds (value 8 ds)
  | hex {x : UInt8} {ds : List UInt8} (hx : x = 120 ∨ x = 88) (h : IsNumeral 16 ds) :
      Constant (48 :: x :: ds) (value 16 ds)

/-- The longest integer constant a text starts with, and what follows it. The `x` of a
hexadecimal one is part of it only if a digit follows. -/
def scanConstant (text : List UInt8) : Option (ℕ × List UInt8) :=
  let hex := scanDigits 16 (text.drop 2)
  let octal := scanDigits 8 text
  let decimal := scanDigits 10 text
  if text.head? = some 48 then
    if (text[1]? = some 120 ∨ text[1]? = some 88) ∧ hex.1 ≠ [] then some (value 16 hex.1, hex.2)
    else some (value 8 octal.1, octal.2)
  else if decimal.1 = [] then none
  else some (value 10 decimal.1, decimal.2)

/-- A text that is scanned to its end has digits only. -/
theorem scanDigits_whole {base : ℕ} : ∀ {text : List UInt8}, (scanDigits base text).2 = [] →
    (∀ b ∈ text, isDigit base b = true) ∧ (scanDigits base text).1 = text
  | [], _ => ⟨by simp, rfl⟩
  | b :: text, h => by
    rw [scanDigits] at h ⊢
    split_ifs at h ⊢ with hb
    · obtain ⟨hall, htext⟩ := scanDigits_whole h
      exact ⟨List.forall_mem_cons.mpr ⟨hb, hall⟩, by rw [htext]⟩

/-- A constant is scanned whole, and nothing else is. -/
theorem scanConstant_eq_iff {text : List UInt8} {n : ℕ} :
    scanConstant text = some (n, []) ↔ Constant text n := by
  constructor
  · intro h
    unfold scanConstant at h
    dsimp only at h
    split_ifs at h with h0 hhex hdec
    · -- hexadecimal
      obtain ⟨hx, hne⟩ := hhex
      simp only [Option.some.injEq, Prod.mk.injEq] at h
      obtain ⟨rfl, hrest⟩ := h
      obtain ⟨hall, hwhole⟩ := scanDigits_whole hrest
      obtain _ | ⟨z, _ | ⟨x, ds⟩⟩ := text
      · cases h0
      · simp at hx
      · obtain rfl : z = 48 := by simpa using h0
        rw [hwhole] at hne ⊢
        exact .hex (by simpa using hx) ⟨hne, hall⟩
    · -- octal
      simp only [Option.some.injEq, Prod.mk.injEq] at h
      obtain ⟨rfl, hrest⟩ := h
      obtain ⟨hall, hwhole⟩ := scanDigits_whole hrest
      rw [hwhole]
      exact .octal ⟨fun hnil => by simp [hnil] at h0, hall⟩ h0
    · -- decimal
      simp only [Option.some.injEq, Prod.mk.injEq] at h
      obtain ⟨rfl, hrest⟩ := h
      obtain ⟨hall, hwhole⟩ := scanDigits_whole hrest
      rw [hwhole] at hdec ⊢
      exact .decimal ⟨hdec, hall⟩ h0
  · intro h
    cases h with
    | decimal h h0 =>
      unfold scanConstant
      rw [if_neg h0, scanDigits_all h.2, if_neg h.1]
    | octal h h0 =>
      unfold scanConstant
      have hx : ¬((text[1]? = some 120 ∨ text[1]? = some 88) ∧
          (scanDigits 16 (text.drop 2)).1 ≠ []) := by
        rintro ⟨hx | hx, -⟩
        · exact absurd (h.2 120 (List.mem_of_getElem? hx)) (by decide)
        · exact absurd (h.2 88 (List.mem_of_getElem? hx)) (by decide)
      rw [if_pos h0, if_neg hx, scanDigits_all h.2]
    | @hex x ds hx h =>
      unfold scanConstant
      simp [scanDigits_all h.2, h.1, hx]

/-- A constant starts with a decimal digit. -/
theorem Constant.exists_head {text : List UInt8} {n : ℕ} (h : Constant text n) :
    ∃ b rest, text = b :: rest ∧ isDigit 10 b = true := by
  cases h with
  | decimal h h0 =>
    obtain ⟨b, rest, rfl⟩ := List.exists_cons_of_ne_nil h.1
    exact ⟨b, rest, rfl, h.2 b List.mem_cons_self⟩
  | octal h h0 =>
    obtain ⟨b, rest, rfl⟩ := List.exists_cons_of_ne_nil h.1
    obtain rfl : b = 48 := by simpa using h0
    exact ⟨48, rest, rfl, by decide⟩
  | @hex x ds hx h => exact ⟨48, x :: ds, rfl, by decide⟩

/-- A text has one value. -/
theorem Constant.unique {text : List UInt8} {n m : ℕ} (h : Constant text n)
    (h' : Constant text m) : n = m := by
  have hscan := (scanConstant_eq_iff.mpr h).symm.trans (scanConstant_eq_iff.mpr h')
  simpa using hscan

/-! ## Signs -/

/-- An optional sign. True is minus. -/
inductive Sign : List UInt8 → Bool → Prop
  | none : Sign [] false
  | plus : Sign [43] false
  | minus : Sign [45] true

/-- What `scanSign` reads is a sign. -/
theorem exists_sign_scanSign (text : List UInt8) :
    ∃ sign, Sign sign (scanSign text).1 ∧ text = sign ++ (scanSign text).2 := by
  cases text with
  | nil => exact ⟨[], .none, rfl⟩
  | cons b text =>
    rw [scanSign]
    split_ifs with hminus hplus
    · exact ⟨[45], .minus, by rw [hminus]; rfl⟩
    · exact ⟨[43], .plus, by rw [hplus]; rfl⟩
    · exact ⟨[], .none, rfl⟩

theorem scanSign_append {sign text : List UInt8} {neg : Bool} {n : ℕ} (hsign : Sign sign neg)
    (h : Constant text n) : scanSign (sign ++ text) = (neg, text) := by
  cases hsign with
  | none =>
    obtain ⟨b, rest, rfl, hb⟩ := h.exists_head
    have hminus : b ≠ 45 := by rintro rfl; exact absurd hb (by decide)
    have hplus : b ≠ 43 := by rintro rfl; exact absurd hb (by decide)
    rw [List.nil_append, scanSign, if_neg hminus, if_neg hplus]
  | plus => rfl
  | minus => rfl

/-! ## The conversion -/

/-- What `strtoul` returns, sets and points to. -/
structure Result where
  value : ℕ
  /-- `errno` is `ERANGE`. -/
  range : Bool
  rest : List UInt8

/-- `strtoul(text, &end, 0)` of a text without NUL, or none if nothing is converted. -/
def strtoul (blank : UInt8 → Bool) (text : List UInt8) : Option Result :=
  let signed := scanSign (text.dropWhile blank)
  match scanConstant signed.2 with
  | none => none
  | some (n, rest) =>
    if 2 ^ 64 ≤ n then some ⟨2 ^ 64 - 1, true, rest⟩
    else some ⟨if signed.1 then (2 ^ 64 - n) % 2 ^ 64 else n, false, rest⟩

/-- A text that is read whole as `v` : blanks, a sign, and a constant that fits. -/
structure Reads (blank : UInt8 → Bool) (text blanks : List UInt8) (neg : Bool) (v : ℕ) :
    Prop where
  skipped : ∀ b ∈ blanks, blank b = true
  signed : ∃ sign constant n, text = blanks ++ (sign ++ constant) ∧ Sign sign neg ∧
    Constant constant n ∧ n < 2 ^ 64 ∧ v = if neg then (2 ^ 64 - n) % 2 ^ 64 else n

/-- No sign and no digit is a blank. -/
structure Blanks (blank : UInt8 → Bool) : Prop where
  minus : blank 45 = false
  plus : blank 43 = false
  digit : ∀ b, isDigit 10 b = true → blank b = false

/-- What follows the blanks. -/
theorem Blanks.dropWhile_signed {blank : UInt8 → Bool} (h : Blanks blank)
    {blanks sign constant : List UInt8} {neg : Bool} {n : ℕ}
    (hblanks : ∀ b ∈ blanks, blank b = true) (hsign : Sign sign neg)
    (hconstant : Constant constant n) :
    (blanks ++ (sign ++ constant)).dropWhile blank = sign ++ constant := by
  refine Text.dropWhile_append hblanks fun b hb => ?_
  cases hsign with
  | none =>
    obtain ⟨c, rest, rfl, hc⟩ := hconstant.exists_head
    obtain rfl : c = b := by simpa using hb
    exact h.digit c hc
  | plus =>
    obtain rfl : 43 = b := by simpa using hb
    exact h.plus
  | minus =>
    obtain rfl : 45 = b := by simpa using hb
    exact h.minus

/-- What is read whole without a range error. -/
theorem strtoul_eq_iff {blank : UInt8 → Bool} (hblank : Blanks blank) {text : List UInt8}
    {v : ℕ} : strtoul blank text = some ⟨v, false, []⟩ ↔
      ∃ blanks neg, Reads blank text blanks neg v := by
  constructor
  · intro h
    obtain ⟨sign, hsign, htext⟩ := exists_sign_scanSign (text.dropWhile blank)
    unfold strtoul at h
    dsimp only at h
    cases hscan : scanConstant (scanSign (text.dropWhile blank)).2 with
    | none =>
      rw [hscan] at h
      cases h
    | some scanned =>
      obtain ⟨n, rest⟩ := scanned
      rw [hscan] at h
      dsimp only at h
      by_cases hrange : 2 ^ 64 ≤ n
      · rw [if_pos hrange] at h
        simp at h
      · rw [if_neg hrange, Option.some.injEq, Result.mk.injEq] at h
        obtain ⟨rfl, -, rfl⟩ := h
        refine ⟨text.takeWhile blank, _, List.all_eq_true.mp List.all_takeWhile, sign, _, n, ?_,
          hsign, scanConstant_eq_iff.mp hscan, not_le.mp hrange, rfl⟩
        rw [← htext, List.takeWhile_append_dropWhile]
  · rintro ⟨blanks, neg, hskipped, sign, constant, n, rfl, hsign, hconstant, hn, rfl⟩
    unfold strtoul
    rw [hblank.dropWhile_signed hskipped hsign hconstant, scanSign_append hsign hconstant]
    simp only [scanConstant_eq_iff.mpr hconstant]
    rw [if_neg (not_le.mpr hn)]

end Strtoul

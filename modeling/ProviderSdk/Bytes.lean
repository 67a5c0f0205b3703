import Mathlib.Data.Nat.Digits.Lemmas
import Mathlib.Data.List.Basic

/-!
# Byte strings

The SDK's `std::string` and `std::vector<uint8_t>` values are byte strings, with no
promise that they are UTF-8. `lit` is a string literal of the source, and `toStringNat`
and `toStringInt` are `std::to_string`.
-/

namespace ProviderSdk

/-- A byte string. -/
abbrev Bytes := List UInt8

/-- By name, for the tests whether a list has a byte string. -/
instance instLawfulBEqBytes : LawfulBEq Bytes :=
  inferInstance

/-- A string literal of the source, as its UTF-8 bytes. -/
def lit (s : String) : Bytes :=
  s.toByteArray.data.toList

/-- Two literals are the same bytes only if they are the same literal. -/
@[simp] theorem lit_inj {s t : String} : lit s = lit t ↔ s = t := by
  constructor
  · intro h
    apply String.toByteArray_inj.mp
    apply ByteArray.ext
    exact Array.toList_inj.mp h
  · rintro rfl
    rfl

@[simp] theorem lit_empty : lit "" = [] :=
  rfl

@[simp] theorem lit_eq_nil {s : String} : lit s = [] ↔ s = "" := by
  rw [← lit_empty, lit_inj]

/-- A character of the source below 128, as its byte. -/
def chr (c : Char) : UInt8 :=
  UInt8.ofNat c.toNat

/-! ## `std::to_string` -/

/-- The byte of a decimal digit. -/
def digitByte (d : ℕ) : UInt8 :=
  UInt8.ofNat (48 + d)

theorem digitByte_inj {d e : ℕ} (hd : d < 10) (he : e < 10) (h : digitByte d = digitByte e) :
    d = e := by
  have hn := congrArg UInt8.toNat h
  simp only [digitByte, UInt8.toNat_ofNat'] at hn
  omega

theorem digitByte_ne_minus {d : ℕ} (hd : d < 10) : digitByte d ≠ chr '-' := by
  intro h
  have hn := congrArg UInt8.toNat h
  simp only [digitByte, UInt8.toNat_ofNat', show (chr '-').toNat = 45 from rfl] at hn
  omega

/-- `std::to_string` of an unsigned value. -/
def toStringNat (n : ℕ) : Bytes :=
  if n = 0 then [digitByte 0] else ((Nat.digits 10 n).map digitByte).reverse

/-- `std::to_string` of a signed value. -/
def toStringInt (i : ℤ) : Bytes :=
  if i < 0 then chr '-' :: toStringNat i.natAbs else toStringNat i.natAbs

theorem exists_digit_of_mem_toStringNat {n : ℕ} {b : UInt8} (h : b ∈ toStringNat n) :
    ∃ d < 10, b = digitByte d := by
  unfold toStringNat at h
  split_ifs at h with hn
  · exact ⟨0, by omega, by simpa using h⟩
  · obtain ⟨d, hd, rfl⟩ := List.mem_map.mp (List.mem_reverse.mp h)
    exact ⟨d, Nat.digits_lt_base (by omega) hd, rfl⟩

theorem map_digitByte_inj : ∀ {l m : List ℕ}, (∀ d ∈ l, d < 10) → (∀ d ∈ m, d < 10) →
    l.map digitByte = m.map digitByte → l = m
  | [], [], _, _, _ => rfl
  | [], e :: m, _, _, h => by simp at h
  | d :: l, [], _, _, h => by simp at h
  | d :: l, e :: m, hl, hm, h => by
    simp only [List.map_cons, List.cons.injEq] at h
    rw [digitByte_inj (hl d (by simp)) (hm e (by simp)) h.1,
      map_digitByte_inj (fun x hx => hl x (by simp [hx])) (fun x hx => hm x (by simp [hx])) h.2]

theorem digitByte_zero_ne_digits {n : ℕ} (hn : n ≠ 0) :
    [digitByte 0] ≠ ((Nat.digits 10 n).map digitByte).reverse := by
  intro h
  have h0 : Nat.digits 10 n = [0] := by
    apply map_digitByte_inj (fun d hd => Nat.digits_lt_base (by omega) hd) (by simp)
    simpa using congrArg List.reverse h.symm
  have hlast := Nat.getLast_digit_ne_zero 10 hn
  simp only [h0, List.getLast_singleton, ne_eq, not_true_eq_false] at hlast

/-- Different values print differently. -/
theorem toStringNat_inj {n m : ℕ} (h : toStringNat n = toStringNat m) : n = m := by
  unfold toStringNat at h
  split_ifs at h with hn hm hm
  · omega
  · exact absurd h (digitByte_zero_ne_digits hm)
  · exact absurd h.symm (digitByte_zero_ne_digits hn)
  · have hd := map_digitByte_inj (fun d hd => Nat.digits_lt_base (by omega) hd)
      (fun d hd => Nat.digits_lt_base (by omega) hd) (List.reverse_inj.mp h)
    exact Nat.digits_inj_iff.mp hd

theorem toStringNat_ne_minus (n : ℕ) (t : Bytes) : toStringNat n ≠ chr '-' :: t := by
  intro h
  obtain ⟨d, hd, he⟩ := exists_digit_of_mem_toStringNat (n := n) (b := chr '-') (by simp [h])
  exact digitByte_ne_minus hd he.symm

theorem toStringInt_inj {i j : ℤ} (h : toStringInt i = toStringInt j) : i = j := by
  unfold toStringInt at h
  split_ifs at h with hi hj hj
  · have := toStringNat_inj (List.cons.inj h).2
    omega
  · exact absurd h.symm (toStringNat_ne_minus _ _)
  · exact absurd h (toStringNat_ne_minus _ _)
  · have := toStringNat_inj h
    omega

/-- A value below `10 ^ k` prints in at most `k` digits. -/
theorem length_toStringNat_le {n k : ℕ} (hk : 0 < k) (hn : n < 10 ^ k) :
    (toStringNat n).length ≤ k := by
  unfold toStringNat
  split_ifs with h
  · simpa [Nat.one_le_iff_ne_zero] using hk.ne'
  · simpa using (Nat.digits_length_le_iff (by omega) n).mpr hn

/-- A sign takes one byte more. -/
theorem length_toStringInt_le {i : ℤ} {k : ℕ} (hk : 0 < k) (hi : i.natAbs < 10 ^ k) :
    (toStringInt i).length ≤ k + 1 := by
  have hlen := length_toStringNat_le hk hi
  unfold toStringInt
  split_ifs
  · rw [List.length_cons]
    omega
  · omega

example : toStringInt (-1048576) = lit "-1048576" := by decide

/-! ## Hexadecimal -/

/-- The byte of a hexadecimal digit, in lower case. -/
def hexByte (d : ℕ) : UInt8 :=
  if d < 10 then UInt8.ofNat (48 + d) else UInt8.ofNat (87 + d)

/-- `%0<width>x`, of a value below `16 ^ width`. -/
def hexPadded : ℕ → ℕ → Bytes
  | 0, _ => []
  | width + 1, n => hexPadded width (n / 16) ++ [hexByte (n % 16)]

@[simp] theorem length_hexPadded (width n : ℕ) : (hexPadded width n).length = width := by
  induction width generalizing n with
  | zero => rfl
  | succ width ih => rw [hexPadded, List.length_append, ih, List.length_singleton]

theorem hexByte_inj : ∀ d e : Fin 16, hexByte d = hexByte e → d = e := by
  decide

/-- Values that fit print differently. -/
theorem hexPadded_inj {width n m : ℕ} (hn : n < 16 ^ width) (hm : m < 16 ^ width)
    (h : hexPadded width n = hexPadded width m) : n = m := by
  induction width generalizing n m with
  | zero =>
    rw [pow_zero] at hn hm
    omega
  | succ width ih =>
    rw [pow_succ] at hn hm
    obtain ⟨hhigh, hlow⟩ := List.append_inj h (by simp)
    have hdiv : n / 16 = m / 16 := ih (by omega) (by omega) hhigh
    have hmod : n % 16 = m % 16 := by
      have hfin := hexByte_inj ⟨n % 16, by omega⟩ ⟨m % 16, by omega⟩ (List.singleton_inj.mp hlow)
      exact congrArg Fin.val hfin
    omega

/-! ## Order -/

/-- The first element of a `std::set` of the strings : the lexicographically least one. -/
def leastBytes : List Bytes → Option Bytes
  | [] => none
  | b :: bs =>
    match leastBytes bs with
    | none => some b
    | some c => if b < c then some b else some c

theorem leastBytes_eq_none {l : List Bytes} : leastBytes l = none ↔ l = [] := by
  cases l with
  | nil => simp [leastBytes]
  | cons b bs =>
    simp only [leastBytes, reduceCtorEq, iff_false]
    split
    · simp
    · split_ifs <;> simp

theorem leastBytes_isSome {l : List Bytes} (h : l ≠ []) : ∃ b, leastBytes l = some b := by
  cases hl : leastBytes l with
  | none => exact absurd (leastBytes_eq_none.mp hl) h
  | some b => exact ⟨b, rfl⟩

/-- The first element is a least one. -/
theorem isLeast_leastBytes {l : List Bytes} {b : Bytes} (h : leastBytes l = some b) :
    IsLeast {c | c ∈ l} b := by
  induction l generalizing b with
  | nil => simp [leastBytes] at h
  | cons a as ih =>
    simp only [leastBytes] at h
    cases hr : leastBytes as with
    | none =>
      obtain rfl := leastBytes_eq_none.mp hr
      obtain rfl : a = b := by simpa [hr] using h
      exact ⟨by simp, fun c hc => by simp_all⟩
    | some c =>
      obtain ⟨hc, hle⟩ := ih hr
      simp only [hr] at h
      split_ifs at h with hac
      · obtain rfl : a = b := by simpa using h
        refine ⟨by simp, fun d hd => ?_⟩
        rcases List.mem_cons.mp hd with rfl | hd
        · exact List.le_refl _
        · exact List.le_trans (List.le_of_lt hac) (hle hd)
      · obtain rfl : c = b := by simpa using h
        refine ⟨List.mem_cons_of_mem _ hc, fun d hd => ?_⟩
        rcases List.mem_cons.mp hd with rfl | hd
        · exact List.not_lt.mp hac
        · exact hle hd

/-- A set of strings has one first element. -/
theorem leastBytes_eq_some_iff {l : List Bytes} {b : Bytes} :
    leastBytes l = some b ↔ IsLeast {c | c ∈ l} b := by
  refine ⟨isLeast_leastBytes, fun h => ?_⟩
  obtain ⟨c, hc⟩ := leastBytes_isSome (List.ne_nil_of_mem h.1)
  obtain ⟨hmem, hle⟩ := isLeast_leastBytes hc
  rw [hc, List.le_antisymm (hle h.1) (h.2 hmem)]

end ProviderSdk

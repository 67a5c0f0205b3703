import ProviderSdk.HostText
import ProviderSdk.SchemaText
import ProviderSdk.Lib.Reading

/-!
# Two recognisers of UTF-8

`is_valid_utf8` of `src/anolis/provider_sdk/config.cpp` and `utf8_sequence_length` of
`src/anolis/provider_sdk/host_check.cpp` read a string by index. Here they do as well, with
their reads as events, and each gives what its model on lists gives and reads no byte past the
end (`within_isValidUtf8From`, `within_utf8SequenceLength`).

So both accept the well-formed strings and no others (`recognisers_agree`). For
`utf8_sequence_length` that is the loop of its caller (`stepsFrom`), which it takes to the end.
-/

namespace ProviderSdk.ByIndex

open Utf8 Config HostCheck

/-! ## Reading -/

/-- `bytes[k] < lo || bytes[k] > hi`. -/
def outside (bytes : Bytes) (lo hi : UInt8) (k : ℕ) : Reading Bool := do
  if (← Reading.get bytes k) < lo then pure true
  else do
    let b ← Reading.get bytes k
    pure (decide (hi < b))

/-- The loop over the bytes after the second, with how many there are. -/
def anyOutside (bytes : Bytes) : ℕ → ℕ → Reading Bool
  | 0, _ => pure false
  | n + 1, k => do
    if ← outside bytes 0x80 0xBF k then pure true
    else anyOutside bytes n (k + 1)

theorem leadByte_length {lead lo hi : UInt8} {length : ℕ}
    (h : leadByte lead = some (length, lo, hi)) : length = 2 ∨ length = 3 ∨ length = 4 := by
  unfold leadByte at h
  split_ifs at h <;> cases h <;> simp

/-- The loop of `is_valid_utf8`, from an index. -/
def isValidUtf8From (bytes : Bytes) (i : ℕ) : Reading Bool :=
  if _hi : i < bytes.length then
    Reading.get bytes i >>= fun lead =>
      if lead < 0x80 then isValidUtf8From bytes (i + 1)
      else
        match _hlead : leadByte lead with
        | none => pure false
        | some (length, firstLo, firstHi) =>
          if bytes.length < i + length then pure false
          else
            outside bytes firstLo firstHi (i + 1) >>= fun bad =>
              if bad then pure false
              else
                anyOutside bytes (length - 2) (i + 2) >>= fun bad =>
                  if bad then pure false else isValidUtf8From bytes (i + length)
  else pure true
termination_by bytes.length - i
decreasing_by
  · omega
  · have hlength := leadByte_length _hlead
    omega

def isValidUtf8 (bytes : Bytes) : Reading Bool :=
  isValidUtf8From bytes 0

/-- The loop over the bytes after the lead, with how many are left. -/
def continueCode (text : Bytes) : ℕ → ℕ → ℕ → Reading (Option ℕ)
  | 0, _, code => pure (some code)
  | n + 1, k, code => do
    if (← Reading.get text k) &&& 0xC0 ≠ 0x80 then pure none
    else do
      let b ← Reading.get text k
      continueCode text n (k + 1) (code <<< 6 ||| (b &&& 0x3F).toNat)

/-- The length of the character at an index, or 0. -/
def utf8SequenceLength (text : Bytes) (i : ℕ) : Reading ℕ := do
  let lead ← Reading.get text i
  match leadRow lead with
  | none => pure 0
  | some (length, min, code) =>
    if text.length < i + length then pure 0
    else do
      match ← continueCode text (length - 1) (i + 1) code with
      | none => pure 0
      | some code =>
        if code < min ∨ 0x10FFFF < code ∨ (0xD800 ≤ code ∧ code ≤ 0xDFFF) then pure 0
        else pure length

/-- Step through a string from an index, over single bytes below 128 and the characters that
`utf8_sequence_length` finds, to the end or to a 0. -/
def stepsFrom (text : Bytes) (i : ℕ) : Reading Bool :=
  if _hi : i < text.length then
    Reading.get text i >>= fun c =>
      if c < 0x80 then stepsFrom text (i + 1)
      else
        utf8SequenceLength text i >>= fun length =>
          match length with
          | 0 => pure false
          | n + 1 => stepsFrom text (i + (n + 1))
  else pure true
termination_by text.length - i

/-! ## Within the string -/

section Within

open Reading

variable {bytes : Bytes}

theorem within_outside {lo hi : UInt8} {k : ℕ} (hk : k < bytes.length) :
    Within bytes (outside bytes lo hi k) (!(lo ≤ bytes[k] && bytes[k] ≤ hi)) := by
  refine .bind (.get hk) ?_
  split_ifs with hlo
  · exact (Within.pure true).congr (by simp [UInt8.not_le.mpr hlo])
  · refine .bind (.get hk) ((Within.pure (decide (hi < bytes[k]))).congr ?_)
    simp [UInt8.not_lt.mp hlo, ← UInt8.not_le]

theorem within_anyOutside {n : ℕ} : ∀ {k : ℕ}, k + n ≤ bytes.length →
    Within bytes (anyOutside bytes n k) (!((bytes.drop k).take n).all isContinuation) := by
  induction n with
  | zero => exact fun _ => (Within.pure false).congr (by simp)
  | succ n ih =>
    intro k hk
    have hk' : k < bytes.length := by omega
    have hdrop : bytes.drop k = bytes[k] :: bytes.drop (k + 1) := List.drop_eq_getElem_cons hk'
    have hfirst : Within bytes (outside bytes 0x80 0xBF k) (!isContinuation bytes[k]) :=
      within_outside hk'
    refine .bind hfirst ?_
    rw [hdrop, List.take_succ_cons, List.all_cons]
    cases isContinuation bytes[k] with
    | false => exact .pure true
    | true => exact ih (by omega)

/-- A character of several bytes at the front : its length, its second byte and the others. -/
theorem isValidUtf8_lead {lead lo hi : UInt8} {rest : Bytes} {length : ℕ} (hlow : ¬lead < 0x80)
    (hlead : leadByte lead = some (length, lo, hi)) (hlength : length ≤ rest.length + 1)
    (hrest : 0 < rest.length) :
    Config.isValidUtf8 (lead :: rest) = ((lo ≤ rest[0] && rest[0] ≤ hi) &&
      ((rest.drop 1).take (length - 2)).all isContinuation &&
      Config.isValidUtf8 (rest.drop (length - 1))) := by
  rw [isValidUtf8_cons, if_neg hlow, hlead]
  obtain _ | ⟨b1, rest⟩ := rest
  · cases hrest
  obtain rfl | rfl | rfl := leadByte_length hlead
  · simp
  · obtain _ | ⟨b2, rest⟩ := rest
    · simp at hlength
    · simp
  · obtain _ | ⟨b2, _ | ⟨b3, rest⟩⟩ := rest
    · simp at hlength
    · simp at hlength
    · simp [Bool.and_assoc]

/-- A truncated character. -/
theorem isValidUtf8_short {lead lo hi : UInt8} {rest : Bytes} {length : ℕ} (hlow : ¬lead < 0x80)
    (hlead : leadByte lead = some (length, lo, hi)) (hlength : rest.length + 1 < length) :
    Config.isValidUtf8 (lead :: rest) = false := by
  rw [isValidUtf8_cons, if_neg hlow, hlead]
  obtain rfl | rfl | rfl := leadByte_length hlead
  · obtain _ | ⟨b1, rest⟩ := rest
    · rfl
    · simp at hlength
  · obtain _ | ⟨b1, _ | ⟨b2, rest⟩⟩ := rest
    · rfl
    · rfl
    · simp only [List.length_cons] at hlength
      omega
  · obtain _ | ⟨b1, _ | ⟨b2, _ | ⟨b3, rest⟩⟩⟩ := rest
    · rfl
    · rfl
    · rfl
    · simp only [List.length_cons] at hlength
      omega

/-- The loop gives what the check gives of the rest. -/
theorem within_isValidUtf8From : ∀ i, Within bytes (isValidUtf8From bytes i)
    (Config.isValidUtf8 (bytes.drop i)) := by
  intro i
  induction hn : bytes.length - i using Nat.strong_induction_on generalizing i with
  | _ n ih =>
    rw [isValidUtf8From]
    split_ifs with hi
    · have hdrop : bytes.drop i = bytes[i] :: bytes.drop (i + 1) := List.drop_eq_getElem_cons hi
      refine .bind (.get hi) ?_
      rw [hdrop]
      by_cases hlow : bytes[i] < 0x80
      · rw [if_pos hlow, isValidUtf8_cons, if_pos hlow]
        exact ih _ (by omega) (i + 1) rfl
      rw [if_neg hlow]
      split
      · next hlead =>
        rw [isValidUtf8_cons, if_neg hlow, hlead]
        exact .pure false
      · next length firstLo firstHi hlead =>
        have hlength := leadByte_length hlead
        split_ifs with hshort
        · rw [isValidUtf8_short hlow hlead (by rw [List.length_drop]; omega)]
          exact .pure false
        have hi' : i + 1 < bytes.length := by omega
        have hrest : 0 < (bytes.drop (i + 1)).length := by
          rw [List.length_drop]
          omega
        rw [isValidUtf8_lead hlow hlead (by rw [List.length_drop]; omega) hrest,
          List.drop_drop, List.drop_drop, List.getElem_drop]
        refine .bind (within_outside hi') ?_
        simp only [Nat.add_zero]
        cases (decide (firstLo ≤ bytes[i + 1]) && decide (bytes[i + 1] ≤ firstHi)) with
        | false => exact .pure false
        | true =>
          refine .bind (within_anyOutside (by omega)) ?_
          cases ((bytes.drop (i + 2)).take (length - 2)).all isContinuation with
          | false => exact .pure false
          | true =>
            have hnext : i + 1 + (length - 1) = i + length := by omega
            rw [hnext]
            exact ih _ (by omega) (i + length) rfl
    · rw [List.drop_eq_nil_of_le (Nat.le_of_not_lt hi)]
      exact .pure true

theorem within_continueCode {n : ℕ} : ∀ {k code : ℕ}, k + n ≤ bytes.length →
    Within bytes (continueCode bytes n k code)
      (HostCheck.continueCode code ((bytes.drop k).take n)) := by
  induction n with
  | zero => exact fun _ => (Within.pure _).congr (by simp)
  | succ n ih =>
    intro k code hk
    have hk' : k < bytes.length := by omega
    have hdrop : bytes.drop k = bytes[k] :: bytes.drop (k + 1) := List.drop_eq_getElem_cons hk'
    rw [hdrop, List.take_succ_cons, HostCheck.continueCode]
    refine .bind (.get hk') ?_
    split_ifs with htail
    · exact .pure none
    · exact .bind (.get hk') (ih (by omega))

theorem leadRow_length {lead : UInt8} {length min code : ℕ}
    (h : leadRow lead = some (length, min, code)) : 0 < length := by
  rcases leadRow_eq_some.mp h with h | h | h <;> omega

/-- The function gives what it gives of the rest, from any byte of the string. -/
theorem within_utf8SequenceLength {i : ℕ} (hi : i < bytes.length) :
    Within bytes (utf8SequenceLength bytes i) (HostCheck.utf8SequenceLength (bytes.drop i)) := by
  have hdrop : bytes.drop i = bytes[i] :: bytes.drop (i + 1) := List.drop_eq_getElem_cons hi
  refine .bind (.get hi) ?_
  rw [hdrop, HostCheck.utf8SequenceLength]
  cases hrow : leadRow bytes[i] with
  | none => exact .pure 0
  | some row =>
    obtain ⟨length, min, code⟩ := row
    have hlength := leadRow_length hrow
    have hrest : (bytes.drop (i + 1)).length + 1 = bytes.length - i := by
      rw [List.length_drop]
      omega
    dsimp only
    by_cases hshort : bytes.length < i + length
    · rw [if_pos hshort, if_pos (by omega)]
      exact .pure 0
    rw [if_neg hshort, if_neg (by omega)]
    refine .bind (within_continueCode (by omega)) ?_
    cases HostCheck.continueCode code ((bytes.drop (i + 1)).take (length - 1)) with
    | none => exact .pure 0
    | some code =>
      dsimp only
      split_ifs
      · exact .pure 0
      · exact .pure length

/-- The one check goes on after the character that the other finds. -/
theorem isValidUtf8_utf8SequenceLength {lead : UInt8} {rest : Bytes} (hlow : ¬lead < 0x80) :
    Config.isValidUtf8 (lead :: rest) =
      match HostCheck.utf8SequenceLength (lead :: rest) with
      | 0 => false
      | n + 1 => Config.isValidUtf8 ((lead :: rest).drop (n + 1)) := by
  cases hlength : HostCheck.utf8SequenceLength (lead :: rest) with
  | zero =>
    rw [← Bool.not_eq_true]
    intro hvalid
    obtain ⟨s, r, hs, htext, -⟩ := exists_sequence_of_isValidUtf8 hvalid (List.cons_ne_nil _ _)
    have hone : s.length ≠ 1 := by
      intro hone
      obtain ⟨a, rfl⟩ := List.length_eq_one_iff.mp hone
      obtain ⟨rfl, -⟩ := List.cons.inj htext
      cases hs with
      | one ha => exact hlow (UInt8.lt_iff_toNat_lt.mpr ha)
    rw [htext, utf8SequenceLength_append hs hone] at hlength
    exact hs.ne_nil (List.length_eq_zero_iff.mp hlength)
  | succ n =>
    have hne : HostCheck.utf8SequenceLength (lead :: rest) ≠ 0 := by omega
    obtain ⟨s, r, hs, htext, hone⟩ := exists_sequence_of_utf8SequenceLength hne
    rw [htext, utf8SequenceLength_append hs hone] at hlength
    dsimp only
    rw [htext, isValidUtf8_append hs, ← hlength, List.drop_left]

/-- Stepping gets to the end of what the other check accepts. -/
theorem within_stepsFrom : ∀ i, Within bytes (stepsFrom bytes i)
    (Config.isValidUtf8 (bytes.drop i)) := by
  intro i
  induction hn : bytes.length - i using Nat.strong_induction_on generalizing i with
  | _ n ih =>
    rw [stepsFrom]
    split_ifs with hi
    · have hdrop : bytes.drop i = bytes[i] :: bytes.drop (i + 1) := List.drop_eq_getElem_cons hi
      refine .bind (.get hi) ?_
      by_cases hlow : bytes[i] < 0x80
      · rw [if_pos hlow, hdrop, isValidUtf8_cons, if_pos hlow]
        exact ih _ (by omega) (i + 1) rfl
      rw [if_neg hlow]
      refine .bind (within_utf8SequenceLength hi) ?_
      have hagree : Config.isValidUtf8 (bytes.drop i) =
          match HostCheck.utf8SequenceLength (bytes.drop i) with
          | 0 => false
          | n + 1 => Config.isValidUtf8 ((bytes.drop i).drop (n + 1)) := by
        rw [hdrop]
        exact isValidUtf8_utf8SequenceLength hlow
      rw [hagree]
      cases HostCheck.utf8SequenceLength (bytes.drop i) with
      | zero => exact .pure false
      | succ n =>
        dsimp only
        rw [List.drop_drop]
        exact ih _ (by omega) (i + (n + 1)) rfl
    · rw [List.drop_eq_nil_of_le (Nat.le_of_not_lt hi)]
      exact .pure true

end Within

/-! ## Agreement -/

/-- Either recogniser accepts the string exactly if it is well formed, and reads no byte past
its end. -/
structure RecognisesUtf8 (bytes : Bytes) : Prop where
  isValidUtf8_iff : (isValidUtf8 bytes ()).value = true ↔ WellFormed bytes
  stepsFrom_iff : (stepsFrom bytes 0 ()).value = true ↔ WellFormed bytes
  isValidUtf8_reads : ∀ i ∈ (isValidUtf8 bytes ()).events, i < bytes.length
  utf8SequenceLength_reads : ∀ i < bytes.length,
    ∀ k ∈ (utf8SequenceLength bytes i ()).events, k < bytes.length
  stepsFrom_reads : ∀ i ∈ (stepsFrom bytes 0 ()).events, i < bytes.length

/-- Both recognisers accept exactly the encodings of Unicode scalar values, and read within the
string. -/
theorem recognisers_agree (bytes : Bytes) : RecognisesUtf8 bytes := by
  have hvalid : Reading.Within bytes (isValidUtf8From bytes 0) _ := within_isValidUtf8From 0
  have hsteps : Reading.Within bytes (stepsFrom bytes 0) _ := within_stepsFrom 0
  rw [List.drop_zero] at hvalid hsteps
  constructor
  · rw [isValidUtf8, hvalid.value]
    exact Config.isValidUtf8_iff
  · rw [hsteps.value]
    exact Config.isValidUtf8_iff
  · exact hvalid.lt_length
  · exact fun i hi => (within_utf8SequenceLength hi).lt_length
  · exact hsteps.lt_length

end ProviderSdk.ByIndex

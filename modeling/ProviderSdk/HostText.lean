import ProviderSdk.EscapedText

/-!
# Text from the host

`utf8_sequence_length` and `json_string` of `src/anolis/provider_sdk/host_check.cpp`. Details
and remedies are whatever the host says, so a byte that is part of no character is written
as U+FFFD.

The code finds the characters that are there, and no others (`utf8SequenceLength_append`,
`exists_sequence_of_utf8SequenceLength`). So what is written of any string is a JSON string,
of its bytes repaired (`exists_repaired`).
-/

namespace ProviderSdk.HostCheck

open JsonText Utf8

/-! ## Characters -/

/-- The length, the least code point and the bits of the code point of a lead byte. -/
def leadRow (lead : UInt8) : Option (ℕ × ℕ × ℕ) :=
  if 0xC2 ≤ lead && lead ≤ 0xDF then some (2, 0x80, (lead &&& 0x1F).toNat)
  else if 0xE0 ≤ lead && lead ≤ 0xEF then some (3, 0x800, (lead &&& 0x0F).toNat)
  else if 0xF0 ≤ lead && lead ≤ 0xF4 then some (4, 0x10000, (lead &&& 0x07).toNat)
  else none

/-- The code point with the bits of the bytes after the lead, if these continue it. -/
def continueCode : ℕ → Bytes → Option ℕ
  | code, [] => some code
  | code, b :: bs =>
    if b &&& 0xC0 ≠ 0x80 then none
    else continueCode (code <<< 6 ||| (b &&& 0x3F).toNat) bs

/-- The length of the character at the front of a text, or 0. -/
def utf8SequenceLength : Bytes → ℕ
  | [] => 0
  | lead :: rest =>
    match leadRow lead with
    | none => 0
    | some (length, min, code) =>
      if rest.length + 1 < length then 0
      else
        match continueCode code (rest.take (length - 1)) with
        | none => 0
        | some code =>
          if code < min ∨ 0x10FFFF < code ∨ (0xD800 ≤ code ∧ code ≤ 0xDFFF) then 0 else length

/-! ## The writer -/

/-- What is written for a byte below 128. -/
def jsonAscii (c : UInt8) : Bytes :=
  if c = 0x22 then lit "\\\""
  else if c = 0x5C then lit "\\\\"
  else if c = 0x0A then lit "\\n"
  else if c = 0x0D then lit "\\r"
  else if c = 0x09 then lit "\\t"
  else if c < 0x20 then lit "\\u" ++ hexPadded 4 c.toNat
  else [c]

/-- The loop over the text, between the quotes. -/
def jsonChars : Bytes → Bytes
  | [] => []
  | c :: rest =>
    if c < 0x80 then jsonAscii c ++ jsonChars rest
    else
      match utf8SequenceLength (c :: rest) with
      | 0 => lit "\\ufffd" ++ jsonChars rest
      | n + 1 => (c :: rest).take (n + 1) ++ jsonChars (rest.drop n)
termination_by text => text.length

def jsonString (text : Bytes) : Bytes :=
  0x22 :: (jsonChars text ++ [0x22])

/-! ### What the bits are -/

theorem toNat_and_3F (b : UInt8) : (b &&& 0x3F).toNat = b.toNat % 64 := by
  rw [UInt8.toNat_and]
  exact Nat.and_two_pow_sub_one_eq_mod b.toNat 6

@[simp] theorem continueCode_nil (code : ℕ) : continueCode code [] = some code :=
  rfl

/-- A byte that continues a code point adds six bits. -/
theorem continueCode_cons (code : ℕ) (b : UInt8) (bs : Bytes) : continueCode code (b :: bs) =
    if 0x80 ≤ b.toNat ∧ b.toNat ≤ 0xBF then continueCode (code * 64 + (b.toNat - 0x80)) bs
    else none := by
  rw [continueCode]
  by_cases hb : 0x80 ≤ b.toNat ∧ b.toNat ≤ 0xBF
  · have hcode : code <<< 6 ||| (b &&& 0x3F).toNat = code * 64 + (b.toNat - 0x80) := by
      rw [toNat_and_3F, ← Nat.shiftLeft_add_eq_or_of_lt (by omega), Nat.shiftLeft_eq]
      omega
    rw [if_neg (not_not.mpr (and_C0_eq_iff.mpr hb)), if_pos hb, hcode]
  · rw [if_pos (fun h => hb (and_C0_eq_iff.mp h)), if_neg hb]

theorem leadRow_eq_some {lead : UInt8} {length min code : ℕ} :
    leadRow lead = some (length, min, code) ↔
      (length = 2 ∧ min = 0x80 ∧ 0xC2 ≤ lead.toNat ∧ lead.toNat ≤ 0xDF ∧
          code = lead.toNat - 0xC0) ∨
        (length = 3 ∧ min = 0x800 ∧ 0xE0 ≤ lead.toNat ∧ lead.toNat ≤ 0xEF ∧
          code = lead.toNat - 0xE0) ∨
        (length = 4 ∧ min = 0x10000 ∧ 0xF0 ≤ lead.toNat ∧ lead.toNat ≤ 0xF4 ∧
          code = lead.toNat - 0xF0) := by
  have h1F : (lead &&& 0x1F).toNat = lead.toNat % 32 := by
    rw [UInt8.toNat_and]
    exact Nat.and_two_pow_sub_one_eq_mod lead.toNat 5
  have h0F : (lead &&& 0x0F).toNat = lead.toNat % 16 := by
    rw [UInt8.toNat_and]
    exact Nat.and_two_pow_sub_one_eq_mod lead.toNat 4
  have h07 : (lead &&& 0x07).toNat = lead.toNat % 8 := by
    rw [UInt8.toNat_and]
    exact Nat.and_two_pow_sub_one_eq_mod lead.toNat 3
  unfold leadRow
  simp only [h1F, h0F, h07, Bool.and_eq_true, decide_eq_true_eq, UInt8.le_iff_toNat_le,
    UInt8.reduceToNat]
  split_ifs
  · simp only [Option.some.injEq, Prod.mk.injEq]
    omega
  · simp only [Option.some.injEq, Prod.mk.injEq]
    omega
  · simp only [Option.some.injEq, Prod.mk.injEq]
    omega
  · simp only [false_iff]
    omega

/-! ### The code finds the characters -/

/-- A code point in range, whose bytes are there. -/
theorem utf8SequenceLength_cons {lead : UInt8} {rest : Bytes} {length min code code' : ℕ}
    (hrow : leadRow lead = some (length, min, code)) (hlength : length ≤ rest.length + 1)
    (hcode : continueCode code (rest.take (length - 1)) = some code')
    (hrange : min ≤ code' ∧ code' ≤ 0x10FFFF ∧ (code' < 0xD800 ∨ 0xDFFF < code')) :
    utf8SequenceLength (lead :: rest) = length := by
  simp only [utf8SequenceLength, hrow]
  rw [if_neg (by omega)]
  simp only [hcode]
  rw [if_neg (by omega)]

/-- A character of several bytes at the front is found. -/
theorem utf8SequenceLength_append {s : Bytes} (hs : Sequence s) (hlength : s.length ≠ 1)
    (r : Bytes) : utf8SequenceLength (s ++ r) = s.length := by
  cases hs with
  | one ha => exact absurd rfl hlength
  | @two a b ha hb =>
    refine utf8SequenceLength_cons (leadRow_eq_some.mpr (.inl ⟨rfl, rfl, ha.1, ha.2, rfl⟩))
      (by simp) ((continueCode_cons _ b _).trans (if_pos hb)) ?_
    obtain ⟨hb, hb'⟩ := hb
    omega
  | @three a b c ha hb hlow hhigh hc =>
    refine utf8SequenceLength_cons
      (leadRow_eq_some.mpr (.inr (.inl ⟨rfl, rfl, ha.1, ha.2, rfl⟩))) (by simp)
      ((continueCode_cons _ b _).trans ((if_pos hb).trans
        ((continueCode_cons _ c _).trans (if_pos hc)))) ?_
    obtain ⟨hb, hb'⟩ := hb
    obtain ⟨hc, hc'⟩ := hc
    omega
  | @four a b c d ha hb hlow hhigh hc hd =>
    refine utf8SequenceLength_cons
      (leadRow_eq_some.mpr (.inr (.inr ⟨rfl, rfl, ha.1, ha.2, rfl⟩))) (by simp)
      ((continueCode_cons _ b _).trans ((if_pos hb).trans
        ((continueCode_cons _ c _).trans ((if_pos hc).trans
          ((continueCode_cons _ d _).trans (if_pos hd)))))) ?_
    obtain ⟨hb, hb'⟩ := hb
    obtain ⟨hc, hc'⟩ := hc
    obtain ⟨hd, hd'⟩ := hd
    omega

/-- A byte that continues a code point, of the first one there is. -/
theorem exists_of_continueCode {code code' n : ℕ} {rest : Bytes}
    (h : continueCode code (rest.take (n + 1)) = some code') (hlength : n + 1 ≤ rest.length) :
    ∃ b bs, rest = b :: bs ∧ n ≤ bs.length ∧ IsTail b ∧
      continueCode (code * 64 + (b.toNat - 0x80)) (bs.take n) = some code' := by
  obtain _ | ⟨b, bs⟩ := rest
  · cases hlength
  · rw [List.take_succ_cons, continueCode_cons] at h
    by_cases hb : 0x80 ≤ b.toNat ∧ b.toNat ≤ 0xBF
    · rw [if_pos hb] at h
      exact ⟨b, bs, rfl, by simpa using hlength, hb, h⟩
    · rw [if_neg hb] at h
      cases h

/-- What is found is a character. -/
theorem exists_sequence_of_utf8SequenceLength {bs : Bytes} (h : utf8SequenceLength bs ≠ 0) :
    ∃ s r, Sequence s ∧ bs = s ++ r ∧ s.length ≠ 1 := by
  obtain _ | ⟨lead, rest⟩ := bs
  · exact absurd rfl h
  cases hrow : leadRow lead with
  | none => simp [utf8SequenceLength, hrow] at h
  | some row =>
    obtain ⟨length, min, code⟩ := row
    simp only [utf8SequenceLength, hrow] at h
    by_cases hlength : rest.length + 1 < length
    · exact absurd (if_pos hlength) h
    rw [if_neg hlength] at h
    cases hcode : continueCode code (rest.take (length - 1)) with
    | none => simp [hcode] at h
    | some code' =>
      simp only [hcode] at h
      by_cases hrange : code' < min ∨ 0x10FFFF < code' ∨ (0xD800 ≤ code' ∧ code' ≤ 0xDFFF)
      · exact absurd (if_pos hrange) h
      rcases leadRow_eq_some.mp hrow with h | h | h
      · obtain ⟨hl, hm, hlo, hhi, hcode'⟩ := h
        rw [hl] at hcode hlength
        obtain ⟨b, r, rfl, -, hb, hcode⟩ := exists_of_continueCode hcode (by omega)
        exact ⟨[lead, b], r, .two ⟨hlo, hhi⟩ hb, rfl, by simp⟩
      · obtain ⟨hl, hm, hlo, hhi, hcode'⟩ := h
        rw [hl] at hcode hlength
        obtain ⟨b, r, rfl, hlength, hb, hcode⟩ := exists_of_continueCode hcode (by omega)
        obtain ⟨c, r, rfl, -, hc, hcode⟩ := exists_of_continueCode hcode (by omega)
        have hb' := hb
        have hc' := hc
        unfold IsTail at hb' hc'
        rw [List.take_zero, continueCode_nil, Option.some.injEq] at hcode
        exact ⟨[lead, b, c], r, .three ⟨hlo, hhi⟩ hb (by omega) (by omega) hc, rfl, by simp⟩
      · obtain ⟨hl, hm, hlo, hhi, hcode'⟩ := h
        rw [hl] at hcode hlength
        obtain ⟨b, r, rfl, hlength, hb, hcode⟩ := exists_of_continueCode hcode (by omega)
        obtain ⟨c, r, rfl, hlength', hc, hcode⟩ := exists_of_continueCode hcode (by omega)
        obtain ⟨d, r, rfl, -, hd, hcode⟩ := exists_of_continueCode hcode (by omega)
        have hb' := hb
        have hc' := hc
        have hd' := hd
        unfold IsTail at hb' hc' hd'
        rw [List.take_zero, continueCode_nil, Option.some.injEq] at hcode
        exact ⟨[lead, b, c, d], r, .four ⟨hlo, hhi⟩ hb (by omega) (by omega) hc hd, rfl, by simp⟩

/-! ## What is written -/

/-- Part of a line of text : UTF-8, with no control character. -/
structure Line (t : Bytes) : Prop where
  wellFormed : WellFormed t
  printable : ∀ b ∈ t, 0x20 ≤ b.toNat

namespace Line

theorem nil : Line [] :=
  ⟨wellFormed_nil, by simp⟩

theorem append {t t' : Bytes} (h : Line t) (h' : Line t') : Line (t ++ t') := by
  refine ⟨h.wellFormed.append h'.wellFormed, fun b hb => ?_⟩
  obtain hb | hb := List.mem_append.mp hb
  · exact h.printable b hb
  · exact h'.printable b hb

theorem ascii {t : Bytes} (h : ∀ b ∈ t, 0x20 ≤ b.toNat ∧ b.toNat < 0x80) : Line t :=
  ⟨wellFormed_ascii fun b hb => (h b hb).2, fun b hb => (h b hb).1⟩

theorem of_all {t : Bytes}
    (h : (t.all fun b => decide (0x20 ≤ b.toNat ∧ b.toNat < 0x80)) = true) : Line t :=
  ascii (Pattern.forall_mem_of_all h)

end Line

/-- Part of a JSON string, for its characters. -/
structure Written (t s : Bytes) : Prop where
  chars : Chars t s
  line : Line t

namespace Written

theorem nil : Written [] [] :=
  ⟨.nil, .nil⟩

theorem append {t t' s s' : Bytes} (h : Written t s) (h' : Written t' s') :
    Written (t ++ t') (s ++ s') :=
  ⟨h.chars.append h'.chars, h.line.append h'.line⟩

/-- A character of several bytes is written as it is. -/
theorem sequence {s : Bytes} (hs : Sequence s) (hlength : s.length ≠ 1) : Written s s := by
  obtain ⟨a, rfl, -⟩ | hhigh := hs.one_or
  · exact absurd rfl hlength
  · exact ⟨.high hhigh, hs.wellFormed, fun b hb => (by decide : 0x20 ≤ 0x80).trans (hhigh b hb)⟩

theorem replaced : Written (lit "\\ufffd") replacement := by
  refine ⟨?_, .of_all (by decide)⟩
  exact Chars.unicode (x := Char.ofNat 0xFFFD) (by decide +kernel) .nil

end Written

theorem jsonAscii_bytes : ∀ n : Fin 128, ∀ b ∈ jsonAscii (UInt8.ofNat n.val),
    0x20 ≤ b.toNat ∧ b.toNat < 0x80 := by
  decide +kernel

theorem written_jsonAscii {c : UInt8} (hc : c.toNat < 0x80) : Written (jsonAscii c) [c] := by
  have hbytes : ∀ b ∈ jsonAscii c, 0x20 ≤ b.toNat ∧ b.toNat < 0x80 := by
    simpa using jsonAscii_bytes ⟨c.toNat, hc⟩
  refine ⟨?_, .ascii hbytes⟩
  unfold jsonAscii
  split_ifs with h1 h2 h3 h4 h5 h6
  · subst h1
    exact .escape (by decide) .nil
  · subst h2
    exact .escape (by decide) .nil
  · subst h3
    exact .escape (by decide) .nil
  · subst h4
    exact .escape (by decide) .nil
  · subst h5
    exact .escape (by decide) .nil
  · exact chars_hexPadded (UInt8.lt_iff_toNat_lt.mp h6)
  · refine .plain ⟨?_, h1, h2⟩ .nil
    simpa [UInt8.lt_iff_toNat_lt] using h6

/-- Any text is written as a JSON string, of the text repaired. -/
theorem exists_repaired (text : Bytes) :
    ∃ s, Repaired text s ∧ Written (jsonChars text) s := by
  induction text using jsonChars.induct with
  | case1 =>
    rw [jsonChars]
    exact ⟨[], .nil, .nil⟩
  | case2 c rest hc ih =>
    obtain ⟨s, hs, hwritten⟩ := ih
    have hc' : c.toNat < 0x80 := UInt8.lt_iff_toNat_lt.mp hc
    rw [jsonChars, if_pos hc]
    exact ⟨[c] ++ s, .char (.one hc') hs, (written_jsonAscii hc').append hwritten⟩
  | case3 c rest hc hlength ih =>
    obtain ⟨s, hs, hwritten⟩ := ih
    rw [jsonChars, if_neg hc, hlength]
    refine ⟨replacement ++ s, .byte (fun t r ht htext => ?_) hs, Written.replaced.append hwritten⟩
    have hone : t.length ≠ 1 := by
      intro hone
      obtain ⟨a, rfl⟩ := List.length_eq_one_iff.mp hone
      obtain ⟨rfl, -⟩ := List.cons.inj htext
      cases ht with
      | one ha => exact hc (UInt8.lt_iff_toNat_lt.mpr ha)
    rw [← htext, utf8SequenceLength_append ht hone] at hlength
    exact ht.ne_nil (List.length_eq_zero_iff.mp hlength)
  | case4 c rest hc n hlength ih =>
    obtain ⟨s, hs, hwritten⟩ := ih
    rw [jsonChars, if_neg hc, hlength]
    have hne : utf8SequenceLength (c :: rest) ≠ 0 := by omega
    obtain ⟨t, r, ht, htext, hone⟩ := exists_sequence_of_utf8SequenceLength hne
    rw [htext, utf8SequenceLength_append ht hone, Nat.succ_eq_add_one] at hlength
    have htake : (c :: rest).take (n + 1) = t := by
      rw [htext, ← hlength, List.take_left]
    have hdrop : rest.drop n = r := by
      have hrest := congrArg (List.drop (n + 1)) htext
      rwa [← hlength, List.drop_left, hlength, List.drop_succ_cons] at hrest
    rw [hdrop] at hs hwritten
    dsimp only
    rw [htake, hdrop, htext]
    exact ⟨t ++ s, .char ht hs, (Written.sequence ht hone).append hwritten⟩

/-- The text of a JSON string, whatever the bytes. -/
theorem derive_jsonString (text : Bytes) :
    ∃ s, Repaired text s ∧ Derive (jsonString text) (.value (.string s)) := by
  obtain ⟨s, hs, hwritten⟩ := exists_repaired text
  exact ⟨s, hs, .string hwritten.chars⟩

theorem line_jsonString (text : Bytes) : Line (jsonString text) := by
  obtain ⟨s, -, hwritten⟩ := exists_repaired text
  have hquote : Line [0x22] := .of_all (by decide)
  exact hquote.append (hwritten.line.append hquote)

end ProviderSdk.HostCheck

import ProviderSdk.Lib.Text

/-!
# UTF-8

A byte string is well formed if it is the encoding of some characters (`WellFormed`). A
character is a Unicode scalar value, so there are no surrogates, nothing above U+10FFFF
and no overlong forms.

`Sequence` is the byte ranges of one encoded character. They are right : each is the encoding
of a character (`Sequence.exists_char`), and every encoding is one (`sequence_utf8EncodeChar`).
`Repaired` replaces each byte that no character covers by U+FFFD, from left to right.
-/

namespace Utf8

/-- The bytes are the encoding of some characters. -/
def WellFormed (bs : List UInt8) : Prop :=
  ∃ cs : List Char, cs.flatMap String.utf8EncodeChar = bs

/-- A byte after the first of a character. -/
def IsTail (b : UInt8) : Prop :=
  0x80 ≤ b.toNat ∧ b.toNat ≤ 0xBF

/-- The bytes of one character. -/
inductive Sequence : List UInt8 → Prop
  | one {a : UInt8} (ha : a.toNat < 0x80) : Sequence [a]
  | two {a b : UInt8} (ha : 0xC2 ≤ a.toNat ∧ a.toNat ≤ 0xDF) (hb : IsTail b) : Sequence [a, b]
  | three {a b c : UInt8} (ha : 0xE0 ≤ a.toNat ∧ a.toNat ≤ 0xEF) (hb : IsTail b)
      (hlow : a.toNat = 0xE0 → 0xA0 ≤ b.toNat) (hhigh : a.toNat = 0xED → b.toNat ≤ 0x9F)
      (hc : IsTail c) : Sequence [a, b, c]
  | four {a b c d : UInt8} (ha : 0xF0 ≤ a.toNat ∧ a.toNat ≤ 0xF4) (hb : IsTail b)
      (hlow : a.toNat = 0xF0 → 0x90 ≤ b.toNat) (hhigh : a.toNat = 0xF4 → b.toNat ≤ 0x8F)
      (hc : IsTail c) (hd : IsTail d) : Sequence [a, b, c, d]

/-! ## Sequences are encodings -/

/-- The scalar value of a number. -/
theorem exists_char {n : ℕ} (h : n < 0xD800 ∨ 0xE000 ≤ n ∧ n < 0x110000) :
    ∃ c : Char, c.val.toNat = n := by
  have hn : (UInt32.ofNat n).toNat = n := by
    rw [UInt32.toNat_ofNat']
    omega
  refine ⟨⟨UInt32.ofNat n, ?_⟩, hn⟩
  rw [UInt32.isValidChar, hn]
  unfold Nat.isValidChar
  omega

theorem toNat_val_char (c : Char) :
    c.val.toNat < 0xD800 ∨ 0xE000 ≤ c.val.toNat ∧ c.val.toNat < 0x110000 := by
  have hc := c.valid
  simp only [UInt32.isValidChar, Nat.isValidChar] at hc
  omega

/-- Bytes are equal if they are the same number. -/
theorem ofNat_eq {n : ℕ} {b : UInt8} (h : n = b.toNat) : UInt8.ofNat n = b := by
  rw [h, UInt8.ofNat_toNat]

theorem Sequence.exists_char {bs : List UInt8} (h : Sequence bs) :
    ∃ c : Char, String.utf8EncodeChar c = bs := by
  cases h with
  | @one a ha =>
    obtain ⟨c, hc⟩ := Utf8.exists_char (n := a.toNat) (by omega)
    refine ⟨c, ?_⟩
    unfold String.utf8EncodeChar
    rw [hc, if_pos (by omega), ofNat_eq rfl]
  | @two a b ha hb =>
    obtain ⟨hb, hb'⟩ := hb
    obtain ⟨c, hc⟩ := Utf8.exists_char (n := (a.toNat - 0xC0) * 64 + (b.toNat - 0x80)) (by omega)
    refine ⟨c, ?_⟩
    unfold String.utf8EncodeChar
    rw [hc, if_neg (by omega), if_pos (by omega), ofNat_eq (b := a) (by omega),
      ofNat_eq (b := b) (by omega)]
  | @three a b c ha hb hlow hhigh hc =>
    obtain ⟨hb, hb'⟩ := hb
    obtain ⟨hc, hc'⟩ := hc
    obtain ⟨x, hx⟩ := Utf8.exists_char
      (n := (a.toNat - 0xE0) * 4096 + (b.toNat - 0x80) * 64 + (c.toNat - 0x80)) (by omega)
    refine ⟨x, ?_⟩
    unfold String.utf8EncodeChar
    rw [hx, if_neg (by omega), if_neg (by omega), if_pos (by omega), ofNat_eq (b := a) (by omega),
      ofNat_eq (b := b) (by omega), ofNat_eq (b := c) (by omega)]
  | @four a b c d ha hb hlow hhigh hc hd =>
    obtain ⟨hb, hb'⟩ := hb
    obtain ⟨hc, hc'⟩ := hc
    obtain ⟨hd, hd'⟩ := hd
    obtain ⟨x, hx⟩ := Utf8.exists_char
      (n := (a.toNat - 0xF0) * 262144 + (b.toNat - 0x80) * 4096 + (c.toNat - 0x80) * 64 +
        (d.toNat - 0x80)) (by omega)
    refine ⟨x, ?_⟩
    unfold String.utf8EncodeChar
    rw [hx, if_neg (by omega), if_neg (by omega), if_neg (by omega), ofNat_eq (b := a) (by omega),
      ofNat_eq (b := b) (by omega), ofNat_eq (b := c) (by omega), ofNat_eq (b := d) (by omega)]

/-- Every character is encoded as a sequence. -/
theorem sequence_utf8EncodeChar (c : Char) : Sequence (String.utf8EncodeChar c) := by
  have hc := toNat_val_char c
  unfold String.utf8EncodeChar
  generalize c.val.toNat = v at hc
  dsimp only
  split_ifs with h1 h2 h3
  · refine .one ?_
    rw [UInt8.toNat_ofNat']
    omega
  · refine .two ?_ ?_ <;> simp only [IsTail, UInt8.toNat_ofNat'] <;> omega
  · refine .three ?_ ?_ ?_ ?_ ?_ <;> simp only [IsTail, UInt8.toNat_ofNat'] <;> omega
  · refine .four ?_ ?_ ?_ ?_ ?_ ?_ <;> simp only [IsTail, UInt8.toNat_ofNat'] <;> omega

/-! ## Well-formed strings -/

theorem wellFormed_nil : WellFormed [] :=
  ⟨[], rfl⟩

theorem WellFormed.append {as bs : List UInt8} (ha : WellFormed as) (hb : WellFormed bs) :
    WellFormed (as ++ bs) := by
  obtain ⟨cs, rfl⟩ := ha
  obtain ⟨ds, rfl⟩ := hb
  exact ⟨cs ++ ds, List.flatMap_append⟩

theorem Sequence.wellFormed {s : List UInt8} (h : Sequence s) : WellFormed s := by
  obtain ⟨c, rfl⟩ := h.exists_char
  exact ⟨[c], by simp⟩

/-- A byte below 128 is a character. -/
theorem wellFormed_cons {b : UInt8} {bs : List UInt8} (hb : b.toNat < 0x80) (h : WellFormed bs) :
    WellFormed (b :: bs) :=
  (Sequence.one hb).wellFormed.append h

theorem wellFormed_ascii {bs : List UInt8} (h : ∀ b ∈ bs, b.toNat < 0x80) : WellFormed bs := by
  induction bs with
  | nil => exact wellFormed_nil
  | cons b bs ih =>
    exact wellFormed_cons (h b List.mem_cons_self) (ih fun c hc => h c (List.mem_cons_of_mem b hc))

/-- Induction on the characters of a string. -/
theorem WellFormed.rec_sequence {P : List UInt8 → Prop} (hnil : P [])
    (hcons : ∀ s bs, Sequence s → WellFormed bs → P bs → P (s ++ bs)) :
    ∀ {bs : List UInt8}, WellFormed bs → P bs := by
  rintro bs ⟨cs, rfl⟩
  induction cs with
  | nil => exact hnil
  | cons c cs ih => exact hcons _ _ (sequence_utf8EncodeChar c) ⟨cs, rfl⟩ ih

theorem Sequence.ne_nil {s : List UInt8} (h : Sequence s) : s ≠ [] := by
  cases h <;> simp

/-- A character of several bytes has none below 128. -/
theorem Sequence.one_or {s : List UInt8} (h : Sequence s) :
    (∃ a, s = [a] ∧ a.toNat < 0x80) ∨ ∀ b ∈ s, 0x80 ≤ b.toNat := by
  cases h with
  | @one a ha => exact .inl ⟨a, rfl, ha⟩
  | two ha hb =>
    obtain ⟨hb, -⟩ := hb
    refine .inr ?_
    simp only [List.mem_cons, List.not_mem_nil, or_false]
    rintro x (rfl | rfl) <;> omega
  | three ha hb hlow hhigh hc =>
    obtain ⟨hb, -⟩ := hb
    obtain ⟨hc, -⟩ := hc
    refine .inr ?_
    simp only [List.mem_cons, List.not_mem_nil, or_false]
    rintro x (rfl | rfl | rfl) <;> omega
  | four ha hb hlow hhigh hc hd =>
    obtain ⟨hb, -⟩ := hb
    obtain ⟨hc, -⟩ := hc
    obtain ⟨hd, -⟩ := hd
    refine .inr ?_
    simp only [List.mem_cons, List.not_mem_nil, or_false]
    rintro x (rfl | rfl | rfl | rfl) <;> omega

/-- Replacing characters below 128 by others leaves a string well formed. -/
theorem WellFormed.flatMap {f : UInt8 → List UInt8}
    (hlow : ∀ b, b.toNat < 0x80 → ∀ c ∈ f b, c.toNat < 0x80)
    (hhigh : ∀ b, 0x80 ≤ b.toNat → f b = [b]) :
    ∀ {bs : List UInt8}, WellFormed bs → WellFormed (bs.flatMap f) := by
  refine WellFormed.rec_sequence (P := fun bs => WellFormed (bs.flatMap f)) wellFormed_nil ?_
  intro s bs hs _ ih
  rw [List.flatMap_append]
  refine WellFormed.append ?_ ih
  rcases hs.one_or with ⟨a, rfl, ha⟩ | hhigh'
  · rw [List.flatMap_singleton]
    exact wellFormed_ascii (hlow a ha)
  · have hself : s.flatMap f = s := by
      have hmap : s.flatMap f = s.flatMap fun b => [b] :=
        List.flatMap_congr fun b hb => hhigh b (hhigh' b hb)
      rw [hmap, List.flatMap_singleton']
    rw [hself]
    exact hs.wellFormed

/-- No character starts another. -/
theorem Sequence.eq_of_append {s t r q : List UInt8} (hs : Sequence s) (ht : Sequence t)
    (h : s ++ r = t ++ q) : s = t ∧ r = q := by
  have hlen : s.length = t.length := by
    have hhead : s.head? = t.head? := by
      have := congrArg List.head? h
      rwa [List.head?_append_of_ne_nil _ hs.ne_nil, List.head?_append_of_ne_nil _ ht.ne_nil] at this
    cases hs <;> cases ht <;> simp only [List.head?_cons, Option.some.injEq] at hhead <;>
      subst hhead <;> first | rfl | omega
  exact List.append_inj h hlen

/-- What is left after a character is well formed if the whole is. -/
theorem Sequence.wellFormed_append_iff {s bs : List UInt8} (hs : Sequence s) :
    WellFormed (s ++ bs) ↔ WellFormed bs := by
  refine ⟨?_, hs.wellFormed.append⟩
  rintro ⟨cs, hcs⟩
  obtain _ | ⟨c, cs⟩ := cs
  · exact absurd (List.append_eq_nil_iff.mp hcs.symm).1 hs.ne_nil
  · rw [List.flatMap_cons] at hcs
    obtain ⟨-, rfl⟩ := (sequence_utf8EncodeChar c).eq_of_append hs hcs
    exact ⟨cs, rfl⟩

/-! ## Boundaries -/

/-- The bits of a byte after the first. -/
theorem and_C0_eq_iff {b : UInt8} : b &&& 0xC0 = 0x80 ↔ IsTail b :=
  Text.forall_byte (P := fun b => b &&& 0xC0 = 0x80 ↔ 0x80 ≤ b.toNat ∧ b.toNat ≤ 0xBF)
    (by decide +kernel) b

/-- A character ends before the byte `i`, or the string starts there. -/
structure Boundary (bs : List UInt8) (i : ℕ) : Prop where
  before : WellFormed (bs.take i)
  after : WellFormed (bs.drop i)

theorem boundary_zero {bs : List UInt8} (h : WellFormed bs) : Boundary bs 0 :=
  ⟨wellFormed_nil, h⟩

theorem not_isTail {b : UInt8} (h : b.toNat < 0x80 ∨ 0xBF < b.toNat) : ¬IsTail b := by
  unfold IsTail
  omega

/-- The first byte of a character, and no other, is no tail. -/
theorem Sequence.exists_lead {s : List UInt8} (h : Sequence s) :
    ∃ a t, s = a :: t ∧ ¬IsTail a ∧ ∀ b ∈ t, IsTail b := by
  cases h with
  | @one a ha => exact ⟨a, [], rfl, not_isTail (by omega), by simp⟩
  | @two a b ha hb => exact ⟨a, [b], rfl, not_isTail (by omega), by simpa using hb⟩
  | @three a b c ha hb _ _ hc =>
    exact ⟨a, [b, c], rfl, not_isTail (by omega), by simpa using ⟨hb, hc⟩⟩
  | @four a b c d ha hb _ _ hc hd =>
    exact ⟨a, [b, c, d], rfl, not_isTail (by omega), by simpa using ⟨hb, hc, hd⟩⟩

/-- Part of a character is not well formed. -/
theorem Sequence.not_wellFormed_take {s : List UInt8} (hs : Sequence s) {i : ℕ} (hi : 0 < i)
    (hlt : i < s.length) : ¬WellFormed (s.take i) := by
  rintro ⟨cs, hcs⟩
  obtain _ | ⟨c, cs⟩ := cs
  · have hlen := congrArg List.length hcs
    rw [List.length_take, List.flatMap_nil, List.length_nil] at hlen
    omega
  · rw [List.flatMap_cons] at hcs
    have hwhole : String.utf8EncodeChar c ++ (cs.flatMap String.utf8EncodeChar ++ s.drop i) =
        s ++ [] := by
      rw [← List.append_assoc, hcs, List.take_append_drop, List.append_nil]
    obtain ⟨hc, -⟩ := (sequence_utf8EncodeChar c).eq_of_append hs hwhole
    have hlen := congrArg List.length hcs
    rw [List.length_append, hc, List.length_take] at hlen
    omega

/-- Past a character, the boundaries are those of what is left. -/
theorem Sequence.boundary_append_iff {s bs : List UInt8} (hs : Sequence s) (i : ℕ) :
    Boundary (s ++ bs) (s.length + i) ↔ Boundary bs i := by
  have htake : (s ++ bs).take (s.length + i) = s ++ bs.take i := List.take_length_add_append i
  have hdrop : (s ++ bs).drop (s.length + i) = bs.drop i := List.drop_length_add_append i
  refine ⟨fun h => ⟨?_, hdrop ▸ h.after⟩, fun h => ⟨?_, hdrop ▸ h.after⟩⟩
  · exact hs.wellFormed_append_iff.mp (htake ▸ h.before)
  · exact htake ▸ hs.wellFormed.append h.before

/-- A well-formed string can be cut before each byte that is no tail. -/
theorem WellFormed.boundary_iff : ∀ {bs : List UInt8}, WellFormed bs →
    ∀ i, (hi : i < bs.length) → (Boundary bs i ↔ ¬IsTail bs[i]) := by
  refine WellFormed.rec_sequence
    (P := fun bs => ∀ i, (hi : i < bs.length) → (Boundary bs i ↔ ¬IsTail bs[i]))
    (fun i hi => absurd hi (Nat.not_lt_zero i)) fun s bs hs hbs ih i hi => ?_
  obtain ⟨a, t, rfl, ha, ht⟩ := hs.exists_lead
  obtain _ | i := i
  · exact iff_of_true (boundary_zero (hs.wellFormed.append hbs)) ha
  · by_cases hlt : i < t.length
    · -- inside the character
      have htail : IsTail (a :: t ++ bs)[i + 1] := by
        simp only [List.cons_append, List.getElem_cons_succ, List.getElem_append_left hlt]
        exact ht _ (List.getElem_mem hlt)
      refine iff_of_false (fun h => ?_) (not_not.mpr htail)
      have hbefore := h.before
      rw [List.take_append_of_le_length (by simp only [List.length_cons]; omega)] at hbefore
      exact hs.not_wellFormed_take (Nat.succ_pos i) (by simpa using hlt) hbefore
    · -- past it
      obtain ⟨j, rfl⟩ := Nat.exists_eq_add_of_le (Nat.le_of_not_lt hlt)
      have hj : j < bs.length := by
        simp only [List.length_append, List.length_cons] at hi
        omega
      have hlen : t.length + j + 1 = (a :: t).length + j := by
        simp only [List.length_cons]
        omega
      have hget : (a :: t ++ bs)[t.length + j + 1] = bs[j] := by
        simp only [List.cons_append, List.getElem_cons_succ]
        rw [List.getElem_append_right (Nat.le_add_right _ _)]
        simp only [Nat.add_sub_cancel_left]
      rw [hget, hlen, hs.boundary_append_iff, ih j hj]

/-! ## Repaired strings -/

/-- U+FFFD. -/
def replacement : List UInt8 :=
  [0xEF, 0xBF, 0xBD]

/-- Characters are kept from left to right, and a byte that starts none is replaced. -/
inductive Repaired : List UInt8 → List UInt8 → Prop
  | nil : Repaired [] []
  | char {s bs rs : List UInt8} (hs : Sequence s) (h : Repaired bs rs) :
      Repaired (s ++ bs) (s ++ rs)
  | byte {b : UInt8} {bs rs : List UInt8} (hb : ∀ s r, Sequence s → s ++ r ≠ b :: bs)
      (h : Repaired bs rs) : Repaired (b :: bs) (replacement ++ rs)

namespace Repaired

theorem wellFormed {bs rs : List UInt8} (h : Repaired bs rs) : WellFormed rs := by
  induction h with
  | nil => exact wellFormed_nil
  | char hs _ ih => exact hs.wellFormed.append ih
  | byte _ _ ih => exact WellFormed.append ⟨[Char.ofNat 0xFFFD], by decide⟩ ih

/-- There is one way to repair a string. -/
theorem unique {bs rs rs' : List UInt8} (h : Repaired bs rs) (h' : Repaired bs rs') :
    rs = rs' := by
  induction h generalizing rs' with
  | nil =>
    generalize hbs : ([] : List UInt8) = bs at h'
    cases h' with
    | nil => rfl
    | char hs _ => exact absurd (List.append_eq_nil_iff.mp hbs.symm).1 hs.ne_nil
    | byte _ _ => cases hbs
  | @char s bs rs hs _ ih =>
    generalize hbs : s ++ bs = whole at h'
    cases h' with
    | nil => exact absurd (List.append_eq_nil_iff.mp hbs).1 hs.ne_nil
    | char ht h' =>
      obtain ⟨rfl, rfl⟩ := hs.eq_of_append ht hbs
      rw [ih h']
    | byte hb _ => exact absurd hbs (hb s bs hs)
  | @byte b bs rs hb _ ih =>
    generalize hbs : b :: bs = whole at h'
    cases h' with
    | nil => cases hbs
    | char ht _ => exact absurd hbs.symm (hb _ _ ht)
    | byte _ h' =>
      obtain ⟨rfl, rfl⟩ := List.cons.inj hbs
      rw [ih h']

/-- A well-formed string stays as it is. -/
theorem of_wellFormed {bs : List UInt8} (h : WellFormed bs) : Repaired bs bs :=
  WellFormed.rec_sequence (P := fun bs => Repaired bs bs) .nil (fun _ _ hs _ ih => .char hs ih) h

theorem eq_self {bs rs : List UInt8} (h : Repaired bs rs) (hbs : WellFormed bs) : rs = bs :=
  h.unique (of_wellFormed hbs)

end Repaired

end Utf8

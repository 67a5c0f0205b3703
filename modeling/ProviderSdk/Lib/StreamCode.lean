import Mathlib.Data.List.Basic
import Mathlib.Data.List.Infix
import Mathlib.Data.List.TakeDrop

/-!
# Codes read off the front of a stream

A `StreamCode` writes each item as a nonempty block and reads one item at a time off
the front of a stream : the stream is over, starts with an item, or fails. The laws are
the two directions of one step : a written item is read back and leaves the rest
(`step_encode`), and whatever is read was written (`step_item`).

They make the code prefix-safe. A strict nonempty prefix of a block fails
(`step_torn`), so a stream of blocks reads back as its items
(`readAll_encodeAll`), a stream that reads to its end is the encoding of what it gave
(`encodeAll_of_readAll`), and a prefix of a stream gives the items whose blocks it
holds, with a failure exactly when it ends inside a block (`readAll_cut`).
-/

namespace StreamCode

variable {α β ε : Type*}

/-- Reading at the front of a stream. -/
inductive Step (α β ε : Type*) where
  /-- The stream is over. -/
  | done
  /-- The stream starts with an item. -/
  | item (a : α) (rest : List β)
  /-- The stream starts with something that is no item. -/
  | fail (e : ε)

/-- A code of the items `α` as blocks of `β`, read with failures `ε`. -/
structure Code (α β ε : Type*) where
  /-- The items the code can write. -/
  Valid : α → Prop
  encode : α → List β
  step : List β → Step α β ε
  encode_ne_nil : ∀ {a}, Valid a → encode a ≠ []
  step_nil : step [] = .done
  step_encode : ∀ {a}, Valid a → ∀ rest, step (encode a ++ rest) = .item a rest
  step_item : ∀ {s a rest}, step s = .item a rest → Valid a ∧ s = encode a ++ rest
  step_done : ∀ {s}, step s = .done → s = []

namespace Code

variable (C : Code α β ε)

/-- The blocks of a list of items, one after the other. -/
def encodeAll (l : List α) : List β :=
  l.flatMap C.encode

@[simp] theorem encodeAll_nil : C.encodeAll [] = [] :=
  rfl

@[simp] theorem encodeAll_cons (a : α) (l : List α) :
    C.encodeAll (a :: l) = C.encode a ++ C.encodeAll l :=
  rfl

theorem length_lt_of_step_item {s : List β} {a : α} {rest : List β}
    (h : C.step s = .item a rest) : rest.length < s.length := by
  obtain ⟨hv, rfl⟩ := C.step_item h
  have hpos := List.length_pos_iff.mpr (C.encode_ne_nil hv)
  rw [List.length_append]
  omega

/-- A strict nonempty prefix of a block is not an item, and not the end. -/
theorem step_torn {a : α} (ha : C.Valid a) {p q : List β} (hpq : p ++ q = C.encode a)
    (hp : p ≠ []) (hq : q ≠ []) : ∃ e, C.step p = .fail e := by
  cases hs : C.step p with
  | done => exact absurd (C.step_done hs) hp
  | fail e => exact ⟨e, rfl⟩
  | item b rest =>
    obtain ⟨hb, rfl⟩ := C.step_item hs
    have hread := C.step_encode ha []
    rw [List.append_nil, ← hpq, List.append_assoc, C.step_encode hb] at hread
    simp only [Step.item.injEq, List.append_eq_nil_iff] at hread
    exact absurd hread.2.2 hq

/-- Read items until the stream is over or a step fails. -/
def readAll (s : List β) : List α × Option ε :=
  match _h : C.step s with
  | .done => ([], none)
  | .fail e => ([], some e)
  | .item a rest => (a :: (readAll rest).1, (readAll rest).2)
termination_by s.length
decreasing_by all_goals exact C.length_lt_of_step_item _h

theorem readAll_of_done {s : List β} (h : C.step s = .done) : C.readAll s = ([], none) := by
  rw [readAll]
  split <;> simp_all

theorem readAll_of_fail {s : List β} {e : ε} (h : C.step s = .fail e) :
    C.readAll s = ([], some e) := by
  rw [readAll]
  split <;> simp_all

theorem readAll_of_item {s : List β} {a : α} {rest : List β} (h : C.step s = .item a rest) :
    C.readAll s = (a :: (C.readAll rest).1, (C.readAll rest).2) := by
  rw [readAll]
  split <;> simp_all

@[simp] theorem readAll_nil : C.readAll [] = ([], none) :=
  C.readAll_of_done C.step_nil

/-- Written items are read back, and reading goes on after them. -/
theorem readAll_encodeAll_append {l : List α} (hl : ∀ a ∈ l, C.Valid a) (t : List β) :
    C.readAll (C.encodeAll l ++ t) = (l ++ (C.readAll t).1, (C.readAll t).2) := by
  induction l with
  | nil => simp
  | cons a l ih =>
    have ha := C.step_encode (hl a (by simp)) (C.encodeAll l ++ t)
    rw [encodeAll_cons, List.append_assoc, C.readAll_of_item ha,
      ih fun b hb => hl b (by simp [hb])]
    rfl

/-- A stream of blocks reads back as its items, and then is over. -/
theorem readAll_encodeAll {l : List α} (hl : ∀ a ∈ l, C.Valid a) :
    C.readAll (C.encodeAll l) = (l, none) := by
  simpa using C.readAll_encodeAll_append hl []

/-- What `readAll` gives was written at the front of the stream. What follows is
nothing if the stream was read to its end, and otherwise starts with the failure. -/
theorem readAll_sound (s : List β) :
    (∀ a ∈ (C.readAll s).1, C.Valid a) ∧
      ∃ t, s = C.encodeAll (C.readAll s).1 ++ t ∧
        match (C.readAll s).2 with
        | none => t = []
        | some e => C.step t = .fail e := by
  cases hs : C.step s with
  | done =>
    rw [C.readAll_of_done hs]
    exact ⟨by simp, [], by simpa using C.step_done hs, rfl⟩
  | fail e =>
    rw [C.readAll_of_fail hs]
    exact ⟨by simp, s, by simp, hs⟩
  | item a rest =>
    have hlt := C.length_lt_of_step_item hs
    obtain ⟨hv, t, ht, hend⟩ := readAll_sound rest
    obtain ⟨ha, hcut⟩ := C.step_item hs
    rw [C.readAll_of_item hs]
    refine ⟨by simpa using ⟨ha, hv⟩, t, ?_, hend⟩
    rw [hcut, encodeAll_cons, List.append_assoc, ← ht]
termination_by s.length

/-- A stream that reads to its end is the encoding of what it gave. -/
theorem encodeAll_of_readAll {s : List β} {l : List α} (h : C.readAll s = (l, none)) :
    (∀ a ∈ l, C.Valid a) ∧ s = C.encodeAll l := by
  obtain ⟨hv, t, hs, hend⟩ := C.readAll_sound s
  rw [h] at hv hs hend
  obtain rfl : t = [] := hend
  exact ⟨hv, by simpa using hs⟩

/-- A failure after a list of blocks ends the reading there. -/
theorem readAll_encodeAll_fail {l : List α} (hl : ∀ a ∈ l, C.Valid a) {t : List β} {e : ε}
    (ht : C.step t = .fail e) : C.readAll (C.encodeAll l ++ t) = (l, some e) := by
  rw [C.readAll_encodeAll_append hl, C.readAll_of_fail ht, List.append_nil]

/-- A prefix of a stream of blocks is some of the blocks, then a strict prefix of the
next one. -/
theorem exists_cut_of_prefix {l : List α} {p : List β} (hp : p <+: C.encodeAll l)
    (hne : p ≠ C.encodeAll l) :
    ∃ k, ∃ hk : k < l.length, ∃ q r, p = C.encodeAll (l.take k) ++ q ∧
      q ++ r = C.encode l[k] ∧ r ≠ [] := by
  induction l generalizing p with
  | nil => exact absurd (List.prefix_nil.mp hp) hne
  | cons a l ih =>
    rw [encodeAll_cons] at hp hne
    rcases List.prefix_or_prefix_of_prefix hp (List.prefix_append _ _) with h | ⟨p', rfl⟩
    · by_cases hpa : p = C.encode a
      · subst hpa
        obtain ⟨k, hk, q, r, hq, hr, hr0⟩ := ih (p := []) List.nil_prefix fun h0 => by
          rw [← h0, List.append_nil] at hne
          exact hne rfl
        obtain ⟨hk0, rfl⟩ := List.append_eq_nil_iff.mp hq.symm
        exact ⟨k + 1, by simpa using hk, [], r, by simp [hk0], by simpa using hr, hr0⟩
      · obtain ⟨r, hr⟩ := h
        refine ⟨0, by simp, p, r, by simp, by simpa using hr, ?_⟩
        rintro rfl
        exact hpa (by simpa using hr)
    · obtain ⟨k, hk, q, r, hq, hr, hr0⟩ :=
        ih ((List.prefix_append_right_inj _).mp hp) fun h0 => hne (by rw [h0])
      exact ⟨k + 1, by simpa using hk, q, r, by simp [hq], by simpa using hr, hr0⟩

/-- A strict prefix of a stream of blocks gives exactly the items whose blocks it
holds. It reads to its end exactly when it stops between two blocks. -/
theorem readAll_cut {l : List α} (hl : ∀ a ∈ l, C.Valid a) {p : List β}
    (hp : p <+: C.encodeAll l) (hne : p ≠ C.encodeAll l) :
    ∃ k, k < l.length ∧ (C.readAll p).1 = l.take k ∧
      C.encodeAll (l.take k) <+: p ∧ ¬C.encodeAll (l.take (k + 1)) <+: p ∧
      ((C.readAll p).2 = none ↔ p = C.encodeAll (l.take k)) := by
  obtain ⟨k, hk, q, r, rfl, hr, hr0⟩ := C.exists_cut_of_prefix hp hne
  have hv : ∀ a ∈ l.take k, C.Valid a := fun a ha => hl a (List.mem_of_mem_take ha)
  have hnot : ¬C.encodeAll (l.take (k + 1)) <+: C.encodeAll (l.take k) ++ q := by
    intro h
    have hlen := h.length_le
    have hq : q.length + r.length = (C.encode l[k]).length := by
      rw [← hr, List.length_append]
    have hr1 := List.length_pos_iff.mpr hr0
    rw [List.take_succ_eq_append_getElem hk] at hlen
    simp only [encodeAll, List.flatMap_append, List.length_append, List.flatMap_cons,
      List.flatMap_nil, List.append_nil] at hlen
    omega
  refine ⟨k, hk, ?_, List.prefix_append _ _, hnot, ?_⟩
  all_goals
    rw [C.readAll_encodeAll_append hv]
    by_cases hq0 : q = []
    · simp [hq0]
    · obtain ⟨e, he⟩ := C.step_torn (hl _ (List.getElem_mem hk)) hr hq0 hr0
      simp [C.readAll_of_fail he, hq0]

end Code

end StreamCode

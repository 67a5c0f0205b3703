import Mathlib.Logic.Relation
import Mathlib.Order.WellFounded
import Mathlib.Data.List.Basic

/-!
# Walks over a tree

A recursive function over a tree reports what it finds at a node and what it finds below
the node's children. `report_iff` says that it reports what there is at the nodes it
reaches, and `holds_iff` is the same for a recursive predicate that asks something of
every node.

`SeenBefore` is what a loop that keeps a set of the values it has seen knows at an item.
-/

namespace Walk

open Relation

variable {α ε : Type*} {Child : α → α → Prop}

/-- A walk reports what there is at the nodes it reaches. -/
theorem report_iff (hwf : WellFounded fun b a => Child a b) {Inv : α → Prop}
    (hinv : ∀ a b, Inv a → Child a b → Inv b) {report here : α → ε → Prop}
    (hstep : ∀ a, Inv a → ∀ e, report a e ↔ here a e ∨ ∃ b, Child a b ∧ report b e)
    {a : α} (ha : Inv a) {e : ε} :
    report a e ↔ ∃ b, ReflTransGen Child a b ∧ here b e := by
  constructor
  · induction a using hwf.induction with
    | _ a ih =>
      intro h
      rcases (hstep a ha e).mp h with h | ⟨b, hab, h⟩
      · exact ⟨a, ReflTransGen.refl, h⟩
      · obtain ⟨c, hbc, hc⟩ := ih b hab (hinv a b ha hab) h
        exact ⟨c, ReflTransGen.head hab hbc, hc⟩
  · rintro ⟨b, hab, hb⟩
    induction hab using ReflTransGen.head_induction_on with
    | refl => exact (hstep b ha e).mpr (Or.inl hb)
    | head hac _ ih => exact (hstep _ ha e).mpr (Or.inr ⟨_, hac, ih (hinv _ _ ha hac)⟩)

/-- A predicate that asks something of a node and holds of its children asks it of every
node it reaches. -/
theorem holds_iff (hwf : WellFounded fun b a => Child a b) {Inv : α → Prop}
    (hinv : ∀ a b, Inv a → Child a b → Inv b) {holds here : α → Prop}
    (hstep : ∀ a, Inv a → (holds a ↔ here a ∧ ∀ b, Child a b → holds b)) {a : α} (ha : Inv a) :
    holds a ↔ ∀ b, ReflTransGen Child a b → here b := by
  have hfails : ∀ a, Inv a → ∀ _ : Unit,
      ¬holds a ↔ ¬here a ∨ ∃ b, Child a b ∧ ¬holds b := by
    intro a ha _
    rw [hstep a ha, not_and_or]
    push Not
    rfl
  have hreport : ¬holds a ↔ ∃ b, ReflTransGen Child a b ∧ ¬here b :=
    @report_iff α Unit Child hwf Inv hinv (fun a _ => ¬holds a) (fun a _ => ¬here a) hfails a ha ()
  rw [← not_iff_not, hreport]
  push Not
  rfl

/-! ## Values seen so far -/

variable {β : Type*} (values : α → List β)

/-- `b` is in the set that a loop over `items` has at index `i`, having started from
`seen` and added the values of each item it passed. -/
def SeenBefore (seen : List β) (items : List α) (i : ℕ) (b : β) : Prop :=
  b ∈ seen ∨ ∃ j < i, ∃ a, items[j]? = some a ∧ b ∈ values a

@[simp] theorem seenBefore_zero {seen : List β} {items : List α} {b : β} :
    SeenBefore values seen items 0 b ↔ b ∈ seen := by
  simp [SeenBefore]

/-- Passing an item adds its values. -/
theorem seenBefore_succ {seen seen' : List β} {a : α} {items : List α} {i : ℕ} {b : β}
    (hseen : b ∈ seen' ↔ b ∈ seen ∨ b ∈ values a) :
    SeenBefore values seen (a :: items) (i + 1) b ↔ SeenBefore values seen' items i b := by
  unfold SeenBefore
  rw [hseen]
  constructor
  · rintro (h | ⟨j, hj, c, hc, hb⟩)
    · exact Or.inl (Or.inl h)
    · cases j with
      | zero =>
        obtain rfl : a = c := by simpa using hc
        exact Or.inl (Or.inr hb)
      | succ j => exact Or.inr ⟨j, by omega, c, by simpa using hc, hb⟩
  · rintro ((h | h) | ⟨j, hj, c, hc, hb⟩)
    · exact Or.inl h
    · exact Or.inr ⟨0, by omega, a, by simp, h⟩
    · exact Or.inr ⟨j + 1, by omega, c, by simpa using hc, hb⟩

/-- An item of a list is its head or an item of its tail. -/
theorem exists_getElem?_cons {a : α} {l : List α} {p : ℕ → α → Prop} :
    (∃ i b, (a :: l)[i]? = some b ∧ p i b) ↔ p 0 a ∨ ∃ i b, l[i]? = some b ∧ p (i + 1) b := by
  constructor
  · rintro ⟨i, b, hb, hp⟩
    cases i with
    | zero =>
      obtain rfl : a = b := by simpa using hb
      exact Or.inl hp
    | succ i => exact Or.inr ⟨i, b, by simpa using hb, hp⟩
  · rintro (hp | ⟨i, b, hb, hp⟩)
    · exact ⟨0, a, by simp, hp⟩
    · exact ⟨i + 1, b, by simpa using hb, hp⟩

end Walk

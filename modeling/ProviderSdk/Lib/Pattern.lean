import Mathlib.Computability.RegularExpressions

/-!
# Patterns over an alphabet

The notations of a regular-expression dialect on Mathlib's `RegularExpression` : a
literal (`word`), a character class (`oneOf`), one or more (`many1`) and an optional
part (`opt`). A text is matched whole by `RegularExpression.rmatch`, and each notation
has the lemma that says which texts it matches.
-/

namespace Pattern

open RegularExpression

variable {α : Type*}

/-- The letters of `w` in order. -/
def word : List α → RegularExpression α
  | [] => 1
  | a :: w => char a * word w

/-- A character class : `[w]`. -/
def oneOf : List α → RegularExpression α
  | [] => 0
  | a :: w => char a + oneOf w

/-- The alternatives of `ws` : `(w₁|w₂|…)`. -/
def anyWord : List (List α) → RegularExpression α
  | [] => 0
  | w :: ws => word w + anyWord ws

/-- `P*`. -/
def many (P : RegularExpression α) : RegularExpression α :=
  P.star

/-- `P+`. -/
def many1 (P : RegularExpression α) : RegularExpression α :=
  P * P.star

/-- `P?`. -/
def opt (P : RegularExpression α) : RegularExpression α :=
  1 + P

variable [DecidableEq α] {P Q : RegularExpression α} {x : List α}

theorem rmatch_mul : (P * Q).rmatch x = true ↔
    ∃ s t, s ++ t = x ∧ P.rmatch s = true ∧ Q.rmatch t = true := by
  rw [rmatch_iff_matches', matches'_mul, Language.mem_mul]
  constructor
  · rintro ⟨s, hs, t, ht, rfl⟩
    exact ⟨s, t, rfl, (rmatch_iff_matches' P s).mpr hs, (rmatch_iff_matches' Q t).mpr ht⟩
  · rintro ⟨s, t, rfl, hs, ht⟩
    exact ⟨s, (rmatch_iff_matches' P s).mp hs, t, (rmatch_iff_matches' Q t).mp ht, rfl⟩

theorem rmatch_add : (P + Q).rmatch x = true ↔ P.rmatch x = true ∨ Q.rmatch x = true := by
  rw [add_rmatch_iff]

theorem rmatch_word {w : List α} : (word w).rmatch x = true ↔ x = w := by
  induction w generalizing x with
  | nil => exact one_rmatch_iff x
  | cons a w ih =>
    rw [word, rmatch_mul]
    constructor
    · rintro ⟨s, t, rfl, hs, ht⟩
      rw [(char_rmatch_iff a s).mp hs, ih.mp ht]
      rfl
    · rintro rfl
      exact ⟨[a], w, rfl, (char_rmatch_iff a _).mpr rfl, ih.mpr rfl⟩

theorem rmatch_oneOf {w : List α} :
    (oneOf w).rmatch x = true ↔ ∃ a ∈ w, x = [a] := by
  induction w with
  | nil => simp [oneOf, zero_rmatch]
  | cons a w ih =>
    rw [oneOf, rmatch_add, ih, char_rmatch_iff]
    simp

theorem rmatch_anyWord {ws : List (List α)} :
    (anyWord ws).rmatch x = true ↔ x ∈ ws := by
  induction ws with
  | nil => simp [anyWord, zero_rmatch]
  | cons w ws ih =>
    rw [anyWord, rmatch_add, ih, rmatch_word]
    simp

theorem rmatch_opt : (opt P).rmatch x = true ↔ x = [] ∨ P.rmatch x = true := by
  rw [opt, rmatch_add, one_rmatch_iff]

/-- A repeated class matches the texts over its letters. -/
theorem rmatch_many_oneOf {w : List α} :
    (many (oneOf w)).rmatch x = true ↔ ∀ a ∈ x, a ∈ w := by
  rw [many, star_rmatch_iff]
  constructor
  · rintro ⟨S, rfl, hS⟩ a ha
    obtain ⟨t, ht, hat⟩ := List.mem_flatten.mp ha
    obtain ⟨b, hb, rfl⟩ := rmatch_oneOf.mp (hS t ht).2
    rwa [List.mem_singleton.mp hat]
  · intro h
    refine ⟨x.map fun a => [a], by simp [List.flatten_eq_flatMap, List.flatMap_map], ?_⟩
    intro t ht
    obtain ⟨a, ha, rfl⟩ := List.mem_map.mp ht
    exact ⟨by simp, rmatch_oneOf.mpr ⟨a, h a ha, rfl⟩⟩

theorem rmatch_many1_oneOf {w : List α} :
    (many1 (oneOf w)).rmatch x = true ↔ x ≠ [] ∧ ∀ a ∈ x, a ∈ w := by
  rw [many1, rmatch_mul]
  constructor
  · rintro ⟨s, t, rfl, hs, ht⟩
    obtain ⟨b, hb, rfl⟩ := rmatch_oneOf.mp hs
    have ht' := rmatch_many_oneOf.mp ht
    refine ⟨by simp, fun a ha => ?_⟩
    rcases List.mem_cons.mp ha with rfl | ha
    · exact hb
    · exact ht' a ha
  · rintro ⟨hne, h⟩
    obtain ⟨a, t, rfl⟩ := List.exists_cons_of_ne_nil hne
    exact ⟨[a], t, rfl, rmatch_oneOf.mpr ⟨a, h a (by simp), rfl⟩,
      rmatch_many_oneOf.mpr fun b hb => h b (by simp [hb])⟩

/-! ## Letters -/

omit [DecidableEq α] in
/-- What can be computed for each letter of a text holds of each of them. -/
theorem forall_mem_of_all {w : List α} {p : α → Prop} [DecidablePred p]
    (h : (w.all fun a => decide (p a)) = true) : ∀ a ∈ w, p a :=
  fun a ha => of_decide_eq_true (List.all_eq_true.mp h a ha)

/-- Every letter of every text the pattern matches satisfies `p`. -/
def Over (p : α → Prop) (P : RegularExpression α) : Prop :=
  ∀ x, P.rmatch x = true → ∀ a ∈ x, p a

namespace Over

variable {p : α → Prop} {w : List α}

theorem word (hw : ∀ a ∈ w, p a) : Over p (word w) := by
  intro x hx
  rwa [rmatch_word.mp hx]

theorem oneOf (hw : ∀ a ∈ w, p a) : Over p (oneOf w) := by
  intro x hx b hb
  obtain ⟨a, ha, rfl⟩ := rmatch_oneOf.mp hx
  exact List.mem_singleton.mp hb ▸ hw a ha

theorem many_oneOf (hw : ∀ a ∈ w, p a) : Over p (many (Pattern.oneOf w)) :=
  fun _ hx a ha => hw a (rmatch_many_oneOf.mp hx a ha)

theorem many1_oneOf (hw : ∀ a ∈ w, p a) : Over p (many1 (Pattern.oneOf w)) :=
  fun _ hx a ha => hw a ((rmatch_many1_oneOf.mp hx).2 a ha)

theorem mul (hP : Over p P) (hQ : Over p Q) : Over p (P * Q) := by
  intro x hx a ha
  obtain ⟨s, t, rfl, hs, ht⟩ := rmatch_mul.mp hx
  exact (List.mem_append.mp ha).elim (hP s hs a) (hQ t ht a)

theorem add (hP : Over p P) (hQ : Over p Q) : Over p (P + Q) :=
  fun x hx => (rmatch_add.mp hx).elim (hP x) (hQ x)

theorem opt (hP : Over p P) : Over p (opt P) := by
  intro x hx
  rcases rmatch_opt.mp hx with rfl | hx
  · simp
  · exact hP x hx

end Over

end Pattern

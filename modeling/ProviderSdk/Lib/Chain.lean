import Mathlib.Logic.Relation
import Mathlib.Data.Set.Basic

/-!
# Chains and closed sets

A set is closed under a relation if it holds whatever one of its elements leads to. The
least closed set above some seeds is what chains from the seeds reach, so a closed set
that avoids some elements exists exactly when no chain ends at one of them.
-/

namespace Chain

open Relation

variable {α : Type*} {r : α → α → Prop} {seeds ok : Set α}

/-- Closed under the relation. -/
def Closed (r : α → α → Prop) (s : Set α) : Prop :=
  ∀ a ∈ s, ∀ b, r a b → b ∈ s

/-- What the chains from the seeds reach. -/
def reach (r : α → α → Prop) (seeds : Set α) : Set α :=
  {b | ∃ a ∈ seeds, ReflTransGen r a b}

theorem subset_reach : seeds ⊆ reach r seeds :=
  fun a ha => ⟨a, ha, .refl⟩

theorem closed_reach : Closed r (reach r seeds) := by
  rintro b ⟨a, ha, hab⟩ c hbc
  exact ⟨a, ha, hab.tail hbc⟩

/-- A closed set holds what the chains from its elements reach. -/
theorem reach_subset {s : Set α} (hs : Closed r s) (h : seeds ⊆ s) : reach r seeds ⊆ s := by
  rintro b ⟨a, ha, hab⟩
  induction hab with
  | refl => exact h ha
  | tail _ hbc ih => exact hs _ ih _ hbc

/-- There is a closed set of allowed elements above the seeds exactly when the seeds are
allowed and every chain of one or more steps from them ends at an allowed element. -/
theorem exists_closed_iff : (∃ s, seeds ⊆ s ∧ Closed r s ∧ s ⊆ ok) ↔
    seeds ⊆ ok ∧ ∀ a ∈ seeds, ∀ b, TransGen r a b → b ∈ ok := by
  constructor
  · rintro ⟨s, hseeds, hclosed, hok⟩
    refine ⟨hseeds.trans hok, fun a ha b hab => hok ?_⟩
    exact reach_subset hclosed hseeds ⟨a, ha, hab.to_reflTransGen⟩
  · rintro ⟨hseeds, hchains⟩
    refine ⟨reach r seeds, subset_reach, closed_reach, ?_⟩
    rintro b ⟨a, ha, hab⟩
    rcases reflTransGen_iff_eq_or_transGen.mp hab with rfl | hab
    · exact hseeds ha
    · exact hchains a ha b hab

end Chain

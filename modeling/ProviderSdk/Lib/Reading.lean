import ProviderSdk.Lib.Traced

/-!
# Reading a list by index

A `Reading` is a program that reads a list by index, as it reads an array. Its events are the
indices, in the order of the reads. An index past the end reads as the default.

`Within xs m a` says that `m` gives `a` and reads nothing past the end of `xs`. It composes
along `pure`, `get` and `>>=`, so a program is held to a function on lists and to the bounds at
once.
-/

/-- A program that reads by index. -/
abbrev Reading (α : Type) : Type :=
  Traced ℕ Unit α

namespace Reading

variable {α β γ : Type}

/-- The element at an index. -/
def get [Inhabited γ] (xs : List γ) (i : ℕ) : Reading γ :=
  Traced.perform i fun s => (xs.getD i default, s)

/-- The program gives `a`, and every index it reads is below the length. -/
def Within (xs : List γ) (m : Reading α) (a : α) : Prop :=
  m.Ensures fun b is => b = a ∧ ∀ i ∈ is, i < xs.length

namespace Within

variable {xs : List γ} {m : Reading α} {a : α}

theorem value (h : Within xs m a) : (m ()).value = a :=
  (h ()).1

theorem lt_length (h : Within xs m a) : ∀ i ∈ (m ()).events, i < xs.length :=
  (h ()).2

theorem pure (a : α) : Within xs (Pure.pure a) a :=
  Traced.Ensures.pure ⟨rfl, by simp⟩

theorem get [Inhabited γ] {i : ℕ} (hi : i < xs.length) : Within xs (Reading.get xs i) xs[i] := by
  intro s
  constructor
  · change xs.getD i default = xs[i]
    rw [List.getD_eq_getElem?_getD, List.getElem?_eq_getElem hi, Option.getD_some]
  · intro j hj
    rwa [List.mem_singleton.mp hj]

theorem bind {f : α → Reading β} {b : β} (hm : Within xs m a) (hf : Within xs (f a) b) :
    Within xs (m >>= f) b := by
  refine Traced.Ensures.bind hm fun a' is ⟨ha, his⟩ => ?_
  subst ha
  refine hf.mono fun b' js ⟨hb, hjs⟩ => ⟨hb, fun i hi => ?_⟩
  exact (List.mem_append.mp hi).elim (his i) (hjs i)

theorem congr {a' : α} (h : Within xs m a) (ha : a = a') : Within xs m a' :=
  ha ▸ h

end Within

end Reading

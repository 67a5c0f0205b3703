import ProviderSdk.Lib.Traced

/-!
# Computations over a state with more in it

`Erases g m' m` says that `m'` does what `m` does to the part of the state that `g` keeps : the
same result and the same events, from every state. It composes along `pure` and `>>=`, so what
is added to a state to reason about a program is shown not to change the program.
-/

namespace Traced

variable {ε σ σ' α β : Type}

/-- `m'` is `m`, on what `g` keeps of the state. -/
def Erases (g : σ' → σ) (m' : Traced ε σ' α) (m : Traced ε σ α) : Prop :=
  ∀ s, m (g s) = ⟨(m' s).value, g (m' s).state, (m' s).events⟩

namespace Erases

variable {g : σ' → σ} {m' : Traced ε σ' α} {m : Traced ε σ α}

theorem value (h : Erases g m' m) (s : σ') : (m (g s)).value = (m' s).value := by
  rw [h s]

theorem state (h : Erases g m' m) (s : σ') : (m (g s)).state = g (m' s).state := by
  rw [h s]

theorem events (h : Erases g m' m) (s : σ') : (m (g s)).events = (m' s).events := by
  rw [h s]

theorem pure (a : α) : Erases g (Pure.pure a : Traced ε σ' α) (Pure.pure a) :=
  fun _ => rfl

theorem bind {f' : α → Traced ε σ' β} {f : α → Traced ε σ β} (h : Erases g m' m)
    (hf : ∀ a, Erases g (f' a) (f a)) : Erases g (m' >>= f') (m >>= f) := by
  intro s
  rw [bind_apply, bind_apply, h s, hf _ _]

theorem ite {c : Prop} [Decidable c] {n' : Traced ε σ' α} {n : Traced ε σ α}
    (h : Erases g m' m) (h' : Erases g n' n) :
    Erases g (if c then m' else n') (if c then m else n) := by
  split_ifs
  · exact h
  · exact h'

end Erases

end Traced

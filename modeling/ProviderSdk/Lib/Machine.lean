import Mathlib.Data.List.Basic

/-!
# Machines that answer requests

A machine answers a request `ι` with a reply `ο` and goes on in the next state. `run`
answers a list of requests, one after the other.

`run_history` is induction on the requests so far, and `run_simulates` that two machines
answer alike if one step of them does, in states that are related.
-/

/-- From a request and a state, the reply and the next state. -/
abbrev Machine (ι ο σ : Type*) : Type _ :=
  ι → σ → ο × σ

namespace Machine

variable {ι ο σ τ : Type*} (m : Machine ι ο σ)

/-- The replies to a list of requests, and the state after them. -/
def run : List ι → σ → List ο × σ
  | [], s => ([], s)
  | i :: is, s => ((m i s).1 :: (run is (m i s).2).1, (run is (m i s).2).2)

@[simp] theorem run_nil (s : σ) : m.run [] s = ([], s) :=
  rfl

theorem run_cons (i : ι) (is : List ι) (s : σ) :
    m.run (i :: is) s = ((m i s).1 :: (m.run is (m i s).2).1, (m.run is (m i s).2).2) :=
  rfl

@[simp] theorem length_run (is : List ι) (s : σ) : (m.run is s).1.length = is.length := by
  induction is generalizing s with
  | nil => rfl
  | cons i is ih => rw [run_cons, List.length_cons, List.length_cons, ih]

/-- An invariant that reads the requests so far. -/
theorem run_history {I : List ι → σ → Prop} {s : σ} (h0 : I [] s)
    (hstep : ∀ past i s, I past s → I (past ++ [i]) (m i s).2) (is : List ι) :
    I is (m.run is s).2 := by
  suffices hgen : ∀ (is past : List ι) (s : σ), I past s → I (past ++ is) (m.run is s).2 by
    simpa using hgen is [] s h0
  intro is
  induction is with
  | nil =>
    intro past s h
    simpa using h
  | cons i is ih =>
    intro past s h
    rw [run_cons, List.append_cons]
    exact ih _ _ (hstep past i s h)

/-- Related states answer alike if one step of them does. -/
theorem run_simulates {m : Machine ι ο σ} {m' : Machine ι ο τ} {R : σ → τ → Prop}
    (hstep : ∀ i s t, R s t → (m i s).1 = (m' i t).1 ∧ R (m i s).2 (m' i t).2) (is : List ι) :
    ∀ {s : σ} {t : τ}, R s t →
      (m.run is s).1 = (m'.run is t).1 ∧ R (m.run is s).2 (m'.run is t).2 := by
  induction is with
  | nil => exact fun h => ⟨rfl, h⟩
  | cons i is ih =>
    intro s t h
    obtain ⟨hreply, hnext⟩ := hstep i s t h
    obtain ⟨hreplies, hlast⟩ := ih hnext
    rw [run_cons, run_cons, hreply, hreplies]
    exact ⟨rfl, hlast⟩

end Machine

import Mathlib.Data.List.Basic

/-!
# Runs of a labelled transition relation

`Runs step s es t` : from `s`, the labels `es` lead to `t`, one step at a time. A fact
about the labels of a run is proved from the state before one of them
(`Runs.at_label`), and what that state knows about the labels so far is an invariant
that reads the history (`Runs.history`).
-/

variable {σ ε : Type}

/-- From `s`, the labels `es` lead to `t`. -/
inductive Runs (step : σ → ε → σ → Prop) : σ → List ε → σ → Prop where
  | refl (s : σ) : Runs step s [] s
  | cons {s u t : σ} {e : ε} {es : List ε} : step s e u → Runs step u es t → Runs step s (e :: es) t

namespace Runs

variable {step : σ → ε → σ → Prop} {s u t : σ} {e : ε} {es es' : List ε}

theorem single (h : step s e t) : Runs step s [e] t :=
  .cons h (.refl t)

theorem append (h : Runs step s es u) (h' : Runs step u es' t) : Runs step s (es ++ es') t := by
  induction h with
  | refl _ => exact h'
  | cons hstep _ ih => exact .cons hstep (ih h')

theorem snoc (h : Runs step s es u) (hstep : step u e t) : Runs step s (es ++ [e]) t :=
  h.append (single hstep)

/-- A run over `es ++ es'` passes through a state between the two. -/
theorem exists_of_append : ∀ {es : List ε} {s : σ}, Runs step s (es ++ es') t →
    ∃ u, Runs step s es u ∧ Runs step u es' t
  | [], s, h => ⟨s, .refl s, h⟩
  | _ :: _, _, .cons hstep h => by
    obtain ⟨u, h₁, h₂⟩ := exists_of_append h
    exact ⟨u, .cons hstep h₁, h₂⟩

/-- At each label of a run, the run so far led to the state that takes the step. -/
theorem at_label {pre post : List ε} (h : Runs step s (pre ++ e :: post) t) :
    ∃ u u', Runs step s pre u ∧ step u e u' ∧ Runs step u' post t := by
  obtain ⟨u, hpre, hpost⟩ := exists_of_append h
  cases hpost with
  | cons hstep hpost => exact ⟨u, _, hpre, hstep, hpost⟩

/-- An invariant that reads the labels so far. A step may use the run before it, so also
the invariants already known. -/
theorem history {I : List ε → σ → Prop} (h0 : I [] s)
    (hstep : ∀ past u e u', Runs step s past u → I past u → step u e u' → I (past ++ [e]) u')
    (h : Runs step s es t) : I es t := by
  suffices hgen : ∀ past u, Runs step s past u → I past u → Runs step u es t → I (past ++ es) t by
    simpa using hgen [] s (.refl s) h0 h
  clear h h0
  induction es with
  | nil =>
    rintro past u - hI (_ | _)
    simpa using hI
  | cons e es ih =>
    rintro past u hpast hI (_ | ⟨he, hes⟩)
    rw [List.append_cons]
    exact ih _ _ (hpast.snoc he) (hstep past u e _ hpast hI he) hes

/-- An invariant of the steps is one of the runs. -/
theorem invariant {I : σ → Prop} (h0 : I s) (hstep : ∀ u e u', I u → step u e u' → I u')
    (h : Runs step s es t) : I t :=
  history (I := fun _ u => I u) h0 (fun _ u e u' _ => hstep u e u') h

end Runs

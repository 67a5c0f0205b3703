import ProviderSdk.Lib.Traced

/-!
# Triples that read the events

An assertion relates the events so far to the state. `Triple P m Q` says that from events and
a state that `P` relates, `m` gives a result, events after them and a state that `Q` relates.

So an invariant may say what the state has to do with the past, and a rule for each way to
build a computation carries it along.
-/

namespace Traced

variable {ε σ α β : Type}

/-- An event of a trace with one more event is the new one, or one before it. -/
theorem snoc_eq_append_cons {past pre post : List ε} {e a : ε}
    (h : past ++ [e] = pre ++ a :: post) :
    (past = pre ∧ e = a ∧ post = []) ∨ ∃ mid, post = mid ++ [e] ∧ past = pre ++ a :: mid := by
  rcases List.eq_nil_or_concat post with rfl | ⟨mid, last, rfl⟩
  · obtain ⟨rfl, hlast⟩ := List.append_inj' h rfl
    exact .inl ⟨rfl, List.singleton_inj.mp hlast, rfl⟩
  · rw [List.concat_eq_append, ← List.cons_append, ← List.append_assoc] at h
    obtain ⟨rfl, hlast⟩ := List.append_inj' h rfl
    obtain rfl := List.singleton_inj.mp hlast
    exact .inr ⟨mid, List.concat_eq_append, rfl⟩

/-- From where `P` holds, `m` ends where `Q` does. -/
def Triple (P : List ε → σ → Prop) (m : Traced ε σ α) (Q : α → List ε → σ → Prop) : Prop :=
  ∀ past s, P past s → Q (m s).value (past ++ (m s).events) (m s).state

namespace Triple

variable {P P' : List ε → σ → Prop} {Q Q' : α → List ε → σ → Prop} {R : β → List ε → σ → Prop}
  {m m' : Traced ε σ α}

theorem weaken (h : Triple P m Q) (hP : ∀ past s, P' past s → P past s)
    (hQ : ∀ a past s, Q a past s → Q' a past s) : Triple P' m Q' :=
  fun past s hpre => hQ _ _ _ (h past s (hP past s hpre))

theorem pure {a : α} (h : ∀ past s, P past s → Q a past s) : Triple P (Pure.pure a) Q := by
  intro past s hpre
  rw [pure_apply, List.append_nil]
  exact h past s hpre

theorem bind {f : α → Traced ε σ β} (hm : Triple P m Q) (hf : ∀ a, Triple (Q a) (f a) R) :
    Triple P (m >>= f) R := by
  intro past s hpre
  have h := hf _ _ _ (hm past s hpre)
  rwa [List.append_assoc] at h

theorem ite {c : Prop} [Decidable c] (h : c → Triple P m Q) (h' : ¬c → Triple P m' Q) :
    Triple P (if c then m else m') Q := by
  split_ifs with hc
  · exact h hc
  · exact h' hc

theorem note {e : ε} {Q : Unit → List ε → σ → Prop}
    (h : ∀ past s, P past s → Q () (past ++ [e]) s) : Triple P (Traced.note e) Q :=
  h

theorem perform {e : ε} {f : σ → α × σ}
    (h : ∀ past s, P past s → Q (f s).1 (past ++ [e]) (f s).2) : Triple P (Traced.perform e f) Q :=
  h

theorem observe {e : α → ε} {f : σ → α × σ}
    (h : ∀ past s, P past s → Q (f s).1 (past ++ [e (f s).1]) (f s).2) :
    Triple P (Traced.observe e f) Q :=
  h

/-- What is known of the precondition apart from the events and the state. -/
theorem exists_pre {ι : Sort*} {P : ι → List ε → σ → Prop} (h : ∀ i, Triple (P i) m Q) :
    Triple (fun past s => ∃ i, P i past s) m Q :=
  fun past s ⟨i, hpre⟩ => h i past s hpre

/-- A loop over a list keeps what each turn keeps. -/
theorem mapM {γ : Type} {f : γ → Traced ε σ α} : ∀ {l : List γ},
    (∀ c ∈ l, Triple P (f c) fun _ => P) → Triple P (l.mapM f) fun _ => P
  | [], _ => by
    rw [List.mapM_nil]
    exact .pure fun _ _ hpre => hpre
  | c :: l, h => by
    rw [List.mapM_cons]
    refine .bind (h c List.mem_cons_self) fun a => ?_
    exact .bind (mapM fun c' hc' => h c' (List.mem_cons_of_mem c hc')) fun as =>
      .pure fun _ _ hpre => hpre

end Triple

end Traced

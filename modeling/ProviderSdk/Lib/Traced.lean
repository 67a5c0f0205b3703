import Mathlib.Data.List.Basic

/-!
# Computations that say what they did

`Traced ε σ α` is a computation over a state `σ` with a result in `α` that also gives
the list of events `ε` it performed, in order. Binding runs one computation after the
other and appends the events.

`Ensures m R` says that whatever state `m` starts in, its result and its events are
related by `R`. It composes along `pure`, `perform` and `>>=`, so a program's
postcondition is found by walking the program. `Keeps m g` says that `m` leaves the part `g`
of the state alone, and composes in the same way.
-/

/-- What a run gave : the result, the state after it, and the events, oldest first. -/
structure Ran (ε σ α : Type) where
  value : α
  state : σ
  events : List ε

/-- A computation over `σ` with result in `α` and events in `ε`. -/
def Traced (ε σ α : Type) : Type :=
  σ → Ran ε σ α

namespace Traced

variable {ε σ α β : Type}

instance : Monad (Traced ε σ) where
  pure a s := ⟨a, s, []⟩
  bind m f s :=
    ⟨(f (m s).value (m s).state).value, (f (m s).value (m s).state).state,
      (m s).events ++ (f (m s).value (m s).state).events⟩

theorem ext_apply {m m' : Traced ε σ α} (h : ∀ s, m s = m' s) : m = m' :=
  funext h

instance : LawfulMonad (Traced ε σ) :=
  LawfulMonad.mk' (Traced ε σ)
    (fun m => ext_apply fun s => by
      change (⟨(m s).value, (m s).state, (m s).events ++ []⟩ : Ran ε σ _) = m s
      rw [List.append_nil])
    (fun a f => ext_apply fun s => by simp [Bind.bind, Pure.pure])
    (fun m f g => ext_apply fun s => by simp [Bind.bind, List.append_assoc])

/-- Perform `e` and step the state. -/
def perform (e : ε) (f : σ → α × σ) : Traced ε σ α :=
  fun s => ⟨(f s).1, (f s).2, [e]⟩

/-- Note `e`, leaving the state alone. -/
def note (e : ε) : Traced ε σ Unit :=
  fun s => ⟨(), s, [e]⟩

/-- Perform an event that tells the result. -/
def observe (e : α → ε) (f : σ → α × σ) : Traced ε σ α :=
  fun s => ⟨(f s).1, (f s).2, [e (f s).1]⟩

@[simp] theorem pure_apply (a : α) (s : σ) : (pure a : Traced ε σ α) s = ⟨a, s, []⟩ :=
  rfl

@[simp] theorem note_apply (e : ε) (s : σ) : (note e : Traced ε σ Unit) s = ⟨(), s, [e]⟩ :=
  rfl

@[simp] theorem observe_apply (e : α → ε) (f : σ → α × σ) (s : σ) :
    observe e f s = ⟨(f s).1, (f s).2, [e (f s).1]⟩ :=
  rfl

theorem bind_apply (m : Traced ε σ α) (f : α → Traced ε σ β) (s : σ) :
    (m >>= f) s =
      ⟨(f (m s).value (m s).state).value, (f (m s).value (m s).state).state,
        (m s).events ++ (f (m s).value (m s).state).events⟩ :=
  rfl

@[simp] theorem value_bind (m : Traced ε σ α) (f : α → Traced ε σ β) (s : σ) :
    ((m >>= f) s).value = (f (m s).value (m s).state).value :=
  rfl

@[simp] theorem events_bind (m : Traced ε σ α) (f : α → Traced ε σ β) (s : σ) :
    ((m >>= f) s).events = (m s).events ++ (f (m s).value (m s).state).events :=
  rfl

/-! ## Postconditions -/

/-- From every state, the result and the events of `m` are related by `R`. -/
def Ensures (m : Traced ε σ α) (R : α → List ε → Prop) : Prop :=
  ∀ s, R (m s).value (m s).events

namespace Ensures

variable {R : α → List ε → Prop} {Q : β → List ε → Prop}

theorem mono {m : Traced ε σ α} {R' : α → List ε → Prop} (h : Ensures m R)
    (hR : ∀ a es, R a es → R' a es) : Ensures m R' :=
  fun s => hR _ _ (h s)

theorem pure {a : α} (h : R a []) : Ensures (Pure.pure a : Traced ε σ α) R :=
  fun _ => h

theorem bind {m : Traced ε σ α} {f : α → Traced ε σ β} (hm : Ensures m R)
    (hf : ∀ a es, R a es → Ensures (f a) fun b es' => Q b (es ++ es')) :
    Ensures (m >>= f) Q :=
  fun s => hf _ _ (hm s) (m s).state

/-- An observation continues from its event, with a result the observed function gives. -/
theorem observe_bind {e : α → ε} {f : σ → α × σ} {k : α → Traced ε σ β}
    (hk : ∀ s, Ensures (k (f s).1) fun b es => Q b (e (f s).1 :: es)) :
    Ensures (observe e f >>= k) Q :=
  fun s => hk s (f s).2

theorem ite {c : Prop} [Decidable c] {m m' : Traced ε σ α} (h : c → Ensures m R)
    (h' : ¬c → Ensures m' R) : Ensures (if c then m else m') R := by
  split_ifs with hc
  · exact h hc
  · exact h' hc

/-- Mapping a computation over a list, where the argument determines its result and its
events. -/
theorem mapM_determined {γ : Type} {f : γ → Traced ε σ α} {g : γ → α} {e : γ → List ε}
    (hf : ∀ c, Ensures (f c) fun a es => a = g c ∧ es = e c) :
    ∀ l : List γ, Ensures (l.mapM f) fun as es => as = l.map g ∧ es = l.flatMap e
  | [] => by
    rw [List.mapM_nil]
    exact .pure ⟨rfl, rfl⟩
  | c :: l => by
    rw [List.mapM_cons]
    refine (hf c).bind fun a es h => (mapM_determined hf l).bind fun as es' h' => .pure ?_
    obtain ⟨rfl, rfl⟩ := h
    obtain ⟨rfl, rfl⟩ := h'
    exact ⟨rfl, by rw [List.append_nil, List.flatMap_cons]⟩

end Ensures

/-! ### Of the result, and of each event -/

/-- Every result of `m` satisfies `P`. -/
def Returns (m : Traced ε σ α) (P : α → Prop) : Prop :=
  Ensures m fun a _ => P a

namespace Returns

variable {P : α → Prop} {P' : β → Prop}

theorem pure {a : α} (h : P a) : Returns (Pure.pure a : Traced ε σ α) P :=
  Ensures.pure h

theorem bind {m : Traced ε σ α} {f : α → Traced ε σ β} (hf : ∀ a, Returns (f a) P') :
    Returns (m >>= f) P' :=
  fun s => hf _ (m s).state

/-- A computation after one whose results are known. -/
theorem bind_value {m : Traced ε σ α} {f : α → Traced ε σ β} (hm : Returns m P)
    (hf : ∀ a, P a → Returns (f a) P') : Returns (m >>= f) P' :=
  fun s => hf _ (hm s) (m s).state

theorem ite {c : Prop} [Decidable c] {m m' : Traced ε σ α} (h : c → Returns m P)
    (h' : ¬c → Returns m' P) : Returns (if c then m else m') P :=
  Ensures.ite h h'

end Returns

/-- Every event of `m` satisfies `P`. -/
def Emits (m : Traced ε σ α) (P : ε → Prop) : Prop :=
  Ensures m fun _ es => ∀ e ∈ es, P e

namespace Emits

variable {P : ε → Prop}

theorem pure {a : α} : Emits (Pure.pure a : Traced ε σ α) P :=
  Ensures.pure (by simp)

theorem observe {e : α → ε} {f : σ → α × σ} (h : ∀ a, P (e a)) : Emits (observe e f) P :=
  fun s => by simpa using h (f s).1

theorem bind {m : Traced ε σ α} {f : α → Traced ε σ β} (hm : Emits m P)
    (hf : ∀ a, Emits (f a) P) : Emits (m >>= f) P :=
  Ensures.bind hm fun a _ hes => (hf a).mono fun _ _ hes' e he =>
    (List.mem_append.mp he).elim (hes e) (hes' e)

theorem ite {c : Prop} [Decidable c] {m m' : Traced ε σ α} (h : c → Emits m P)
    (h' : ¬c → Emits m' P) : Emits (if c then m else m') P :=
  Ensures.ite h h'

/-- Mapping a computation over a list performs only what the computation performs. -/
theorem mapM {γ : Type} {f : γ → Traced ε σ α} (hf : ∀ c, Emits (f c) P) :
    ∀ l : List γ, Emits (l.mapM f) P
  | [] => by
    rw [List.mapM_nil]
    exact pure
  | c :: l => by
    rw [List.mapM_cons]
    exact bind (hf c) fun _ => bind (mapM hf l) fun _ => pure

end Emits

/-! ### Frames -/

/-- `m` does not change what `g` reads of the state. -/
def Keeps {γ : Type} (m : Traced ε σ α) (g : σ → γ) : Prop :=
  ∀ s, g (m s).state = g s

namespace Keeps

variable {γ : Type} {g : σ → γ}

theorem pure (a : α) : Keeps (Pure.pure a : Traced ε σ α) g :=
  fun _ => rfl

theorem bind {m : Traced ε σ α} {f : α → Traced ε σ β} (hm : Keeps m g)
    (hf : ∀ a, Keeps (f a) g) : Keeps (m >>= f) g :=
  fun s => (hf _ _).trans (hm s)

theorem ite {c : Prop} [Decidable c] {m m' : Traced ε σ α} (h : Keeps m g)
    (h' : Keeps m' g) : Keeps (if c then m else m') g := by
  split_ifs
  · exact h
  · exact h'

end Keeps

end Traced

import Mathlib.Algebra.BigOperators.Group.Finset.Piecewise
import Mathlib.Algebra.GroupWithZero.Nat
import Mathlib.Algebra.Order.BigOperators.Group.Finset
import Mathlib.Data.Fintype.Basic
import Mathlib.Logic.Relation

/-!
# Threads and a mutex

Threads make calls, one after the other each. A call first accesses what is shared and
atomic, in one step, and goes on to a critical section or not, as it finds that. A section is
a list of steps on what the mutex guards and on what is local to the call. The steps of the
threads interleave in any order, but a section starts by taking the mutex and ends by
releasing it. Threads that take turns make one such run, which can be computed
(`reachable_turns`).

So every reachable state is that of some sections run whole, one after the other, and of what
the holder has run of its own (`Serialized`, `serialized_of_reachable`). In that order each
thread has its answers, and the calls of its program. Nothing deadlocks (`exists_step`), so
that with finitely many threads and bounded sections every run ends with all calls made
(`exists_finished`, `not_forall_step`).
-/

namespace Mutex

variable {ι α σ ℓ κ : Type}

/-! ## Sections and calls -/

/-- The steps of a critical section, on what is guarded and on what is local. -/
abbrev Section (σ ℓ : Type) :=
  List (σ → ℓ → σ × ℓ)

/-- The steps, one after the other. -/
def Section.run (sec : Section σ ℓ) (g : σ) (l : ℓ) : σ × ℓ :=
  sec.foldl (fun p f => f p.1 p.2) (g, l)

theorem Section.run_snoc (sec : Section σ ℓ) (f : σ → ℓ → σ × ℓ) (g : σ) (l : ℓ) :
    Section.run (sec ++ [f]) g l = f (Section.run sec g l).1 (Section.run sec g l).2 :=
  List.foldl_append

/-- What calls do : their access to what is atomic, with the section they go on to, and what is
local at the start of one. -/
structure Calls (α σ ℓ κ : Type) where
  enter : κ → α → α × Option (Section σ ℓ)
  start : ℓ

/-- A call goes on to the section, when what it finds satisfies `Q`. -/
def Calls.Admits (C : Calls α σ ℓ κ) (Q : α → Prop) (c : κ) (sec : Section σ ℓ) : Prop :=
  ∃ a, Q a ∧ (C.enter c a).2 = some sec

/-- A call may return without a section, when what it finds satisfies `Q`. -/
def Calls.Skips (C : Calls α σ ℓ κ) (Q : α → Prop) (c : κ) : Prop :=
  ∃ a, Q a ∧ (C.enter c a).2 = none

/-! ## One section after the other -/

/-- A section that was run, for a call of a thread. -/
structure Entry (ι σ ℓ κ : Type) where
  thread : ι
  call : κ
  sec : Section σ ℓ

/-- What is guarded, after some sections. -/
def after (C : Calls α σ ℓ κ) (g : σ) (log : List (Entry ι σ ℓ κ)) : σ :=
  log.foldl (fun g e => (Section.run e.sec g C.start).1) g

/-- The answers of some sections. -/
def answered (C : Calls α σ ℓ κ) : σ → List (Entry ι σ ℓ κ) → List (ι × κ × ℓ)
  | _, [] => []
  | g, e :: log => (e.thread, e.call, (Section.run e.sec g C.start).2) ::
    answered C (Section.run e.sec g C.start).1 log

theorem after_append (C : Calls α σ ℓ κ) (g : σ) (log log' : List (Entry ι σ ℓ κ)) :
    after C g (log ++ log') = after C (after C g log) log' :=
  List.foldl_append

theorem answered_append (C : Calls α σ ℓ κ) (g : σ) (log log' : List (Entry ι σ ℓ κ)) :
    answered C g (log ++ log') = answered C g log ++ answered C (after C g log) log' := by
  induction log generalizing g with
  | nil => rfl
  | cons e log ih =>
    rw [List.cons_append, answered, answered, ih]
    rfl

/-! ## Threads -/

/-- Where a thread is. -/
inductive Phase (σ ℓ κ : Type) where
  | idle
  /-- Before a section. -/
  | waiting (c : κ) (sec : Section σ ℓ)
  /-- In a section, with the steps that are left. -/
  | inside (c : κ) (rest : Section σ ℓ) (l : ℓ)

/-- The call that is being made. -/
def Phase.call? : Phase σ ℓ κ → Option κ
  | idle => none
  | waiting c _ => some c
  | inside c _ _ => some c

structure Thread (σ ℓ κ : Type) where
  phase : Phase σ ℓ κ := .idle
  todo : List κ
  /-- The calls that returned, with what was local at the end of their sections. -/
  answers : List (κ × Option ℓ) := []

structure State (ι α σ ℓ κ : Type) where
  atomic : α
  guarded : σ
  holder : Option ι := none
  threads : ι → Thread σ ℓ κ

/-- Before anything is called. -/
def initial (a : α) (g : σ) (program : ι → List κ) : State ι α σ ℓ κ where
  atomic := a
  guarded := g
  threads i := { todo := program i }

variable [DecidableEq ι]

/-- The state with a thread changed. -/
def State.set (s : State ι α σ ℓ κ) (i : ι) (t : Thread σ ℓ κ) : State ι α σ ℓ κ :=
  { s with threads := Function.update s.threads i t }

/-- One step of one thread. -/
inductive Step (C : Calls α σ ℓ κ) : State ι α σ ℓ κ → State ι α σ ℓ κ → Prop
  /-- A call accesses what is atomic, and waits for its section. -/
  | enter {s : State ι α σ ℓ κ} (i : ι) {t : Thread σ ℓ κ} (ht : s.threads i = t)
    (hphase : t.phase = .idle) {c : κ} {cs : List κ} (htodo : t.todo = c :: cs) {a : α}
    {sec : Section σ ℓ} (henter : C.enter c s.atomic = (a, some sec)) :
    Step C s { s.set i { t with phase := .waiting c sec, todo := cs } with atomic := a }
  /-- A call accesses what is atomic, and returns. -/
  | skip {s : State ι α σ ℓ κ} (i : ι) {t : Thread σ ℓ κ} (ht : s.threads i = t)
    (hphase : t.phase = .idle) {c : κ} {cs : List κ} (htodo : t.todo = c :: cs) {a : α}
    (henter : C.enter c s.atomic = (a, none)) :
    Step C s { s.set i { t with todo := cs, answers := t.answers ++ [(c, none)] } with
      atomic := a }
  | acquire {s : State ι α σ ℓ κ} (i : ι) {t : Thread σ ℓ κ} (ht : s.threads i = t) {c : κ}
    {sec : Section σ ℓ} (hphase : t.phase = .waiting c sec) (hfree : s.holder = none) :
    Step C s { s.set i { t with phase := .inside c sec C.start } with holder := some i }
  | work {s : State ι α σ ℓ κ} (i : ι) {t : Thread σ ℓ κ} (ht : s.threads i = t) {c : κ}
    {f : σ → ℓ → σ × ℓ} {rest : Section σ ℓ} {l : ℓ} (hphase : t.phase = .inside c (f :: rest) l) :
    Step C s { s.set i { t with phase := .inside c rest (f s.guarded l).2 } with
      guarded := (f s.guarded l).1 }
  | release {s : State ι α σ ℓ κ} (i : ι) {t : Thread σ ℓ κ} (ht : s.threads i = t) {c : κ}
    {l : ℓ} (hphase : t.phase = .inside c [] l) :
    Step C s { s.set i { t with phase := .idle, answers := t.answers ++ [(c, some l)] } with
      holder := none }

/-- What threads can reach that make the calls of their programs. -/
def Reachable (C : Calls α σ ℓ κ) (a : α) (g : σ) (program : ι → List κ)
    (s : State ι α σ ℓ κ) : Prop :=
  Relation.ReflTransGen (Step C) (initial a g program) s

/-! ## Threads that take turns -/

/-- The step of a thread, or nothing where it cannot take one. -/
def State.turn (C : Calls α σ ℓ κ) (s : State ι α σ ℓ κ) (i : ι) : State ι α σ ℓ κ :=
  let t := s.threads i
  match t.phase, t.todo with
  | .idle, [] => s
  | .idle, c :: cs => match C.enter c s.atomic with
    | (a, some sec) => { s.set i { t with phase := .waiting c sec, todo := cs } with atomic := a }
    | (a, none) =>
      { s.set i { t with todo := cs, answers := t.answers ++ [(c, none)] } with atomic := a }
  | .waiting c sec, _ => if s.holder.isSome then s else
    { s.set i { t with phase := .inside c sec C.start } with holder := some i }
  | .inside c (f :: rest) l, _ =>
    { s.set i { t with phase := .inside c rest (f s.guarded l).2 } with
      guarded := (f s.guarded l).1 }
  | .inside c [] l, _ =>
    { s.set i { t with phase := .idle, answers := t.answers ++ [(c, some l)] } with
      holder := none }

theorem reflTransGen_turn (C : Calls α σ ℓ κ) (s : State ι α σ ℓ κ) (i : ι) :
    Relation.ReflTransGen (Step C) s (s.turn C i) := by
  unfold State.turn
  dsimp only
  split
  case h_1 => exact .refl
  case h_2 c cs hphase htodo =>
    split
    case h_1 a sec henter => exact .single (.enter i rfl hphase htodo henter)
    case h_2 a henter => exact .single (.skip i rfl hphase htodo henter)
  case h_3 c sec _ hphase =>
    split
    case isTrue => exact .refl
    case isFalse hfree => exact .single (.acquire i rfl hphase (by simpa using hfree))
  case h_4 c f rest l _ hphase => exact .single (.work i rfl hphase)
  case h_5 c l _ hphase => exact .single (.release i rfl hphase)

/-- What threads reach that take turns. -/
theorem reachable_turns (C : Calls α σ ℓ κ) (a : α) (g : σ) (program : ι → List κ)
    (turns : List ι) :
    Reachable C a g program (turns.foldl (State.turn C) (initial a g program)) := by
  induction turns using List.reverseRecOn with
  | nil => exact .refl
  | append_singleton turns i ih =>
    rw [List.foldl_append]
    exact ih.trans (reflTransGen_turn C _ i)

/-! ## The order of the sections -/

/-- The answers of a thread whose calls went on to a section. -/
def Thread.ran (t : Thread σ ℓ κ) : List (κ × ℓ) :=
  t.answers.filterMap fun p => p.2.map fun l => (p.1, l)

theorem Thread.map_fst_ran (t : Thread σ ℓ κ) :
    t.ran.map Prod.fst = (t.answers.filter fun p => p.2.isSome).map Prod.fst := by
  rw [Thread.ran]
  induction t.answers with
  | nil => rfl
  | cons p answers ih =>
    obtain ⟨c, l⟩ := p
    cases l <;> simp [ih]

/-- The calls that a thread has made, with the one it is making. -/
def Thread.made (t : Thread σ ℓ κ) : List κ :=
  t.answers.map Prod.fst ++ t.phase.call?.toList

/-- The calls that sections were run for, each with its thread. -/
def order (log : List (Entry ι σ ℓ κ)) : List (ι × κ) :=
  log.map fun e => (e.thread, e.call)

/-- The calls of one thread. -/
def callsOf (i : ι) (order : List (ι × κ)) : List κ :=
  (order.filter fun p => p.1 = i).map Prod.snd

/-- The answers to one thread. -/
def answersTo (i : ι) (answers : List (ι × κ × ℓ)) : List (κ × ℓ) :=
  (answers.filter fun p => p.1 = i).map Prod.snd

/-- A state is that of the sections of the log, run whole and in order, and of what the holder
has run of its own. -/
structure Serialized (C : Calls α σ ℓ κ) (Q : α → Prop) (g₀ : σ) (program : ι → List κ)
    (log : List (Entry ι σ ℓ κ)) (s : State ι α σ ℓ κ) : Prop where
  atomic : Q s.atomic
  admitted : ∀ e ∈ log, C.Admits Q e.call e.sec
  waiting : ∀ i c sec, (s.threads i).phase = .waiting c sec → C.Admits Q c sec
  free : s.holder = none → s.guarded = after C g₀ log
  held : ∀ i, s.holder = some i → ∃ c ran rest l, (s.threads i).phase = .inside c rest l ∧
    C.Admits Q c (ran ++ rest) ∧ Section.run ran (after C g₀ log) C.start = (s.guarded, l)
  inside : ∀ i c rest l, (s.threads i).phase = .inside c rest l → s.holder = some i
  skipped : ∀ i, ∀ p ∈ (s.threads i).answers, p.2 = none → C.Skips Q p.1
  answers : ∀ i, (s.threads i).ran = answersTo i (answered C g₀ log)
  program : ∀ i, (s.threads i).made ++ (s.threads i).todo = program i

@[simp] theorem State.threads_set (s : State ι α σ ℓ κ) (i : ι) (t : Thread σ ℓ κ) :
    (s.set i t).threads i = t := by
  simp [State.set]

theorem State.threads_set_of_ne (s : State ι α σ ℓ κ) {i j : ι} (h : j ≠ i)
    (t : Thread σ ℓ κ) : (s.set i t).threads j = s.threads j := by
  simp [State.set, h]

/-- What holds of the threads, when one has changed. -/
theorem State.forall_set {s : State ι α σ ℓ κ} {i : ι} {t : Thread σ ℓ κ}
    {R : ι → Thread σ ℓ κ → Prop} (hi : R i t) (hs : ∀ j, j ≠ i → R j (s.threads j)) (j : ι) :
    R j ((s.set i t).threads j) := by
  by_cases hj : j = i
  · subst hj
    rwa [s.threads_set]
  · rw [s.threads_set_of_ne hj]
    exact hs j hj

section Invariant

variable {C : Calls α σ ℓ κ} {Q : α → Prop} {g₀ : σ} {program : ι → List κ}
  {log : List (Entry ι σ ℓ κ)} {s : State ι α σ ℓ κ}

theorem serialized_initial {a : α} (h : Q a) :
    Serialized C Q g₀ program [] (initial a g₀ program) where
  atomic := h
  admitted := by simp
  waiting _ _ _ h := nomatch h
  free _ := rfl
  held _ h := nomatch h
  inside _ _ _ _ h := nomatch h
  skipped _ _ h := nomatch h
  answers _ := rfl
  program _ := rfl

/-- The holder is the thread that is inside. -/
theorem Serialized.ne_holder (h : Serialized C Q g₀ program log s) {i : ι}
    (hphase : ∀ c rest l, (s.threads i).phase ≠ .inside c rest l) : s.holder ≠ some i := by
  intro hholder
  obtain ⟨c, _, rest, l, hinside, -⟩ := h.held i hholder
  exact hphase c rest l hinside

/-- A thread that has changed waits for a section of its call. -/
theorem Serialized.waiting_set (h : Serialized C Q g₀ program log s) {i : ι} {t : Thread σ ℓ κ}
    (ht : ∀ c sec, t.phase = .waiting c sec → C.Admits Q c sec) (j : ι) :
    ∀ c sec, ((s.set i t).threads j).phase = .waiting c sec → C.Admits Q c sec :=
  State.forall_set (R := fun _ t => ∀ c sec, t.phase = .waiting c sec → C.Admits Q c sec) ht
    (fun j _ => h.waiting j) j

/-- A thread that has changed skipped no section it should not. -/
theorem Serialized.skipped_set (h : Serialized C Q g₀ program log s) {i : ι} {t : Thread σ ℓ κ}
    (ht : ∀ p ∈ t.answers, p.2 = none → C.Skips Q p.1) (j : ι) :
    ∀ p ∈ ((s.set i t).threads j).answers, p.2 = none → C.Skips Q p.1 :=
  State.forall_set (R := fun _ t => ∀ p ∈ t.answers, p.2 = none → C.Skips Q p.1) ht
    (fun j _ => h.skipped j) j

/-- A thread that has changed still makes the calls of its program. -/
theorem Serialized.program_set (h : Serialized C Q g₀ program log s) {i : ι} {t : Thread σ ℓ κ}
    (ht : t.made ++ t.todo = (s.threads i).made ++ (s.threads i).todo) (j : ι) :
    ((s.set i t).threads j).made ++ ((s.set i t).threads j).todo = program j :=
  State.forall_set (R := fun j t => t.made ++ t.todo = program j) (ht.trans (h.program i))
    (fun j _ => h.program j) j

/-- A thread that has changed has the answers it had. -/
theorem Serialized.answers_set (h : Serialized C Q g₀ program log s) {i : ι} {t : Thread σ ℓ κ}
    (ht : t.ran = (s.threads i).ran) (j : ι) :
    ((s.set i t).threads j).ran = answersTo j (answered C g₀ log) :=
  State.forall_set (R := fun j t => t.ran = answersTo j (answered C g₀ log))
    (ht.trans (h.answers i)) (fun j _ => h.answers j) j

/-- A step that leaves the sections as they are : the thread `i` does not hold the mutex. -/
theorem Serialized.outside (h : Serialized C Q g₀ program log s) {i : ι} {t : Thread σ ℓ κ}
    {a : α} (ha : Q a) (hbefore : ∀ c rest l, (s.threads i).phase ≠ .inside c rest l)
    (hafter : ∀ c rest l, t.phase ≠ .inside c rest l)
    (hwaiting : ∀ c sec, t.phase = .waiting c sec → C.Admits Q c sec)
    (hskipped : ∀ p ∈ t.answers, p.2 = none → C.Skips Q p.1)
    (hran : t.ran = (s.threads i).ran)
    (hmade : t.made ++ t.todo = (s.threads i).made ++ (s.threads i).todo) :
    Serialized C Q g₀ program log { s.set i t with atomic := a } where
  atomic := ha
  admitted := h.admitted
  waiting := h.waiting_set hwaiting
  free := h.free
  held j hj := by
    have hne : j ≠ i := by
      rintro rfl
      exact h.ne_holder hbefore hj
    obtain ⟨c, ran, rest, l, hinside, hrest⟩ := h.held j hj
    refine ⟨c, ran, rest, l, ?_, hrest⟩
    exact (congrArg Thread.phase (s.threads_set_of_ne hne t)).trans hinside
  inside := State.forall_set (R := fun j t => ∀ c rest l, t.phase = .inside c rest l →
    s.holder = some j) (fun c rest l hin => absurd hin (hafter c rest l)) fun j _ => h.inside j
  skipped := h.skipped_set hskipped
  answers := h.answers_set hran
  program := h.program_set hmade

/-- Taking the mutex, a thread has run nothing of its section. -/
theorem Serialized.acquire (h : Serialized C Q g₀ program log s) {i : ι} {c : κ}
    {sec : Section σ ℓ} (hphase : (s.threads i).phase = .waiting c sec)
    (hfree : s.holder = none) :
    Serialized C Q g₀ program log
      { s.set i { s.threads i with phase := .inside c sec C.start } with holder := some i } where
  atomic := h.atomic
  admitted := h.admitted
  waiting := h.waiting_set fun _ _ hw => nomatch hw
  free hnone := nomatch hnone
  held := by
    rintro j ⟨⟩
    exact ⟨c, [], sec, C.start, by simp, h.waiting i c sec hphase,
      Prod.ext (h.free hfree).symm rfl⟩
  inside := by
    refine State.forall_set (R := fun j t => ∀ c rest l, t.phase = .inside c rest l →
      some i = some j) (fun _ _ _ _ => rfl) fun j _ c rest l hin => ?_
    exact absurd (h.inside j c rest l hin) (by simp [hfree])
  skipped := h.skipped_set (h.skipped i)
  answers := h.answers_set rfl
  program := h.program_set (by simp [Thread.made, hphase, Phase.call?])

/-- A step of a section goes to what the holder has run. -/
theorem Serialized.work (h : Serialized C Q g₀ program log s) {i : ι} {c : κ}
    {f : σ → ℓ → σ × ℓ} {rest : Section σ ℓ} {l : ℓ}
    (hphase : (s.threads i).phase = .inside c (f :: rest) l) :
    Serialized C Q g₀ program log
      { s.set i { s.threads i with phase := .inside c rest (f s.guarded l).2 } with
        guarded := (f s.guarded l).1 } where
  atomic := h.atomic
  admitted := h.admitted
  waiting := h.waiting_set fun _ _ hw => nomatch hw
  free hnone := absurd ((h.inside i _ _ _ hphase).symm.trans hnone) (by simp)
  held j hj := by
    have hholder := h.inside i _ _ _ hphase
    obtain ⟨c', ran, rest', l', hinside, hadmits, hrun⟩ := h.held i hholder
    obtain ⟨rfl, rfl, rfl⟩ := Phase.inside.inj (hphase.symm.trans hinside)
    obtain rfl := Option.some.inj (hholder.symm.trans hj)
    refine ⟨c, ran ++ [f], rest, (f s.guarded l).2, by simp, by simpa using hadmits, ?_⟩
    rw [Section.run_snoc, hrun]
  inside := State.forall_set (R := fun j t => ∀ c rest l, t.phase = .inside c rest l →
    s.holder = some j) (fun _ _ _ _ => h.inside i _ _ _ hphase) fun j _ => h.inside j
  skipped := h.skipped_set (h.skipped i)
  answers := h.answers_set rfl
  program := h.program_set (by simp [Thread.made, hphase, Phase.call?])

/-- Releasing the mutex, a thread has run the section whole, after those of the log. -/
theorem Serialized.release (h : Serialized C Q g₀ program log s) {i : ι} {c : κ} {l : ℓ}
    {ran : Section σ ℓ} (hphase : (s.threads i).phase = .inside c [] l)
    (hadmits : C.Admits Q c ran)
    (hrun : Section.run ran (after C g₀ log) C.start = (s.guarded, l)) :
    Serialized C Q g₀ program (log ++ [⟨i, c, ran⟩])
      { s.set i { s.threads i with
          phase := .idle, answers := (s.threads i).answers ++ [(c, some l)] } with
        holder := none } where
  atomic := h.atomic
  admitted e he := by
    obtain he | he := List.mem_append.1 he
    · exact h.admitted e he
    · obtain rfl := List.mem_singleton.1 he
      exact hadmits
  waiting := h.waiting_set fun _ _ hw => nomatch hw
  free _ := by
    rw [after_append]
    exact (congrArg Prod.fst hrun).symm
  held _ hj := nomatch hj
  inside := by
    have hholder := h.inside i _ _ _ hphase
    refine State.forall_set (R := fun j t => ∀ c rest l, t.phase = .inside c rest l →
      none = some j) (fun _ _ _ hin => nomatch hin) fun j hne c rest l hin => ?_
    exact absurd (Option.some.inj ((h.inside j c rest l hin).symm.trans hholder)) hne
  skipped := by
    refine h.skipped_set fun p hp hnone => ?_
    obtain hp | hp := List.mem_append.1 hp
    · exact h.skipped i p hp hnone
    · obtain rfl := List.mem_singleton.1 hp
      exact nomatch hnone
  answers := by
    have hanswered : answered C g₀ (log ++ [⟨i, c, ran⟩]) =
        answered C g₀ log ++ [(i, c, l)] := by
      rw [answered_append, answered, hrun, answered]
    rw [hanswered]
    refine State.forall_set (R := fun j t => t.ran = answersTo j _) ?_ fun j hne => ?_
    · have := h.answers i
      simp_all [Thread.ran, answersTo]
    · rw [h.answers j]
      simp [answersTo, hne.symm]
  program := h.program_set (by simp [Thread.made, hphase, Phase.call?])

/-- A step keeps the order, and puts the section that is over at its end. -/
theorem Serialized.step (h : Serialized C Q g₀ program log s)
    (hQ : ∀ i, ∀ c ∈ program i, ∀ a, Q a → Q (C.enter c a).1) {s' : State ι α σ ℓ κ}
    (hstep : Step C s s') : ∃ log', Serialized C Q g₀ program log' s' := by
  have hsaved : ∀ {i c cs}, (s.threads i).todo = c :: cs → Q (C.enter c s.atomic).1 := by
    intro i c cs htodo
    refine hQ i c ?_ _ h.atomic
    rw [← h.program i, htodo]
    simp
  cases hstep with
  | @enter i t ht hphase c cs htodo a sec henter =>
    subst ht
    have ha := hsaved htodo
    rw [henter] at ha
    refine ⟨log, h.outside ha (by simp [hphase]) (by simp) ?_ (h.skipped i) rfl ?_⟩
    · rintro _ _ ⟨⟩
      exact ⟨s.atomic, h.atomic, by rw [henter]⟩
    · simp [Thread.made, hphase, htodo, Phase.call?]
  | @skip i t ht hphase c cs htodo a henter =>
    subst ht
    have ha := hsaved htodo
    rw [henter] at ha
    refine ⟨log, h.outside ha (by simp [hphase]) (by simp [hphase]) (by simp [hphase]) ?_ ?_ ?_⟩
    · intro p hp hnone
      obtain hp | hp := List.mem_append.1 hp
      · exact h.skipped i p hp hnone
      · obtain rfl := List.mem_singleton.1 hp
        exact ⟨s.atomic, h.atomic, by rw [henter]⟩
    · simp [Thread.ran]
    · simp [Thread.made, hphase, htodo, Phase.call?]
  | @acquire i t ht c sec hphase hfree =>
    subst ht
    exact ⟨log, h.acquire hphase hfree⟩
  | @work i t ht c f rest l hphase =>
    subst ht
    exact ⟨log, h.work hphase⟩
  | @release i t ht c l hphase =>
    subst ht
    obtain ⟨c', ran, rest', l', hinside, hadmits, hrun⟩ := h.held i (h.inside i _ _ _ hphase)
    obtain ⟨rfl, rfl, rfl⟩ := Phase.inside.inj (hphase.symm.trans hinside)
    rw [List.append_nil] at hadmits
    exact ⟨_, h.release hphase hadmits hrun⟩

/-- What threads reach is some sections run whole, one after the other. -/
theorem serialized_of_reachable {a : α} (ha : Q a)
    (hQ : ∀ i, ∀ c ∈ program i, ∀ a, Q a → Q (C.enter c a).1)
    (hreach : Reachable C a g₀ program s) : ∃ log, Serialized C Q g₀ program log s := by
  induction hreach with
  | refl => exact ⟨[], serialized_initial ha⟩
  | tail _ hstep ih =>
    obtain ⟨log, h⟩ := ih
    exact h.step hQ hstep

/-- The order has the calls of each thread as its answers do. -/
theorem Serialized.callsOf_order (h : Serialized C Q g₀ program log s) (i : ι) :
    callsOf i (order log) = (s.threads i).ran.map Prod.fst := by
  have hanswered : ∀ (g : σ) (log : List (Entry ι σ ℓ κ)),
      (answersTo i (answered C g log)).map Prod.fst = callsOf i (order log) := by
    intro g log
    induction log generalizing g with
    | nil => rfl
    | cons e log ih =>
      simp only [answersTo, callsOf, order, answered, List.map_cons, List.filter_cons] at ih ⊢
      by_cases hthread : e.thread = i <;> simp [hthread, ih]
  rw [h.answers i, hanswered]

/-- Where every call goes on to a section, it has an answer from it. -/
theorem Serialized.ran_calls (h : Serialized C Q g₀ program log s) (hC : ∀ c, ¬C.Skips Q c)
    (i : ι) : (s.threads i).ran.map Prod.fst = (s.threads i).answers.map Prod.fst := by
  rw [Thread.map_fst_ran, List.filter_eq_self.2]
  intro p hp
  by_contra hnone
  exact hC p.1 (h.skipped i p hp (by simpa using hnone))

/-- An answer from a section is from one that the call goes on to. -/
theorem Serialized.admits (h : Serialized C Q g₀ program log s) {i : ι} {p : κ × Option ℓ}
    (hp : p ∈ (s.threads i).answers) (hsome : p.2.isSome) : ∃ sec, C.Admits Q p.1 sec := by
  have hmem : p.1 ∈ callsOf i (order log) := by
    rw [h.callsOf_order, Thread.map_fst_ran]
    exact List.mem_map_of_mem (List.mem_filter.2 ⟨hp, hsome⟩)
  obtain ⟨q, hq, hcall⟩ := List.mem_map.1 hmem
  obtain ⟨e, he, rfl⟩ := List.mem_map.1 (List.mem_filter.1 hq).1
  exact ⟨e.sec, hcall ▸ h.admitted e he⟩

/-- The calls a thread has answers to are those its program starts with. -/
theorem Serialized.answers_prefix (h : Serialized C Q g₀ program log s) (i : ι) :
    (s.threads i).answers.map Prod.fst <+: program i := by
  rw [← h.program i, Thread.made, List.append_assoc]
  exact List.prefix_append _ _

/-- A thread with all of its calls made. -/
def Thread.Finished (t : Thread σ ℓ κ) : Prop :=
  t.phase = .idle ∧ t.todo = []

/-- A thread that has finished has answers to all of its program. -/
theorem Serialized.answers_of_finished (h : Serialized C Q g₀ program log s) {i : ι}
    (hi : (s.threads i).Finished) : (s.threads i).answers.map Prod.fst = program i := by
  rw [← h.program i, Thread.made, hi.1, hi.2]
  simp [Phase.call?]

/-- The mutex is free where all threads have finished. -/
theorem Serialized.free_of_finished (h : Serialized C Q g₀ program log s)
    (hs : ∀ i, (s.threads i).Finished) : s.holder = none := by
  refine Option.eq_none_iff_forall_ne_some.2 fun i => h.ne_holder fun c rest l hin => ?_
  cases (hs i).1.symm.trans hin

end Invariant

/-- What is summed over an order is summed over its threads. -/
theorem sum_callsOf [Fintype ι] (f : κ → ℕ) (order : List (ι × κ)) :
    ∑ i, ((callsOf i order).map f).sum = (order.map fun p => f p.2).sum := by
  induction order with
  | nil => simp [callsOf]
  | cons p order ih =>
    have hcons : ∀ i, ((callsOf i (p :: order)).map f).sum =
        (if p.1 = i then f p.2 else 0) + ((callsOf i order).map f).sum := by
      intro i
      by_cases hi : p.1 = i <;> simp [callsOf, hi]
    simp only [hcons, Finset.sum_add_distrib, ih, Finset.sum_ite_eq, Finset.mem_univ, if_true,
      List.map_cons, List.sum_cons]

/-! ## Every run ends -/

/-- There is no deadlock : where a thread has not finished, some thread takes a step. -/
theorem Serialized.exists_step {C : Calls α σ ℓ κ} {Q : α → Prop} {g₀ : σ}
    {program : ι → List κ} {log : List (Entry ι σ ℓ κ)} {s : State ι α σ ℓ κ}
    (h : Serialized C Q g₀ program log s) {i : ι} (hi : ¬(s.threads i).Finished) :
    ∃ s', Step C s s' := by
  cases hholder : s.holder with
  | some j =>
    obtain ⟨c, _, rest, l, hinside, -⟩ := h.held j hholder
    cases rest with
    | nil => exact ⟨_, .release j rfl hinside⟩
    | cons f rest => exact ⟨_, .work j rfl hinside⟩
  | none =>
    cases hphase : (s.threads i).phase with
    | idle =>
      cases htodo : (s.threads i).todo with
      | nil => exact absurd ⟨hphase, htodo⟩ hi
      | cons c cs =>
        cases hsec : (C.enter c s.atomic).2 with
        | none => exact ⟨_, .skip i rfl hphase htodo (Prod.ext rfl hsec)⟩
        | some sec => exact ⟨_, .enter i rfl hphase htodo (Prod.ext rfl hsec)⟩
    | waiting c sec => exact ⟨_, .acquire i rfl hphase hholder⟩
    | inside c rest l => exact absurd (h.inside i c rest l hphase) (by simp [hholder])

/-- No section is longer than `n` steps. -/
def Calls.Bounded (C : Calls α σ ℓ κ) (n : ℕ) : Prop :=
  ∀ c a sec, (C.enter c a).2 = some sec → sec.length ≤ n

/-- The steps to the end of the call that is being made. -/
def Phase.left : Phase σ ℓ κ → ℕ
  | idle => 0
  | waiting _ sec => sec.length + 2
  | inside _ rest _ => rest.length + 1

/-- The steps that are left to a thread, at most. -/
def Thread.left (n : ℕ) (t : Thread σ ℓ κ) : ℕ :=
  t.todo.length * (n + 3) + t.phase.left

variable [Fintype ι]

/-- The steps that are left, at most. -/
def State.left (n : ℕ) (s : State ι α σ ℓ κ) : ℕ :=
  ∑ i, (s.threads i).left n

theorem State.left_set_lt {n : ℕ} {s : State ι α σ ℓ κ} {i : ι} {t : Thread σ ℓ κ}
    (h : t.left n < (s.threads i).left n) : (s.set i t).left n < s.left n := by
  refine Finset.sum_lt_sum (fun j _ => ?_) ⟨i, Finset.mem_univ i, by rwa [s.threads_set]⟩
  exact State.forall_set (R := fun j t => t.left n ≤ (s.threads j).left n) h.le
    (fun _ _ => le_rfl) j

/-- Every step leaves fewer. -/
theorem Step.left_lt {C : Calls α σ ℓ κ} {n : ℕ} (hC : C.Bounded n)
    {s s' : State ι α σ ℓ κ} (h : Step C s s') : s'.left n < s.left n := by
  cases h with
  | @enter i t ht hphase c cs htodo a sec henter =>
    subst ht
    have hlength := hC c s.atomic sec (by rw [henter])
    refine State.left_set_lt ?_
    simp only [Thread.left, Phase.left, hphase, htodo, List.length_cons, Nat.succ_mul]
    omega
  | @skip i t ht hphase c cs htodo a henter =>
    subst ht
    refine State.left_set_lt ?_
    simp only [Thread.left, Phase.left, hphase, htodo, List.length_cons, Nat.succ_mul]
    omega
  | @acquire i t ht c sec hphase hfree =>
    subst ht
    exact State.left_set_lt (by simp [Thread.left, Phase.left, hphase])
  | @work i t ht c f rest l hphase =>
    subst ht
    exact State.left_set_lt (by simp [Thread.left, Phase.left, hphase])
  | @release i t ht c l hphase =>
    subst ht
    exact State.left_set_lt (by simp [Thread.left, Phase.left, hphase])

/-- No run goes on forever. -/
theorem not_forall_step {C : Calls α σ ℓ κ} {n : ℕ} (hC : C.Bounded n)
    (run : ℕ → State ι α σ ℓ κ) : ¬∀ k, Step C (run k) (run (k + 1)) := by
  intro hrun
  have hle : ∀ k, (run k).left n + k ≤ (run 0).left n := by
    intro k
    induction k with
    | zero => exact le_rfl
    | succ k ih =>
      have := (hrun k).left_lt hC
      omega
  have := hle ((run 0).left n + 1)
  omega

/-- What is reached goes on to where all calls are made. -/
theorem exists_finished {C : Calls α σ ℓ κ} {n : ℕ} (hC : C.Bounded n) {a : α} {g : σ}
    {program : ι → List κ} {s : State ι α σ ℓ κ} (hreach : Reachable C a g program s) :
    ∃ s', Relation.ReflTransGen (Step C) s s' ∧ ∀ i, (s'.threads i).Finished := by
  induction hk : s.left n using Nat.strong_induction_on generalizing s with
  | _ k ih =>
    by_cases hdone : ∀ i, (s.threads i).Finished
    · exact ⟨s, .refl, hdone⟩
    · obtain ⟨i, hi⟩ := not_forall.1 hdone
      obtain ⟨log, h⟩ := serialized_of_reachable (Q := fun _ => True) trivial
        (fun _ _ _ _ _ => trivial) hreach
      obtain ⟨s', hstep⟩ := h.exists_step hi
      obtain ⟨s'', hrun, hfinished⟩ := ih _ (hk ▸ hstep.left_lt hC) (hreach.tail hstep) rfl
      exact ⟨s'', .head hstep hrun, hfinished⟩

end Mutex

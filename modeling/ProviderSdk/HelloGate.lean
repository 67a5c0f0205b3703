import ProviderSdk.Session
import ProviderSdk.Answers

/-!
# The Hello gate and the lifecycle hooks

Over whole runs of `run_loop`, whatever the provider, the codec and the streams.

A session's state is a summary of its events so far : `helloCompleted_iff` for the gate,
`countP_isStart` for the start-up, `exists_shutdown` for the end, and `Past` for the request
at hand. `runLoop_gate` reads the laws of the gate and of the hooks off them.
-/

namespace ProviderSdk

variable {σ : Type}

namespace Session

/-! ## What happened so far -/

/-- A Hello was handled with `CODE_OK`. -/
def HelloSucceeded (es : List Event) : Prop :=
  ∃ hello response, hello.hasHello = true ∧ response.status.code = .ok ∧
    Event.handled hello response ∈ es

/-- A Hello was handled with `CODE_OK`, and a response to it was written. -/
def HelloAnswered (es : List Event) : Prop :=
  ∃ before hello response sent frame after,
    es = before ++ .handled hello response :: .wrote hello response sent frame :: after ∧
      hello.hasHello = true ∧ response.status.code = .ok

/-- The event is the start-up. -/
def isStart : Event → Bool
  | .onInitialize _ => true
  | _ => false

theorem HelloAnswered.append {es : List Event} (h : HelloAnswered es) (es' : List Event) :
    HelloAnswered (es ++ es') := by
  obtain ⟨before, hello, response, sent, frame, after, rfl, hhello, hok⟩ := h
  exact ⟨before, hello, response, sent, frame, after ++ es', by simp, hhello, hok⟩

theorem helloSucceeded_snoc {es : List Event} {e : Event} :
    HelloSucceeded (es ++ [e]) ↔ HelloSucceeded es ∨
      ∃ hello response, hello.hasHello = true ∧ response.status.code = .ok ∧
        e = .handled hello response := by
  constructor
  · rintro ⟨hello, response, hhello, hok, hmem⟩
    rcases List.mem_append.mp hmem with hmem | hmem
    · exact .inl ⟨hello, response, hhello, hok, hmem⟩
    · exact .inr ⟨hello, response, hhello, hok, (List.mem_singleton.mp hmem).symm⟩
  · rintro (⟨hello, response, hhello, hok, hmem⟩ | ⟨hello, response, hhello, hok, rfl⟩)
    · exact ⟨hello, response, hhello, hok, List.mem_append_left _ hmem⟩
    · exact ⟨hello, response, hhello, hok, by simp⟩

/-- An event that is no response of a handler leaves the Hellos as they were. -/
theorem helloSucceeded_snoc_of_ne {es : List Event} {e : Event}
    (he : ∀ request response, e ≠ .handled request response) :
    HelloSucceeded (es ++ [e]) ↔ HelloSucceeded es := by
  rw [helloSucceeded_snoc]
  refine or_iff_left ?_
  rintro ⟨hello, response, -, -, h⟩
  exact he hello response h

theorem MayAsk.isQuestion {flags : Flags} {request : Request} {e : Event}
    (h : MayAsk flags request e) : e.IsQuestion := by
  unfold MayAsk at h
  split_ifs at h
  · cases e with
    | invoked _ => trivial
    | _ => exact h.elim
  · exact h.1

variable {codec : Codec} {es : List Event} {st : State}

/-- The fresh state. -/
def init : State :=
  ⟨⟨false, false⟩, .idle⟩

/-- The gate is open exactly once a Hello succeeded. -/
theorem helloCompleted_iff (h : Runs (Step codec) init es st) :
    st.flags.helloCompleted = true ↔ HelloSucceeded es := by
  refine h.history (I := fun es st => st.flags.helloCompleted = true ↔ HelloSucceeded es) ?_ ?_
  · simp [init, HelloSucceeded]
  · intro past u e u' _ ih hstep
    cases hstep with
    | @handle flags request asked response hgate hmade =>
      rw [helloSucceeded_snoc, ← ih]
      simp only [Flags.after, Bool.or_eq_true, Bool.and_eq_true, decide_eq_true_eq]
      refine or_congr Iff.rfl ⟨fun h => ⟨request, response, h.1, h.2, rfl⟩, ?_⟩
      rintro ⟨hello, response', hhello, hok, h⟩
      cases h
      exact ⟨hhello, hok⟩
    | ask asked hask =>
      rw [helloSucceeded_snoc_of_ne, ih]
      rintro request response rfl
      exact hask.isQuestion
    | _ =>
      rw [helloSucceeded_snoc_of_ne (fun _ _ h => by cases h)]
      exact ih

/-- The start-up comes after Hello, no other request is served between the two, and the
WaitReady hook is due only after Hello. -/
def Ready (st : State) : Prop :=
  (st.flags.initialized = true → st.flags.helloCompleted = true) ∧
    match st.phase with
    | .starting request => st.flags.helloCompleted = true ∧ st.flags.initialized = false ∧
        request.hasHello = false
    | .serving request _ => request.hasHello = false → st.flags.helloCompleted = true →
        st.flags.initialized = true
    | .hooking _ _ => st.flags.helloCompleted = true
    | _ => True

theorem ready_of_runs (h : Runs (Step codec) init es st) : Ready st := by
  refine h.invariant ⟨by simp [init], trivial⟩ fun u e u' ih hstep => ?_
  cases hstep with
  | receive flags request =>
    refine ⟨ih.1, ?_⟩
    unfold entry
    split_ifs with hentry
    · simpa [and_assoc] using hentry
    · intro (hhello : request.hasHello = false) (hdone : flags.helloCompleted = true)
      simpa [hhello, hdone] using hentry
  | start flags request =>
    obtain ⟨-, hdone, -, -⟩ := ih
    exact ⟨fun _ => hdone, fun _ _ => rfl⟩
  | ask asked hask => exact ih
  | @handle flags request asked response hgate hmade =>
    refine ⟨fun hinit => ?_, ?_⟩
    · have hdone : flags.helloCompleted = true := ih.1 hinit
      simp [Flags.after, hdone]
    · split_ifs with hwait
      · have hdone : flags.helloCompleted = true := by
          refine hgate.resolve_left fun hhello => ?_
          simp [hasWaitReady_of_hasHello hhello] at hwait
        simp [Flags.after, hdone]
      · trivial
  | _ => exact ⟨ih.1, trivial⟩

theorem isStart_of_mayAsk {flags : Flags} {request : Request} {e : Event}
    (h : MayAsk flags request e) : isStart e = false := by
  cases e with
  | onInitialize budget => exact h.isQuestion.elim
  | _ => rfl

/-- The start-up ran once if the session is initialized, and not otherwise. -/
theorem countP_isStart (h : Runs (Step codec) init es st) :
    es.countP isStart = if st.flags.initialized then 1 else 0 := by
  refine h.history (I := fun es st => es.countP isStart = if st.flags.initialized then 1 else 0)
    rfl fun past u e u' hpast ih hstep => ?_
  have hready := ready_of_runs hpast
  rw [List.countP_append, ih]
  cases hstep with
  | start flags request =>
    have hfresh : flags.initialized = false := hready.2.2.1
    simp [hfresh, isStart]
  | ask asked hask => simp [isStart_of_mayAsk hask]
  | _ => rfl

/-- Before the start-up only metadata is asked. -/
theorem isMetadata_of_mem (h : Runs (Step codec) init es st) (hinit : st.flags.initialized = false)
    {i : Invocation} (hi : .invoked i ∈ es) : IsMetadata (.invoked i) := by
  refine h.history (I := fun es st => st.flags.initialized = false →
    ∀ i, .invoked i ∈ es → IsMetadata (.invoked i)) (by simp) ?_ hinit i hi
  intro past u e u' hpast ih hstep hinit i hi
  have hready := ready_of_runs hpast
  rcases List.mem_append.mp hi with hpi | hei
  · cases hstep with
    | start flags request => cases hinit
    | _ => exact ih hinit i hpi
  · cases List.mem_singleton.mp hei
    cases hstep with
    | @ask flags request _ asked hask =>
      by_cases hhello : request.hasHello = true
      · simpa [MayAsk, hhello] using hask
      · have hdone : flags.helloCompleted = true := by
          simp only [MayAsk, hhello] at hask
          exact hask.2
        have hthen : flags.initialized = true := hready.2 (by simpa using hhello) hdone
        exact absurd hinit (by simp [hthen])

/-- The shutdown hook does not fire before the end. -/
theorem shutdown_not_mem (h : Runs (Step codec) init es st) (hphase : st.phase ≠ .stopped) :
    .onShutdown ∉ es := by
  refine h.history (I := fun es st => st.phase ≠ .stopped → .onShutdown ∉ es) (by simp) ?_ hphase
  intro past u e u' hpast ih hstep hphase hmem
  rcases List.mem_append.mp hmem with hmem | hmem
  · refine ih (fun hu => ?_) hmem
    cases hstep <;> cases hu
  · cases List.mem_singleton.mp hmem
    cases hstep with
    | ask asked hask => exact hask.isQuestion
    | shutdownIdle => exact hphase rfl
    | shutdownStopping => exact hphase rfl

/-- The shutdown hook is the last event of a session that stopped. -/
theorem exists_shutdown (h : Runs (Step codec) init es st) (hphase : st.phase = .stopped) :
    ∃ before, es = before ++ [.onShutdown] ∧ .onShutdown ∉ before := by
  refine h.history (I := fun es st => st.phase = .stopped →
    ∃ before, es = before ++ [.onShutdown] ∧ .onShutdown ∉ before) (by simp [init]) ?_ hphase
  intro past u e u' hpast _ hstep hphase
  cases hstep with
  | shutdownIdle flags => exact ⟨past, rfl, shutdown_not_mem hpast (by simp)⟩
  | shutdownStopping flags => exact ⟨past, rfl, shutdown_not_mem hpast (by simp)⟩
  | receive flags request =>
    unfold entry at hphase
    split_ifs at hphase
  | handle hgate hmade =>
    dsimp only at hphase
    split_ifs at hphase
  | _ => cases hphase

/-- After a write that failed the session only stops. -/
theorem stopping_of_writeFailed (h : Runs (Step codec) init es st) {r : Request}
    (hmem : .writeFailed r ∈ es) : st.phase = .stopping ∨ st.phase = .stopped := by
  refine h.history (I := fun es st => .writeFailed r ∈ es → st.phase = .stopping ∨
    st.phase = .stopped) (by simp) ?_ hmem
  intro past u e u' _ ih hstep hmem
  rcases List.mem_append.mp hmem with hmem | hmem
  · obtain hphase | hphase := ih hmem <;> cases hstep <;> cases hphase
    exact .inr rfl
  · cases List.mem_singleton.mp hmem
    cases hstep with
    | ask asked hask => exact hask.isQuestion.elim
    | fail => exact .inl rfl

/-- A write fails only where the exit code is 5. -/
theorem code_of_writeFailed {code : ℕ} {flags : Flags}
    (h : Runs (Step codec) init es ⟨flags, lastPhase code⟩) {r : Request}
    (hmem : .writeFailed r ∈ es) : code = 5 := by
  by_contra hcode
  have hphase := stopping_of_writeFailed h hmem
  simp [lastPhase, hcode] at hphase

/-! ## The request at hand -/

/-- What the events so far say about the request a phase is at. -/
def Past (es : List Event) (flags : Flags) : Phase → Prop
  | .idle => flags.helloCompleted = true → HelloAnswered es
  | .starting request => ∃ past, es = past ++ [.received request] ∧ HelloAnswered past ∧
      request.hasHello = false
  | .serving request asked =>
    (∃ past start, es = past ++ .received request :: (start ++ asked) ∧
      (start = [] ∨ request.hasHello = false ∧ start = [.onInitialize (initializeBudget request)])) ∧
      (flags.helloCompleted = true → HelloAnswered es)
  | .hooking request response =>
    (∃ past, es = past ++ [.handled request response]) ∧ request.hasWaitReady = true ∧
      (flags.helloCompleted = true → HelloAnswered es)
  | .replying request response =>
    flags.helloCompleted = true → HelloAnswered es ∨
      ∃ past, es = past ++ [.handled request response] ∧ request.hasHello = true ∧
        response.status.code = .ok
  | .stopping | .stopped => True

theorem past_of_runs (h : Runs (Step codec) init es st) : Past es st.flags st.phase := by
  refine h.history (I := fun es st => Past es st.flags st.phase) (by simp [Past, init]) ?_
  intro past u e u' hpast ih hstep
  cases hstep with
  | receive flags request =>
    unfold entry
    split_ifs with hentry
    · have hheld : (flags.helloCompleted = true ∧ flags.initialized = false) ∧
          request.hasHello = false := by simpa using hentry
      exact ⟨past, rfl, ih hheld.1.1, hheld.2⟩
    · exact ⟨⟨past, [], rfl, .inl rfl⟩, fun hdone => (ih hdone).append _⟩
  | start flags request =>
    obtain ⟨past, rfl, hanswered, hhello⟩ := ih
    refine ⟨⟨past, [.onInitialize (initializeBudget request)], by simp, .inr ⟨hhello, rfl⟩⟩, ?_⟩
    exact fun _ => (hanswered.append _).append _
  | @ask flags request e asked hask =>
    obtain ⟨⟨past, start, rfl, hstart⟩, hhello⟩ := ih
    exact ⟨⟨past, start, by simp, hstart⟩, fun hdone => (hhello hdone).append _⟩
  | @handle flags request asked response hgate hmade =>
    obtain ⟨-, hhello⟩ := ih
    split_ifs with hwait
    · refine ⟨⟨past, rfl⟩, hwait, fun hdone => (hhello ?_).append _⟩
      have hno : request.hasHello = false := by
        by_contra h
        simp [hasWaitReady_of_hasHello (by simpa using h)] at hwait
      simpa [Flags.after, hno] using hdone
    · intro hdone
      by_cases hearlier : flags.helloCompleted = true
      · exact .inl ((hhello hearlier).append _)
      · have hnow : request.hasHello = true ∧ response.status.code = .ok := by
          simpa [Flags.after, hearlier] using hdone
        exact .inr ⟨past, rfl, hnow.1, hnow.2⟩
  | @refuse flags request hhello hgate =>
    intro (hdone : flags.helloCompleted = true)
    rw [hgate] at hdone
    cases hdone
  | hook flags request response =>
    exact fun hdone => .inl ((ih.2.2 hdone).append _)
  | write flags request response =>
    intro hdone
    rcases ih hdone with hhello | ⟨past, rfl, hhello, hok⟩
    · exact hhello.append _
    · exact ⟨past, request, response, (encodeResponse codec request response).1,
        (encodeResponse codec request response).2, [], by simp, hhello, hok⟩
  | fail flags request response => trivial
  | shutdownIdle flags => trivial
  | shutdownStopping flags => trivial

/-! ## What comes next -/

variable {flags : Flags} {request : Request} {response : Response} {asked : List Event}

theorem next_of_starting (h : Runs (Step codec) ⟨flags, .starting request⟩ es st)
    (hst : st.phase = .stopped) : ∃ es', es = .onInitialize (initializeBudget request) :: es' := by
  rcases h with _ | ⟨hstep, hrest⟩
  · cases hst
  · cases hstep
    exact ⟨_, rfl⟩

/-- A response is written, or the write fails and the session ends. -/
theorem next_of_replying (h : Runs (Step codec) ⟨flags, .replying request response⟩ es st)
    (hst : st.phase = .stopped) :
    (∃ es', es = .wrote request response (encodeResponse codec request response).1
      (encodeResponse codec request response).2 :: es') ∨
      es = [.writeFailed request, .onShutdown] := by
  rcases h with _ | ⟨hstep, hrest⟩
  · cases hst
  · cases hstep with
    | write => exact .inl ⟨_, rfl⟩
    | fail =>
      rcases hrest with _ | ⟨hshutdown, hrest⟩
      · cases hst
      · cases hshutdown with
        | shutdownStopping =>
          rcases hrest with _ | ⟨hmore, -⟩
          · exact .inr rfl
          · cases hmore

theorem next_of_hooking (h : Runs (Step codec) ⟨flags, .hooking request response⟩ es st)
    (hst : st.phase = .stopped) : ∃ es', es = .onWaitReady :: es' := by
  rcases h with _ | ⟨hstep, hrest⟩
  · cases hst
  · cases hstep
    exact ⟨_, rfl⟩

/-- A request that is served is handled or refused, after questions alone. -/
theorem next_of_serving (h : Runs (Step codec) ⟨flags, .serving request asked⟩ es st)
    (hst : st.phase = .stopped) :
    ∃ questions e es', es = questions ++ e :: es' ∧ (∀ q ∈ questions, q.IsQuestion) ∧
      ∃ response, e = .handled request response ∨ e = .refused request response := by
  induction es generalizing asked with
  | nil =>
    cases h
    cases hst
  | cons e es ih =>
    rcases h with _ | ⟨hstep, hrest⟩
    cases hstep with
    | ask asked hask =>
      obtain ⟨questions, e', es', rfl, hq, he⟩ := ih hrest
      refine ⟨e :: questions, e', es', rfl, ?_, he⟩
      intro q hmem
      rcases List.mem_cons.mp hmem with rfl | hmem
      · exact hask.isQuestion
      · exact hq q hmem
    | handle hgate hmade => exact ⟨[], _, es, rfl, by simp, _, .inl rfl⟩
    | refuse hhello hgate => exact ⟨[], _, es, rfl, by simp, _, .inr rfl⟩

/-- A request that was received is handled or refused, after the start-up and questions
alone. -/
theorem next_of_entry (h : Runs (Step codec) ⟨flags, entry flags request⟩ es st)
    (hst : st.phase = .stopped) :
    ∃ between e es', es = between ++ e :: es' ∧
      (∀ q ∈ between, q.IsQuestion ∨ isStart q = true) ∧
        ∃ response, e = .handled request response ∨ e = .refused request response := by
  unfold entry at h
  split_ifs at h
  · rcases h with _ | ⟨hstep, hrest⟩
    · cases hst
    · cases hstep
      obtain ⟨questions, e, es', rfl, hq, he⟩ := next_of_serving hrest hst
      refine ⟨.onInitialize (initializeBudget request) :: questions, e, es', rfl, ?_, he⟩
      intro q hmem
      rcases List.mem_cons.mp hmem with rfl | hmem
      · exact .inr rfl
      · exact .inl (hq q hmem)
  · obtain ⟨questions, e, es', rfl, hq, he⟩ := next_of_serving h hst
    exact ⟨questions, e, es', rfl, fun q hmem => .inl (hq q hmem), he⟩

/-! ## What a step may do -/

/-- Before a Hello succeeds a step calls `metadata()` alone, runs no hook, and handles
nothing but a Hello. -/
theorem closed_of_step {pre : List Event} {u u' : State} {e : Event}
    (hpre : Runs (Step codec) init pre u) (hstep : Step codec u e u') (hno : ¬HelloSucceeded pre) :
    (∀ i, e = .invoked i → IsMetadata e) ∧ isStart e = false ∧ e ≠ .onWaitReady ∧
      ∀ r response, e = .handled r response → r.hasHello = true := by
  have hclosed : u.flags.helloCompleted = false := by
    rwa [← helloCompleted_iff hpre, Bool.not_eq_true] at hno
  have hready := ready_of_runs hpre
  cases hstep with
  | @ask flags request _ asked hask =>
    have hhello : request.hasHello = true := by
      by_contra h
      simp only [MayAsk, h] at hask
      exact absurd hask.2 (by simpa using hclosed)
    refine ⟨fun i _ => by simpa [MayAsk, hhello] using hask, isStart_of_mayAsk hask, ?_, ?_⟩
    · rintro rfl
      exact hask.isQuestion
    · rintro r response rfl
      exact hask.isQuestion.elim
  | start flags request =>
    have hopen : flags.helloCompleted = true := hready.2.1
    exact absurd hopen (by simpa using hclosed)
  | @handle flags request asked response hgate hmade =>
    refine ⟨fun i h => (by cases h), rfl, fun h => (by cases h), ?_⟩
    rintro r response' h
    cases h
    exact hgate.resolve_right (by simpa using hclosed)
  | hook flags request response =>
    have hopen : flags.helloCompleted = true := hready.2
    exact absurd hopen (by simpa using hclosed)
  | _ => exact ⟨fun i h => (by cases h), rfl, fun h => (by cases h), fun _ _ h => (by cases h)⟩

/-- The first request but Hello after a Hello succeeded starts the provider up. -/
theorem starts_of_received {pre post : List Event} {r : Request}
    (h : Runs (Step codec) init (pre ++ .received r :: post) st) (hst : st.phase = .stopped)
    (hdone : HelloSucceeded pre) (hhello : r.hasHello = false)
    (hfirst : ∀ e ∈ pre, isStart e = false) :
    ∃ post', post = .onInitialize (initializeBudget r) :: post' := by
  obtain ⟨u, u', hpre, hstep, hpost⟩ := h.at_label
  cases hstep with
  | ask asked hask => exact hask.isQuestion.elim
  | receive flags request =>
    have hopen : flags.helloCompleted = true := (helloCompleted_iff hpre).mpr hdone
    have hfresh : flags.initialized = false := by
      have hcount := countP_isStart hpre
      rw [List.countP_eq_zero.mpr (by simpa using hfirst)] at hcount
      by_contra h
      simp [h] at hcount
    rw [entry, if_pos (by simp [hopen, hfresh, hhello])] at hpost
    exact next_of_starting hpost hst

/-- The start-up follows a request that is no Hello, after a Hello was answered, and
nothing but `metadata()` was called before. -/
theorem startedBy_of_step {pre : List Event} {u u' : State} {budget : ℕ}
    (hpre : Runs (Step codec) init pre u) (hstep : Step codec u (.onInitialize budget) u') :
    (∃ before r, pre = before ++ [.received r] ∧ HelloAnswered before ∧ r.hasHello = false ∧
      budget = initializeBudget r) ∧ ∀ i, .invoked i ∈ pre → IsMetadata (.invoked i) := by
  have hready := ready_of_runs hpre
  have hpast := past_of_runs hpre
  cases hstep with
  | ask asked hask => exact hask.isQuestion.elim
  | start flags request =>
    obtain ⟨before, hbefore, hanswered, -⟩ := hpast
    exact ⟨⟨before, request, hbefore, hanswered, hready.2.2.2, rfl⟩,
      fun i hi => isMetadata_of_mem hpre hready.2.2.1 hi⟩

end Session

open Session

/-! ## The laws -/

/-- The budget that a request should give the start-up : a WaitReady its hint, any other
request none. -/
def Budgets (request : Request) (budget : ℕ) : Prop :=
  (∀ waitReady, request.kind = .waitReady waitReady → budget = waitReady.maxWaitMsHint.toNat) ∧
    ((∀ waitReady, request.kind ≠ .waitReady waitReady) → budget = 0)

theorem budgets_initializeBudget (request : Request) :
    Budgets request (initializeBudget request) := by
  unfold Budgets initializeBudget
  cases request.kind <;> simp

/-- The gate and the hooks over the events of a whole run. -/
structure GateLaws (host : Host σ) (codec : Codec) (input : IStream) (output : OStream) (s : σ)
    (ran : Ran Event σ (ℕ × OStream)) : Prop where
  /-- The requests are those that the frames of the input parse as : all of them, unless a
  write fails, which takes a stream that fails. -/
  arrived : ran.events.filterMap Event.received? <+: arrivals codec input ∧
    (ran.value.1 ≠ 5 → ran.events.filterMap Event.received? = arrivals codec input) ∧
      (output.Sound → ran.value.1 ≠ 5)
  /-- What is handled is what the handler makes of it. -/
  own : OwnResponses host s ran.events
  /-- Until a Hello succeeds only `metadata()` is called, no hook runs, and no other request
  is handled. -/
  closed : ∀ pre e post, ran.events = pre ++ e :: post → ¬HelloSucceeded pre →
    (∀ i, e = .invoked i → IsMetadata e) ∧ isStart e = false ∧ e ≠ .onWaitReady ∧
      ∀ r response, e = .handled r response → r.hasHello = true
  /-- A refusal is `CODE_FAILED_PRECONDITION`, and there is none once a Hello succeeded. It is
  the response that is written next, unless that write fails. -/
  refused : ∀ pre r response post, ran.events = pre ++ .refused r response :: post →
    r.hasHello = false ∧ response.status.code = .failedPrecondition ∧ ¬HelloSucceeded pre ∧
      response.requestId = r.requestId ∧
      ((∃ frame post', post = .wrote r response response frame :: post') ∨
        ran.value.1 = 5 ∧ post = [.writeFailed r, .onShutdown])
  /-- A request that is received is handled or refused, after the start-up and questions
  alone. -/
  received : ∀ pre r post, ran.events = pre ++ .received r :: post → ∃ between e post',
    post = between ++ e :: post' ∧ (∀ q ∈ between, q.IsQuestion ∨ isStart q = true) ∧
      ∃ response, e = .handled r response ∨ e = .refused r response
  startsOnce : ran.events.countP isStart ≤ 1
  /-- The first request but Hello after a Hello succeeded starts the provider up, with the hint
  of a WaitReady, and with 0 otherwise. -/
  starts : ∀ pre r post, ran.events = pre ++ .received r :: post → HelloSucceeded pre →
    r.hasHello = false → (∀ e ∈ pre, isStart e = false) →
      ∃ budget post', post = .onInitialize budget :: post' ∧ Budgets r budget
  /-- Nothing else does : a Hello was answered before, and only `metadata()` was called. -/
  startedBy : ∀ pre budget post, ran.events = pre ++ .onInitialize budget :: post →
    (∃ before r, pre = before ++ [.received r] ∧ HelloAnswered before ∧ r.hasHello = false ∧
      Budgets r budget) ∧ ∀ i, .invoked i ∈ pre → IsMetadata (.invoked i)
  /-- The WaitReady hook runs right after the handler of each WaitReady, -/
  hooks : ∀ pre r response post, ran.events = pre ++ .handled r response :: post →
    r.hasWaitReady = true → ∃ post', post = .onWaitReady :: post'
  /-- and only there. -/
  hookedBy : ∀ pre post, ran.events = pre ++ .onWaitReady :: post →
    ∃ before r response, pre = before ++ [.handled r response] ∧ r.hasWaitReady = true
  /-- The shutdown hook runs once, last. -/
  shutsDown : ∃ before, ran.events = before ++ [.onShutdown] ∧ .onShutdown ∉ before

/-- The gate and the hooks of `run_loop`, whatever the provider, the codec and the streams. -/
theorem runLoop_gate (host : Host σ) (codec : Codec) (input : IStream) (output : OStream) (s : σ) :
    GateLaws host codec input output s (runLoop host codec input output s) := by
  have hanswered := runLoop_answered codec host input output s
  have hown := runLoop_own host codec input output s
  obtain ⟨flags, before, hbefore, hserved, hrun⟩ := runs_runLoop host codec input output s
  change Runs (Step codec) init _ ⟨flags, .stopped⟩ at hrun
  generalize runLoop host codec input output s = ran at hanswered hown hbefore hserved hrun
  refine ⟨⟨hanswered.received, hanswered.received_eq, hanswered.sound⟩, hown, ?_, ?_, ?_, ?_, ?_,
    ?_, ?_, ?_, exists_shutdown hrun rfl⟩
  · intro pre e post htrace hno
    rw [htrace] at hrun
    obtain ⟨u, u', hpre, hstep, -⟩ := hrun.at_label
    exact closed_of_step hpre hstep hno
  · intro pre r response post htrace
    rw [htrace] at hrun
    obtain ⟨u, u', hpre, hstep, hpost⟩ := hrun.at_label
    cases hstep with
    | ask asked hask => exact hask.isQuestion.elim
    | refuse hhello hgate =>
      refine ⟨hhello, rfl, fun hdone => ?_, rfl, ?_⟩
      · rw [← helloCompleted_iff hpre] at hdone
        simp [hgate] at hdone
      · refine (next_of_replying hpost rfl).imp ?_ fun hfailed => ⟨?_, hfailed⟩
        · rintro ⟨post', rfl⟩
          exact ⟨_, post', by rw [encodeResponse_of_fits (fits_refusal codec r)]⟩
        · have hmem : Event.writeFailed r ∈ before ++ [.onShutdown] := by
            rw [← hbefore, htrace, hfailed]
            simp
          exact code_of_writeFailed hserved (by simpa using hmem)
  · intro pre r post htrace
    rw [htrace] at hrun
    obtain ⟨u, u', hpre, hstep, hpost⟩ := hrun.at_label
    cases hstep with
    | ask asked hask => exact hask.isQuestion.elim
    | receive flags request => exact next_of_entry hpost rfl
  · rw [countP_isStart hrun]
    split_ifs <;> omega
  · intro pre r post htrace hdone hhello hfirst
    rw [htrace] at hrun
    obtain ⟨post', hpost⟩ := starts_of_received hrun rfl hdone hhello hfirst
    exact ⟨_, post', hpost, budgets_initializeBudget r⟩
  · intro pre budget post htrace
    rw [htrace] at hrun
    obtain ⟨u, u', hpre, hstep, -⟩ := hrun.at_label
    obtain ⟨⟨before, r, hbefore, hanswered, hhello, rfl⟩, hmetadata⟩ :=
      startedBy_of_step hpre hstep
    exact ⟨⟨before, r, hbefore, hanswered, hhello, budgets_initializeBudget r⟩, hmetadata⟩
  · intro pre r response post htrace hwait
    rw [htrace] at hrun
    obtain ⟨u, u', hpre, hstep, hpost⟩ := hrun.at_label
    cases hstep with
    | ask asked hask => exact hask.isQuestion.elim
    | handle hgate hmade =>
      rw [if_pos hwait] at hpost
      exact next_of_hooking hpost rfl
  · intro pre post htrace
    rw [htrace] at hrun
    obtain ⟨u, u', hpre, hstep, -⟩ := hrun.at_label
    have hpast := past_of_runs hpre
    cases hstep with
    | ask asked hask => exact hask.isQuestion.elim
    | hook flags request response =>
      obtain ⟨⟨before, hbefore⟩, hwait, -⟩ := hpast
      exact ⟨before, request, response, hbefore, hwait⟩

end ProviderSdk

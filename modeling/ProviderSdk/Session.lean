import ProviderSdk.RunLoop
import ProviderSdk.Lib.Labelled

/-!
# The session

What a session is for, as a transition relation of its own : the phases a request goes
through, and which event each phase allows (`Session.Step`). Nothing here reads a stream
or calls a provider.

`runs_runLoop` is the refinement : whatever the host, the codec and the streams, the
events of `runLoop` are a run of this relation that ends stopped. What a run's events so
far say about its state is `Past`, an invariant that reads the history
(`past_of_runs`); the laws of a session are then one step each.
-/

namespace ProviderSdk

variable {σ : Type}

namespace Session

/-- Where a session stands with the request at hand. -/
inductive Phase where
  | idle
  /-- The start-up is due. -/
  | starting (request : Request)
  /-- A handler, or the gate, is at it; the handler asked `asked`. -/
  | serving (request : Request) (asked : List Event)
  /-- The WaitReady hook is due. -/
  | hooking (request : Request) (response : Response)
  | replying (request : Request) (response : Response)
  | stopping
  | stopped

structure State where
  flags : Flags
  phase : Phase

/-- A call of `metadata()`. -/
def IsMetadata : Event → Prop
  | .invoked (.metadata _) => True
  | _ => False

/-- What a handler may ask : a Hello only the metadata, anything else once Hello is done. -/
def MayAsk (flags : Flags) (request : Request) (e : Event) : Prop :=
  if request.hasHello then IsMetadata e else e.IsQuestion ∧ flags.helloCompleted = true

/-- `response` is what the handler makes of what it asked. -/
def MadeFrom (request : Request) (asked : List Event) (response : Response) : Prop :=
  match request.kind with
  | .hello hello => ∃ metadata, asked = [.invoked (.metadata metadata)] ∧
      response = helloResponse hello metadata (initialResponse request)
  | .waitReady _ => ∃ report metadata,
      asked = [.invoked (.readiness report), .invoked (.metadata metadata)] ∧
        response = waitReadyResponse report metadata (initialResponse request)
  | _ => True

/-- The phase a request starts in : a first request after Hello is held for the start-up. -/
def entry (flags : Flags) (request : Request) : Phase :=
  if flags.helloCompleted && !flags.initialized && !request.hasHello then .starting request
  else .serving request []

/-- The flags once `request` got `response`. -/
def Flags.after (flags : Flags) (request : Request) (response : Response) : Flags :=
  { flags with
    helloCompleted := flags.helloCompleted || request.hasHello && response.status.code = .ok }

theorem Flags.after_of_helloCompleted {flags : Flags} (h : flags.helloCompleted = true)
    (request : Request) (response : Response) : Flags.after flags request response = flags := by
  obtain ⟨hello, init⟩ := flags
  simp_all [Flags.after]

/-- One event of a session. -/
inductive Step (codec : Codec) : State → Event → State → Prop where
  | receive (flags : Flags) (request : Request) :
    Step codec ⟨flags, .idle⟩ (.received request) ⟨flags, entry flags request⟩
  | start (flags : Flags) (request : Request) :
    Step codec ⟨flags, .starting request⟩ (.onInitialize (initializeBudget request))
      ⟨{ flags with initialized := true }, .serving request []⟩
  | ask {flags : Flags} {request : Request} {e : Event} (asked : List Event)
    (h : MayAsk flags request e) :
    Step codec ⟨flags, .serving request asked⟩ e ⟨flags, .serving request (asked ++ [e])⟩
  | handle {flags : Flags} {request : Request} {asked : List Event} {response : Response}
    (hgate : request.hasHello = true ∨ flags.helloCompleted = true)
    (hmade : MadeFrom request asked response) :
    Step codec ⟨flags, .serving request asked⟩ (.handled request response)
      ⟨Flags.after flags request response,
        if request.hasWaitReady then .hooking request response else .replying request response⟩
  | refuse {flags : Flags} {request : Request} (hhello : request.hasHello = false)
    (hgate : flags.helloCompleted = false) :
    Step codec ⟨flags, .serving request []⟩ (.refused request (refusal request))
      ⟨flags, .replying request (refusal request)⟩
  | hook (flags : Flags) (request : Request) (response : Response) :
    Step codec ⟨flags, .hooking request response⟩ .onWaitReady ⟨flags, .replying request response⟩
  | write (flags : Flags) (request : Request) (response : Response) :
    Step codec ⟨flags, .replying request response⟩
      (.wrote request response (encodeResponse codec request response).1
        (encodeResponse codec request response).2) ⟨flags, .idle⟩
  | fail (flags : Flags) (request : Request) (response : Response) :
    Step codec ⟨flags, .replying request response⟩ (.writeFailed request) ⟨flags, .stopping⟩
  | shutdownIdle (flags : Flags) : Step codec ⟨flags, .idle⟩ .onShutdown ⟨flags, .stopped⟩
  | shutdownStopping (flags : Flags) :
    Step codec ⟨flags, .stopping⟩ .onShutdown ⟨flags, .stopped⟩

/-! ## The loop is a session -/

variable (host : Host σ) (codec : Codec)

/-- A handler's questions, each allowed, stay in its phase. -/
theorem runs_ask {flags : Flags} {request : Request} : ∀ {es : List Event} (asked : List Event),
    (∀ e ∈ es, MayAsk flags request e) →
      Runs (Step codec) ⟨flags, .serving request asked⟩ es ⟨flags, .serving request (asked ++ es)⟩
  | [], asked, _ => by simpa using .refl _
  | e :: es, asked, h => by
    have hrest := runs_ask (asked ++ [e]) fun e' he' => h e' (List.mem_cons_of_mem _ he')
    rw [List.append_assoc, List.singleton_append] at hrest
    exact .cons (.ask asked (h e List.mem_cons_self)) hrest

/-- The handler's questions are allowed, and its response is made from them. -/
theorem handle_mayAsk {flags : Flags} {request : Request}
    (hgate : request.hasHello = true ∨ flags.helloCompleted = true) :
    (handle host request (initialResponse request)).Ensures fun response es =>
      (∀ e ∈ es, MayAsk flags request e) ∧ MadeFrom request es response := by
  cases hkind : request.kind with
  | hello hello =>
    refine (handle_hello host hkind _).mono fun response es => ?_
    rintro ⟨metadata, rfl, rfl⟩
    simp [MayAsk, MadeFrom, Request.hasHello, hkind, IsMetadata]
  | waitReady waitReady =>
    have hdone : flags.helloCompleted = true := by simpa [Request.hasHello, hkind] using hgate
    refine (handle_waitReady host hkind _).mono fun response es => ?_
    rintro ⟨report, metadata, rfl, rfl⟩
    simp [MayAsk, MadeFrom, Request.hasHello, hkind, hdone, Event.IsQuestion]
  | _ =>
    have hdone : flags.helloCompleted = true := by simpa [Request.hasHello, hkind] using hgate
    refine (handle_emits host request _).mono fun response es hes => ⟨fun e he => ?_, ?_⟩
    · simp [MayAsk, Request.hasHello, hkind, hdone, hes e he]
    · simp [MadeFrom, hkind]

/-- The handler runs, and notes its response. -/
theorem runs_runHandler (flags : Flags) {request : Request}
    (hgate : request.hasHello = true ∨ flags.helloCompleted = true) :
    (runHandler host request).Ensures fun response es =>
      Runs (Step codec) ⟨flags, .serving request []⟩ es
        ⟨Flags.after flags request response,
          if request.hasWaitReady then .hooking request response
          else .replying request response⟩ :=
  .bind (handle_mayAsk host hgate) fun _ _ ⟨hask, hmade⟩ _ =>
    (runs_ask codec [] hask).snoc (.handle hgate hmade)

theorem runs_startUp (flags : Flags) (request : Request) :
    (startUp host flags request).Ensures fun flags' es =>
      Runs (Step codec) ⟨flags, entry flags request⟩ es ⟨flags', .serving request []⟩ := by
  unfold startUp entry
  split_ifs
  · exact fun _ => .single (.start flags request)
  · exact .pure (.refl _)

theorem hasWaitReady_of_hasHello {request : Request} (h : request.hasHello = true) :
    request.hasWaitReady = false := by
  cases hkind : request.kind <;> simp_all [Request.hasHello, Request.hasWaitReady]

theorem runs_dispatch (flags : Flags) (request : Request) :
    (dispatch host flags request).Ensures fun out es =>
      Runs (Step codec) ⟨flags, .serving request []⟩ es ⟨out.2, .replying request out.1⟩ := by
  refine .ite (fun hhello => ?_) fun hhello => .ite (fun hgate => ?_) fun hgate => ?_
  · refine .bind (runs_runHandler host codec flags (.inl hhello)) fun response es h => .pure ?_
    simpa [Flags.after, hhello, hasWaitReady_of_hasHello hhello] using h
  · exact fun _ => .single (.refuse (by simpa using hhello) hgate)
  · have hdone : flags.helloCompleted = true := by simpa using hgate
    refine .bind (runs_runHandler host codec flags (.inr hdone)) fun response es h => ?_
    rw [Flags.after_of_helloCompleted hdone] at h
    refine .ite (fun hwait => ?_) fun hwait => .pure ?_
    · rw [if_pos hwait] at h
      exact fun _ => h.snoc (.hook flags request response)
    · rw [if_neg hwait] at h
      simpa using h

theorem runs_reply (flags : Flags) (output : OStream) (request : Request) (own : Response) :
    (reply codec output request own : Sdk σ _).Ensures fun out es =>
      Runs (Step codec) ⟨flags, .replying request own⟩ es
        ⟨flags, if out.1 then .idle else .stopping⟩ := by
  refine .ite (fun _ => ?_) fun _ => ?_
  · exact fun _ => .single (.write flags request own)
  · exact fun _ => .single (.fail flags request own)

/-- One request, from idle to idle, or to a failed write. -/
theorem runs_serveRequest (flags : Flags) (output : OStream) (request : Request) :
    (serveRequest host codec flags output request).Ensures fun served es =>
      Runs (Step codec) ⟨flags, .idle⟩ es
        ⟨served.flags, if served.written then .idle else .stopping⟩ :=
  .bind (R := fun _ es => es = [.received request]) (fun _ => rfl) fun _ _ h => h ▸
    .bind (runs_startUp host codec flags request) fun _ _ hstart =>
      .bind (runs_dispatch host codec _ request) fun _ _ hdispatch =>
        .bind (runs_reply codec _ output request _) fun _ _ hreply => .pure <|
          .cons (.receive flags request)
            (hstart.append (hdispatch.append (hreply.append (.refl _))))

/-- The phase the loop stops in : a failed write is exit code 5. -/
def lastPhase (code : ℕ) : Phase :=
  if code = 5 then .stopping else .idle

/-- The loop runs a session until it is idle for good or a write failed. -/
theorem runs_serve (flags : Flags) (input : IStream) (output : OStream) :
    (serve host codec flags input output).Ensures fun out es => ∃ flags',
      Runs (Step codec) ⟨flags, .idle⟩ es ⟨flags', lastPhase out.1⟩ := by
  refine serve_induction
    (P := fun flags _ _ m => m.Ensures fun out es => ∃ flags',
      Runs (Step codec) ⟨flags, .idle⟩ es ⟨flags', lastPhase out.1⟩)
    ?_ ?_ ?_ flags input output
  · intro flags _ _ _ error _ _
    refine .pure ⟨flags, ?_⟩
    split_ifs <;> exact .refl _
  · exact fun _ _ => .pure ⟨_, .refl _⟩
  · intro flags input output frame error rest request _ _ ih
    refine .bind (runs_serveRequest host codec flags output request) fun served es hserved => ?_
    refine .ite (fun hwritten => ?_) fun hwritten => .pure ?_
    · rw [if_pos hwritten] at hserved
      refine (ih served.flags served.output).mono fun _ es' => ?_
      rintro ⟨flags', hrest⟩
      exact ⟨flags', hserved.append hrest⟩
    · rw [if_neg hwritten] at hserved
      exact ⟨served.flags, by simpa [lastPhase] using hserved⟩

/-- The events of `runLoop` are a session, from the fresh state to a stopped one. -/
theorem runs_runLoop (input : IStream) (output : OStream) :
    (runLoop host codec input output).Ensures fun out es => ∃ flags before,
      es = before ++ [.onShutdown] ∧
        Runs (Step codec) ⟨⟨false, false⟩, .idle⟩ before ⟨flags, lastPhase out.1⟩ ∧
          Runs (Step codec) ⟨⟨false, false⟩, .idle⟩ es ⟨flags, .stopped⟩ := by
  refine .bind (runs_serve host codec ⟨false, false⟩ input output) fun out es => ?_
  rintro ⟨flags, hrun⟩ s
  refine ⟨flags, es, rfl, hrun, ?_⟩
  unfold lastPhase at hrun
  split_ifs at hrun
  · exact hrun.snoc (.shutdownStopping flags)
  · exact hrun.snoc (.shutdownIdle flags)

end Session

end ProviderSdk

import ProviderSdk.RunLoop
import ProviderSdk.Lib.Triple

/-!
# What the loop guarantees its provider

A provider relies on what the SDK has checked before one of its methods runs. `Cleared` is what
was asked, and answered, for the request at hand before an invocation : a read is of a known
device and known signals, a call has passed the checks of its arguments and its deadline, and
neither is the second of its request.

`Host.Sustains host I` is the provider's part : what it does when its methods are invoked so
keeps `I`, an invariant of the events so far and the provider's state. Then every run keeps it
(`runLoop_sustains`). `runLoop_cleared` is the guarantee itself, over whole runs and for any
provider.
-/

namespace ProviderSdk

variable {σ : Type}

/-! ## The provider as a relation -/

/-- A method invoked in one state gives its answer, and the next state. -/
inductive Host.Answers (host : Host σ) : σ → Invocation → σ → Prop where
  | metadata (s : σ) :
    Answers host s (.metadata (host.runtime.metadata s).1) (host.runtime.metadata s).2
  | readiness (s : σ) :
    Answers host s (.readiness (host.runtime.readiness s).1) (host.runtime.readiness s).2
  | deviceHealth (deviceId : Bytes) (s : σ) :
    Answers host s (.deviceHealth deviceId (host.runtime.deviceHealth deviceId s).1)
      (host.runtime.deviceHealth deviceId s).2
  | providerHealth (s : σ) :
    Answers host s (.providerHealth (host.runtime.providerHealth s).1)
      (host.runtime.providerHealth s).2
  | listDeviceIds (s : σ) :
    Answers host s (.listDeviceIds (host.runtime.listDeviceIds s).1)
      (host.runtime.listDeviceIds s).2
  | hasDevice (deviceId : Bytes) (s : σ) :
    Answers host s (.hasDevice deviceId (host.runtime.hasDevice deviceId s).1)
      (host.runtime.hasDevice deviceId s).2
  | deviceInfo (deviceId : Bytes) (s : σ) :
    Answers host s (.deviceInfo deviceId (host.runtime.deviceInfo deviceId s).1)
      (host.runtime.deviceInfo deviceId s).2
  | capabilities (deviceId : Bytes) (s : σ) :
    Answers host s (.capabilities deviceId (host.runtime.capabilities deviceId s).1)
      (host.runtime.capabilities deviceId s).2
  | read (deviceId : Bytes) (signalIds : List Bytes) (s : σ) :
    Answers host s (.read deviceId signalIds (host.runtime.read deviceId signalIds s).1)
      (host.runtime.read deviceId signalIds s).2
  | call (deviceId : Bytes) (functionId : UInt32) (args : ValueMap) (s : σ) :
    Answers host s (.call deviceId functionId args (host.runtime.call deviceId functionId args s).1)
      (host.runtime.call deviceId functionId args s).2
  | resolveFunctionId (deviceId functionName : Bytes) (s : σ) :
    Answers host s
      (.resolveFunctionId deviceId functionName
        (host.runtime.resolveFunctionId deviceId functionName s).1)
      (host.runtime.resolveFunctionId deviceId functionName s).2

/-! ## What is checked first -/

/-- The request at hand is the last one received, and this is what was asked for it. -/
def AtHand (past : List Event) (request : Request) (asked : List Event) : Prop :=
  ∃ before start, past = before ++ .received request :: (start ++ asked) ∧
    (start = [] ∨ ∃ budget, start = [.onInitialize budget]) ∧ ∀ e ∈ asked, e.IsQuestion

/-- The device is known. -/
def Known (asked : List Event) (deviceId : Bytes) : Prop :=
  .invoked (.hasDevice deviceId true) ∈ asked

/-- The device is in the inventory. -/
def Listed (asked : List Event) (deviceId : Bytes) : Prop :=
  ∃ ids, .invoked (.listDeviceIds ids) ∈ asked ∧ deviceId ∈ ids

/-- The device is in the inventory, or failed to start. -/
def Covered (asked : List Event) (deviceId : Bytes) : Prop :=
  Listed asked deviceId ∨ ∃ report, .invoked (.readiness report) ∈ asked ∧
    deviceId ∈ report.failedDevices.map ReadinessReport.DeviceFailure.deviceId

/-- An operation of a device : a read or a call. -/
def Event.IsOperation : Event → Prop
  | .invoked (.read ..) | .invoked (.call ..) => True
  | _ => False

/-- The read is the request's. -/
structure ReadCleared (request : Request) (asked : List Event) (deviceId : Bytes)
    (signalIds : List Bytes) : Prop where
  request : ∃ read, request.kind = .readSignals read ∧ read.deviceId = deviceId ∧
    read.signalIds = signalIds
  known : Known asked deviceId
  signals : signalIds ≠ [] → ∃ caps, .invoked (.capabilities deviceId caps) ∈ asked ∧
    ∀ id ∈ signalIds, id ∈ caps.signals.map SignalSpec.signalId
  first : ∀ e ∈ asked, ¬e.IsOperation

/-- The call is the request's, its arguments break no rule of the first declared function with
its id, if there is one, and its deadline is ahead. -/
structure CallCleared (number : NumberPrinter) (request : Request) (asked : List Event)
    (deviceId : Bytes) (functionId : UInt32) (args : ValueMap) : Prop where
  request : ∃ call, request.kind = .call call ∧ call.deviceId = deviceId ∧ call.args = args ∧
    (if call.functionId = 0 then
        .invoked (.resolveFunctionId deviceId call.functionName (some functionId)) ∈ asked
      else functionId = call.functionId) ∧
    ∀ deadline ∈ call.deadline, isValidTimestamp deadline = true ∧
      ∃ now, .clockRead now ∈ asked ∧ compareReadingTo now deadline < 0
  known : Known asked deviceId
  args : ∃ caps, .invoked (.capabilities deviceId caps) ∈ asked ∧
    declaredArgError number caps functionId args = none
  first : ∀ e ∈ asked, ¬e.IsOperation

/-- What was asked allows the invocation. -/
def Cleared (number : NumberPrinter) (request : Request) (asked : List Event) : Invocation → Prop
  | .metadata _ | .readiness _ | .providerHealth _ | .listDeviceIds _ => True
  | .hasDevice deviceId _ => deviceId ≠ []
  | .deviceHealth deviceId _ => Covered asked deviceId
  | .deviceInfo deviceId _ => Known asked deviceId ∨ Listed asked deviceId
  | .capabilities deviceId _ => Known asked deviceId
  | .resolveFunctionId deviceId _ _ => Known asked deviceId
  | .read deviceId signalIds _ => ReadCleared request asked deviceId signalIds
  | .call deviceId functionId args _ => CallCleared number request asked deviceId functionId args

/-- A response to a read shows what the provider read. -/
def Shows (request : Request) (asked : List Event) (response : Response) : Prop :=
  ∀ read out, request.kind = .readSignals read → response.payload = .readSignals out →
    ∃ before result, asked = before ++ [.invoked (.read read.deviceId read.signalIds result)] ∧
      out = applyMinTimestamp read { deviceId := read.deviceId, values := result.values }

/-- The response is what the handler made of the request, from where `I` held. -/
def Host.Makes (host : Host σ) (I : List Event → σ → Prop) (past : List Event) (s : σ)
    (request : Request) (response : Response) : Prop :=
  ∃ start t asked, past = start ++ asked ∧ I start t ∧
    handle host request (initialResponse request) t = ⟨response, s, asked⟩

/-- An event that the provider has no part in. -/
def Event.IsNote : Event → Prop
  | .refused request response => response = refusal request
  | .received _ | .wrote .. | .writeFailed _ => True
  | _ => False

/-- What the provider does keeps `I`, as long as its methods are invoked when cleared. -/
structure Host.Sustains (host : Host σ) (I : List Event → σ → Prop) : Prop where
  invoked : ∀ {past s request asked invocation s'}, I past s → AtHand past request asked →
    Cleared host.number request asked invocation → host.Answers s invocation s' →
      I (past ++ [.invoked invocation]) s'
  clock : ∀ {past s}, I past s → I (past ++ [.clockRead (host.now s).1]) (host.now s).2
  onInitialize : ∀ {past s budget}, I past s →
    I (past ++ [.onInitialize budget]) (host.hooks.onInitialize budget s)
  onWaitReady : ∀ {past s}, I past s → I (past ++ [.onWaitReady]) (host.hooks.onWaitReady s)
  handled : ∀ {past s request asked response}, I past s → AtHand past request asked →
    Shows request asked response → host.Makes I past s request response →
      I (past ++ [.handled request response]) s
  noted : ∀ {past s e}, e.IsNote → I past s → I (past ++ [e]) s

/-! ## The handlers -/

/-- `I` holds, and this was asked for the request at hand. -/
def Serving (I : List Event → σ → Prop) (request : Request) (asked past : List Event) (s : σ) :
    Prop :=
  I past s ∧ AtHand past request asked

theorem AtHand.snoc {past asked : List Event} {request : Request} (h : AtHand past request asked)
    {e : Event} (he : e.IsQuestion) : AtHand (past ++ [e]) request (asked ++ [e]) := by
  obtain ⟨before, start, rfl, hstart, hasked⟩ := h
  refine ⟨before, start, by simp, hstart, fun q hq => ?_⟩
  rcases List.mem_append.mp hq with hq | hq
  · exact hasked q hq
  · rwa [List.mem_singleton.mp hq]

/-- The handler ends with a response that shows what was read. -/
abbrev Responds (I : List Event → σ → Prop) (request : Request) (response : Response)
    (past : List Event) (s : σ) : Prop :=
  ∃ asked, Serving I request asked past s ∧ Shows request asked response

section Handlers

variable {host : Host σ} {I : List Event → σ → Prop} {request : Request} {asked : List Event}
  {response : Response}

/-- A question is answered, and what was asked before it stays. -/
theorem triple_ask (h : host.Sustains I) {α : Type} (ask : α → Invocation)
    {f : σ → α × σ}
    (hanswers : ∀ s, host.Answers s (ask (f s).1) (f s).2)
    (hcleared : ∀ a, Cleared host.number request asked (ask a)) :
    Traced.Triple (Serving I request asked) (.observe (.invoked ∘ ask) f) fun a =>
      Serving I request (asked ++ [.invoked (ask a)]) :=
  .observe fun _ s ⟨hI, hat⟩ =>
    ⟨h.invoked hI hat (hcleared _) (hanswers s), hat.snoc trivial⟩

theorem triple_clock (h : host.Sustains I) :
    Traced.Triple (Serving I request asked) host.systemClockNow fun now =>
      Serving I request (asked ++ [.clockRead now]) :=
  .observe fun _ _ ⟨hI, hat⟩ => ⟨h.clock hI, hat.snoc trivial⟩

/-- A response without a payload shows nothing. -/
theorem shows_of_payload_none (h : response.payload = .none) : Shows request asked response := by
  intro read out _ hout
  rw [h] at hout
  cases hout

theorem triple_refuse {code : Status.Code} {message : Bytes} (h : response.payload = .none) :
    Traced.Triple (Serving I request asked) (pure (response.setStatus code message) : Sdk σ _)
      (Responds I request) :=
  .pure fun _ _ hserving => ⟨asked, hserving, shows_of_payload_none h⟩

/-- A response to a request that is no read shows nothing. -/
theorem triple_respond (h : ∀ read, request.kind ≠ .readSignals read) :
    Traced.Triple (Serving I request asked) (pure response : Sdk σ _) (Responds I request) :=
  .pure fun _ _ hserving => ⟨asked, hserving, fun read _ hread => absurd hread (h read)⟩

/-- The health of each device is asked for, in turn. -/
theorem triple_makeDeviceHealth (h : host.Sustains I) {deviceIds : List Bytes}
    {report : ReadinessReport} (hcovered : ∀ id ∈ deviceIds, Covered asked id) :
    Traced.Triple (Serving I request asked) (makeDeviceHealth host deviceIds report) fun _ past s =>
      ∃ asked, Serving I request asked past s := by
  refine (Traced.Triple.mapM (P := fun past s => ∃ more, Serving I request (asked ++ more) past s)
    fun deviceId hid => .exists_pre fun more => ?_).weaken
      (fun _ _ hserving => ⟨[], by simpa using hserving⟩)
      fun _ _ _ ⟨more, hserving⟩ => ⟨asked ++ more, hserving⟩
  have hmore : Covered (asked ++ more) deviceId :=
    (hcovered deviceId hid).imp
      (fun ⟨ids, hids, hmem⟩ => ⟨ids, List.mem_append_left _ hids, hmem⟩)
      fun ⟨report, hreport, hmem⟩ => ⟨report, List.mem_append_left _ hreport, hmem⟩
  refine .bind (triple_ask h (.deviceHealth deviceId) (.deviceHealth deviceId) fun _ => hmore)
    fun extra => .pure fun _ _ hserving => ⟨more ++ [.invoked (.deviceHealth deviceId extra)], ?_⟩
  rwa [← List.append_assoc]

theorem triple_handleListDevices (h : host.Sustains I) {list : ListDevicesRequest}
    (hkind : request.kind = .listDevices list) :
    Traced.Triple (Serving I request []) (handleListDevices host list response)
      (Responds I request) := by
  have hread : ∀ read, request.kind ≠ .readSignals read := by simp [hkind]
  refine .bind (triple_ask h .listDeviceIds .listDeviceIds fun _ => trivial) fun deviceIds => ?_
  -- the list stays asked while the devices are described
  have hinfos : Traced.Triple (Serving I request ([] ++ [.invoked (.listDeviceIds deviceIds)]))
      (deviceIds.mapM host.deviceInfo) fun _ past s => ∃ more,
        Serving I request (.invoked (.listDeviceIds deviceIds) :: more) past s := by
    refine (Traced.Triple.mapM (P := fun past s => ∃ more,
      Serving I request (.invoked (.listDeviceIds deviceIds) :: more) past s)
        fun deviceId hid => .exists_pre fun more => ?_).weaken
          (fun _ _ hserving => ⟨[], hserving⟩) fun _ _ _ hserving => hserving
    refine (triple_ask h (.deviceInfo deviceId) (.deviceInfo deviceId)
      fun _ => .inr ⟨deviceIds, List.mem_cons_self, hid⟩).weaken (fun _ _ hserving => hserving)
        fun info _ _ hserving => ⟨more ++ [.invoked (.deviceInfo deviceId info)], ?_⟩
    rwa [List.cons_append] at hserving
  refine .bind hinfos fun devices => .exists_pre fun more => ?_
  refine .ite (fun _ => ?_) fun _ => triple_respond hread
  refine .bind (triple_ask h .readiness .readiness fun _ => trivial) fun report => ?_
  refine .bind (triple_makeDeviceHealth h fun id hid => ?_) fun health =>
    .exists_pre fun asked => triple_respond hread
  exact .inl ⟨deviceIds, by simp, hid⟩

theorem triple_makeProviderHealth (h : host.Sustains I) {report : ReadinessReport} :
    Traced.Triple (Serving I request asked) (makeProviderHealth host report) fun _ past s =>
      ∃ extra, Serving I request (asked ++ [.invoked (.providerHealth extra)]) past s :=
  .bind (triple_ask h .providerHealth .providerHealth fun _ => trivial) fun extra =>
    .pure fun _ _ hserving => ⟨extra, hserving⟩

theorem triple_handleGetHealth (h : host.Sustains I) (hkind : request.kind = .getHealth) :
    Traced.Triple (Serving I request []) (handleGetHealth host response) (Responds I request) := by
  have hread : ∀ read, request.kind ≠ .readSignals read := by simp [hkind]
  refine .bind (triple_ask h .readiness .readiness fun _ => trivial) fun report => ?_
  refine .bind (triple_makeProviderHealth h) fun provider => .exists_pre fun extra => ?_
  refine .bind (triple_ask h .listDeviceIds .listDeviceIds fun _ => trivial) fun live => ?_
  refine .bind (triple_makeDeviceHealth h fun id hid => ?_) fun devices =>
    .exists_pre fun asked => triple_respond hread
  rcases List.mem_append.mp hid with hlive | hfailed
  · exact .inl ⟨live, by simp, hlive⟩
  · exact .inr ⟨report, by simp, List.mem_of_mem_filter hfailed⟩

theorem triple_handleDescribeDevice (h : host.Sustains I) {describe : DescribeDeviceRequest}
    (hkind : request.kind = .describeDevice describe) (hnone : response.payload = .none) :
    Traced.Triple (Serving I request []) (handleDescribeDevice host describe response)
      (Responds I request) := by
  refine .ite (fun _ => triple_refuse hnone) fun hid => ?_
  refine .bind (triple_ask h (.hasDevice describe.deviceId) (.hasDevice _) fun _ => hid)
    fun known => .ite (fun _ => triple_refuse hnone) fun hknown => ?_
  obtain rfl : known = true := by simpa using hknown
  refine .bind (triple_ask h (.deviceInfo describe.deviceId) (.deviceInfo _)
    fun _ => .inl (by simp [Known])) fun device => ?_
  refine .bind (triple_ask h (.capabilities describe.deviceId) (.capabilities _)
    fun _ => by simp [Cleared, Known]) fun caps => triple_respond (by simp [hkind])

/-- The read, once it is cleared. -/
theorem triple_readKnownSignals (h : host.Sustains I) {read : ReadSignalsRequest}
    (hkind : request.kind = .readSignals read) (hnone : response.payload = .none)
    (hcleared : ReadCleared request asked read.deviceId read.signalIds) :
    Traced.Triple (Serving I request asked) (readKnownSignals host read response)
      (Responds I request) := by
  refine .bind (triple_ask h (.read read.deviceId read.signalIds) (.read _ _)
    fun _ => hcleared) fun result => .ite (fun _ => triple_refuse hnone) fun _ => ?_
  refine .pure fun _ _ hserving => ⟨_, hserving, fun read' out hread hout => ?_⟩
  obtain rfl := Request.Kind.readSignals.inj (hkind.symm.trans hread)
  exact ⟨asked, result, rfl, (Response.Payload.readSignals.inj hout).symm⟩

theorem triple_handleReadSignals (h : host.Sustains I) {read : ReadSignalsRequest}
    (hkind : request.kind = .readSignals read) (hnone : response.payload = .none) :
    Traced.Triple (Serving I request []) (handleReadSignals host read response)
      (Responds I request) := by
  refine .ite (fun _ => triple_refuse hnone) fun hid => ?_
  refine .bind (triple_ask h (.hasDevice read.deviceId) (.hasDevice _) fun _ => hid)
    fun known => .ite (fun _ => triple_refuse hnone) fun hknown => ?_
  obtain rfl : known = true := by simpa using hknown
  refine .ite (fun hall => ?_) fun hsome => ?_
  · refine triple_readKnownSignals h hkind hnone ⟨⟨read, hkind, rfl, rfl⟩, by simp [Known], ?_, ?_⟩
    · exact fun hne => absurd hall hne
    · simp [Event.IsOperation]
  · refine .bind (triple_ask h (.capabilities read.deviceId) (.capabilities _)
      fun _ => by simp [Cleared, Known]) fun caps => ?_
    split
    · exact triple_refuse hnone
    · next hfind =>
      refine triple_readKnownSignals h hkind hnone ⟨⟨read, hkind, rfl, rfl⟩, by simp [Known],
        fun _ => ⟨caps, by simp, ?_⟩, by simp [Event.IsOperation]⟩
      simpa using hfind

theorem triple_compareNowTo (h : host.Sustains I) {deadline : Timestamp} :
    Traced.Triple (Serving I request asked) (compareNowTo host deadline) fun order past s =>
      ∃ now, order = compareReadingTo now deadline ∧
        Serving I request (asked ++ [.clockRead now]) past s :=
  .bind (triple_clock h) fun now => .pure fun _ _ hserving => ⟨now, rfl, hserving⟩

/-- The call, once it is cleared. -/
theorem triple_callProvider (h : host.Sustains I) {call : CallRequest} {functionId : UInt32}
    (hkind : request.kind = .call call) (hnone : response.payload = .none)
    (hcleared : CallCleared host.number request asked call.deviceId functionId call.args) :
    Traced.Triple (Serving I request asked) (callProvider host call functionId response)
      (Responds I request) := by
  have hread : ∀ read, request.kind ≠ .readSignals read := by simp [hkind]
  refine .bind (triple_ask h (.call call.deviceId functionId call.args) (.call _ _ _)
    fun _ => hcleared) fun result => .ite (fun _ => triple_refuse hnone) fun _ => ?_
  split
  · exact triple_respond hread
  · refine .bind (triple_compareNowTo h) fun order => .exists_pre fun now => ?_
    refine Traced.Triple.weaken (.ite (fun _ => triple_respond hread) fun _ => triple_respond hread)
      (fun _ _ hserving => hserving.2) fun _ _ _ hresponds => hresponds

/-- The deadline is ahead when the call is made. -/
theorem triple_callBeforeDeadline (h : host.Sustains I) {call : CallRequest} {functionId : UInt32}
    (hkind : request.kind = .call call) (hnone : response.payload = .none)
    (hfunction : if call.functionId = 0 then
        .invoked (.resolveFunctionId call.deviceId call.functionName (some functionId)) ∈ asked
      else functionId = call.functionId)
    (hknown : Known asked call.deviceId)
    (hargs : ∃ caps, .invoked (.capabilities call.deviceId caps) ∈ asked ∧
      declaredArgError host.number caps functionId call.args = none)
    (hfirst : ∀ e ∈ asked, ¬e.IsOperation) :
    Traced.Triple (Serving I request asked) (callBeforeDeadline host call functionId response)
      (Responds I request) := by
  unfold callBeforeDeadline
  cases hdeadline : call.deadline with
  | none =>
    refine triple_callProvider h hkind hnone ⟨⟨call, hkind, rfl, rfl, hfunction, ?_⟩, hknown,
      hargs, hfirst⟩
    simp [hdeadline]
  | some deadline =>
    refine .ite (fun _ => triple_refuse hnone) fun hvalid => ?_
    refine .bind (triple_compareNowTo h) fun order => .exists_pre fun now => ?_
    intro past s ⟨horder, hserving⟩
    refine Traced.Triple.ite (fun _ => triple_refuse hnone) (fun hahead => ?_) past s hserving
    obtain ⟨caps, hcaps, hnoerror⟩ := hargs
    refine triple_callProvider h hkind hnone ⟨⟨call, hkind, rfl, rfl, ?_, ?_⟩,
      List.mem_append_left _ hknown, ⟨caps, List.mem_append_left _ hcaps, hnoerror⟩, ?_⟩
    · split_ifs with hzero
      · rw [if_pos hzero] at hfunction
        exact List.mem_append_left _ hfunction
      · rwa [if_neg hzero] at hfunction
    · rintro d hd
      obtain rfl := Option.some.inj (hdeadline.symm.trans hd)
      exact ⟨by simpa using hvalid, now, by simp, by omega⟩
    · intro e he
      rcases List.mem_append.mp he with he | he
      · exact hfirst e he
      · rw [List.mem_singleton.mp he]
        exact id

theorem triple_callResolved (h : host.Sustains I) {call : CallRequest} {functionId : UInt32}
    (hkind : request.kind = .call call) (hnone : response.payload = .none)
    (hfunction : if call.functionId = 0 then
        .invoked (.resolveFunctionId call.deviceId call.functionName (some functionId)) ∈ asked
      else functionId = call.functionId)
    (hknown : Known asked call.deviceId) (hfirst : ∀ e ∈ asked, ¬e.IsOperation) :
    Traced.Triple (Serving I request asked) (callResolved host call functionId response)
      (Responds I request) := by
  refine .bind (triple_ask h (.capabilities call.deviceId) (.capabilities _)
    fun _ => hknown) fun caps => ?_
  split
  · exact triple_refuse hnone
  · next hnoerror =>
    refine triple_callBeforeDeadline h hkind hnone ?_ (List.mem_append_left _ hknown)
      ⟨caps, by simp, hnoerror⟩ ?_
    · split_ifs with hzero
      · rw [if_pos hzero] at hfunction
        exact List.mem_append_left _ hfunction
      · rwa [if_neg hzero] at hfunction
    · intro e he
      rcases List.mem_append.mp he with he | he
      · exact hfirst e he
      · rw [List.mem_singleton.mp he]
        exact id

theorem triple_handleCall (h : host.Sustains I) {call : CallRequest}
    (hkind : request.kind = .call call) (hnone : response.payload = .none) :
    Traced.Triple (Serving I request []) (handleCall host call response)
      (Responds I request) := by
  refine .ite (fun _ => triple_refuse hnone) fun hid => ?_
  refine .bind (triple_ask h (.hasDevice call.deviceId) (.hasDevice _) fun _ => hid)
    fun known => .ite (fun _ => triple_refuse hnone) fun hknown => ?_
  obtain rfl : known = true := by simpa using hknown
  refine .ite (fun _ => triple_refuse hnone) fun _ => .ite (fun hzero => ?_) fun hzero => ?_
  · refine .bind (triple_ask h (.resolveFunctionId call.deviceId call.functionName)
      (.resolveFunctionId _ _) fun _ => by simp [Cleared, Known]) fun resolved => ?_
    cases resolved with
    | none => exact triple_refuse hnone
    | some functionId =>
      refine triple_callResolved h hkind hnone ?_ (by simp [Known]) (by simp [Event.IsOperation])
      rw [if_pos hzero]
      simp
  · refine triple_callResolved h hkind hnone ?_ (by simp [Known]) (by simp [Event.IsOperation])
    rw [if_neg hzero]

/-- Every handler asks only what is cleared, and responds with what it read. -/
theorem triple_handle (h : host.Sustains I) (hnone : response.payload = .none) :
    Traced.Triple (Serving I request []) (handle host request response)
      (Responds I request) := by
  unfold handle
  cases hkind : request.kind with
  | hello hello =>
    exact .bind (triple_ask h .metadata .metadata fun _ => trivial) fun _ =>
      triple_respond (by simp [hkind])
  | waitReady _ =>
    exact .bind (triple_ask h .readiness .readiness fun _ => trivial) fun _ =>
      .bind (triple_ask h .metadata .metadata fun _ => trivial) fun _ =>
        triple_respond (by simp [hkind])
  | listDevices list => exact triple_handleListDevices h hkind
  | describeDevice describe => exact triple_handleDescribeDevice h hkind hnone
  | readSignals read => exact triple_handleReadSignals h hkind hnone
  | call call => exact triple_handleCall h hkind hnone
  | getHealth => exact triple_handleGetHealth h hkind
  | none => exact triple_refuse hnone

end Handlers

/-! ## The loop -/

section Loop

variable {host : Host σ} {I : List Event → σ → Prop} {codec : Codec}

theorem triple_runHandler (h : host.Sustains I) {request : Request} :
    Traced.Triple (Serving I request []) (runHandler host request) fun _ => I := by
  refine .bind (Q := fun response past s => Responds I request response past s ∧
    host.Makes I past s request response) ?_ fun _ => .bind (.note ?_) fun _ =>
      .pure fun _ _ hI => hI
  · exact fun past s hserving => ⟨triple_handle h rfl past s hserving, past, s, _, rfl,
      hserving.1, rfl⟩
  · exact fun _ _ ⟨⟨_, ⟨hI, hat⟩, hshows⟩, hmade⟩ => h.handled hI hat hshows hmade

theorem triple_startUp (h : host.Sustains I) {flags : Flags} {request : Request} :
    Traced.Triple (fun past s => I past s ∧ ∃ before, past = before ++ [.received request])
      (startUp host flags request) fun _ => Serving I request [] := by
  refine .ite (fun _ => ?_) fun _ => .pure ?_
  · refine .bind (Q := fun _ => Serving I request []) (.perform ?_) fun _ =>
      .pure fun _ _ hserving => hserving
    rintro past s ⟨hI, before, rfl⟩
    exact ⟨h.onInitialize hI, before, [.onInitialize (initializeBudget request)], by simp,
      .inr ⟨_, rfl⟩, by simp⟩
  · rintro past s ⟨hI, before, rfl⟩
    exact ⟨hI, before, [], by simp, .inl rfl, by simp⟩

theorem triple_dispatch (h : host.Sustains I) {flags : Flags} {request : Request} :
    Traced.Triple (Serving I request []) (dispatch host flags request) fun _ => I := by
  refine .ite (fun _ => ?_) fun _ => .ite (fun _ => ?_) fun _ => ?_
  · exact .bind (triple_runHandler h) fun _ => .pure fun _ _ hI => hI
  · exact .bind (Q := fun _ => I) (.note fun _ _ ⟨hI, _⟩ => h.noted rfl hI) fun _ =>
      .pure fun _ _ hI => hI
  · refine .bind (triple_runHandler h) fun _ => .ite (fun _ => ?_) fun _ => .pure fun _ _ hI => hI
    exact .bind (Q := fun _ => I) (.perform fun _ _ hI => h.onWaitReady hI) fun _ =>
      .pure fun _ _ hI => hI

theorem triple_reply (h : host.Sustains I) {output : OStream} {request : Request}
    {own : Response} :
    Traced.Triple I (reply codec output request own : Sdk σ _) fun _ => I := by
  refine .ite (fun _ => ?_) fun _ => ?_
  · exact .bind (Q := fun _ => I) (.note fun _ _ hI => h.noted trivial hI) fun _ =>
      .pure fun _ _ hI => hI
  · exact .bind (Q := fun _ => I) (.note fun _ _ hI => h.noted trivial hI) fun _ =>
      .pure fun _ _ hI => hI

theorem triple_serveRequest (h : host.Sustains I) {flags : Flags} {output : OStream}
    {request : Request} :
    Traced.Triple I (serveRequest host codec flags output request) fun _ => I := by
  refine .bind (Q := fun _ past s => I past s ∧ ∃ before, past = before ++ [.received request])
    (.note fun past _ hI => ⟨h.noted trivial hI, past, rfl⟩) fun _ => ?_
  exact .bind (triple_startUp h) fun _ => .bind (triple_dispatch h) fun _ =>
    .bind (triple_reply h) fun _ => .pure fun _ _ hI => hI

theorem triple_serve (h : host.Sustains I) (flags : Flags) (input : IStream) (output : OStream) :
    Traced.Triple I (serve host codec flags input output) fun _ => I := by
  refine serve_induction (P := fun _ _ _ m => Traced.Triple I m fun _ => I) ?_ ?_ ?_ flags input
    output
  · exact fun _ => .pure fun _ _ hI => hI
  · exact fun _ _ => .pure fun _ _ hI => hI
  · intro flags input output frame error rest request _ _ ih
    exact .bind (triple_serveRequest h) fun served => .ite (fun _ => ih _ _) fun _ =>
      .pure fun _ _ hI => hI

/-- A run keeps what the provider does, up to the shutdown hook. -/
theorem runLoop_sustains (codec : Codec) (h : host.Sustains I) {s : σ} (hI : I [] s)
    (input : IStream) (output : OStream) :
    ∃ past t, I past t ∧
      (runLoop host codec input output s).events = past ++ [.onShutdown] ∧
        (runLoop host codec input output s).state = host.hooks.onShutdown t :=
  ⟨_, _, triple_serve h ⟨false, false⟩ input output [] s hI, rfl, rfl⟩

end Loop

/-! ## The guarantee -/

/-- Every method is invoked for the request at hand, when it is cleared. -/
def AllCleared (number : NumberPrinter) (trace : List Event) : Prop :=
  ∀ pre invocation post, trace = pre ++ .invoked invocation :: post →
    ∃ request asked, AtHand pre request asked ∧ Cleared number request asked invocation

theorem AllCleared.snoc {number : NumberPrinter} {trace : List Event}
    (h : AllCleared number trace) {e : Event} (he : ∀ invocation, e = .invoked invocation →
      ∃ request asked, AtHand trace request asked ∧ Cleared number request asked invocation) :
    AllCleared number (trace ++ [e]) := by
  intro pre invocation post hsplit
  rcases Traced.snoc_eq_append_cons hsplit with ⟨rfl, hlast, -⟩ | ⟨mid, -, hpast⟩
  · exact he invocation hlast
  · exact h pre invocation mid hpast

theorem sustains_allCleared (host : Host σ) :
    host.Sustains fun past _ => AllCleared host.number past where
  invoked hI hat hcleared _ := hI.snoc fun _ h => Event.invoked.inj h ▸ ⟨_, _, hat, hcleared⟩
  clock hI := hI.snoc fun _ h => Event.noConfusion h
  onInitialize hI := hI.snoc fun _ h => Event.noConfusion h
  onWaitReady hI := hI.snoc fun _ h => Event.noConfusion h
  handled hI _ _ _ := hI.snoc fun _ h => Event.noConfusion h
  noted hnote hI := hI.snoc fun _ h => by rw [h] at hnote; exact hnote.elim

/-- In every run, whatever the requests and whatever the provider answers, a method is invoked
only when what was checked before it, for its own request, allows it. -/
theorem runLoop_cleared (host : Host σ) (codec : Codec) (input : IStream) (output : OStream)
    (s : σ) : AllCleared host.number (runLoop host codec input output s).events := by
  obtain ⟨past, _, hpast, hevents, -⟩ := runLoop_sustains codec
    (sustains_allCleared host) (s := s) (by simp [AllCleared]) input output
  rw [hevents]
  exact hpast.snoc fun _ h => Event.noConfusion h

end ProviderSdk

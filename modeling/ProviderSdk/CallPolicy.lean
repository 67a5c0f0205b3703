import ProviderSdk.Handlers

/-!
# The call policy

When `handle_call` calls the provider, and what its answer tells about effects.

`CallAnswers` is what the provider and the clock answer, each asked in the state the
earlier answers left. `CallCheck.firstFailing` is the first of the seven checks that
request and answers fail. `handleCall_policy` is the contract : the provider is called
exactly when there is none, once, with the resolved function and the arguments as they
came.
-/

namespace ProviderSdk

variable {σ : Type}

/-! ## Deadlines -/

/-- The time since the epoch in nanoseconds. -/
def Timestamp.toNanos (ts : Timestamp) : ℤ :=
  ts.seconds * 1000000000 + ts.nanos

/-- `0001-01-01T00:00:00Z` to `9999-12-31T23:59:59.999999999Z`. -/
def Timestamp.Valid (ts : Timestamp) : Prop :=
  -62135596800 ≤ ts.seconds ∧ ts.seconds ≤ 253402300799 ∧ 0 ≤ ts.nanos ∧ ts.nanos ≤ 999999999

instance (ts : Timestamp) : Decidable ts.Valid :=
  inferInstanceAs (Decidable (_ ∧ _))

theorem isValidTimestamp_iff (ts : Timestamp) : isValidTimestamp ts = true ↔ ts.Valid := by
  simp only [isValidTimestamp, Bool.and_eq_true, decide_eq_true_eq, and_assoc]
  rfl

/-- On a valid deadline the comparison is that of exact nanoseconds. -/
theorem compareReadingTo_nonneg_iff {deadline : Timestamp} (h : deadline.Valid) (now : ℤ) :
    compareReadingTo now deadline ≥ 0 ↔ deadline.toNanos ≤ now := by
  obtain ⟨-, -, h0, h1⟩ := h
  unfold compareReadingTo Timestamp.toNanos
  dsimp only
  split_ifs <;> omega

theorem compareReadingTo_pos_iff {deadline : Timestamp} (h : deadline.Valid) (now : ℤ) :
    compareReadingTo now deadline > 0 ↔ deadline.toNanos < now := by
  obtain ⟨-, -, h0, h1⟩ := h
  unfold compareReadingTo Timestamp.toNanos
  dsimp only
  split_ifs <;> omega

/-! ## What is asked, and what is checked -/

/-- What the provider and the clock answer when `handle_call` asks. -/
structure CallAnswers where
  known : Bool
  functionId : Option UInt32
  capabilities : CapabilitySet
  firstReading : ℤ
  result : AdapterCallResult
  secondReading : ℤ

/-- The answers once the function is resolved, each asked in the state the one before it
left. -/
def resolvedAnswers (host : Host σ) (request : CallRequest) (known : Bool)
    (functionId : Option UInt32) (s : σ) : CallAnswers :=
  let capabilities := host.runtime.capabilities request.deviceId s
  let firstReading :=
    if request.deadline.isSome then host.now capabilities.2 else (0, capabilities.2)
  let result := host.runtime.call request.deviceId (functionId.getD 0) request.args firstReading.2
  { known := known
    functionId := functionId
    capabilities := capabilities.1
    firstReading := firstReading.1
    result := result.1
    secondReading := (host.now result.2).1 }

/-- The answers from state `s`. A given function id is not resolved. -/
def callAnswers (host : Host σ) (request : CallRequest) (s : σ) : CallAnswers :=
  let known := host.runtime.hasDevice request.deviceId s
  let functionId :=
    if request.functionId = 0 then
      host.runtime.resolveFunctionId request.deviceId request.functionName known.2
    else (some request.functionId, known.2)
  resolvedAnswers host request known.1 functionId.1 functionId.2

/-- The rule the arguments break for the first declared function with the resolved id. -/
def CallAnswers.argError (number : NumberPrinter) (request : CallRequest) (answers : CallAnswers) :
    Option ArgError :=
  (answers.capabilities.functions.find? fun spec => some spec.functionId = answers.functionId).bind
    fun spec => validateCallArgs number spec request.args

inductive CallCheck where
  | deviceIdGiven
  | deviceKnown
  | functionGiven
  | functionResolves
  | argsSatisfySpec
  | deadlineValid
  | deadlineAhead
  deriving DecidableEq, Repr

namespace CallCheck

/-- The checks in the order of the source. -/
def order : List CallCheck :=
  [deviceIdGiven, deviceKnown, functionGiven, functionResolves, argsSatisfySpec, deadlineValid,
    deadlineAhead]

/-- What each check asks of a request and the answers. -/
def Passes (number : NumberPrinter) (request : CallRequest) (answers : CallAnswers) :
    CallCheck → Prop
  | deviceIdGiven => request.deviceId ≠ []
  | deviceKnown => answers.known = true
  | functionGiven => request.functionId ≠ 0 ∨ request.functionName ≠ []
  | functionResolves => answers.functionId ≠ none
  | argsSatisfySpec => answers.argError number request = none
  | deadlineValid => ∀ deadline ∈ request.deadline, deadline.Valid
  | deadlineAhead => ∀ deadline ∈ request.deadline, answers.firstReading < deadline.toNanos

instance (number : NumberPrinter) (request : CallRequest) (answers : CallAnswers) :
    DecidablePred (Passes number request answers) := fun check => by
  cases check <;> unfold Passes <;> infer_instance

/-- The status code of a failed check. Arguments fail with the validator's code. -/
def code (number : NumberPrinter) (request : CallRequest) (answers : CallAnswers) :
    CallCheck → Status.Code
  | deviceIdGiven => .invalidArgument
  | deviceKnown => .notFound
  | functionGiven => .invalidArgument
  | functionResolves => .notFound
  | argsSatisfySpec =>
    match answers.argError number request with
    | some err => err.code
    | none => .ok
  | deadlineValid => .invalidArgument
  | deadlineAhead => .deadlineExceeded

/-- The error text of a failed check. -/
def message (number : NumberPrinter) (request : CallRequest) (answers : CallAnswers) :
    CallCheck → Bytes
  | deviceIdGiven => lit "device_id is required"
  | deviceKnown => lit "unknown device_id: " ++ echo request.deviceId
  | functionGiven => lit "function_id or function_name is required"
  | functionResolves =>
    lit "unknown function_name '" ++ echo request.functionName ++ lit "' for device_id '" ++
      echo request.deviceId ++ lit "'"
  | argsSatisfySpec =>
    match answers.argError number request with
    | some err => err.message
    | none => []
  | deadlineValid => lit "deadline is not a valid timestamp"
  | deadlineAhead => lit "deadline expired before the call started; nothing was done"

/-- The first check that fails. -/
def firstFailing (number : NumberPrinter) (request : CallRequest) (answers : CallAnswers) :
    Option CallCheck :=
  order.find? fun check => ¬check.Passes number request answers

/-- No check fails first exactly when all pass. -/
theorem firstFailing_eq_none_iff (number : NumberPrinter) (request : CallRequest)
    (answers : CallAnswers) :
    firstFailing number request answers = none ↔
      ∀ check : CallCheck, check.Passes number request answers := by
  rw [firstFailing, List.find?_eq_none]
  constructor
  · intro h check
    simpa using h check (by cases check <;> decide)
  · intro h check _
    simpa using h check

end CallCheck

/-! ## Running the handler -/

/-- The event is a call of the provider. -/
def Event.isCall : Event → Bool
  | .invoked (.call ..) => true
  | _ => false

/-- What a run of `handle_call` comes to : its calls of the provider, and its response. -/
def outcome (ran : Ran Event σ Response) : List Event × Response :=
  (ran.events.filter Event.isCall, ran.value)

@[simp] theorem outcome_done (response : Response) (s : σ) :
    outcome ⟨response, s, []⟩ = ([], response) :=
  rfl

/-- A question that is no call leaves the outcome to what follows. -/
theorem outcome_observe_bind {α : Type} {e : α → Event} (he : ∀ a, (e a).isCall = false)
    (f : σ → α × σ) (k : α → Sdk σ Response) (s : σ) :
    outcome ((Traced.observe e f >>= k) s) = outcome (k (f s).1 (f s).2) := by
  simp [outcome, he]

variable (host : Host σ)

@[simp] theorem outcome_hasDevice_bind (deviceId : Bytes) (k : Bool → Sdk σ Response) (s : σ) :
    outcome ((host.hasDevice deviceId >>= k) s) =
      outcome (k (host.runtime.hasDevice deviceId s).1 (host.runtime.hasDevice deviceId s).2) :=
  outcome_observe_bind (fun _ => rfl) _ k s

@[simp] theorem outcome_resolveFunctionId_bind (deviceId functionName : Bytes)
    (k : Option UInt32 → Sdk σ Response) (s : σ) :
    outcome ((host.resolveFunctionId deviceId functionName >>= k) s) =
      outcome (k (host.runtime.resolveFunctionId deviceId functionName s).1
        (host.runtime.resolveFunctionId deviceId functionName s).2) :=
  outcome_observe_bind (fun _ => rfl) _ k s

@[simp] theorem outcome_capabilities_bind (deviceId : Bytes) (k : CapabilitySet → Sdk σ Response)
    (s : σ) :
    outcome ((host.capabilities deviceId >>= k) s) =
      outcome (k (host.runtime.capabilities deviceId s).1
        (host.runtime.capabilities deviceId s).2) :=
  outcome_observe_bind (fun _ => rfl) _ k s

@[simp] theorem outcome_compareNowTo_bind (deadline : Timestamp) (k : ℤ → Sdk σ Response) (s : σ) :
    outcome ((compareNowTo host deadline >>= k) s) =
      outcome (k (compareReadingTo (host.now s).1 deadline) (host.now s).2) := by
  rw [compareNowTo, bind_assoc]
  simp only [pure_bind]
  exact outcome_observe_bind (fun _ => rfl) _ _ s

@[simp] theorem outcome_call_bind (deviceId : Bytes) (functionId : UInt32) (args : ValueMap)
    (k : AdapterCallResult → Sdk σ Response) (s : σ) :
    outcome ((host.call deviceId functionId args >>= k) s) =
      let result := host.runtime.call deviceId functionId args s
      (.invoked (.call deviceId functionId args result.1) :: (outcome (k result.1 result.2)).1,
        (outcome (k result.1 result.2)).2) :=
  rfl

variable (request : CallRequest) (response : Response)

/-- What `handle_call` answers when the provider answered `result`. -/
def answeredResponse (result : AdapterCallResult) (late : Bool) : Response :=
  if result.ok = false then response.setStatus result.errorCode result.errorMessage
  else if late then lateResponse response
  else callResponse request result.results response

theorem callProvider_outcome (functionId : UInt32) (s : σ) :
    let result := host.runtime.call request.deviceId functionId request.args s
    outcome (callProvider host request functionId response s) =
      ([.invoked (.call request.deviceId functionId request.args result.1)],
        answeredResponse request response result.1
          (request.deadline.any fun d => compareReadingTo (host.now result.2).1 d > 0)) := by
  intro result
  unfold callProvider answeredResponse
  rw [outcome_call_bind]
  by_cases hok : result.1.ok = false
  · simp [result, hok]
  cases request.deadline with
  | none => simp [result, hok]
  | some deadline =>
    by_cases hlate : compareReadingTo (host.now result.2).1 deadline > 0 <;>
    simp [result, hok, hlate]

/-- The deadline's two checks, then the call. A valid deadline is compared exactly. -/
theorem callBeforeDeadline_outcome (functionId : UInt32) (s : σ) :
    let reading := if request.deadline.isSome then host.now s else (0, s)
    let result := host.runtime.call request.deviceId functionId request.args reading.2
    outcome (callBeforeDeadline host request functionId response s) =
      if ¬∀ d ∈ request.deadline, d.Valid then
        ([], response.setStatus .invalidArgument (lit "deadline is not a valid timestamp"))
      else if ¬∀ d ∈ request.deadline, reading.1 < d.toNanos then
        ([], response.setStatus .deadlineExceeded
          (lit "deadline expired before the call started; nothing was done"))
      else
        ([.invoked (.call request.deviceId functionId request.args result.1)],
          answeredResponse request response result.1
            (request.deadline.any fun d => d.toNanos < (host.now result.2).1)) := by
  intro reading result
  unfold callBeforeDeadline
  cases hdl : request.deadline with
  | none =>
    have h := callProvider_outcome host request response functionId s
    simp only [hdl, Option.any_none] at h
    simpa [result, reading, hdl] using h
  | some deadline =>
    by_cases hv : deadline.Valid
    · have hvt : isValidTimestamp deadline = true := (isValidTimestamp_iff deadline).mpr hv
      by_cases hreached : deadline.toNanos ≤ (host.now s).1
      · have hcmp := (compareReadingTo_nonneg_iff hv (host.now s).1).mpr hreached
        simp [reading, hdl, hv, hvt, hcmp, hreached]
      · have hcmp := mt (compareReadingTo_nonneg_iff hv (host.now s).1).mp hreached
        have h := callProvider_outcome host request response functionId (host.now s).2
        simp only [hdl, Option.any_some, compareReadingTo_pos_iff hv] at h
        simpa [result, reading, hdl, hv, hvt, hcmp, not_le.mp hreached] using h
    · have hvt : isValidTimestamp deadline = false := by
        rw [← Bool.not_eq_true, isValidTimestamp_iff]
        exact hv
      simp [hv, hvt]

namespace CallCheck

theorem find?_fails_cons {number : NumberPrinter} {answers : CallAnswers} (check : CallCheck)
    (checks : List CallCheck) :
    (check :: checks).find? (fun check => ¬check.Passes number request answers) =
      if check.Passes number request answers then
        checks.find? fun check => ¬check.Passes number request answers
      else some check := by
  by_cases h : check.Passes number request answers
  · simp [h]
  · simp [h]

/-- The checks one by one. -/
theorem firstFailing_eq (number : NumberPrinter) (answers : CallAnswers) :
    firstFailing number request answers =
      if request.deviceId ≠ [] then
        if answers.known = true then
          if request.functionId ≠ 0 ∨ request.functionName ≠ [] then
            if answers.functionId ≠ none then
              if answers.argError number request = none then
                if ∀ d ∈ request.deadline, d.Valid then
                  if ∀ d ∈ request.deadline, answers.firstReading < d.toNanos then none
                  else some deadlineAhead
                else some deadlineValid
              else some argsSatisfySpec
            else some functionResolves
          else some functionGiven
        else some deviceKnown
      else some deviceIdGiven := by
  unfold firstFailing order
  simp only [find?_fails_cons, List.find?_nil]
  rfl

end CallCheck

/-- What is left of the handler once the function is resolved. -/
theorem callResolved_outcome (known : Bool) (functionId : UInt32) (s : σ) :
    let answers := resolvedAnswers host request known (some functionId) s
    outcome (callResolved host request functionId response s) =
      match answers.argError host.number request with
      | some err => ([], response.setStatus err.code err.message)
      | none =>
        if ¬∀ d ∈ request.deadline, d.Valid then
          ([], response.setStatus .invalidArgument (lit "deadline is not a valid timestamp"))
        else if ¬∀ d ∈ request.deadline, answers.firstReading < d.toNanos then
          ([], response.setStatus .deadlineExceeded
            (lit "deadline expired before the call started; nothing was done"))
        else
          ([.invoked (.call request.deviceId functionId request.args answers.result)],
            answeredResponse request response answers.result
              (request.deadline.any fun d => d.toNanos < answers.secondReading)) := by
  intro answers
  have harg : answers.argError host.number request =
      declaredArgError host.number (host.runtime.capabilities request.deviceId s).1 functionId
        request.args := by
    simp [answers, resolvedAnswers, CallAnswers.argError, declaredArgError]
  unfold callResolved
  rw [outcome_capabilities_bind, harg]
  cases declaredArgError host.number (host.runtime.capabilities request.deviceId s).1 functionId
    request.args with
  | some err => simp
  | none => exact callBeforeDeadline_outcome host request response functionId _

/-- What the handler comes to when the answers are `answers` : the first failing check's
status, or the call. -/
def checkedOutcome (number : NumberPrinter) (answers : CallAnswers) : List Event × Response :=
  match CallCheck.firstFailing number request answers with
  | some check =>
    ([], response.setStatus (check.code number request answers)
      (check.message number request answers))
  | none =>
    ([.invoked (.call request.deviceId (answers.functionId.getD 0) request.args answers.result)],
      answeredResponse request response answers.result
        (request.deadline.any fun d => d.toNanos < answers.secondReading))

/-- Once the function is resolved, the checks left are those of the arguments and the
deadline. -/
theorem callResolved_checked {answers : CallAnswers} {functionId : UInt32} {s : σ}
    (hanswers : answers = resolvedAnswers host request true (some functionId) s)
    (hdevice : request.deviceId ≠ [])
    (hfunction : request.functionId ≠ 0 ∨ request.functionName ≠ []) :
    outcome (callResolved host request functionId response s) =
      checkedOutcome request response host.number answers := by
  have hknown : answers.known = true := by rw [hanswers]; rfl
  have hid : answers.functionId = some functionId := by rw [hanswers]; rfl
  have hresolves : answers.functionId ≠ none := by simp [hid]
  have htail := callResolved_outcome host request response true functionId s
  rw [← hanswers] at htail
  rw [htail, checkedOutcome, CallCheck.firstFailing_eq, if_pos hdevice, if_pos hknown,
    if_pos hfunction, if_pos hresolves]
  cases harg : answers.argError host.number request with
  | some err => simp [harg, CallCheck.code, CallCheck.message]
  | none =>
    split_ifs <;> simp_all [CallCheck.code, CallCheck.message]

/-- The handler is its checks in order, then the call. -/
theorem handleCall_outcome (s : σ) :
    outcome (handleCall host request response s) =
      checkedOutcome request response host.number (callAnswers host request s) := by
  unfold handleCall
  by_cases hdevice : request.deviceId = []
  · simp [checkedOutcome, CallCheck.firstFailing_eq, hdevice, CallCheck.code, CallCheck.message,
      deviceIdRequired]
  by_cases hknown : (host.runtime.hasDevice request.deviceId s).1 = true
  swap
  · have hk : (callAnswers host request s).known ≠ true := hknown
    simp [checkedOutcome, CallCheck.firstFailing_eq, hdevice, hknown, hk, CallCheck.code,
      CallCheck.message, unknownDevice]
  by_cases hid : request.functionId = 0
  swap
  · have hanswers : callAnswers host request s =
        resolvedAnswers host request true (some request.functionId)
          (host.runtime.hasDevice request.deviceId s).2 := by
      simp [callAnswers, hid, hknown]
    rw [← callResolved_checked host request response hanswers hdevice (.inl hid)]
    simp [hdevice, hknown, hid]
  by_cases hname : request.functionName = []
  · have hk : (callAnswers host request s).known = true := hknown
    simp [checkedOutcome, CallCheck.firstFailing_eq, hdevice, hknown, hk, hid, hname,
      CallCheck.code, CallCheck.message]
  cases hresolved : (host.runtime.resolveFunctionId request.deviceId request.functionName
    (host.runtime.hasDevice request.deviceId s).2).1 with
  | none =>
    have hk : (callAnswers host request s).known = true := hknown
    have hf : (callAnswers host request s).functionId = none := by
      simp [callAnswers, resolvedAnswers, hid, hresolved]
    simp [checkedOutcome, CallCheck.firstFailing_eq, hdevice, hknown, hk, hid, hname, hf,
      hresolved, CallCheck.code, CallCheck.message]
  | some functionId =>
    have hanswers : callAnswers host request s =
        resolvedAnswers host request true (some functionId)
          (host.runtime.resolveFunctionId request.deviceId request.functionName
            (host.runtime.hasDevice request.deviceId s).2).2 := by
      simp [callAnswers, hid, hknown, hresolved]
    rw [← callResolved_checked host request response hanswers hdevice (.inr hname)]
    simp [hdevice, hknown, hid, hname, hresolved]

/-! ## The contract -/

/-- The call ended after its deadline. -/
def CallAnswers.Late (request : CallRequest) (answers : CallAnswers) : Prop :=
  ∃ d ∈ request.deadline, d.toNanos < answers.secondReading

theorem any_deadline_iff_late (answers : CallAnswers) :
    (request.deadline.any fun d => d.toNanos < answers.secondReading) = true ↔
      answers.Late request := by
  cases hdl : request.deadline with
  | none => simp [CallAnswers.Late, hdl]
  | some deadline => simp [CallAnswers.Late, hdl]

/-- The contract of `handle_call`, when the provider and the clock answer `answers`, the
calls of the provider are `calls`, and it answers `own` for `response`. -/
structure CallContract (number : NumberPrinter) (request : CallRequest) (response : Response)
    (answers : CallAnswers) (calls : List Event) (own : Response) : Prop where
  /-- The provider is called exactly when every check passes : once, with the resolved
  function and the arguments as they came. -/
  called_iff : (∃ functionId, answers.functionId = some functionId ∧
      calls = [.invoked (.call request.deviceId functionId request.args answers.result)]) ↔
    ∀ check : CallCheck, check.Passes number request answers
  not_called_iff : calls = [] ↔ ¬∀ check : CallCheck, check.Passes number request answers
  /-- The first check that fails gives the status code, and no payload is set. -/
  refused : ∀ before check after, CallCheck.order = before ++ check :: after →
    (∀ c ∈ before, c.Passes number request answers) → ¬check.Passes number request answers →
      own.status.code = check.code number request answers ∧ own.payload = response.payload
  /-- The provider's own error is passed on. -/
  failed : (∀ check : CallCheck, check.Passes number request answers) →
    answers.result.ok = false →
      own = response.setStatus answers.result.errorCode answers.result.errorMessage
  /-- A call that returned ok in time has the provider's results, or `accepted = true`. -/
  inTime : (∀ check : CallCheck, check.Passes number request answers) →
    answers.result.ok = true → ¬answers.Late request →
      own.status.code = .ok ∧ own.payload = .call
        { deviceId := request.deviceId
          results := if answers.result.results = ∅ then
              StringMap.of [(lit "accepted", ⟨.bool, .boolValue true⟩)]
            else answers.result.results }
  /-- One that returned ok after its deadline has none, and says that it had effects. -/
  late : (∀ check : CallCheck, check.Passes number request answers) →
    answers.result.ok = true → answers.Late request →
      own.status.code = .deadlineExceeded ∧
        own.status.details.lookup (lit "side_effects") = some (lit "possible") ∧
          own.payload = response.payload

/-- The first check of the order that fails. -/
theorem firstFailing_eq_some {number : NumberPrinter} {answers : CallAnswers}
    {before after : List CallCheck} {check : CallCheck}
    (horder : CallCheck.order = before ++ check :: after)
    (hbefore : ∀ c ∈ before, c.Passes number request answers)
    (hcheck : ¬check.Passes number request answers) :
    CallCheck.firstFailing number request answers = some check := by
  rw [CallCheck.firstFailing, List.find?_eq_some_iff_append]
  exact ⟨by simpa using hcheck, before, after, horder, by simpa using hbefore⟩

/-- When every check passes the function is called, and its answer is passed on. -/
theorem contract_of_passes {number : NumberPrinter} {answers : CallAnswers}
    (h : ∀ check : CallCheck, check.Passes number request answers) :
    CallContract number request response answers
      (checkedOutcome request response number answers).1
      (checkedOutcome request response number answers).2 := by
  obtain ⟨functionId, hid⟩ := Option.ne_none_iff_exists'.mp (h .functionResolves)
  rw [checkedOutcome, (CallCheck.firstFailing_eq_none_iff _ _ _).mpr h]
  dsimp only
  rw [hid, Option.getD_some]
  constructor
  case called_iff => exact iff_of_true ⟨functionId, hid, rfl⟩ h
  case not_called_iff => exact iff_of_false (List.cons_ne_nil _ _) (not_not.mpr h)
  case refused => exact fun _ check _ _ _ hcheck => absurd (h check) hcheck
  case failed =>
    intro _ hok
    rw [answeredResponse, if_pos hok]
  case inTime =>
    intro _ hok hlate
    rw [← any_deadline_iff_late, Bool.not_eq_true] at hlate
    rw [answeredResponse, if_neg (by simp [hok]), hlate]
    exact ⟨rfl, rfl⟩
  case late =>
    intro _ hok hlate
    rw [← any_deadline_iff_late] at hlate
    rw [answeredResponse, if_neg (by simp [hok]), hlate]
    exact ⟨rfl, AList.lookup_insert _, rfl⟩

/-- When one fails nothing is called, and the first that fails is answered. -/
theorem contract_of_fails {number : NumberPrinter} {answers : CallAnswers}
    (h : ¬∀ check : CallCheck, check.Passes number request answers) :
    CallContract number request response answers
      (checkedOutcome request response number answers).1
      (checkedOutcome request response number answers).2 := by
  rw [← CallCheck.firstFailing_eq_none_iff] at h
  obtain ⟨first, hfirst⟩ := Option.ne_none_iff_exists'.mp h
  rw [CallCheck.firstFailing_eq_none_iff] at h
  rw [checkedOutcome, hfirst]
  constructor
  case called_iff => exact iff_of_false (fun ⟨_, _, hcalls⟩ => by cases hcalls) h
  case not_called_iff => exact iff_of_true rfl h
  case refused =>
    intro before check after horder hbefore hcheck
    rw [firstFailing_eq_some request horder hbefore hcheck] at hfirst
    obtain rfl := Option.some.inj hfirst
    exact ⟨rfl, rfl⟩
  case failed => exact fun hpasses => absurd hpasses h
  case inTime => exact fun hpasses => absurd hpasses h
  case late => exact fun hpasses => absurd hpasses h

/-- `handle_call` keeps its contract, from every state of the provider and the clock. -/
theorem handleCall_policy (host : Host σ) (request : CallRequest) (response : Response) (s : σ) :
    CallContract host.number request response (callAnswers host request s)
      ((handleCall host request response s).events.filter Event.isCall)
      (handleCall host request response s).value := by
  have hrun : outcome (handleCall host request response s) =
      checkedOutcome request response host.number (callAnswers host request s) :=
    handleCall_outcome host request response s
  obtain ⟨hcalls, hown⟩ := Prod.mk.inj hrun
  rw [hcalls, hown]
  by_cases h : ∀ check : CallCheck, check.Passes host.number request (callAnswers host request s)
  · exact contract_of_passes request response h
  · exact contract_of_fails request response h

end ProviderSdk

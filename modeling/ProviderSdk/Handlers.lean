import ProviderSdk.Runtime
import ProviderSdk.Transport

/-!
# The request handlers

`src/anolis/provider_sdk/handlers.cpp`. Each handler fills a `Response` from the request
and what the provider answers. What a handler makes of the answers is a function of its
own (`helloResponse`, `startupHealth`, `deviceHealthOf`, ...), and the handler itself
is the order in which it asks.

`Concludes` is what every handler leaves behind : the request id it was given, and either
`CODE_OK` with the payload of its own kind of request, or another code with no payload
(`handle_concludes`).
-/

namespace ProviderSdk

variable {σ : Type}

/-! ## Hello and WaitReady -/

/-- The Hello metadata : the SDK's own keys, then the provider's. -/
def helloMetadata (metadata : ProviderMetadata) : StringMap Bytes :=
  (StringMap.of
    [(lit "transport", lit "stdio+uint32_le"),
      (lit "max_frame_bytes", toStringNat kMaxFrameBytes.toNat),
      (lit "supports_deadlines", lit "true")]).setAll metadata.helloExtra

def helloResponse (request : HelloRequest) (metadata : ProviderMetadata) (response : Response) :
    Response :=
  if request.protocolVersion ≠ metadata.protocolVersion then
    response.setStatus .failedPrecondition
      (lit "unsupported protocol_version; expected " ++ metadata.protocolVersion)
  else
    { response with
      payload := .hello
        { protocolVersion := metadata.protocolVersion
          providerName := metadata.name
          providerVersion := metadata.version
          metadata := helloMetadata metadata } }.setStatusOk

/-- Validate the protocol version and advertise provider metadata. -/
def handleHello (host : Host σ) (request : HelloRequest) (response : Response) :
    Sdk σ Response := do
  let metadata ← host.metadata
  return helloResponse request metadata response

/-- The WaitReady diagnostics : the startup report's keys, then the provider's. -/
def waitReadyDiagnostics (report : ReadinessReport) (metadata : ProviderMetadata) :
    StringMap Bytes :=
  (StringMap.of
    [(lit "device_count", toStringNat report.successfulDeviceIds.length),
      (lit "startup_policy", report.startupPolicy),
      (lit "startup_configured_devices", toStringInt report.configuredDeviceCount),
      (lit "startup_initialized_devices", toStringNat report.successfulDeviceIds.length),
      (lit "startup_failed_devices", toStringNat report.failedDevices.length),
      (lit "startup_degraded", if report.failedDevices = [] then lit "false" else lit "true"),
      (lit "provider_version", metadata.version),
      (lit "provider_impl", report.providerImpl)]).setAll report.extraDiagnostics

def waitReadyResponse (report : ReadinessReport) (metadata : ProviderMetadata)
    (response : Response) : Response :=
  { response with
    payload := .waitReady { diagnostics := waitReadyDiagnostics report metadata } }.setStatusOk

/-- Project the readiness report into wait_ready diagnostics. The request is not read. -/
def handleWaitReady (host : Host σ) (response : Response) : Sdk σ Response := do
  let report ← host.readiness
  let metadata ← host.metadata
  return waitReadyResponse report metadata response

/-! ## Health -/

/-- `static_cast<int>` of a count. -/
def toInt32 (n : ℕ) : ℤ :=
  Int.bmod n (2 ^ 32)

/-- The devices that failed to initialize : those reported, or those missing from the
configured count when that is more. -/
def failedDeviceCount (report : ReadinessReport) : ℕ :=
  let initialized := report.successfulDeviceIds.length
  let inferredFailed :=
    if report.configuredDeviceCount > toInt32 initialized then
      -- the subtraction is of `std::size_t`s
      ((report.configuredDeviceCount - initialized) % 2 ^ 64).toNat
    else 0
  if report.failedDevices.length > inferredFailed then report.failedDevices.length
  else inferredFailed

/-- Provider health derived from the readiness snapshot. -/
def startupHealth (report : ReadinessReport) : ProviderHealth :=
  let failed := failedDeviceCount report
  let metrics := StringMap.of
    [(lit "impl", report.providerImpl),
      (lit "startup_policy", report.startupPolicy),
      (lit "startup_configured_devices", toStringInt report.configuredDeviceCount),
      (lit "startup_initialized_devices", toStringNat report.successfulDeviceIds.length),
      (lit "startup_failed_devices", toStringNat failed)]
  if failed > 0 then
    { state := .degraded
      message := lit "startup degraded: " ++ toStringNat failed ++ lit " of " ++
        toStringInt report.configuredDeviceCount ++ lit " devices failed to initialize"
      metrics := metrics }
  else { state := .ok, message := lit "ok", metrics := metrics }

/-- Merge the provider's enrichment : the fixed keys win, and the state only worsens. -/
def applyProviderHealth (health : ProviderHealth) (extra : ProviderHealthExtra) :
    ProviderHealth :=
  let metrics := extra.metrics.entries.foldl
    (fun m e => if e.1 ∈ m then m else m.insert e.1 e.2) health.metrics
  let health := { health with metrics := metrics }
  match extra.state with
  | some state =>
    if state ≠ .unspecified ∧ state.number > health.state.number then
      { health with state := state, message := extra.message.getD health.message }
    else health
  | none => { health with message := extra.message.getD health.message }

def makeProviderHealth (host : Host σ) (report : ReadinessReport) : Sdk σ ProviderHealth := do
  let extra ← host.providerHealth
  return applyProviderHealth (startupHealth report) extra

/-- The health of one device : the readiness snapshot's, then the provider's enrichment. -/
def deviceHealthOf (report : ReadinessReport) (deviceId : Bytes) (extra : DeviceHealthExtra) :
    DeviceHealth :=
  let startup : DeviceHealth.State × Bytes :=
    match report.failedDevices.find? (fun failure => failure.deviceId = deviceId) with
    | some failure => (.unreachable, failure.reason)
    | none => (.ok, lit "ok")
  { deviceId := deviceId
    state :=
      match extra.state with
      | some state => if state ≠ .unspecified then state else startup.1
      | none => startup.1
    message := extra.message.getD startup.2
    metrics := StringMap.setAll ∅ extra.metrics
    lastSeen := extra.lastSeen }

def makeDeviceHealth (host : Host σ) (deviceIds : List Bytes) (report : ReadinessReport) :
    Sdk σ (List DeviceHealth) :=
  deviceIds.mapM fun deviceId => do
    let extra ← host.deviceHealth deviceId
    return deviceHealthOf report deviceId extra

/-! ## Inventory -/

/-- List the provider's devices, with per-device health when `include_health` is set. -/
def handleListDevices (host : Host σ) (request : ListDevicesRequest) (response : Response) :
    Sdk σ Response := do
  let deviceIds ← host.listDeviceIds
  let devices ← deviceIds.mapM host.deviceInfo
  if request.includeHealth then
    let report ← host.readiness
    let health ← makeDeviceHealth host deviceIds report
    return { response with
      payload := .listDevices { devices := devices, deviceHealth := health } }.setStatusOk
  else
    return { response with
      payload := .listDevices { devices := devices, deviceHealth := [] } }.setStatusOk

def deviceIdRequired (response : Response) : Response :=
  response.setStatus .invalidArgument (lit "device_id is required")

def unknownDevice (deviceId : Bytes) (response : Response) : Response :=
  response.setStatus .notFound (lit "unknown device_id: " ++ echo deviceId)

/-- Describe one device : its metadata and full capability set. -/
def handleDescribeDevice (host : Host σ) (request : DescribeDeviceRequest) (response : Response) :
    Sdk σ Response :=
  if request.deviceId = [] then return deviceIdRequired response
  else do
    let known ← host.hasDevice request.deviceId
    if known = false then return unknownDevice request.deviceId response
    else
      let device ← host.deviceInfo request.deviceId
      let capabilities ← host.capabilities request.deviceId
      return { response with
        payload := .describeDevice { device := device, capabilities := capabilities } }.setStatusOk

/-! ## Reading signals -/

/-- Lexicographic on seconds and nanoseconds. -/
def Timestamp.older (ts minTs : Timestamp) : Bool :=
  ts.seconds < minTs.seconds || (ts.seconds == minTs.seconds && ts.nanos < minTs.nanos)

/-- Flag values older than `min_timestamp` as stale, without masking a worse quality. -/
def applyMinTimestamp (request : ReadSignalsRequest) (out : ReadSignalsResponse) :
    ReadSignalsResponse :=
  match request.minTimestamp with
  | none => out
  | some minTs =>
    { out with
      values := out.values.map fun value =>
        if value.timestamp.older minTs ∧ value.quality = .ok then { value with quality := .stale }
        else value }

/-- The read itself, once its signals are known. -/
def readKnownSignals (host : Host σ) (request : ReadSignalsRequest) (response : Response) :
    Sdk σ Response := do
  let result ← host.read request.deviceId request.signalIds
  if result.ok = false then return response.setStatus result.errorCode result.errorMessage
  else
    return { response with
      payload := .readSignals (applyMinTimestamp request
        { deviceId := request.deviceId, values := result.values }) }.setStatusOk

/-- Read signal values for one device. An unknown signal fails the whole read. -/
def handleReadSignals (host : Host σ) (request : ReadSignalsRequest) (response : Response) :
    Sdk σ Response :=
  if request.deviceId = [] then return deviceIdRequired response
  else do
    let known ← host.hasDevice request.deviceId
    if known = false then return unknownDevice request.deviceId response
    else if request.signalIds = [] then readKnownSignals host request response
    else
      let caps ← host.capabilities request.deviceId
      match request.signalIds.find? (fun id => id ∉ caps.signals.map SignalSpec.signalId) with
      | some id =>
        return response.setStatus .notFound (lit "unknown signal_id '" ++ echo id ++
          lit "' for device '" ++ echo request.deviceId ++ lit "'")
      | none => readKnownSignals host request response

/-! ## Calls -/

def kMinTimestampSeconds : ℤ :=
  -62135596800

def kMaxTimestampSeconds : ℤ :=
  253402300799

def kMaxTimestampNanos : ℤ :=
  999999999

def isValidTimestamp (ts : Timestamp) : Bool :=
  ts.seconds ≥ kMinTimestampSeconds && ts.seconds ≤ kMaxTimestampSeconds && ts.nanos ≥ 0 &&
    ts.nanos ≤ kMaxTimestampNanos

/-- `-1`, `0` or `1` as the clock reading is before, at or after `deadline`. The seconds
are the floor, also before the epoch. -/
def compareReadingTo (sinceEpoch : ℤ) (deadline : Timestamp) : ℤ :=
  let nowS := sinceEpoch / 1000000000
  let nowNs := sinceEpoch - nowS * 1000000000
  if nowS ≠ deadline.seconds then (if nowS < deadline.seconds then -1 else 1)
  else if nowNs ≠ deadline.nanos then (if nowNs < deadline.nanos then -1 else 1)
  else 0

def compareNowTo (host : Host σ) (deadline : Timestamp) : Sdk σ ℤ := do
  let sinceEpoch ← host.systemClockNow
  return compareReadingTo sinceEpoch deadline

/-- The answer to a call that returned. -/
def callResponse (request : CallRequest) (results : ValueMap) (response : Response) : Response :=
  { response with
    payload := .call
      { deviceId := request.deviceId
        results :=
          if results = ∅ then StringMap.of [(lit "accepted", ⟨.bool, .boolValue true⟩)]
          else results } }.setStatusOk

/-- The answer to a call that returned after its deadline. -/
def lateResponse (response : Response) : Response :=
  let response := response.setStatus .deadlineExceeded
    (lit "deadline expired while the call ran; it completed, so its effects may have happened")
  { response with
    status := { response.status with
      details := response.status.details.insert (lit "side_effects") (lit "possible") } }

/-- Call the provider, whose function and arguments have passed the checks. -/
def callProvider (host : Host σ) (request : CallRequest) (functionId : UInt32)
    (response : Response) : Sdk σ Response := do
  let result ← host.call request.deviceId functionId request.args
  if result.ok = false then return response.setStatus result.errorCode result.errorMessage
  else
    match request.deadline with
    | none => return callResponse request result.results response
    | some deadline =>
      let order ← compareNowTo host deadline
      if order > 0 then return lateResponse response
      else return callResponse request result.results response

/-- Check the deadline, then call. -/
def callBeforeDeadline (host : Host σ) (request : CallRequest) (functionId : UInt32)
    (response : Response) : Sdk σ Response :=
  match request.deadline with
  | none => callProvider host request functionId response
  | some deadline =>
    if isValidTimestamp deadline = false then
      return response.setStatus .invalidArgument (lit "deadline is not a valid timestamp")
    else do
      let order ← compareNowTo host deadline
      if order ≥ 0 then
        return response.setStatus .deadlineExceeded
          (lit "deadline expired before the call started; nothing was done")
      else callProvider host request functionId response

/-- The rule the arguments break for the first declared function with the id. -/
def declaredArgError (number : NumberPrinter) (caps : CapabilitySet) (functionId : UInt32)
    (args : ValueMap) : Option ArgError :=
  (caps.functions.find? fun spec => spec.functionId = functionId).bind fun spec =>
    validateCallArgs number spec args

/-- Check the arguments against the declared function, then go on to the deadline. -/
def callResolved (host : Host σ) (request : CallRequest) (functionId : UInt32)
    (response : Response) : Sdk σ Response := do
  let caps ← host.capabilities request.deviceId
  match declaredArgError host.number caps functionId request.args with
  | some err => return response.setStatus err.code err.message
  | none => callBeforeDeadline host request functionId response

/-- Invoke a device function by numeric id (preferred) or resolved symbolic name. -/
def handleCall (host : Host σ) (request : CallRequest) (response : Response) : Sdk σ Response :=
  if request.deviceId = [] then return deviceIdRequired response
  else do
    let known ← host.hasDevice request.deviceId
    if known = false then return unknownDevice request.deviceId response
    else if request.functionId = 0 ∧ request.functionName = [] then
      return response.setStatus .invalidArgument (lit "function_id or function_name is required")
    else if request.functionId = 0 then
      let resolved ← host.resolveFunctionId request.deviceId request.functionName
      match resolved with
      | none =>
        return response.setStatus .notFound (lit "unknown function_name '" ++
          echo request.functionName ++ lit "' for device_id '" ++ echo request.deviceId ++ lit "'")
      | some functionId => callResolved host request functionId response
    else callResolved host request request.functionId response

/-! ## GetHealth and the rest -/

/-- The live inventory, then each startup failure that is not live. -/
def healthIds (live : List Bytes) (report : ReadinessReport) : List Bytes :=
  live ++ (report.failedDevices.map ReadinessReport.DeviceFailure.deviceId).filter (· ∉ live)

/-- Report provider and per-device health derived from the readiness snapshot. -/
def handleGetHealth (host : Host σ) (response : Response) : Sdk σ Response := do
  let report ← host.readiness
  let provider ← makeProviderHealth host report
  let live ← host.listDeviceIds
  let devices ← makeDeviceHealth host (healthIds live report) report
  return { response with
    payload := .getHealth { provider := provider, devices := devices } }.setStatusOk

def handleUnimplemented (response : Response) : Response :=
  response.setStatus .unimplemented (lit "operation not implemented")

/-- The handler `run_loop` dispatches each kind of request to. -/
def handle (host : Host σ) (request : Request) (response : Response) : Sdk σ Response :=
  match request.kind with
  | .hello hello => handleHello host hello response
  | .waitReady _ => handleWaitReady host response
  | .listDevices listDevices => handleListDevices host listDevices response
  | .describeDevice describeDevice => handleDescribeDevice host describeDevice response
  | .readSignals readSignals => handleReadSignals host readSignals response
  | .call call => handleCall host call response
  | .getHealth => handleGetHealth host response
  | .none => return handleUnimplemented response

/-! ## What a handler asks -/

/-- A handler asks the provider, or reads the clock. -/
def Event.IsQuestion : Event → Prop
  | .invoked _ | .clockRead _ => True
  | _ => False

variable (host : Host σ)

theorem emits_ask {α : Type} {ask : α → Invocation} {f : σ → α × σ} :
    Traced.Emits (.observe (.invoked ∘ ask) f : Sdk σ α) Event.IsQuestion :=
  .observe fun _ => trivial

theorem makeDeviceHealth_emits (deviceIds : List Bytes) (report : ReadinessReport) :
    (makeDeviceHealth host deviceIds report).Emits Event.IsQuestion :=
  .mapM (fun _ => emits_ask.bind fun _ => .pure) deviceIds

theorem handleListDevices_emits (request : ListDevicesRequest) (response : Response) :
    (handleListDevices host request response).Emits Event.IsQuestion :=
  emits_ask.bind fun deviceIds => (Traced.Emits.mapM (fun _ => emits_ask) deviceIds).bind fun _ =>
    .ite (fun _ => emits_ask.bind fun _ => (makeDeviceHealth_emits host _ _).bind fun _ => .pure)
      fun _ => .pure

theorem handleDescribeDevice_emits (request : DescribeDeviceRequest) (response : Response) :
    (handleDescribeDevice host request response).Emits Event.IsQuestion :=
  .ite (fun _ => .pure) fun _ => emits_ask.bind fun _ => .ite (fun _ => .pure) fun _ =>
    emits_ask.bind fun _ => emits_ask.bind fun _ => .pure

theorem readKnownSignals_emits (request : ReadSignalsRequest) (response : Response) :
    (readKnownSignals host request response).Emits Event.IsQuestion :=
  emits_ask.bind fun _ => .ite (fun _ => .pure) fun _ => .pure

theorem handleReadSignals_emits (request : ReadSignalsRequest) (response : Response) :
    (handleReadSignals host request response).Emits Event.IsQuestion := by
  refine .ite (fun _ => .pure) fun _ => emits_ask.bind fun _ => .ite (fun _ => .pure) fun _ =>
    .ite (fun _ => readKnownSignals_emits host request response) fun _ => emits_ask.bind fun _ => ?_
  split
  · exact .pure
  · exact readKnownSignals_emits host request response

theorem compareNowTo_emits (deadline : Timestamp) :
    (compareNowTo host deadline).Emits Event.IsQuestion :=
  .bind (.observe fun _ => trivial) fun _ => .pure

theorem callProvider_emits (request : CallRequest) (functionId : UInt32) (response : Response) :
    (callProvider host request functionId response).Emits Event.IsQuestion := by
  refine emits_ask.bind fun _ => .ite (fun _ => .pure) fun _ => ?_
  split
  · exact .pure
  · exact (compareNowTo_emits host _).bind fun _ => .ite (fun _ => .pure) fun _ => .pure

theorem callResolved_emits (request : CallRequest) (functionId : UInt32) (response : Response) :
    (callResolved host request functionId response).Emits Event.IsQuestion := by
  refine emits_ask.bind fun _ => ?_
  split
  · exact .pure
  · unfold callBeforeDeadline
    split
    · exact callProvider_emits host request functionId response
    · exact .ite (fun _ => .pure) fun _ => (compareNowTo_emits host _).bind fun _ =>
        .ite (fun _ => .pure) fun _ => callProvider_emits host request functionId response

theorem handleCall_emits (request : CallRequest) (response : Response) :
    (handleCall host request response).Emits Event.IsQuestion := by
  refine .ite (fun _ => .pure) fun _ => emits_ask.bind fun _ => .ite (fun _ => .pure) fun _ =>
    .ite (fun _ => .pure) fun _ => .ite (fun _ => emits_ask.bind fun resolved => ?_)
      fun _ => callResolved_emits host request _ response
  cases resolved with
  | none => exact .pure
  | some functionId => exact callResolved_emits host request functionId response

theorem handleGetHealth_emits (response : Response) :
    (handleGetHealth host response).Emits Event.IsQuestion :=
  emits_ask.bind fun _ => (emits_ask.bind fun _ => .pure).bind fun _ => emits_ask.bind fun _ =>
    (makeDeviceHealth_emits host _ _).bind fun _ => .pure

/-- A handler does nothing but ask. -/
theorem handle_emits (request : Request) (response : Response) :
    (handle host request response).Emits Event.IsQuestion := by
  unfold handle
  split
  · exact emits_ask.bind fun _ => .pure
  · exact emits_ask.bind fun _ => emits_ask.bind fun _ => .pure
  · exact handleListDevices_emits host _ response
  · exact handleDescribeDevice_emits host _ response
  · exact handleReadSignals_emits host _ response
  · exact handleCall_emits host _ response
  · exact handleGetHealth_emits host response
  · exact .pure

/-- A Hello asks for the metadata alone. -/
theorem handle_hello {request : Request} {hello : HelloRequest}
    (hkind : request.kind = .hello hello) (response : Response) :
    (handle host request response).Ensures fun r es =>
      ∃ metadata, es = [.invoked (.metadata metadata)] ∧
        r = helloResponse hello metadata response := by
  simp only [handle, hkind]
  exact .observe_bind fun s => .pure ⟨_, rfl, rfl⟩

/-- A WaitReady asks for the readiness report and the metadata. -/
theorem handle_waitReady {request : Request} {waitReady : WaitReadyRequest}
    (hkind : request.kind = .waitReady waitReady) (response : Response) :
    (handle host request response).Ensures fun r es =>
      ∃ report metadata, es = [.invoked (.readiness report), .invoked (.metadata metadata)] ∧
        r = waitReadyResponse report metadata response := by
  simp only [handle, hkind]
  exact .observe_bind fun s => .observe_bind fun s' => .pure ⟨_, _, rfl, rfl⟩

/-! ## What a handler leaves behind -/

/-- `r` answers a request of `kind` under the request id of `initial` : with `CODE_OK` and
the payload of that kind, or with another code and no payload of its own. -/
def Response.Concludes (kind : Request.Kind) (initial r : Response) : Prop :=
  r.requestId = initial.requestId ∧
    (r.status.code = .ok ∧ r.payload.Answers kind ∨
      r.status.code ≠ .ok ∧ r.payload = initial.payload)

theorem concludes_setStatus {kind : Request.Kind} {response : Response} {code : Status.Code}
    {message : Bytes} (h : code ≠ .ok) :
    Response.Concludes kind response (response.setStatus code message) :=
  ⟨rfl, .inr ⟨h, rfl⟩⟩

theorem concludes_ok {kind : Request.Kind} {response : Response} {payload : Response.Payload}
    (h : payload.Answers kind) :
    Response.Concludes kind response { response with payload := payload }.setStatusOk :=
  ⟨rfl, .inl ⟨rfl, h⟩⟩

/-! The handlers that cannot fail, then those with error exits. -/

theorem handleHello_concludes (request : HelloRequest) (response : Response) :
    (handleHello host request response).Returns
      (Response.Concludes (.hello request) response) := by
  refine .bind fun metadata => .pure ?_
  unfold helloResponse
  split_ifs
  · exact concludes_setStatus Status.Code.noConfusion
  · exact concludes_ok trivial

theorem handleListDevices_concludes (request : ListDevicesRequest) (response : Response) :
    (handleListDevices host request response).Returns
      (Response.Concludes (.listDevices request) response) :=
  .bind fun _ => .bind fun _ => .ite
    (fun _ => .bind fun _ => .bind fun _ => .pure (concludes_ok trivial))
    fun _ => .pure (concludes_ok trivial)

theorem handleDescribeDevice_concludes (request : DescribeDeviceRequest) (response : Response) :
    (handleDescribeDevice host request response).Returns
      (Response.Concludes (.describeDevice request) response) :=
  .ite (fun _ => .pure (concludes_setStatus Status.Code.noConfusion)) fun _ => .bind fun _ =>
    .ite (fun _ => .pure (concludes_setStatus Status.Code.noConfusion)) fun _ => .bind fun _ =>
      .bind fun _ => .pure (concludes_ok trivial)

variable {host}

theorem readKnownSignals_concludes (hfail : host.FailuresCarryErrors)
    (request : ReadSignalsRequest) (response : Response) :
    (readKnownSignals host request response).Returns
      (Response.Concludes (.readSignals request) response) :=
  .observe_bind fun s => Traced.Returns.ite
    (fun h => .pure (concludes_setStatus (hfail.1 _ _ s h))) fun _ => .pure (concludes_ok trivial)

theorem handleReadSignals_concludes (hfail : host.FailuresCarryErrors)
    (request : ReadSignalsRequest) (response : Response) :
    (handleReadSignals host request response).Returns
      (Response.Concludes (.readSignals request) response) := by
  refine .ite (fun _ => .pure (concludes_setStatus Status.Code.noConfusion)) fun _ =>
    .bind fun _ => .ite (fun _ => .pure (concludes_setStatus Status.Code.noConfusion)) fun _ =>
    .ite (fun _ => readKnownSignals_concludes hfail request response) fun _ => .bind fun _ => ?_
  split
  · exact .pure (concludes_setStatus Status.Code.noConfusion)
  · exact readKnownSignals_concludes hfail request response

theorem callProvider_concludes (hfail : host.FailuresCarryErrors) (request : CallRequest)
    (functionId : UInt32) (response : Response) :
    (callProvider host request functionId response).Returns
      (Response.Concludes (.call request) response) := by
  refine .observe_bind fun s => Traced.Returns.ite
    (fun h => .pure (concludes_setStatus (hfail.2 _ _ _ s h))) fun _ => ?_
  split
  · exact .pure (concludes_ok trivial)
  · refine .bind fun _ => .ite (fun _ => .pure ?_) fun _ => .pure (concludes_ok trivial)
    exact ⟨rfl, .inr ⟨Status.Code.noConfusion, rfl⟩⟩

theorem callResolved_concludes (hfail : host.FailuresCarryErrors) (request : CallRequest)
    (functionId : UInt32) (response : Response) :
    (callResolved host request functionId response).Returns
      (Response.Concludes (.call request) response) := by
  refine .bind fun caps => ?_
  split
  · next err herr =>
    obtain ⟨spec, -, hspec⟩ := Option.bind_eq_some_iff.mp herr
    exact .pure (concludes_setStatus (validateCallArgs_code hspec))
  · unfold callBeforeDeadline
    split
    · exact callProvider_concludes hfail request functionId response
    · exact .ite (fun _ => .pure (concludes_setStatus Status.Code.noConfusion)) fun _ =>
        .bind fun _ => .ite (fun _ => .pure (concludes_setStatus Status.Code.noConfusion)) fun _ =>
          callProvider_concludes hfail request functionId response

theorem handleCall_concludes (hfail : host.FailuresCarryErrors) (request : CallRequest)
    (response : Response) :
    (handleCall host request response).Returns (Response.Concludes (.call request) response) := by
  refine .ite (fun _ => .pure (concludes_setStatus Status.Code.noConfusion)) fun _ =>
    .bind fun _ => .ite (fun _ => .pure (concludes_setStatus Status.Code.noConfusion)) fun _ =>
    .ite (fun _ => .pure (concludes_setStatus Status.Code.noConfusion)) fun _ =>
    .ite (fun _ => .bind fun resolved => ?_) fun _ => callResolved_concludes hfail request _ response
  cases resolved with
  | none => exact .pure (concludes_setStatus Status.Code.noConfusion)
  | some functionId => exact callResolved_concludes hfail request functionId response

/-- Every handler concludes. -/
theorem handle_concludes (hfail : host.FailuresCarryErrors) (request : Request)
    (response : Response) :
    (handle host request response).Returns (Response.Concludes request.kind response) := by
  unfold handle
  cases hkind : request.kind with
  | hello hello => exact handleHello_concludes host hello response
  | waitReady _ => exact .bind fun _ => .bind fun _ => .pure (concludes_ok trivial)
  | listDevices listDevices => exact handleListDevices_concludes host listDevices response
  | describeDevice describeDevice =>
    exact handleDescribeDevice_concludes host describeDevice response
  | readSignals readSignals => exact handleReadSignals_concludes hfail readSignals response
  | call call => exact handleCall_concludes hfail call response
  | getHealth =>
    exact .bind fun _ => .bind fun _ => .bind fun _ => .bind fun _ => .pure (concludes_ok trivial)
  | none => exact .pure (concludes_setStatus Status.Code.noConfusion)

end ProviderSdk

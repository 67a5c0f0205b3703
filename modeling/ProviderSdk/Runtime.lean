import ProviderSdk.CallValidation
import ProviderSdk.Lib.Traced

/-!
# The provider behind the loop

`src/anolis/provider_sdk/runtime.hpp`. Everything outside the SDK is a `Host` over a
state `σ` : the `ProviderRuntime`, the `LifecycleHooks` and the wall clock. A method
returns, and may change the state (a `const` method may too, as far as the SDK knows).

A run of the SDK over a host is a `Traced` computation. An `Event` is a thing the host
or the peer can see, with what the host answered.
-/

namespace ProviderSdk

/-- Provider identity advertised in the Hello handshake. -/
structure ProviderMetadata where
  name : Bytes
  version : Bytes
  protocolVersion : Bytes
  helloExtra : StringMap Bytes
  deriving DecidableEq

structure ReadinessReport.DeviceFailure where
  deviceId : Bytes
  reason : Bytes
  deriving DecidableEq

/-- Startup/readiness snapshot. `configuredDeviceCount` is an `int`. -/
structure ReadinessReport where
  configuredDeviceCount : ℤ
  successfulDeviceIds : List Bytes
  failedDevices : List ReadinessReport.DeviceFailure
  startupPolicy : Bytes
  providerImpl : Bytes
  extraDiagnostics : StringMap Bytes
  deriving DecidableEq

/-- Per-device health enrichment a provider may supply. -/
structure DeviceHealthExtra where
  metrics : StringMap Bytes
  lastSeen : Option Timestamp
  state : Option DeviceHealth.State
  message : Option Bytes
  deriving DecidableEq

/-- Provider-level health enrichment. -/
structure ProviderHealthExtra where
  metrics : StringMap Bytes
  state : Option ProviderHealth.State
  message : Option Bytes
  deriving DecidableEq

variable {σ : Type}

/-- The seam the generic handlers consume. -/
structure ProviderRuntime (σ : Type) where
  metadata : σ → ProviderMetadata × σ
  readiness : σ → ReadinessReport × σ
  deviceHealth : Bytes → σ → DeviceHealthExtra × σ
  providerHealth : σ → ProviderHealthExtra × σ
  listDeviceIds : σ → List Bytes × σ
  hasDevice : Bytes → σ → Bool × σ
  deviceInfo : Bytes → σ → Device × σ
  capabilities : Bytes → σ → CapabilitySet × σ
  read : Bytes → List Bytes → σ → AdapterReadResult × σ
  call : Bytes → UInt32 → ValueMap → σ → AdapterCallResult × σ
  resolveFunctionId : Bytes → Bytes → σ → Option UInt32 × σ

/-- Provider-specific loop actions. `onInitialize` is `initialize`, a word Lean keeps. -/
structure LifecycleHooks (σ : Type) where
  onInitialize : ℕ → σ → σ
  onWaitReady : σ → σ
  onShutdown : σ → σ

/-- Everything outside the SDK. The wall clock reads nanoseconds since the epoch. -/
structure Host (σ : Type) where
  runtime : ProviderRuntime σ
  hooks : LifecycleHooks σ
  now : σ → ℤ × σ
  number : NumberPrinter

/-- A failed read or call says which error it is. -/
def Host.FailuresCarryErrors (host : Host σ) : Prop :=
  (∀ deviceId signalIds s, (host.runtime.read deviceId signalIds s).1.ok = false →
    (host.runtime.read deviceId signalIds s).1.errorCode ≠ .ok) ∧
  ∀ deviceId functionId args s, (host.runtime.call deviceId functionId args s).1.ok = false →
    (host.runtime.call deviceId functionId args s).1.errorCode ≠ .ok

/-! ## Events -/

/-- A call of a provider method, with its answer. -/
inductive Invocation where
  | metadata (answer : ProviderMetadata)
  | readiness (answer : ReadinessReport)
  | deviceHealth (deviceId : Bytes) (answer : DeviceHealthExtra)
  | providerHealth (answer : ProviderHealthExtra)
  | listDeviceIds (answer : List Bytes)
  | hasDevice (deviceId : Bytes) (answer : Bool)
  | deviceInfo (deviceId : Bytes) (answer : Device)
  | capabilities (deviceId : Bytes) (answer : CapabilitySet)
  | read (deviceId : Bytes) (signalIds : List Bytes) (answer : AdapterReadResult)
  | call (deviceId : Bytes) (functionId : UInt32) (args : ValueMap) (answer : AdapterCallResult)
  | resolveFunctionId (deviceId functionName : Bytes) (answer : Option UInt32)
  deriving DecidableEq

/-- What a session does, in the order it does it. -/
inductive Event where
  /-- A frame parsed as `request`. -/
  | received (request : Request)
  /-- `hooks.initialize(budget)`. -/
  | onInitialize (budget : ℕ)
  | invoked (invocation : Invocation)
  /-- The wall clock was read. -/
  | clockRead (now : ℤ)
  /-- A handler made `response`. -/
  | handled (request : Request) (response : Response)
  /-- The Hello gate made `response`. -/
  | refused (request : Request) (response : Response)
  | onWaitReady
  /-- `sent`, serialized as `frame`, went out for `request`, whose response was `own`. -/
  | wrote (request : Request) (own sent : Response) (frame : Bytes)
  /-- No frame could be written for `request`. -/
  | writeFailed (request : Request)
  | onShutdown
  deriving DecidableEq

/-- What a method leaves of the state. -/
def Invocation.next (runtime : ProviderRuntime σ) : Invocation → σ → σ
  | .metadata _, s => (runtime.metadata s).2
  | .readiness _, s => (runtime.readiness s).2
  | .deviceHealth deviceId _, s => (runtime.deviceHealth deviceId s).2
  | .providerHealth _, s => (runtime.providerHealth s).2
  | .listDeviceIds _, s => (runtime.listDeviceIds s).2
  | .hasDevice deviceId _, s => (runtime.hasDevice deviceId s).2
  | .deviceInfo deviceId _, s => (runtime.deviceInfo deviceId s).2
  | .capabilities deviceId _, s => (runtime.capabilities deviceId s).2
  | .read deviceId signalIds _, s => (runtime.read deviceId signalIds s).2
  | .call deviceId functionId args _, s => (runtime.call deviceId functionId args s).2
  | .resolveFunctionId deviceId functionName _, s =>
    (runtime.resolveFunctionId deviceId functionName s).2

/-- What an event leaves of the host's state. -/
def Event.next (host : Host σ) : Event → σ → σ
  | .invoked invocation, s => invocation.next host.runtime s
  | .clockRead _, s => (host.now s).2
  | .onInitialize budget, s => host.hooks.onInitialize budget s
  | .onWaitReady, s => host.hooks.onWaitReady s
  | .onShutdown, s => host.hooks.onShutdown s
  | _, s => s

/-- The state of a host that was in `s`, after these events. -/
def Host.after (host : Host σ) (s : σ) (es : List Event) : σ :=
  es.foldl (fun s e => e.next host s) s

theorem Host.after_snoc (host : Host σ) (s : σ) (es : List Event) (e : Event) :
    host.after s (es ++ [e]) = e.next host (host.after s es) :=
  List.foldl_append

/-- A computation of the SDK over its host. -/
abbrev Sdk (σ : Type) : Type → Type :=
  Traced Event σ

namespace Host

variable (host : Host σ)

def metadata : Sdk σ ProviderMetadata :=
  .observe (.invoked ∘ .metadata) host.runtime.metadata

def readiness : Sdk σ ReadinessReport :=
  .observe (.invoked ∘ .readiness) host.runtime.readiness

def deviceHealth (deviceId : Bytes) : Sdk σ DeviceHealthExtra :=
  .observe (.invoked ∘ .deviceHealth deviceId) (host.runtime.deviceHealth deviceId)

def providerHealth : Sdk σ ProviderHealthExtra :=
  .observe (.invoked ∘ .providerHealth) host.runtime.providerHealth

def listDeviceIds : Sdk σ (List Bytes) :=
  .observe (.invoked ∘ .listDeviceIds) host.runtime.listDeviceIds

def hasDevice (deviceId : Bytes) : Sdk σ Bool :=
  .observe (.invoked ∘ .hasDevice deviceId) (host.runtime.hasDevice deviceId)

def deviceInfo (deviceId : Bytes) : Sdk σ Device :=
  .observe (.invoked ∘ .deviceInfo deviceId) (host.runtime.deviceInfo deviceId)

def capabilities (deviceId : Bytes) : Sdk σ CapabilitySet :=
  .observe (.invoked ∘ .capabilities deviceId) (host.runtime.capabilities deviceId)

def read (deviceId : Bytes) (signalIds : List Bytes) : Sdk σ AdapterReadResult :=
  .observe (.invoked ∘ .read deviceId signalIds) (host.runtime.read deviceId signalIds)

def call (deviceId : Bytes) (functionId : UInt32) (args : ValueMap) : Sdk σ AdapterCallResult :=
  .observe (.invoked ∘ .call deviceId functionId args) (host.runtime.call deviceId functionId args)

def resolveFunctionId (deviceId functionName : Bytes) : Sdk σ (Option UInt32) :=
  .observe (.invoked ∘ .resolveFunctionId deviceId functionName)
    (host.runtime.resolveFunctionId deviceId functionName)

/-- `std::chrono::system_clock::now()`. -/
def systemClockNow : Sdk σ ℤ :=
  .observe .clockRead host.now

def onInitialize (budget : ℕ) : Sdk σ Unit :=
  .perform (.onInitialize budget) fun s => ((), host.hooks.onInitialize budget s)

def onWaitReady : Sdk σ Unit :=
  .perform .onWaitReady fun s => ((), host.hooks.onWaitReady s)

def onShutdown : Sdk σ Unit :=
  .perform .onShutdown fun s => ((), host.hooks.onShutdown s)

end Host

end ProviderSdk

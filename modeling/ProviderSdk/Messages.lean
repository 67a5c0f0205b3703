import ProviderSdk.Bytes
import ProviderSdk.Lib.Floating
import Mathlib.Data.List.AList

/-!
# ADPP messages

The protocol's messages as the handlers use them. A proto3 enumeration is open, so each
has a constructor for the values the SDK has no name for. A oneof is an inductive type,
so that two fields of it cannot be set at once. A field that no function of the SDK
reads or writes is left out.

`AdapterReadResult` and `AdapterCallResult` are the neutral results of `result.hpp`.
-/

namespace ProviderSdk

/-- `double`. -/
abbrev Double := Floating.Value Floating.binary64

/-- A map with string keys, each at most once. -/
abbrev StringMap (α : Type) := AList fun _ : Bytes => α

/-- `m[key] = value` for each, in order, on an empty map. -/
def StringMap.of {α : Type} (entries : List (Bytes × α)) : StringMap α :=
  entries.foldl (fun m e => m.insert e.1 e.2) ∅

/-- Overwrite the entries of `m` with those of `extra`. -/
def StringMap.setAll {α : Type} (m extra : StringMap α) : StringMap α :=
  extra.entries.foldl (fun m e => m.insert e.1 e.2) m

/-! ## Values and capabilities -/

inductive ValueType where
  | unspecified
  | double
  | int64
  | uint64
  | bool
  | string
  | bytes
  | other (n : ℤ)
  deriving DecidableEq, Repr

/-- The oneof of `Value`. -/
inductive Value.Kind where
  | notSet
  | doubleValue (v : Double)
  | int64Value (v : ℤ)
  | uint64Value (v : ℕ)
  | boolValue (v : Bool)
  | stringValue (v : Bytes)
  | bytesValue (v : Bytes)
  deriving DecidableEq

/-- Which field of the oneof is set. -/
inductive Value.KindCase where
  | notSet
  | doubleValue
  | int64Value
  | uint64Value
  | boolValue
  | stringValue
  | bytesValue
  deriving DecidableEq, Repr

/-- A value : the type tag and the field that carries it, which the wire keeps apart. -/
structure Value where
  type : ValueType
  kind : Value.Kind
  deriving DecidableEq

namespace Value

def kindCase (v : Value) : KindCase :=
  match v.kind with
  | .notSet => .notSet
  | .doubleValue _ => .doubleValue
  | .int64Value _ => .int64Value
  | .uint64Value _ => .uint64Value
  | .boolValue _ => .boolValue
  | .stringValue _ => .stringValue
  | .bytesValue _ => .bytesValue

/-! A field that is not set reads as its default. -/

def doubleValue (v : Value) : Double :=
  match v.kind with
  | .doubleValue x => x
  | _ => .zero false

def int64Value (v : Value) : ℤ :=
  match v.kind with
  | .int64Value x => x
  | _ => 0

def uint64Value (v : Value) : ℕ :=
  match v.kind with
  | .uint64Value x => x
  | _ => 0

def boolValue (v : Value) : Bool :=
  match v.kind with
  | .boolValue x => x
  | _ => false

def stringValue (v : Value) : Bytes :=
  match v.kind with
  | .stringValue x => x
  | _ => []

end Value

/-- The argument map of a call. -/
abbrev ValueMap := StringMap Value

structure Timestamp where
  seconds : ℤ
  nanos : ℤ
  deriving DecidableEq, Repr

structure ArgSpec where
  name : Bytes
  type : ValueType
  required : Bool
  minDouble : Option Double
  maxDouble : Option Double
  minInt64 : Option ℤ
  maxInt64 : Option ℤ
  minUint64 : Option ℕ
  maxUint64 : Option ℕ
  allowedValues : List Bytes
  deriving DecidableEq

structure FunctionSpec where
  functionId : UInt32
  name : Bytes
  args : List ArgSpec
  deriving DecidableEq

structure SignalSpec where
  signalId : Bytes
  deriving DecidableEq

structure CapabilitySet where
  signals : List SignalSpec
  functions : List FunctionSpec
  deriving DecidableEq

structure Device where
  deviceId : Bytes
  label : Bytes
  tags : StringMap Bytes
  deriving DecidableEq

inductive SignalValue.Quality where
  | unspecified
  | ok
  | stale
  | fault
  | unknown
  | other (n : ℤ)
  deriving DecidableEq, Repr

structure SignalValue where
  signalId : Bytes
  value : Value
  timestamp : Timestamp
  quality : SignalValue.Quality
  deriving DecidableEq

/-! ## Health -/

inductive DeviceHealth.State where
  | unspecified
  | ok
  | unreachable
  | fault
  | stale
  | other (n : ℤ)
  deriving DecidableEq, Repr

structure DeviceHealth where
  deviceId : Bytes
  state : DeviceHealth.State
  message : Bytes
  metrics : StringMap Bytes
  lastSeen : Option Timestamp
  deriving DecidableEq

inductive ProviderHealth.State where
  | unspecified
  | ok
  | degraded
  | fault
  | other (n : ℤ)
  deriving DecidableEq, Repr

/-- The wire number of a state. The protocol numbers the named ones in order of severity. -/
def ProviderHealth.State.number : ProviderHealth.State → ℤ
  | unspecified => 0
  | ok => 1
  | degraded => 2
  | fault => 3
  | other n => n

structure ProviderHealth where
  state : ProviderHealth.State
  message : Bytes
  metrics : StringMap Bytes
  deriving DecidableEq

/-! ## Requests -/

structure HelloRequest where
  protocolVersion : Bytes
  deriving DecidableEq

structure WaitReadyRequest where
  maxWaitMsHint : UInt32
  deriving DecidableEq

structure ListDevicesRequest where
  includeHealth : Bool
  deriving DecidableEq

structure DescribeDeviceRequest where
  deviceId : Bytes
  deriving DecidableEq

structure ReadSignalsRequest where
  deviceId : Bytes
  signalIds : List Bytes
  minTimestamp : Option Timestamp
  deriving DecidableEq

structure CallRequest where
  deviceId : Bytes
  functionId : UInt32
  functionName : Bytes
  args : ValueMap
  deadline : Option Timestamp
  deriving DecidableEq

/-- The oneof of `Request`. A kind this SDK does not know parses as none. -/
inductive Request.Kind where
  | hello (request : HelloRequest)
  | waitReady (request : WaitReadyRequest)
  | listDevices (request : ListDevicesRequest)
  | describeDevice (request : DescribeDeviceRequest)
  | readSignals (request : ReadSignalsRequest)
  | call (request : CallRequest)
  | getHealth
  | none
  deriving DecidableEq

structure Request where
  requestId : UInt64
  kind : Request.Kind
  deriving DecidableEq

/-- `has_hello()`. -/
def Request.hasHello (r : Request) : Bool :=
  match r.kind with
  | .hello _ => true
  | _ => false

/-- `has_wait_ready()`. -/
def Request.hasWaitReady (r : Request) : Bool :=
  match r.kind with
  | .waitReady _ => true
  | _ => false

/-! ## Responses -/

inductive Status.Code where
  | ok
  | invalidArgument
  | notFound
  | failedPrecondition
  | outOfRange
  | unimplemented
  | internal
  | unavailable
  | deadlineExceeded
  | resourceExhausted
  | other (n : ℤ)
  deriving DecidableEq, Repr

structure Status where
  code : Status.Code
  message : Bytes
  details : StringMap Bytes
  deriving DecidableEq

structure HelloResponse where
  protocolVersion : Bytes
  providerName : Bytes
  providerVersion : Bytes
  metadata : StringMap Bytes
  deriving DecidableEq

structure WaitReadyResponse where
  diagnostics : StringMap Bytes
  deriving DecidableEq

structure ListDevicesResponse where
  devices : List Device
  deviceHealth : List DeviceHealth
  deriving DecidableEq

structure DescribeDeviceResponse where
  device : Device
  capabilities : CapabilitySet
  deriving DecidableEq

structure ReadSignalsResponse where
  deviceId : Bytes
  values : List SignalValue
  deriving DecidableEq

structure CallResponse where
  deviceId : Bytes
  results : ValueMap
  deriving DecidableEq

structure GetHealthResponse where
  provider : ProviderHealth
  devices : List DeviceHealth
  deriving DecidableEq

/-- The oneof of `Response`. -/
inductive Response.Payload where
  | none
  | hello (response : HelloResponse)
  | waitReady (response : WaitReadyResponse)
  | listDevices (response : ListDevicesResponse)
  | describeDevice (response : DescribeDeviceResponse)
  | readSignals (response : ReadSignalsResponse)
  | call (response : CallResponse)
  | getHealth (response : GetHealthResponse)
  deriving DecidableEq

structure Response where
  requestId : UInt64
  status : Status
  payload : Response.Payload
  deriving DecidableEq

/-- `set_status`. -/
def Response.setStatus (r : Response) (code : Status.Code) (message : Bytes) : Response :=
  { r with status := { r.status with code := code, message := message } }

/-- `set_status_ok`. -/
def Response.setStatusOk (r : Response) : Response :=
  r.setStatus .ok (lit "ok")

/-- A payload is the one of a kind of request. -/
def Response.Payload.Answers : Response.Payload → Request.Kind → Prop
  | .hello _, .hello _ => True
  | .waitReady _, .waitReady _ => True
  | .listDevices _, .listDevices _ => True
  | .describeDevice _, .describeDevice _ => True
  | .readSignals _, .readSignals _ => True
  | .call _, .call _ => True
  | .getHealth _, .getHealth => True
  | _, _ => False

@[simp] theorem Response.setStatus_requestId (r : Response) (c : Status.Code) (m : Bytes) :
    (r.setStatus c m).requestId = r.requestId :=
  rfl

@[simp] theorem Response.setStatus_code (r : Response) (c : Status.Code) (m : Bytes) :
    (r.setStatus c m).status.code = c :=
  rfl

@[simp] theorem Response.setStatus_message (r : Response) (c : Status.Code) (m : Bytes) :
    (r.setStatus c m).status.message = m :=
  rfl

@[simp] theorem Response.setStatus_details (r : Response) (c : Status.Code) (m : Bytes) :
    (r.setStatus c m).status.details = r.status.details :=
  rfl

@[simp] theorem Response.setStatus_payload (r : Response) (c : Status.Code) (m : Bytes) :
    (r.setStatus c m).payload = r.payload :=
  rfl

/-! ## Adapter results -/

structure AdapterReadResult where
  ok : Bool
  errorCode : Status.Code
  errorMessage : Bytes
  values : List SignalValue
  deriving DecidableEq

structure AdapterCallResult where
  ok : Bool
  errorCode : Status.Code
  errorMessage : Bytes
  results : ValueMap
  deriving DecidableEq

end ProviderSdk

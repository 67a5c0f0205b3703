import ProviderSdk.Runtime
import ProviderSdk.Lib.FloatingArithmetic

/-!
# The reference provider

The simulated device and `ReferenceRuntime` of `src/examples/reference/reference_provider.cpp`,
the provider that the SDK is tested with. A heater approaches the temperature that its power
gives, and counts the energy it draws.

`ReferenceRuntime` and what its methods use of the platform are the state of a `Host`.
`heaters_.at` and a read's `values.at` throw `std::out_of_range`, which no function of the SDK
catches : `threw` says that one did, and the method's answer is then never seen.
-/

namespace ProviderSdk

/-- The platform of a run over the worlds `ω` : its clocks, in nanoseconds, and `std::exp`. -/
structure Platform (ω : Type) where
  /-- `std::chrono::steady_clock::now()`. -/
  steadyNow : ω → ℤ × ω
  /-- `std::chrono::system_clock::now()`. -/
  systemNow : ω → ℤ × ω
  /-- `TimeUtil::GetCurrentTime()`. -/
  currentTime : ω → Timestamp × ω
  exp : Double → Double
  number : NumberPrinter
  /-- The steady clock reads this or more. -/
  elapsed : ω → ℤ
  elapsed_le_steadyNow : ∀ w, elapsed w ≤ (steadyNow w).1
  steadyNow_le_elapsed : ∀ w, (steadyNow w).1 ≤ elapsed (steadyNow w).2
  elapsed_le_systemNow : ∀ w, elapsed w ≤ elapsed (systemNow w).2
  elapsed_le_currentTime : ∀ w, elapsed w ≤ elapsed (currentTime w).2
  /-- The steady clock's reading is an `int64_t`. -/
  abs_steadyNow : ∀ w, |(steadyNow w).1| ≤ 2 ^ 63

/-! ## The simulated device -/

structure HeaterConfig where
  id : Bytes
  label : Bytes
  ambientC : Double
  maxRiseC : Double
  ratedW : Double
  deriving DecidableEq

def kTimeConstantS : Double :=
  Floating.binary64.round 60

/-- The integer literals of the provider are exact. -/
theorem toRat_round_int {n : ℤ} (h : |n| < 2 ^ 53) :
    (Floating.binary64.round n).toRat = some (n : ℚ) :=
  Floating.Format.round_of_representable
    (Floating.Format.representable_int h (by decide) (by decide))

def kSetPower : UInt32 :=
  1

def kResetEnergy : UInt32 :=
  2

structure Heater where
  config : HeaterConfig
  temperature : Double
  power : Double
  energy : Double
  at_ : ℤ
  deriving DecidableEq

/-- `std::chrono::duration<double>` of nanoseconds. -/
def seconds (nanoseconds : ℤ) : Double :=
  (Floating.binary64.round nanoseconds).div (Floating.binary64.round 1000000000)

variable {ω : Type}

namespace Heater

variable (P : Platform ω)

/-- A heater that is off, at the ambient temperature. -/
def new (c : HeaterConfig) (w : ω) : Heater × ω :=
  let (now, w) := P.steadyNow w
  (⟨c, c.ambientC, .zero false, .zero false, now⟩, w)

/-- Moves the model to now. -/
def advance (heater : Heater) (w : ω) : Heater × ω :=
  let (now, w) := P.steadyNow w
  let dt := seconds (now - heater.at_)
  let target := heater.config.ambientC.add (heater.power.mul heater.config.maxRiseC)
  ({ heater with
      at_ := now
      temperature :=
        target.add ((heater.temperature.sub target).mul (P.exp (dt.neg.div kTimeConstantS)))
      energy := heater.energy.add ((heater.power.mul heater.config.ratedW).mul dt) }, w)

def setPower (heater : Heater) (power : Double) : Heater :=
  { heater with power := power }

/-- The energy count before the reset, and the heater after it. -/
def resetEnergy (heater : Heater) : Double × Heater :=
  (heater.energy, { heater with energy := .zero false })

/-- The values of a read, by their signal. -/
def values (heater : Heater) (signalId : Bytes) : Option Double :=
  if signalId = lit "temperature" then some heater.temperature
  else if signalId = lit "power" then some heater.power
  else if signalId = lit "energy" then some heater.energy
  else none

end Heater

def signal (id : Bytes) : SignalSpec :=
  { signalId := id }

/-- `power: double in [0, 1]`, required. -/
def powerArg : ArgSpec :=
  { name := lit "power", type := .double, required := true
    minDouble := some (.zero false), maxDouble := some (Floating.binary64.round 1)
    minInt64 := none, maxInt64 := none, minUint64 := none, maxUint64 := none
    allowedValues := [] }

def heaterCapabilities : CapabilitySet :=
  { signals := [signal (lit "temperature"), signal (lit "power"), signal (lit "energy")]
    functions :=
      [{ functionId := kSetPower, name := lit "set_power", args := [powerArg] },
        { functionId := kResetEnergy, name := lit "reset_energy", args := [] }] }

/-! ## Values and results -/

def makeDoubleVal (d : Double) : Value :=
  ⟨.double, .doubleValue d⟩

/-- A `SignalValue` stamped now with `QUALITY_OK`. -/
def makeSignalValue (P : Platform ω) (id : Bytes) (value : Value) (w : ω) : SignalValue × ω :=
  let (now, w) := P.currentTime w
  (⟨id, value, now, .ok⟩, w)

def callOk (results : ValueMap) : AdapterCallResult :=
  ⟨true, .ok, lit "ok", results⟩

def callNotFound (message : Bytes) : AdapterCallResult :=
  ⟨false, .notFound, message, ∅⟩

/-! ## The provider -/

/-- `kVersion`, the version of the project. -/
def kVersion : Bytes :=
  lit "0.6.0"

def kName : Bytes :=
  lit "anolis-provider-reference"

structure ReferenceRuntime (ω : Type) where
  caps : CapabilitySet
  order : List Bytes
  heaters : StringMap Heater
  world : ω
  /-- A method threw `std::out_of_range`. -/
  threw : Bool

namespace ReferenceRuntime

/-- One turn of the constructor. `emplace` keeps the heater that is there. -/
def addHeater (P : Platform ω) (s : ReferenceRuntime ω) (c : HeaterConfig) : ReferenceRuntime ω :=
  let (heater, w) := Heater.new P c s.world
  { s with
    order := s.order ++ [c.id]
    heaters := if c.id ∈ s.heaters then s.heaters else s.heaters.insert c.id heater
    world := w }

def new (P : Platform ω) (configs : List HeaterConfig) (w : ω) : ReferenceRuntime ω :=
  configs.foldl (addHeater P) ⟨heaterCapabilities, [], ∅, w, false⟩

/-- One turn of `stop`. -/
def stopHeater (P : Platform ω) (s : ReferenceRuntime ω) (id : Bytes) : ReferenceRuntime ω :=
  match s.heaters.lookup id with
  | none => s
  | some heater =>
    let (heater, w) := heater.advance P s.world
    { s with heaters := s.heaters.insert id (heater.setPower (.zero false)), world := w }

/-- Puts every heater in its safe state. A `std::map` is walked by its keys, in order. -/
def stop (P : Platform ω) (s : ReferenceRuntime ω) : ReferenceRuntime ω :=
  (s.heaters.keys.insertionSort (· ≤ ·)).foldl (stopHeater P) s

def metadata : ProviderMetadata :=
  { name := kName
    version := kVersion
    protocolVersion := lit "v1"
    helloExtra :=
      .of [(lit "supports_wait_ready", lit "true"), (lit "conformance_level", lit "2")] }

def readiness (s : ReferenceRuntime ω) : ReadinessReport :=
  { configuredDeviceCount := (s.order.length : ℤ).bmod (2 ^ 32)
    successfulDeviceIds := s.order
    failedDevices := []
    startupPolicy := []
    providerImpl := lit "reference"
    extraDiagnostics := .of [(lit "init_time_ms", lit "0")] }

def throwOutOfRange (s : ReferenceRuntime ω) : ReferenceRuntime ω :=
  { s with threw := true }

def deviceInfo (id : Bytes) (s : ReferenceRuntime ω) : Device × ReferenceRuntime ω :=
  match s.heaters.lookup id with
  | none => (⟨[], [], ∅⟩, s.throwOutOfRange)
  | some heater => (⟨id, heater.config.label, ∅⟩, s)

/-- The values of the signals, or `none` once `values.at` throws. -/
def readValues (P : Platform ω) (heater : Heater) : List Bytes → ω → Option (List SignalValue) × ω
  | [], w => (some [], w)
  | sid :: rest, w =>
    match heater.values sid with
    | none => (none, w)
    | some d =>
      let (value, w) := makeSignalValue P sid (makeDoubleVal d) w
      let (values, w) := readValues P heater rest w
      (values.map (value :: ·), w)

/-- An empty request reads the default set. -/
def requested (signalIds : List Bytes) : List Bytes :=
  if signalIds = [] then [lit "temperature", lit "power"] else signalIds

def read (P : Platform ω) (id : Bytes) (signalIds : List Bytes) (s : ReferenceRuntime ω) :
    AdapterReadResult × ReferenceRuntime ω :=
  match s.heaters.lookup id with
  | none => (⟨false, .unavailable, [], []⟩, s.throwOutOfRange)
  | some heater =>
    let (heater, w) := heater.advance P s.world
    match readValues P heater (requested signalIds) w with
    | (none, w) =>
      (⟨false, .unavailable, [], []⟩,
        { s with heaters := s.heaters.insert id heater, world := w }.throwOutOfRange)
    | (some values, w) =>
      (⟨true, .ok, [], values⟩, { s with heaters := s.heaters.insert id heater, world := w })

/-- What `call` does to a heater, once it is moved to now. -/
def callHeater (functionId : UInt32) (args : ValueMap) (heater : Heater) :
    AdapterCallResult × Heater :=
  if functionId = kSetPower then
    (callOk ∅, heater.setPower ((getArgDouble args (lit "power")).getD (.zero false)))
  else if functionId = kResetEnergy then
    let (energy, heater) := heater.resetEnergy
    (callOk (.of [(lit "energy", makeDoubleVal energy)]), heater)
  else (callNotFound (lit "unknown function_id " ++ toStringNat functionId.toNat), heater)

def call (P : Platform ω) (id : Bytes) (functionId : UInt32) (args : ValueMap)
    (s : ReferenceRuntime ω) : AdapterCallResult × ReferenceRuntime ω :=
  match s.heaters.lookup id with
  | none => (⟨false, .unavailable, [], ∅⟩, s.throwOutOfRange)
  | some heater =>
    let (heater, w) := heater.advance P s.world
    let (result, heater) := callHeater functionId args heater
    (result, { s with heaters := s.heaters.insert id heater, world := w })

def resolveFunctionId (name : Bytes) : Option UInt32 :=
  if name = lit "set_power" then some kSetPower
  else if name = lit "reset_energy" then some kResetEnergy
  else none

end ReferenceRuntime

open ReferenceRuntime in
/-- The reference provider behind the loop. -/
def referenceHost (P : Platform ω) : Host (ReferenceRuntime ω) where
  runtime :=
    { metadata := fun s => (metadata, s)
      readiness := fun s => (s.readiness, s)
      deviceHealth := fun _ s => (⟨∅, none, none, none⟩, s)
      providerHealth := fun s => (⟨∅, none, none⟩, s)
      listDeviceIds := fun s => (s.order, s)
      hasDevice := fun id s => (decide (id ∈ s.heaters), s)
      deviceInfo := deviceInfo
      capabilities := fun _ s => (s.caps, s)
      read := read P
      call := call P
      resolveFunctionId := fun _ name s => (resolveFunctionId name, s) }
  hooks :=
    { onInitialize := fun _ s => s
      onWaitReady := id
      onShutdown := stop P }
  now := fun s => ((P.systemNow s.world).1, { s with world := (P.systemNow s.world).2 })
  number := P.number

end ProviderSdk

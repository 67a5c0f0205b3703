import ProviderSdk.I2cBus
import ProviderSdk.Lib.Traced
import Mathlib.Data.Int.Init

/-!
# The i2c-dev bus

The Linux build of `src/anolis/provider_sdk/i2c/linux_i2c_bus.cpp`, over whatever the
kernel and the clock do (`Linux`). Every `I2C_RDWR` call is an event, with its messages and
its outcome.

A read polls until the device answers or its deadline passes, which may be never. It runs
on fuel here, for the polls it makes, and gives none when that runs out.
-/

namespace ProviderSdk.I2c

/-! ## What Linux does -/

/-- `struct i2c_msg`. -/
structure I2cMsg where
  addr : UInt16
  /-- `I2C_M_RD`. -/
  rd : Bool
  len : UInt16
  buf : Option Bytes
  deriving DecidableEq

/-- An `I2C_RDWR` gives the messages back with what it read, or an errno. -/
abbrev Outcome :=
  Except ℤ (List I2cMsg)

/-- The system calls and the clock, over the states of the world. -/
structure Linux (ω : Type) where
  /-- `::open` : a descriptor, and the errno if it is negative. -/
  openDevice : Bytes → ω → (ℤ × ℤ) × ω
  closeDevice : ℤ → ω → ω
  rdwr : ℤ → List I2cMsg → ω → Outcome × ω
  /-- `steady_clock::now()`, in nanoseconds. -/
  now : ω → ℤ × ω
  /-- `sleep_for`, in microseconds. -/
  sleepFor : ℕ → ω → ω
  strerror : ℤ → Bytes

def EINTR : ℤ := 4

def EAGAIN : ℤ := 11

/-! ## The bus -/

structure LinuxI2cBus where
  busPath : Bytes
  retryCount : ℤ
  fd : ℤ := -1
  opened : Bool := false
  ioStats : IoStatsMap := .empty

def LinuxI2cBus.new (busPath : Bytes) (retryCount : ℤ) : LinuxI2cBus :=
  { busPath := busPath, retryCount := max retryCount 0 }

/-- The bus and the world around it. -/
structure LinuxState (ω : Type) where
  bus : LinuxI2cBus
  world : ω

/-- An `I2C_RDWR` call. -/
structure RdwrCall where
  msgs : List I2cMsg
  outcome : Outcome

/-- The address of a call. Its messages have one. -/
def RdwrCall.addr? (call : RdwrCall) : Option UInt16 :=
  call.msgs.head?.map I2cMsg.addr

/-- A computation of the bus. -/
abbrev OnLinux (ω α : Type) :=
  Traced RdwrCall (LinuxState ω) α

/-- An `int` from its value, in two's complement. -/
def wrapInt (i : ℤ) : ℤ :=
  i.bmod (2 ^ 32)

section

variable {ω : Type} (P : Linux ω)

def rdwr (msgs : List I2cMsg) : OnLinux ω Outcome :=
  Traced.observe (fun outcome => ⟨msgs, outcome⟩) fun s =>
    ((P.rdwr s.bus.fd msgs s.world).1, { s with world := (P.rdwr s.bus.fd msgs s.world).2 })

def now : OnLinux ω ℤ :=
  fun s => ⟨(P.now s.world).1, { s with world := (P.now s.world).2 }, []⟩

def sleepFor (us : ℕ) : OnLinux ω Unit :=
  fun s => ⟨(), { s with world := P.sleepFor us s.world }, []⟩

def getBus : OnLinux ω LinuxI2cBus :=
  fun s => ⟨s.bus, s, []⟩

def record (address : UInt8) (ok : Bool) (attempts : ℕ) : OnLinux ω Unit :=
  fun s => ⟨(), { s with bus :=
    { s.bus with ioStats := s.bus.ioStats.record address ok attempts } }, []⟩

def Outcome.isOk : Outcome → Bool
  | .ok _ => true
  | .error _ => false

/-- `std::max(retry_count_ + 1, 1)`, on a build on which the sum wraps. -/
def maxAttempts (retryCount : ℤ) : ℤ :=
  max (wrapInt (retryCount + 1)) 1

/-- The retry loop, with the attempts left, the attempts so far and the last errno. It gives
the attempts made and the last outcome. -/
def retryLoop (msgs : List I2cMsg) : ℕ → ℕ → ℤ → OnLinux ω (ℕ × Outcome)
  | 0, attempts, lastErrno => pure (attempts, .error lastErrno)
  | n + 1, attempts, _ => do
    match ← rdwr P msgs with
    | .ok answered => pure (attempts + 1, .ok answered)
    | .error e =>
      if e ≠ EINTR ∧ e ≠ EAGAIN then pure (attempts + 1, .error e)
      else retryLoop msgs n (attempts + 1) e

/-- The loop that polls for a reply. -/
def pollLoop (msgs : List I2cMsg) (deadline : ℤ) : ℕ → ℕ → OnLinux ω (Option (ℕ × Outcome))
  | 0, _ => pure none
  | fuel + 1, attempts => do
    match ← rdwr P msgs with
    | .ok answered => pure (some (attempts + 1, .ok answered))
    | .error e => do
      let time ← now P
      if deadline ≤ time then pure (some (attempts + 1, .error e))
      else do
        sleepFor P 200
        pollLoop msgs deadline fuel (attempts + 1)

/-! ## Operations -/

def LinuxI2cBus.openBus : OnLinux ω I2cStatus :=
  fun s =>
    if s.bus.opened then ⟨.ok, s, []⟩
    else if s.bus.busPath = [] then
      ⟨.failure .invalidArgument (lit "bus_path is empty") 0, s, []⟩
    else
      let ((fd, errno), world) := P.openDevice s.bus.busPath s.world
      if fd < 0 then
        ⟨.failure .openFailed
            (lit "failed to open " ++ s.bus.busPath ++ lit ": " ++ P.strerror errno) errno,
          ⟨{ s.bus with fd := fd }, world⟩, []⟩
      else ⟨.ok, ⟨{ s.bus with fd := fd, opened := true }, world⟩, []⟩

def LinuxI2cBus.close : OnLinux ω Unit :=
  fun s =>
    if 0 ≤ s.bus.fd then
      ⟨(), ⟨{ s.bus with fd := -1, opened := false }, P.closeDevice s.bus.fd s.world⟩, []⟩
    else ⟨(), { s with bus := { s.bus with opened := false } }, []⟩

def LinuxI2cBus.delayUs (us : UInt32) : OnLinux ω Unit :=
  if 0 < us then sleepFor P us.toNat else pure ()

def notOpen : I2cStatus :=
  .failure .notOpen (lit "bus not open") 0

def LinuxI2cBus.write (address : UInt8) (tx : Option Bytes) (txLen : ℕ) :
    OnLinux ω I2cStatus := do
  let bus ← getBus
  if !bus.opened then pure notOpen
  else if txLen = 0 then
    pure (.failure .invalidArgument (lit "write requires tx_len>0") 0)
  else
    let ran ← retryLoop P [⟨address.toUInt16, false, UInt16.ofNat txLen, tx⟩]
      (maxAttempts bus.retryCount).toNat 0 0
    record address (Outcome.isOk ran.2) ran.1
    match ran.2 with
    | .ok _ => pure .ok
    | .error e =>
      pure (.failure .writeFailed
        (lit "write failed on " ++ bus.busPath ++ lit ": " ++ P.strerror e) e)

/-- What the caller's out-parameters hold after a successful read. -/
def received (msgs : List I2cMsg) (rxLen : ℕ) (out : Receive) : Receive where
  data := if rxLen = 0 then out.data else msgs.getLast?.bind I2cMsg.buf
  received := out.received.map fun _ => rxLen

def LinuxI2cBus.read (fuel : ℕ) (address : UInt8) (rxLen : ℕ) (timeoutUs : UInt32)
    (out : Receive) : OnLinux ω (Option Reply) := do
  let bus ← getBus
  if !bus.opened then pure (some ⟨notOpen, out⟩)
  else if rxLen = 0 then
    pure (some ⟨.failure .invalidArgument (lit "read requires rx_len>0") 0, out⟩)
  else
    let start ← now P
    let ran ← pollLoop P [⟨address.toUInt16, true, UInt16.ofNat rxLen, out.data⟩]
      (start + 1000 * timeoutUs.toNat) fuel 0
    match ran with
    | none => pure none
    | some (attempts, outcome) => do
      record address (Outcome.isOk outcome) attempts
      match outcome with
      | .ok answered => pure (some ⟨.ok, received answered rxLen out⟩)
      | .error e =>
        pure (some ⟨.failure .timeout (lit "read timed out on " ++ bus.busPath) e, out⟩)

/-- The messages of one combined transaction. -/
def combined (address : UInt8) (tx : Option Bytes) (txLen rxLen : ℕ) (out : Receive) :
    List I2cMsg :=
  (if 0 < txLen then [⟨address.toUInt16, false, UInt16.ofNat txLen, tx⟩] else []) ++
    (if 0 < rxLen then [⟨address.toUInt16, true, UInt16.ofNat rxLen, out.data⟩] else [])

def LinuxI2cBus.writeThenRead (address : UInt8) (tx : Option Bytes) (txLen rxLen : ℕ)
    (out : Receive) : OnLinux ω Reply := do
  let bus ← getBus
  if !bus.opened then pure ⟨notOpen, out⟩
  else if txLen = 0 ∧ rxLen = 0 then
    pure ⟨.failure .invalidArgument
      (lit "write_then_read requires tx_len>0 or rx_len>0") 0, out⟩
  else
    let ran ← retryLoop P (combined address tx txLen rxLen out)
      (maxAttempts bus.retryCount).toNat 0 0
    record address (Outcome.isOk ran.2) ran.1
    match ran.2 with
    | .ok answered => pure ⟨.ok, received answered rxLen out⟩
    | .error e =>
      pure ⟨.failure .busError
        (lit "I2C_RDWR failed on " ++ bus.busPath ++ lit ": " ++ P.strerror e) e, out⟩

/-- An operation, if its fuel is enough. -/
def performLinux (fuel : ℕ) : Op → OnLinux ω (Option Reply)
  | .openBus => do
    let status ← LinuxI2cBus.openBus P
    pure (some ⟨status, {}⟩)
  | .close => do
    LinuxI2cBus.close P
    pure (some {})
  | .delayUs us => do
    LinuxI2cBus.delayUs P us
    pure (some {})
  | .write address tx txLen => do
    let status ← LinuxI2cBus.write P address tx txLen
    pure (some ⟨status, {}⟩)
  | .read address rxLen timeoutUs out => LinuxI2cBus.read P fuel address rxLen timeoutUs out
  | .writeThenRead address tx txLen rxLen out => do
    let reply ← LinuxI2cBus.writeThenRead P address tx txLen rxLen out
    pure (some reply)

end

end ProviderSdk.I2c

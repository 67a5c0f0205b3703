import ProviderSdk.Bytes
import ProviderSdk.Lib.Machine
import Mathlib.Logic.Function.Basic

/-!
# The I2C bus

The bus interface of `src/anolis/provider_sdk/i2c/i2c_bus.hpp`, its statuses
(`i2c_status.hpp`) and the transport counters of `io_stats.hpp`.

A pointer argument is an option, the null pointer being none. An `I2cBus` works on a state
that is its own together with the world it drives, so it may be any device at all.
-/

namespace ProviderSdk.I2c

/-! ## Statuses -/

inductive I2cError where
  | ok
  | invalidArgument
  | notOpen
  | openFailed
  | writeFailed
  | readFailed
  | timeout
  | busError
  deriving DecidableEq

structure I2cStatus where
  code : I2cError := .ok
  message : Bytes := []
  nativeErrno : ℤ := 0
  deriving DecidableEq

namespace I2cStatus

def ok : I2cStatus :=
  {}

def failure (code : I2cError) (message : Bytes) (nativeErrno : ℤ) : I2cStatus :=
  ⟨code, message, nativeErrno⟩

/-- `operator bool`. -/
def isOk (status : I2cStatus) : Bool :=
  status.code = .ok

@[simp] theorem isOk_ok : ok.isOk = true :=
  rfl

@[simp] theorem isOk_failure {code : I2cError} {message : Bytes} {nativeErrno : ℤ} :
    (failure code message nativeErrno).isOk = decide (code = .ok) :=
  rfl

end I2cStatus

/-! ## Counters -/

structure IoStats where
  ok : UInt64 := 0
  failed : UInt64 := 0
  retriedAttempts : UInt64 := 0
  deriving DecidableEq

/-- Counters by address. An address that is not in the map has none. -/
abbrev IoStatsMap :=
  UInt8 → IoStats

namespace IoStatsMap

def empty : IoStatsMap :=
  fun _ => {}

/-- One more operation at the address, with the attempts it took. -/
def record (stats : IoStatsMap) (address : UInt8) (ok : Bool) (attemptsMade : ℕ) : IoStatsMap :=
  let retries : UInt64 := if 1 < attemptsMade then UInt64.ofNat (attemptsMade - 1) else 0
  let s := stats address
  Function.update stats address
    { ok := if ok then s.ok + 1 else s.ok
      failed := if ok then s.failed else s.failed + 1
      retriedAttempts := s.retriedAttempts + retries }

theorem record_same (stats : IoStatsMap) (address : UInt8) (ok : Bool) (attemptsMade : ℕ) :
    stats.record address ok attemptsMade address =
      { ok := if ok then (stats address).ok + 1 else (stats address).ok
        failed := if ok then (stats address).failed else (stats address).failed + 1
        retriedAttempts := (stats address).retriedAttempts +
          if 1 < attemptsMade then UInt64.ofNat (attemptsMade - 1) else 0 } :=
  Function.update_self address _ stats

/-- Other addresses keep their counters. -/
theorem record_of_ne (stats : IoStatsMap) {address other : UInt8} (h : other ≠ address)
    (ok : Bool) (attemptsMade : ℕ) : stats.record address ok attemptsMade other = stats other :=
  Function.update_of_ne h _ stats

end IoStatsMap

/-! ## The bus -/

/-- What the caller's out-parameters hold : the buffer `rx_data` points to, and the count
`rx_received` points to. -/
structure Receive where
  data : Option Bytes := none
  received : Option ℕ := none
  deriving DecidableEq

/-- What an operation gives its caller. -/
structure Reply where
  status : I2cStatus := {}
  out : Receive := {}
  deriving DecidableEq

/-- A bus, over the states of itself and its world. -/
structure I2cBus (σ : Type) where
  /-- `open()`. -/
  openBus : σ → I2cStatus × σ
  close : σ → σ
  isOpen : σ → Bool
  busPath : σ → Bytes
  write (address : UInt8) (tx : Option Bytes) (txLen : ℕ) : σ → I2cStatus × σ
  read (address : UInt8) (rxLen : ℕ) (timeoutUs : UInt32) (out : Receive) : σ → Reply × σ
  writeThenRead (address : UInt8) (tx : Option Bytes) (txLen rxLen : ℕ) (out : Receive) :
    σ → Reply × σ
  delayUs : UInt32 → σ → σ
  ioStatsFor : σ → UInt8 → IoStats
  /-- What a pause of its caller, in microseconds, does to the world. -/
  elapse : UInt32 → σ → σ

/-- An operation with its arguments. -/
inductive Op where
  | openBus
  | close
  | delayUs (us : UInt32)
  | write (address : UInt8) (tx : Option Bytes) (txLen : ℕ)
  | read (address : UInt8) (rxLen : ℕ) (timeoutUs : UInt32) (out : Receive)
  | writeThenRead (address : UInt8) (tx : Option Bytes) (txLen rxLen : ℕ) (out : Receive)
  deriving DecidableEq

namespace Op

def writePhase : Op → Bool
  | write _ _ _ => true
  | writeThenRead _ _ _ _ _ => true
  | _ => false

def readPhase : Op → Bool
  | read _ _ _ _ => true
  | writeThenRead _ _ _ _ _ => true
  | _ => false

/-- `write`, `read` and `write_then_read`. -/
def isTransfer (op : Op) : Bool :=
  op.writePhase || op.readPhase

/-- The address of a transfer. -/
def address? : Op → Option UInt8
  | write address _ _ => some address
  | read address _ _ _ => some address
  | writeThenRead address _ _ _ _ => some address
  | _ => none

/-- The out-parameters of an operation, before it. -/
def out : Op → Receive
  | read _ _ _ out => out
  | writeThenRead _ _ _ _ out => out
  | _ => {}

/-- The length of the buffer to read into. -/
def rxLen : Op → ℕ
  | read _ rxLen _ _ => rxLen
  | writeThenRead _ _ _ rxLen _ => rxLen
  | _ => 0

/-- The transfers are the operations with an address. -/
theorem isTransfer_eq (op : Op) : op.isTransfer = op.address?.isSome := by
  cases op <;> rfl

theorem phases_of_not_isTransfer {op : Op} (h : op.isTransfer = false) :
    op.writePhase = false ∧ op.readPhase = false := by
  simpa [isTransfer] using h

end Op

namespace I2cBus

variable {σ : Type}

/-- A bus as a machine. -/
def perform (bus : I2cBus σ) : Machine Op Reply σ
  | .openBus, s => (⟨(bus.openBus s).1, {}⟩, (bus.openBus s).2)
  | .close, s => ({}, bus.close s)
  | .delayUs us, s => ({}, bus.delayUs us s)
  | .write address tx txLen, s =>
    (⟨(bus.write address tx txLen s).1, {}⟩, (bus.write address tx txLen s).2)
  | .read address rxLen timeoutUs out, s => bus.read address rxLen timeoutUs out s
  | .writeThenRead address tx txLen rxLen out, s =>
    bus.writeThenRead address tx txLen rxLen out s

/-- A bus that keeps the operations it received, with its replies. -/
def recorded (bus : I2cBus σ) : I2cBus (σ × List (Op × Reply)) where
  openBus s :=
    ((bus.openBus s.1).1,
      ((bus.openBus s.1).2, s.2 ++ [(.openBus, ⟨(bus.openBus s.1).1, {}⟩)]))
  close s := (bus.close s.1, s.2 ++ [(.close, {})])
  isOpen s := bus.isOpen s.1
  busPath s := bus.busPath s.1
  write address tx txLen s :=
    ((bus.write address tx txLen s.1).1,
      ((bus.write address tx txLen s.1).2,
        s.2 ++ [(.write address tx txLen, ⟨(bus.write address tx txLen s.1).1, {}⟩)]))
  read address rxLen timeoutUs out s :=
    ((bus.read address rxLen timeoutUs out s.1).1,
      ((bus.read address rxLen timeoutUs out s.1).2,
        s.2 ++ [(.read address rxLen timeoutUs out,
          (bus.read address rxLen timeoutUs out s.1).1)]))
  writeThenRead address tx txLen rxLen out s :=
    ((bus.writeThenRead address tx txLen rxLen out s.1).1,
      ((bus.writeThenRead address tx txLen rxLen out s.1).2,
        s.2 ++ [(.writeThenRead address tx txLen rxLen out,
          (bus.writeThenRead address tx txLen rxLen out s.1).1)]))
  delayUs us s := (bus.delayUs us s.1, s.2 ++ [(.delayUs us, {})])
  ioStatsFor s address := bus.ioStatsFor s.1 address
  elapse us s := (bus.elapse us s.1, s.2)

/-- Each operation is recorded as it was received. -/
theorem perform_recorded (bus : I2cBus σ) (op : Op) (s : σ × List (Op × Reply)) :
    bus.recorded.perform op s =
      ((bus.perform op s.1).1, ((bus.perform op s.1).2, s.2 ++ [(op, (bus.perform op s.1).1)])) := by
  cases op <;> rfl

end I2cBus

end ProviderSdk.I2c

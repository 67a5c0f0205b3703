import ProviderSdk.I2cBus

/-!
# Injecting faults into a bus

The decorator of `src/anolis/provider_sdk/i2c/fault_injecting_i2c_bus.cpp` around any bus :
`pre_op` decides on a fault from three counters, and `mutate_read` changes what a
successful read returned. `FaultQuery` has the parsing of a `FaultSpec`.

`perform_faulted` and `perform_delegated` say what the decorator does with a transfer,
whichever of the three it is, and `perform_of_not_transfer` that anything else is passed on.
-/

namespace ProviderSdk.I2c

structure FaultSpec where
  pad : UInt32 := 0
  padByte : UInt8 := 0xFF
  shortEvery : UInt32 := 0
  corruptEvery : UInt32 := 0
  nakEvery : UInt32 := 0
  readFailEvery : UInt32 := 0
  timeoutEvery : UInt32 := 0
  dropAfter : UInt32 := 0
  dropFor : UInt32 := 0
  latencyUs : UInt32 := 0

/-- Whether any fault mode is active. -/
def FaultSpec.any (spec : FaultSpec) : Bool :=
  spec.pad ≠ 0 || spec.shortEvery ≠ 0 || spec.corruptEvery ≠ 0 || spec.nakEvery ≠ 0 ||
    spec.readFailEvery ≠ 0 || spec.timeoutEvery ≠ 0 || spec.dropFor ≠ 0 || spec.latencyUs ≠ 0

/-- How many operations there were, and how many had each phase. -/
structure Counters where
  opCount : UInt64 := 0
  writeCount : UInt64 := 0
  readCount : UInt64 := 0

def Counters.advance (c : Counters) (writePhase readPhase : Bool) : Counters where
  opCount := c.opCount + 1
  writeCount := if writePhase then c.writeCount + 1 else c.writeCount
  readCount := if readPhase then c.readCount + 1 else c.readCount

/-- The decorator's state, around the state of the inner bus. -/
structure FaultInjectingI2cBus (σ : Type) where
  inner : σ
  faultStats : IoStatsMap := .empty
  counters : Counters := {}

/-! ## Faults -/

/-- The fault of an operation that the counters already count, or `ok`. -/
def FaultSpec.fault (spec : FaultSpec) (c : Counters) (writePhase readPhase : Bool) : I2cStatus :=
  if 0 < spec.dropFor ∧ spec.dropAfter.toUInt64 < c.opCount ∧
      c.opCount ≤ (spec.dropAfter + spec.dropFor).toUInt64 then
    -- the sum is of `uint32_t`, the comparison of `uint64_t`
    .failure .busError (lit "fault: device dropped out") 0
  else if 0 < spec.timeoutEvery ∧ c.opCount % spec.timeoutEvery.toUInt64 = 0 then
    .failure .timeout (lit "fault: injected timeout") 0
  else if writePhase ∧ 0 < spec.nakEvery ∧ c.writeCount % spec.nakEvery.toUInt64 = 0 then
    .failure .writeFailed (lit "fault: injected NAK") 0
  else if readPhase ∧ 0 < spec.readFailEvery ∧ c.readCount % spec.readFailEvery.toUInt64 = 0 then
    .failure .readFailed (lit "fault: injected read failure") 0
  else .ok

variable {σ : Type} (inner : I2cBus σ) (spec : FaultSpec)

/-- The inner state after the latency. -/
def paused (s : σ) : σ :=
  if 0 < spec.latencyUs then inner.elapse spec.latencyUs s else s

def preOp (address : UInt8) (writePhase readPhase : Bool) (bus : FaultInjectingI2cBus σ) :
    I2cStatus × FaultInjectingI2cBus σ :=
  let counters := bus.counters.advance writePhase readPhase
  let fault := spec.fault counters writePhase readPhase
  (fault,
    { inner := paused inner spec bus.inner
      faultStats :=
        if fault.isOk then bus.faultStats else bus.faultStats.record address false 1
      counters := counters })

/-! ## Reads -/

/-- The loop that writes the padding. -/
def padFrom (data : Bytes) (base add : ℕ) (padByte : UInt8) : Bytes :=
  (List.range add).foldl (fun data i => data.set (base + i) padByte) data

def mutateRead (readCount : UInt64) (rxLen : ℕ) (out : Receive) : Receive :=
  match out.data, out.received with
  | some data, some received =>
    if received = 0 then out
    else
      let data :=
        if 0 < spec.corruptEvery ∧ readCount % spec.corruptEvery.toUInt64 = 0 then
          data.modify 0 (· ^^^ 0xFF)
        else data
      let received :=
        if 0 < spec.shortEvery ∧ readCount % spec.shortEvery.toUInt64 = 0 ∧ 0 < received then
          received - 1
        else received
      if 0 < spec.pad then
        let add := min spec.pad.toNat (if received < rxLen then rxLen - received else 0)
        ⟨some (padFrom data received add spec.padByte), some (received + add)⟩
      else ⟨some data, some received⟩
  | _, _ => out

/-! ## Operations -/

def FaultInjectingI2cBus.write (address : UInt8) (tx : Option Bytes) (txLen : ℕ)
    (bus : FaultInjectingI2cBus σ) : I2cStatus × FaultInjectingI2cBus σ :=
  let pre := preOp inner spec address true false bus
  if pre.1.isOk then
    let ran := inner.write address tx txLen pre.2.inner
    (ran.1, { pre.2 with inner := ran.2 })
  else pre

def FaultInjectingI2cBus.read (address : UInt8) (rxLen : ℕ) (timeoutUs : UInt32) (out : Receive)
    (bus : FaultInjectingI2cBus σ) : Reply × FaultInjectingI2cBus σ :=
  let pre := preOp inner spec address false true bus
  if pre.1.isOk then
    let ran := inner.read address rxLen timeoutUs out pre.2.inner
    (⟨ran.1.status,
      if ran.1.status.isOk then mutateRead spec pre.2.counters.readCount rxLen ran.1.out
      else ran.1.out⟩,
      { pre.2 with inner := ran.2 })
  else (⟨pre.1, out⟩, pre.2)

def FaultInjectingI2cBus.writeThenRead (address : UInt8) (tx : Option Bytes) (txLen rxLen : ℕ)
    (out : Receive) (bus : FaultInjectingI2cBus σ) : Reply × FaultInjectingI2cBus σ :=
  let pre := preOp inner spec address true true bus
  if pre.1.isOk then
    let ran := inner.writeThenRead address tx txLen rxLen out pre.2.inner
    (⟨ran.1.status,
      if ran.1.status.isOk then mutateRead spec pre.2.counters.readCount rxLen ran.1.out
      else ran.1.out⟩,
      { pre.2 with inner := ran.2 })
  else (⟨pre.1, out⟩, pre.2)

def FaultInjectingI2cBus.ioStatsFor (bus : FaultInjectingI2cBus σ) (address : UInt8) : IoStats :=
  let real := inner.ioStatsFor bus.inner address
  let injected := bus.faultStats address
  { ok := real.ok + injected.ok
    failed := real.failed + injected.failed
    retriedAttempts := real.retriedAttempts + injected.retriedAttempts }

/-- The decorated bus. -/
def faultInjecting : I2cBus (FaultInjectingI2cBus σ) where
  openBus bus := ((inner.openBus bus.inner).1, { bus with inner := (inner.openBus bus.inner).2 })
  close bus := { bus with inner := inner.close bus.inner }
  isOpen bus := inner.isOpen bus.inner
  busPath bus := inner.busPath bus.inner
  write := FaultInjectingI2cBus.write inner spec
  read := FaultInjectingI2cBus.read inner spec
  writeThenRead := FaultInjectingI2cBus.writeThenRead inner spec
  delayUs us bus := { bus with inner := inner.delayUs us bus.inner }
  ioStatsFor := FaultInjectingI2cBus.ioStatsFor inner
  elapse us bus := { bus with inner := inner.elapse us bus.inner }

/-! ## What the decorator does -/

/-- What a transfer gives after the inner bus answered it. -/
def mutated (readCount : UInt64) (op : Op) (reply : Reply) : Reply :=
  if reply.status.isOk ∧ op.readPhase then
    ⟨reply.status, mutateRead spec readCount op.rxLen reply.out⟩
  else reply

@[simp] theorem mutated_status (readCount : UInt64) (op : Op) (reply : Reply) :
    (mutated spec readCount op reply).status = reply.status := by
  unfold mutated
  split_ifs <;> rfl

/-- The fault of the next operation. -/
def nextFault (op : Op) (bus : FaultInjectingI2cBus σ) : I2cStatus :=
  spec.fault (bus.counters.advance op.writePhase op.readPhase) op.writePhase op.readPhase

variable {inner spec} {op : Op} {address : UInt8} {bus : FaultInjectingI2cBus σ}

/-- Each transfer asks `pre_op` first, and is passed on if that allows it. -/
theorem perform_transfer (h : op.address? = some address) :
    (faultInjecting inner spec).perform op bus =
      let pre := preOp inner spec address op.writePhase op.readPhase bus
      if pre.1.isOk then
        let ran := inner.perform op pre.2.inner
        (mutated spec pre.2.counters.readCount op ran.1, { pre.2 with inner := ran.2 })
      else (⟨pre.1, op.out⟩, pre.2) := by
  cases op with
  | openBus => simp [Op.address?] at h
  | close => simp [Op.address?] at h
  | delayUs us => simp [Op.address?] at h
  | write a tx txLen =>
    obtain rfl : a = address := Option.some.inj h
    simp only [I2cBus.perform, faultInjecting, FaultInjectingI2cBus.write, Op.writePhase,
      Op.readPhase, mutated, Bool.false_eq_true, and_false, if_false]
    split_ifs <;> rfl
  | read a rxLen timeoutUs out =>
    obtain rfl : a = address := Option.some.inj h
    simp only [I2cBus.perform, faultInjecting, FaultInjectingI2cBus.read, Op.writePhase,
      Op.readPhase, mutated, and_true]
    split_ifs <;> rfl
  | writeThenRead a tx txLen rxLen out =>
    obtain rfl : a = address := Option.some.inj h
    simp only [I2cBus.perform, faultInjecting, FaultInjectingI2cBus.writeThenRead, Op.writePhase,
      Op.readPhase, mutated, and_true]
    split_ifs <;> rfl

/-- A transfer with a fault fails with it, and the inner bus does not see it. -/
theorem perform_faulted (h : op.address? = some address)
    (hfault : (nextFault spec op bus).isOk = false) :
    (faultInjecting inner spec).perform op bus =
      (⟨nextFault spec op bus, op.out⟩,
        { inner := paused inner spec bus.inner
          faultStats := bus.faultStats.record address false 1
          counters := bus.counters.advance op.writePhase op.readPhase }) := by
  unfold nextFault at hfault ⊢
  simp only [perform_transfer h, preOp, hfault, Bool.false_eq_true, if_false]

/-- A transfer without a fault is passed on, and its reply mutated. -/
theorem perform_delegated (h : op.address? = some address)
    (hfault : (nextFault spec op bus).isOk = true) :
    (faultInjecting inner spec).perform op bus =
      let counters := bus.counters.advance op.writePhase op.readPhase
      let ran := inner.perform op (paused inner spec bus.inner)
      (mutated spec counters.readCount op ran.1,
        { bus with inner := ran.2, counters := counters }) := by
  unfold nextFault at hfault
  simp only [perform_transfer h, preOp, hfault, if_true]

/-- Whatever is not a transfer is passed on. -/
theorem perform_of_not_transfer (h : op.address? = none) :
    (faultInjecting inner spec).perform op bus =
      ((inner.perform op bus.inner).1, { bus with inner := (inner.perform op bus.inner).2 }) := by
  cases op with
  | openBus => rfl
  | close => rfl
  | delayUs us => rfl
  | write a tx txLen => simp [Op.address?] at h
  | read a rxLen timeoutUs out => simp [Op.address?] at h
  | writeThenRead a tx txLen rxLen out => simp [Op.address?] at h

/-! ## A fake bus -/

/-- What `FakeInnerBus` of the tests reads into a buffer. -/
def fill (rxLen : ℕ) (out : Receive) : Receive :=
  let reply : Bytes := [0x01, 0x02, 0x03, 0x04]
  let n := min reply.length rxLen
  ⟨out.data.map fun data => reply.take n ++ data.drop n, out.received.map fun _ => n⟩

/-- The tests' inner bus, on which every operation succeeds. -/
def fakeInnerBus : I2cBus IoStatsMap where
  openBus s := (.ok, s)
  close s := s
  isOpen _ := true
  busPath _ := lit "mock://fake"
  write address _ _ s := (.ok, s.record address true 1)
  read address rxLen _ out s := (⟨.ok, fill rxLen out⟩, s.record address true 1)
  writeThenRead address _ _ rxLen out s := (⟨.ok, fill rxLen out⟩, s.record address true 1)
  delayUs _ s := s
  ioStatsFor s address := s address
  elapse _ s := s

end ProviderSdk.I2c

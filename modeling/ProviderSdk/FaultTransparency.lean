import ProviderSdk.FaultSchedule

/-!
# What the decorator lets through

Whether an operation of a run is failed by injection depends on the operations before it
only (`injected`). The inner bus receives the others, in order and as they were, and the
callers get the statuses it gave. The decorator's own counters count the injected failures
and nothing else, so what it reports for an address is what the inner bus reports and the
failures injected there (`run_transparent`). Without an active fault mode it is the inner
bus (`run_of_not_any`).
-/

namespace ProviderSdk.I2c

variable {σ : Type}

/-! ## Injected failures -/

/-- The fault of an operation, `ok` if it is not a transfer. -/
def opFault (spec : FaultSpec) (c : Counters) (op : Op) : I2cStatus :=
  if op.isTransfer then
    spec.fault (c.advance op.writePhase op.readPhase) op.writePhase op.readPhase
  else .ok

def Counters.after (c : Counters) (op : Op) : Counters :=
  if op.isTransfer then c.advance op.writePhase op.readPhase else c

/-- The faults of the operations of a run. -/
def injected (spec : FaultSpec) : Counters → List Op → List I2cStatus
  | _, [] => []
  | c, op :: ops => opFault spec c op :: injected spec (c.after op) ops

/-- The operations that are not failed by injection. -/
def passed (spec : FaultSpec) (c : Counters) (ops : List Op) : List Op :=
  ((ops.zip (injected spec c ops)).filter fun p => p.2.isOk).map Prod.fst

/-- How many operations on an address are failed by injection. -/
def faultsOn (spec : FaultSpec) (c : Counters) (ops : List Op) (address : UInt8) : ℕ :=
  (ops.zip (injected spec c ops)).countP fun p => p.1.address? = some address && !p.2.isOk

/-! ## One operation -/

section

variable (inner : I2cBus σ) {spec : FaultSpec} {op : Op}
  {bus : FaultInjectingI2cBus (σ × List (Op × Reply))}

/-- An operation with a fault fails with it, is counted, and does not reach the inner bus. -/
theorem decorated_faulted (h : (opFault spec bus.counters op).isOk = false) :
    ∃ address, op.address? = some address ∧
      (decorated inner spec op bus).1.status = opFault spec bus.counters op ∧
      (decorated inner spec op bus).2.inner.2 = bus.inner.2 ∧
      (decorated inner spec op bus).2.counters = bus.counters.after op ∧
      (decorated inner spec op bus).2.faultStats = bus.faultStats.record address false 1 := by
  cases haddress : op.address? with
  | some address =>
    have htransfer : op.isTransfer = true := by rw [op.isTransfer_eq, haddress]; rfl
    simp only [opFault, htransfer, if_true] at h
    have hrun := @perform_faulted _ inner.recorded spec op address bus haddress h
    refine ⟨address, rfl, ?_⟩
    simp [decorated, hrun, nextFault, opFault, Counters.after, htransfer, paused_log]
  | none =>
    have htransfer : op.isTransfer = false := by rw [op.isTransfer_eq, haddress]; rfl
    simp [opFault, htransfer] at h

/-- Any other operation reaches the inner bus as it is, and its status comes back. -/
theorem decorated_passed (h : (opFault spec bus.counters op).isOk = true) :
    ∃ reply : Reply, (decorated inner spec op bus).1.status = reply.status ∧
      (decorated inner spec op bus).2.inner.2 = bus.inner.2 ++ [(op, reply)] ∧
      (decorated inner spec op bus).2.counters = bus.counters.after op ∧
      (decorated inner spec op bus).2.faultStats = bus.faultStats := by
  cases haddress : op.address? with
  | some address =>
    have htransfer : op.isTransfer = true := by rw [op.isTransfer_eq, haddress]; rfl
    simp only [opFault, htransfer, if_true] at h
    have hrun := @perform_delegated _ inner.recorded spec op address bus haddress h
    refine ⟨(inner.perform op (paused inner.recorded spec bus.inner).1).1, ?_⟩
    simp [decorated, hrun, I2cBus.perform_recorded, paused_log, Counters.after, htransfer]
  | none =>
    have htransfer : op.isTransfer = false := by rw [op.isTransfer_eq, haddress]; rfl
    refine ⟨(inner.perform op bus.inner.1).1, ?_⟩
    simp [decorated, perform_of_not_transfer haddress, I2cBus.perform_recorded, Counters.after,
      htransfer]

end

/-! ## Runs -/

/-- What a run of the decorator did, from whatever state. -/
structure Transparent (spec : FaultSpec) (c : Counters) (ops : List Op) (replies : List Reply)
    (log : List (Op × Reply)) : Prop where
  /-- The inner bus received the operations without a fault. -/
  received : log.map Prod.fst = passed spec c ops
  /-- The statuses of those operations are the inner bus's. -/
  statuses : ((replies.zip (injected spec c ops)).filter fun p => p.2.isOk).map (·.1.status) =
    log.map (·.2.status)
  /-- The other operations fail with their fault. -/
  faulted : ∀ p ∈ replies.zip (injected spec c ops), p.2.isOk = false → p.1.status = p.2

theorem Transparent.fault {spec : FaultSpec} {c : Counters} {op : Op} {ops : List Op}
    {reply : Reply} {replies : List Reply} {log : List (Op × Reply)}
    (hfault : (opFault spec c op).isOk = false) (hstatus : reply.status = opFault spec c op)
    (h : Transparent spec (c.after op) ops replies log) :
    Transparent spec c (op :: ops) (reply :: replies) log := by
  refine ⟨?_, ?_, ?_⟩
  · simp [passed, injected, hfault, h.received]
  · simp [injected, hfault, h.statuses]
  · rw [injected, List.zip_cons_cons, List.forall_mem_cons]
    exact ⟨fun _ => hstatus, h.faulted⟩

theorem Transparent.pass {spec : FaultSpec} {c : Counters} {op : Op} {ops : List Op}
    {reply reply' : Reply} {replies : List Reply} {log : List (Op × Reply)}
    (hfault : (opFault spec c op).isOk = true) (hstatus : reply.status = reply'.status)
    (h : Transparent spec (c.after op) ops replies log) :
    Transparent spec c (op :: ops) (reply :: replies) ((op, reply') :: log) := by
  refine ⟨?_, ?_, ?_⟩
  · simp [passed, injected, hfault, h.received]
  · simp [injected, hfault, h.statuses, hstatus]
  · rw [injected, List.zip_cons_cons, List.forall_mem_cons]
    exact ⟨fun hnot => absurd hfault (by simp [hnot]), h.faulted⟩

/-- Counters that count some failures more. -/
def addFailures (stats : IoStatsMap) (count : UInt8 → ℕ) : IoStatsMap :=
  fun address => { stats address with
    failed := (stats address).failed + UInt64.ofNat (count address) }

theorem run_decorated (inner : I2cBus σ) (spec : FaultSpec) (ops : List Op) :
    ∀ bus : FaultInjectingI2cBus (σ × List (Op × Reply)), ∃ log,
      ((decorated inner spec).run ops bus).2.inner.2 = bus.inner.2 ++ log ∧
      Transparent spec bus.counters ops ((decorated inner spec).run ops bus).1 log ∧
      ((decorated inner spec).run ops bus).2.faultStats =
        addFailures bus.faultStats (faultsOn spec bus.counters ops) := by
  induction ops with
  | nil =>
    intro bus
    refine ⟨[], by simp, ⟨rfl, rfl, by simp [injected]⟩, ?_⟩
    funext address
    simp [addFailures, faultsOn]
  | cons op ops ih =>
    intro bus
    obtain ⟨log, hlog, htransparent, hstats⟩ := ih (decorated inner spec op bus).2
    rw [Machine.run_cons]
    dsimp only
    by_cases hfault : (opFault spec bus.counters op).isOk = true
    · obtain ⟨reply, hstatus, hlog', hcounters, hstats'⟩ :=
        decorated_passed inner hfault
      rw [hcounters] at htransparent hstats
      refine ⟨(op, reply) :: log, by rw [hlog, hlog']; simp, htransparent.pass hfault hstatus, ?_⟩
      rw [hstats, hstats']
      congr 1
      ext address
      simp [faultsOn, injected, hfault]
    · have hfault' := Bool.eq_false_of_not_eq_true hfault
      obtain ⟨address, haddress, hstatus, hlog', hcounters, hstats'⟩ :=
        decorated_faulted inner hfault'
      rw [hcounters] at htransparent hstats
      refine ⟨log, by rw [hlog, hlog'], htransparent.fault hfault' hstatus, ?_⟩
      rw [hstats, hstats']
      funext other
      by_cases hother : other = address
      · subst hother
        simp [addFailures, IoStatsMap.record_same, faultsOn, injected, hfault', haddress,
          UInt64.ofNat_add]
        rw [UInt64.add_assoc, UInt64.add_comm 1]
      · have hne : address ≠ other := fun heq => hother heq.symm
        simp [addFailures, IoStatsMap.record_of_ne _ hother, faultsOn, injected, haddress, hne]

/-! ## Without faults -/

section

variable {spec : FaultSpec}

/-- Every mode is off. -/
structure FaultSpec.Off (spec : FaultSpec) : Prop where
  pad : spec.pad = 0
  shortEvery : spec.shortEvery = 0
  corruptEvery : spec.corruptEvery = 0
  nakEvery : spec.nakEvery = 0
  readFailEvery : spec.readFailEvery = 0
  timeoutEvery : spec.timeoutEvery = 0
  dropFor : spec.dropFor = 0
  latencyUs : spec.latencyUs = 0

theorem off_of_not_any (h : spec.any = false) : spec.Off := by
  simp only [FaultSpec.any, Bool.or_eq_false_iff, decide_eq_false_iff_not, ne_eq, not_not] at h
  obtain ⟨⟨⟨⟨⟨⟨⟨h1, h2⟩, h3⟩, h4⟩, h5⟩, h6⟩, h7⟩, h8⟩ := h
  exact ⟨h1, h2, h3, h4, h5, h6, h7, h8⟩

theorem FaultSpec.Off.fault (h : spec.Off) (c : Counters) (writePhase readPhase : Bool) :
    spec.fault c writePhase readPhase = .ok := by
  simp [FaultSpec.fault, h.dropFor, h.timeoutEvery, h.nakEvery, h.readFailEvery]

theorem FaultSpec.Off.mutateRead (h : spec.Off) (readCount : UInt64) (rxLen : ℕ)
    (out : Receive) : mutateRead spec readCount rxLen out = out := by
  obtain ⟨data, received⟩ := out
  unfold I2c.mutateRead
  cases data with
  | none => rfl
  | some data =>
    cases received with
    | none => rfl
    | some received => simp [h.corruptEvery, h.shortEvery, h.pad]

theorem FaultSpec.Off.mutated (h : spec.Off) (readCount : UInt64) (op : Op) (reply : Reply) :
    mutated spec readCount op reply = reply := by
  unfold I2c.mutated
  rw [h.mutateRead]
  split_ifs <;> rfl

/-- With every mode off, each operation is the inner bus's. -/
theorem FaultSpec.Off.perform (h : spec.Off) (inner : I2cBus σ) (op : Op)
    (bus : FaultInjectingI2cBus σ) :
    ((faultInjecting inner spec).perform op bus).1 = (inner.perform op bus.inner).1 ∧
      ((faultInjecting inner spec).perform op bus).2.inner = (inner.perform op bus.inner).2 ∧
      ((faultInjecting inner spec).perform op bus).2.faultStats = bus.faultStats := by
  cases haddress : op.address? with
  | none =>
    rw [perform_of_not_transfer haddress]
    exact ⟨rfl, rfl, rfl⟩
  | some address =>
    have hfault : (nextFault spec op bus).isOk = true := by rw [nextFault, h.fault]; rfl
    have hpaused : paused inner spec bus.inner = bus.inner := by simp [paused, h.latencyUs]
    rw [perform_delegated haddress hfault]
    dsimp only
    rw [h.mutated, hpaused]
    exact ⟨rfl, rfl, rfl⟩

end

/-- What the decorator reports for an address. -/
theorem ioStatsFor_eq (inner : I2cBus σ) (spec : FaultSpec) (bus : FaultInjectingI2cBus σ)
    {count : UInt8 → ℕ} (h : bus.faultStats = addFailures .empty count) (address : UInt8) :
    (faultInjecting inner spec).ioStatsFor bus address =
      { inner.ioStatsFor bus.inner address with
        failed := (inner.ioStatsFor bus.inner address).failed + UInt64.ofNat (count address) } := by
  simp [faultInjecting, FaultInjectingI2cBus.ioStatsFor, h, addFailures, IoStatsMap.empty]

/-- Without an active mode, a run gives what it gives on the inner bus. -/
theorem run_of_not_any (inner : I2cBus σ) {spec : FaultSpec} (h : spec.any = false) (s : σ)
    (ops : List Op) :
    let run := (faultInjecting inner spec).perform.run ops { inner := s }
    run.1 = (inner.perform.run ops s).1 ∧
      ∀ address, (faultInjecting inner spec).ioStatsFor run.2 address =
        inner.ioStatsFor (inner.perform.run ops s).2 address := by
  have hoff := off_of_not_any h
  obtain ⟨hreplies, hinner, hstats⟩ := Machine.run_simulates
    (R := fun (bus : FaultInjectingI2cBus σ) (s : σ) => bus.inner = s ∧ bus.faultStats = .empty)
    (fun op bus s => by
      rintro ⟨rfl, hstats⟩
      obtain ⟨hreply, hinner, hstats'⟩ := hoff.perform inner op bus
      exact ⟨hreply, hinner, hstats'.trans hstats⟩)
    ops (s := ({ inner := s } : FaultInjectingI2cBus σ)) ⟨rfl, rfl⟩
  refine ⟨hreplies, fun address => ?_⟩
  change FaultInjectingI2cBus.ioStatsFor inner _ address = _
  rw [FaultInjectingI2cBus.ioStatsFor, hstats, hinner]
  simp [IoStatsMap.empty]

/-- The inner bus receives the operations that are not failed by injection, their statuses
come back, and the reported counters are the inner bus's and the injected failures. Without
an active mode everything is the inner bus's. -/
theorem run_transparent (inner : I2cBus σ) (spec : FaultSpec) (s : σ) (ops : List Op) :
    let run := (decorated inner spec).run ops (fresh s)
    let plain := (faultInjecting inner spec).perform.run ops { inner := s }
    (Transparent spec {} ops run.1 run.2.inner.2 ∧
      ∀ address, (faultInjecting inner.recorded spec).ioStatsFor run.2 address =
        { inner.ioStatsFor run.2.inner.1 address with
          failed := (inner.ioStatsFor run.2.inner.1 address).failed +
            UInt64.ofNat (faultsOn spec {} ops address) }) ∧
      (spec.any = false → plain.1 = (inner.perform.run ops s).1 ∧
        ∀ address, (faultInjecting inner spec).ioStatsFor plain.2 address =
          inner.ioStatsFor (inner.perform.run ops s).2 address) := by
  obtain ⟨log, hlog, htransparent, hstats⟩ := run_decorated inner spec ops (fresh s)
  obtain rfl : ((decorated inner spec).run ops (fresh s)).2.inner.2 = log := hlog
  refine ⟨⟨htransparent, fun address => ?_⟩, fun h => run_of_not_any inner h s ops⟩
  exact ioStatsFor_eq inner.recorded spec _ hstats address

/-- Reads that are padded and corrupted are passed on, and every second write is not. -/
theorem run_transparent_fake :
    (((decorated fakeInnerBus { pad := 1, corruptEvery := 1, nakEvery := 2 }).run
      [probe, .read 0x10 4 1000 ⟨some [0, 0], some 0⟩, probe] (fresh .empty)).2.inner.2).map
        Prod.fst = [probe, .read 0x10 4 1000 ⟨some [0, 0], some 0⟩] ∧
      ((faultInjecting fakeInnerBus {}).perform.run [probe, probe] { inner := .empty }).1 =
        (fakeInnerBus.perform.run [probe, probe] .empty).1 :=
  ⟨(run_transparent fakeInnerBus { pad := 1, corruptEvery := 1, nakEvery := 2 } .empty
      [probe, .read 0x10 4 1000 ⟨some [0, 0], some 0⟩, probe]).1.1.received.trans (by decide),
    ((run_transparent fakeInnerBus {} .empty [probe, probe]).2 (by decide)).1⟩

end ProviderSdk.I2c

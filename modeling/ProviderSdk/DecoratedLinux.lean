import ProviderSdk.FaultTransparency
import ProviderSdk.ReadWindow

/-!
# Faults over the i2c-dev bus

The stack that a bench runs on : the fault decorator around a `LinuxI2cBus`
(`linuxI2cBus`, the Linux bus as an `I2cBus`).

What a caller is told tells where an operation ended. It was refused before the transport
(`I2cError.refusal`), or it reached the transport or an injected fault. So the counters of the
stack are tallies of what its callers saw (`stack_reports`), whichever layer an operation ended
in, and the calls on the wire are those counts less the injected faults.
-/

namespace ProviderSdk.I2c

variable {ω : Type} {P : Linux ω} {time : ω → ℤ}

/-! ## The Linux bus as a bus -/

/-- One operation, kept with its reply and its calls. A read has fuel for its window. -/
def performed (P : Linux ω) (op : Op) (s : LinuxState ω × List Performed) :
    Reply × (LinuxState ω × List Performed) :=
  let ran := performLinux P (op.pauses + 1) op s.1
  let reply := ran.value.getD {}
  (reply, (ran.state, s.2 ++ [⟨op, reply, ran.events⟩]))

/-- A `LinuxI2cBus`, keeping what it performed. -/
def linuxI2cBus (P : Linux ω) : I2cBus (LinuxState ω × List Performed) where
  openBus s := ((performed P .openBus s).1.status, (performed P .openBus s).2)
  close s := (performed P .close s).2
  isOpen s := s.1.bus.opened
  busPath s := s.1.bus.busPath
  write address tx txLen s :=
    ((performed P (.write address tx txLen) s).1.status,
      (performed P (.write address tx txLen) s).2)
  read address rxLen timeoutUs out := performed P (.read address rxLen timeoutUs out)
  writeThenRead address tx txLen rxLen out :=
    performed P (.writeThenRead address tx txLen rxLen out)
  delayUs us s := (performed P (.delayUs us) s).2
  ioStatsFor s address := s.1.bus.ioStats address
  -- the decorator sleeps as `delay_us` does
  elapse us s := (performed P (.delayUs us) s).2

theorem perform_linuxI2cBus (op : Op) (s : LinuxState ω × List Performed) :
    (linuxI2cBus P).perform op s = performed P op s := by
  cases op <;> rfl

/-! ## What a caller is told -/

/-- An error of an operation that was refused before the transport. -/
def I2cError.refusal : I2cError → Bool
  | .notOpen => true
  | .invalidArgument => true
  | _ => false

theorem refusal_of_refused {op : Op} {s : LinuxState ω} (h : op.refused s.bus = true)
    {fuel : ℕ} {reply : Reply} (hreply : (performLinux P fuel op s).value = some reply) :
    reply.status.code.refusal = true := by
  cases op with
  | openBus | close | delayUs => cases h
  | write address tx txLen =>
    rw [Op.refused, Bool.or_eq_true, decide_eq_true_eq] at h
    rw [performLinux, Traced.bind_apply, LinuxI2cBus.write, getBus_bind] at hreply
    by_cases hopen : (!s.bus.opened) = true
    · rw [if_pos hopen] at hreply
      rw [← Option.some.inj hreply]
      rfl
    · rw [if_neg hopen, if_pos (h.resolve_left hopen)] at hreply
      rw [← Option.some.inj hreply]
      rfl
  | read address rxLen timeoutUs out =>
    rw [Op.refused, Bool.or_eq_true, decide_eq_true_eq] at h
    rw [performLinux, LinuxI2cBus.read, getBus_bind] at hreply
    by_cases hopen : (!s.bus.opened) = true
    · rw [if_pos hopen] at hreply
      rw [← Option.some.inj hreply]
      rfl
    · rw [if_neg hopen, if_pos (h.resolve_left hopen)] at hreply
      rw [← Option.some.inj hreply]
      rfl
  | writeThenRead address tx txLen rxLen out =>
    rw [Op.refused, Bool.or_eq_true, decide_eq_true_eq] at h
    rw [performLinux, Traced.bind_apply, LinuxI2cBus.writeThenRead, getBus_bind] at hreply
    by_cases hopen : (!s.bus.opened) = true
    · rw [if_pos hopen] at hreply
      rw [← Option.some.inj hreply]
      rfl
    · rw [if_neg hopen, if_pos (h.resolve_left hopen)] at hreply
      rw [← Option.some.inj hreply]
      rfl

/-- What a loop of calls is replied with is no refusal. -/
theorem not_refusal_of_reached {op : Op} {s : LinuxState ω} (htransfer : op.isTransfer = true)
    (hrefused : op.refused s.bus = false) {fuel : ℕ} {reply : Reply}
    (hreply : (performLinux P fuel op s).value = some reply) :
    reply.status.code.refusal = false := by
  cases op with
  | openBus | close | delayUs => cases htransfer
  | write address tx txLen =>
    obtain ⟨hopen, hlen⟩ : s.bus.opened = true ∧ txLen ≠ 0 := by
      simpa [Op.refused] using hrefused
    rw [performLinux, Traced.bind_apply, LinuxI2cBus.write, getBus_bind,
      if_neg (by simp [hopen]), if_neg hlen, Traced.bind_apply] at hreply
    revert hreply
    generalize retryLoop P _ _ 0 0 s = ran
    obtain ⟨⟨attempts, _ | _⟩, s', calls⟩ := ran
    · rintro ⟨⟩
      rfl
    · rintro ⟨⟩
      rfl
  | read address rxLen timeoutUs out =>
    obtain ⟨hopen, hlen⟩ : s.bus.opened = true ∧ rxLen ≠ 0 := by
      simpa [Op.refused] using hrefused
    rw [performLinux, LinuxI2cBus.read, getBus_bind, if_neg (by simp [hopen]), if_neg hlen,
      Traced.bind_apply, Traced.bind_apply] at hreply
    revert hreply
    generalize pollLoop P _ _ fuel 0 _ = ran
    obtain ⟨_ | ⟨attempts, _ | _⟩, s', calls⟩ := ran
    · rintro ⟨⟩
    · rintro ⟨⟩
      rfl
    · rintro ⟨⟩
      rfl
  | writeThenRead address tx txLen rxLen out =>
    obtain ⟨hopen, hlen⟩ : s.bus.opened = true ∧ ¬(txLen = 0 ∧ rxLen = 0) := by
      simpa [Op.refused] using hrefused
    rw [performLinux, Traced.bind_apply, LinuxI2cBus.writeThenRead, getBus_bind,
      if_neg (by simp [hopen]), if_neg hlen, Traced.bind_apply] at hreply
    revert hreply
    generalize retryLoop P _ _ 0 0 s = ran
    obtain ⟨⟨attempts, _ | _⟩, s', calls⟩ := ran
    · rintro ⟨⟩
      rfl
    · rintro ⟨⟩
      rfl

/-- A transfer made no call exactly if it is told that it was refused. -/
theorem refusal_iff {op : Op} {s : LinuxState ω} (htransfer : op.isTransfer = true) {fuel : ℕ}
    {reply : Reply} (hreply : (performLinux P fuel op s).value = some reply) :
    reply.status.code.refusal = true ↔ (performLinux P fuel op s).events = [] := by
  by_cases hrefused : op.refused s.bus = true
  · obtain ⟨refusal, hperform, -⟩ := performLinux_refused (P := P) hrefused fuel
    rw [hperform]
    exact iff_of_true (refusal_of_refused hrefused hreply) rfl
  · rw [Bool.not_eq_true] at hrefused
    obtain ⟨last, hcompleted⟩ := performLinux_completed htransfer hrefused hreply
    obtain ⟨start, t, hlooped⟩ := hcompleted.looped
    rw [not_refusal_of_reached htransfer hrefused hreply]
    exact iff_of_false Bool.false_ne_true hlooped.called.made

/-- The operations at an address that a caller saw succeed. -/
def seenOk (seen : List (Op × Reply)) (address : UInt8) : ℕ :=
  seen.countP fun p => p.1.address? = some address ∧ p.2.status.isOk = true

/-- Those that it saw fail, and not as a refusal. -/
def seenFailed (seen : List (Op × Reply)) (address : UInt8) : ℕ :=
  seen.countP fun p => p.1.address? = some address ∧ p.2.status.isOk = false ∧
    p.2.status.code.refusal = false

/-! ## One operation -/

/-- On a steady clock, what the bus performs goes on a run. -/
theorem Runs.performed (h : Steady P time) {start : LinuxState ω}
    {s : LinuxState ω × List Performed} (hrun : Runs P start s.2 s.1) (op : Op) :
    ∃ p : Performed, p.op = op ∧ p.reply = (performed P op s).1 ∧
      (performed P op s).2.2 = s.2 ++ [p] ∧
      Runs P start (performed P op s).2.2 (performed P op s).2.1 ∧
      (op.isTransfer = true → (p.reply.status.code.refusal = true ↔ p.calls = [])) := by
  obtain ⟨reply, t, calls, hreturns, -⟩ := exists_returns h op s.1
  have hperform := hreturns _ (Nat.lt_succ_self _)
  have hvalue : (performLinux P (op.pauses + 1) op s.1).value = some reply := by rw [hperform]
  refine ⟨⟨op, reply, calls⟩, rfl, ?_, ?_, ?_, fun htransfer => ?_⟩
  · simp [I2c.performed, hvalue]
  · simp [I2c.performed, hperform]
  · have hnext := hrun.next (op.pauses + 1) op reply hvalue
    simpa [I2c.performed, hvalue] using hnext
  · have hrefusal := refusal_iff htransfer hvalue
    rwa [hperform] at hrefusal

/-- What some operations of a caller did to the counts of the two layers. -/
structure Accounted (P : Linux ω) (spec : FaultSpec) (start : LinuxState ω) (ops : List Op)
    (bus : FaultInjectingI2cBus (LinuxState ω × List Performed)) (replies : List Reply)
    (next : FaultInjectingI2cBus (LinuxState ω × List Performed)) : Prop where
  runs : Runs P start next.inner.2 next.inner.1
  faultStats : next.faultStats = addFailures bus.faultStats (faultsOn spec bus.counters ops)
  ok (address : UInt8) : okOps next.inner.2 address =
    okOps bus.inner.2 address + seenOk (ops.zip replies) address
  failed (address : UInt8) : failedOps next.inner.2 address +
    faultsOn spec bus.counters ops address =
      failedOps bus.inner.2 address + seenFailed (ops.zip replies) address

/-- The latency goes on the run, and counts as nothing. -/
theorem Runs.paused (h : Steady P time) {start : LinuxState ω}
    {s : LinuxState ω × List Performed} (hrun : Runs P start s.2 s.1) (spec : FaultSpec) :
    let t := paused (linuxI2cBus P) spec s
    Runs P start t.2 t.1 ∧ ∀ address, okOps t.2 address = okOps s.2 address ∧
      failedOps t.2 address = failedOps s.2 address := by
  unfold I2c.paused
  split_ifs
  · obtain ⟨p, hop, -, hdone, hnext, -⟩ := hrun.performed h (.delayUs spec.latencyUs)
    refine ⟨hnext, fun address => ?_⟩
    have haddress : p.op.address? ≠ some address := by simp [hop, Op.address?]
    obtain ⟨hok, hfailed, -⟩ := tallies_of_idle (.inl haddress) s.2
    change okOps (I2c.performed P _ s).2.2 address = _ ∧
      failedOps (I2c.performed P _ s).2.2 address = _
    rw [hdone]
    exact ⟨hok, hfailed⟩
  · exact ⟨hrun, fun _ => ⟨rfl, rfl⟩⟩

section

variable {spec : FaultSpec} {start : LinuxState ω} {op : Op}
  {bus : FaultInjectingI2cBus (LinuxState ω × List Performed)}

theorem faultsOn_singleton (c : Counters) (address : UInt8) : faultsOn spec c [op] address =
    if op.address? = some address ∧ (opFault spec c op).isOk = false then 1 else 0 := by
  simp [faultsOn, injected, List.countP_singleton]

theorem seenOk_singleton (reply : Reply) (address : UInt8) : seenOk [(op, reply)] address =
    if op.address? = some address ∧ reply.status.isOk = true then 1 else 0 := by
  simp [seenOk, List.countP_singleton]

theorem seenFailed_singleton (reply : Reply) (address : UInt8) :
    seenFailed [(op, reply)] address =
      if op.address? = some address ∧ reply.status.isOk = false ∧
        reply.status.code.refusal = false then 1 else 0 := by
  simp [seenFailed, List.countP_singleton]

/-- What is no transfer is passed on, and counts as nothing. -/
theorem accounted_of_not_transfer (h : Steady P time)
    (hrun : Runs P start bus.inner.2 bus.inner.1) (haddress : op.address? = none) :
    let next := (faultInjecting (linuxI2cBus P) spec).perform op bus
    next.2.counters = bus.counters.after op ∧
      Accounted P spec start [op] bus [next.1] next.2 := by
  have htransfer : op.isTransfer = false := by rw [op.isTransfer_eq, haddress]; rfl
  obtain ⟨p, hop, -, hdone, hnext, -⟩ := hrun.performed h op
  have hidle : ∀ address, p.op.address? ≠ some address := by simp [hop, haddress]
  have htallies := fun address => tallies_of_idle (.inl (hidle address)) bus.inner.2
  rw [perform_of_not_transfer haddress, perform_linuxI2cBus]
  refine ⟨by simp [Counters.after, htransfer], hnext, ?_, fun address => ?_, fun address => ?_⟩
  · funext address
    simp [addFailures, faultsOn_singleton, haddress]
  · dsimp only
    rw [hdone, (htallies address).1, List.zip_cons_cons, List.zip_nil_right, seenOk_singleton]
    simp [haddress]
  · dsimp only
    rw [hdone, (htallies address).2.1, List.zip_cons_cons, List.zip_nil_right,
      seenFailed_singleton, faultsOn_singleton]
    simp [haddress]

/-- An operation that is failed by injection counts as one failure, above the bus. -/
theorem accounted_of_fault (h : Steady P time) (hrun : Runs P start bus.inner.2 bus.inner.1)
    {address : UInt8} (haddress : op.address? = some address)
    (hfault : (nextFault spec op bus).isOk = false) :
    let next := (faultInjecting (linuxI2cBus P) spec).perform op bus
    next.2.counters = bus.counters.after op ∧
      Accounted P spec start [op] bus [next.1] next.2 := by
  have htransfer : op.isTransfer = true := by rw [op.isTransfer_eq, haddress]; rfl
  have hopFault : opFault spec bus.counters op = nextFault spec op bus := by
    simp [opFault, htransfer, nextFault]
  have hrefusal : (nextFault spec op bus).code.refusal = false := by
    revert hfault
    unfold nextFault FaultSpec.fault
    split_ifs <;> simp [I2cError.refusal, I2cStatus.failure, I2cStatus.ok]
  obtain ⟨hpaused, hsame⟩ := hrun.paused h spec
  rw [perform_faulted haddress hfault]
  refine ⟨by simp [Counters.after, htransfer], hpaused, ?_, fun other => ?_, fun other => ?_⟩
  · funext other
    by_cases hother : other = address
    · subst hother
      simp [addFailures, IoStatsMap.record_same, faultsOn_singleton, haddress, hopFault, hfault]
    · have hne : address ≠ other := fun heq => hother heq.symm
      simp [addFailures, IoStatsMap.record_of_ne _ hother, faultsOn_singleton, haddress, hne]
  · dsimp only
    rw [(hsame other).1, List.zip_cons_cons, List.zip_nil_right, seenOk_singleton]
    simp [hfault]
  · dsimp only
    rw [(hsame other).2, List.zip_cons_cons, List.zip_nil_right, seenFailed_singleton,
      faultsOn_singleton, hopFault]
    simp [hfault, hrefusal]

/-- An operation that is passed on counts below, as its caller sees it. -/
theorem accounted_of_passed (h : Steady P time) (hrun : Runs P start bus.inner.2 bus.inner.1)
    {address : UInt8} (haddress : op.address? = some address)
    (hfault : (nextFault spec op bus).isOk = true) :
    let next := (faultInjecting (linuxI2cBus P) spec).perform op bus
    next.2.counters = bus.counters.after op ∧
      Accounted P spec start [op] bus [next.1] next.2 := by
  have htransfer : op.isTransfer = true := by rw [op.isTransfer_eq, haddress]; rfl
  have hopFault : opFault spec bus.counters op = nextFault spec op bus := by
    simp [opFault, htransfer, nextFault]
  obtain ⟨hpaused, hsame⟩ := hrun.paused h spec
  obtain ⟨p, rfl, hreply, hdone, hnext, hrefusal⟩ := hpaused.performed h op
  have hcalls : p.calls.isEmpty = p.reply.status.code.refusal := by
    rw [Bool.eq_iff_iff, List.isEmpty_iff, hrefusal htransfer]
  rw [perform_delegated haddress hfault, perform_linuxI2cBus]
  refine ⟨by simp [Counters.after, htransfer], hnext, ?_, fun other => ?_, fun other => ?_⟩
  · funext other
    simp [addFailures, faultsOn_singleton, hopFault, hfault]
  · dsimp only
    rw [hdone, okOps_append, (hsame other).1, List.zip_cons_cons, List.zip_nil_right,
      seenOk_singleton, mutated_status, ← hreply]
  · dsimp only
    rw [hdone, failedOps_append, (hsame other).2, List.zip_cons_cons, List.zip_nil_right,
      seenFailed_singleton, faultsOn_singleton, hopFault, mutated_status, ← hreply, hcalls]
    simp [hfault]

/-- One operation. -/
theorem accounted_step (h : Steady P time) (hrun : Runs P start bus.inner.2 bus.inner.1)
    (op : Op) :
    let next := (faultInjecting (linuxI2cBus P) spec).perform op bus
    next.2.counters = bus.counters.after op ∧
      Accounted P spec start [op] bus [next.1] next.2 := by
  cases haddress : op.address? with
  | none => exact accounted_of_not_transfer h hrun haddress
  | some address =>
    by_cases hfault : (nextFault spec op bus).isOk = true
    · exact accounted_of_passed h hrun haddress hfault
    · exact accounted_of_fault h hrun haddress (by simpa using hfault)

end

/-! ## Runs -/

theorem faultsOn_cons (spec : FaultSpec) (c : Counters) (op : Op) (ops : List Op)
    (address : UInt8) : faultsOn spec c (op :: ops) address =
      faultsOn spec c [op] address + faultsOn spec (c.after op) ops address := by
  simp [faultsOn, injected, List.countP_cons, Nat.add_comm]

/-- What is done to the counts adds up. -/
theorem Accounted.trans {spec : FaultSpec} {start : LinuxState ω} {op : Op} {ops : List Op}
    {bus next last : FaultInjectingI2cBus (LinuxState ω × List Performed)} {reply : Reply}
    {replies : List Reply} (h : Accounted P spec start [op] bus [reply] next)
    (hcounters : next.counters = bus.counters.after op)
    (hrest : Accounted P spec start ops next replies last) :
    Accounted P spec start (op :: ops) bus (reply :: replies) last := by
  refine ⟨hrest.runs, ?_, fun address => ?_, fun address => ?_⟩
  · funext address
    rw [hrest.faultStats, h.faultStats, hcounters, addFailures, addFailures, addFailures,
      faultsOn_cons spec bus.counters op ops, UInt64.ofNat_add, UInt64.add_assoc]
  · have hseen : seenOk ((op :: ops).zip (reply :: replies)) address =
        seenOk (ops.zip replies) address + seenOk ([op].zip [reply]) address := by
      simp [seenOk, List.countP_cons]
    rw [hrest.ok, h.ok, hseen]
    omega
  · have hseen : seenFailed ((op :: ops).zip (reply :: replies)) address =
        seenFailed (ops.zip replies) address + seenFailed ([op].zip [reply]) address := by
      simp [seenFailed, List.countP_cons]
    have hfirst := h.failed address
    have hlast := hrest.failed address
    rw [hcounters] at hlast
    rw [faultsOn_cons, hseen]
    omega

theorem accounted_run (h : Steady P time) (spec : FaultSpec) {start : LinuxState ω}
    (ops : List Op) (bus : FaultInjectingI2cBus (LinuxState ω × List Performed))
    (hrun : Runs P start bus.inner.2 bus.inner.1) :
    let run := (faultInjecting (linuxI2cBus P) spec).perform.run ops bus
    Accounted P spec start ops bus run.1 run.2 := by
  induction ops generalizing bus with
  | nil =>
    refine ⟨hrun, ?_, fun address => by simp [seenOk], fun address => by
      simp [faultsOn, seenFailed]⟩
    funext address
    simp [addFailures, faultsOn]
  | cons op ops ih =>
    obtain ⟨hcounters, hstep⟩ := @accounted_step ω P time spec _ bus h hrun op
    rw [Machine.run_cons]
    exact hstep.trans hcounters (ih _ hstep.runs)

/-- A new bus on a Linux, with the decorator around it. -/
def stack (busPath : Bytes) (retryCount : ℤ) (world : ω) :
    FaultInjectingI2cBus (LinuxState ω × List Performed) :=
  { inner := (⟨.new busPath retryCount, world⟩, []) }

/-- Whatever faults are injected over an i2c-dev bus, and whatever the kernel answers, what is
reported for an address after any operations is what its callers saw : `ok` of them succeeded,
and `failed` of them failed, in the device or by injection, not counting those that were
refused. The calls made to the address are those counts, less the injected failures, and the
retries. -/
theorem stack_reports (h : Steady P time) (spec : FaultSpec) (busPath : Bytes) (retryCount : ℤ)
    (world : ω) (ops : List Op) (address : UInt8) :
    let bus := faultInjecting (linuxI2cBus P) spec
    let run := bus.perform.run ops (stack busPath retryCount world)
    let seen := ops.zip run.1
    let done := run.2.inner.2
    Runs P ⟨.new busPath retryCount, world⟩ done run.2.inner.1 ∧
      bus.ioStatsFor run.2 address =
        { ok := .ofNat (seenOk seen address)
          failed := .ofNat (seenFailed seen address)
          retriedAttempts := .ofNat (retries done address) } ∧
      (callsTo done address).length + faultsOn spec {} ops address =
        seenOk seen address + seenFailed seen address + retries done address := by
  intro bus run seen done
  obtain ⟨hruns, hstats, hok, hfailed⟩ :=
    accounted_run h spec ops (stack busPath retryCount world) .start
  have hcounted := counted_of_runs hruns address
  have hok := hok address
  have hfailed := hfailed address
  have hnone : okOps (stack busPath retryCount world).inner.2 address = 0 ∧
      failedOps (stack busPath retryCount world).inner.2 address = 0 := ⟨rfl, rfl⟩
  rw [hnone.1, zero_add] at hok
  rw [hnone.2, zero_add] at hfailed
  refine ⟨hruns, ?_, ?_⟩
  · rw [ioStatsFor_eq (linuxI2cBus P) spec run.2 hstats address]
    change ({ run.2.inner.1.bus.ioStats address with
      failed := (run.2.inner.1.bus.ioStats address).failed + _ } : IoStats) = _
    rw [hcounted.stats, tally, hok, ← hfailed, UInt64.ofNat_add]
  · have hcalls := hcounted.calls
    rw [hok] at hcalls
    change (callsTo done address).length = seenOk seen address + failedOps done address +
      retries done address at hcalls
    change failedOps done address + faultsOn spec {} ops address = seenFailed seen address
      at hfailed
    omega

/-- Two probes of an absent device, the second failed by injection. -/
theorem stack_reports_scripted :
    let bus := faultInjecting (linuxI2cBus scripted) { nakEvery := 2 }
    let run := bus.perform.run [.openBus, probe, probe] (stack (lit "/dev/i2c-1") 0 ([], 0))
    (bus.ioStatsFor run.2 0x10).failed = 2 :=
  (congrArg IoStats.failed (stack_reports steady_scripted { nakEvery := 2 } (lit "/dev/i2c-1") 0
    ([], 0) [.openBus, probe, probe] 0x10).2.1).trans (by decide)

end ProviderSdk.I2c

import ProviderSdk.FaultInjection

/-!
# Does the decorator follow its schedule?

The header documents a schedule in plain numbers : which operation fails, and how, from its
number and the number of its phases (`FaultSpec.scheduled`). `Follows` is that the decorator
does what the schedule says at every transfer of a run, around an inner bus that records
what it receives.

The code adds the two parameters of the dropout window as `uint32_t`. If the sum does not
fit, the window it tests is empty. So a run follows the schedule exactly when the sum fits
or the run ends before the window opens (`follows_iff`).
-/

namespace ProviderSdk.I2c

variable {σ : Type}

/-! ## The schedule -/

/-- Operation `n` is one of the `drop_for` after the first `drop_after`. -/
def FaultSpec.InWindow (spec : FaultSpec) (n : ℕ) : Prop :=
  0 < spec.dropFor.toNat ∧ spec.dropAfter.toNat < n ∧
    n ≤ spec.dropAfter.toNat + spec.dropFor.toNat

instance (spec : FaultSpec) (n : ℕ) : Decidable (spec.InWindow n) :=
  inferInstanceAs (Decidable (_ ∧ _))

/-- How operation `n` fails, with `w` write and `r` read phases up to it, if it does. -/
def FaultSpec.scheduled (spec : FaultSpec) (n w r : ℕ) (writePhase readPhase : Bool) :
    Option I2cError :=
  if spec.InWindow n then some .busError
  else if 0 < spec.timeoutEvery.toNat ∧ spec.timeoutEvery.toNat ∣ n then some .timeout
  else if writePhase ∧ 0 < spec.nakEvery.toNat ∧ spec.nakEvery.toNat ∣ w then some .writeFailed
  else if readPhase ∧ 0 < spec.readFailEvery.toNat ∧ spec.readFailEvery.toNat ∣ r then
    some .readFailed
  else none

/-- An operation either fails as scheduled without reaching the inner bus, or is passed on
with its status. The log is what the inner bus received. -/
def Decided (fault : Option I2cError) (op : Op) (status : I2cStatus)
    (before after : List (Op × Reply)) : Prop :=
  match fault with
  | some e => status.code = e ∧ after = before
  | none => ∃ reply, after = before ++ [(op, reply)] ∧ status = reply.status

/-- The decorator around a recording bus. -/
abbrev decorated (inner : I2cBus σ) (spec : FaultSpec) :
    Machine Op Reply (FaultInjectingI2cBus (σ × List (Op × Reply))) :=
  (faultInjecting inner.recorded spec).perform

/-- A fresh decorator. -/
def fresh (s : σ) : FaultInjectingI2cBus (σ × List (Op × Reply)) :=
  { inner := (s, []) }

/-- Every transfer of the run is decided as scheduled. -/
def Follows (inner : I2cBus σ) (spec : FaultSpec) (s : σ) (ops : List Op) : Prop :=
  ∀ pre op post, ops = pre ++ op :: post → op.isTransfer = true →
    let before := ((decorated inner spec).run pre (fresh s)).2
    let ran := decorated inner spec op before
    let sofar := pre ++ [op]
    Decided
      (spec.scheduled (sofar.countP Op.isTransfer) (sofar.countP Op.writePhase)
        (sofar.countP Op.readPhase) op.writePhase op.readPhase)
      op ran.1.status before.inner.2 ran.2.inner.2

/-! ## Counting -/

/-- The counters of some operations. -/
def Counters.of (ops : List Op) : Counters where
  opCount := UInt64.ofNat (ops.countP Op.isTransfer)
  writeCount := UInt64.ofNat (ops.countP Op.writePhase)
  readCount := UInt64.ofNat (ops.countP Op.readPhase)

theorem advance_of (ops : List Op) {op : Op} (h : op.isTransfer = true) :
    (Counters.of ops).advance op.writePhase op.readPhase = Counters.of (ops ++ [op]) := by
  unfold Counters.of Counters.advance
  simp only [List.countP_append, List.countP_singleton, h, if_true, UInt64.ofNat_add]
  split_ifs <;> simp

/-- The decorator counts its transfers. -/
theorem counters_run (inner : I2cBus σ) (spec : FaultSpec) (bus : FaultInjectingI2cBus σ)
    (hbus : bus.counters = {}) (ops : List Op) :
    ((faultInjecting inner spec).perform.run ops bus).2.counters = Counters.of ops := by
  refine Machine.run_history _ (I := fun ops (bus : FaultInjectingI2cBus σ) =>
    bus.counters = Counters.of ops) hbus ?_ ops
  intro past op bus ih
  cases haddress : op.address? with
  | some address =>
    have h : op.isTransfer = true := by rw [op.isTransfer_eq, haddress]; rfl
    rw [perform_transfer haddress, ← advance_of past h, ← ih]
    dsimp only
    split_ifs <;> rfl
  | none =>
    have h : op.isTransfer = false := by rw [op.isTransfer_eq, haddress]; rfl
    obtain ⟨hw, hr⟩ := Op.phases_of_not_isTransfer h
    rw [perform_of_not_transfer haddress, ih]
    simp [Counters.of, h, hw, hr]

/-! ## One operation -/

/-- The sum of the window's parameters fits `uint32_t`. -/
def FaultSpec.WindowFits (spec : FaultSpec) : Prop :=
  spec.dropAfter.toNat + spec.dropFor.toNat < 2 ^ 32

instance (spec : FaultSpec) : Decidable spec.WindowFits :=
  inferInstanceAs (Decidable (_ < _))

theorem toNat_ofNat_of_lt {n : ℕ} (h : n < 2 ^ 64) : (UInt64.ofNat n).toNat = n := by
  rw [UInt64.toNat_ofNat']
  exact Nat.mod_eq_of_lt h

/-- Every-N tests agree with divisibility. -/
theorem every_iff {every : UInt32} {n : ℕ} (h : n < 2 ^ 64) :
    (0 < every ∧ UInt64.ofNat n % every.toUInt64 = 0) ↔
      (0 < every.toNat ∧ every.toNat ∣ n) := by
  rw [UInt32.lt_iff_toNat_lt, ← UInt64.toNat_inj, UInt64.toNat_mod, toNat_ofNat_of_lt h,
    UInt32.toNat_toUInt64, Nat.dvd_iff_mod_eq_zero]
  rfl

/-- The window that the code tests. -/
theorem window_iff {spec : FaultSpec} {n : ℕ} (h : n < 2 ^ 64) :
    (0 < spec.dropFor ∧ spec.dropAfter.toUInt64 < UInt64.ofNat n ∧
      UInt64.ofNat n ≤ (spec.dropAfter + spec.dropFor).toUInt64) ↔
      (spec.WindowFits ∧ spec.InWindow n) := by
  rw [UInt32.lt_iff_toNat_lt, UInt64.lt_iff_toNat_lt, UInt64.le_iff_toNat_le,
    toNat_ofNat_of_lt h, UInt32.toNat_toUInt64, UInt32.toNat_toUInt64, UInt32.toNat_add]
  have hafter := spec.dropAfter.toNat_lt
  have hfor := spec.dropFor.toNat_lt
  unfold FaultSpec.WindowFits FaultSpec.InWindow
  simp only [UInt32.reduceToNat]
  omega

section

variable {spec : FaultSpec} {n w r : ℕ} {writePhase readPhase : Bool}

/-- Outside a window that does not fit, the fault is the scheduled one. -/
theorem fault_code (hn : n < 2 ^ 64) (hw : w < 2 ^ 64) (hr : r < 2 ^ 64)
    (h : spec.WindowFits ∨ ¬spec.InWindow n) :
    (spec.fault ⟨UInt64.ofNat n, UInt64.ofNat w, UInt64.ofNat r⟩ writePhase readPhase).code =
      (spec.scheduled n w r writePhase readPhase).getD .ok := by
  unfold FaultSpec.fault FaultSpec.scheduled
  simp only [window_iff hn, every_iff hn, every_iff hw, every_iff hr]
  by_cases hwindow : spec.InWindow n
  · have hfits := h.resolve_right (not_not.mpr hwindow)
    rw [if_pos ⟨hfits, hwindow⟩, if_pos hwindow]
    rfl
  · rw [if_neg fun hc => hwindow hc.2, if_neg hwindow]
    split_ifs <;> rfl

/-- In a window that does not fit, the fault is some other one, or none. -/
theorem fault_code_ne (hn : n < 2 ^ 64) (hfits : ¬spec.WindowFits) :
    (spec.fault ⟨UInt64.ofNat n, UInt64.ofNat w, UInt64.ofNat r⟩ writePhase readPhase).code ≠
      .busError := by
  unfold FaultSpec.fault
  simp only [window_iff hn]
  rw [if_neg fun hc => hfits hc.1]
  split_ifs <;> simp [I2cStatus.failure, I2cStatus.ok]

theorem scheduled_of_inWindow (h : spec.InWindow n) :
    spec.scheduled n w r writePhase readPhase = some .busError :=
  if_pos h

/-- A scheduled fault is a failure. -/
theorem scheduled_ne_ok : spec.scheduled n w r writePhase readPhase ≠ some .ok := by
  unfold FaultSpec.scheduled
  split_ifs <;> simp

end

/-- A pause is not recorded. -/
theorem paused_log (inner : I2cBus σ) (spec : FaultSpec) (s : σ × List (Op × Reply)) :
    (paused inner.recorded spec s).2 = s.2 := by
  unfold paused
  split_ifs <;> rfl

/-- A transfer is decided as scheduled if its fault is the scheduled one. -/
theorem decided_iff (inner : I2cBus σ) (spec : FaultSpec) {op : Op} (h : op.isTransfer = true)
    (bus : FaultInjectingI2cBus (σ × List (Op × Reply))) {fault : Option I2cError}
    (hfault : fault ≠ some .ok) :
    Decided fault op (decorated inner spec op bus).1.status bus.inner.2
        (decorated inner spec op bus).2.inner.2 ↔
      (nextFault spec op bus).code = fault.getD .ok := by
  rw [op.isTransfer_eq] at h
  obtain ⟨address, haddress⟩ := Option.isSome_iff_exists.mp h
  by_cases hok : (nextFault spec op bus).isOk = true
  · have hcode : (nextFault spec op bus).code = .ok := by simpa [I2cStatus.isOk] using hok
    rw [decorated, perform_delegated haddress hok, hcode]
    dsimp only
    rw [I2cBus.perform_recorded, mutated_status, paused_log]
    cases fault with
    | none => exact iff_of_true ⟨_, rfl, rfl⟩ rfl
    | some e =>
      refine iff_of_false (fun hdecided => ?_) (fun heq => hfault (congrArg some heq.symm))
      have hlength := congrArg List.length hdecided.2
      simp at hlength
  · have hcode : (nextFault spec op bus).code ≠ .ok := by simpa [I2cStatus.isOk] using hok
    rw [decorated, perform_faulted haddress (Bool.eq_false_of_not_eq_true hok)]
    dsimp only
    rw [paused_log]
    cases fault with
    | none =>
      refine iff_of_false (fun hdecided => ?_) hcode
      obtain ⟨reply, hlog, -⟩ := hdecided
      have hlength := congrArg List.length hlog
      simp at hlength
    | some e => exact and_iff_left rfl

/-! ## Runs -/

/-- There is a `k`-th element among those that satisfy `p`. -/
theorem exists_split_of_lt_countP {α : Type} {p : α → Bool} : ∀ {l : List α} {k : ℕ},
    k < l.countP p → ∃ pre a post, l = pre ++ a :: post ∧ p a = true ∧ pre.countP p = k
  | [], k, h => absurd h (by simp)
  | a :: l, k, h => by
    by_cases ha : p a = true
    · cases k with
      | zero => exact ⟨[], a, l, rfl, ha, rfl⟩
      | succ k =>
        rw [List.countP_cons_of_pos ha, Nat.succ_lt_succ_iff] at h
        obtain ⟨pre, b, post, rfl, hb, hk⟩ := exists_split_of_lt_countP h
        exact ⟨a :: pre, b, post, rfl, hb, by rw [List.countP_cons_of_pos ha, hk]⟩
    · rw [List.countP_cons_of_neg ha] at h
      obtain ⟨pre, b, post, rfl, hb, hk⟩ := exists_split_of_lt_countP h
      exact ⟨a :: pre, b, post, rfl, hb, by rw [List.countP_cons_of_neg ha, hk]⟩

/-- What the code decides at an operation of a run. -/
theorem follows_at_iff (inner : I2cBus σ) (spec : FaultSpec) (s : σ) (pre : List Op) {op : Op}
    (h : op.isTransfer = true) :
    (let before := ((decorated inner spec).run pre (fresh s)).2
      let ran := decorated inner spec op before
      let sofar := pre ++ [op]
      Decided
        (spec.scheduled (sofar.countP Op.isTransfer) (sofar.countP Op.writePhase)
          (sofar.countP Op.readPhase) op.writePhase op.readPhase)
        op ran.1.status before.inner.2 ran.2.inner.2) ↔
      (spec.fault (Counters.of (pre ++ [op])) op.writePhase op.readPhase).code =
        (spec.scheduled ((pre ++ [op]).countP Op.isTransfer) ((pre ++ [op]).countP Op.writePhase)
          ((pre ++ [op]).countP Op.readPhase) op.writePhase op.readPhase).getD .ok := by
  dsimp only
  rw [decided_iff inner spec h _ scheduled_ne_ok, nextFault,
    counters_run inner.recorded spec (fresh s) rfl, advance_of pre h]

theorem countP_phase_le (ops : List Op) : ops.countP Op.writePhase ≤ ops.countP Op.isTransfer ∧
    ops.countP Op.readPhase ≤ ops.countP Op.isTransfer := by
  constructor
  · exact List.countP_mono_left fun op _ h => by simp [Op.isTransfer, h]
  · exact List.countP_mono_left fun op _ h => by simp [Op.isTransfer, h]

/-- The run follows the schedule exactly when the window's parameters add up, or the run
ends before the window. -/
theorem follows_iff (inner : I2cBus σ) (spec : FaultSpec) (s : σ) (ops : List Op)
    (hlength : ops.countP Op.isTransfer < 2 ^ 64) : Follows inner spec s ops ↔
      spec.WindowFits ∨ ops.countP Op.isTransfer ≤ spec.dropAfter.toNat := by
  have hcounts : ∀ {pre : List Op} {op : Op} {post : List Op}, ops = pre ++ op :: post →
      (pre ++ [op]).countP Op.isTransfer ≤ ops.countP Op.isTransfer := by
    rintro pre op post rfl
    have happend := @List.countP_append _ Op.isTransfer (pre ++ [op]) post
    rw [← List.append_cons] at happend
    omega
  constructor
  · intro h
    by_contra hnot
    obtain ⟨hfits, hlate⟩ := not_or.mp hnot
    obtain ⟨pre, op, post, hops, hop, hcount⟩ := exists_split_of_lt_countP (not_le.mp hlate)
    have hn : (pre ++ [op]).countP Op.isTransfer = spec.dropAfter.toNat + 1 := by
      rw [List.countP_append, List.countP_singleton, if_pos hop, hcount]
    have hwindow : spec.InWindow ((pre ++ [op]).countP Op.isTransfer) := by
      have hafter := spec.dropAfter.toNat_lt
      unfold FaultSpec.WindowFits at hfits
      unfold FaultSpec.InWindow
      omega
    have hcode := (follows_at_iff inner spec s pre hop).mp (h pre op post hops hop)
    rw [scheduled_of_inWindow hwindow] at hcode
    exact fault_code_ne ((hcounts hops).trans_lt hlength) hfits hcode
  · intro h pre op post hops hop
    have hle := hcounts hops
    obtain ⟨hw, hr⟩ := countP_phase_le (pre ++ [op])
    refine (follows_at_iff inner spec s pre hop).mpr
      (fault_code (hle.trans_lt hlength) ((hw.trans hle).trans_lt hlength)
        ((hr.trans hle).trans_lt hlength) (h.imp id fun hearly hwindow => ?_))
    have := hwindow.2.1
    omega

def probe : Op :=
  .write 0x10 none 1

/-- A window after two operations. -/
theorem follows_dropout :
    Follows fakeInnerBus { dropAfter := 2, dropFor := 3 } .empty [probe, .close, probe, probe] :=
  (follows_iff fakeInnerBus { dropAfter := 2, dropFor := 3 } .empty [probe, .close, probe, probe]
    (by decide)).mpr (.inl (by decide))

/-- A device that drops out for good after its first operation answers the second. -/
theorem not_follows_endless : ¬Follows fakeInnerBus { dropAfter := 1, dropFor := 0xFFFFFFFF }
    .empty [probe, probe] := by
  intro h
  have hdecided := (follows_at_iff fakeInnerBus { dropAfter := 1, dropFor := 0xFFFFFFFF } .empty
    [probe] (by decide)).mp (h [probe] probe [] rfl (by decide))
  exact absurd hdecided (by decide)

end ProviderSdk.I2c

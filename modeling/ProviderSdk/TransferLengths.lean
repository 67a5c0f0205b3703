import ProviderSdk.AttemptCounts

/-!
# The lengths of a transfer

`struct i2c_msg` has 16 bits for a message's length, and the bus narrows the caller's
`size_t` to them. The length it reports back is the caller's.

`moved_iff` : a transfer that succeeded moved every byte it claims exactly when its lengths
are below `2 ^ 16`. A longer one hands the kernel its lengths modulo `2 ^ 16`.
-/

namespace ProviderSdk.I2c

variable {ω : Type} {P : Linux ω}

/-! ## How a loop of calls ended -/

/-- The last call is the one with the outcome, and the calls before it failed. -/
def Ended (msgs : List I2cMsg) (outcome : Outcome) (calls : List RdwrCall) : Prop :=
  ∃ failed, calls = failed ++ [⟨msgs, outcome⟩] ∧
    ∀ call ∈ failed, Outcome.isOk call.outcome = false

theorem Ended.one (msgs : List I2cMsg) (outcome : Outcome) :
    Ended msgs outcome [⟨msgs, outcome⟩] :=
  ⟨[], rfl, by simp⟩

theorem Ended.more {msgs : List I2cMsg} {outcome : Outcome} {calls : List RdwrCall}
    (h : Ended msgs outcome calls) (e : ℤ) : Ended msgs outcome (⟨msgs, .error e⟩ :: calls) := by
  obtain ⟨failed, rfl, hfailed⟩ := h
  refine ⟨⟨msgs, .error e⟩ :: failed, rfl, ?_⟩
  rw [List.forall_mem_cons]
  exact ⟨rfl, hfailed⟩

theorem Looped.ended {msgs : List I2cMsg} {s s' : LinuxState ω} {before : ℕ}
    {last : ℕ × Outcome} {calls : List RdwrCall} (h : Looped msgs s before last calls s') :
    Ended msgs last.2 calls := by
  induction h with
  | last s before outcome world => exact .one msgs outcome
  | again e _ _ ih => exact ih.more e

/-! ## The messages of a transfer -/

/-- The length of the buffer to write from. -/
def Op.txLen : Op → ℕ
  | write _ _ txLen => txLen
  | writeThenRead _ _ txLen _ _ => txLen
  | _ => 0

/-- The bytes a call was asked to read, or to write. -/
def RdwrCall.asked (rd : Bool) (call : RdwrCall) : ℕ :=
  ((call.msgs.filter fun msg => msg.rd = rd).map fun msg => msg.len.toNat).sum

/-- The call was handed the lengths of the transfer, and the count that the caller gets is
what the call was asked to read. -/
structure Moved (op : Op) (reply : Reply) (call : RdwrCall) : Prop where
  tx : call.asked false = op.txLen
  rx : call.asked true = op.rxLen
  received : ∀ n, reply.out.received = some n → n = call.asked true

/-- The reply of a transfer is the outcome of its last call, and reports the caller's length. -/
def Concluded (op : Op) (reply : Reply) (calls : List RdwrCall) : Prop :=
  ∃ outcome, Ended op.msgs outcome calls ∧ reply.status.isOk = Outcome.isOk outcome ∧
    (Outcome.isOk outcome = true → reply.out.received = op.out.received.map fun _ => op.rxLen)

theorem Completed.concluded {op : Op} {s s' : LinuxState ω} {reply : Reply}
    {calls : List RdwrCall} {last : ℕ × Outcome} (h : Completed op s s' reply calls last) :
    Concluded op reply calls := by
  obtain ⟨start, t, hlooped⟩ := h.looped
  exact ⟨last.2, hlooped.ended, h.status, h.received⟩

/-! ## What a transfer moved -/

/-- What the kernel is asked for is the lengths modulo `2 ^ 16`. -/
theorem asked_msgs {op : Op} (htransfer : op.isTransfer = true) (outcome : Outcome) :
    RdwrCall.asked false ⟨op.msgs, outcome⟩ = op.txLen % 2 ^ 16 ∧
      RdwrCall.asked true ⟨op.msgs, outcome⟩ = op.rxLen % 2 ^ 16 := by
  cases op with
  | openBus | close | delayUs => cases htransfer
  | write address tx txLen => simp [RdwrCall.asked, Op.msgs, Op.txLen, Op.rxLen]
  | read address rxLen timeoutUs out => simp [RdwrCall.asked, Op.msgs, Op.txLen, Op.rxLen]
  | writeThenRead address tx txLen rxLen out =>
    -- a message that is left out has length 0
    rcases Nat.eq_zero_or_pos txLen with htx | htx <;>
      rcases Nat.eq_zero_or_pos rxLen with hrx | hrx <;>
      simp [RdwrCall.asked, Op.msgs, Op.txLen, Op.rxLen, combined, htx, hrx]

theorem moved_iff_of_msgs {op : Op} (htransfer : op.isTransfer = true) {reply : Reply}
    (hreceived : reply.out.received = op.out.received.map fun _ => op.rxLen)
    (outcome : Outcome) :
    Moved op reply ⟨op.msgs, outcome⟩ ↔ op.txLen < 2 ^ 16 ∧ op.rxLen < 2 ^ 16 := by
  obtain ⟨htx, hrx⟩ := asked_msgs htransfer outcome
  constructor
  · rintro ⟨h1, h2, -⟩
    rw [htx] at h1
    rw [hrx] at h2
    omega
  · rintro ⟨h1, h2⟩
    have hasked : RdwrCall.asked true ⟨op.msgs, outcome⟩ = op.rxLen := by
      rw [hrx, Nat.mod_eq_of_lt h2]
    refine ⟨by rw [htx, Nat.mod_eq_of_lt h1], hasked, fun n hn => ?_⟩
    rw [hreceived] at hn
    obtain ⟨_, -, rfl⟩ := Option.map_eq_some_iff.mp hn
    exact hasked.symm

/-- A transfer that succeeded moved every byte it claims exactly when its lengths fit the
kernel's message. -/
theorem moved_iff {op : Op} (htransfer : op.isTransfer = true) {fuel : ℕ} {s : LinuxState ω}
    {reply : Reply} (h : (performLinux P fuel op s).value = some reply)
    (hok : reply.status.isOk = true) :
    ∃ failed call, (performLinux P fuel op s).events = failed ++ [call] ∧
      (∀ earlier ∈ failed, Outcome.isOk earlier.outcome = false) ∧
      Outcome.isOk call.outcome = true ∧
      (Moved op reply call ↔ op.txLen < 2 ^ 16 ∧ op.rxLen < 2 ^ 16) := by
  have hrefused : op.refused s.bus = false := by
    rw [← Bool.not_eq_true]
    intro hrefused
    obtain ⟨refusal, hperform, hno⟩ := performLinux_refused (P := P) hrefused fuel
    rw [hperform] at h
    obtain rfl := Option.some.inj h
    rw [hno] at hok
    cases hok
  obtain ⟨last, hcompleted⟩ := performLinux_completed htransfer hrefused h
  obtain ⟨outcome, ⟨failed, hevents, hfailed⟩, hstatus, hreceived⟩ := hcompleted.concluded
  have hcall : Outcome.isOk outcome = true := hstatus ▸ hok
  exact ⟨failed, ⟨op.msgs, outcome⟩, hevents, hfailed, hcall,
    moved_iff_of_msgs htransfer (hreceived hcall) outcome⟩

/-! ### A read of more than the kernel can be asked for -/

/-- `rx_len` is `2 ^ 16 + 1`. -/
def longRead : Op :=
  .read 0x20 65537 0 ⟨some (List.replicate 65537 0), some 0⟩

/-- An open bus, whose next call gives these bytes back. -/
def answering (len : UInt16) (bytes : Bytes) : LinuxState (List Outcome × ℤ) :=
  ⟨{ LinuxI2cBus.new (lit "/dev/i2c-1") 0 with fd := 3, opened := true },
    ([.ok [⟨0x20, true, len, some bytes⟩]], 0)⟩

/-- The read succeeds and reports 65537 bytes. Its one call was asked to read one. -/
theorem not_moved_longRead : ∃ reply call,
    (performLinux scripted 1 longRead (answering 1 (7 :: List.replicate 65536 0))).value =
        some reply ∧
      (performLinux scripted 1 longRead (answering 1 (7 :: List.replicate 65536 0))).events =
        [call] ∧
      reply.status.isOk = true ∧ Outcome.isOk call.outcome = true ∧
      reply.out.received = some 65537 ∧ call.asked true = 1 ∧ ¬Moved longRead reply call := by
  refine ⟨_, _, rfl, rfl, rfl, rfl, rfl, rfl, fun h => ?_⟩
  exact absurd h.rx (by decide)

/-- A read of two bytes. -/
theorem moved_iff_short : ∃ reply failed call,
    (performLinux scripted 1 (.read 0x20 2 0 ⟨some [0, 0], some 0⟩) (answering 2 [7, 9])).value =
        some reply ∧
      (performLinux scripted 1 (.read 0x20 2 0 ⟨some [0, 0], some 0⟩)
        (answering 2 [7, 9])).events = failed ++ [call] ∧
      Moved (.read 0x20 2 0 ⟨some [0, 0], some 0⟩) reply call := by
  have hvalue : (performLinux scripted 1 (.read 0x20 2 0 ⟨some [0, 0], some 0⟩)
      (answering 2 [7, 9])).value = some _ := rfl
  obtain ⟨failed, call, hevents, -, -, hmoved⟩ := moved_iff rfl hvalue rfl
  exact ⟨_, failed, call, hvalue, hevents, hmoved.mpr ⟨by decide, by decide⟩⟩

end ProviderSdk.I2c

import ProviderSdk.RetryBudget
import ProviderSdk.TransferLengths
import ProviderSdk.Lib.Triple

/-!
# The window of a read

A read polls until the device answers or its deadline passes. The loop has no count of its
own : that it ends is up to the clock, which does not go back, and to the pause of 200 µs
between two polls, which lasts as long as it was asked to (`Steady`). Then a read makes one
poll more than there are pauses in its window, at most (`windowed_pollLoop`).

So whatever the kernel answers, every operation returns, and every sequence of operations runs
to its end (`every_run_ends`).
-/

namespace ProviderSdk.I2c

variable {ω : Type} {P : Linux ω} {time : ω → ℤ}

/-! ## The clock -/

/-- The time of the world does not go back, the clock tells it, and a sleep lasts. -/
structure Steady (P : Linux ω) (time : ω → ℤ) : Prop where
  openDevice (path : Bytes) (w : ω) : time w ≤ time (P.openDevice path w).2
  closeDevice (fd : ℤ) (w : ω) : time w ≤ time (P.closeDevice fd w)
  rdwr (fd : ℤ) (msgs : List I2cMsg) (w : ω) : time w ≤ time (P.rdwr fd msgs w).2
  le_now (w : ω) : time w ≤ (P.now w).1
  now_le (w : ω) : (P.now w).1 ≤ time (P.now w).2
  sleepFor (us : ℕ) (w : ω) : time w + 1000 * us ≤ time (P.sleepFor us w)

/-- It is no earlier. -/
def Since (time : ω → ℤ) (start : ℤ) (_ : List RdwrCall) (s : LinuxState ω) : Prop :=
  start ≤ time s.world

namespace Steady

open Traced

theorem now (h : Steady P time) (w : ω) : time w ≤ time (P.now w).2 :=
  (h.le_now w).trans (h.now_le w)

theorem triple_retryLoop (h : Steady P time) (start : ℤ) (msgs : List I2cMsg)
    (n attempts : ℕ) (lastErrno : ℤ) :
    Triple (Since time start) (retryLoop P msgs n attempts lastErrno)
      fun _ => Since time start := by
  induction n generalizing attempts lastErrno with
  | zero => exact .pure fun _ _ hsince => hsince
  | succ n ih =>
    have hrdwr : Triple (Since time start) (I2c.rdwr P msgs) fun _ => Since time start :=
      .observe fun _ s hsince => hsince.trans (h.rdwr _ _ s.world)
    refine hrdwr.bind fun outcome => ?_
    cases outcome with
    | ok answered => exact .pure fun _ _ hsince => hsince
    | error e => exact .ite (fun _ => .pure fun _ _ hsince => hsince) fun _ => ih _ _

theorem le_openBus (h : Steady P time) (s : LinuxState ω) :
    time s.world ≤ time (LinuxI2cBus.openBus P s).state.world := by
  unfold LinuxI2cBus.openBus
  split_ifs
  · exact le_rfl
  · exact le_rfl
  · dsimp only
    split_ifs
    · exact h.openDevice _ _
    · exact h.openDevice _ _

theorem le_close (h : Steady P time) (s : LinuxState ω) :
    time s.world ≤ time (LinuxI2cBus.close P s).state.world := by
  unfold LinuxI2cBus.close
  split_ifs
  · exact h.closeDevice _ _
  · exact le_rfl

theorem le_delayUs (h : Steady P time) (us : UInt32) (s : LinuxState ω) :
    time s.world + 1000 * us.toNat ≤ time (LinuxI2cBus.delayUs P us s).state.world := by
  unfold LinuxI2cBus.delayUs
  by_cases hus : 0 < us
  · rw [if_pos hus]
    exact h.sleepFor us.toNat s.world
  · rw [if_neg hus]
    have hzero : us.toNat = 0 := by
      rw [UInt32.lt_iff_toNat_lt] at hus
      simpa using hus
    simp [hzero]

end Steady

/-! ## The loop -/

/-- One turn of the loop, whatever fuel is left : the device answers, the deadline has passed,
or there is a pause before the next. -/
theorem pollLoop_succ (msgs : List I2cMsg) (deadline : ℤ) (attempts : ℕ) (s : LinuxState ω) :
    let outcome := (P.rdwr s.bus.fd msgs s.world).1
    let w := (P.rdwr s.bus.fd msgs s.world).2
    (Outcome.isOk outcome = true ∧ ∀ fuel, pollLoop P msgs deadline (fuel + 1) attempts s =
        ⟨some (attempts + 1, outcome), ⟨s.bus, w⟩, [⟨msgs, outcome⟩]⟩) ∨
      (deadline ≤ (P.now w).1 ∧ ∀ fuel, pollLoop P msgs deadline (fuel + 1) attempts s =
        ⟨some (attempts + 1, outcome), ⟨s.bus, (P.now w).2⟩, [⟨msgs, outcome⟩]⟩) ∨
      ¬deadline ≤ (P.now w).1 ∧ ∀ fuel,
        let ran := pollLoop P msgs deadline fuel (attempts + 1)
          ⟨s.bus, P.sleepFor 200 (P.now w).2⟩
        pollLoop P msgs deadline (fuel + 1) attempts s =
          ⟨ran.value, ran.state, ⟨msgs, outcome⟩ :: ran.events⟩ := by
  simp only [pollLoop, Traced.bind_apply, rdwr_apply]
  cases (P.rdwr s.bus.fd msgs s.world).1 with
  | ok answered => exact .inl ⟨rfl, fun _ => rfl⟩
  | error e =>
    by_cases htime :
        deadline ≤ (now P { s with world := (P.rdwr s.bus.fd msgs s.world).2 }).value
    · refine .inr (.inl ⟨htime, fun fuel => ?_⟩)
      dsimp only
      rw [Traced.bind_apply, if_pos htime]
      rfl
    · refine .inr (.inr ⟨htime, fun fuel => ?_⟩)
      dsimp only
      rw [Traced.bind_apply, if_neg htime]
      rfl

/-- While `n` pauses pass the deadline, the loop makes `n + 1` polls at most, however much
more fuel it has. It gives up only once the deadline has passed. -/
theorem windowed_pollLoop (h : Steady P time) (msgs : List I2cMsg) (deadline : ℤ) (n : ℕ)
    (attempts : ℕ) (s : LinuxState ω) (hwindow : deadline ≤ time s.world + 200000 * n) :
    ∃ last t calls,
      (∀ fuel, n < fuel → pollLoop P msgs deadline fuel attempts s = ⟨some last, t, calls⟩) ∧
        calls.length ≤ n + 1 ∧ time s.world ≤ time t.world ∧
          (Outcome.isOk last.2 = false → deadline ≤ time t.world) := by
  induction n using Nat.strong_induction_on generalizing attempts s with
  | _ n ih =>
    have hrdwr := h.rdwr s.bus.fd msgs s.world
    have hclock := h.le_now (P.rdwr s.bus.fd msgs s.world).2
    have hafter := h.now_le (P.rdwr s.bus.fd msgs s.world).2
    have hturn : ∀ {fuel}, n < fuel → ∃ rest, fuel = rest + 1 := fun hfuel =>
      Nat.exists_eq_add_one.mpr (Nat.zero_lt_of_lt hfuel)
    obtain ⟨hok, hran⟩ | ⟨htime, hran⟩ | ⟨htime, hran⟩ :=
      pollLoop_succ (P := P) msgs deadline attempts s
    · refine ⟨(attempts + 1, (P.rdwr s.bus.fd msgs s.world).1), ⟨s.bus, _⟩,
        [⟨msgs, (P.rdwr s.bus.fd msgs s.world).1⟩],
        fun fuel hfuel => ?_, Nat.succ_le_succ n.zero_le, hrdwr,
        fun hfail => absurd (hok.symm.trans hfail) (by simp)⟩
      obtain ⟨fuel, rfl⟩ := hturn hfuel
      exact hran fuel
    · refine ⟨(attempts + 1, (P.rdwr s.bus.fd msgs s.world).1), ⟨s.bus, _⟩,
        [⟨msgs, (P.rdwr s.bus.fd msgs s.world).1⟩],
        fun fuel hfuel => ?_, Nat.succ_le_succ n.zero_le, hrdwr.trans (hclock.trans hafter),
        fun _ => htime.trans hafter⟩
      obtain ⟨fuel, rfl⟩ := hturn hfuel
      exact hran fuel
    -- the deadline has not passed, so a pause is left, and after it one less
    · have hsleep := h.sleepFor 200 (P.now (P.rdwr s.bus.fd msgs s.world).2).2
      have hn : n ≠ 0 := by
        rintro rfl
        push_cast at hwindow
        omega
      obtain ⟨n, rfl⟩ := Nat.exists_eq_add_one_of_ne_zero hn
      push_cast at hwindow hsleep
      obtain ⟨last, t, calls, hrest, hlength, hle, hfailed⟩ := ih n n.lt_succ_self (attempts + 1)
        ⟨s.bus, P.sleepFor 200 (P.now (P.rdwr s.bus.fd msgs s.world).2).2⟩
        (by dsimp only; omega)
      dsimp only at hle
      refine ⟨last, t, ⟨msgs, (P.rdwr s.bus.fd msgs s.world).1⟩ :: calls,
        fun fuel hfuel => ?_, Nat.succ_le_succ hlength, by omega, hfailed⟩
      obtain ⟨fuel, rfl⟩ := hturn hfuel
      rw [hran fuel, hrest fuel (Nat.lt_of_succ_lt_succ hfuel)]

/-- As many attempts as the budget allows, at most. -/
theorem length_events_retryLoop_le (msgs : List I2cMsg) (n attempts : ℕ) (lastErrno : ℤ)
    (s : LinuxState ω) : (retryLoop P msgs n attempts lastErrno s).events.length ≤ n := by
  induction n generalizing attempts lastErrno s with
  | zero => exact le_refl 0
  | succ n ih =>
    obtain ⟨-, hran⟩ | ⟨-, e, -, hran⟩ := retryLoop_succ (P := P) msgs n attempts lastErrno s
    · rw [hran]
      exact Nat.succ_le_succ n.zero_le
    · rw [hran]
      exact Nat.succ_le_succ (ih (attempts + 1) e _)

/-! ## Operations -/

/-- The pauses in the window of an operation. -/
def Op.pauses : Op → ℕ
  | read _ _ timeoutUs _ => (timeoutUs.toNat + 199) / 200
  | _ => 0

/-- The calls an operation makes at most. -/
def Op.mostCalls (retryCount : ℤ) : Op → ℕ
  | read _ _ timeoutUs _ => (timeoutUs.toNat + 199) / 200 + 1
  | write _ _ _ => retryCount.toNat + 1
  | writeThenRead _ _ _ _ _ => retryCount.toNat + 1
  | _ => 0

/-- What an operation waits, in nanoseconds : a delay, or the window of a read that times
out. -/
def Op.waited (code : I2cError) : Op → ℕ
  | delayUs us => 1000 * us.toNat
  | read _ _ timeoutUs _ => if code = .timeout then 1000 * timeoutUs.toNat else 0
  | _ => 0

/-- What a write or a write_then_read does : it does not time out, and it keeps its budget. -/
structure Bounded (time : ω → ℤ) (s : LinuxState ω) (code : I2cError) (calls : List RdwrCall)
    (t : LinuxState ω) : Prop where
  code : code ≠ .timeout
  length : calls.length ≤ (maxAttempts s.bus.retryCount).toNat
  le : time s.world ≤ time t.world

theorem Bounded.refused (time : ω → ℤ) (s : LinuxState ω) {code : I2cError}
    (hcode : code ≠ .timeout) : Bounded time s code [] s :=
  ⟨hcode, Nat.zero_le _, le_refl _⟩

/-- A loop of attempts is bounded when it is recorded, then replied to. -/
theorem bounded_retryLoop {α : Type} (h : Steady P time) {msgs : List I2cMsg}
    {k : ℕ × Outcome → OnLinux ω α} (address : UInt8) (code : α → I2cError)
    (hk : ∀ ran, ∃ reply,
      (k ran = record address (Outcome.isOk ran.2) ran.1 >>= fun _ => pure reply) ∧
        code reply ≠ .timeout) (s : LinuxState ω) :
    let done := (retryLoop P msgs (maxAttempts s.bus.retryCount).toNat 0 0 >>= k) s
    Bounded time s (code done.value) done.events done.state := by
  have hlength := length_events_retryLoop_le (P := P) msgs
    (maxAttempts s.bus.retryCount).toNat 0 0 s
  have htime := h.triple_retryLoop (time s.world) msgs (maxAttempts s.bus.retryCount).toNat 0 0
    [] s (le_refl _)
  obtain ⟨reply, hreply, hcode⟩ :=
    hk (retryLoop P msgs (maxAttempts s.bus.retryCount).toNat 0 0 s).value
  rw [Traced.bind_apply, hreply, record_bind]
  exact ⟨hcode, by simpa using hlength, htime⟩

theorem bounded_write (h : Steady P time) (address : UInt8) (tx : Option Bytes) (txLen : ℕ)
    (s : LinuxState ω) :
    let done := LinuxI2cBus.write P address tx txLen s
    Bounded time s done.value.code done.events done.state := by
  rw [LinuxI2cBus.write, getBus_bind]
  by_cases hopen : (!s.bus.opened) = true
  · rw [if_pos hopen]
    exact .refused time s I2cError.noConfusion
  rw [if_neg hopen]
  by_cases hlen : txLen = 0
  · rw [if_pos hlen]
    exact .refused time s I2cError.noConfusion
  rw [if_neg hlen]
  refine bounded_retryLoop h address I2cStatus.code ?_ s
  rintro ⟨attempts, _ | _⟩
  · exact ⟨_, rfl, I2cError.noConfusion⟩
  · exact ⟨_, rfl, I2cError.noConfusion⟩

theorem bounded_writeThenRead (h : Steady P time) (address : UInt8) (tx : Option Bytes)
    (txLen rxLen : ℕ) (out : Receive) (s : LinuxState ω) :
    let done := LinuxI2cBus.writeThenRead P address tx txLen rxLen out s
    Bounded time s done.value.status.code done.events done.state := by
  rw [LinuxI2cBus.writeThenRead, getBus_bind]
  by_cases hopen : (!s.bus.opened) = true
  · rw [if_pos hopen]
    exact .refused time s I2cError.noConfusion
  rw [if_neg hopen]
  by_cases hlen : txLen = 0 ∧ rxLen = 0
  · rw [if_pos hlen]
    exact .refused time s I2cError.noConfusion
  rw [if_neg hlen]
  refine bounded_retryLoop h address (fun reply : Reply => reply.status.code) ?_ s
  rintro ⟨attempts, _ | _⟩
  · exact ⟨_, rfl, I2cError.noConfusion⟩
  · exact ⟨_, rfl, I2cError.noConfusion⟩

/-- How an operation returns, as soon as it has fuel for its window. -/
structure Returns (P : Linux ω) (time : ω → ℤ) (op : Op) (s : LinuxState ω) (reply : Reply)
    (t : LinuxState ω) (calls : List RdwrCall) : Prop where
  returns : ∀ fuel, op.pauses < fuel → performLinux P fuel op s = ⟨some reply, t, calls⟩
  length : 0 ≤ s.bus.retryCount → calls.length ≤ op.mostCalls s.bus.retryCount
  waited : time s.world + op.waited reply.status.code ≤ time t.world
  timeout : reply.status.code = .timeout →
    (∃ address rxLen timeoutUs out, op = .read address rxLen timeoutUs out) ∧ calls ≠ [] ∧
      ∀ call ∈ calls, Outcome.isOk call.outcome = false

/-- What a read replies to the last outcome. -/
def readReply (busPath : Bytes) (rxLen : ℕ) (out : Receive) : Outcome → Reply
  | .ok answered => ⟨.ok, received answered rxLen out⟩
  | .error e => ⟨.failure .timeout (lit "read timed out on " ++ busPath) e, out⟩

/-- The polls of a read. -/
def polls (P : Linux ω) (fuel : ℕ) (address : UInt8) (rxLen : ℕ) (timeoutUs : UInt32)
    (out : Receive) : OnLinux ω (Option (ℕ × Outcome)) := do
  let start ← now P
  pollLoop P [⟨address.toUInt16, true, UInt16.ofNat rxLen, out.data⟩]
    (start + 1000 * timeoutUs.toNat) fuel 0

theorem read_of_polls {address : UInt8} {rxLen : ℕ} {timeoutUs : UInt32} {out : Receive}
    {s t : LinuxState ω} (hopen : ¬(!s.bus.opened) = true) (hlen : rxLen ≠ 0) {fuel : ℕ}
    {attempts : ℕ} {outcome : Outcome} {calls : List RdwrCall}
    (hran : polls P fuel address rxLen timeoutUs out s = ⟨some (attempts, outcome), t, calls⟩) :
    LinuxI2cBus.read P fuel address rxLen timeoutUs out s =
      ⟨some (readReply s.bus.busPath rxLen out outcome),
        (record address (Outcome.isOk outcome) attempts t).state, calls⟩ := by
  rw [LinuxI2cBus.read, getBus_bind, if_neg hopen, if_neg hlen, ← bind_assoc]
  rw [polls] at hran
  rw [Traced.bind_apply, hran]
  cases outcome with
  | ok answered => simp [record_bind, readReply, record]
  | error e => simp [record_bind, readReply, record]

/-- Where the last call failed, all did. -/
theorem Ended.all_failed {msgs : List I2cMsg} {outcome : Outcome} {calls : List RdwrCall}
    (h : Ended msgs outcome calls) (hfailed : Outcome.isOk outcome = false) :
    calls ≠ [] ∧ ∀ call ∈ calls, Outcome.isOk call.outcome = false := by
  obtain ⟨failed, rfl, hall⟩ := h
  refine ⟨by simp, fun call hcall => ?_⟩
  rcases List.mem_append.mp hcall with hcall | hcall
  · exact hall call hcall
  · rw [List.mem_singleton.mp hcall]
    exact hfailed

/-- The polls of a read end within its window, or at its end after failing all along. -/
theorem exists_polls (h : Steady P time) (address : UInt8) (rxLen : ℕ) (timeoutUs : UInt32)
    (out : Receive) (s : LinuxState ω) :
    ∃ last t calls,
      (∀ fuel, (timeoutUs.toNat + 199) / 200 < fuel →
        polls P fuel address rxLen timeoutUs out s = ⟨some last, t, calls⟩) ∧
      calls.length ≤ (timeoutUs.toNat + 199) / 200 + 1 ∧ time s.world ≤ time t.world ∧
      (Outcome.isOk last.2 = false →
        time s.world + 1000 * timeoutUs.toNat ≤ time t.world ∧ calls ≠ [] ∧
          ∀ call ∈ calls, Outcome.isOk call.outcome = false) := by
  have hstart := h.le_now s.world
  have hnow := h.now_le s.world
  obtain ⟨last, t, calls, hran, hlength, hle, hfailed⟩ := windowed_pollLoop h
    [⟨address.toUInt16, true, UInt16.ofNat rxLen, out.data⟩]
    ((P.now s.world).1 + 1000 * timeoutUs.toNat) ((timeoutUs.toNat + 199) / 200) 0
    ⟨s.bus, (P.now s.world).2⟩ (by dsimp only; omega)
  have hended : Ended [⟨address.toUInt16, true, UInt16.ofNat rxLen, out.data⟩] last.2 calls := by
    have hlast := hran _ (Nat.lt_succ_self _)
    have hlooped := looped_pollLoop (P := P)
      [⟨address.toUInt16, true, UInt16.ofNat rxLen, out.data⟩]
      ((P.now s.world).1 + 1000 * timeoutUs.toNat) _ 0 ⟨s.bus, (P.now s.world).2⟩
      (by rw [hlast])
    rw [hlast] at hlooped
    exact hlooped.ended
  dsimp only at hle
  refine ⟨last, t, calls, fun fuel hfuel => ?_, hlength, hstart.trans (hnow.trans hle),
    fun hfail => ⟨?_, hended.all_failed hfail⟩⟩
  · rw [polls, Traced.bind_apply]
    exact hran fuel hfuel
  · have hwaited := hfailed hfail
    omega

/-- A read returns within its window, and times out only at its end. -/
theorem returns_read (h : Steady P time) (address : UInt8) (rxLen : ℕ) (timeoutUs : UInt32)
    (out : Receive) (s : LinuxState ω) :
    ∃ reply t calls, Returns P time (.read address rxLen timeoutUs out) s reply t calls := by
  by_cases hopen : (!s.bus.opened) = true
  · refine ⟨⟨notOpen, out⟩, s, [], fun fuel _ => ?_, fun _ => Nat.zero_le _,
      by simp [Op.waited, notOpen, I2cStatus.failure], I2cError.noConfusion⟩
    rw [performLinux, LinuxI2cBus.read, getBus_bind, if_pos hopen]
    rfl
  by_cases hlen : rxLen = 0
  · refine ⟨⟨.failure .invalidArgument (lit "read requires rx_len>0") 0, out⟩, s, [],
      fun fuel _ => ?_, fun _ => Nat.zero_le _, by simp [Op.waited, I2cStatus.failure],
      I2cError.noConfusion⟩
    rw [performLinux, LinuxI2cBus.read, getBus_bind, if_neg hopen, if_pos hlen]
    rfl
  obtain ⟨⟨attempts, outcome⟩, t, calls, hpolls, hlength, hle, hfailed⟩ :=
    exists_polls h address rxLen timeoutUs out s
  refine ⟨readReply s.bus.busPath rxLen out outcome,
    (record address (Outcome.isOk outcome) attempts t).state, calls,
    fun fuel hfuel => read_of_polls hopen hlen (hpolls fuel hfuel), fun _ => hlength, ?_,
    fun htimeout => ⟨⟨address, rxLen, timeoutUs, out, rfl⟩, ?_⟩⟩
  · cases outcome with
    | ok answered =>
      change time s.world + ((0 : ℕ) : ℤ) ≤ time t.world
      simpa using hle
    | error e =>
      change time s.world + ((1000 * timeoutUs.toNat : ℕ) : ℤ) ≤ time t.world
      exact_mod_cast (hfailed rfl).1
  · cases outcome with
    | ok answered => exact I2cError.noConfusion htimeout
    | error e => exact (hfailed rfl).2

theorem openBus_code (s : LinuxState ω) : (LinuxI2cBus.openBus P s).value.code ≠ .timeout := by
  unfold LinuxI2cBus.openBus
  split_ifs
  · exact I2cError.noConfusion
  · exact I2cError.noConfusion
  · dsimp only
    split_ifs
    · exact I2cError.noConfusion
    · exact I2cError.noConfusion

/-- What is no transfer makes no call. -/
theorem Returns.of_not_transfer {op : Op} (htransfer : op.isTransfer = false)
    {s : LinuxState ω} {reply : Reply}
    (hreply : ∀ fuel, performLinux P fuel op s =
      ⟨some reply, (performLinux P 0 op s).state, (performLinux P 0 op s).events⟩)
    (hcode : reply.status.code ≠ .timeout)
    (hwaited : time s.world + op.waited reply.status.code ≤
      time (performLinux P 0 op s).state.world) :
    Returns P time op s reply (performLinux P 0 op s).state (performLinux P 0 op s).events where
  returns fuel _ := hreply fuel
  length _ := by
    rw [(performLinux_of_not_transfer htransfer 0 s).1]
    exact Nat.zero_le _
  waited := hwaited
  timeout h := absurd h hcode

/-- Every operation returns. -/
theorem exists_returns (h : Steady P time) (op : Op) (s : LinuxState ω) :
    ∃ reply t calls, Returns P time op s reply t calls := by
  cases op with
  | openBus =>
    refine ⟨_, _, _, .of_not_transfer rfl (fun _ => rfl) (openBus_code s) ?_⟩
    change time s.world + ((0 : ℕ) : ℤ) ≤ time (LinuxI2cBus.openBus P s).state.world
    simpa using h.le_openBus s
  | close =>
    refine ⟨_, _, _, .of_not_transfer rfl (fun _ => rfl) I2cError.noConfusion ?_⟩
    change time s.world + ((0 : ℕ) : ℤ) ≤ time (LinuxI2cBus.close P s).state.world
    simpa using h.le_close s
  | delayUs us =>
    refine ⟨_, _, _, .of_not_transfer rfl (fun _ => rfl) I2cError.noConfusion ?_⟩
    change time s.world + ((1000 * us.toNat : ℕ) : ℤ) ≤
      time (LinuxI2cBus.delayUs P us s).state.world
    simpa using h.le_delayUs us s
  | write address tx txLen =>
    obtain ⟨hcode, hlength, hle⟩ := bounded_write h address tx txLen s
    refine ⟨_, _, _, fun _ _ => rfl, fun hretries => ?_, ?_,
      fun htimeout => absurd htimeout hcode⟩
    · simpa [Op.mostCalls] using hlength.trans (toNat_maxAttempts_le hretries)
    · simpa [Op.waited] using hle
  | read address rxLen timeoutUs out => exact returns_read h address rxLen timeoutUs out s
  | writeThenRead address tx txLen rxLen out =>
    obtain ⟨hcode, hlength, hle⟩ := bounded_writeThenRead h address tx txLen rxLen out s
    refine ⟨_, _, _, fun _ _ => rfl, fun hretries => ?_, ?_,
      fun htimeout => absurd htimeout hcode⟩
    · simpa [Op.mostCalls] using hlength.trans (toNat_maxAttempts_le hretries)
    · simpa [Op.waited] using hle

/-! ## Runs -/

/-- What the operations of a run waited. -/
def waited (done : List Performed) : ℕ :=
  (done.map fun p => p.op.waited p.reply.status.code).sum

theorem waited_append (done : List Performed) (p : Performed) :
    waited (done ++ [p]) = waited done + p.op.waited p.reply.status.code := by
  simp [waited]

/-- An operation of a run keeps to its bound, and times out only as a read whose polls all
failed. -/
structure Performed.Kept (retryCount : ℤ) (p : Performed) : Prop where
  length : p.calls.length ≤ p.op.mostCalls retryCount
  timeout : p.reply.status.code = .timeout →
    (∃ address rxLen timeoutUs out, p.op = .read address rxLen timeoutUs out) ∧
      p.calls ≠ [] ∧ ∀ call ∈ p.calls, Outcome.isOk call.outcome = false

/-- Whatever the kernel answers, every sequence of operations runs to its end on a clock that
does not go back : each makes no more calls than its budget or its window allows, and a read
times out only when every poll of it failed. The time that the run takes is no less than what
was asked of it : every delay, and the whole window of every read that timed out. -/
theorem every_run_ends (h : Steady P time) (busPath : Bytes) (retryCount : ℤ) (world : ω)
    (ops : List Op) :
    ∃ done s, Runs P ⟨.new busPath retryCount, world⟩ done s ∧
      done.map Performed.op = ops ∧ (∀ p ∈ done, p.Kept (max retryCount 0)) ∧
        time world + waited done ≤ time s.world := by
  induction ops using List.reverseRecOn with
  | nil => exact ⟨[], _, .start, rfl, by simp, by simp [waited]⟩
  | append_singleton ops op ih =>
    obtain ⟨done, s, hrun, hops, hkept, hwaited⟩ := ih
    have hretries : 0 ≤ s.bus.retryCount := hrun.retryCount ▸ le_max_right _ _
    obtain ⟨reply, t, calls, hreturns, hlength, hle, htimeout⟩ := exists_returns h op s
    have hlength := hlength hretries
    have hperform := hreturns _ (Nat.lt_succ_self _)
    have hnext := hrun.next (op.pauses + 1) op reply (by rw [hperform])
    rw [hperform] at hnext
    rw [hrun.retryCount] at hlength
    refine ⟨_, _, hnext, by simp [hops], fun p hp => ?_, ?_⟩
    · rcases List.mem_append.mp hp with hp | hp
      · exact hkept p hp
      · rw [List.mem_singleton.mp hp]
        exact ⟨hlength, htimeout⟩
    · rw [waited_append]
      push_cast at hwaited hle ⊢
      omega

/-- A scripted clock is steady : only sleeping takes time. -/
theorem steady_scripted : Steady scripted Prod.snd where
  openDevice _ _ := le_refl _
  closeDevice _ _ := le_refl _
  rdwr _ _ _ := le_refl _
  le_now _ := le_refl _
  now_le _ := le_refl _
  sleepFor _ _ := le_refl _

/-- A read of an absent device, with a window of 300 µs. -/
theorem every_run_ends_scripted : ∃ done s,
    Runs scripted ⟨.new (lit "/dev/i2c-1") 0, ([], 0)⟩ done s ∧
      done.map Performed.op = [.openBus, .read 0x10 1 300 {}] ∧ ∀ p ∈ done, p.Kept 0 := by
  obtain ⟨done, s, hrun, hops, hkept, -⟩ :=
    every_run_ends steady_scripted (lit "/dev/i2c-1") 0 ([], 0) [.openBus, .read 0x10 1 300 {}]
  exact ⟨done, s, hrun, hops, hkept⟩

end ProviderSdk.I2c

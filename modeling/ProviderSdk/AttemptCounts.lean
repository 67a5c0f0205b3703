import ProviderSdk.LinuxI2cBus
import Mathlib.Data.List.Count
import Mathlib.Algebra.Order.Group.Nat

/-!
# Every attempt is counted

What the transport counters of a `LinuxI2cBus` say about the `I2C_RDWR` calls it made
(`docs/metrics.md`, transport I/O counters).

The three retry loops run in one way (`Looped`), and a transfer that reaches the transport
replies to how its loop ended (`Completed`). So an operation is a `Transferred` : it made no
call and recorded nothing, or it recorded once what it made. Over a run (`Runs`), the counters
are the tallies of its history.
-/

namespace ProviderSdk.I2c

variable {ω : Type} {P : Linux ω}

/-! ## The loops -/

theorem rdwr_apply (msgs : List I2cMsg) (s : LinuxState ω) : rdwr P msgs s =
    ⟨(P.rdwr s.bus.fd msgs s.world).1, { s with world := (P.rdwr s.bus.fd msgs s.world).2 },
      [⟨msgs, (P.rdwr s.bus.fd msgs s.world).1⟩]⟩ :=
  rfl

/-- What a loop of calls did : calls with the messages, as many as it counted, and nothing to
the bus. -/
structure Called (msgs : List I2cMsg) (s : LinuxState ω) (before after : ℕ)
    (calls : List RdwrCall) (s' : LinuxState ω) : Prop where
  bus : s'.bus = s.bus
  count : after = before + calls.length
  msgs : ∀ call ∈ calls, call.msgs = msgs
  made : calls ≠ []

namespace Called

theorem one (msgs : List I2cMsg) (s : LinuxState ω) (before : ℕ) (outcome : Outcome)
    (world : ω) :
    Called msgs s before (before + 1) [⟨msgs, outcome⟩] { s with world := world } :=
  ⟨rfl, rfl, by simp, by simp⟩

theorem more {msgs : List I2cMsg} {s t s' : LinuxState ω} {before after : ℕ}
    {calls : List RdwrCall} {outcome : Outcome}
    (h : Called msgs t (before + 1) after calls s') (ht : t.bus = s.bus) :
    Called msgs s before after (⟨msgs, outcome⟩ :: calls) s' := by
  obtain ⟨hbus, hcount, hmsgs, -⟩ := h
  refine ⟨hbus.trans ht, ?_, ?_, by simp⟩
  · rw [hcount, List.length_cons]
    omega
  · rw [List.forall_mem_cons]
    exact ⟨rfl, hmsgs⟩

/-- A loop over messages to an address calls that address. -/
theorem addr {msgs : List I2cMsg} {s s' : LinuxState ω} {before after : ℕ}
    {calls : List RdwrCall} (h : Called msgs s before after calls s') {addr : Option UInt16}
    (hmsgs : msgs.head?.map I2cMsg.addr = addr) : ∀ call ∈ calls, call.addr? = addr := by
  intro call hcall
  rw [RdwrCall.addr?, h.msgs call hcall, hmsgs]

end Called

/-- What is not tried again : a success, or an errno other than `EINTR` and `EAGAIN`. -/
def Final : Outcome → Prop
  | .ok _ => True
  | .error e => e ≠ EINTR ∧ e ≠ EAGAIN

instance : DecidablePred Final
  | .ok _ => inferInstanceAs (Decidable True)
  | .error _ => inferInstanceAs (Decidable (_ ∧ _))

/-- One turn of the loop : the attempt is the last, or it is tried again. -/
theorem retryLoop_succ (msgs : List I2cMsg) (n attempts : ℕ) (lastErrno : ℤ)
    (s : LinuxState ω) :
    let outcome := (P.rdwr s.bus.fd msgs s.world).1
    let s' : LinuxState ω := { s with world := (P.rdwr s.bus.fd msgs s.world).2 }
    (Final outcome ∧ retryLoop P msgs (n + 1) attempts lastErrno s =
        ⟨(attempts + 1, outcome), s', [⟨msgs, outcome⟩]⟩) ∨
      ¬Final outcome ∧ ∃ e, outcome = .error e ∧
        retryLoop P msgs (n + 1) attempts lastErrno s =
          ⟨(retryLoop P msgs n (attempts + 1) e s').value,
            (retryLoop P msgs n (attempts + 1) e s').state,
            ⟨msgs, outcome⟩ :: (retryLoop P msgs n (attempts + 1) e s').events⟩ := by
  rw [retryLoop, Traced.bind_apply, rdwr_apply]
  dsimp only
  cases (P.rdwr s.bus.fd msgs s.world).1 with
  | ok answered => exact .inl ⟨trivial, rfl⟩
  | error e =>
    by_cases he : e ≠ EINTR ∧ e ≠ EAGAIN
    · dsimp only
      rw [if_pos he]
      exact .inl ⟨he, rfl⟩
    · dsimp only
      rw [if_neg he]
      exact .inr ⟨he, e, rfl, rfl⟩

/-- How a loop of calls ran, from a state and the attempts so far to the attempts made and the
last outcome : a call that failed is tried again, and no turn touches the bus. -/
inductive Looped (msgs : List I2cMsg) :
    LinuxState ω → ℕ → ℕ × Outcome → List RdwrCall → LinuxState ω → Prop
  | last (s : LinuxState ω) (before : ℕ) (outcome : Outcome) (world : ω) :
    Looped msgs s before (before + 1, outcome) [⟨msgs, outcome⟩] { s with world := world }
  | again {s t s' : LinuxState ω} {before : ℕ} {last : ℕ × Outcome} {calls : List RdwrCall}
    (e : ℤ) (h : Looped msgs t (before + 1) last calls s') (ht : t.bus = s.bus) :
    Looped msgs s before last (⟨msgs, .error e⟩ :: calls) s'

theorem Looped.called {msgs : List I2cMsg} {s s' : LinuxState ω} {before : ℕ}
    {last : ℕ × Outcome} {calls : List RdwrCall} (h : Looped msgs s before last calls s') :
    Called msgs s before last.1 calls s' := by
  induction h with
  | last s before outcome world => exact .one msgs s before outcome world
  | again e _ ht ih => exact ih.more ht

/-- However many attempts are left, one is made. -/
theorem looped_retryLoop (msgs : List I2cMsg) (n attempts : ℕ) (lastErrno : ℤ)
    (s : LinuxState ω) :
    let ran := retryLoop P msgs (n + 1) attempts lastErrno s
    Looped msgs s attempts ran.value ran.events ran.state := by
  induction n generalizing attempts lastErrno s with
  | zero =>
    obtain ⟨-, hran⟩ | ⟨-, e, he, hran⟩ := retryLoop_succ (P := P) msgs 0 attempts lastErrno s
    · rw [hran]
      exact .last s attempts _ _
    · rw [hran, he]
      exact .last s attempts _ _
  | succ n ih =>
    obtain ⟨-, hran⟩ | ⟨-, e, he, hran⟩ :=
      retryLoop_succ (P := P) msgs (n + 1) attempts lastErrno s
    · rw [hran]
      exact .last s attempts _ _
    · rw [hran, he]
      exact .again e (ih (attempts + 1) e _) rfl

theorem looped_pollLoop (msgs : List I2cMsg) (deadline : ℤ) (fuel attempts : ℕ)
    (s : LinuxState ω) ⦃last : ℕ × Outcome⦄
    (h : (pollLoop P msgs deadline fuel attempts s).value = some last) :
    Looped msgs s attempts last (pollLoop P msgs deadline fuel attempts s).events
      (pollLoop P msgs deadline fuel attempts s).state := by
  induction fuel generalizing attempts s with
  | zero => cases h
  | succ fuel ih =>
    rw [pollLoop, Traced.bind_apply, rdwr_apply] at h ⊢
    dsimp only at h ⊢
    cases hcall : (P.rdwr s.bus.fd msgs s.world).1 with
    | ok answered =>
      rw [hcall] at h
      obtain rfl := Option.some.inj h
      exact .last s attempts _ _
    | error e =>
      rw [hcall] at h
      dsimp only at h ⊢
      rw [Traced.bind_apply] at h ⊢
      by_cases htime :
          deadline ≤ (now P { s with world := (P.rdwr s.bus.fd msgs s.world).2 }).value
      · rw [if_pos htime] at h ⊢
        obtain rfl := Option.some.inj h
        exact .last s attempts _ _
      · rw [if_neg htime] at h ⊢
        exact .again e (ih (attempts + 1) _ h) rfl

/-! ## One operation -/

/-- What an operation did to the counters, with its reply and its calls. -/
inductive Transferred (op : Op) (before after : IoStatsMap) (reply : Reply)
    (calls : List RdwrCall) : Prop
  /-- It made no call. -/
  | idle (hcalls : calls = []) (hstats : after = before)
      (hreply : op.isTransfer = true → reply.status.isOk = false)
  /-- It made some, to its address, and recorded them. -/
  | reached (address : UInt8) (haddress : op.address? = some address) (hmade : calls ≠ [])
      (hcalls : ∀ call ∈ calls, call.addr? = some address.toUInt16)
      (hstats : after = before.record address reply.status.isOk calls.length)

/-- The attempts a bus makes at most are not none. -/
theorem maxAttempts_eq_succ (retryCount : ℤ) :
    ∃ n, (maxAttempts retryCount).toNat = n + 1 := by
  have h : 1 ≤ maxAttempts retryCount := le_max_right _ _
  exact ⟨(maxAttempts retryCount).toNat - 1, by omega⟩

/-- They are the retries and one more, or fewer where that wraps. -/
theorem toNat_maxAttempts_le {retryCount : ℤ} (h : 0 ≤ retryCount) :
    (maxAttempts retryCount).toNat ≤ retryCount.toNat + 1 := by
  have hwrap : wrapInt (retryCount + 1) ≤ retryCount + 1 := by
    unfold wrapInt
    rw [Int.bmod_def]
    split <;> omega
  unfold maxAttempts
  omega

/-- The transfers that are refused : the bus is not open, or there is nothing to transfer. -/
def Op.refused (bus : LinuxI2cBus) : Op → Bool
  | .write _ _ txLen => !bus.opened || decide (txLen = 0)
  | .read _ rxLen _ _ => !bus.opened || decide (rxLen = 0)
  | .writeThenRead _ _ txLen rxLen _ => !bus.opened || decide (txLen = 0 ∧ rxLen = 0)
  | _ => false

theorem getBus_bind {α : Type} (f : LinuxI2cBus → OnLinux ω α) (s : LinuxState ω) :
    (getBus >>= f) s = f s.bus s :=
  rfl

theorem record_bind {α : Type} (address : UInt8) (ok : Bool) (attempts : ℕ)
    (f : Unit → OnLinux ω α) (s : LinuxState ω) :
    (record address ok attempts >>= f) s = f () { s with bus :=
      { s.bus with ioStats := s.bus.ioStats.record address ok attempts } } :=
  rfl

/-- A refused transfer fails, and that is all it does. -/
theorem performLinux_refused {op : Op} {s : LinuxState ω} (h : op.refused s.bus = true)
    (fuel : ℕ) :
    ∃ reply, performLinux P fuel op s = ⟨some reply, s, []⟩ ∧ reply.status.isOk = false := by
  cases op with
  | openBus | close | delayUs => cases h
  | write address tx txLen =>
    rw [Op.refused, Bool.or_eq_true, decide_eq_true_eq] at h
    rw [performLinux, Traced.bind_apply, LinuxI2cBus.write, getBus_bind]
    by_cases hopen : (!s.bus.opened) = true
    · rw [if_pos hopen]
      exact ⟨_, rfl, rfl⟩
    · rw [if_neg hopen, if_pos (h.resolve_left hopen)]
      exact ⟨_, rfl, rfl⟩
  | read address rxLen timeoutUs out =>
    rw [Op.refused, Bool.or_eq_true, decide_eq_true_eq] at h
    rw [performLinux, LinuxI2cBus.read, getBus_bind]
    by_cases hopen : (!s.bus.opened) = true
    · rw [if_pos hopen]
      exact ⟨_, rfl, rfl⟩
    · rw [if_neg hopen, if_pos (h.resolve_left hopen)]
      exact ⟨_, rfl, rfl⟩
  | writeThenRead address tx txLen rxLen out =>
    rw [Op.refused, Bool.or_eq_true, decide_eq_true_eq] at h
    rw [performLinux, Traced.bind_apply, LinuxI2cBus.writeThenRead, getBus_bind]
    by_cases hopen : (!s.bus.opened) = true
    · rw [if_pos hopen]
      exact ⟨_, rfl, rfl⟩
    · rw [if_neg hopen, if_pos (h.resolve_left hopen)]
      exact ⟨_, rfl, rfl⟩

/-- The messages that a transfer hands to `I2C_RDWR`. -/
def Op.msgs : Op → List I2cMsg
  | write address tx txLen => [⟨address.toUInt16, false, UInt16.ofNat txLen, tx⟩]
  | read address rxLen _ out => [⟨address.toUInt16, true, UInt16.ofNat rxLen, out.data⟩]
  | writeThenRead address tx txLen rxLen out => combined address tx txLen rxLen out
  | _ => []

/-- A transfer that reached the transport : its loop, whose end it recorded and replies to. -/
structure Completed (op : Op) (s s' : LinuxState ω) (reply : Reply) (calls : List RdwrCall)
    (last : ℕ × Outcome) : Prop where
  looped : ∃ start t : LinuxState ω, Looped op.msgs start 0 last calls t
  recorded : ∃ address, op.address? = some address ∧
    s'.bus.ioStats = s.bus.ioStats.record address (Outcome.isOk last.2) last.1
  status : reply.status.isOk = Outcome.isOk last.2
  received : Outcome.isOk last.2 = true →
    reply.out.received = op.out.received.map fun _ => op.rxLen

/-- What a write or a write_then_read makes of its loop, whose end it records and replies to. -/
structure Retried (op : Op) (ran : Ran RdwrCall (LinuxState ω) (ℕ × Outcome)) (reply : Reply)
    (s' : LinuxState ω) (calls : List RdwrCall) : Prop where
  calls : calls = ran.events
  recorded : ∃ address, op.address? = some address ∧ s'.bus.ioStats =
    ran.state.bus.ioStats.record address (Outcome.isOk ran.value.2) ran.value.1
  isOk : reply.status.isOk = Outcome.isOk ran.value.2
  errno : ∀ e, ran.value.2 = .error e → reply.status.nativeErrno = e
  received : Outcome.isOk ran.value.2 = true →
    reply.out.received = op.out.received.map fun _ => op.rxLen

theorem performLinux_retried {op : Op} {s : LinuxState ω} (hop : op.writePhase = true)
    (hrefused : op.refused s.bus = false) (fuel : ℕ) :
    let done := performLinux P fuel op s
    ∃ reply, done.value = some reply ∧
      Retried op (retryLoop P op.msgs (maxAttempts s.bus.retryCount).toNat 0 0 s) reply
        done.state done.events := by
  cases op with
  | openBus | close | delayUs | read => cases hop
  | write address tx txLen =>
    obtain ⟨hopen, hlen⟩ : s.bus.opened = true ∧ txLen ≠ 0 := by
      simpa [Op.refused] using hrefused
    rw [performLinux, Traced.bind_apply, LinuxI2cBus.write, getBus_bind,
      if_neg (by simp [hopen]), if_neg hlen, Traced.bind_apply, Op.msgs]
    dsimp only
    generalize retryLoop P _ _ 0 0 s = ran
    obtain ⟨⟨attempts, outcome⟩, s', calls⟩ := ran
    cases outcome with
    | ok answered =>
      simp only [record_bind, Traced.pure_apply, List.append_nil]
      exact ⟨_, rfl, rfl, ⟨address, rfl, rfl⟩, rfl, by simp, fun _ => rfl⟩
    | error e =>
      simp only [record_bind, Traced.pure_apply, List.append_nil]
      exact ⟨_, rfl, rfl, ⟨address, rfl, rfl⟩, rfl, fun _ he => Except.error.inj he,
        fun h => absurd h Bool.false_ne_true⟩
  | writeThenRead address tx txLen rxLen out =>
    obtain ⟨hopen, hlen⟩ : s.bus.opened = true ∧ ¬(txLen = 0 ∧ rxLen = 0) := by
      simpa [Op.refused] using hrefused
    rw [performLinux, Traced.bind_apply, LinuxI2cBus.writeThenRead, getBus_bind,
      if_neg (by simp [hopen]), if_neg hlen, Traced.bind_apply, Op.msgs]
    dsimp only
    generalize retryLoop P _ _ 0 0 s = ran
    obtain ⟨⟨attempts, outcome⟩, s', calls⟩ := ran
    cases outcome with
    | ok answered =>
      simp only [record_bind, Traced.pure_apply, List.append_nil]
      exact ⟨_, rfl, rfl, ⟨address, rfl, rfl⟩, rfl, by simp, fun _ => rfl⟩
    | error e =>
      simp only [record_bind, Traced.pure_apply, List.append_nil]
      exact ⟨_, rfl, rfl, ⟨address, rfl, rfl⟩, rfl, fun _ he => Except.error.inj he,
        fun h => absurd h Bool.false_ne_true⟩

theorem Retried.completed {op : Op} {s s' : LinuxState ω} {reply : Reply}
    {calls : List RdwrCall}
    (h : Retried op (retryLoop P op.msgs (maxAttempts s.bus.retryCount).toNat 0 0 s) reply s'
      calls) :
    ∃ last, Completed op s s' reply calls last := by
  obtain ⟨n, hn⟩ := maxAttempts_eq_succ s.bus.retryCount
  have hlooped := looped_retryLoop (P := P) op.msgs n 0 0 s
  rw [← hn] at hlooped
  obtain ⟨rfl, ⟨address, haddress, hstats⟩, hok, -, hreceived⟩ := h
  refine ⟨_, ⟨s, _, hlooped⟩, ⟨address, haddress, ?_⟩, hok, hreceived⟩
  rw [hstats, hlooped.called.bus]

theorem read_completed {address : UInt8} {rxLen : ℕ} {timeoutUs : UInt32} {out : Receive}
    {s : LinuxState ω} (hopen : s.bus.opened = true) (hlen : rxLen ≠ 0) {fuel : ℕ}
    {reply : Reply}
    (h : (LinuxI2cBus.read P fuel address rxLen timeoutUs out s).value = some reply) :
    let ran := LinuxI2cBus.read P fuel address rxLen timeoutUs out s
    ∃ last, Completed (.read address rxLen timeoutUs out) s ran.state reply ran.events last := by
  have hclosed : ¬(!s.bus.opened) = true := by simp [hopen]
  rw [LinuxI2cBus.read, getBus_bind, if_neg hclosed, if_neg hlen, Traced.bind_apply,
    Traced.bind_apply] at h ⊢
  have hlooped := looped_pollLoop (P := P)
    [⟨address.toUInt16, true, UInt16.ofNat rxLen, out.data⟩]
    ((now P s).value + 1000 * timeoutUs.toNat) fuel 0 (now P s).state
  dsimp only at h hlooped ⊢
  revert h hlooped
  generalize pollLoop P _ _ fuel 0 (now P s).state = ran
  obtain ⟨polled, s', calls⟩ := ran
  intro h hlooped
  cases polled with
  | none => cases h
  | some ran =>
    obtain ⟨attempts, outcome⟩ := ran
    have hran := hlooped rfl
    have hbus : s'.bus = s.bus := hran.called.bus
    refine ⟨(attempts, outcome), ?_⟩
    cases outcome with
    | ok answered =>
      obtain rfl := Option.some.inj h
      simp only [record_bind, Traced.pure_apply, List.append_nil]
      exact ⟨⟨(now P s).state, s', hran⟩, ⟨address, rfl, by rw [hbus]⟩, rfl, fun _ => rfl⟩
    | error e =>
      obtain rfl := Option.some.inj h
      simp only [record_bind, Traced.pure_apply, List.append_nil]
      exact ⟨⟨(now P s).state, s', hran⟩, ⟨address, rfl, by rw [hbus]⟩, rfl,
        fun h => absurd h Bool.false_ne_true⟩

/-- A transfer that is not refused is `Completed`. -/
theorem performLinux_completed {op : Op} (htransfer : op.isTransfer = true) {fuel : ℕ}
    {s : LinuxState ω} (hrefused : op.refused s.bus = false) {reply : Reply}
    (h : (performLinux P fuel op s).value = some reply) :
    ∃ last, Completed op s (performLinux P fuel op s).state reply
      (performLinux P fuel op s).events last := by
  cases op with
  | openBus | close | delayUs => cases htransfer
  | write | writeThenRead =>
    obtain ⟨_, hreply, hretried⟩ := performLinux_retried rfl hrefused fuel
    obtain rfl := Option.some.inj (hreply.symm.trans h)
    exact hretried.completed
  | read address rxLen timeoutUs out =>
    obtain ⟨hopen, hlen⟩ : s.bus.opened = true ∧ rxLen ≠ 0 := by
      simpa [Op.refused] using hrefused
    exact read_completed hopen hlen h

/-- The messages of one transfer have its address. -/
theorem head?_msgs {op : Op} {bus : LinuxI2cBus} (hrefused : op.refused bus = false)
    {address : UInt8} (haddress : op.address? = some address) :
    op.msgs.head?.map I2cMsg.addr = some address.toUInt16 := by
  cases op with
  | openBus | close | delayUs => cases haddress
  | write | read =>
    obtain rfl := Option.some.inj haddress
    rfl
  | writeThenRead address' tx txLen rxLen out =>
    obtain rfl := Option.some.inj haddress
    have hlen : ¬(txLen = 0 ∧ rxLen = 0) := by
      rw [Op.refused, Bool.or_eq_false_iff, decide_eq_false_iff_not] at hrefused
      exact hrefused.2
    rw [Op.msgs, combined]
    by_cases htx : 0 < txLen
    · rw [if_pos htx]
      rfl
    · have hrx : 0 < rxLen := by omega
      rw [if_neg htx, if_pos hrx]
      rfl

/-- A transfer that completed recorded once the calls it made. -/
theorem Completed.transferred {op : Op} {s s' : LinuxState ω} {reply : Reply}
    {calls : List RdwrCall} {last : ℕ × Outcome} (h : Completed op s s' reply calls last)
    (hrefused : op.refused s.bus = false) :
    Transferred op s.bus.ioStats s'.bus.ioStats reply calls := by
  obtain ⟨start, t, hlooped⟩ := h.looped
  obtain ⟨address, haddress, hstats⟩ := h.recorded
  have hcalled : Called op.msgs start 0 last.1 calls t := hlooped.called
  refine .reached address haddress hcalled.made
    (hcalled.addr (head?_msgs hrefused haddress)) ?_
  rw [hstats, h.status, hcalled.count, zero_add]

/-- An operation that is no transfer has nothing to count. -/
theorem performLinux_of_not_transfer {op : Op} (h : op.isTransfer = false) (fuel : ℕ)
    (s : LinuxState ω) :
    (performLinux P fuel op s).events = [] ∧
      (performLinux P fuel op s).state.bus.ioStats = s.bus.ioStats := by
  cases op with
  | openBus =>
    rw [performLinux, Traced.bind_apply, LinuxI2cBus.openBus]
    split_ifs
    · exact ⟨rfl, rfl⟩
    · exact ⟨rfl, rfl⟩
    · dsimp only
      split_ifs
      · exact ⟨rfl, rfl⟩
      · exact ⟨rfl, rfl⟩
  | close =>
    rw [performLinux, Traced.bind_apply, LinuxI2cBus.close]
    split_ifs
    · exact ⟨rfl, rfl⟩
    · exact ⟨rfl, rfl⟩
  | delayUs us =>
    rw [performLinux, Traced.bind_apply, LinuxI2cBus.delayUs]
    split_ifs
    · exact ⟨rfl, rfl⟩
    · exact ⟨rfl, rfl⟩
  | write | read | writeThenRead => cases h

/-- Every operation that returns is a `Transferred`. -/
theorem performLinux_transferred {op : Op} {fuel : ℕ} {s : LinuxState ω} {reply : Reply}
    (h : (performLinux P fuel op s).value = some reply) :
    Transferred op s.bus.ioStats (performLinux P fuel op s).state.bus.ioStats reply
      (performLinux P fuel op s).events := by
  by_cases htransfer : op.isTransfer = false
  · obtain ⟨hevents, hstats⟩ := performLinux_of_not_transfer (P := P) htransfer fuel s
    exact .idle hevents hstats fun h => absurd htransfer (by simp [h])
  by_cases hrefused : op.refused s.bus = true
  · obtain ⟨refusal, hperform, hok⟩ := performLinux_refused (P := P) hrefused fuel
    rw [hperform] at h ⊢
    obtain rfl := Option.some.inj h
    exact .idle rfl rfl fun _ => hok
  · rw [Bool.not_eq_false] at htransfer
    rw [Bool.not_eq_true] at hrefused
    obtain ⟨last, hcompleted⟩ := performLinux_completed htransfer hrefused h
    exact hcompleted.transferred hrefused

/-! ## Runs -/

/-- An operation that returned, with its reply and its calls. -/
structure Performed where
  op : Op
  reply : Reply
  calls : List RdwrCall

/-- The runs from a state, with their histories, at the points between operations. -/
inductive Runs (P : Linux ω) (start : LinuxState ω) : List Performed → LinuxState ω → Prop
  | start : Runs P start [] start
  | next {done : List Performed} {s : LinuxState ω} (h : Runs P start done s) (fuel : ℕ)
    (op : Op) (reply : Reply) (hreply : (performLinux P fuel op s).value = some reply) :
    Runs P start (done ++ [⟨op, reply, (performLinux P fuel op s).events⟩])
      (performLinux P fuel op s).state

/-- The operations at an address that returned `Ok`. -/
def okOps (done : List Performed) (address : UInt8) : ℕ :=
  done.countP fun p => p.op.address? = some address ∧ p.reply.status.isOk

/-- Those that returned an error after a call. -/
def failedOps (done : List Performed) (address : UInt8) : ℕ :=
  done.countP fun p =>
    p.op.address? = some address ∧ p.reply.status.isOk = false ∧ p.calls.isEmpty = false

/-- The calls beyond the first of each operation. -/
def retries (done : List Performed) (address : UInt8) : ℕ :=
  (done.map fun p => if p.op.address? = some address then p.calls.length - 1 else 0).sum

/-- The `I2C_RDWR` calls for an address, by whichever operation. -/
def callsTo (done : List Performed) (address : UInt8) : List RdwrCall :=
  (done.flatMap Performed.calls).filter fun call => call.addr? = some address.toUInt16

/-- The counters of an address hold its tallies. -/
structure NoWrap (done : List Performed) (address : UInt8) : Prop where
  ok : okOps done address < 2 ^ 64
  failed : failedOps done address < 2 ^ 64
  retried : retries done address < 2 ^ 64

/-- The tallies as counters. -/
def tally (done : List Performed) (address : UInt8) : IoStats where
  ok := .ofNat (okOps done address)
  failed := .ofNat (failedOps done address)
  retriedAttempts := .ofNat (retries done address)

/-! ### One more operation -/

section

variable (done : List Performed) (p : Performed) (address : UInt8)

theorem okOps_append : okOps (done ++ [p]) address = okOps done address +
    if p.op.address? = some address ∧ p.reply.status.isOk = true then 1 else 0 := by
  simp [okOps, List.countP_append, List.countP_singleton]

theorem failedOps_append : failedOps (done ++ [p]) address = failedOps done address +
    if p.op.address? = some address ∧ p.reply.status.isOk = false ∧ p.calls.isEmpty = false
    then 1 else 0 := by
  simp [failedOps, List.countP_append, List.countP_singleton]

theorem retries_append : retries (done ++ [p]) address = retries done address +
    if p.op.address? = some address then p.calls.length - 1 else 0 := by
  simp [retries]

theorem callsTo_append : callsTo (done ++ [p]) address = callsTo done address ++
    p.calls.filter fun call => call.addr? = some address.toUInt16 := by
  simp [callsTo]

end

/-- An operation leaves the tallies of an address it did not call. -/
theorem tallies_of_idle {p : Performed} {address : UInt8}
    (h : p.op.address? ≠ some address ∨ (p.calls = [] ∧ p.reply.status.isOk = false))
    (done : List Performed) :
    okOps (done ++ [p]) address = okOps done address ∧
      failedOps (done ++ [p]) address = failedOps done address ∧
      retries (done ++ [p]) address = retries done address := by
  rw [okOps_append, failedOps_append, retries_append]
  obtain h | ⟨hcalls, hok⟩ := h
  · simp [h]
  · simp [hcalls, hok]

theorem toUInt16_inj {a b : UInt8} (h : a.toUInt16 = b.toUInt16) : a = b := by
  have h' := congrArg UInt16.toNat h
  rw [UInt8.toNat_toUInt16, UInt8.toNat_toUInt16] at h'
  exact UInt8.toNat_inj.mp h'

/-- What holds between operations : the counters are the tallies, and every call is in one. -/
structure Counted (done : List Performed) (stats : IoStatsMap) (address : UInt8) : Prop where
  stats : stats address = tally done address
  calls : (callsTo done address).length =
    okOps done address + failedOps done address + retries done address

/-- An operation that did not count at an address keeps it counted. -/
theorem Counted.idle {done : List Performed} {before after : IoStatsMap} {p : Performed}
    {address : UInt8} (h : Counted done before address)
    (hidle : p.op.address? ≠ some address ∨ (p.calls = [] ∧ p.reply.status.isOk = false))
    (hstats : after address = before address)
    (hcalls : ∀ call ∈ p.calls, call.addr? ≠ some address.toUInt16) :
    Counted (done ++ [p]) after address := by
  obtain ⟨hok, hfailed, hretries⟩ := tallies_of_idle hidle done
  constructor
  · rw [hstats, h.stats, tally, tally, hok, hfailed, hretries]
  · have hfilter :
        (p.calls.filter fun call => call.addr? = some address.toUInt16) = [] := by
      rw [List.filter_eq_nil_iff]
      exact fun call hcall => by simpa using hcalls call hcall
    rw [callsTo_append, hfilter, List.append_nil, h.calls, hok, hfailed, hretries]

/-- One that called it is counted in the counter its reply says, and its calls beyond the
first as retries. -/
theorem Counted.reached {done : List Performed} {stats : IoStatsMap} {p : Performed}
    {address : UInt8} (h : Counted done stats address) (haddress : p.op.address? = some address)
    (hmade : p.calls ≠ []) (hcalls : ∀ call ∈ p.calls, call.addr? = some address.toUInt16) :
    Counted (done ++ [p]) (stats.record address p.reply.status.isOk p.calls.length) address := by
  have hlength : 1 ≤ p.calls.length := List.length_pos_iff.mpr hmade
  have hempty : p.calls.isEmpty = false := by simpa using hmade
  have hretries : (if 1 < p.calls.length then UInt64.ofNat (p.calls.length - 1) else 0) =
      UInt64.ofNat (p.calls.length - 1) := by
    split_ifs with h1
    · rfl
    · rw [show p.calls.length - 1 = 0 by omega]
      rfl
  have hfilter :
      (p.calls.filter fun call => call.addr? = some address.toUInt16) = p.calls := by
    rw [List.filter_eq_self]
    exact fun call hcall => by simpa using hcalls call hcall
  constructor
  · rw [IoStatsMap.record_same, h.stats, hretries, tally, tally, okOps_append,
      failedOps_append, retries_append, if_pos haddress, UInt64.ofNat_add]
    cases hok : p.reply.status.isOk <;> simp [haddress, hempty, UInt64.ofNat_add]
  · rw [callsTo_append, hfilter, List.length_append, h.calls, okOps_append, failedOps_append,
      retries_append, if_pos haddress]
    cases hok : p.reply.status.isOk
    · simp only [haddress, hempty]
      simp
      omega
    · simp [haddress]
      omega

theorem Counted.step {done : List Performed} {op : Op} {before after : IoStatsMap}
    {reply : Reply} {calls : List RdwrCall} {address : UInt8} (h : Counted done before address)
    (hop : Transferred op before after reply calls) :
    Counted (done ++ [⟨op, reply, calls⟩]) after address := by
  cases hop with
  | idle hcalls hstats hreply =>
    subst hcalls hstats
    refine h.idle ?_ rfl (by simp)
    by_cases hop : op.address? = some address
    · refine .inr ⟨rfl, hreply ?_⟩
      rw [Op.isTransfer_eq, hop]
      rfl
    · exact .inl hop
  | reached called hcalled hmade hcalls hstats =>
    subst hstats
    by_cases hsame : address = called
    · subst hsame
      exact h.reached (p := ⟨op, reply, calls⟩) hcalled hmade hcalls
    · refine h.idle (.inl ?_) (IoStatsMap.record_of_ne _ hsame _ _) fun call hcall => ?_
      · rw [hcalled]
        exact fun h => hsame (Option.some.inj h).symm
      · rw [hcalls call hcall]
        exact fun h => hsame (toUInt16_inj (Option.some.inj h)).symm

theorem counted_of_runs {busPath : Bytes} {retryCount : ℤ} {world : ω} {done : List Performed}
    {s : LinuxState ω} (h : Runs P ⟨.new busPath retryCount, world⟩ done s) (address : UInt8) :
    Counted done s.bus.ioStats address := by
  induction h with
  | start => exact ⟨rfl, rfl⟩
  | next _ _ _ _ hreply ih => exact ih.step (performLinux_transferred hreply)

/-! ### The counters, until they wrap -/

theorem Counted.toNat {done : List Performed} {stats : IoStatsMap} {address : UInt8}
    (h : Counted done stats address) (hfits : NoWrap done address) :
    (stats address).ok.toNat = okOps done address ∧
      (stats address).failed.toNat = failedOps done address ∧
      (stats address).retriedAttempts.toNat = retries done address := by
  obtain ⟨hok, hfailed, hretried⟩ := hfits
  rw [h.stats, tally]
  exact ⟨UInt64.toNat_ofNat_of_lt' hok, UInt64.toNat_ofNat_of_lt' hfailed,
    UInt64.toNat_ofNat_of_lt' hretried⟩

/-- No counter is less than it was. -/
structure IoStats.Le (before after : IoStats) : Prop where
  ok : before.ok ≤ after.ok
  failed : before.failed ≤ after.failed
  retriedAttempts : before.retriedAttempts ≤ after.retriedAttempts

theorem Counted.le {done : List Performed} {before after : IoStatsMap} {p : Performed}
    {address : UInt8} (hbefore : Counted done before address)
    (hafter : Counted (done ++ [p]) after address) (hfits : NoWrap (done ++ [p]) address) :
    (before address).Le (after address) := by
  obtain ⟨hok, hfailed, hretried⟩ := hafter.toNat hfits
  rw [okOps_append] at hok
  rw [failedOps_append] at hfailed
  rw [retries_append] at hretried
  have hfits' : NoWrap done address := by
    obtain ⟨hok', hfailed', hretried'⟩ := hfits
    rw [okOps_append] at hok'
    rw [failedOps_append] at hfailed'
    rw [retries_append] at hretried'
    exact ⟨by omega, by omega, by omega⟩
  obtain ⟨hok', hfailed', hretried'⟩ := hbefore.toNat hfits'
  constructor
  · rw [UInt64.le_iff_toNat_le]
    omega
  · rw [UInt64.le_iff_toNat_le]
    omega
  · rw [UInt64.le_iff_toNat_le]
    omega

/-- Between any two operations of any run, and for every address, the calls made to it are
`ok + failed + retried_attempts`, `ok` is the operations that returned `Ok` and `failed` those
that returned an error after a call. Whatever operation comes next, it changes nothing if it is
refused or at another address, and it takes no counter back. -/
theorem attempts_conserved (P : Linux ω) (busPath : Bytes) (retryCount : ℤ) (world : ω)
    {done : List Performed} {s : LinuxState ω}
    (hrun : Runs P ⟨.new busPath retryCount, world⟩ done s) (address : UInt8) :
    (NoWrap done address →
      (callsTo done address).length =
          (s.bus.ioStats address).ok.toNat + (s.bus.ioStats address).failed.toNat +
            (s.bus.ioStats address).retriedAttempts.toNat ∧
        (s.bus.ioStats address).ok.toNat = okOps done address ∧
        (s.bus.ioStats address).failed.toNat = failedOps done address) ∧
      ∀ (fuel : ℕ) (op : Op) (reply : Reply),
        (performLinux P fuel op s).value = some reply →
          (op.refused s.bus = true → (performLinux P fuel op s).events = [] ∧
            (performLinux P fuel op s).state.bus.ioStats = s.bus.ioStats) ∧
          (op.address? ≠ some address →
            (performLinux P fuel op s).state.bus.ioStats address = s.bus.ioStats address) ∧
          (NoWrap (done ++ [⟨op, reply, (performLinux P fuel op s).events⟩]) address →
            (s.bus.ioStats address).Le
              ((performLinux P fuel op s).state.bus.ioStats address)) := by
  have hcounted := counted_of_runs hrun address
  refine ⟨fun hfits => ?_, fun fuel op reply hreply => ⟨fun hrefused => ?_, fun hother => ?_,
    hcounted.le (hcounted.step (performLinux_transferred hreply))⟩⟩
  · obtain ⟨hok, hfailed, hretried⟩ := hcounted.toNat hfits
    exact ⟨by rw [hcounted.calls, hok, hfailed, hretried], hok, hfailed⟩
  · obtain ⟨refusal, hperform, -⟩ := performLinux_refused (P := P) hrefused fuel
    rw [hperform]
    exact ⟨rfl, rfl⟩
  · cases performLinux_transferred hreply with
    | idle hcalls hstats hok => rw [hstats]
    | reached called hcalled hmade hcalls hstats =>
      rw [hstats]
      refine IoStatsMap.record_of_ne _ (fun h => hother ?_) _ _
      rw [hcalled, h]

/-- A kernel that gives the outcomes of a script, then errors, with a clock that sleeping
advances. -/
def scripted : Linux (List Outcome × ℤ) where
  openDevice _ w := ((3, 0), w)
  closeDevice _ w := w
  rdwr _ _ w := (w.1.headD (.error 5), (w.1.tail, w.2))
  now w := (w.2, w)
  sleepFor us w := (w.1, w.2 + 1000 * us)
  strerror _ := []

/-- A write that is answered at the second attempt. -/
theorem attempts_conserved_scripted : ∃ done s,
    Runs scripted ⟨.new (lit "/dev/i2c-1") 2, ([.error EAGAIN, .ok []], 0)⟩ done s ∧
      2 = (s.bus.ioStats 0x10).ok.toNat + (s.bus.ioStats 0x10).failed.toNat +
        (s.bus.ioStats 0x10).retriedAttempts.toNat ∧
      (s.bus.ioStats 0x10).ok.toNat = 1 ∧ (s.bus.ioStats 0x10).failed.toNat = 0 := by
  have hrun : Runs scripted ⟨.new (lit "/dev/i2c-1") 2, ([.error EAGAIN, .ok []], 0)⟩ _ _ :=
    .next (.next .start 0 .openBus ⟨.ok, {}⟩ rfl) 0 (.write 0x10 (some [7]) 1) ⟨.ok, {}⟩ rfl
  exact ⟨_, _, hrun, (attempts_conserved scripted _ _ _ hrun 0x10).1
    ⟨by decide, by decide, by decide⟩⟩

end ProviderSdk.I2c

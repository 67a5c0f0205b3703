import ProviderSdk.AttemptCounts
import Mathlib.Order.Bounds.Basic

/-!
# The retry budget

`retry_count` is the number of times that `LinuxI2cBus` may try a write or a write_then_read
again. An attempt is the last if its outcome is `Final`, or if the budget is spent, and the
status is the outcome of the last attempt (`BudgetHonoured`).

The code computes the attempts it may make as an `int`, and `INT_MAX + 1` is none. With any
other `retry_count` the budget is honoured, and with `INT_MAX` only if the first attempt is
the last anyway (`budget_honoured_iff`).
-/

namespace ProviderSdk.I2c

variable {ω : Type} {P : Linux ω}

/-! ## Attempts -/

/-- The outcomes of one `I2C_RDWR` after another, as many as are made. -/
def outcomes (P : Linux ω) (fd : ℤ) (msgs : List I2cMsg) : ω → ℕ → Outcome
  | w, 0 => (P.rdwr fd msgs w).1
  | w, i + 1 => outcomes P fd msgs (P.rdwr fd msgs w).2 i

/-- The attempts with these outcomes, up to the first that is final, or that nothing is left
after. -/
structure Attempted (budget : ℕ) (outcomes : ℕ → Outcome) (msgs : List I2cMsg) (last : ℕ)
    (calls : List RdwrCall) : Prop where
  isLeast : IsLeast {i | Final (outcomes i) ∨ budget ≤ i} last
  calls : calls = (List.range (last + 1)).map fun i => ⟨msgs, outcomes i⟩

namespace Attempted

variable {outcomes : ℕ → Outcome} {msgs : List I2cMsg} {budget : ℕ}

theorem one (h : Final (outcomes 0) ∨ budget = 0) :
    Attempted budget outcomes msgs 0 [⟨msgs, outcomes 0⟩] :=
  ⟨⟨h.imp_right Nat.le_of_eq, fun _ _ => Nat.zero_le _⟩, rfl⟩

theorem more {last : ℕ} {calls : List RdwrCall} (h : ¬Final (outcomes 0))
    (hrest : Attempted budget (fun i => outcomes (i + 1)) msgs last calls) :
    Attempted (budget + 1) outcomes msgs (last + 1) (⟨msgs, outcomes 0⟩ :: calls) := by
  obtain ⟨⟨hmem, hleast⟩, rfl⟩ := hrest
  refine ⟨⟨hmem.imp_right Nat.succ_le_succ, fun i hi => ?_⟩, ?_⟩
  · cases i with
    | zero => exact absurd hi (not_or.mpr ⟨h, Nat.not_succ_le_zero _⟩)
    | succ i => exact Nat.succ_le_succ (hleast (hi.imp_right Nat.le_of_succ_le_succ))
  · rw [List.range_succ_eq_map (n := last + 1), List.map_cons, List.map_map]
    rfl

end Attempted

/-! ## The loop -/

/-- The loop makes the attempts that the budget allows. -/
theorem attempted_retryLoop (msgs : List I2cMsg) (budget attempts : ℕ) (lastErrno : ℤ)
    (s : LinuxState ω) :
    let ran := retryLoop P msgs (budget + 1) attempts lastErrno s
    ∃ last, Attempted budget (outcomes P s.bus.fd msgs s.world) msgs last ran.events ∧
      ran.value.2 = outcomes P s.bus.fd msgs s.world last := by
  induction budget generalizing attempts lastErrno s with
  | zero =>
    obtain ⟨-, hran⟩ | ⟨-, e, he, hran⟩ := retryLoop_succ (P := P) msgs 0 attempts lastErrno s
    · rw [hran]
      exact ⟨0, .one (.inr rfl), rfl⟩
    · rw [hran]
      exact ⟨0, .one (.inr rfl), he.symm⟩
  | succ budget ih =>
    obtain ⟨hfinal, hran⟩ | ⟨hagain, e, -, hran⟩ :=
      retryLoop_succ (P := P) msgs (budget + 1) attempts lastErrno s
    · rw [hran]
      exact ⟨0, .one (.inl hfinal), rfl⟩
    · obtain ⟨last, hrest, hlast⟩ :=
        ih (attempts + 1) e { s with world := (P.rdwr s.bus.fd msgs s.world).2 }
      rw [hran]
      exact ⟨last + 1, hrest.more hagain, hlast⟩

/-! ## The count a bus is made with -/

/-- The count of retries, which no operation changes. -/
def LinuxState.retryCount (s : LinuxState ω) : ℤ :=
  s.bus.retryCount

theorem keeps_retryLoop (msgs : List I2cMsg) (n attempts : ℕ) (lastErrno : ℤ) :
    (retryLoop P msgs n attempts lastErrno).Keeps LinuxState.retryCount := by
  induction n generalizing attempts lastErrno with
  | zero => exact .pure _
  | succ n ih =>
    refine .bind (fun _ => rfl) fun outcome => ?_
    cases outcome with
    | ok answered => exact .pure _
    | error e => exact .ite (.pure _) (ih _ _)

theorem keeps_pollLoop (msgs : List I2cMsg) (deadline : ℤ) (fuel attempts : ℕ) :
    (pollLoop P msgs deadline fuel attempts).Keeps LinuxState.retryCount := by
  induction fuel generalizing attempts with
  | zero => exact .pure _
  | succ fuel ih =>
    refine .bind (fun _ => rfl) fun outcome => ?_
    cases outcome with
    | ok answered => exact .pure _
    | error e =>
      exact .bind (fun _ => rfl) fun _ => .ite (.pure _) (.bind (fun _ => rfl) fun _ => ih _)

theorem keeps_openBus : (LinuxI2cBus.openBus P).Keeps LinuxState.retryCount := by
  intro s
  unfold LinuxI2cBus.openBus
  split_ifs
  · rfl
  · rfl
  · dsimp only
    split_ifs
    · rfl
    · rfl

theorem keeps_close : (LinuxI2cBus.close P).Keeps LinuxState.retryCount := by
  intro s
  unfold LinuxI2cBus.close
  split_ifs
  · rfl
  · rfl

theorem keeps_write (address : UInt8) (tx : Option Bytes) (txLen : ℕ) :
    (LinuxI2cBus.write P address tx txLen).Keeps LinuxState.retryCount := by
  refine .bind (fun _ => rfl) fun bus => .ite (.pure _) (.ite (.pure _) ?_)
  refine .bind (keeps_retryLoop _ _ _ _) fun ran => .bind (fun _ => rfl) fun _ => ?_
  split
  · exact .pure _
  · exact .pure _

theorem keeps_read (fuel : ℕ) (address : UInt8) (rxLen : ℕ) (timeoutUs : UInt32)
    (out : Receive) :
    (LinuxI2cBus.read P fuel address rxLen timeoutUs out).Keeps LinuxState.retryCount := by
  refine .bind (fun _ => rfl) fun bus => .ite (.pure _) (.ite (.pure _) ?_)
  refine .bind (fun _ => rfl) fun start => .bind (keeps_pollLoop _ _ _ _) fun ran => ?_
  split
  · exact .pure _
  · refine .bind (fun _ => rfl) fun _ => ?_
    split
    · exact .pure _
    · exact .pure _

theorem keeps_writeThenRead (address : UInt8) (tx : Option Bytes) (txLen rxLen : ℕ)
    (out : Receive) :
    (LinuxI2cBus.writeThenRead P address tx txLen rxLen out).Keeps LinuxState.retryCount := by
  refine .bind (fun _ => rfl) fun bus => .ite (.pure _) (.ite (.pure _) ?_)
  refine .bind (keeps_retryLoop _ _ _ _) fun ran => .bind (fun _ => rfl) fun _ => ?_
  split
  · exact .pure _
  · exact .pure _

theorem keeps_performLinux (fuel : ℕ) (op : Op) :
    (performLinux P fuel op).Keeps LinuxState.retryCount := by
  cases op with
  | openBus => exact .bind keeps_openBus fun _ => .pure _
  | close => exact .bind keeps_close fun _ => .pure _
  | delayUs us =>
    exact .bind (.ite (fun _ => rfl) (.pure _)) fun _ => .pure _
  | write address tx txLen => exact .bind (keeps_write address tx txLen) fun _ => .pure _
  | read address rxLen timeoutUs out => exact keeps_read fuel address rxLen timeoutUs out
  | writeThenRead address tx txLen rxLen out =>
    exact .bind (keeps_writeThenRead address tx txLen rxLen out) fun _ => .pure _

/-- A bus keeps the count it was made with. -/
theorem Runs.retryCount {busPath : Bytes} {retryCount : ℤ} {world : ω} {done : List Performed}
    {s : LinuxState ω} (h : Runs P ⟨.new busPath retryCount, world⟩ done s) :
    s.bus.retryCount = max retryCount 0 := by
  induction h with
  | start => rfl
  | next _ fuel op _ _ ih => exact (keeps_performLinux fuel op _).trans ih

/-! ## The budget -/

/-- The attempts go up to the first that is final, and there are `budget + 1` at most. The
status is the outcome of the last. -/
def BudgetHonoured (budget : ℕ) (outcomes : ℕ → Outcome) (msgs : List I2cMsg)
    (status : I2cStatus) (calls : List RdwrCall) : Prop :=
  ∃ last, Attempted budget outcomes msgs last calls ∧
    status.isOk = Outcome.isOk (outcomes last) ∧
    ∀ e, outcomes last = .error e → status.nativeErrno = e

theorem Retried.honoured {op : Op} {ran : Ran RdwrCall (LinuxState ω) (ℕ × Outcome)}
    {reply : Reply} {s' : LinuxState ω} {calls : List RdwrCall}
    (h : Retried op ran reply s' calls) {budget last : ℕ} {outcomes : ℕ → Outcome}
    {msgs : List I2cMsg}
    (hattempted : Attempted budget outcomes msgs last ran.events)
    (hlast : ran.value.2 = outcomes last) :
    BudgetHonoured budget outcomes msgs reply.status calls := by
  obtain ⟨rfl, -, hok, herrno, -⟩ := h
  exact ⟨last, hattempted, by rw [hok, hlast], fun e he => herrno e (hlast.trans he)⟩

/-- The attempts of an `int` that is not `INT_MAX`. -/
theorem maxAttempts_of_lt {retryCount : ℤ} (h : retryCount < 2 ^ 31 - 1) :
    (maxAttempts (max retryCount 0)).toNat = (max retryCount 0).toNat + 1 := by
  have hwrap : wrapInt (max retryCount 0 + 1) = max retryCount 0 + 1 :=
    Int.bmod_eq_of_le (by omega) (by omega)
  rw [maxAttempts, hwrap]
  omega

/-- `INT_MAX + 1` wraps, and one attempt is what remains. -/
theorem maxAttempts_intMax : (maxAttempts (2 ^ 31 - 1)).toNat = 1 := by
  decide

/-- A write or a write_then_read that reaches the transport honours the retry budget, of any
`int`, exactly when that is not `INT_MAX` or the first attempt is the last. This is for a build on
which `retry_count_ + 1` wraps : `INT_MAX + 1` is undefined. -/
theorem budget_honoured_iff {busPath : Bytes} {retryCount : ℤ} (hint : retryCount < 2 ^ 31)
    {world : ω} {done : List Performed} {s : LinuxState ω}
    (hruns : Runs P ⟨.new busPath retryCount, world⟩ done s) {op : Op}
    (hop : op.writePhase = true) (hrefused : op.refused s.bus = false) (fuel : ℕ) :
    ∃ reply, (performLinux P fuel op s).value = some reply ∧
      (BudgetHonoured (max retryCount 0).toNat (outcomes P s.bus.fd op.msgs s.world) op.msgs
          reply.status (performLinux P fuel op s).events ↔
        retryCount < 2 ^ 31 - 1 ∨ Final (outcomes P s.bus.fd op.msgs s.world 0)) := by
  obtain ⟨reply, hreply, hretried⟩ := performLinux_retried (P := P) hop hrefused fuel
  refine ⟨reply, hreply, ?_⟩
  rw [hruns.retryCount] at hretried
  by_cases hlt : retryCount < 2 ^ 31 - 1
  · rw [maxAttempts_of_lt hlt] at hretried
    obtain ⟨last, hattempted, hlast⟩ :=
      attempted_retryLoop (P := P) op.msgs (max retryCount 0).toNat 0 0 s
    exact iff_of_true (hretried.honoured hattempted hlast) (.inl hlt)
  · have hmax : max retryCount 0 = 2 ^ 31 - 1 := by omega
    rw [hmax, maxAttempts_intMax] at hretried
    rw [hmax, or_iff_right hlt]
    obtain ⟨last, hattempted, hlast⟩ := attempted_retryLoop (P := P) op.msgs 0 0 0 s
    obtain rfl : last = 0 := Nat.le_zero.mp (hattempted.isLeast.2 (.inr le_rfl))
    constructor
    · rintro ⟨last, hhonoured, -⟩
      -- one call was made, so the attempt that the budget ends with is the first
      have hlength : last + 1 = 1 := by
        have hcalls := hhonoured.calls.symm.trans (hretried.calls.trans hattempted.calls)
        simpa using congrArg List.length hcalls
      obtain rfl : last = 0 := by omega
      exact hhonoured.isLeast.1.resolve_right (by decide)
    · intro hfinal
      refine hretried.honoured ⟨⟨.inl hfinal, fun _ _ => Nat.zero_le _⟩, ?_⟩ hlast
      exact hattempted.calls

/-- With a `retry_count` of `INT_MAX` an interrupted write is not tried again. -/
theorem not_budget_honoured_intMax : ∃ done s reply,
    Runs scripted ⟨.new (lit "/dev/i2c-1") (2 ^ 31 - 1), ([.error EINTR, .ok []], 0)⟩ done s ∧
      (performLinux scripted 0 (.write 0x10 (some [7]) 1) s).value = some reply ∧
      reply.status.isOk = false ∧
      (performLinux scripted 0 (.write 0x10 (some [7]) 1) s).events.length = 1 ∧
      ¬BudgetHonoured (2 ^ 31 - 1)
        (outcomes scripted s.bus.fd (Op.msgs (.write 0x10 (some [7]) 1)) s.world)
        (Op.msgs (.write 0x10 (some [7]) 1)) reply.status
        (performLinux scripted 0 (.write 0x10 (some [7]) 1) s).events := by
  have hruns : Runs scripted
      ⟨.new (lit "/dev/i2c-1") (2 ^ 31 - 1), ([.error EINTR, .ok []], 0)⟩ _ _ :=
    .next .start 0 .openBus ⟨.ok, {}⟩ rfl
  refine ⟨_, _, _, hruns, rfl, rfl, rfl, ?_⟩
  rintro ⟨last, hattempted, -⟩
  have hlength := congrArg List.length hattempted.calls
  rw [List.length_map, List.length_range] at hlength
  obtain rfl : last = 0 := (Nat.succ.inj hlength).symm
  exact absurd hattempted.isLeast.1 (by decide)

/-- With two retries it is, and answered. -/
theorem budget_honoured_scripted : ∃ done s reply,
    Runs scripted ⟨.new (lit "/dev/i2c-1") 2, ([.error EINTR, .ok []], 0)⟩ done s ∧
      (performLinux scripted 0 (.write 0x10 (some [7]) 1) s).value = some reply ∧
      BudgetHonoured 2 (outcomes scripted s.bus.fd (Op.msgs (.write 0x10 (some [7]) 1)) s.world)
        (Op.msgs (.write 0x10 (some [7]) 1)) reply.status
        (performLinux scripted 0 (.write 0x10 (some [7]) 1) s).events := by
  have hruns : Runs scripted ⟨.new (lit "/dev/i2c-1") 2, ([.error EINTR, .ok []], 0)⟩ _ _ :=
    .next .start 0 .openBus ⟨.ok, {}⟩ rfl
  obtain ⟨reply, hreply, hhonoured⟩ :=
    budget_honoured_iff (by decide) hruns
      (show Op.writePhase (.write 0x10 (some [7]) 1) = true from rfl) rfl 0
  exact ⟨_, _, reply, hruns, hreply, hhonoured.mpr (.inl (by decide))⟩

end ProviderSdk.I2c

import ProviderSdk.AttemptCounts
import ProviderSdk.Lib.Triple
import ProviderSdk.Lib.Erasure

/-!
# The file descriptor of the bus

`watched` is a Linux that keeps the system calls made on the device, and behaves the same
otherwise (`erases_performLinux`). `held` is the descriptor they leave open, and they are
`Orderly` if nothing is opened over an open descriptor, and nothing but the open one is
closed or passed to `ioctl`.

A `LinuxI2cBus` tends its descriptor (`Tended`) whatever it is asked, also while a read still
polls, and its destructor leaves nothing open (`descriptors_orderly`).
-/

namespace ProviderSdk.I2c

variable {ω : Type} {P : Linux ω}

/-! ## System calls -/

/-- A system call on the device, with its descriptor. -/
inductive SysCall where
  /-- `::open`, with what it returned. -/
  | opened (fd : ℤ)
  | closed (fd : ℤ)
  | ioctl (fd : ℤ)
  deriving DecidableEq

namespace SysCall

/-- The descriptor that is open after a call. -/
def after (held : Option ℤ) : SysCall → Option ℤ
  | opened fd => if 0 ≤ fd then some fd else held
  | closed _ => none
  | ioctl _ => held

/-- A call that is in order while a descriptor is held, or none. -/
def Allowed (held : Option ℤ) : SysCall → Prop
  | opened _ => held = none
  | closed fd => held = some fd
  | ioctl fd => held = some fd

/-- An `::open` that gave a descriptor. -/
def succeeded : SysCall → Bool
  | opened fd => 0 ≤ fd
  | _ => false

def isClosed : SysCall → Bool
  | closed _ => true
  | _ => false

end SysCall

/-- The descriptor that some system calls leave open. -/
def held (calls : List SysCall) : Option ℤ :=
  calls.foldl SysCall.after none

@[simp] theorem held_nil : held [] = none :=
  rfl

@[simp] theorem held_append (calls : List SysCall) (call : SysCall) :
    held (calls ++ [call]) = call.after (held calls) :=
  List.foldl_append

/-- Every call is in order, after those before it. -/
def Orderly (calls : List SysCall) : Prop :=
  ∀ pre call post, calls = pre ++ call :: post → call.Allowed (held pre)

namespace Orderly

theorem nil : Orderly [] := by
  simp [Orderly]

theorem snoc {calls : List SysCall} (h : Orderly calls) {call : SysCall}
    (hcall : call.Allowed (held calls)) : Orderly (calls ++ [call]) := by
  intro pre call' post heq
  obtain ⟨rfl, rfl, -⟩ | ⟨mid, -, hcalls⟩ := Traced.snoc_eq_append_cons heq
  · exact hcall
  · exact h pre call' mid hcalls

theorem of_snoc {calls : List SysCall} {call : SysCall} (h : Orderly (calls ++ [call])) :
    Orderly calls ∧ call.Allowed (held calls) :=
  ⟨fun pre call' post heq => h pre call' (post ++ [call]) (by simp [heq]),
    h calls call [] rfl⟩

/-- Calls in order close every descriptor they open, but the one they leave open. -/
theorem countP_succeeded {calls : List SysCall} (h : Orderly calls) :
    calls.countP SysCall.succeeded =
      calls.countP SysCall.isClosed + (held calls).toList.length := by
  induction calls using List.reverseRecOn with
  | nil => rfl
  | append_singleton calls call ih =>
    obtain ⟨hcalls, hcall⟩ := h.of_snoc
    have ih := ih hcalls
    rw [held_append, List.countP_append, List.countP_append]
    cases call with
    | opened fd =>
      have hnone : held calls = none := hcall
      rw [hnone] at ih
      by_cases hfd : 0 ≤ fd
      · simp [SysCall.succeeded, SysCall.isClosed, SysCall.after, hfd, ih]
      · simp [SysCall.succeeded, SysCall.isClosed, SysCall.after, hfd, hnone, ih]
    | closed fd =>
      have hsome : held calls = some fd := hcall
      rw [hsome] at ih
      simp [SysCall.succeeded, SysCall.isClosed, SysCall.after, ih]
    | ioctl fd =>
      simp [SysCall.succeeded, SysCall.isClosed, SysCall.after, ih]

end Orderly

/-! ## A Linux that is watched -/

/-- The same Linux, keeping the system calls made on the device. -/
def watched (P : Linux ω) : Linux (ω × List SysCall) where
  openDevice path w :=
    ((P.openDevice path w.1).1,
      ((P.openDevice path w.1).2, w.2 ++ [.opened (P.openDevice path w.1).1.1]))
  closeDevice fd w := (P.closeDevice fd w.1, w.2 ++ [.closed fd])
  rdwr fd msgs w := ((P.rdwr fd msgs w.1).1, ((P.rdwr fd msgs w.1).2, w.2 ++ [.ioctl fd]))
  now w := ((P.now w.1).1, ((P.now w.1).2, w.2))
  sleepFor us w := (P.sleepFor us w.1, w.2)
  strerror := P.strerror

/-- The state without the calls. -/
def LinuxState.forget (s : LinuxState (ω × List SysCall)) : LinuxState ω :=
  ⟨s.bus, s.world.1⟩

/-- The calls of the state. -/
def LinuxState.sysCalls (s : LinuxState (ω × List SysCall)) : List SysCall :=
  s.world.2

section Erasing

open Traced

theorem erases_retryLoop (msgs : List I2cMsg) (n attempts : ℕ) (lastErrno : ℤ) :
    Erases LinuxState.forget (retryLoop (watched P) msgs n attempts lastErrno)
      (retryLoop P msgs n attempts lastErrno) := by
  induction n generalizing attempts lastErrno with
  | zero => exact .pure _
  | succ n ih =>
    refine .bind (fun _ => rfl) fun outcome => ?_
    cases outcome with
    | ok answered => exact .pure _
    | error e => exact .ite (.pure _) (ih _ _)

theorem erases_pollLoop (msgs : List I2cMsg) (deadline : ℤ) (fuel attempts : ℕ) :
    Erases LinuxState.forget (pollLoop (watched P) msgs deadline fuel attempts)
      (pollLoop P msgs deadline fuel attempts) := by
  induction fuel generalizing attempts with
  | zero => exact .pure _
  | succ fuel ih =>
    refine .bind (fun _ => rfl) fun outcome => ?_
    cases outcome with
    | ok answered => exact .pure _
    | error e =>
      refine .bind (fun _ => rfl) fun time => .ite (.pure _) ?_
      exact .bind (fun _ => rfl) fun _ => ih _

theorem erases_openBus :
    Erases LinuxState.forget (LinuxI2cBus.openBus (watched P)) (LinuxI2cBus.openBus P) := by
  intro s
  unfold LinuxI2cBus.openBus LinuxState.forget
  dsimp only [watched]
  split_ifs <;> rfl

theorem erases_close :
    Erases LinuxState.forget (LinuxI2cBus.close (watched P)) (LinuxI2cBus.close P) := by
  intro s
  unfold LinuxI2cBus.close LinuxState.forget
  split_ifs <;> rfl

/-- Being watched changes nothing that the bus does. -/
theorem erases_performLinux (fuel : ℕ) (op : Op) :
    Erases LinuxState.forget (performLinux (watched P) fuel op) (performLinux P fuel op) := by
  have hbus : Erases LinuxState.forget (getBus (ω := ω × List SysCall)) getBus := fun _ => rfl
  cases op with
  | openBus => exact erases_openBus.bind fun _ => .pure _
  | close => exact erases_close.bind fun _ => .pure _
  | delayUs us => exact .bind (.ite (fun _ => rfl) (.pure _)) fun _ => .pure _
  | write address tx txLen =>
    refine .bind (hbus.bind fun bus => .ite (.pure _) (.ite (.pure _) ?_)) fun _ => .pure _
    refine (erases_retryLoop _ _ _ _).bind fun ran => .bind (fun _ => rfl) fun _ => ?_
    cases ran.2 with
    | ok answered => exact .pure _
    | error e => exact .pure _
  | read address rxLen timeoutUs out =>
    refine hbus.bind fun bus => .ite (.pure _) (.ite (.pure _) ?_)
    refine .bind (fun _ => rfl) fun start => (erases_pollLoop _ _ _ _).bind fun ran => ?_
    cases ran with
    | none => exact .pure _
    | some ran =>
      refine .bind (fun _ => rfl) fun _ => ?_
      cases ran.2 with
      | ok answered => exact .pure _
      | error e => exact .pure _
  | writeThenRead address tx txLen rxLen out =>
    refine .bind (hbus.bind fun bus => .ite (.pure _) (.ite (.pure _) ?_)) fun _ => .pure _
    refine (erases_retryLoop _ _ _ _).bind fun ran => .bind (fun _ => rfl) fun _ => ?_
    cases ran.2 with
    | ok answered => exact .pure _
    | error e => exact .pure _

end Erasing

/-- A run can be watched. -/
theorem Runs.watched {start : LinuxState ω} {done : List Performed} {s : LinuxState ω}
    (h : Runs P start done s) (calls : List SysCall) :
    ∃ t : LinuxState (ω × List SysCall), t.forget = s ∧
      Runs (I2c.watched P) ⟨start.bus, (start.world, calls)⟩ done t := by
  induction h with
  | start => exact ⟨_, rfl, .start⟩
  | next _ fuel op reply hreply ih =>
    obtain ⟨t, rfl, hrun⟩ := ih
    have herases := erases_performLinux (P := P) fuel op
    rw [herases.value] at hreply
    refine ⟨(performLinux (I2c.watched P) fuel op t).state, (herases.state t).symm, ?_⟩
    rw [herases.events]
    exact hrun.next fuel op reply hreply

/-! ## A bus that tends its descriptor -/

/-- `~LinuxI2cBus()`. -/
def LinuxI2cBus.destroy (P : Linux ω) : OnLinux ω Unit :=
  LinuxI2cBus.close P

/-- The calls so far are in order, and the bus holds the descriptor they leave open. -/
structure Tended (s : LinuxState (ω × List SysCall)) : Prop where
  orderly : Orderly s.sysCalls
  held : held s.sysCalls = if s.bus.opened then some s.bus.fd else none
  fd : s.bus.opened = true ↔ 0 ≤ s.bus.fd

/-- It is tended, and open. -/
def InUse (s : LinuxState (ω × List SysCall)) : Prop :=
  Tended s ∧ s.bus.opened = true

theorem tended_new (busPath : Bytes) (retryCount : ℤ) (world : ω) :
    Tended ⟨.new busPath retryCount, (world, [])⟩ :=
  ⟨.nil, rfl, by simp [LinuxI2cBus.new]⟩

theorem InUse.held {s : LinuxState (ω × List SysCall)} (h : InUse s) :
    I2c.held s.sysCalls = some s.bus.fd := by
  rw [h.1.held, if_pos h.2]

namespace Tended

open Traced

/-- What the bus is, while its descriptor is tended. -/
theorem triple_getBus :
    Triple (fun _ s => Tended s) (getBus (ω := ω × List SysCall)) fun bus _ s =>
      Tended s ∧ s.bus = bus :=
  fun _ _ h => ⟨h, rfl⟩

theorem triple_record (address : UInt8) (ok : Bool) (attempts : ℕ) :
    Triple (fun _ s => InUse s) (record (ω := ω × List SysCall) address ok attempts)
      fun _ _ s => Tended s :=
  fun _ _ h => ⟨h.1.orderly, h.1.held, h.1.fd⟩

theorem triple_now : Triple (fun _ s => InUse s) (now (watched P)) fun _ _ s => InUse s :=
  fun _ _ h => ⟨⟨h.1.orderly, h.1.held, h.1.fd⟩, h.2⟩

theorem triple_sleepFor (us : ℕ) :
    Triple (fun _ s => InUse s) (sleepFor (watched P) us) fun _ _ s => InUse s :=
  fun _ _ h => ⟨⟨h.1.orderly, h.1.held, h.1.fd⟩, h.2⟩

/-- A transfer is made on the descriptor that is open. -/
theorem triple_rdwr (msgs : List I2cMsg) :
    Triple (fun _ s => InUse s) (rdwr (watched P) msgs) fun _ _ s => InUse s := by
  refine .observe fun _ s h => ⟨⟨h.1.orderly.snoc h.held, ?_, h.1.fd⟩, h.2⟩
  exact (held_append _ _).trans h.1.held

theorem triple_retryLoop (msgs : List I2cMsg) (n attempts : ℕ) (lastErrno : ℤ) :
    Triple (fun _ s => InUse s) (retryLoop (watched P) msgs n attempts lastErrno)
      fun _ _ s => InUse s := by
  induction n generalizing attempts lastErrno with
  | zero => exact .pure fun _ _ h => h
  | succ n ih =>
    refine (triple_rdwr msgs).bind fun outcome => ?_
    cases outcome with
    | ok answered => exact .pure fun _ _ h => h
    | error e => exact .ite (fun _ => .pure fun _ _ h => h) fun _ => ih _ _

theorem triple_pollLoop (msgs : List I2cMsg) (deadline : ℤ) (fuel attempts : ℕ) :
    Triple (fun _ s => InUse s) (pollLoop (watched P) msgs deadline fuel attempts)
      fun _ _ s => InUse s := by
  induction fuel generalizing attempts with
  | zero => exact .pure fun _ _ h => h
  | succ fuel ih =>
    refine (triple_rdwr msgs).bind fun outcome => ?_
    cases outcome with
    | ok answered => exact .pure fun _ _ h => h
    | error e =>
      refine triple_now.bind fun time => .ite (fun _ => .pure fun _ _ h => h) fun _ => ?_
      exact (triple_sleepFor 200).bind fun _ => ih _

/-- A descriptor is asked for only when none is open. -/
theorem triple_openBus :
    Triple (fun _ s => Tended s) (LinuxI2cBus.openBus (watched P)) fun _ _ s => Tended s := by
  intro past s h
  unfold LinuxI2cBus.openBus
  by_cases hopened : s.bus.opened = true
  · rw [if_pos hopened]
    exact h
  have hheld : I2c.held s.sysCalls = none := by rw [h.held, if_neg hopened]
  rw [if_neg hopened]
  by_cases hpath : s.bus.busPath = []
  · rw [if_pos hpath]
    exact h
  rw [if_neg hpath]
  dsimp only [watched]
  by_cases hfd : (P.openDevice s.bus.busPath s.world.1).1.1 < 0
  · rw [if_pos hfd]
    refine ⟨h.orderly.snoc hheld, ?_, ?_⟩
    · refine (held_append _ _).trans ?_
      rw [SysCall.after, if_neg (not_le.mpr hfd)]
      exact hheld.trans (if_neg hopened).symm
    · simpa [hopened] using hfd
  · rw [if_neg hfd]
    refine ⟨h.orderly.snoc hheld, ?_, ?_⟩
    · refine (held_append _ _).trans ?_
      rw [SysCall.after, if_pos (not_lt.mp hfd)]
      rfl
    · simpa using not_lt.mp hfd

/-- What is closed is what is open, and then nothing is. -/
theorem triple_close :
    Triple (fun _ s => Tended s) (LinuxI2cBus.close (watched P)) fun _ _ s =>
      Tended s ∧ I2c.held s.sysCalls = none := by
  intro past s h
  unfold LinuxI2cBus.close
  by_cases hfd : 0 ≤ s.bus.fd
  · rw [if_pos hfd]
    have hheld : I2c.held s.sysCalls = some s.bus.fd := by
      rw [h.held, if_pos (h.fd.mpr hfd)]
    have hclosed : I2c.held (s.sysCalls ++ [.closed s.bus.fd]) = none := held_append _ _
    exact ⟨⟨h.orderly.snoc hheld, hclosed, by simp⟩, hclosed⟩
  · rw [if_neg hfd]
    have hclosed : s.bus.opened = false := by simpa using mt h.fd.mp hfd
    have hheld : I2c.held s.sysCalls = none := by simp [h.held, hclosed]
    exact ⟨⟨h.orderly, hheld, by simpa using hfd⟩, hheld⟩

theorem triple_destroy :
    Triple (fun _ s => Tended s) (LinuxI2cBus.destroy (watched P)) fun _ _ s =>
      Tended s ∧ I2c.held s.sysCalls = none :=
  triple_close

/-- A transfer is made only while the bus is open. -/
theorem triple_transfer {α : Type} {a b : α} {c : Prop} [Decidable c]
    {transfer : LinuxI2cBus → OnLinux (ω × List SysCall) α}
    (h : ∀ bus, Triple (fun _ s => InUse s) (transfer bus) fun _ _ s => Tended s) :
    Triple (fun _ s => Tended s)
      (getBus >>= fun bus =>
        if (!bus.opened) = true then pure a else if c then pure b else transfer bus)
      fun _ _ s => Tended s := by
  refine triple_getBus.bind fun bus => .ite (fun _ => .pure fun _ _ h => h.1) fun hopened => ?_
  refine .ite (fun _ => .pure fun _ _ h => h.1) fun _ => (h bus).weaken ?_ fun _ _ _ h => h
  rintro _ s ⟨htended, rfl⟩
  exact ⟨htended, by simpa using hopened⟩

theorem triple_write (address : UInt8) (tx : Option Bytes) (txLen : ℕ) :
    Triple (fun _ s => Tended s) (LinuxI2cBus.write (watched P) address tx txLen)
      fun _ _ s => Tended s := by
  refine triple_transfer fun bus => (triple_retryLoop _ _ _ _).bind fun ran => ?_
  refine (triple_record _ _ _).bind fun _ => ?_
  cases ran.2 with
  | ok answered => exact .pure fun _ _ h => h
  | error e => exact .pure fun _ _ h => h

theorem triple_read (fuel : ℕ) (address : UInt8) (rxLen : ℕ) (timeoutUs : UInt32)
    (out : Receive) :
    Triple (fun _ s => Tended s) (LinuxI2cBus.read (watched P) fuel address rxLen timeoutUs out)
      fun _ _ s => Tended s := by
  refine triple_transfer fun bus => triple_now.bind fun start => ?_
  refine (triple_pollLoop _ _ _ _).bind fun ran => ?_
  cases ran with
  | none => exact .pure fun _ _ h => h.1
  | some ran =>
    refine (triple_record _ _ _).bind fun _ => ?_
    cases ran.2 with
    | ok answered => exact .pure fun _ _ h => h
    | error e => exact .pure fun _ _ h => h

theorem triple_writeThenRead (address : UInt8) (tx : Option Bytes) (txLen rxLen : ℕ)
    (out : Receive) :
    Triple (fun _ s => Tended s)
      (LinuxI2cBus.writeThenRead (watched P) address tx txLen rxLen out)
      fun _ _ s => Tended s := by
  refine triple_transfer fun bus => (triple_retryLoop _ _ _ _).bind fun ran => ?_
  refine (triple_record _ _ _).bind fun _ => ?_
  cases ran.2 with
  | ok answered => exact .pure fun _ _ h => h
  | error e => exact .pure fun _ _ h => h

theorem triple_delayUs (us : UInt32) :
    Triple (fun _ s => Tended s) (LinuxI2cBus.delayUs (watched P) us) fun _ _ s => Tended s :=
  .ite (fun _ _ _ h => ⟨h.orderly, h.held, h.fd⟩) fun _ => .pure fun _ _ h => h

/-- Every operation keeps it, and so does the part of a read that has been made. -/
theorem triple_performLinux (fuel : ℕ) (op : Op) :
    Triple (fun _ s => Tended s) (performLinux (watched P) fuel op) fun _ _ s => Tended s := by
  have hreply : ∀ reply : Option Reply, Triple (fun _ s => Tended s)
      (pure reply : OnLinux (ω × List SysCall) _) fun _ _ s => Tended s :=
    fun _ => .pure fun _ _ h => h
  cases op with
  | openBus => exact triple_openBus.bind fun _ => hreply _
  | close =>
    exact (triple_close.weaken (fun _ _ h => h) fun _ _ _ h => h.1).bind fun _ => hreply _
  | delayUs us => exact (triple_delayUs us).bind fun _ => hreply _
  | write address tx txLen => exact (triple_write address tx txLen).bind fun _ => hreply _
  | read address rxLen timeoutUs out => exact triple_read fuel address rxLen timeoutUs out
  | writeThenRead address tx txLen rxLen out =>
    exact (triple_writeThenRead address tx txLen rxLen out).bind fun _ => hreply _

/-- Over a run, by induction on its operations. -/
theorem of_runs {start s : LinuxState (ω × List SysCall)} {done : List Performed}
    (h : Runs (watched P) start done s) (hstart : Tended start) : Tended s := by
  induction h with
  | start => exact hstart
  | next _ fuel op _ _ ih => exact triple_performLinux fuel op [] _ ih

end Tended

/-- The descriptor of a bus, in any run and after whatever it is asked next, whether that
returns or a read polls on : no device is opened over an open one, nothing but the open
descriptor is closed or passed to `ioctl`, and the bus says that it is open exactly while it
holds one. The destructor closes what is left, so that every descriptor that was opened has
been closed once. -/
theorem descriptors_orderly (P : Linux ω) (busPath : Bytes) (retryCount : ℤ) (world : ω)
    {done : List Performed} {s : LinuxState ω}
    (hrun : Runs P ⟨.new busPath retryCount, world⟩ done s) :
    ∃ t : LinuxState (ω × List SysCall), t.forget = s ∧
      Runs (watched P) ⟨.new busPath retryCount, (world, [])⟩ done t ∧
      (∀ fuel op, let next := (performLinux (watched P) fuel op t).state
        Orderly next.sysCalls ∧
          held next.sysCalls = if next.bus.opened then some next.bus.fd else none) ∧
      let gone := (LinuxI2cBus.destroy (watched P) t).state
      Orderly gone.sysCalls ∧ held gone.sysCalls = none ∧
        gone.sysCalls.countP SysCall.succeeded = gone.sysCalls.countP SysCall.isClosed := by
  obtain ⟨t, ht, hwatched⟩ := hrun.watched []
  have htended := Tended.of_runs hwatched (tended_new busPath retryCount world)
  refine ⟨t, ht, hwatched, fun fuel op => ?_, ?_⟩
  · have hnext := Tended.triple_performLinux (P := P) fuel op [] t htended
    exact ⟨hnext.orderly, hnext.held⟩
  · obtain ⟨hgone, hheld⟩ := Tended.triple_destroy (P := P) [] t htended
    have hcount := hgone.orderly.countP_succeeded
    rw [hheld] at hcount
    exact ⟨hgone.orderly, hheld, hcount⟩

/-- A bus that is opened, asked to open again, written to, and closed twice. -/
theorem descriptors_orderly_scripted : ∃ done s t,
    Runs scripted ⟨.new (lit "/dev/i2c-1") 0, ([.ok []], 0)⟩ done s ∧
      Runs (watched scripted) ⟨.new (lit "/dev/i2c-1") 0, (([.ok []], 0), [])⟩ done t ∧
      LinuxState.forget t = s ∧ done.length = 5 ∧ held (LinuxState.sysCalls
        (LinuxI2cBus.destroy (watched scripted) t).state) = none := by
  have hrun : Runs scripted ⟨.new (lit "/dev/i2c-1") 0, ([.ok []], 0)⟩ _ _ :=
    .next (.next (.next (.next (.next .start 0 .openBus ⟨.ok, {}⟩ rfl) 0 .openBus ⟨.ok, {}⟩ rfl)
      0 (.write 0x10 (some [7]) 1) ⟨.ok, {}⟩ rfl) 0 .close {} rfl) 0 .close {} rfl
  obtain ⟨t, hforget, hwatched, -, -, hheld, -⟩ := descriptors_orderly scripted _ _ _ hrun
  exact ⟨_, _, t, hrun, hwatched, hforget, rfl, hheld⟩

end ProviderSdk.I2c

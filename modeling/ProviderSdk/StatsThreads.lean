import ProviderSdk.I2cBus
import ProviderSdk.Lib.Mutex

/-!
# Counters under a mutex

The poller, the health-snapshot task and the HTTP threads share a bus, and so the counters of
`src/anolis/provider_sdk/i2c/io_stats.hpp`. `record` and `stats_for` are here the loads and the
stores that they make while they hold `mutex_`, each of them one step (`statsCalls`). Two
threads that add to a counter without the mutex could load the same value, and one would be
lost.

However the steps interleave, the calls have an order in which each is made as a whole
(`stats_threads`) : none that was recorded is lost, and no `stats_for` sees half of a `record`.
-/

namespace ProviderSdk.I2c

open Mutex

/-! ## Loads and stores -/

/-- A member of `IoStats`. -/
inductive Counter where
  | ok
  | failed
  | retriedAttempts

def IoStats.get : Counter → IoStats → UInt64
  | .ok, s => s.ok
  | .failed, s => s.failed
  | .retriedAttempts, s => s.retriedAttempts

def IoStats.set : Counter → UInt64 → IoStats → IoStats
  | .ok, n, s => { s with ok := n }
  | .failed, n, s => { s with failed := n }
  | .retriedAttempts, n, s => { s with retriedAttempts := n }

/-- What is local to a call : the value that it loaded, and the copy that it returns. -/
structure StatsLocal where
  loaded : UInt64 := 0
  result : IoStats := {}

abbrev StatsStep :=
  IoStatsMap → StatsLocal → IoStatsMap × StatsLocal

def load (address : UInt8) (c : Counter) : StatsStep :=
  fun stats l => (stats, { l with loaded := (stats address).get c })

/-- The value that was loaded and some more goes to the counter. -/
def storeSum (address : UInt8) (c : Counter) (n : UInt64) : StatsStep :=
  fun stats l => (Function.update stats address ((stats address).set c (l.loaded + n)), l)

def copy (address : UInt8) (c : Counter) : StatsStep :=
  fun stats l => (stats, { l with result := l.result.set c ((stats address).get c) })

/-- `c += n`. -/
def addTo (address : UInt8) (c : Counter) (n : UInt64) : List StatsStep :=
  [load address c, storeSum address c n]

/-- `IoStatsMap::record`, from where it holds the mutex. -/
def recordSection (address : UInt8) (ok : Bool) (attemptsMade : ℕ) : List StatsStep :=
  let retries : UInt64 := if 1 < attemptsMade then UInt64.ofNat (attemptsMade - 1) else 0
  addTo address (if ok then .ok else .failed) 1 ++ addTo address .retriedAttempts retries

/-- `IoStatsMap::stats_for`, from where it holds the mutex. -/
def statsForSection (address : UInt8) : List StatsStep :=
  [copy address .ok, copy address .failed, copy address .retriedAttempts]

/-- A whole `record` is one more operation at the address. -/
theorem run_recordSection (address : UInt8) (ok : Bool) (attemptsMade : ℕ) (stats : IoStatsMap)
    (l : StatsLocal) : (Section.run (recordSection address ok attemptsMade) stats l).1 =
      stats.record address ok attemptsMade := by
  funext other
  by_cases hother : other = address
  · subst hother
    rw [IoStatsMap.record_same]
    cases ok <;> simp [Section.run, recordSection, addTo, load, storeSum, IoStats.get, IoStats.set]
  · rw [IoStatsMap.record_of_ne _ hother]
    simp [Section.run, recordSection, addTo, load, storeSum, hother]

/-- A whole `stats_for` copies the counters of the address. -/
theorem run_statsForSection (address : UInt8) (stats : IoStatsMap) (l : StatsLocal) :
    Section.run (statsForSection address) stats l =
      (stats, { l with result := stats address }) :=
  rfl

/-! ## Calls -/

inductive StatsCall where
  | record (address : UInt8) (ok : Bool) (attemptsMade : ℕ)
  | statsFor (address : UInt8)
  deriving DecidableEq

def StatsCall.steps : StatsCall → List StatsStep
  | record address ok attemptsMade => recordSection address ok attemptsMade
  | statsFor address => statsForSection address

/-- Both calls hold the mutex from their first access on. -/
def statsCalls : Calls Unit IoStatsMap StatsLocal StatsCall where
  enter c _ := ((), some c.steps)
  start := {}

/-- The counters of `stats_for` calls that returned to a thread, oldest first. -/
def told (ran : List (StatsCall × StatsLocal)) : List (UInt8 × IoStats) :=
  ran.filterMap fun p => match p.1 with
    | .statsFor address => some (address, p.2.result)
    | .record .. => none

/-! ## One call after the other -/

/-- What a call adds to a counter of an address. -/
def StatsCall.adds (address : UInt8) : Counter → StatsCall → ℕ
  | _, statsFor _ => 0
  | .ok, record at' ok _ => if at' = address ∧ ok = true then 1 else 0
  | .failed, record at' ok _ => if at' = address ∧ ok = false then 1 else 0
  | .retriedAttempts, record at' _ attemptsMade => if at' = address then attemptsMade - 1 else 0

/-- Counters with these values. -/
def IoStats.ofCounts (n : Counter → ℕ) : IoStats where
  ok := .ofNat (n .ok)
  failed := .ofNat (n .failed)
  retriedAttempts := .ofNat (n .retriedAttempts)

/-- The counters after some calls. -/
def recorded (calls : List StatsCall) (address : UInt8) : IoStats :=
  .ofCounts fun c => (calls.map (StatsCall.adds address c)).sum

/-- What a thread is told where the calls are made one after the other. -/
def toldInOrder {ι : Type} [DecidableEq ι] (i : ι) :
    List StatsCall → List (ι × StatsCall) → List (UInt8 × IoStats)
  | _, [] => []
  | before, (j, .statsFor address) :: order =>
    (if j = i then [(address, recorded before address)] else []) ++
      toldInOrder i (before ++ [.statsFor address]) order
  | before, (_, .record address ok attemptsMade) :: order =>
    toldInOrder i (before ++ [.record address ok attemptsMade]) order

theorem recorded_statsFor (calls : List StatsCall) (address : UInt8) :
    recorded (calls ++ [.statsFor address]) = recorded calls := by
  funext other
  simp [recorded, StatsCall.adds, IoStats.ofCounts]

theorem retries_eq (attemptsMade : ℕ) :
    (if 1 < attemptsMade then UInt64.ofNat (attemptsMade - 1) else 0) =
      .ofNat (attemptsMade - 1) := by
  split
  · rfl
  · rw [Nat.sub_eq_zero_of_le (by omega)]
    rfl

theorem recorded_record (calls : List StatsCall) (address : UInt8) (ok : Bool)
    (attemptsMade : ℕ) : recorded (calls ++ [.record address ok attemptsMade]) =
      IoStatsMap.record (recorded calls) address ok attemptsMade := by
  funext other
  by_cases hother : other = address
  · subst hother
    rw [IoStatsMap.record_same, retries_eq]
    cases ok <;> simp [recorded, StatsCall.adds, IoStats.ofCounts, UInt64.ofNat_add]
  · rw [IoStatsMap.record_of_ne _ hother]
    simp [recorded, StatsCall.adds, IoStats.ofCounts, Ne.symm hother]

/-! ## Threads -/

variable {ι : Type}

theorem sec_eq_of_admits {c : StatsCall} {sec : List StatsStep} {Q : Unit → Prop}
    (h : statsCalls.Admits Q c sec) : sec = c.steps := by
  obtain ⟨_, -, henter⟩ := h
  exact (Option.some.inj henter).symm

/-- Sections that were run whole leave the counters of their calls. -/
theorem after_statsCalls (log : List (Entry ι IoStatsMap StatsLocal StatsCall))
    (hlog : ∀ e ∈ log, e.sec = e.call.steps) :
    after statsCalls .empty log = recorded ((order log).map Prod.snd) := by
  induction log using List.reverseRecOn with
  | nil => rfl
  | append_singleton log e ih =>
    obtain ⟨thread, call, sec⟩ := e
    obtain rfl : sec = call.steps := hlog ⟨thread, call, sec⟩ (by simp)
    rw [after_append, ih fun e he => hlog e (by simp [he])]
    simp only [order, List.map_append, List.map_cons, List.map_nil]
    cases call with
    | record address ok attemptsMade =>
      rw [recorded_record]
      exact run_recordSection address ok attemptsMade _ _
    | statsFor address =>
      rw [recorded_statsFor]
      rfl

variable [DecidableEq ι]

/-- Sections that were run whole tell a thread what the calls would. -/
theorem told_answersTo (i : ι) (before : List StatsCall)
    (log : List (Entry ι IoStatsMap StatsLocal StatsCall))
    (hlog : ∀ e ∈ log, e.sec = e.call.steps) :
    told (answersTo i (answered statsCalls (recorded before) log)) =
      toldInOrder i before (order log) := by
  induction log generalizing before with
  | nil => rfl
  | cons e log ih =>
    obtain ⟨hsec, htail⟩ := List.forall_mem_cons.1 hlog
    obtain ⟨thread, call, sec⟩ := e
    obtain rfl : sec = call.steps := hsec
    cases call with
    | record address ok attemptsMade =>
      have hrest := ih (before ++ [.record address ok attemptsMade]) htail
      rw [recorded_record, ← run_recordSection _ _ _ _ statsCalls.start] at hrest
      rw [order, List.map_cons, toldInOrder, ← order, ← hrest]
      by_cases hthread : thread = i <;>
        simp [answered, answersTo, told, hthread, StatsCall.steps]
    | statsFor address =>
      have hrest := ih (before ++ [.statsFor address]) htail
      rw [recorded_statsFor] at hrest
      rw [order, List.map_cons, toldInOrder, ← order, ← hrest]
      by_cases hthread : thread = i <;>
        simp [answered, answersTo, told, hthread, StatsCall.steps, run_statsForSection]

theorem bounded_statsCalls : statsCalls.Bounded 4 := by
  rintro c a _ ⟨⟩
  cases c <;> simp [StatsCall.steps, recordSection, statsForSection, addTo]

variable [Fintype ι]

/-- The counters after all calls of all programs, in whatever order. -/
def recordedByAll (program : ι → List StatsCall) (address : UInt8) : IoStats :=
  .ofCounts fun c => ∑ i, ((program i).map (StatsCall.adds address c)).sum

/-- However the loads and stores of threads interleave that share the counters, the calls that
returned have an order, that of each thread's program, in which every `stats_for` told the
counters of the calls before it. While the mutex is free the counters are those of the calls.
Nothing deadlocks : every run goes on to where all calls were made, and none goes on forever.
Then no operation that any thread recorded is lost. -/
theorem stats_threads (program : ι → List StatsCall)
    {s : State ι Unit IoStatsMap StatsLocal StatsCall}
    (h : Reachable statsCalls () .empty program s) :
    (∃ calls : List (ι × StatsCall),
      (∀ i, callsOf i calls = (s.threads i).answers.map Prod.fst ∧
        callsOf i calls <+: program i ∧ told (s.threads i).ran = toldInOrder i [] calls) ∧
      (s.holder = none → s.guarded = recorded (calls.map Prod.snd))) ∧
    (∃ s', Relation.ReflTransGen (Step statsCalls) s s' ∧ ∀ i, (s'.threads i).Finished) ∧
    (∀ run : ℕ → State ι Unit IoStatsMap StatsLocal StatsCall,
      ¬∀ k, Step statsCalls (run k) (run (k + 1))) ∧
    ((∀ i, (s.threads i).Finished) → s.guarded = recordedByAll program) := by
  obtain ⟨log, hs⟩ := serialized_of_reachable (Q := fun _ => True) trivial
    (fun _ _ _ _ _ => trivial) h
  have hsteps : ∀ e ∈ log, e.sec = e.call.steps := fun e he => sec_eq_of_admits (hs.admitted e he)
  have hcalls : ∀ i, callsOf i (order log) = (s.threads i).answers.map Prod.fst := fun i => by
    rw [hs.callsOf_order, hs.ran_calls (by rintro c ⟨_, -, henter⟩; cases henter)]
  have hguarded : s.holder = none → s.guarded = recorded ((order log).map Prod.snd) :=
    fun hfree => by rw [hs.free hfree, after_statsCalls log hsteps]
  refine ⟨⟨order log, fun i => ⟨hcalls i, ?_, ?_⟩, hguarded⟩,
    exists_finished bounded_statsCalls h, not_forall_step bounded_statsCalls,
    fun hfinished => ?_⟩
  · rw [hcalls i]
    exact hs.answers_prefix i
  · rw [hs.answers i]
    exact told_answersTo i [] log hsteps
  · have hprogram : ∀ i, callsOf i (order log) = program i := fun i => by
      rw [hcalls i, hs.answers_of_finished (hfinished i)]
    rw [hguarded (hs.free_of_finished hfinished)]
    funext address
    simp only [recorded, recordedByAll, ← hprogram, sum_callsOf, List.map_map]
    rfl

/-- Two threads that record a failure and a success at one address. -/
theorem stats_threads_two : ∃ s : State Bool Unit IoStatsMap StatsLocal StatsCall,
    Reachable statsCalls () .empty (fun i => [.record 0x40 i 3, .statsFor 0x40]) s ∧
      s.guarded 0x40 = { ok := 1, failed := 1, retriedAttempts := 4 } := by
  obtain ⟨s, hrun, hfinished⟩ :=
    (stats_threads (fun i => [.record 0x40 i 3, .statsFor 0x40]) .refl).2.1
  exact ⟨s, hrun, (congrFun ((stats_threads _ hrun).2.2.2 hfinished) 0x40).trans (by decide)⟩

end ProviderSdk.I2c

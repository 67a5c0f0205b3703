import ProviderSdk.Lib.Mutex
import ProviderSdk.Transport

/-!
# The logger

`src/anolis/provider_sdk/logging.cpp` : levels and their names, the threshold, and the lines
that `Logger::log` writes to `std::cerr`. The threshold is atomic and `std::cerr` is under the
mutex `g_sink_mutex` (`logCalls`). Each insertion into `std::cerr` is a step of its own, so that
without the mutex the lines of two threads could mix. An insertion may fail, with `badbit`, after
some of its bytes, and then nothing more is inserted.

However the threads interleave, `std::cerr` takes whole lines, and of a line that is being
written its start (`stderr_lines`) : all of it while no insertion fails, and the first bytes of
it where one did. The time of a line was taken before the mutex, so it is the caller's here, and
the times of successive lines need not be in order.
-/

namespace ProviderSdk.Logging

open Mutex

/-! ## Levels -/

inductive LogLevel where
  | debug
  | info
  | warn
  | error
  | none
  deriving DecidableEq

def levelRank : LogLevel → ℕ
  | .debug => 0
  | .info => 1
  | .warn => 2
  | .error => 3
  | .none => 4

/-- `std::toupper`, in the C locale. -/
def toUpper (c : UInt8) : UInt8 :=
  if chr 'a' ≤ c ∧ c ≤ chr 'z' then c - 32 else c

def upperCopy (input : Bytes) : Bytes :=
  input.map toUpper

/-- The level of a name, with `*ok`. -/
def parseLevel (value : Bytes) : LogLevel × Bool :=
  let normalized := upperCopy value
  if normalized = lit "DEBUG" then (.debug, true)
  else if normalized = lit "INFO" then (.info, true)
  else if normalized = lit "WARN" ∨ normalized = lit "WARNING" then (.warn, true)
  else if normalized = lit "ERROR" then (.error, true)
  else if normalized = lit "NONE" ∨ normalized = lit "OFF" then (.none, true)
  else (.info, false)

/-- `Logger::to_string`. -/
def LogLevel.name : LogLevel → Bytes
  | debug => lit "DEBUG"
  | info => lit "INFO"
  | warn => lit "WARN"
  | error => lit "ERROR"
  | none => lit "NONE"

/-- The name of a level is read as the level, whatever the case of its letters. -/
theorem parseLevel_eq (level : LogLevel) {value : Bytes} (h : upperCopy value = level.name) :
    parseLevel value = (level, true) := by
  unfold parseLevel
  rw [h]
  cases level <;> decide

/-! ## Lines -/

/-- The time of a line : the `std::tm` of `localtime_r`, and the milliseconds. -/
structure Stamp where
  tmYear : ℤ
  tmMon : ℤ
  tmMday : ℤ
  tmHour : ℤ
  tmMin : ℤ
  tmSec : ℤ
  ms : ℤ
  deriving DecidableEq

/-- A number with zeros before it, to a width. -/
def padded (width : ℕ) (n : ℤ) : Bytes :=
  let text := toStringInt n
  List.replicate (width - text.length) (chr '0') ++ text

/-- `std::put_time` with `"%Y-%m-%d %H:%M:%S"`. -/
def putTime (t : Stamp) : Bytes :=
  toStringInt (t.tmYear + 1900) ++ lit "-" ++ padded 2 (t.tmMon + 1) ++ lit "-" ++
    padded 2 t.tmMday ++ lit " " ++ padded 2 t.tmHour ++ lit ":" ++ padded 2 t.tmMin ++
    lit ":" ++ padded 2 t.tmSec

/-- What a line inserts into `std::cerr`, before the newline. -/
def insertions (level : LogLevel) (component message : Bytes) (time : Stamp) : List Bytes :=
  [lit "[", putTime time, lit ".", padded 3 time.ms, lit "] ",
    lit "[", level.name, lit "] ",
    lit "[", if component = [] then lit "General" else component, lit "] ", message]

/-! ## Calls -/

inductive LogCall where
  /-- `Logger::log`, at a time. -/
  | log (level : LogLevel) (component message : Bytes) (time : Stamp)
  /-- `Logger::set_level`, and `Logger::init`. -/
  | setLevel (threshold : LogLevel)
  deriving DecidableEq

def newline : UInt8 :=
  10

/-- The text of a line, without its newline. -/
def LogCall.text : LogCall → Bytes
  | log level component message time => (insertions level component message time).flatten
  | setLevel _ => []

def LogCall.line (c : LogCall) : Bytes :=
  c.text ++ [newline]

/-- A call that writes a line at this threshold. -/
def LogCall.passes (threshold : LogLevel) : LogCall → Bool
  | log level _ _ _ => levelRank threshold ≤ levelRank level
  | setLevel _ => false

/-- `std::cerr << text`. -/
def insert (text : Bytes) : OStream → Unit → OStream × Unit :=
  fun cerr _ => (cerr.write text, ())

/-- `std::cerr << std::flush`. -/
def flush : OStream → Unit → OStream × Unit :=
  fun cerr _ => (cerr.flush, ())

/-- `Logger::log`, from where it holds the mutex. -/
def logSection (level : LogLevel) (component message : Bytes) (time : Stamp) :
    Section OStream Unit :=
  (insertions level component message time ++ [[newline]]).map insert ++
    if levelRank level ≥ levelRank .error then [flush] else []

/-- The calls of the logger. -/
def logCalls : Calls LogLevel OStream Unit LogCall where
  enter
    | .log level component message time, threshold =>
      (threshold, if levelRank level < levelRank threshold then none else
        some (logSection level component message time))
    | .setLevel threshold, _ => (threshold, none)
  start := ()

/-- The calls of `Logger::init_from_env`, at a time. A null pointer is none. -/
def initFromEnv (getenv : Bytes → Option Bytes) (envVar : Option Bytes) (time : Stamp) :
    List LogCall :=
  .setLevel .info :: match envVar with
  | none | some [] => []
  | some name => match getenv name with
    | none | some [] => []
    | some raw =>
      let (parsed, ok) := parseLevel raw
      .setLevel parsed :: if ok then [] else
        [.log .warn (lit "Logger")
          (lit "Invalid " ++ name ++ lit "='" ++ raw ++ lit "', defaulting to INFO") time]

/-- A level that the environment names is the threshold in the end, and nothing is written. -/
theorem initFromEnv_named {getenv : Bytes → Option Bytes} {name raw : Bytes} {level : LogLevel}
    (hname : name ≠ []) (hget : getenv name = some raw) (h : upperCopy raw = level.name)
    (time : Stamp) : initFromEnv getenv (some name) time = [.setLevel .info, .setLevel level] := by
  have hraw : raw ≠ [] := by
    rintro rfl
    cases level <;> exact absurd h (by decide)
  cases name with
  | nil => exact absurd rfl hname
  | cons b name =>
    cases raw with
    | nil => exact absurd rfl hraw
    | cons c raw => simp [initFromEnv, hget, parseLevel_eq level h]

/-! ## What a stream takes -/

/-- From `s` on the stream took a text, and is `t` : all of it where it is still good, and the
first bytes of it where it is not. -/
structure Took (s : OStream) (text : Bytes) (t : OStream) : Prop where
  good : t.good = true → s.good = true
  whole : t.good = true → t.written = s.written ++ text
  torn : ∃ torn, t.written = s.written ++ torn ∧ torn <+: text
  stuck : s.good = false → t = s
  sound : s.Sound → t.Sound

theorem took_nil (s : OStream) : Took s [] s :=
  ⟨id, fun _ => by simp, ⟨[], by simp⟩, fun _ => rfl, id⟩

theorem took_write (s : OStream) (data : Bytes) : Took s data (s.write data) where
  good h := by
    by_contra hbad
    rw [OStream.write, if_neg hbad] at h
    exact hbad h
  whole h := by
    obtain ⟨torn, hwritten, -, hall⟩ := exists_torn_write s data
    rw [hwritten, hall h]
  torn := by
    obtain ⟨torn, hwritten, hprefix, -⟩ := exists_torn_write s data
    exact ⟨torn, hwritten, hprefix⟩
  stuck h := by simp [OStream.write, h]
  sound h := by
    obtain ⟨hgood, hok⟩ := h
    simp [OStream.write, OStream.Sound, hgood, hok]

theorem Took.trans {s t u : OStream} {a b : Bytes} (hst : Took s a t) (htu : Took t b u) :
    Took s (a ++ b) u where
  good h := hst.good (htu.good h)
  whole h := by rw [htu.whole h, hst.whole (htu.good h), List.append_assoc]
  torn := by
    cases hgood : t.good with
    | true =>
      obtain ⟨torn, hwritten, hprefix⟩ := htu.torn
      refine ⟨a ++ torn, ?_, (List.prefix_append_right_inj a).2 hprefix⟩
      rw [hwritten, hst.whole hgood, List.append_assoc]
    | false =>
      obtain ⟨torn, hwritten, hprefix⟩ := hst.torn
      exact ⟨torn, by rw [htu.stuck hgood, hwritten], hprefix.trans (List.prefix_append a b)⟩
  stuck h := by
    obtain rfl := hst.stuck h
    exact htu.stuck h
  sound h := htu.sound (hst.sound h)

theorem took_foldl (texts : List Bytes) (s : OStream) :
    Took s texts.flatten (texts.foldl OStream.write s) := by
  induction texts generalizing s with
  | nil => exact took_nil s
  | cons text texts ih => exact (took_write s text).trans (ih _)

/-! ## What a section writes -/

theorem run_insert (texts : List Bytes) (cerr : OStream) (l : Unit) :
    Section.run (texts.map insert) cerr l = (texts.foldl OStream.write cerr, l) := by
  induction texts generalizing cerr with
  | nil => rfl
  | cons text texts ih => exact ih _

/-- A section inserts texts, the last of them empty where it flushes. -/
theorem logSection_eq (level : LogLevel) (component message : Bytes) (time : Stamp) :
    logSection level component message time =
      (insertions level component message time ++ [newline] ::
        if levelRank level ≥ levelRank .error then [[]] else []).map insert := by
  have hflush : flush = insert [] := rfl
  unfold logSection
  split <;> simp [hflush]

/-- A call that goes on to its section passes a threshold, and writes its line. -/
theorem exists_texts_of_admits {Q : LogLevel → Prop} {c : LogCall} {sec : Section OStream Unit}
    (h : logCalls.Admits Q c sec) : (∃ threshold, Q threshold ∧ c.passes threshold = true) ∧
      ∃ texts : List Bytes, sec = texts.map insert ∧ texts.flatten = c.line := by
  obtain ⟨threshold, hQ, henter⟩ := h
  cases c with
  | setLevel t => cases henter
  | log level component message time =>
    simp only [logCalls, Option.ite_none_left_eq_some, not_lt, Option.some.injEq] at henter
    obtain ⟨hrank, rfl⟩ := henter
    refine ⟨⟨threshold, hQ, by simpa [LogCall.passes] using hrank⟩, _, logSection_eq .., ?_⟩
    split <;> simp [LogCall.line, LogCall.text]

theorem not_passes_of_skips {Q : LogLevel → Prop} {c : LogCall} (h : logCalls.Skips Q c) :
    ∃ threshold, Q threshold ∧ c.passes threshold = false := by
  obtain ⟨threshold, hQ, henter⟩ := h
  refine ⟨threshold, hQ, ?_⟩
  cases c with
  | setLevel t => rfl
  | log level component message time =>
    by_contra hpasses
    simp_all [logCalls, LogCall.passes]

theorem bounded_logCalls : logCalls.Bounded 14 := by
  intro c threshold sec h
  cases c with
  | setLevel t => cases h
  | log level component message time =>
    simp only [logCalls, Option.ite_none_left_eq_some, Option.some.injEq] at h
    rw [← h.2, logSection]
    split <;> simp [insertions]

/-! ## What threads write -/

variable {ι : Type}

/-- A threshold that there is at some time : the first, or one that a thread sets, be it before
or after a call that it is compared with. -/
def Occurs (threshold : LogLevel) (program : ι → List LogCall) (t : LogLevel) : Prop :=
  t = threshold ∨ ∃ i, .setLevel t ∈ program i

/-- The lines of calls, one after the other. -/
def lines (written : List (ι × LogCall)) : Bytes :=
  (written.map fun p => p.2.line).flatten

theorem after_logCalls {Q : LogLevel → Prop} (log : List (Entry ι OStream Unit LogCall))
    (hlog : ∀ e ∈ log, logCalls.Admits Q e.call e.sec) (cerr : OStream) :
    Took cerr (lines (order log)) (after logCalls cerr log) := by
  induction log generalizing cerr with
  | nil => exact took_nil cerr
  | cons e log ih =>
    obtain ⟨he, hlog⟩ := List.forall_mem_cons.1 hlog
    obtain ⟨-, texts, hsec, htexts⟩ := exists_texts_of_admits he
    have hline : Took cerr e.call.line (Section.run e.sec cerr logCalls.start).1 := by
      rw [hsec, run_insert, ← htexts]
      exact took_foldl texts cerr
    exact hline.trans (ih hlog _)

/-- Lines without other newlines are found again. -/
theorem splitOn_lines (written : List (ι × LogCall))
    (h : ∀ p ∈ written, newline ∉ p.2.text) :
    (lines written).splitOn newline = written.map (fun p => p.2.text) ++ [[]] := by
  induction written with
  | nil => rfl
  | cons p written ih =>
    obtain ⟨hp, h⟩ := List.forall_mem_cons.1 h
    have hcons : lines (p :: written) = p.2.text ++ newline :: lines written := by
      simp [lines, LogCall.line]
    have hother : ∀ b ∈ p.2.text, (b == newline) = false := by
      intro b hb
      simpa using ne_of_mem_of_not_mem hb hp
    rw [hcons, List.splitOn_eq_splitOnP, List.splitOnP_append_cons_of_forall_mem hother _ (by simp),
      ← List.splitOn_eq_splitOnP, ih h]
    rfl

variable [DecidableEq ι]

section Serialized

variable {Q : LogLevel → Prop} {cerr : OStream} {program : ι → List LogCall}
  {log : List (Entry ι OStream Unit LogCall)} {s : State ι LogLevel OStream Unit LogCall}

/-- A call is written or suppressed by a threshold that was there. -/
theorem exists_threshold (hs : Serialized logCalls Q cerr program log s) {i : ι}
    {p : LogCall × Option Unit} (hp : p ∈ (s.threads i).answers) :
    ∃ t, Q t ∧ p.1.passes t = p.2.isSome := by
  obtain ⟨c, l⟩ := p
  cases l with
  | none => exact not_passes_of_skips (hs.skipped i _ hp rfl)
  | some l =>
    obtain ⟨sec, hadmits⟩ := hs.admits hp rfl
    exact (exists_texts_of_admits hadmits).1

/-- After the lines there is what the holder has written of its own. -/
theorem exists_part (hs : Serialized logCalls Q cerr program log s) :
    ∃ part, Took cerr (lines (order log) ++ part) s.guarded ∧ (s.holder = none → part = []) ∧
      ∀ i, s.holder = some i → ∃ c, (s.threads i).phase.call? = some c ∧ part <+: c.line := by
  have hlines := after_logCalls log hs.admitted cerr
  cases hholder : s.holder with
  | none =>
    rw [← hs.free hholder] at hlines
    exact ⟨[], by rwa [List.append_nil], fun _ => rfl, by simp⟩
  | some j =>
    obtain ⟨c, ran, rest, l, hinside, hadmits, hrun⟩ := hs.held j hholder
    obtain ⟨-, texts, hsec, hline⟩ := exists_texts_of_admits hadmits
    obtain ⟨texts₁, texts₂, rfl, rfl, -⟩ := List.map_eq_append_iff.1 hsec.symm
    rw [run_insert] at hrun
    refine ⟨texts₁.flatten, ?_, by simp, ?_⟩
    · rw [← (Prod.mk.inj hrun).1]
      exact hlines.trans (took_foldl texts₁ _)
    · rintro i ⟨⟩
      refine ⟨c, by rw [hinside]; rfl, ?_⟩
      rw [← hline, List.flatten_append]
      exact List.prefix_append _ _

/-- A step inserts one text, or nothing. -/
theorem exists_took_step (hs : Serialized logCalls Q cerr program log s)
    {s' : State ι LogLevel OStream Unit LogCall} (hstep : Step logCalls s s') :
    ∃ text, Took s.guarded text s'.guarded := by
  cases hstep with
  | @work i t ht c f rest l hphase =>
    subst ht
    obtain ⟨c', ran, rest', l', hinside, hadmits, -⟩ := hs.held i (hs.inside i _ _ _ hphase)
    obtain ⟨rfl, rfl, rfl⟩ := Phase.inside.inj (hphase.symm.trans hinside)
    obtain ⟨-, texts, hsec, -⟩ := exists_texts_of_admits hadmits
    have hmem : f ∈ texts.map insert := hsec ▸ List.mem_append_right ran List.mem_cons_self
    obtain ⟨text, -, rfl⟩ := List.mem_map.1 hmem
    exact ⟨text, took_write s.guarded text⟩
  | _ => exact ⟨[], took_nil s.guarded⟩

/-- What was taken stays, and after a failure nothing is. -/
theorem exists_took_run {threshold : LogLevel} (h : Reachable logCalls threshold cerr program s)
    {s' : State ι LogLevel OStream Unit LogCall}
    (hrun : Relation.ReflTransGen (Step logCalls) s s') :
    ∃ text, Took s.guarded text s'.guarded := by
  induction hrun with
  | refl => exact ⟨[], took_nil s.guarded⟩
  | tail hrun hstep ih =>
    obtain ⟨text, htook⟩ := ih
    obtain ⟨log, hs⟩ := serialized_of_reachable (Q := fun _ => True) trivial
      (fun _ _ _ _ _ => trivial) (h.trans hrun)
    obtain ⟨text', htook'⟩ := exists_took_step hs hstep
    exact ⟨text ++ text', htook.trans htook'⟩

end Serialized

variable [Fintype ι]

/-- However threads interleave that log and set the level, what `std::cerr` takes is whole lines
one after the other, those of one thread in its order, and while the mutex is held the start of
one more. A call is suppressed only by a threshold that occurs, and written only by one. Where
the thresholds that occur agree on the calls, the lines in the end are those of the calls that
pass. Lines whose texts have no newline are found again, while no insertion has failed. What was
taken stays, and after a failure nothing is. -/
theorem stderr_lines (threshold : LogLevel) (cerr : OStream) (program : ι → List LogCall)
    {s : State ι LogLevel OStream Unit LogCall}
    (h : Reachable logCalls threshold cerr program s) :
    (∀ i, (s.threads i).answers.map Prod.fst <+: program i ∧
      ((s.threads i).Finished → (s.threads i).answers.map Prod.fst = program i) ∧
      ∀ p ∈ (s.threads i).answers, ∃ t, Occurs threshold program t ∧
        p.1.passes t = p.2.isSome) ∧
    (∃ written : List (ι × LogCall),
      (∀ i, callsOf i written =
        ((s.threads i).answers.filter fun p => p.2.isSome).map Prod.fst) ∧
      (∃ part, Took cerr (lines written ++ part) s.guarded ∧ (s.holder = none → part = []) ∧
        ∀ i, s.holder = some i → ∃ c, (s.threads i).phase.call? = some c ∧ part <+: c.line) ∧
      ((∀ i, ∀ c ∈ program i, ∀ t, Occurs threshold program t →
          c.passes t = c.passes threshold) → (∀ i, (s.threads i).Finished) →
        ∀ i, callsOf i written = (program i).filter fun c => c.passes threshold) ∧
      ((∀ i, ∀ c ∈ program i, newline ∉ c.text) → cerr.written = [] → s.holder = none →
        s.guarded.good = true →
        s.guarded.written.splitOn newline = written.map (fun p => p.2.text) ++ [[]])) ∧
    (∀ s', Relation.ReflTransGen (Step logCalls) s s' → ∃ text, Took s.guarded text s'.guarded) ∧
    ∃ s', Relation.ReflTransGen (Step logCalls) s s' ∧ ∀ i, (s'.threads i).Finished := by
  have hthreshold : ∀ i, ∀ c ∈ program i, ∀ t, Occurs threshold program t →
      Occurs threshold program (logCalls.enter c t).1 := by
    intro i c hc t ht
    cases c with
    | log level component message time => exact ht
    | setLevel t' => exact .inr ⟨i, hc⟩
  obtain ⟨log, hs⟩ := serialized_of_reachable (.inl rfl) hthreshold h
  have hcalls : ∀ i, callsOf i (order log) =
      ((s.threads i).answers.filter fun p => p.2.isSome).map Prod.fst := fun i => by
    rw [hs.callsOf_order, Thread.map_fst_ran]
  refine ⟨fun i => ⟨hs.answers_prefix i, hs.answers_of_finished,
    fun _ hp => exists_threshold hs hp⟩, ⟨order log, hcalls, exists_part hs, ?_, ?_⟩,
    fun _ hrun => exists_took_run h hrun, exists_finished bounded_logCalls h⟩
  · intro hagree hfinished i
    rw [hcalls i, ← hs.answers_of_finished (hfinished i), List.filter_map]
    refine congrArg (List.map Prod.fst) (List.filter_congr fun p hp => ?_)
    obtain ⟨t, ht, hpasses⟩ := exists_threshold hs hp
    have hmem := (hs.answers_prefix i).subset (List.mem_map_of_mem hp)
    exact hpasses.symm.trans (hagree i p.1 hmem t ht)
  · intro htexts hempty hfree hgood
    have hwhole := (after_logCalls log hs.admitted cerr).whole (by rwa [← hs.free hfree])
    rw [hs.free hfree, hwhole, hempty, List.nil_append]
    refine splitOn_lines _ fun p hp => htexts p.1 p.2 ((hs.answers_prefix p.1).subset ?_)
    have hmem : p.2 ∈ callsOf p.1 (order log) :=
      List.mem_map_of_mem (List.mem_filter.2 ⟨hp, by simp⟩)
    rw [hcalls] at hmem
    exact (List.filter_sublist.map Prod.fst).subset hmem

/-- Two threads, one of which sets the level while the other logs. Where the first is in its line
the second waits for the mutex, and in the end the lines of both are there. -/
theorem stderr_lines_two :
    let time : Stamp := ⟨126, 8, 1, 7, 30, 5, 42⟩
    let hot : LogCall := .log .error (lit "plant") (lit "hot") time
    let boom : LogCall := .log .error [] (lit "boom") time
    let program : Bool → List LogCall := fun i =>
      if i then [.setLevel .warn, boom] else [.log .debug (lit "sim") (lit "tick") time, hot]
    let cerr : OStream := ⟨[], true, fun _ => .ok⟩
    ∃ s s', Reachable logCalls .info cerr program s ∧ s.atomic = .warn ∧
      s.holder = some false ∧ (s.threads true).phase.call? = some boom ∧
      s.guarded.written = lit "[2026-09-01 07:30:05" ∧ s.guarded.written <+: hot.line ∧
      Relation.ReflTransGen (Step logCalls) s s' ∧
      ∃ written : List (Bool × LogCall), callsOf false written = [hot] ∧
        callsOf true written = [boom] ∧ s'.guarded.written = lines written := by
  intro time hot boom program cerr
  let s := [false, true, false, true, false, false, true, false].foldl (State.turn logCalls)
    (initial .info cerr program)
  have hs : Reachable logCalls .info cerr program s := reachable_turns _ _ _ _ _
  obtain ⟨-, -, -, s', hrun, hfinished⟩ := stderr_lines .info cerr program hs
  obtain ⟨-, ⟨written, -, ⟨part, htook, hpart, hholder⟩, hagree, -⟩, -⟩ :=
    stderr_lines .info cerr program (hs.trans hrun)
  have hfree : s'.holder = none := by
    refine Option.eq_none_iff_forall_ne_some.2 fun i hi => ?_
    obtain ⟨c, hc, -⟩ := hholder i hi
    rw [(hfinished i).1] at hc
    cases hc
  have hoccurs : ∀ t, Occurs .info program t → t = .info ∨ t = .warn := by
    rintro t (rfl | ⟨i, hi⟩)
    · exact .inl rfl
    · cases i <;> simp [program, hot, boom] at hi
      exact .inr hi
  have hcalls := hagree (by
    intro i c hc t ht
    obtain rfl | rfl := hoccurs t ht
    · rfl
    · revert c
      cases i <;> decide) hfinished
  have hgood := (htook.sound ⟨rfl, fun _ => rfl⟩).1
  refine ⟨s, s', hs, rfl, rfl, rfl, by decide +kernel, by decide +kernel, hrun, written,
    (hcalls false).trans (by decide), (hcalls true).trans (by decide), ?_⟩
  rw [htook.whole hgood, hpart hfree]
  exact List.append_nil _

end ProviderSdk.Logging

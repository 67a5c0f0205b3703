import ProviderSdk.RunLoop
import Mathlib.Data.Prod.Lex

/-!
# The read policy

When `handle_read_signals` reads, and what its answer holds.

A request is admitted if its device is known and declares every signal the request names.
An admitted request is read once, any other not at all, so an answer never has some of the
signals (`ReadPolicy`). The values come back as the provider gave them, but for an `OK` that
is older than `min_timestamp`, which is `STALE` (`Freshened`).
-/

namespace ProviderSdk

variable {σ : Type}

/-! ## Freshness -/

/-- A timestamp in lexicographic order. -/
def Timestamp.key (ts : Timestamp) : ℤ ×ₗ ℤ :=
  toLex (ts.seconds, ts.nanos)

theorem Timestamp.older_iff (ts minTs : Timestamp) :
    ts.older minTs = true ↔ ts.key < minTs.key := by
  simp [Timestamp.older, Timestamp.key, Prod.Lex.toLex_lt_toLex]

/-- `w` is `v` in all but its quality, and its quality is `STALE` instead of `OK` exactly
when `v` is older than the minimum. -/
structure Freshened (minTs : Option Timestamp) (v w : SignalValue) : Prop where
  signalId : w.signalId = v.signalId
  value : w.value = v.value
  timestamp : w.timestamp = v.timestamp
  quality : w.quality = v.quality ∨ v.quality = .ok ∧ w.quality = .stale
  changed_iff : w.quality ≠ v.quality ↔
    v.quality = .ok ∧ ∃ m, minTs = some m ∧ v.timestamp.key < m.key

/-- What `apply_min_timestamp` makes of one value. -/
def freshen (minTs : Option Timestamp) (v : SignalValue) : SignalValue :=
  match minTs with
  | none => v
  | some m => if v.timestamp.older m ∧ v.quality = .ok then { v with quality := .stale } else v

theorem applyMinTimestamp_values (request : ReadSignalsRequest) (out : ReadSignalsResponse) :
    applyMinTimestamp request out =
      { out with values := out.values.map (freshen request.minTimestamp) } := by
  unfold applyMinTimestamp
  cases hmin : request.minTimestamp with
  | none =>
    have hid : freshen none = id := rfl
    rw [hid, List.map_id]
  | some m => rfl

theorem freshened_freshen (minTs : Option Timestamp) (v : SignalValue) :
    Freshened minTs v (freshen minTs v) := by
  cases minTs with
  | none => exact ⟨rfl, rfl, rfl, .inl rfl, by simp [freshen]⟩
  | some m =>
    unfold freshen
    dsimp only
    split_ifs with h
    · obtain ⟨hold, hok⟩ := h
      rw [Timestamp.older_iff] at hold
      exact ⟨rfl, rfl, rfl, .inr ⟨hok, rfl⟩, by simp [hok, hold]⟩
    · refine ⟨rfl, rfl, rfl, .inl rfl, iff_of_false (by simp) ?_⟩
      rintro ⟨hok, m', hm, hold⟩
      obtain rfl := Option.some.inj hm
      exact h ⟨(Timestamp.older_iff _ _).mpr hold, hok⟩

/-- Only an `OK` changes. -/
theorem freshen_of_ne_ok (minTs : Option Timestamp) {v : SignalValue} (h : v.quality ≠ .ok) :
    freshen minTs v = v := by
  cases minTs with
  | none => rfl
  | some m => exact if_neg fun hc => h hc.2

theorem freshen_eq_or (minTs : Option Timestamp) (v : SignalValue) :
    freshen minTs v = v ∨ (freshen minTs v).quality = .stale := by
  cases minTs with
  | none => exact .inl rfl
  | some m =>
    unfold freshen
    dsimp only
    split_ifs
    · exact .inr rfl
    · exact .inl rfl

theorem freshen_freshen (minTs : Option Timestamp) (v : SignalValue) :
    freshen minTs (freshen minTs v) = freshen minTs v := by
  rcases freshen_eq_or minTs v with h | h
  · rw [h, h]
  · exact freshen_of_ne_ok minTs (by simp [h])

/-- `minTs'` asks for values at least as fresh. No minimum asks for nothing. -/
def Raises (minTs minTs' : Option Timestamp) : Prop :=
  ∀ m, minTs = some m → ∃ m', minTs' = some m' ∧ m.key ≤ m'.key

/-- What is stale under a minimum is stale under a higher one. -/
theorem stale_freshen_of_raises {minTs minTs' : Option Timestamp} (h : Raises minTs minTs')
    {v : SignalValue} (hstale : (freshen minTs v).quality = .stale) :
    (freshen minTs' v).quality = .stale := by
  by_cases hok : v.quality = .ok
  · have hchanged : (freshen minTs v).quality ≠ v.quality := by simp [hstale, hok]
    obtain ⟨-, m, hm, hold⟩ := (freshened_freshen minTs v).changed_iff.mp hchanged
    obtain ⟨m', hm', hle⟩ := h m hm
    have hspec := freshened_freshen minTs' v
    have hne := hspec.changed_iff.mpr ⟨hok, m', hm', hold.trans_le hle⟩
    exact (hspec.quality.resolve_left hne).2
  · rw [freshen_of_ne_ok minTs hok] at hstale
    rwa [freshen_of_ne_ok minTs' hok]

/-! ## When the provider reads -/

/-- The `read` calls, with their arguments and answers, in order. -/
def readCalls (events : List Event) : List (Bytes × List Bytes × AdapterReadResult) :=
  events.filterMap fun
    | .invoked (.read deviceId signalIds answer) => some (deviceId, signalIds, answer)
    | _ => none

theorem readCalls_append (es es' : List Event) :
    readCalls (es ++ es') = readCalls es ++ readCalls es' :=
  List.filterMap_append

/-- The device is given and known, and it declares every signal that the request names. The
provider is asked in state `s`, and then in the state its first answer left. -/
def Admitted (host : Host σ) (request : ReadSignalsRequest) (s : σ) : Prop :=
  request.deviceId ≠ [] ∧ (host.runtime.hasDevice request.deviceId s).1 = true ∧
    ∀ id ∈ request.signalIds, id ∈ (host.runtime.capabilities request.deviceId
      (host.runtime.hasDevice request.deviceId s).2).1.signals.map SignalSpec.signalId

/-- What a read request makes of a provider, and what is answered. -/
structure ReadPolicy (host : Host σ) (request : ReadSignalsRequest) (s : σ) (r : Response)
    (calls : List (Bytes × List Bytes × AdapterReadResult)) : Prop where
  at_most_once : calls.length ≤ 1
  called_iff : calls ≠ [] ↔ Admitted host request s
  arguments : ∀ call ∈ calls, call.1 = request.deviceId ∧ call.2.1 = request.signalIds
  no_values : (∀ call ∈ calls, call.2.2.ok = false) → r.payload = .none
  values : ∀ call ∈ calls, call.2.2.ok = true → ∃ values,
    r.payload = .readSignals ⟨request.deviceId, values⟩ ∧
      List.Forall₂ (Freshened request.minTimestamp) call.2.2.values values

section Policy

variable {host : Host σ} {request : ReadSignalsRequest} {s : σ} {r : Response}

/-- A request that is not admitted is not read. -/
theorem readPolicy_refused (h : ¬Admitted host request s) (hr : r.payload = .none) :
    ReadPolicy host request s r [] :=
  ⟨Nat.zero_le 1, iff_of_false (not_not.mpr rfl) h, by simp, fun _ => hr, by simp⟩

/-- What a read returned, as an answer. -/
def readResponse (request : ReadSignalsRequest) (result : AdapterReadResult)
    (response : Response) : Response :=
  if result.ok = false then response.setStatus result.errorCode result.errorMessage
  else
    { response with
      payload := .readSignals (applyMinTimestamp request
        { deviceId := request.deviceId, values := result.values }) }.setStatusOk

theorem readKnownSignals_ran (host : Host σ) (request : ReadSignalsRequest)
    (response : Response) (t : σ) :
    let result := (host.runtime.read request.deviceId request.signalIds t).1
    (readKnownSignals host request response t).value = readResponse request result response ∧
      (readKnownSignals host request response t).events =
        [.invoked (.read request.deviceId request.signalIds result)] := by
  dsimp only
  rw [readKnownSignals, Host.read, Traced.bind_apply, Traced.observe_apply, readResponse]
  dsimp only
  split_ifs
  · exact ⟨rfl, rfl⟩
  · exact ⟨rfl, rfl⟩

/-- An admitted request is read, in whatever state it comes to that. -/
theorem readPolicy_admitted (h : Admitted host request s) {response : Response}
    (hresponse : response.payload = .none) (result : AdapterReadResult) :
    ReadPolicy host request s (readResponse request result response)
      [(request.deviceId, request.signalIds, result)] := by
  refine ⟨Nat.le_refl 1, iff_of_true (by simp) h, by simp, ?_, ?_⟩
  · intro hfailed
    rw [List.forall_mem_singleton] at hfailed
    rw [readResponse, if_pos hfailed]
    exact hresponse
  · rw [List.forall_mem_singleton]
    intro hok
    have hnot : ¬result.ok = false := by simpa using hok
    rw [readResponse, if_neg hnot, applyMinTimestamp_values]
    refine ⟨_, rfl, ?_⟩
    rw [List.forall₂_map_right_iff]
    exact List.forall₂_same.mpr fun v _ => freshened_freshen request.minTimestamp v

/-- A read request is read exactly when it is admitted, and all of it is. -/
theorem handleReadSignals_policy (host : Host σ) (request : ReadSignalsRequest)
    {response : Response} (hresponse : response.payload = .none) (s : σ) :
    ReadPolicy host request s (handleReadSignals host request response s).value
      (readCalls (handleReadSignals host request response s).events) := by
  rw [handleReadSignals]
  by_cases hgiven : request.deviceId = []
  · rw [if_pos hgiven]
    exact readPolicy_refused (fun h => h.1 hgiven) hresponse
  rw [if_neg hgiven, Host.hasDevice, Traced.bind_apply, Traced.observe_apply]
  dsimp only
  rw [readCalls_append]
  by_cases hknown : (host.runtime.hasDevice request.deviceId s).1 = false
  · rw [if_pos hknown]
    exact readPolicy_refused (fun h => by simp [h.2.1] at hknown) hresponse
  have hknown' : (host.runtime.hasDevice request.deviceId s).1 = true := by simpa using hknown
  rw [if_neg hknown]
  by_cases hnone : request.signalIds = []
  · rw [if_pos hnone]
    have hadmitted : Admitted host request s := ⟨hgiven, hknown', by simp [hnone]⟩
    obtain ⟨hvalue, hevents⟩ := readKnownSignals_ran host request response
      (host.runtime.hasDevice request.deviceId s).2
    rw [hvalue, hevents]
    exact readPolicy_admitted hadmitted hresponse _
  rw [if_neg hnone, Host.capabilities, Traced.bind_apply, Traced.observe_apply]
  dsimp only
  rw [readCalls_append]
  generalize hfind : List.find? _ request.signalIds = unknown
  cases unknown with
  | some id =>
    refine readPolicy_refused (fun h => ?_) hresponse
    have hnot := List.find?_some hfind
    exact of_decide_eq_true hnot (h.2.2 id (List.mem_of_find?_eq_some hfind))
  | none =>
    have hadmitted : Admitted host request s := by
      refine ⟨hgiven, hknown', fun id hid => ?_⟩
      simpa using List.find?_eq_none.mp hfind id hid
    obtain ⟨hvalue, hevents⟩ := readKnownSignals_ran host request response
      (host.runtime.capabilities request.deviceId
        (host.runtime.hasDevice request.deviceId s).2).2
    rw [hvalue, hevents]
    exact readPolicy_admitted hadmitted hresponse _

end Policy

/-- ReadSignals is all or nothing, and freshness only makes an `OK` stale : at once, and
for good. -/
theorem readSignals_all_or_nothing (host : Host σ) (readSignals : ReadSignalsRequest) :
    (∀ request s, ReadPolicy host readSignals s
        (handleReadSignals host readSignals (initialResponse request) s).value
        (readCalls (handleReadSignals host readSignals (initialResponse request) s).events)) ∧
      (∀ out, applyMinTimestamp readSignals (applyMinTimestamp readSignals out) =
        applyMinTimestamp readSignals out) ∧
      ∀ (raised : ReadSignalsRequest) (out : ReadSignalsResponse),
        Raises readSignals.minTimestamp raised.minTimestamp →
          List.Forall₂ (fun v w => v.quality = .stale → w.quality = .stale)
            (applyMinTimestamp readSignals out).values (applyMinTimestamp raised out).values := by
  refine ⟨fun request s => handleReadSignals_policy host readSignals rfl s, fun out => ?_,
    fun raised out hraises => ?_⟩
  · simp only [applyMinTimestamp_values, List.map_map]
    congr 2
    ext1 v
    exact freshen_freshen _ v
  · simp only [applyMinTimestamp_values]
    rw [List.forall₂_map_left_iff, List.forall₂_map_right_iff]
    exact List.forall₂_same.mpr fun v _ => stale_freshen_of_raises hraises

end ProviderSdk

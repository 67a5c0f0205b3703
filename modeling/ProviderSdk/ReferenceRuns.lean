import ProviderSdk.Guarantees
import ProviderSdk.CallRules
import ProviderSdk.ReferenceProvider

/-!
# Runs of the reference provider

What the loop guarantees (`Host.Sustains`) is what the reference provider relies on : it looks
up a device and a signal without a check of its own. `Moves` says what one invocation does to
the heaters, when it is cleared, and every invariant of a run follows from it.

So no run throws (`reference_never_throws`), a run ends with every heater off
(`reference_ends_off`), and the power shown is the one last set (`reference_shows_power`).
-/

namespace ProviderSdk

open Floating (binary64)

variable {ω : Type} {P : Platform ω} {configs : List HeaterConfig}

/-! ## What the provider tells -/

/-- What a method of the reference provider answers about the heaters it was made with. -/
def Truthful (configs : List HeaterConfig) : Event → Prop
  | .invoked (.hasDevice id known) => known = decide (id ∈ configs.map HeaterConfig.id)
  | .invoked (.listDeviceIds ids) => ids = configs.map HeaterConfig.id
  | .invoked (.readiness report) => report.failedDevices = []
  | .invoked (.capabilities _ caps) => caps = heaterCapabilities
  | _ => True

/-- The heaters are those the provider was made with, and nothing was thrown. -/
structure ReferenceRuntime.Sound (configs : List HeaterConfig) (s : ReferenceRuntime ω) : Prop where
  caps : s.caps = heaterCapabilities
  order : s.order = configs.map HeaterConfig.id
  threw : s.threw = false
  mem : ∀ id, id ∈ s.heaters ↔ id ∈ configs.map HeaterConfig.id
  config : ∀ id heater, s.heaters.lookup id = some heater → heater.config ∈ configs

/-- The values show the heater. -/
def Depicts (heater : Heater) (values : List SignalValue) : Prop :=
  ∀ value ∈ values, ∃ d, heater.values value.signalId = some d ∧ value.value = makeDoubleVal d

/-- The provider is sound, and told the truth so far. What was just read shows the heater. -/
structure Serves (configs : List HeaterConfig) (past : List Event) (s : ReferenceRuntime ω) :
    Prop where
  sound : s.Sound configs
  truthful : ∀ e ∈ past, Truthful configs e
  depicts : ∀ before deviceId signalIds result,
    past = before ++ [.invoked (.read deviceId signalIds result)] →
      ∃ heater, s.heaters.lookup deviceId = some heater ∧ Depicts heater result.values

namespace ReferenceRuntime

theorem Sound.exists_heater {s : ReferenceRuntime ω} (h : s.Sound configs) {id : Bytes}
    (hid : id ∈ configs.map HeaterConfig.id) : ∃ heater, s.heaters.lookup id = some heater :=
  Option.isSome_iff_exists.mp (AList.lookup_isSome.mpr ((h.mem id).mpr hid))

/-- A heater that is replaced by one with its configuration leaves the provider sound. -/
theorem Sound.insert {s : ReferenceRuntime ω} (h : s.Sound configs) {id : Bytes}
    {heater heater' : Heater} (hid : s.heaters.lookup id = some heater)
    (hconfig : heater'.config = heater.config) (w : ω) :
    Sound configs { s with heaters := s.heaters.insert id heater', world := w } where
  caps := h.caps
  order := h.order
  threw := h.threw
  mem other := by
    have hmem : id ∈ s.heaters := AList.lookup_isSome.mp (by rw [hid]; rfl)
    rw [AList.mem_insert, ← h.mem other]
    exact or_iff_right_of_imp fun heq => heq ▸ hmem
  config other found hfound := by
    by_cases hother : other = id
    · subst hother
      rw [AList.lookup_insert] at hfound
      rw [← Option.some.inj hfound, hconfig]
      exact h.config other heater hid
    · rw [AList.lookup_insert_ne hother] at hfound
      exact h.config other found hfound

theorem sound_addHeater {s : ReferenceRuntime ω} (h : s.Sound configs) (c : HeaterConfig) :
    (s.addHeater P c).Sound (configs ++ [c]) where
  caps := h.caps
  order := by simp [addHeater, h.order]
  threw := h.threw
  mem id := by
    have hid := h.mem id
    unfold addHeater
    dsimp only
    split_ifs with hc
    · have hc' := (h.mem c.id).mp hc
      simp only [List.map_append, List.mem_append, List.map_singleton, List.mem_singleton, hid]
      exact (or_iff_left_of_imp fun heq => heq ▸ hc').symm
    · simp only [List.map_append, List.mem_append, List.map_singleton, List.mem_singleton,
        AList.mem_insert, hid]
      exact or_comm
  config id heater hheater := by
    unfold addHeater at hheater
    dsimp only at hheater
    split_ifs at hheater with hc
    · exact List.mem_append_left _ (h.config id heater hheater)
    · by_cases hother : id = c.id
      · subst hother
        rw [AList.lookup_insert] at hheater
        rw [← Option.some.inj hheater]
        simp [Heater.new]
      · rw [AList.lookup_insert_ne hother] at hheater
        exact List.mem_append_left _ (h.config id heater hheater)

/-- A heater of the constructor is a new one. -/
theorem exists_new {configs : List HeaterConfig} {w : ω} {id : Bytes} {heater : Heater}
    (h : (new P configs w).heaters.lookup id = some heater) :
    ∃ c w', heater = (Heater.new P c w').1 ∧
      P.elapsed (P.steadyNow w').2 ≤ P.elapsed (new P configs w).world := by
  have hfold : ∀ (rest : List HeaterConfig) (s : ReferenceRuntime ω),
      (∀ id heater, s.heaters.lookup id = some heater → ∃ c w',
        heater = (Heater.new P c w').1 ∧ P.elapsed (P.steadyNow w').2 ≤ P.elapsed s.world) →
      ∀ id heater, (rest.foldl (addHeater P) s).heaters.lookup id = some heater → ∃ c w',
        heater = (Heater.new P c w').1 ∧
          P.elapsed (P.steadyNow w').2 ≤ P.elapsed (rest.foldl (addHeater P) s).world := by
    intro rest
    induction rest with
    | nil => exact fun s hs => hs
    | cons c rest ih =>
      refine fun s hs => ih _ fun id heater hheater => ?_
      have hlater : P.elapsed s.world ≤ P.elapsed (addHeater P s c).world :=
        (P.elapsed_le_steadyNow s.world).trans (P.steadyNow_le_elapsed s.world)
      have hold : s.heaters.lookup id = some heater → ∃ c' w', heater = (Heater.new P c' w').1 ∧
          P.elapsed (P.steadyNow w').2 ≤ P.elapsed (addHeater P s c).world := by
        intro hheater
        obtain ⟨c', w', heq, hle⟩ := hs id heater hheater
        exact ⟨c', w', heq, hle.trans hlater⟩
      unfold addHeater at hheater
      dsimp only at hheater
      split_ifs at hheater with hmem
      · exact hold hheater
      · by_cases heq : id = c.id
        · subst heq
          rw [AList.lookup_insert] at hheater
          exact ⟨c, s.world, (Option.some.inj hheater).symm, le_refl _⟩
        · rw [AList.lookup_insert_ne heq] at hheater
          exact hold hheater
  exact hfold configs _ (by simp) id heater h

/-- The constructor makes what it is given. -/
theorem sound_new (P : Platform ω) (configs : List HeaterConfig) (w : ω) :
    (new P configs w).Sound configs := by
  have hfold : ∀ (rest done : List HeaterConfig) (s : ReferenceRuntime ω), s.Sound done →
      (rest.foldl (addHeater P) s).Sound (done ++ rest) := by
    intro rest
    induction rest with
    | nil => simp
    | cons c rest ih =>
      intro done s hs
      have := ih (done ++ [c]) _ (sound_addHeater (P := P) hs c)
      rwa [List.append_assoc] at this
  exact hfold configs [] _ ⟨rfl, rfl, rfl, by simp, by simp⟩

end ReferenceRuntime

/-! ## What an invocation does -/

/-- What an invocation does to the heaters. A read or a call moves its heater to now. -/
inductive Moves (P : Platform ω) :
    ReferenceRuntime ω → Invocation → ReferenceRuntime ω → Prop where
  | quiet (s : ReferenceRuntime ω) (invocation : Invocation)
    (h : ¬(Event.invoked invocation).IsOperation) : Moves P s invocation s
  | read (s : ReferenceRuntime ω) (id : Bytes) (signalIds : List Bytes) (heater : Heater)
    (values : List SignalValue) (w : ω) (hid : s.heaters.lookup id = some heater)
    (hvalues : Depicts (heater.advance P s.world).1 values)
    (hw : P.elapsed (heater.advance P s.world).2 ≤ P.elapsed w) :
    Moves P s (.read id signalIds ⟨true, .ok, [], values⟩)
      { s with heaters := s.heaters.insert id (heater.advance P s.world).1, world := w }
  | call (s : ReferenceRuntime ω) (id : Bytes) (functionId : UInt32) (args : ValueMap)
    (heater : Heater) (hid : s.heaters.lookup id = some heater) :
    Moves P s
      (.call id functionId args
        (ReferenceRuntime.callHeater functionId args (heater.advance P s.world).1).1)
      { s with
        heaters := s.heaters.insert id
          (ReferenceRuntime.callHeater functionId args (heater.advance P s.world).1).2
        world := (heater.advance P s.world).2 }

theorem exists_values (heater : Heater) {signalId : Bytes}
    (h : signalId ∈ heaterCapabilities.signals.map SignalSpec.signalId) :
    ∃ d, heater.values signalId = some d := by
  simp only [heaterCapabilities, signal, List.map_cons, List.map_nil, List.mem_cons,
    List.not_mem_nil, or_false] at h
  unfold Heater.values
  rcases h with rfl | rfl | rfl <;> simp

/-- A read of known signals shows the heater. -/
theorem readValues_of_known (P : Platform ω) (heater : Heater) :
    ∀ (signalIds : List Bytes) (w : ω),
      (∀ id ∈ signalIds, id ∈ heaterCapabilities.signals.map SignalSpec.signalId) →
        ∃ values, (ReferenceRuntime.readValues P heater signalIds w).1 = some values ∧
          Depicts heater values ∧
            P.elapsed w ≤ P.elapsed (ReferenceRuntime.readValues P heater signalIds w).2
  | [], w, _ => ⟨[], rfl, by simp [Depicts], le_refl _⟩
  | id :: rest, w, h => by
    obtain ⟨d, hd⟩ := exists_values heater (h id List.mem_cons_self)
    obtain ⟨values, hvalues, hdepicts, hle⟩ := readValues_of_known P heater rest
      (makeSignalValue P id (makeDoubleVal d) w).2 fun other hother =>
        h other (List.mem_cons_of_mem _ hother)
    refine ⟨(makeSignalValue P id (makeDoubleVal d) w).1 :: values, ?_, ?_, ?_⟩
    · simp [ReferenceRuntime.readValues, hd, hvalues]
    · intro value hvalue
      rcases List.mem_cons.mp hvalue with rfl | hvalue
      · exact ⟨d, hd, rfl⟩
      · exact hdepicts value hvalue
    · simp only [ReferenceRuntime.readValues, hd]
      exact (P.elapsed_le_currentTime w).trans hle

theorem requested_known {signalIds : List Bytes}
    (h : signalIds ≠ [] → ∀ id ∈ signalIds,
      id ∈ heaterCapabilities.signals.map SignalSpec.signalId) :
    ∀ id ∈ ReferenceRuntime.requested signalIds,
      id ∈ heaterCapabilities.signals.map SignalSpec.signalId := by
  unfold ReferenceRuntime.requested
  split_ifs with hnil
  · simp [heaterCapabilities, signal]
  · exact h hnil

/-- A read of a heater and known signals. -/
theorem moves_read {s : ReferenceRuntime ω} {id : Bytes} {heater : Heater}
    (hid : s.heaters.lookup id = some heater) {signalIds : List Bytes}
    (h : signalIds ≠ [] → ∀ id ∈ signalIds,
      id ∈ heaterCapabilities.signals.map SignalSpec.signalId) :
    Moves P s (.read id signalIds (ReferenceRuntime.read P id signalIds s).1)
      (ReferenceRuntime.read P id signalIds s).2 := by
  obtain ⟨values, hvalues, hdepicts, hle⟩ := readValues_of_known P (heater.advance P s.world).1
    (ReferenceRuntime.requested signalIds) (heater.advance P s.world).2 (requested_known h)
  have hread : ReferenceRuntime.read P id signalIds s = (⟨true, .ok, [], values⟩,
      { s with
        heaters := s.heaters.insert id (heater.advance P s.world).1
        world := (ReferenceRuntime.readValues P (heater.advance P s.world).1
          (ReferenceRuntime.requested signalIds) (heater.advance P s.world).2).2 }) := by
    rw [ReferenceRuntime.read, hid]
    dsimp only
    rw [← Prod.eta (ReferenceRuntime.readValues _ _ _ _), hvalues]
  rw [hread]
  exact .read s id signalIds heater values _ hid hdepicts hle

/-- A response to a read shows a value. -/
def Event.ShowsValue (e : Event) (deviceId signalId : Bytes) (value : Value) : Prop :=
  match e with
  | .handled request response => ∃ read out shown, request.kind = .readSignals read ∧
      response.payload = .readSignals out ∧ out.deviceId = deviceId ∧ shown ∈ out.values ∧
        shown.signalId = signalId ∧ shown.value = value
  | _ => False

@[simp] theorem applyMinTimestamp_deviceId (request : ReadSignalsRequest)
    (out : ReadSignalsResponse) : (applyMinTimestamp request out).deviceId = out.deviceId := by
  unfold applyMinTimestamp
  split <;> rfl

/-- Flagging a value as stale leaves what it says. -/
theorem exists_of_mem_applyMinTimestamp {request : ReadSignalsRequest} {out : ReadSignalsResponse}
    {shown : SignalValue} (h : shown ∈ (applyMinTimestamp request out).values) :
    ∃ value ∈ out.values, value.signalId = shown.signalId ∧ shown.value = value.value := by
  unfold applyMinTimestamp at h
  split at h
  · exact ⟨shown, h, rfl, rfl⟩
  · obtain ⟨value, hvalue, rfl⟩ := List.mem_map.mp h
    refine ⟨value, hvalue, ?_⟩
    split_ifs <;> exact ⟨rfl, rfl⟩

section Asked

variable {past asked : List Event} {request : Request} {s : ReferenceRuntime ω}

theorem AtHand.mem (h : AtHand past request asked) {e : Event} (he : e ∈ asked) : e ∈ past := by
  obtain ⟨before, start, rfl, -⟩ := h
  simp [he]

theorem Serves.exists_known (h : Serves configs past s) (hat : AtHand past request asked)
    {id : Bytes} (hknown : Known asked id) : ∃ heater, s.heaters.lookup id = some heater := by
  have htold : true = decide (id ∈ configs.map HeaterConfig.id) := h.truthful _ (hat.mem hknown)
  exact h.sound.exists_heater (of_decide_eq_true htold.symm)

theorem Serves.exists_listed (h : Serves configs past s) (hat : AtHand past request asked)
    {id : Bytes} (hlisted : Listed asked id) : ∃ heater, s.heaters.lookup id = some heater := by
  obtain ⟨ids, hids, hid⟩ := hlisted
  have htold : ids = configs.map HeaterConfig.id := h.truthful _ (hat.mem hids)
  exact h.sound.exists_heater (htold ▸ hid)

/-- A cleared invocation never throws, and moves at most its own heater. -/
theorem Serves.moves (h : Serves configs past s) (hat : AtHand past request asked)
    {invocation : Invocation} {s' : ReferenceRuntime ω}
    (hcleared : Cleared P.number request asked invocation)
    (hanswers : (referenceHost P).Answers s invocation s') : Moves P s invocation s' := by
  cases hanswers with
  | read id signalIds =>
    obtain ⟨heater, hheater⟩ := h.exists_known hat hcleared.known
    refine moves_read hheater fun hne => ?_
    obtain ⟨caps, hcaps, hknown⟩ := hcleared.signals hne
    have htold : caps = heaterCapabilities := h.truthful _ (hat.mem hcaps)
    rwa [htold] at hknown
  | call id functionId args =>
    obtain ⟨heater, hheater⟩ := h.exists_known hat hcleared.known
    have := Moves.call (P := P) s id functionId args heater hheater
    simpa only [referenceHost, ReferenceRuntime.call, hheater] using this
  | deviceInfo id =>
    obtain ⟨heater, hheater⟩ := hcleared.elim (h.exists_known hat) (h.exists_listed hat)
    simp only [referenceHost, ReferenceRuntime.deviceInfo, hheater]
    exact .quiet s _ fun h => h
  | _ => exact .quiet s _ fun h => h

/-- A value that a response to a read shows is the heater's. -/
theorem Serves.shown (h : Serves configs past s) (hat : AtHand past request asked)
    {response : Response} (hshows : Shows request asked response) {deviceId signalId : Bytes}
    {value : Value} (hvalue : (Event.handled request response).ShowsValue deviceId signalId value) :
    ∃ heater d, s.heaters.lookup deviceId = some heater ∧ heater.values signalId = some d ∧
      value = makeDoubleVal d := by
  obtain ⟨read, out, shown, hread, hout, rfl, hmem, rfl, rfl⟩ := hvalue
  obtain ⟨before, result, rfl, rfl⟩ := hshows read out hread hout
  obtain ⟨past', start, rfl, -⟩ := hat
  obtain ⟨heater, hheater, hdepicts⟩ := h.depicts (past' ++ .received request :: (start ++ before))
    read.deviceId read.signalIds result (by simp)
  obtain ⟨value, hvalue, hid, heq⟩ := exists_of_mem_applyMinTimestamp hmem
  obtain ⟨d, hd, hd'⟩ := hdepicts value hvalue
  exact ⟨heater, d, by rwa [applyMinTimestamp_deviceId], hid ▸ hd, heq.trans hd'⟩

end Asked

/-- What an invocation does to a heater. -/
def Heater.Next (P : Platform ω) (w : ω) (deviceId : Bytes) (invocation : Invocation)
    (heater heater' : Heater) : Prop :=
  (heater' = heater ∧ ∀ functionId args result,
    invocation ≠ .call deviceId functionId args result) ∨
  (heater' = (heater.advance P w).1 ∧ ∃ signalIds result,
    invocation = .read deviceId signalIds result) ∨
  ∃ functionId args result, invocation = .call deviceId functionId args result ∧
    heater' = (ReferenceRuntime.callHeater functionId args (heater.advance P w).1).2

theorem Heater.advance_config (P : Platform ω) (heater : Heater) (w : ω) :
    (heater.advance P w).1.config = heater.config :=
  rfl

theorem ReferenceRuntime.callHeater_config (functionId : UInt32) (args : ValueMap)
    (heater : Heater) : (callHeater functionId args heater).2.config = heater.config := by
  unfold callHeater
  split_ifs <;> rfl

namespace Moves

variable {s s' : ReferenceRuntime ω} {invocation : Invocation}

/-- Every heater after an invocation was there before it. -/
theorem exists_next (h : Moves P s invocation s') {deviceId : Bytes} {heater' : Heater}
    (hheater : s'.heaters.lookup deviceId = some heater') :
    ∃ heater, s.heaters.lookup deviceId = some heater ∧
      heater.Next P s.world deviceId invocation heater' := by
  cases h with
  | quiet _ hquiet =>
    refine ⟨heater', hheater, .inl ⟨rfl, ?_⟩⟩
    rintro functionId args result rfl
    exact hquiet trivial
  | read id signalIds heater values w hid =>
    by_cases hother : deviceId = id
    · subst hother
      rw [AList.lookup_insert] at hheater
      exact ⟨heater, hid, .inr (.inl ⟨(Option.some.inj hheater).symm, _, _, rfl⟩)⟩
    · rw [AList.lookup_insert_ne hother] at hheater
      exact ⟨heater', hheater, .inl ⟨rfl, by simp⟩⟩
  | call id functionId args heater hid =>
    by_cases hother : deviceId = id
    · subst hother
      rw [AList.lookup_insert] at hheater
      exact ⟨heater, hid, .inr (.inr ⟨_, _, _, rfl, (Option.some.inj hheater).symm⟩)⟩
    · rw [AList.lookup_insert_ne hother] at hheater
      refine ⟨heater', hheater, .inl ⟨rfl, fun functionId args result h => hother ?_⟩⟩
      exact (Invocation.call.inj h).1.symm

theorem sound (h : Moves P s invocation s') (hs : s.Sound configs) : s'.Sound configs := by
  cases h with
  | quiet => exact hs
  | read id signalIds heater values w hid =>
    exact hs.insert hid (heater.advance_config P s.world) w
  | call id functionId args heater hid =>
    have hconfig := ReferenceRuntime.callHeater_config functionId args (heater.advance P s.world).1
    exact hs.insert hid (hconfig.trans (heater.advance_config P s.world)) _

/-- After a read, its heater is the one it shows. -/
theorem depicts {deviceId : Bytes} {signalIds : List Bytes} {result : AdapterReadResult}
    (h : Moves P s (.read deviceId signalIds result) s') :
    ∃ heater, s'.heaters.lookup deviceId = some heater ∧ Depicts heater result.values := by
  cases h with
  | quiet _ hquiet => exact absurd trivial hquiet
  | read _ _ heater values w hid hvalues => exact ⟨_, AList.lookup_insert _, hvalues⟩

end Moves

/-! ## Runs -/

/-- `J` is kept along with what the provider tells. -/
structure Kept (P : Platform ω) (configs : List HeaterConfig)
    (J : List Event → ReferenceRuntime ω → Prop) : Prop where
  moves : ∀ {past s request asked invocation s'}, Serves configs past s → J past s →
    AtHand past request asked → Cleared P.number request asked invocation →
      Moves P s invocation s' → J (past ++ [.invoked invocation]) s'
  clock : ∀ {past s now w}, Serves configs past s → J past s → P.elapsed s.world ≤ P.elapsed w →
    J (past ++ [.clockRead now]) { s with world := w }
  handled : ∀ {past s request asked response}, Serves configs past s → J past s →
    AtHand past request asked → Shows request asked response →
      J (past ++ [.handled request response]) s
  other : ∀ {past s e}, e.IsNote ∨ (∃ budget, e = .onInitialize budget) ∨ e = .onWaitReady →
    Serves configs past s → J past s → J (past ++ [e]) s

/-- What the provider tells is the truth, also after an event that it tells nothing in. -/
theorem Serves.snoc {past : List Event} {s s' : ReferenceRuntime ω} (h : Serves configs past s)
    {e : Event} (hs : s'.Sound configs) (he : Truthful configs e)
    (hread : ∀ deviceId signalIds result, e = .invoked (.read deviceId signalIds result) →
      ∃ heater, s'.heaters.lookup deviceId = some heater ∧ Depicts heater result.values) :
    Serves configs (past ++ [e]) s' where
  sound := hs
  truthful := by
    intro e' he'
    rcases List.mem_append.mp he' with he' | he'
    · exact h.truthful e' he'
    · rwa [List.mem_singleton.mp he']
  depicts before deviceId signalIds result hlast :=
    hread _ _ _ (List.singleton_inj.mp (List.append_inj' hlast rfl).2)

theorem truthful_of_answers {s s' : ReferenceRuntime ω} (hs : s.Sound configs)
    {invocation : Invocation} (h : (referenceHost P).Answers s invocation s') :
    Truthful configs (.invoked invocation) := by
  cases h with
  | hasDevice id => exact decide_eq_decide.mpr (hs.mem id)
  | listDeviceIds => exact hs.order
  | readiness => rfl
  | capabilities => exact hs.caps
  | _ => trivial

/-- The reference provider keeps `J` in the loop. -/
theorem Kept.sustains {J : List Event → ReferenceRuntime ω → Prop} (h : Kept P configs J) :
    (referenceHost P).Sustains fun past s => Serves configs past s ∧ J past s where
  invoked := by
    rintro past s request asked invocation s' ⟨hserves, hJ⟩ hat hcleared hanswers
    have hmoves := hserves.moves hat hcleared hanswers
    refine ⟨hserves.snoc (hmoves.sound hserves.sound) (truthful_of_answers hserves.sound hanswers)
      ?_, h.moves hserves hJ hat hcleared hmoves⟩
    rintro deviceId signalIds result heq
    obtain rfl := Event.invoked.inj heq
    exact hmoves.depicts
  clock := by
    rintro past s ⟨hserves, hJ⟩
    have hs := hserves.sound
    exact ⟨hserves.snoc ⟨hs.caps, hs.order, hs.threw, hs.mem, hs.config⟩ trivial (by simp),
      h.clock hserves hJ (P.elapsed_le_systemNow _)⟩
  onInitialize := by
    rintro past s budget ⟨hserves, hJ⟩
    exact ⟨hserves.snoc hserves.sound trivial (by simp),
      h.other (.inr (.inl ⟨budget, rfl⟩)) hserves hJ⟩
  onWaitReady := by
    rintro past s ⟨hserves, hJ⟩
    exact ⟨hserves.snoc hserves.sound trivial (by simp), h.other (.inr (.inr rfl)) hserves hJ⟩
  handled := by
    rintro past s request asked response ⟨hserves, hJ⟩ hat hshows -
    exact ⟨hserves.snoc hserves.sound trivial (by simp), h.handled hserves hJ hat hshows⟩
  noted := by
    rintro past s e hnote ⟨hserves, hJ⟩
    refine ⟨hserves.snoc hserves.sound ?_ ?_, h.other (.inl hnote) hserves hJ⟩
    · cases e with
      | invoked => exact hnote.elim
      | _ => trivial
    · rintro deviceId signalIds result rfl
      exact hnote.elim

variable (P configs) in
/-- A run of the reference provider. -/
def runReference (codec : Codec) (input : IStream) (output : OStream) (w : ω) :=
  runLoop (referenceHost P) codec input output (.new P configs w)

theorem serves_new (P : Platform ω) (configs : List HeaterConfig) (w : ω) :
    Serves configs [] (.new P configs w) :=
  ⟨ReferenceRuntime.sound_new P configs w, by simp, by simp⟩

/-- A run keeps what is kept, up to the shutdown that stops the heaters. -/
theorem Kept.run {J : List Event → ReferenceRuntime ω → Prop} (h : Kept P configs J) {w : ω}
    (h0 : J [] (.new P configs w)) (codec : Codec) (input : IStream) (output : OStream) :
    ∃ past s, Serves configs past s ∧ J past s ∧
      (runReference P configs codec input output w).events = past ++ [.onShutdown] ∧
        (runReference P configs codec input output w).state = s.stop P := by
  obtain ⟨past, s, ⟨hserves, hJ⟩, hrun⟩ := runLoop_sustains codec h.sustains
    ⟨serves_new P configs w, h0⟩ input output
  exact ⟨past, s, hserves, hJ, hrun⟩

/-! ## The shutdown -/

namespace ReferenceRuntime

variable {s : ReferenceRuntime ω}

theorem Sound.stopHeater (h : s.Sound configs) (id : Bytes) :
    (s.stopHeater P id).Sound configs := by
  unfold ReferenceRuntime.stopHeater
  split
  · exact h
  · next heater hid =>
    have hconfig : ((heater.advance P s.world).1.setPower (.zero false)).config = heater.config :=
      rfl
    exact h.insert hid hconfig _

/-- The heaters of `ids` are off. -/
def Off (s : ReferenceRuntime ω) (ids : List Bytes) : Prop :=
  ∀ id ∈ ids, ∀ heater, s.heaters.lookup id = some heater → heater.power = .zero false

theorem Off.stopHeater {ids : List Bytes} (h : s.Off ids) (id : Bytes) :
    (s.stopHeater P id).Off (ids ++ [id]) := by
  intro other hother heater hheater
  unfold ReferenceRuntime.stopHeater at hheater
  split at hheater
  · next hnone =>
    rcases List.mem_append.mp hother with hother | hother
    · exact h other hother heater hheater
    · rw [List.mem_singleton.mp hother, hnone] at hheater
      cases hheater
  · by_cases heq : other = id
    · subst heq
      rw [AList.lookup_insert] at hheater
      rw [← Option.some.inj hheater]
      rfl
    · rw [AList.lookup_insert_ne heq] at hheater
      refine h other ?_ heater hheater
      exact (List.mem_append.mp hother).resolve_right fun hmem => heq (List.mem_singleton.mp hmem)

/-- `stop` leaves the provider sound, and every heater off. -/
theorem Sound.stop (h : s.Sound configs) :
    (s.stop P).Sound configs ∧ ∀ id heater, (s.stop P).heaters.lookup id = some heater →
      heater.power = .zero false := by
  have hfold : ∀ (rest done : List Bytes) (s : ReferenceRuntime ω), s.Sound configs →
      s.Off done → (rest.foldl (ReferenceRuntime.stopHeater P) s).Sound configs ∧
        (rest.foldl (ReferenceRuntime.stopHeater P) s).Off (done ++ rest) := by
    intro rest
    induction rest with
    | nil => exact fun done s hs hoff => ⟨hs, by rwa [List.append_nil]⟩
    | cons id rest ih =>
      intro done s hs hoff
      have := ih (done ++ [id]) _ (hs.stopHeater (P := P) id) (hoff.stopHeater id)
      rwa [List.append_assoc] at this
  obtain ⟨hsound, hoff⟩ := hfold (s.heaters.keys.insertionSort (· ≤ ·)) [] s h (by simp [Off])
  refine ⟨hsound, fun id heater hheater => hoff id ?_ heater hheater⟩
  have hmem : id ∈ (s.stop P).heaters := AList.lookup_isSome.mp (by rw [hheater]; rfl)
  rw [List.nil_append, List.mem_insertionSort, ← AList.mem_keys, h.mem id, ← hsound.mem id]
  exact hmem

end ReferenceRuntime

theorem kept_true (P : Platform ω) (configs : List HeaterConfig) :
    Kept P configs fun _ _ => True :=
  ⟨by simp, by simp, by simp, by simp⟩

/-- No run of the reference provider throws, whatever is asked of it : each `at` of it is of a
key that is there. -/
theorem reference_never_throws (P : Platform ω) (configs : List HeaterConfig) (codec : Codec)
    (input : IStream) (output : OStream) (w : ω) :
    (runReference P configs codec input output w).state.threw = false := by
  obtain ⟨past, s, hserves, -, -, hstate⟩ :=
    (kept_true P configs).run (w := w) trivial codec input output
  rw [hstate]
  exact hserves.sound.stop.1.threw

/-- Every run ends with every configured heater off, however it ends. -/
theorem reference_ends_off (P : Platform ω) (configs : List HeaterConfig) (codec : Codec)
    (input : IStream) (output : OStream) (w : ω) :
    (∀ c ∈ configs, ∃ heater,
      (runReference P configs codec input output w).state.heaters.lookup c.id = some heater) ∧
    ∀ id heater,
      (runReference P configs codec input output w).state.heaters.lookup id = some heater →
        heater.power = .zero false := by
  obtain ⟨past, s, hserves, -, -, hstate⟩ :=
    (kept_true P configs).run (w := w) trivial codec input output
  rw [hstate]
  obtain ⟨hsound, hoff⟩ := hserves.sound.stop (P := P)
  exact ⟨fun c hc => hsound.exists_heater (List.mem_map_of_mem hc), hoff⟩

/-! ## The power -/

/-- The power of a heater after an event. -/
def powerAfter (deviceId : Bytes) (power : Double) : Event → Double
  | .invoked (.call id functionId args _) =>
    if id = deviceId ∧ functionId = kSetPower then
      (getArgDouble args (lit "power")).getD (.zero false)
    else power
  | _ => power

theorem powerAfter_call (deviceId : Bytes) (power : Double) (id : Bytes) (functionId : UInt32)
    (args : ValueMap) (result : AdapterCallResult) :
    powerAfter deviceId power (.invoked (.call id functionId args result)) =
      if id = deviceId ∧ functionId = kSetPower then
        (getArgDouble args (lit "power")).getD (.zero false)
      else power :=
  rfl

/-- The power last set. -/
def lastPower (past : List Event) (deviceId : Bytes) : Double :=
  past.foldl (powerAfter deviceId) (.zero false)

@[simp] theorem lastPower_snoc (past : List Event) (e : Event) (deviceId : Bytes) :
    lastPower (past ++ [e]) deviceId = powerAfter deviceId (lastPower past deviceId) e := by
  simp [lastPower]

/-- Between off and full. -/
def InUnit (d : Double) : Prop :=
  ∃ q, d.toRat = some q ∧ 0 ≤ q ∧ q ≤ 1

theorem inUnit_zero : InUnit (.zero false) :=
  ⟨0, rfl, le_refl 0, by norm_num⟩

theorem toRat_one : (binary64.round 1).toRat = some 1 := by
  simpa using toRat_round_int (n := 1) (by norm_num)

/-- What the declared bounds let through is a power. -/
theorem inUnit_of_declared {number : NumberPrinter} {args : ValueMap}
    (h : declaredArgError number heaterCapabilities kSetPower args = none) :
    InUnit ((getArgDouble args (lit "power")).getD (.zero false)) := by
  have hvalid : validateCallArgs number
      { functionId := kSetPower, name := lit "set_power", args := [powerArg] } args = none := h
  have hrules := (checkArg_eq_none_iff number _).mp
    (((validateCallArgs_eq_none_iff _ _ _).mp hvalid).2 powerArg (List.mem_singleton_self _))
  unfold getArgDouble getArg
  cases hvalue : args.lookup (lit "power") with
  | none => exact inUnit_zero
  | some value =>
    dsimp only
    split_ifs
    · have hfinite : value.doubleValue.isFinite = true := by
        by_contra hnot
        exact hrules .finite ⟨rfl, value, hvalue, by simpa using hnot⟩
      obtain ⟨q, hq⟩ := Floating.Value.exists_toRat hfinite
      refine ⟨q, hq, ?_, ?_⟩
      · refine not_lt.mp fun hlt => hrules .bounds ⟨value, hvalue, .inl ⟨_, rfl, ?_⟩⟩
        exact (Floating.Value.lt_iff hq rfl).mpr hlt
      · refine not_lt.mp fun hlt => hrules .bounds ⟨value, hvalue, .inr ⟨_, rfl, ?_⟩⟩
        exact (Floating.Value.lt_iff toRat_one hq).mpr hlt
    · exact inUnit_zero

/-- What is shown of a heater's power is what was last set, between off and full. -/
def PowerShown (trace : List Event) : Prop :=
  ∀ pre e post deviceId value, trace = pre ++ e :: post →
    e.ShowsValue deviceId (lit "power") value →
      value = makeDoubleVal (lastPower pre deviceId) ∧ InUnit (lastPower pre deviceId)

/-- The heaters have the power last set, and it is what was shown. -/
structure Powered (past : List Event) (s : ReferenceRuntime ω) : Prop where
  power : ∀ deviceId heater, s.heaters.lookup deviceId = some heater →
    heater.power = lastPower past deviceId
  inUnit : ∀ deviceId, InUnit (lastPower past deviceId)
  shown : PowerShown past

theorem Heater.Next.power {w : ω} {deviceId : Bytes} {invocation : Invocation}
    {heater heater' : Heater} (h : heater.Next P w deviceId invocation heater') :
    heater'.power = powerAfter deviceId heater.power (.invoked invocation) := by
  rcases h with ⟨rfl, hcall⟩ | ⟨rfl, signalIds, result, rfl⟩ | ⟨functionId, args, result, rfl, rfl⟩
  · unfold powerAfter
    split
    · next id functionId args result heq =>
      obtain rfl := Event.invoked.inj heq
      rw [if_neg]
      rintro ⟨rfl, -⟩
      exact hcall _ _ _ rfl
    · rfl
  · rfl
  · rw [powerAfter_call, ReferenceRuntime.callHeater]
    by_cases hset : functionId = kSetPower
    · rw [if_pos hset, if_pos ⟨rfl, hset⟩]
      rfl
    · have hand : ¬(deviceId = deviceId ∧ functionId = kSetPower) := fun h => hset h.2
      rw [if_neg hset, if_neg hand]
      split_ifs <;> rfl

/-- A power that is set is between off and full. -/
theorem Serves.inUnit_powerAfter {past asked : List Event} {request : Request}
    {s : ReferenceRuntime ω} (h : Serves configs past s) (hat : AtHand past request asked)
    {invocation : Invocation} (hcleared : Cleared P.number request asked invocation)
    {deviceId : Bytes} {power : Double} (hpower : InUnit power) :
    InUnit (powerAfter deviceId power (.invoked invocation)) := by
  unfold powerAfter
  split
  · next id functionId args result heq =>
    obtain rfl := Event.invoked.inj heq
    split_ifs with hset
    · obtain ⟨caps, hcaps, hdeclared⟩ := hcleared.args
      have htold : caps = heaterCapabilities := h.truthful _ (hat.mem hcaps)
      rw [htold, hset.2] at hdeclared
      exact inUnit_of_declared hdeclared
    · exact hpower
  · exact hpower

/-- An event that neither sets a power nor shows a value. -/
theorem Powered.snoc {past : List Event} {s s' : ReferenceRuntime ω} (h : Powered past s)
    {e : Event} (hheaters : s'.heaters = s.heaters)
    (hset : ∀ deviceId power, powerAfter deviceId power e = power)
    (hshown : ∀ deviceId value, e.ShowsValue deviceId (lit "power") value →
      value = makeDoubleVal (lastPower past deviceId)) : Powered (past ++ [e]) s' where
  power deviceId heater hheater := by
    rw [lastPower_snoc, hset]
    exact h.power deviceId heater (hheaters ▸ hheater)
  inUnit deviceId := by
    rw [lastPower_snoc, hset]
    exact h.inUnit deviceId
  shown pre e' post deviceId value hsplit hvalue := by
    rcases Traced.snoc_eq_append_cons hsplit with ⟨rfl, rfl, -⟩ | ⟨mid, -, hpast⟩
    · exact ⟨hshown deviceId value hvalue, h.inUnit deviceId⟩
    · exact h.shown pre e' mid deviceId value hpast hvalue

theorem kept_powered (P : Platform ω) (configs : List HeaterConfig) :
    Kept P configs Powered where
  moves := by
    intro past s request asked invocation s' hserves h hat hcleared hmoves
    refine ⟨fun deviceId heater' hheater' => ?_, fun deviceId => ?_, ?_⟩
    · obtain ⟨heater, hheater, hnext⟩ := hmoves.exists_next hheater'
      rw [lastPower_snoc, hnext.power, h.power deviceId heater hheater]
    · rw [lastPower_snoc]
      exact hserves.inUnit_powerAfter hat hcleared (h.inUnit deviceId)
    · intro pre e post deviceId value hsplit hvalue
      rcases Traced.snoc_eq_append_cons hsplit with ⟨rfl, rfl, -⟩ | ⟨mid, -, hpast⟩
      · exact hvalue.elim
      · exact h.shown pre e mid deviceId value hpast hvalue
  clock _ h _ := h.snoc rfl (fun _ _ => rfl) fun _ _ hvalue => hvalue.elim
  handled := by
    intro past s request asked response hserves h hat hshows
    refine h.snoc rfl (fun _ _ => rfl) fun deviceId value hvalue => ?_
    obtain ⟨heater, d, hheater, hd, rfl⟩ := hserves.shown hat hshows hvalue
    rw [← h.power deviceId heater hheater]
    exact congrArg makeDoubleVal (by simpa [Heater.values] using hd.symm)
  other := by
    rintro past s e (hnote | ⟨budget, rfl⟩ | rfl) _ h
    · refine h.snoc rfl ?_ ?_
      · cases e <;> first | exact hnote.elim | exact fun _ _ => rfl
      · cases e <;> first | exact hnote.elim | exact fun _ _ hvalue => hvalue.elim
    · exact h.snoc rfl (fun _ _ => rfl) fun _ _ hvalue => hvalue.elim
    · exact h.snoc rfl (fun _ _ => rfl) fun _ _ hvalue => hvalue.elim

theorem powered_new (P : Platform ω) (configs : List HeaterConfig) (w : ω) :
    Powered [] (.new P configs w) where
  power deviceId heater hheater := by
    obtain ⟨c, w', rfl, -⟩ := ReferenceRuntime.exists_new hheater
    rfl
  inUnit _ := inUnit_zero
  shown := by simp [PowerShown]

/-- In every run, the power that a response shows is the one last set, between off and full. -/
theorem reference_shows_power (P : Platform ω) (configs : List HeaterConfig) (codec : Codec)
    (input : IStream) (output : OStream) (w : ω) :
    PowerShown (runReference P configs codec input output w).events := by
  obtain ⟨past, s, -, hpowered, hevents, -⟩ := (kept_powered P configs).run (w := w)
    (powered_new P configs w) codec input output
  intro pre e post deviceId value hsplit hvalue
  rw [hevents] at hsplit
  rcases Traced.snoc_eq_append_cons hsplit with ⟨-, rfl, -⟩ | ⟨mid, -, hpast⟩
  · exact hvalue.elim
  · exact hpowered.shown pre e mid deviceId value hpast hvalue

end ProviderSdk

import ProviderSdk.Answers
import ProviderSdk.ReferenceRuns

/-!
# The energy of the reference provider

A heater counts the energy it draws in floating-point steps : power times rating times the time
since the last step. No step makes the count fall, whatever is rounded on the way, as long as
the power is between off and full and the ratings are not negative. So what the responses of a
run show does not fall either, up to a reset (`reference_energy_rises`).
-/

namespace ProviderSdk

open Floating (binary64)

variable {ω : Type} {P : Platform ω} {configs : List HeaterConfig}

/-- The rating is finite, and not negative. -/
def HeaterConfig.Rated (c : HeaterConfig) : Prop :=
  ∃ q, c.ratedW.toRat = some q ∧ 0 ≤ q

theorem toRat_billion : (binary64.round 1000000000).toRat = some 1000000000 := by
  simpa using toRat_round_int (n := 1000000000) (by norm_num)

/-- An interval of the clock is finite, and not negative. -/
theorem exists_toRat_seconds {n : ℤ} (h0 : 0 ≤ n) (h : n ≤ 2 ^ 64) :
    ∃ z, (seconds n).toRat = some z ∧ 0 ≤ z := by
  have hlimit : binary64.Representable (2 ^ 64) :=
    ⟨1, 64, by norm_num [binary64], by decide, by decide, by norm_num⟩
  obtain ⟨x, hx, hx0, -⟩ := Floating.Format.exists_round_le (q := n) hlimit
    (by exact_mod_cast h0) (by exact_mod_cast h)
  obtain ⟨z, hz, hz0, -⟩ := Floating.Value.exists_div_le hx toRat_billion hx0 (by norm_num)
  exact ⟨z, hz, hz0⟩

/-! ## One heater -/

/-- The count is one, and the heater was last moved no later than now. -/
structure Heater.Metered (P : Platform ω) (w : ω) (heater : Heater) : Prop where
  energy : heater.energy.Nonneg
  at_ : heater.at_ ≤ P.elapsed w
  abs_at : |heater.at_| ≤ 2 ^ 63

namespace Heater

theorem Metered.mono {heater : Heater} {w w' : ω} (h : heater.Metered P w)
    (hw : P.elapsed w ≤ P.elapsed w') : heater.Metered P w' :=
  ⟨h.energy, h.at_.trans hw, h.abs_at⟩

theorem metered_new (P : Platform ω) (c : HeaterConfig) (w : ω) :
    (new P c w).1.Metered P (P.steadyNow w).2 :=
  ⟨Floating.Value.nonneg_of_toRat rfl (le_refl 0), P.steadyNow_le_elapsed w, P.abs_steadyNow w⟩

/-- A step of the model leaves the count a count, and does not make it fall. -/
theorem Metered.advance {heater : Heater} {w : ω} (h : heater.Metered P w)
    (hpower : InUnit heater.power) (hrated : heater.config.Rated) :
    (heater.advance P w).1.Metered P (P.steadyNow w).2 ∧
      heater.energy.le (heater.advance P w).1.energy = true := by
  obtain ⟨p, hp, hp0, hp1⟩ := hpower
  obtain ⟨r, hr, hr0⟩ := hrated
  have hlater : heater.at_ ≤ (P.steadyNow w).1 := h.at_.trans (P.elapsed_le_steadyNow w)
  have hnow := abs_le.mp (P.abs_steadyNow w)
  have hat := abs_le.mp h.abs_at
  obtain ⟨dt, hdt, hdt0⟩ := exists_toRat_seconds (n := (P.steadyNow w).1 - heater.at_)
    (by omega) (by omega)
  obtain ⟨drawn, hdrawn, hdrawn0, -⟩ := Floating.Value.exists_mul_le hp hr hp0 hp1 hr0
  obtain ⟨hnonneg, hle⟩ :=
    h.energy.le_add (Floating.Value.nonneg_mul hdrawn hdt hdrawn0 hdt0)
  exact ⟨⟨hnonneg, P.steadyNow_le_elapsed w, P.abs_steadyNow w⟩, hle⟩

end Heater

/-- The energy count of the device is reset. -/
def IsReset (deviceId : Bytes) (e : Event) : Prop :=
  ∃ args result, e = .invoked (.call deviceId kResetEnergy args result)

/-- A call leaves the count a count, and changes it only to reset it. -/
theorem metered_callHeater (functionId : UInt32) (args : ValueMap) {heater : Heater} {w : ω}
    (h : heater.Metered P w) :
    (ReferenceRuntime.callHeater functionId args heater).2.Metered P w ∧
      (functionId ≠ kResetEnergy →
        (ReferenceRuntime.callHeater functionId args heater).2.energy = heater.energy) := by
  unfold ReferenceRuntime.callHeater
  split_ifs with hset hreset
  · exact ⟨⟨h.energy, h.at_, h.abs_at⟩, fun _ => rfl⟩
  · exact ⟨⟨Floating.Value.nonneg_of_toRat rfl (le_refl 0), h.at_, h.abs_at⟩,
      fun hne => absurd hreset hne⟩
  · exact ⟨h, fun _ => rfl⟩

/-- What happens to a heater leaves its count a count, which falls only if it is reset. -/
theorem Heater.Next.metered {w : ω} {deviceId : Bytes} {invocation : Invocation}
    {heater heater' : Heater} (hnext : heater.Next P w deviceId invocation heater')
    (h : heater.Metered P w) (hpower : InUnit heater.power) (hrated : heater.config.Rated) :
    heater'.Metered P (P.steadyNow w).2 ∧ (¬IsReset deviceId (.invoked invocation) →
      heater.energy.le heater'.energy = true) := by
  obtain ⟨hadvance, hle⟩ := h.advance hpower hrated
  rcases hnext with ⟨rfl, -⟩ | ⟨rfl, -⟩ | ⟨functionId, args, result, rfl, rfl⟩
  · exact ⟨h.mono ((P.elapsed_le_steadyNow w).trans (P.steadyNow_le_elapsed w)),
      fun _ => Floating.Value.le_refl_of_nonneg h.energy⟩
  · exact ⟨hadvance, fun _ => hle⟩
  · obtain ⟨hcall, hkeeps⟩ := metered_callHeater functionId args hadvance
    refine ⟨hcall, fun hreset => ?_⟩
    rw [hkeeps fun heq => hreset ⟨args, result, by rw [heq]⟩]
    exact hle

/-- Time passes in an invocation, or it leaves everything as it is. -/
theorem Moves.steady {s s' : ReferenceRuntime ω} {invocation : Invocation}
    (h : Moves P s invocation s') :
    (s' = s ∧ ¬(Event.invoked invocation).IsOperation) ∨
      P.elapsed (P.steadyNow s.world).2 ≤ P.elapsed s'.world := by
  cases h with
  | quiet _ hquiet => exact .inl ⟨rfl, hquiet⟩
  | read id signalIds heater values w hid hvalues hw => exact .inr hw
  | call => exact .inr (le_refl _)

/-! ## Runs -/

/-- The energy that `e` shows of the device. -/
def ShowsEnergy (e : Event) (deviceId : Bytes) (energy : Double) : Prop :=
  ∃ value, e.ShowsValue deviceId (lit "energy") value ∧ value.doubleValue = energy

/-- Of two energies shown of a device, the later one is no less, unless there was a reset. -/
def EnergyRises (trace : List Event) : Prop :=
  ∀ pre e mid e' post deviceId energy energy', trace = pre ++ e :: (mid ++ e' :: post) →
    ShowsEnergy e deviceId energy → ShowsEnergy e' deviceId energy' →
      (∀ r ∈ mid, ¬IsReset deviceId r) → energy.le energy' = true

/-- The heaters count their energy, and nothing shown since the last reset is above it. -/
structure Counting (P : Platform ω) (past : List Event) (s : ReferenceRuntime ω) : Prop where
  powered : Powered past s
  metered : ∀ deviceId heater, s.heaters.lookup deviceId = some heater →
    heater.Metered P s.world
  below : ∀ pre e mid deviceId energy, past = pre ++ e :: mid → ShowsEnergy e deviceId energy →
    (∀ r ∈ mid, ¬IsReset deviceId r) →
      ∃ heater, s.heaters.lookup deviceId = some heater ∧ energy.le heater.energy = true
  rises : EnergyRises past

section Steps

variable {past : List Event} {s s' : ReferenceRuntime ω}

/-- An event after which no count is lower, unless it is reset, and that shows only counts. -/
theorem Counting.snoc (h : Counting P past s) {e : Event} (hpowered : Powered (past ++ [e]) s')
    (hmetered : ∀ deviceId heater, s'.heaters.lookup deviceId = some heater →
      heater.Metered P s'.world)
    (hkeeps : ∀ deviceId heater, s.heaters.lookup deviceId = some heater →
      ¬IsReset deviceId e → ∃ heater', s'.heaters.lookup deviceId = some heater' ∧
        heater.energy.le heater'.energy = true)
    (hshows : ∀ deviceId energy, ShowsEnergy e deviceId energy →
      ∃ heater, s'.heaters.lookup deviceId = some heater ∧ energy = heater.energy) :
    Counting P (past ++ [e]) s' where
  powered := hpowered
  metered := hmetered
  below pre e' mid deviceId energy hsplit henergy hreset := by
    rcases Traced.snoc_eq_append_cons hsplit with ⟨-, rfl, -⟩ | ⟨mid', rfl, hpast⟩
    · obtain ⟨heater, hheater, rfl⟩ := hshows deviceId energy henergy
      exact ⟨heater, hheater, Floating.Value.le_refl_of_nonneg (hmetered _ _ hheater).energy⟩
    · obtain ⟨heater, hheater, hle⟩ := h.below pre e' mid' deviceId energy hpast henergy
        fun r hr => hreset r (List.mem_append_left _ hr)
      obtain ⟨heater', hheater', hle'⟩ := hkeeps deviceId heater hheater (hreset e (by simp))
      exact ⟨heater', hheater', Floating.Value.le_trans hle hle'⟩
  rises pre e₁ mid e₂ post deviceId energy energy' hsplit henergy henergy' hreset := by
    rw [← List.cons_append, ← List.append_assoc] at hsplit
    rcases Traced.snoc_eq_append_cons hsplit with ⟨hpast, rfl, -⟩ | ⟨post', -, hpast⟩
    · obtain ⟨heater, hheater, hle⟩ := h.below pre e₁ mid deviceId energy hpast henergy hreset
      have hnot : ¬IsReset deviceId e := by
        rintro ⟨args, result, rfl⟩
        obtain ⟨value, hvalue, -⟩ := henergy'
        exact hvalue.elim
      obtain ⟨heater', hheater', hle'⟩ := hkeeps deviceId heater hheater hnot
      obtain ⟨found, hfound, rfl⟩ := hshows deviceId energy' henergy'
      obtain rfl := Option.some.inj (hheater'.symm.trans hfound)
      exact Floating.Value.le_trans hle hle'
    · rw [List.append_assoc, List.cons_append] at hpast
      exact h.rises pre e₁ mid e₂ post' deviceId energy energy' hpast henergy henergy' hreset

/-- An event in which time may pass, and nothing happens to the heaters. -/
theorem Counting.quiet (h : Counting P past s) {e : Event} (hpowered : Powered (past ++ [e]) s')
    (hheaters : s'.heaters = s.heaters) (hworld : P.elapsed s.world ≤ P.elapsed s'.world)
    (hshows : ∀ deviceId energy, ShowsEnergy e deviceId energy →
      ∃ heater, s.heaters.lookup deviceId = some heater ∧ energy = heater.energy) :
    Counting P (past ++ [e]) s' := by
  refine h.snoc hpowered ?_ ?_ ?_
  · exact fun deviceId heater hheater =>
      (h.metered deviceId heater (hheaters ▸ hheater)).mono hworld
  · exact fun deviceId heater hheater _ => ⟨heater, hheaters ▸ hheater,
      Floating.Value.le_refl_of_nonneg (h.metered deviceId heater hheater).energy⟩
  · exact hheaters ▸ hshows

theorem not_showsEnergy_of_invoked {invocation : Invocation} {deviceId : Bytes} {energy : Double} :
    ¬ShowsEnergy (.invoked invocation) deviceId energy :=
  fun ⟨_, hvalue, _⟩ => hvalue

/-- An invocation keeps the count. -/
theorem Counting.moves (h : Counting P past s) (hserves : Serves configs past s)
    (hrated : ∀ c ∈ configs, c.Rated) {invocation : Invocation}
    (hmoves : Moves P s invocation s') (hpowered : Powered (past ++ [.invoked invocation]) s') :
    Counting P (past ++ [.invoked invocation]) s' := by
  rcases hmoves.steady with ⟨rfl, -⟩ | hlater
  · exact h.quiet hpowered rfl (le_refl _) fun _ _ henergy =>
      (not_showsEnergy_of_invoked henergy).elim
  · have hnext : ∀ deviceId heater', s'.heaters.lookup deviceId = some heater' →
        ∃ heater, s.heaters.lookup deviceId = some heater ∧ heater'.Metered P s'.world ∧
          (¬IsReset deviceId (.invoked invocation) → heater.energy.le heater'.energy = true) := by
      intro deviceId heater' hheater'
      obtain ⟨heater, hheater, hnext⟩ := hmoves.exists_next hheater'
      have hpower : InUnit heater.power := by
        rw [h.powered.power deviceId heater hheater]
        exact h.powered.inUnit deviceId
      obtain ⟨hmetered, hle⟩ := hnext.metered (h.metered deviceId heater hheater) hpower
        (hrated _ (hserves.sound.config deviceId heater hheater))
      exact ⟨heater, hheater, hmetered.mono hlater, hle⟩
    refine h.snoc hpowered ?_ ?_ fun _ _ henergy => (not_showsEnergy_of_invoked henergy).elim
    · intro deviceId heater' hheater'
      obtain ⟨-, -, hmetered, -⟩ := hnext deviceId heater' hheater'
      exact hmetered
    · intro deviceId heater hheater hreset
      have hmem : deviceId ∈ s.heaters := AList.lookup_isSome.mp (by rw [hheater]; rfl)
      obtain ⟨heater', hheater'⟩ := (hmoves.sound hserves.sound).exists_heater
        ((hserves.sound.mem deviceId).mp hmem)
      obtain ⟨found, hfound, -, hle⟩ := hnext deviceId heater' hheater'
      obtain rfl := Option.some.inj (hheater.symm.trans hfound)
      exact ⟨heater', hheater', hle hreset⟩

end Steps

theorem kept_counting (P : Platform ω) (hrated : ∀ c ∈ configs, c.Rated) :
    Kept P configs (Counting P) where
  moves hserves h hat hcleared hmoves := h.moves hserves hrated hmoves
    ((kept_powered P configs).moves hserves h.powered hat hcleared hmoves)
  clock hserves h hworld := h.quiet ((kept_powered P configs).clock hserves h.powered hworld) rfl
    hworld fun _ _ ⟨_, hvalue, _⟩ => hvalue.elim
  handled := by
    intro past s request asked response hserves h hat hshows
    refine h.quiet ((kept_powered P configs).handled hserves h.powered hat hshows) rfl
      (le_refl _) ?_
    rintro deviceId energy ⟨value, hvalue, rfl⟩
    obtain ⟨heater, d, hheater, hd, rfl⟩ := hserves.shown hat hshows hvalue
    have henergy : d = heater.energy := by simpa [Heater.values] using hd.symm
    exact ⟨heater, hheater, henergy⟩
  other := by
    intro past s e he hserves h
    refine h.quiet ((kept_powered P configs).other he hserves h.powered) rfl (le_refl _) ?_
    rintro deviceId energy ⟨value, hvalue, -⟩
    rcases he with hnote | ⟨budget, rfl⟩ | rfl
    · cases e <;> first | exact hnote.elim | exact hvalue.elim
    · exact hvalue.elim
    · exact hvalue.elim

theorem counting_new (P : Platform ω) (configs : List HeaterConfig) (w : ω) :
    Counting P [] (.new P configs w) where
  powered := powered_new P configs w
  metered deviceId heater hheater := by
    obtain ⟨c, w', rfl, hworld⟩ := ReferenceRuntime.exists_new hheater
    exact (Heater.metered_new P c w').mono hworld
  below := by simp
  rises := by simp [EnergyRises]

/-- In every run, the energy that the responses show of a device does not fall until it is
reset. -/
theorem reference_energy_rises (P : Platform ω) {configs : List HeaterConfig}
    (hrated : ∀ c ∈ configs, c.Rated) (codec : Codec) (input : IStream) (output : OStream) (w : ω) :
    EnergyRises (runReference P configs codec input output w).events := by
  obtain ⟨past, s, -, hcounting, hevents, -⟩ := (kept_counting P hrated).run (w := w)
    (counting_new P configs w) codec input output
  rw [hevents]
  intro pre e mid e' post deviceId energy energy' hsplit henergy henergy' hreset
  rw [← List.cons_append, ← List.append_assoc] at hsplit
  rcases Traced.snoc_eq_append_cons hsplit with ⟨-, rfl, -⟩ | ⟨post', -, hpast⟩
  · obtain ⟨value, hvalue, -⟩ := henergy'
    exact hvalue.elim
  · rw [List.append_assoc, List.cons_append] at hpast
    exact hcounting.rises pre e mid e' post' deviceId energy energy' hpast henergy henergy' hreset

/-! ## A heater on the bench -/

/-- The energies that an event shows of the device, in order. -/
def Event.energies (deviceId : Bytes) : Event → List Double
  | .handled ⟨_, .readSignals _⟩ ⟨_, _, .readSignals out⟩ =>
    if out.deviceId = deviceId then
      (out.values.filter fun value => value.signalId = lit "energy").map fun value =>
        value.value.doubleValue
    else []
  | _ => []

theorem showsEnergy_of_mem_energies {e : Event} {deviceId : Bytes} {energy : Double}
    (h : energy ∈ e.energies deviceId) : ShowsEnergy e deviceId energy := by
  unfold Event.energies at h
  split at h
  case h_1 requestId read responseId status out =>
    split_ifs at h with hdevice
    · obtain ⟨value, hvalue, rfl⟩ := List.mem_map.mp h
      obtain ⟨hmem, hid⟩ := List.mem_filter.mp hvalue
      exact ⟨value.value,
        ⟨read, out, value, rfl, rfl, hdevice, hmem, of_decide_eq_true hid, rfl⟩, rfl⟩
    · cases h
  case h_2 => cases h

/-- A platform on which the steady clock is read once a second, for a minute. Its `exp` is right
at `-1/60`, a second over the time constant, which is all that is asked of it. -/
def Platform.ticking : Platform ℕ where
  steadyNow w := ((min w 60 : ℕ) * 1000000000, w + 1)
  systemNow w := (0, w)
  currentTime w := (⟨0, 0⟩, w)
  exp _ := binary64.round (8858323345921113 / 9007199254740992)
  number := .silent
  elapsed w := (min w 60 : ℕ) * 1000000000
  elapsed_le_steadyNow _ := le_refl _
  steadyNow_le_elapsed _ := by dsimp only; omega
  elapsed_le_systemNow _ := le_refl _
  elapsed_le_currentTime _ := le_refl _
  abs_steadyNow _ := by
    rw [abs_le]
    dsimp only
    omega

/-- A heater of 100 W, with the defaults of the schema. -/
def benchHeater : HeaterConfig :=
  ⟨lit "bench", lit "Bench", binary64.round 20, binary64.round 50, binary64.round 100⟩

theorem toRat_hundred : (binary64.round 100).toRat = some 100 := by
  simpa using toRat_round_int (n := 100) (by norm_num)

namespace Wire

/-- A call that sets the heater to half its power. -/
def halfPowerRequest : Request :=
  ⟨2, .call ⟨lit "bench", kSetPower, [],
    .of [(lit "power", makeDoubleVal (binary64.round (1 / 2)))], none⟩⟩

/-- A read of the heater's energy. -/
def readEnergyRequest : Request :=
  ⟨3, .readSignals ⟨lit "bench", [lit "energy"], none⟩⟩

def halfPowerFrame : Bytes :=
  [0x08, 0x02, 0x3A, 0x1F, 0x0A, 0x05] ++ lit "bench" ++ [0x10, 0x01, 0x22, 0x14, 0x0A, 0x05] ++
    lit "power" ++ [0x12, 0x0B, 0x08, 0x01, 0x11, 0, 0, 0, 0, 0, 0, 0xE0, 0x3F]

def readEnergyFrame : Bytes :=
  [0x08, 0x03, 0x32, 0x0F, 0x0A, 0x05] ++ lit "bench" ++ [0x12, 0x06] ++ lit "energy"

def benchFrames : List Bytes :=
  [helloFrame, halfPowerFrame, readEnergyFrame, readEnergyFrame]

/-- The codec that knows the requests to the bench. -/
def bench : Codec :=
  codec [(helloFrame, helloRequest), (halfPowerFrame, halfPowerRequest),
    (readEnergyFrame, readEnergyRequest)]

end Wire

/-- Two reads of a heater at half of its 100 W, a second apart, show 50 J and 100 J. -/
theorem reference_energy_rises_bench :
    let ran := runReference .ticking [benchHeater] Wire.bench
      (.of (Wire.benchFrames.flatMap frameBytes) .eof) .sink 0
    EnergyRises ran.events ∧ ∀ q ∈ [(50 : ℚ), 100], ∃ e ∈ ran.events, ∃ energy,
      ShowsEnergy e (lit "bench") energy ∧ energy.toRat = some q := by
  intro ran
  have hparse : List.Forall₂ (ParsesAs Wire.bench) Wire.benchFrames
      [Wire.helloRequest, Wire.halfPowerRequest, Wire.readEnergyRequest, Wire.readEnergyRequest] :=
    .cons ⟨⟨by decide, by decide⟩, rfl⟩ <| .cons ⟨⟨by decide, by decide⟩, rfl⟩ <|
      .cons ⟨⟨by decide, by decide⟩, rfl⟩ <| .cons ⟨⟨by decide, by decide⟩, rfl⟩ .nil
  have hevents : ran.events = _ := events_runLoop hparse ⟨rfl, fun _ => rfl⟩ _
  have hshown : (ran.events.flatMap (Event.energies (lit "bench"))).map Floating.Value.toRat =
      [some 50, some 100] := by
    rw [hevents]
    decide +kernel
  refine ⟨reference_energy_rises .ticking
    (List.forall_mem_singleton.mpr ⟨100, toRat_hundred, by norm_num⟩) _ _ _ 0, fun q hq => ?_⟩
  have hmem := List.mem_map_of_mem (f := some) hq
  rw [List.map_cons, List.map_singleton, ← hshown] at hmem
  obtain ⟨energy, henergy, hq⟩ := List.mem_map.mp hmem
  obtain ⟨e, he, henergy⟩ := List.mem_flatMap.mp henergy
  exact ⟨e, he, energy, showsEnergy_of_mem_energies henergy, hq⟩

end ProviderSdk

import ProviderSdk.StartupStory
import Mathlib.Order.Bounds.Basic

/-!
# A provider only worsens its health

`make_provider_health` derives a health from the readiness report, and lets the provider
enrich it. What the provider may change is `OnlyWorsened` : the state for a worse one, the
metrics under keys of its own, and the message, unless its state was turned down
(`provider_health_only_worsens`).
-/

namespace ProviderSdk

variable {σ : Type}

/-! ## What an enrichment may do -/

/-- States by severity, OK < DEGRADED < FAULT. -/
instance : Preorder ProviderHealth.State where
  le a b := a.number ≤ b.number
  lt a b := a.number < b.number
  le_refl a := Int.le_refl a.number
  le_trans _ _ _ := Int.le_trans
  lt_iff_le_not_ge _ _ := Int.lt_iff_le_and_not_ge

/-- The metrics of the startup. -/
def lifecycleMetrics : List Bytes :=
  [lit "impl", lit "startup_policy", lit "startup_configured_devices",
    lit "startup_initialized_devices", lit "startup_failed_devices"]

section

variable (startup : ProviderHealth) (extra : ProviderHealthExtra)

/-- The state of the startup, and the one the provider reports if it does. -/
def reportedStates : Set ProviderHealth.State :=
  {state | state = startup.state ∨ extra.state = some state ∧ state ≠ .unspecified}

/-- The provider reports a worse state. -/
def Escalates : Prop :=
  ∃ state, extra.state = some state ∧ state ≠ .unspecified ∧ startup.state < state

/-- The provider's message comes with a worse state, or with none. -/
def MessageApplies (message : Bytes) : Prop :=
  extra.message = some message ∧ (Escalates startup extra ∨ extra.state = none)

/-- The health is what `extra` may make of the startup's. -/
structure OnlyWorsened (health : ProviderHealth) : Prop where
  state : IsGreatest (reportedStates startup extra) health.state
  lifecycle : ∀ key ∈ lifecycleMetrics, Shared startup.metrics health.metrics key
  metrics : ∀ key, key ∉ lifecycleMetrics →
    health.metrics.lookup key = extra.metrics.lookup key
  message : ∀ message, MessageApplies startup extra message → health.message = message
  silent : (∀ message, ¬MessageApplies startup extra message) → health.message = startup.message

end

/-! ## What the code does -/

theorem mem_metrics_startupHealth {report : ReadinessReport} {key : Bytes} :
    key ∈ (startupHealth report).metrics ↔ key ∈ lifecycleMetrics := by
  rw [metrics_startupHealth]
  simp only [StringMap.of, List.foldl_cons, List.foldl_nil, AList.mem_insert, lifecycleMetrics,
    List.mem_cons, List.not_mem_nil, AList.notMem_empty, or_false]
  tauto

theorem metrics_applyProviderHealth (health : ProviderHealth) (extra : ProviderHealthExtra) :
    (applyProviderHealth health extra).metrics = extra.metrics.entries.foldl
      (fun m e => if e.1 ∈ m then m else m.insert e.1 e.2) health.metrics := by
  unfold applyProviderHealth
  dsimp only
  split
  · split_ifs <;> rfl
  · rfl

section

variable {startup : ProviderHealth} {extra : ProviderHealthExtra}

theorem escalates_iff {state : ProviderHealth.State} (h : extra.state = some state) :
    Escalates startup extra ↔ state ≠ .unspecified ∧ state.number > startup.state.number := by
  rw [Escalates, h]
  constructor
  · rintro ⟨_, ⟨⟩, hreported, hworse⟩
    exact ⟨hreported, hworse⟩
  · exact fun hworse => ⟨state, rfl, hworse⟩

/-- A worse state is taken, with its message. -/
theorem applyProviderHealth_of_escalates (h : Escalates startup extra) :
    ∃ state, extra.state = some state ∧ state ≠ .unspecified ∧ startup.state < state ∧
      (applyProviderHealth startup extra).state = state ∧
      (applyProviderHealth startup extra).message = extra.message.getD startup.message := by
  obtain ⟨state, hstate, hreported, hworse⟩ := h
  refine ⟨state, hstate, hreported, hworse, ?_⟩
  have hif : state ≠ .unspecified ∧ state.number > startup.state.number := ⟨hreported, hworse⟩
  unfold applyProviderHealth
  simp only [hstate, if_pos hif, and_self]

/-- Any other state is not, nor its message. -/
theorem applyProviderHealth_of_not_escalates (h : ¬Escalates startup extra) :
    (applyProviderHealth startup extra).state = startup.state ∧
      (applyProviderHealth startup extra).message =
        if extra.state = none then extra.message.getD startup.message else startup.message := by
  unfold applyProviderHealth
  cases hstate : extra.state with
  | none => exact ⟨rfl, (if_pos rfl).symm⟩
  | some state =>
    rw [escalates_iff hstate] at h
    simp only [if_neg h, reduceCtorEq, if_false, and_self]

end

theorem isGreatest_state (startup : ProviderHealth) (extra : ProviderHealthExtra) :
    IsGreatest (reportedStates startup extra) (applyProviderHealth startup extra).state := by
  by_cases h : Escalates startup extra
  · obtain ⟨state, hstate, hreported, hworse, htaken, -⟩ := applyProviderHealth_of_escalates h
    rw [htaken]
    refine ⟨.inr ⟨hstate, hreported⟩, ?_⟩
    rintro other (rfl | ⟨hother, -⟩)
    · exact hworse.le
    · rw [hstate] at hother
      exact (Option.some.inj hother).ge
  · rw [(applyProviderHealth_of_not_escalates h).1]
    refine ⟨.inl rfl, ?_⟩
    rintro other (rfl | ⟨hother, hreported⟩)
    · exact le_rfl
    · rw [escalates_iff hother] at h
      exact not_lt.mp fun hworse => h ⟨hreported, hworse⟩

/-- What the code makes of a startup is what the enrichment may make of it. -/
theorem onlyWorsened (report : ReadinessReport) (extra : ProviderHealthExtra) :
    OnlyWorsened (startupHealth report) extra
      (applyProviderHealth (startupHealth report) extra) where
  state := isGreatest_state _ _
  lifecycle key hkey := by
    have hmem : key ∈ (startupHealth report).metrics := mem_metrics_startupHealth.mpr hkey
    obtain ⟨value, hvalue⟩ := Option.isSome_iff_exists.mp (AList.lookup_isSome.mpr hmem)
    refine ⟨value, hvalue, ?_⟩
    rw [metrics_applyProviderHealth, lookup_merge hmem, hvalue]
  metrics key hkey := by
    rw [metrics_applyProviderHealth,
      lookup_merge_of_notMem fun hmem => hkey (mem_metrics_startupHealth.mp hmem)]
    rfl
  message message hmessage := by
    obtain ⟨hmessage, happlies⟩ := hmessage
    by_cases h : Escalates (startupHealth report) extra
    · obtain ⟨-, -, -, -, -, htaken⟩ := applyProviderHealth_of_escalates h
      rw [htaken, hmessage, Option.getD_some]
    · rw [(applyProviderHealth_of_not_escalates h).2, if_pos (happlies.resolve_left h), hmessage,
        Option.getD_some]
  silent hsilent := by
    by_cases h : Escalates (startupHealth report) extra
    · obtain ⟨-, -, -, -, -, htaken⟩ := applyProviderHealth_of_escalates h
      cases hmessage : extra.message with
      | none => rw [htaken, hmessage, Option.getD_none]
      | some message => exact absurd ⟨hmessage, .inl h⟩ (hsilent message)
    · rw [(applyProviderHealth_of_not_escalates h).2]
      split_ifs with hstate
      · cases hmessage : extra.message with
        | none => rw [Option.getD_none]
        | some message => exact absurd ⟨hmessage, .inr hstate⟩ (hsilent message)
      · rfl

/-! ## The provider's part -/

/-- What `provider_health` gives when a provider does not override it. -/
def noHealthExtra : ProviderHealthExtra :=
  ⟨∅, none, none⟩

/-- The host without the override. -/
def Host.plain (host : Host σ) : Host σ :=
  { host with runtime := { host.runtime with providerHealth := fun s => (noHealthExtra, s) } }

theorem makeProviderHealth_plain (host : Host σ) (report : ReadinessReport) (s : σ) :
    (makeProviderHealth host.plain report s).value = startupHealth report :=
  rfl

/-- Whatever a provider says of its health, and of whatever startup, it only makes the health
worse than what it would be if the provider said nothing. -/
theorem provider_health_only_worsens (host : Host σ) (report : ReadinessReport) (s t : σ) :
    OnlyWorsened (makeProviderHealth host.plain report t).value
      (host.runtime.providerHealth s).1 (makeProviderHealth host report s).value := by
  rw [makeProviderHealth_plain]
  exact onlyWorsened report (host.runtime.providerHealth s).1

end ProviderSdk

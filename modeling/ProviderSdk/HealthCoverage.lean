import ProviderSdk.Wire
import ProviderSdk.Handlers

/-!
# Who the health answers cover

ListDevices covers the live inventory. GetHealth covers it too, and then the startup
failures that are not live. Both build their entries with `makeDeviceHealth`, which asks
the provider once for each id it is given.

`health_covered_iff` : for a provider whose answers do not change meanwhile, the two cover
each device once exactly when no failure that is not live is reported twice. `healthIds`
keeps the repeats of `failed_devices`.
-/

namespace ProviderSdk

variable {σ : Type}

/-! ## A provider that does not change -/

/-- The answers that the health handlers ask a provider for. -/
structure Snapshot where
  report : ReadinessReport
  live : List Bytes
  info : Bytes → Device
  extra : Bytes → DeviceHealthExtra

/-- The provider answers from the snapshot, whatever it is asked and in any order. -/
structure Host.Fixed (host : Host σ) (snap : Snapshot) : Prop where
  readiness : ∀ s, (host.runtime.readiness s).1 = snap.report
  listDeviceIds : ∀ s, (host.runtime.listDeviceIds s).1 = snap.live
  deviceInfo : ∀ id s, (host.runtime.deviceInfo id s).1 = snap.info id
  deviceHealth : ∀ id s, (host.runtime.deviceHealth id s).1 = snap.extra id

namespace Snapshot

variable (snap : Snapshot)

/-- The ids of the startup failures. -/
def failedIds : List Bytes :=
  snap.report.failedDevices.map ReadinessReport.DeviceFailure.deviceId

/-- The health entry of a device. -/
def entry (id : Bytes) : DeviceHealth :=
  deviceHealthOf snap.report id (snap.extra id)

@[simp] theorem entry_deviceId (id : Bytes) : (snap.entry id).deviceId = id :=
  rfl

theorem map_entry_deviceId (ids : List Bytes) :
    (ids.map snap.entry).map DeviceHealth.deviceId = ids := by
  rw [List.map_map]
  exact List.map_id ids

end Snapshot

/-- The ids of the `device_health` calls, in order. -/
def healthAsked (events : List Event) : List Bytes :=
  events.filterMap fun
    | .invoked (.deviceHealth id _) => some id
    | _ => none

/-- Each id of `p` once, and no other. -/
def EachOnce (p : Bytes → Prop) (ids : List Bytes) : Prop :=
  ids.Nodup ∧ ∀ id, id ∈ ids ↔ p id

/-- The two health answers, with the `device_health` calls made for each : ListDevices has
an entry for each listed device, in order, and GetHealth has one for each live or failed
device, the listed ones first. -/
structure HealthCovered (snap : Snapshot) (devices : List Device)
    (listed : List DeviceHealth) (listedAsked : List Bytes) (health : List DeviceHealth)
    (healthAsked : List Bytes) : Prop where
  devices_eq : devices = snap.live.map snap.info
  listed_ids : listed.map DeviceHealth.deviceId = snap.live
  listed_asked : EachOnce (· ∈ snap.live) listedAsked
  health_ids : EachOnce (fun id => id ∈ snap.live ∨ id ∈ snap.failedIds)
    (health.map DeviceHealth.deviceId)
  listed_first : listed <+: health
  health_asked : EachOnce (fun id => id ∈ snap.live ∨ id ∈ snap.failedIds) healthAsked

/-! ## What the handlers answer -/

section Answers

variable {host : Host σ} {snap : Snapshot}

/-- The `device_health` calls for the ids. -/
def Snapshot.asking (snap : Snapshot) (ids : List Bytes) : List Event :=
  ids.map fun id => .invoked (.deviceHealth id (snap.extra id))

theorem healthAsked_append (es es' : List Event) :
    healthAsked (es ++ es') = healthAsked es ++ healthAsked es' :=
  List.filterMap_append

theorem healthAsked_asking (ids : List Bytes) : healthAsked (snap.asking ids) = ids := by
  rw [healthAsked, Snapshot.asking, List.filterMap_map]
  exact List.filterMap_some

theorem makeDeviceHealth_fixed (h : host.Fixed snap) (ids : List Bytes) :
    (makeDeviceHealth host ids snap.report).Ensures fun entries es =>
      entries = ids.map snap.entry ∧ es = snap.asking ids := by
  refine (Traced.Ensures.mapM_determined
    (e := fun id => [.invoked (.deviceHealth id (snap.extra id))]) (fun id => ?_) ids).mono
    fun _ _ hes => ⟨hes.1, hes.2.trans List.map_eq_flatMap.symm⟩
  refine .observe_bind fun s => .pure ⟨?_, ?_⟩
  · rw [h.deviceHealth]
    rfl
  · rw [h.deviceHealth]
    rfl

theorem devices_fixed (h : host.Fixed snap) (ids : List Bytes) :
    (ids.mapM host.deviceInfo).Ensures fun infos es =>
      infos = ids.map snap.info ∧ healthAsked es = [] := by
  refine (Traced.Ensures.mapM_determined
    (e := fun id => [.invoked (.deviceInfo id (snap.info id))]) (fun id s => ?_) ids).mono
    fun _ es hes => ⟨hes.1, ?_⟩
  · exact ⟨h.deviceInfo id s, by rw [← h.deviceInfo id s]; rfl⟩
  · rw [hes.2, ← List.map_eq_flatMap, healthAsked, List.filterMap_map]
    exact List.filterMap_eq_nil_iff.mpr fun _ _ => rfl

/-- A question about something else than a device's health is not one about it. -/
theorem healthAsked_cons_of_none {e : Event} (he : healthAsked [e] = []) (es : List Event) :
    healthAsked (e :: es) = healthAsked es := by
  rw [← List.singleton_append, healthAsked_append, he, List.nil_append]

theorem handleListDevices_fixed (h : host.Fixed snap) (response : Response) :
    (handleListDevices host ⟨true⟩ response).Ensures fun r es =>
      r.payload = .listDevices ⟨snap.live.map snap.info, snap.live.map snap.entry⟩ ∧
        healthAsked es = snap.live := by
  refine .observe_bind fun s => ?_
  rw [h.listDeviceIds]
  refine (devices_fixed h snap.live).bind fun infos es hes => ?_
  obtain ⟨rfl, hes⟩ := hes
  rw [if_pos rfl]
  refine .observe_bind fun s' => ?_
  rw [h.readiness]
  refine (makeDeviceHealth_fixed h snap.live).bind fun entries es' hes' => .pure ⟨?_, ?_⟩
  · rw [hes'.1]
    rfl
  · rw [List.append_nil, hes'.2, healthAsked_cons_of_none rfl, healthAsked_append, hes,
      List.nil_append, healthAsked_cons_of_none rfl, healthAsked_asking]

theorem handleGetHealth_fixed (h : host.Fixed snap) (response : Response) :
    (handleGetHealth host response).Ensures fun r es =>
      (∃ provider, r.payload =
        .getHealth ⟨provider, (healthIds snap.live snap.report).map snap.entry⟩) ∧
        healthAsked es = healthIds snap.live snap.report := by
  refine .observe_bind fun s => ?_
  rw [h.readiness]
  have hprovider : (makeProviderHealth host snap.report).Ensures fun _ es =>
      healthAsked es = [] := .observe_bind fun _ => .pure rfl
  refine hprovider.bind fun provider es hes => .observe_bind fun s' => ?_
  rw [h.listDeviceIds]
  refine (makeDeviceHealth_fixed h (healthIds snap.live snap.report)).bind
    fun entries es' hes' => .pure ⟨⟨provider, ?_⟩, ?_⟩
  · rw [hes'.1]
    rfl
  · rw [List.append_nil, hes'.2, healthAsked_cons_of_none rfl, healthAsked_append, hes,
      List.nil_append, healthAsked_cons_of_none rfl, healthAsked_asking]

end Answers

/-! ## Each device once -/

theorem mem_healthIds {snap : Snapshot} {id : Bytes} :
    id ∈ healthIds snap.live snap.report ↔ id ∈ snap.live ∨ id ∈ snap.failedIds := by
  rw [healthIds, List.mem_append, List.mem_filter, decide_eq_true_eq]
  by_cases hlive : id ∈ snap.live
  · simp [hlive]
  · simp [hlive, Snapshot.failedIds]

/-- Only a failure that is not live can be there twice. -/
theorem nodup_healthIds_iff {snap : Snapshot} (hlive : snap.live.Nodup) :
    (healthIds snap.live snap.report).Nodup ↔ (snap.failedIds.filter (· ∉ snap.live)).Nodup := by
  rw [healthIds, List.nodup_append]
  refine ⟨fun h => h.2.1, fun h => ⟨hlive, h, ?_⟩⟩
  rintro id hid _ hfailed rfl
  exact of_decide_eq_true (List.mem_filter.mp hfailed).2 hid

/-- The health answers cover each device once exactly when no failure that is not live is
reported twice. -/
theorem health_covered_iff {host : Host σ} {snap : Snapshot} (h : host.Fixed snap)
    (hlive : snap.live.Nodup) (response response' : Response) (s t : σ) :
    ∃ devices listed provider health,
      (handleListDevices host ⟨true⟩ response s).value.payload = .listDevices ⟨devices, listed⟩ ∧
      (handleGetHealth host response' t).value.payload = .getHealth ⟨provider, health⟩ ∧
      (HealthCovered snap devices listed
          (healthAsked (handleListDevices host ⟨true⟩ response s).events) health
          (healthAsked (handleGetHealth host response' t).events) ↔
        (snap.failedIds.filter (· ∉ snap.live)).Nodup) := by
  obtain ⟨hlisted, hlistedAsked⟩ := handleListDevices_fixed h response s
  obtain ⟨⟨provider, hhealth⟩, hhealthAsked⟩ := handleGetHealth_fixed h response' t
  refine ⟨_, _, provider, _, hlisted, hhealth, ?_⟩
  rw [hlistedAsked, hhealthAsked, ← nodup_healthIds_iff hlive]
  constructor
  · exact fun hcovered => hcovered.health_asked.1
  · intro hnodup
    have honce : EachOnce (fun id => id ∈ snap.live ∨ id ∈ snap.failedIds)
        (healthIds snap.live snap.report) := ⟨hnodup, fun _ => mem_healthIds⟩
    refine ⟨rfl, snap.map_entry_deviceId _, ⟨hlive, fun _ => Iff.rfl⟩, ?_, ?_, honce⟩
    · rw [snap.map_entry_deviceId]
      exact honce
    · exact ⟨_, List.map_append.symm⟩

/-! ### A failure reported twice -/

/-- A quiet provider with live devices. -/
def listing (live : List Bytes) (report : ReadinessReport) : Host Unit :=
  { quiet (metadataWith ∅) report with
    runtime := { (quiet (metadataWith ∅) report).runtime with listDeviceIds := fun s => (live, s) } }

/-- What it answers. -/
def listingSnapshot (live : List Bytes) (report : ReadinessReport) : Snapshot where
  report := report
  live := live
  info id := ⟨id, [], ∅⟩
  extra _ := ⟨∅, none, none, none⟩

theorem fixed_listing (live : List Bytes) (report : ReadinessReport) :
    (listing live report).Fixed (listingSnapshot live report) :=
  ⟨fun _ => rfl, fun _ => rfl, fun _ _ => rfl, fun _ _ => rfl⟩

/-- `flaky` failed, `n` times over. -/
def flakyReport (n : ℕ) : ReadinessReport :=
  { emptyReport with
    configuredDeviceCount := 2
    successfulDeviceIds := [lit "dev0"]
    failedDevices := List.replicate n ⟨lit "flaky", lit "timeout"⟩ }

/-- GetHealth has two entries for the device that the report lists twice. -/
theorem not_health_covered_repeated : (lit "dev0" :: []).Nodup ∧
    ∃ provider health,
      (handleGetHealth (listing [lit "dev0"] (flakyReport 2))
        (initialResponse Wire.waitReadyRequest) ()).value.payload = .getHealth ⟨provider, health⟩ ∧
      health.map DeviceHealth.deviceId = [lit "dev0", lit "flaky", lit "flaky"] ∧
      ∀ devices listed listedAsked asked,
        ¬HealthCovered (listingSnapshot [lit "dev0"] (flakyReport 2)) devices listed listedAsked
          health asked := by
  refine ⟨List.nodup_singleton _, _, _, rfl, by decide, fun _ _ _ _ h => ?_⟩
  exact absurd h.health_ids.1 (by decide)

/-- One live device and one failure. -/
theorem health_covered_once : ∃ devices listed provider health,
    (handleListDevices (listing [lit "dev0"] (flakyReport 1)) ⟨true⟩
      (initialResponse Wire.waitReadyRequest) ()).value.payload = .listDevices ⟨devices, listed⟩ ∧
    (handleGetHealth (listing [lit "dev0"] (flakyReport 1))
      (initialResponse Wire.waitReadyRequest) ()).value.payload = .getHealth ⟨provider, health⟩ ∧
    HealthCovered (listingSnapshot [lit "dev0"] (flakyReport 1)) devices listed
      (healthAsked (handleListDevices (listing [lit "dev0"] (flakyReport 1)) ⟨true⟩
        (initialResponse Wire.waitReadyRequest) ()).events) health
      (healthAsked (handleGetHealth (listing [lit "dev0"] (flakyReport 1))
        (initialResponse Wire.waitReadyRequest) ()).events) := by
  obtain ⟨devices, listed, provider, health, hlisted, hhealth, hcovered⟩ :=
    health_covered_iff (fixed_listing [lit "dev0"] (flakyReport 1)) (List.nodup_singleton _)
      (initialResponse Wire.waitReadyRequest) (initialResponse Wire.waitReadyRequest) () ()
  exact ⟨devices, listed, provider, health, hlisted, hhealth, hcovered.mpr (by decide)⟩

end ProviderSdk

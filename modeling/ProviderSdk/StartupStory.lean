import ProviderSdk.Wire

/-!
# Two reports of one startup

WaitReady and GetHealth each project the same `ReadinessReport` : the configured, the
initialized and the failed devices, and whether the startup was degraded.

WaitReady counts the devices in the failed list; GetHealth also counts those that are
configured and in neither list. So they tell the same story (`SameStory`) exactly for
the reports that account for every configured device (`startup_story_iff`).
-/

namespace ProviderSdk

variable {σ : Type}

/-! ## Lookups -/

/-- Entries under other keys leave a lookup as it was. -/
theorem lookup_foldl_insert {α : Type} {key : Bytes} : ∀ {entries : List (Sigma fun _ : Bytes => α)}
    {m : StringMap α}, (∀ e ∈ entries, e.1 ≠ key) →
      (entries.foldl (fun m e => m.insert e.1 e.2) m).lookup key = m.lookup key
  | [], _, _ => rfl
  | e :: entries, m, h => by
    rw [List.foldl_cons, lookup_foldl_insert fun e' he' => h e' (List.mem_cons_of_mem e he'),
      AList.lookup_insert_ne (h e List.mem_cons_self).symm]

theorem StringMap.lookup_setAll {α : Type} {key : Bytes} {m extra : StringMap α}
    (h : key ∉ extra) : (m.setAll extra).lookup key = m.lookup key := by
  refine lookup_foldl_insert fun e he hkey => h ?_
  exact hkey ▸ List.mem_keys_of_mem he

/-- A merge that keeps what is there keeps the lookups of what is there. -/
theorem lookup_merge {α : Type} {key : Bytes} : ∀ {entries : List (Sigma fun _ : Bytes => α)}
    {m : StringMap α}, key ∈ m →
      (entries.foldl (fun m e => if e.1 ∈ m then m else m.insert e.1 e.2) m).lookup key =
        m.lookup key
  | [], _, _ => rfl
  | e :: entries, m, h => by
    rw [List.foldl_cons]
    by_cases he : e.1 ∈ m
    · rw [if_pos he, lookup_merge h]
    · have hne : key ≠ e.1 := by
        rintro rfl
        exact he h
      rw [if_neg he, lookup_merge ((AList.mem_insert m).mpr (.inr h)), AList.lookup_insert_ne hne]

/-- What it adds is under the other keys. -/
theorem lookup_merge_of_notMem {α : Type} {key : Bytes} :
    ∀ {entries : List (Sigma fun _ : Bytes => α)} {m : StringMap α}, key ∉ m →
      (entries.foldl (fun m e => if e.1 ∈ m then m else m.insert e.1 e.2) m).lookup key =
        entries.dlookup key
  | [], _, h => AList.lookup_eq_none.mpr h
  | ⟨key', value⟩ :: entries, m, h => by
    rw [List.foldl_cons]
    dsimp only
    by_cases hkey : key = key'
    · subst hkey
      rw [if_neg h, lookup_merge ((AList.mem_insert m).mpr (.inl rfl)), AList.lookup_insert,
        List.dlookup_cons_eq]
    · rw [List.dlookup_cons_ne _ _ hkey]
      split_ifs
      · exact lookup_merge_of_notMem h
      · exact lookup_merge_of_notMem fun hmem =>
          ((AList.mem_insert m).mp hmem).elim hkey h

/-! ## The story -/

/-- The keys WaitReady sets before the provider's own diagnostics. -/
def fixedDiagnostics : List Bytes :=
  [lit "device_count", lit "startup_policy", lit "startup_configured_devices",
    lit "startup_initialized_devices", lit "startup_failed_devices", lit "startup_degraded",
    lit "provider_version", lit "provider_impl"]

/-- Both maps have the key, with one value. -/
def Shared (a b : StringMap Bytes) (key : Bytes) : Prop :=
  ∃ value, a.lookup key = some value ∧ b.lookup key = some value

/-- Diagnostics and a health that say the same of a startup. -/
structure SameStory (diagnostics : StringMap Bytes) (health : ProviderHealth) : Prop where
  configured : Shared diagnostics health.metrics (lit "startup_configured_devices")
  initialized : Shared diagnostics health.metrics (lit "startup_initialized_devices")
  failed : Shared diagnostics health.metrics (lit "startup_failed_devices")
  degraded : diagnostics.lookup (lit "startup_degraded") = some (lit "true") ↔
    health.state = .degraded

/-- A WaitReady and a GetHealth response whose diagnostics and provider health say the same. -/
def Response.SameStory (waitReady getHealth : Response) : Prop :=
  ∃ diagnostics health devices, waitReady.payload = .waitReady ⟨diagnostics⟩ ∧
    getHealth.payload = .getHealth ⟨health, devices⟩ ∧
    ProviderSdk.SameStory diagnostics health

/-- Every configured device is accounted for : those in excess of the initialized ones are
no more than the failed list has. The comparison is of `int`s and the subtraction of
`std::size_t`s. -/
def ReadinessReport.Accounted (report : ReadinessReport) : Prop :=
  report.configuredDeviceCount > toInt32 report.successfulDeviceIds.length →
    (report.configuredDeviceCount - report.successfulDeviceIds.length) % 2 ^ 64 ≤
      report.failedDevices.length

instance (report : ReadinessReport) : Decidable report.Accounted :=
  inferInstanceAs (Decidable (_ → _))

/-- For counts that fit an `int`, the configured devices are at most those listed. -/
theorem accounted_iff {report : ReadinessReport} (hc : report.configuredDeviceCount < 2 ^ 31)
    (hs : report.successfulDeviceIds.length < 2 ^ 31) :
    report.Accounted ↔ report.configuredDeviceCount ≤
      report.successfulDeviceIds.length + report.failedDevices.length := by
  have hcast : toInt32 report.successfulDeviceIds.length = report.successfulDeviceIds.length := by
    unfold toInt32
    rw [Int.bmod_eq_of_le] <;> omega
  rw [ReadinessReport.Accounted, hcast]
  omega

theorem failedDeviceCount_eq_iff {report : ReadinessReport} :
    failedDeviceCount report = report.failedDevices.length ↔ report.Accounted := by
  unfold failedDeviceCount ReadinessReport.Accounted
  dsimp only
  have hnonneg := Int.emod_nonneg
    (report.configuredDeviceCount - report.successfulDeviceIds.length) (b := 2 ^ 64) (by decide)
  split_ifs <;> omega

/-! ## Each side -/

/-- The diagnostics under the fixed keys, when the provider's own redefine none. -/
theorem lookup_waitReadyDiagnostics {report : ReadinessReport} (metadata : ProviderMetadata)
    (hextra : ∀ key ∈ fixedDiagnostics, key ∉ report.extraDiagnostics) :
    (waitReadyDiagnostics report metadata).lookup (lit "startup_configured_devices") =
        some (toStringInt report.configuredDeviceCount) ∧
      (waitReadyDiagnostics report metadata).lookup (lit "startup_initialized_devices") =
        some (toStringNat report.successfulDeviceIds.length) ∧
      (waitReadyDiagnostics report metadata).lookup (lit "startup_failed_devices") =
        some (toStringNat report.failedDevices.length) ∧
      (waitReadyDiagnostics report metadata).lookup (lit "startup_degraded") =
        some (if report.failedDevices = [] then lit "false" else lit "true") := by
  unfold waitReadyDiagnostics
  refine ⟨?_, ?_, ?_, ?_⟩
  all_goals
    rw [StringMap.lookup_setAll (hextra _ (by simp [fixedDiagnostics]))]
    simp [StringMap.of, AList.lookup_insert_ne]

theorem metrics_startupHealth (report : ReadinessReport) :
    (startupHealth report).metrics = StringMap.of
      [(lit "impl", report.providerImpl),
        (lit "startup_policy", report.startupPolicy),
        (lit "startup_configured_devices", toStringInt report.configuredDeviceCount),
        (lit "startup_initialized_devices", toStringNat report.successfulDeviceIds.length),
        (lit "startup_failed_devices", toStringNat (failedDeviceCount report))] := by
  unfold startupHealth
  dsimp only
  split_ifs <;> rfl

/-- The startup's health under the shared keys, and its state, whatever metrics the provider
adds. -/
theorem lookup_providerHealth (report : ReadinessReport) {extra : ProviderHealthExtra}
    (hstate : extra.state = none) :
    (applyProviderHealth (startupHealth report) extra).metrics.lookup
        (lit "startup_configured_devices") = some (toStringInt report.configuredDeviceCount) ∧
      (applyProviderHealth (startupHealth report) extra).metrics.lookup
        (lit "startup_initialized_devices") =
          some (toStringNat report.successfulDeviceIds.length) ∧
      (applyProviderHealth (startupHealth report) extra).metrics.lookup
        (lit "startup_failed_devices") = some (toStringNat (failedDeviceCount report)) ∧
      ((applyProviderHealth (startupHealth report) extra).state = .degraded ↔
        failedDeviceCount report ≠ 0) := by
  unfold applyProviderHealth
  simp only [hstate, metrics_startupHealth]
  refine ⟨?_, ?_, ?_, ?_⟩
  · rw [lookup_merge (by simp [StringMap.of, AList.mem_insert])]
    simp [StringMap.of, AList.lookup_insert_ne]
  · rw [lookup_merge (by simp [StringMap.of, AList.mem_insert])]
    simp [StringMap.of, AList.lookup_insert_ne]
  · rw [lookup_merge (by simp [StringMap.of, AList.mem_insert])]
    simp [StringMap.of]
  · unfold startupHealth
    dsimp only
    split_ifs with hfailed
    · simp [Nat.pos_iff_ne_zero.mp hfailed]
    · simpa using Nat.eq_zero_of_not_pos hfailed

/-- The two projections of a report agree exactly when it accounts for its devices. -/
theorem sameStory_iff {report : ReadinessReport} {metadata : ProviderMetadata}
    {extra : ProviderHealthExtra}
    (hextra : ∀ key ∈ fixedDiagnostics, key ∉ report.extraDiagnostics)
    (hstate : extra.state = none) :
    SameStory (waitReadyDiagnostics report metadata)
      (applyProviderHealth (startupHealth report) extra) ↔ report.Accounted := by
  obtain ⟨hwc, hwi, hwf, hwd⟩ := lookup_waitReadyDiagnostics metadata hextra
  obtain ⟨hgc, hgi, hgf, hgd⟩ := lookup_providerHealth report hstate
  rw [← failedDeviceCount_eq_iff]
  constructor
  · rintro ⟨-, -, ⟨value, hw, hg⟩, -⟩
    rw [hwf] at hw
    rw [hgf] at hg
    exact toStringNat_inj (Option.some.inj (hg.trans hw.symm))
  · intro hfailed
    refine ⟨⟨_, hwc, hgc⟩, ⟨_, hwi, hgi⟩, ⟨_, hwf, hfailed ▸ hgf⟩, ?_⟩
    rw [hwd, hgd, hfailed]
    split_ifs with hnil
    · simp [hnil]
    · simpa using hnil

/-! ## The responses -/

variable (host : Host σ)

/-- The responses are the projections of what the provider answers. -/
theorem responses_sameStory_iff (response response' : Response) (s t : σ) :
    Response.SameStory (handleWaitReady host response s).value
        (handleGetHealth host response' t).value ↔
      SameStory
        (waitReadyDiagnostics (host.runtime.readiness s).1
          (host.runtime.metadata (host.runtime.readiness s).2).1)
        (applyProviderHealth (startupHealth (host.runtime.readiness t).1)
          (host.runtime.providerHealth (host.runtime.readiness t).2).1) := by
  constructor
  · rintro ⟨diagnostics, health, devices, hw, hg, hstory⟩
    cases hw
    cases hg
    exact hstory
  · exact fun hstory => ⟨_, _, _, rfl, rfl, hstory⟩

/-- WaitReady and GetHealth tell the same story of a startup exactly for the reports that
account for every configured device. -/
theorem startup_story_iff {report : ReadinessReport} {s t : σ}
    (hs : (host.runtime.readiness s).1 = report) (ht : (host.runtime.readiness t).1 = report)
    (hextra : ∀ key ∈ fixedDiagnostics, key ∉ report.extraDiagnostics)
    (hstate : (host.runtime.providerHealth (host.runtime.readiness t).2).1.state = none)
    (response response' : Response) :
    Response.SameStory (handleWaitReady host response s).value
      (handleGetHealth host response' t).value ↔ report.Accounted := by
  rw [responses_sameStory_iff, hs, ht]
  exact sameStory_iff hextra hstate

/-- One device is configured, and no list has it. -/
def unlistedReport : ReadinessReport :=
  { emptyReport with configuredDeviceCount := 1 }

/-- WaitReady reports no failed device and no degradation, GetHealth one and DEGRADED. -/
theorem startup_story_unlisted :
    ¬Response.SameStory
      (handleWaitReady (quiet (metadataWith ∅) unlistedReport)
        (initialResponse Wire.waitReadyRequest) ()).value
      (handleGetHealth (quiet (metadataWith ∅) unlistedReport)
        (initialResponse Wire.waitReadyRequest) ()).value := by
  rw [responses_sameStory_iff]
  intro hstory
  have haccounted := (sameStory_iff (by decide +kernel) rfl).mp hstory
  exact absurd haccounted (by decide)

/-- Two devices are configured, one initialized and one is listed as failed. -/
def listedReport : ReadinessReport :=
  { emptyReport with
    configuredDeviceCount := 2
    successfulDeviceIds := [lit "dev0"]
    failedDevices := [⟨lit "dev1", lit "no answer"⟩]
    extraDiagnostics := .of [(lit "bus_path", lit "/dev/i2c-1"), (lit "init_time_ms", lit "12")] }

theorem startup_story_listed :
    Response.SameStory
      (handleWaitReady (quiet (metadataWith ∅) listedReport)
        (initialResponse Wire.waitReadyRequest) ()).value
      (handleGetHealth (quiet (metadataWith ∅) listedReport)
        (initialResponse Wire.waitReadyRequest) ()).value :=
  (startup_story_iff (quiet (metadataWith ∅) listedReport) rfl rfl (by decide +kernel) rfl _ _).mpr
    (by decide +kernel)

end ProviderSdk

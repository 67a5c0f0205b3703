import ProviderSdk.HostCheck
import ProviderSdk.Lib.Numeral

/-!
# The host checks of an i2c-dev bus

The Linux build of `src/anolis/provider_sdk/i2c/host_checks.cpp`, and what
`src/anolis/provider_sdk/host_check.cpp` makes of requirements besides the envelope : the exit
code and the readiness diagnostics.

`HostOs` is what the host answers while it is checked. Whatever it answers, the same
requirements are reported, and the three reports agree (`checkHost_reported`). That they do
rests on the ids, since the diagnostics call the host ok when their summary is empty
(`unmetSummary_eq_nil_iff`).
-/

namespace ProviderSdk.HostCheck

/-! ## Exit code and diagnostics -/

def exitCode (requirements : List Requirement) : ℤ :=
  if requirements.any (·.status = .unmet) then 1 else 0

/-- `write_envelope`, with what it writes and returns. -/
def writeEnvelope (providerName : Bytes) (requirements : List Requirement) :
    Except Bytes (Bytes × ℤ) := do
  let text ← envelope providerName requirements
  .ok (text ++ lit "\n", exitCode requirements)

/-- The loop of `readiness_diagnostics`, with the summary so far. -/
def unmetSummary : Bytes → List Requirement → Bytes
  | unmet, [] => unmet
  | unmet, r :: rs =>
    if r.status ≠ .unmet then unmetSummary unmet rs
    else unmetSummary (unmet ++ (if unmet.isEmpty then [] else lit "; ") ++ r.id ++
      if r.detail.isEmpty then [] else lit ": " ++ r.detail) rs

def readinessDiagnostics (requirements : List Requirement) : List (Bytes × Bytes) :=
  let unmet := unmetSummary [] requirements
  if unmet.isEmpty then [(lit "host_check", lit "ok")]
  else [(lit "host_check", lit "unmet"), (lit "host_unmet", unmet)]

/-! ### The summary -/

/-- The requirements that are not met. -/
def unmetOf (requirements : List Requirement) : List Requirement :=
  requirements.filter (·.status = .unmet)

/-- What is said of a requirement that is not met. -/
def Requirement.summary (r : Requirement) : Bytes :=
  r.id ++ if r.detail = [] then [] else lit ": " ++ r.detail

theorem exitCode_eq (requirements : List Requirement) :
    exitCode requirements = if unmetOf requirements = [] then 0 else 1 := by
  have hiff : (requirements.any (·.status = .unmet)) = true ↔ unmetOf requirements ≠ [] := by
    simp [unmetOf, List.filter_eq_nil_iff]
  unfold exitCode
  by_cases h : unmetOf requirements = []
  · rw [if_pos h, if_neg fun hany => hiff.mp hany h]
  · rw [if_neg h, if_pos (hiff.mpr h)]

/-- The summary depends on what is not met only. -/
theorem unmetSummary_eq (unmet : Bytes) (requirements : List Requirement) :
    unmetSummary unmet requirements = (unmetOf requirements).foldl
      (fun out r => out ++ (if out = [] then [] else lit "; ") ++ r.summary) unmet := by
  induction requirements generalizing unmet with
  | nil => rfl
  | cons r rs ih =>
    rw [unmetSummary]
    by_cases hr : r.status = .unmet
    · rw [if_neg (by simpa using hr), ih, unmetOf, unmetOf,
        List.filter_cons_of_pos (by simpa using hr), List.foldl_cons]
      simp [Requirement.summary]
    · rw [if_pos hr, ih, unmetOf, unmetOf, List.filter_cons_of_neg (by simpa using hr)]

theorem foldl_summary_of_ne_nil {rs : List Requirement} {out : Bytes} (hout : out ≠ []) :
    rs.foldl (fun out r => out ++ (if out = [] then [] else lit "; ") ++ r.summary) out =
      out ++ rs.flatMap fun r => lit "; " ++ r.summary := by
  induction rs generalizing out with
  | nil => simp
  | cons r rs ih =>
    rw [List.foldl_cons, if_neg hout, ih (by simp [hout]), List.flatMap_cons]
    simp

/-- What is joined, one after the other. -/
theorem intercalate_cons (sep t : Bytes) (ts : List Bytes) :
    sep.intercalate (t :: ts) = t ++ ts.flatMap (sep ++ ·) := by
  induction ts generalizing t with
  | nil => simp
  | cons t' ts ih =>
    rw [List.intercalate_cons_cons, ih, List.flatMap_cons]
    simp

/-- With ids, the summaries stand one after the other, with separators between them. -/
theorem unmetSummary_of_ids {requirements : List Requirement}
    (h : ∀ r ∈ requirements, r.id ≠ []) :
    unmetSummary [] requirements =
      (lit "; ").intercalate ((unmetOf requirements).map Requirement.summary) := by
  rw [unmetSummary_eq]
  have hids : ∀ r ∈ unmetOf requirements, r.id ≠ [] :=
    fun r hr => h r (List.mem_of_mem_filter hr)
  revert hids
  cases unmetOf requirements with
  | nil => exact fun _ => rfl
  | cons r rs =>
    intro hids
    have hr : r.summary ≠ [] := by simp [Requirement.summary, hids r (by simp)]
    rw [List.foldl_cons, if_pos rfl, List.append_nil, List.nil_append, foldl_summary_of_ne_nil hr,
      List.map_cons, intercalate_cons, List.flatMap_map]

/-- The summary is empty only if nothing is said of what is not met. -/
theorem unmetSummary_eq_nil_iff (requirements : List Requirement) :
    unmetSummary [] requirements = [] ↔ ∀ r ∈ unmetOf requirements, r.id = [] ∧ r.detail = [] := by
  have hsummary : ∀ r : Requirement, r.summary = [] ↔ r.id = [] ∧ r.detail = [] := by
    intro r
    by_cases hdetail : r.detail = []
    · simp [Requirement.summary, hdetail]
    · simp [Requirement.summary, hdetail]
  rw [unmetSummary_eq]
  induction unmetOf requirements with
  | nil => simp
  | cons r rs ih =>
    rw [List.foldl_cons, if_pos rfl, List.append_nil, List.nil_append, List.forall_mem_cons,
      ← hsummary]
    by_cases hr : r.summary = []
    · rw [hr]
      simpa using ih
    · rw [foldl_summary_of_ne_nil hr]
      simp [hr]

/-! ## What the host answers -/

/-- `struct stat`. -/
structure Stat where
  mode : UInt32
  gid : UInt32

/-- What the host answers while it is checked. -/
structure HostOs where
  /-- `::stat`, or the errno. -/
  stat : Bytes → Except ℤ Stat
  geteuid : UInt32
  /-- `::open`, with `O_RDWR` : the errno if it fails. -/
  openDevice : Bytes → Except ℤ Unit
  /-- The name `getpwuid_r` finds. -/
  userOf : UInt32 → Option Bytes
  /-- The name `getgrgid_r` finds. -/
  groupOf : UInt32 → Option Bytes
  /-- The bytes of a file that can be read. -/
  contents : Bytes → Option Bytes
  strerror : ℤ → Bytes

def ENOENT : ℤ := 2

def ENOTDIR : ℤ := 20

def EACCES : ℤ := 13

def EPERM : ℤ := 1

structure HostCheckOptions where
  maxBusHz : Option UInt32 := none
  sysfsRoot : Bytes := lit "/sys"

/-! ## The checks -/

def kPresent : Bytes := lit "i2c.bus_present"

def kAccess : Bytes := lit "i2c.bus_access"

def kClock : Bytes := lit "i2c.bus_clock"

/-- What stands after the last slash. -/
def lastComponent (path : Bytes) : Bytes :=
  (path.reverse.takeWhile (· ≠ chr '/')).reverse

def adapterName (busPath : Bytes) : Bytes :=
  let name := lastComponent busPath
  if name.length ≤ 4 ∨ name.take 4 ≠ lit "i2c-" then []
  else if (name.drop 4).all (Numeral.isDigit 10) then name else []

def userName (os : HostOs) (uid : UInt32) : Bytes :=
  (os.userOf uid).getD (lit "uid " ++ toStringNat uid.toNat)

def groupName (os : HostOs) (gid : UInt32) : Bytes :=
  (os.groupOf gid).getD (lit "gid " ++ toStringNat gid.toNat)

/-- `%04o`, of the permission bits. -/
def modeText (mode : UInt32) : Bytes :=
  let bits := mode.toNat % 4096
  [digitByte (bits / 512), digitByte (bits / 64 % 8), digitByte (bits / 8 % 8),
    digitByte (bits % 8)]

def checkAccess (os : HostOs) (busPath : Bytes) (st : Stat) : Requirement :=
  if os.geteuid = 0 then
    ⟨kAccess, .unknown, lit "running as root, which can open " ++ busPath ++
      lit " whatever its permissions; run the check as the user the runtime runs as", []⟩
  else
    let user := userName os os.geteuid
    match os.openDevice busPath with
    | .ok () => ⟨kAccess, .met, user ++ lit " can open " ++ busPath ++ lit " read-write", []⟩
    | .error saved =>
      if saved = EACCES ∨ saved = EPERM then
        let group := groupName os st.gid
        ⟨kAccess, .unmet, user ++ lit " cannot open " ++ busPath ++ lit " read-write (group '" ++
            group ++ lit "', mode " ++ modeText st.mode ++ lit ")",
          lit "add " ++ user ++ lit " to group '" ++ group ++
            lit ("', the group that owns the node on this host, and start a new login or " ++
              "restart the service")⟩
      else
        ⟨kAccess, .unmet, user ++ lit " cannot open " ++ busPath ++ lit " read-write: " ++
            os.strerror saved,
          lit "check that the I2C adapter behind " ++ busPath ++ lit " has its driver loaded"⟩

/-- A device-tree cell, which is big-endian. -/
def cellOf : Bytes → Option UInt32
  | b₀ :: b₁ :: b₂ :: b₃ :: _ =>
    some ((b₀.toUInt32 <<< 24) ||| (b₁.toUInt32 <<< 16) ||| (b₂.toUInt32 <<< 8) ||| b₃.toUInt32)
  | _ => none

def checkClock (os : HostOs) (adapter : Bytes) (maxHz : UInt32) (sysfsRoot : Bytes) :
    Requirement :=
  let path := sysfsRoot ++ lit "/class/i2c-dev/" ++ adapter ++
    lit "/device/of_node/clock-frequency"
  match (os.contents path).bind cellOf with
  | none =>
    ⟨kClock, .unknown, lit "the platform does not expose " ++ adapter ++
      lit "'s bus clock (no " ++ path ++ lit ")", []⟩
  | some hz =>
    if maxHz < hz then
      ⟨kClock, .unmet, adapter ++ lit " is configured for " ++ toStringNat hz.toNat ++
          lit " Hz, above this config's maximum of " ++ toStringNat maxHz.toNat ++ lit " Hz",
        lit "set " ++ adapter ++ lit "'s clock to at most " ++ toStringNat maxHz.toNat ++
          lit " Hz in the platform's configuration"⟩
    else
      ⟨kClock, .met, adapter ++ lit " is configured for " ++ toStringNat hz.toNat ++
        lit " Hz, within this config's maximum of " ++ toStringNat maxHz.toNat ++
          lit " Hz (it may run slower)", []⟩

def checkHost (os : HostOs) (busPath : Bytes) (options : HostCheckOptions) : List Requirement :=
  match os.stat busPath with
  | .error saved =>
    let present : Requirement :=
      if saved = ENOENT ∨ saved = ENOTDIR then
        ⟨kPresent, .unmet, busPath ++ lit " does not exist",
          lit "enable this I2C bus on the host and load the i2c-dev module"⟩
      else ⟨kPresent, .unknown, lit "cannot inspect " ++ busPath ++ lit ": " ++
        os.strerror saved, []⟩
    let skipped := lit "not checked: " ++ present.detail
    [present, ⟨kAccess, .unknown, skipped, []⟩] ++
      options.maxBusHz.toList.map fun _ => ⟨kClock, .unknown, skipped, []⟩
  | .ok st =>
    [⟨kPresent, .met, busPath ++ lit " exists", []⟩, checkAccess os busPath st] ++
      options.maxBusHz.toList.map fun maxHz =>
        if adapterName busPath = [] then
          ⟨kClock, .unknown, lit "cannot tell which I2C adapter " ++ busPath ++
            lit " is (expected a name like i2c-1)", []⟩
        else checkClock os (adapterName busPath) maxHz options.sysfsRoot

/-! ## What is reported -/

/-- The ids that are reported for the options. -/
def checkedIds (options : HostCheckOptions) : List Bytes :=
  [kPresent, kAccess] ++ options.maxBusHz.toList.map fun _ => kClock

/-- A requirement that says what was found, and what to change where it is not met. -/
structure Requirement.Told (r : Requirement) : Prop where
  detail : r.detail ≠ []
  remedy : r.status = .unmet ↔ r.remedy ≠ []

theorem checkAccess_id (os : HostOs) (busPath : Bytes) (st : Stat) :
    (checkAccess os busPath st).id = kAccess := by
  unfold checkAccess
  split_ifs
  · rfl
  · dsimp only
    split
    · rfl
    · split_ifs
      · rfl
      · rfl

theorem told_checkAccess (os : HostOs) (busPath : Bytes) (st : Stat) :
    (checkAccess os busPath st).Told := by
  unfold checkAccess
  split_ifs
  · exact ⟨by simp, by simp⟩
  · dsimp only
    split
    · exact ⟨by simp, by simp⟩
    · split_ifs
      · exact ⟨by simp, by simp⟩
      · exact ⟨by simp, by simp⟩

theorem checkClock_id (os : HostOs) (adapter : Bytes) (maxHz : UInt32) (sysfsRoot : Bytes) :
    (checkClock os adapter maxHz sysfsRoot).id = kClock := by
  unfold checkClock
  dsimp only
  split
  · rfl
  · split_ifs
    · rfl
    · rfl

theorem told_checkClock (os : HostOs) (adapter : Bytes) (maxHz : UInt32) (sysfsRoot : Bytes) :
    (checkClock os adapter maxHz sysfsRoot).Told := by
  unfold checkClock
  dsimp only
  split
  · exact ⟨by simp, by simp⟩
  · split_ifs
    · exact ⟨by simp, by simp⟩
    · exact ⟨by simp, by simp⟩

/-- The ids do not depend on the host. -/
theorem checkHost_ids (os : HostOs) (busPath : Bytes) (options : HostCheckOptions) :
    (checkHost os busPath options).map Requirement.id = checkedIds options := by
  unfold checkHost checkedIds
  split
  · rw [List.map_append, List.map_map, List.map_cons, List.map_singleton]
    congr 2
    split_ifs
    · rfl
    · rfl
  · rw [List.map_append, List.map_map, List.map_cons, List.map_singleton, checkAccess_id]
    congr 1
    refine List.map_congr_left fun maxHz _ => ?_
    dsimp only [Function.comp]
    split_ifs
    · rfl
    · exact checkClock_id os _ _ _

theorem told_checkHost (os : HostOs) (busPath : Bytes) (options : HostCheckOptions) :
    ∀ r ∈ checkHost os busPath options, r.Told := by
  unfold checkHost
  split
  · rename_i saved _
    intro r hr
    rcases List.mem_append.mp hr with hr | hr
    · rcases List.mem_pair.mp hr with rfl | rfl
      · split_ifs
        · exact ⟨by simp, by simp⟩
        · exact ⟨by simp, by simp⟩
      · exact ⟨by simp, by simp⟩
    · obtain ⟨maxHz, -, rfl⟩ := List.mem_map.mp hr
      exact ⟨by simp, by simp⟩
  · rename_i st _
    intro r hr
    rcases List.mem_append.mp hr with hr | hr
    · rcases List.mem_pair.mp hr with rfl | rfl
      · exact ⟨by simp, by simp⟩
      · exact told_checkAccess os busPath st
    · obtain ⟨maxHz, -, rfl⟩ := List.mem_map.mp hr
      split_ifs
      · exact ⟨by simp, by simp⟩
      · exact told_checkClock os _ _ _

theorem checkHost_id_ne_nil (os : HostOs) (busPath : Bytes) (options : HostCheckOptions) :
    ∀ r ∈ checkHost os busPath options, r.id ≠ [] := by
  intro r hr
  have hid : r.id ∈ checkedIds options := by
    rw [← checkHost_ids os busPath options]
    exact List.mem_map_of_mem hr
  rw [checkedIds, List.mem_append, List.mem_pair, List.mem_map] at hid
  rcases hid with (hid | hid) | ⟨-, -, hid⟩
  · simp [hid, kPresent]
  · simp [hid, kAccess]
  · simp [← hid, kClock]

/-- Whatever the host answers, the same requirements are reported, each with what was found and,
exactly where it is not met, with what to change. `write_envelope` does not throw, and writes one
line. The exit code is 1 exactly if something is not met, and the readiness diagnostics say the
same : the host is ok, or each requirement that is not met is summed up, in order. -/
theorem checkHost_reported (os : HostOs) (busPath : Bytes) (options : HostCheckOptions)
    (providerName : Bytes) :
    let requirements := checkHost os busPath options
    requirements.map Requirement.id = checkedIds options ∧ (∀ r ∈ requirements, r.Told) ∧
      (∃ text, envelope providerName requirements = .ok text ∧ Line text ∧
        writeEnvelope providerName requirements =
          .ok (text ++ lit "\n", if unmetOf requirements = [] then 0 else 1)) ∧
      readinessDiagnostics requirements =
        if unmetOf requirements = [] then [(lit "host_check", lit "ok")]
        else [(lit "host_check", lit "unmet"), (lit "host_unmet",
          (lit "; ").intercalate ((unmetOf requirements).map fun r =>
            r.id ++ lit ": " ++ r.detail))] := by
  intro requirements
  have hids := checkHost_id_ne_nil os busPath options
  have htold := told_checkHost os busPath options
  refine ⟨checkHost_ids os busPath options, htold,
    ⟨_, envelope_eq hids providerName, line_envelope providerName requirements, ?_⟩, ?_⟩
  · rw [writeEnvelope, envelope_eq hids providerName, ← exitCode_eq]
    rfl
  · have hempty : unmetSummary [] requirements = [] ↔ unmetOf requirements = [] := by
      rw [unmetSummary_eq_nil_iff, List.eq_nil_iff_forall_not_mem]
      exact forall_congr' fun r => ⟨fun h hr => hids r (List.mem_of_mem_filter hr) (h hr).1,
        fun h hr => absurd hr h⟩
    have hsummary : (unmetOf requirements).map Requirement.summary =
        (unmetOf requirements).map fun r => r.id ++ lit ": " ++ r.detail := by
      refine List.map_congr_left fun r hr => ?_
      rw [Requirement.summary, if_neg (htold r (List.mem_of_mem_filter hr)).detail,
        List.append_assoc]
    have hsummed : unmetSummary [] requirements = _ := unmetSummary_of_ids hids
    rw [readinessDiagnostics, ← hsummary, ← hsummed]
    simp only [List.isEmpty_iff, hempty]

end ProviderSdk.HostCheck

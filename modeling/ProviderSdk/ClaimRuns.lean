import ProviderSdk.Claims
import ProviderSdk.Lib.Machine

/-!
# Claims over many calls

`add_claim` is called in any order, with any keys, on a device that may have claims already.
What it maintains is a list that keeps the order in which its entries came and takes none
twice (`enter`). `addClaimCall` is the code on the device in place, and one call of it enters
a key into the published list, or throws before anything is written (`addClaimCall_cases`).
So a run of calls leaves what entering the accepted keys leaves (`published_run`).
-/

namespace ProviderSdk

open Words

/-! ## Lists without repeats -/

section Enter

variable {α : Type} [DecidableEq α] [BEq α] [LawfulBEq α]

/-- Put an entry at the end of a list, unless it is there. -/
def enter {α : Type} [DecidableEq α] (seen : List α) (a : α) : List α :=
  if a ∈ seen then seen else seen ++ [a]

/-- The new entries come after the old, each once, as they were first entered. -/
theorem foldl_enter (as : List α) : ∀ seen : List α,
    as.foldl enter seen = seen ++ (as.filter (· ∉ seen)).eraseDups := by
  induction as with
  | nil => simp
  | cons a as ih =>
    intro seen
    rw [List.foldl_cons, ih, enter]
    by_cases ha : a ∈ seen
    · rw [if_pos ha, List.filter_cons_of_neg (by simpa using ha)]
    · have hrest : as.filter (· ∉ seen ++ [a]) =
          (as.filter (· ∉ seen)).filter fun b => !b == a := by
        rw [List.filter_filter]
        refine List.filter_congr fun b _ => ?_
        simp [beq_eq_decide, and_comm]
      rw [if_neg ha, List.filter_cons_of_pos (by simpa using ha), List.eraseDups_cons,
        List.append_assoc, List.singleton_append, hrest]

/-- Which entries there are does not depend on the order. -/
theorem mem_foldl_enter {as seen : List α} {b : α} :
    b ∈ as.foldl enter seen ↔ b ∈ seen ∨ b ∈ as := by
  rw [foldl_enter]
  simp only [List.mem_append, List.mem_eraseDups, List.mem_filter, decide_eq_true_eq]
  tauto

theorem nodup_foldl_enter (as : List α) : ∀ {seen : List α}, seen.Nodup →
    (as.foldl enter seen).Nodup := by
  induction as with
  | nil => exact id
  | cons a as ih =>
    intro seen h
    refine ih ?_
    unfold enter
    split_ifs with ha
    · exact h
    · exact List.nodup_append.mpr ⟨h, List.nodup_singleton a, fun b hb c hc =>
        by rintro rfl; exact ha (List.mem_singleton.mp hc ▸ hb)⟩

end Enter

/-! ## One call -/

instance (key : Bytes) : Decidable (IsKey key) :=
  decidable_of_iff _ isKey_iff.symm

/-- `tags[kClaimTag]` : the tag is made, with an empty value, if there is none. -/
def Device.withClaimTag (device : Device) : Device :=
  if ProviderSdk.claimTag ∈ device.tags then device
  else { device with tags := device.tags.insert ProviderSdk.claimTag [] }

/-- A call of `add_claim` on a device in place : what it throws, and the device after it. -/
def addClaimCall : Machine Bytes (Except Bytes Unit) Device := fun key device =>
  if key.isEmpty || key.any isspace then
    (.error (lit "claim key must be non-empty and contain no whitespace: '" ++ key ++ lit "'"),
      device)
  else
    let device := device.withClaimTag
    let value := device.claimTag
    if key ∈ words isspace value then (.ok (), device)
    else
      let value := if value.isEmpty then value else value ++ lit " "
      (.ok (), { device with tags := device.tags.insert ProviderSdk.claimTag (value ++ key) })

theorem claimTag_withClaimTag (device : Device) :
    device.withClaimTag.claimTag = device.claimTag := by
  unfold Device.withClaimTag
  split_ifs with h
  · rfl
  · have hnone : device.tags.lookup claimTag = none := AList.lookup_eq_none.mpr h
    simp only [Device.claimTag, AList.lookup_insert, hnone, Option.getD_some, Option.getD_none]

theorem withClaimTag_of_mem {device : Device} {key : Bytes} (h : key ∈ published device) :
    device.withClaimTag = device := by
  refine if_pos (by_contra fun hnone => ?_)
  rw [published_of_lookup_eq_none (AList.lookup_eq_none.mpr hnone)] at h
  cases h

/-- Writing the tag makes it too. -/
theorem insert_withClaimTag (device : Device) (value : Bytes) :
    { device.withClaimTag with tags := device.withClaimTag.tags.insert claimTag value } =
      { device with tags := device.tags.insert claimTag value } := by
  unfold Device.withClaimTag
  split_ifs
  · rfl
  · rw [AList.insert_insert]

/-- The call in place gives what `add_claim` gives, and leaves the device if that throws. -/
theorem addClaimCall_eq (key : Bytes) (device : Device) :
    addClaimCall key device =
      match addClaim device key with
      | .ok d => (.ok (), d)
      | .error message => (.error message, device) := by
  unfold addClaimCall addClaim
  by_cases hkey : (key.isEmpty || key.any isspace) = true
  · rw [if_pos hkey, if_pos hkey]
  · rw [if_neg hkey, if_neg hkey]
    dsimp only
    rw [claimTag_withClaimTag]
    by_cases hmem : key ∈ words isspace device.claimTag
    · rw [if_pos hmem, if_pos hmem, withClaimTag_of_mem hmem]
    · rw [if_neg hmem, if_neg hmem, insert_withClaimTag]

/-- The devices differ in the claim tag at most. -/
structure Device.Besides (d device : Device) : Prop where
  deviceId : d.deviceId = device.deviceId
  label : d.label = device.label
  tags : ∀ tag, tag ≠ ProviderSdk.claimTag → d.tags.lookup tag = device.tags.lookup tag

theorem Device.Besides.refl (device : Device) : device.Besides device :=
  ⟨rfl, rfl, fun _ _ => rfl⟩

theorem Device.Besides.trans {d e f : Device} (h : d.Besides e) (h' : e.Besides f) :
    d.Besides f :=
  ⟨h.deviceId.trans h'.deviceId, h.label.trans h'.label,
    fun tag htag => (h.tags tag htag).trans (h'.tags tag htag)⟩

/-- `d` is what a call that is accepted makes of `device`. -/
structure Entered (key : Bytes) (device d : Device) : Prop where
  published : published d = enter (published device) key
  besides : d.Besides device
  known : key ∈ ProviderSdk.published device → d = device

theorem entered_of_addClaim {key : Bytes} {device d : Device} (h : addClaim device key = .ok d) :
    Entered key device d := by
  by_cases hkey : IsKey key
  · obtain ⟨e, he, hpublished⟩ := addClaim_published hkey device
    rw [he, Except.ok.injEq] at h
    subst h
    have henter : published e = enter (published device) key := by
      rw [hpublished]
      unfold enter
      split_ifs <;> rfl
    rw [addClaim, if_neg (by simpa using isKey_iff.mp hkey)] at he
    dsimp only at he
    by_cases hmem : key ∈ words isspace device.claimTag
    · rw [if_pos hmem] at he
      obtain rfl := Except.ok.inj he
      exact ⟨henter, .refl _, fun _ => rfl⟩
    · rw [if_neg hmem] at he
      obtain rfl := Except.ok.inj he
      exact ⟨henter, ⟨rfl, rfl, fun tag htag => AList.lookup_insert_ne htag⟩,
        fun hin => absurd hin hmem⟩
  · rw [addClaim_of_not_isKey hkey] at h
    cases h

/-- What a call does : it throws and leaves the device, or it enters the key. -/
theorem addClaimCall_cases (key : Bytes) (device : Device) :
    (¬IsKey key ∧ ∃ message, addClaimCall key device = (.error message, device)) ∨
      IsKey key ∧ ∃ d, addClaimCall key device = (.ok (), d) ∧ Entered key device d := by
  by_cases hkey : IsKey key
  · obtain ⟨d, hd, -⟩ := addClaim_published hkey device
    exact .inr ⟨hkey, d, by rw [addClaimCall_eq, hd], entered_of_addClaim hd⟩
  · exact .inl ⟨hkey, _, by rw [addClaimCall_eq, addClaim_of_not_isKey hkey]⟩

/-! ## Runs -/

/-- The device after some calls. -/
def afterCalls (device : Device) (keys : List Bytes) : Device :=
  (addClaimCall.run keys device).2

theorem afterCalls_cons (device : Device) (key : Bytes) (keys : List Bytes) :
    afterCalls device (key :: keys) = afterCalls (addClaimCall key device).2 keys :=
  rfl

/-- A run enters the accepted keys. -/
theorem published_afterCalls (keys : List Bytes) : ∀ device : Device,
    published (afterCalls device keys) =
      (keys.filter fun key => IsKey key).foldl enter (published device) := by
  induction keys with
  | nil => exact fun _ => rfl
  | cons key keys ih =>
    intro device
    rw [afterCalls_cons, ih]
    obtain ⟨hkey, message, hcall⟩ | ⟨hkey, d, hcall, hentered⟩ := addClaimCall_cases key device
    · rw [hcall, List.filter_cons_of_neg (by simpa using hkey)]
    · rw [hcall, List.filter_cons_of_pos (by simpa using hkey), List.foldl_cons,
        hentered.published]

theorem besides_afterCalls (keys : List Bytes) : ∀ device : Device,
    (afterCalls device keys).Besides device := by
  induction keys with
  | nil => exact .refl
  | cons key keys ih =>
    intro device
    refine (ih _).trans ?_
    obtain ⟨-, message, hcall⟩ | ⟨-, d, hcall, hentered⟩ := addClaimCall_cases key device
    · rw [hcall]
      exact .refl device
    · rw [hcall]
      exact hentered.besides

/-- A key that was given before changes nothing. -/
theorem addClaimCall_of_mem {device : Device} {keys : List Bytes} {key : Bytes}
    (h : key ∈ keys) :
    (addClaimCall key (afterCalls device keys)).2 = afterCalls device keys := by
  obtain ⟨-, message, hcall⟩ | ⟨hkey, d, hcall, hentered⟩ :=
    addClaimCall_cases key (afterCalls device keys)
  · rw [hcall]
  · rw [hcall]
    refine hentered.known ?_
    rw [published_afterCalls, mem_foldl_enter]
    exact .inr (List.mem_filter.mpr ⟨h, by simpa using hkey⟩)

/-- In any run of calls, the tokens of the tag are the initial ones and then the accepted keys
that are new, each once, as they were first added. A call throws exactly for what is no key,
and then leaves the device. No other tag changes, a repeated call does nothing, and the set of
tokens does not depend on the order of the calls. -/
theorem claims_run (device : Device) (keys : List Bytes) :
    (published (afterCalls device keys) = published device ++
        (keys.filter fun key => IsKey key ∧ key ∉ published device).eraseDups) ∧
      ((published device).Nodup → (published (afterCalls device keys)).Nodup) ∧
      (∀ key, if key = [] ∨ ∃ b ∈ key, isspace b = true then
          ∃ message, addClaimCall key (afterCalls device keys) =
            (.error message, afterCalls device keys)
        else (addClaimCall key (afterCalls device keys)).1 = .ok ()) ∧
      (afterCalls device keys).Besides device ∧
      (∀ key ∈ keys,
        (addClaimCall key (afterCalls device keys)).2 = afterCalls device keys) ∧
      ∀ keys' : List Bytes, keys'.Perm keys → ∀ token,
        token ∈ published (afterCalls device keys') ↔
          token ∈ published (afterCalls device keys) := by
  refine ⟨?_, fun h => ?_, fun key => ?_, besides_afterCalls keys device,
    fun key hkey => addClaimCall_of_mem hkey, fun keys' hperm token => ?_⟩
  · rw [published_afterCalls, foldl_enter, List.filter_filter]
    simp only [Bool.decide_and, and_comm]
  · rw [published_afterCalls]
    exact nodup_foldl_enter _ h
  · have hiff : (key = [] ∨ ∃ b ∈ key, isspace b = true) ↔ ¬IsKey key := by
      rw [isKey_iff, Bool.not_eq_false, Bool.or_eq_true, List.isEmpty_iff, List.any_eq_true]
    obtain ⟨hkey, message, hcall⟩ | ⟨hkey, d, hcall, -⟩ :=
      addClaimCall_cases key (afterCalls device keys)
    · rw [if_pos (hiff.mpr hkey)]
      exact ⟨message, hcall⟩
    · rw [if_neg (fun h => hiff.mp h hkey), hcall]
  · simp only [published_afterCalls, mem_foldl_enter, List.mem_filter, hperm.mem_iff]

/-- A device with the claims `a`, `b` and `a`, oddly spaced. -/
def spacedDevice : Device :=
  ⟨lit "d", [], (∅ : StringMap Bytes).insert claimTag (lit " a  b\ta ")⟩

/-- A key that starts others is a key of its own, and what is no key is refused. -/
theorem claims_run_spaced :
    published (afterCalls spacedDevice
        [lit "ab", lit "a", lit "", lit "abc", lit "a b", lit "ab"]) =
      [lit "a", lit "b", lit "a", lit "ab", lit "abc"] ∧
    (afterCalls spacedDevice [lit "ab", lit "a b"]).Besides spacedDevice :=
  ⟨(claims_run spacedDevice
      [lit "ab", lit "a", lit "", lit "abc", lit "a b", lit "ab"]).1.trans (by decide +kernel),
    (claims_run spacedDevice [lit "ab", lit "a b"]).2.2.2.1⟩

end ProviderSdk

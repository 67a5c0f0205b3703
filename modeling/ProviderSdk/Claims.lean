import ProviderSdk.Messages
import ProviderSdk.Lib.Words

/-!
# Resource claims

The `anolis.claim` tag of a device (`src/anolis/provider_sdk/claims.cpp`), and the rule of
the runtime that reads it : it splits the tag on whitespace, and two devices that share a key
collide (`collide` of `tests/unit/host_check_test.cpp`).

Adding a key adds it to the keys that are published, unless it is one (`addClaim_published`).
-/

namespace ProviderSdk

open Words

/-- `std::isspace` of the C locale. -/
def isspace (b : UInt8) : Bool :=
  b = 0x20 || (0x09 ≤ b && b ≤ 0x0d)

/-- `kClaimTag`. -/
def claimTag : Bytes :=
  lit "anolis.claim"

/-- The value of the tag, empty if it has none. -/
def Device.claimTag (device : Device) : Bytes :=
  (device.tags.lookup ProviderSdk.claimTag).getD []

/-- `add_claim`. It throws `std::invalid_argument`. -/
def addClaim (device : Device) (key : Bytes) : Except Bytes Device :=
  if key.isEmpty || key.any isspace then
    .error (lit "claim key must be non-empty and contain no whitespace: '" ++ key ++ lit "'")
  else
    let value := device.claimTag
    -- a key among the words of the tag is in a tag that is there, and nothing changes
    if key ∈ words isspace value then .ok device
    else
      let separated := if value.isEmpty then value else value ++ lit " "
      .ok { device with tags := device.tags.insert ProviderSdk.claimTag (separated ++ key) }

/-- Add every key, as a provider publishes them. -/
def addClaims (device : Device) (keys : List Bytes) : Except Bytes Device :=
  keys.foldlM addClaim device

/-- The keys of a device that the runtime reads. -/
def published (device : Device) : List Bytes :=
  words isspace device.claimTag

def collide (d e : Device) : Prop :=
  ∃ key ∈ published d, key ∈ published e

/-! ## Adding keys -/

/-- The keys that can be claims. -/
abbrev IsKey (key : Bytes) : Prop :=
  IsWord isspace key

theorem isKey_iff {key : Bytes} :
    IsKey key ↔ (key.isEmpty || key.any isspace) = false := by
  constructor
  · intro h
    have hempty : key.isEmpty = false := by simpa using h.ne_nil
    simpa [hempty] using h.not_sep
  · intro h
    obtain ⟨hempty, hspace⟩ := Bool.or_eq_false_iff.mp h
    refine ⟨by simpa using hempty, fun c hc => ?_⟩
    simpa using List.any_eq_false.mp hspace c hc

/-- A key that can be no claim is refused. -/
theorem addClaim_of_not_isKey {key : Bytes} (h : ¬IsKey key) (device : Device) :
    addClaim device key = .error
      (lit "claim key must be non-empty and contain no whitespace: '" ++ key ++ lit "'") := by
  rw [isKey_iff, Bool.not_eq_false] at h
  rw [addClaim, if_pos h]

theorem words_separated {key value : Bytes} (h : IsKey key) :
    words isspace ((if value.isEmpty then value else value ++ lit " ") ++ key) =
      words isspace value ++ [key] := by
  cases value with
  | nil => exact words_of_isWord h
  | cons b value =>
    rw [if_neg (by simp), List.append_assoc]
    exact words_append_word (c := 0x20) rfl (b :: value) h

/-- A key is published after the keys that were, unless it is one of them. Other tags, and the
rest of the device, stay. -/
theorem addClaim_published {key : Bytes} (h : IsKey key) (device : Device) :
    ∃ d, addClaim device key = .ok d ∧
      published d = (if key ∈ published device then published device
        else published device ++ [key]) := by
  rw [addClaim, if_neg (by simpa using isKey_iff.mp h)]
  by_cases hmem : key ∈ published device
  · rw [if_pos hmem]
    exact ⟨device, if_pos hmem, rfl⟩
  · rw [if_neg hmem]
    refine ⟨_, if_neg hmem, ?_⟩
    rw [published, Device.claimTag, AList.lookup_insert, Option.getD_some, words_separated h]
    rfl

/-- New keys are published after the old, in order. -/
theorem addClaims_published {keys : List Bytes} (hkeys : ∀ key ∈ keys, IsKey key)
    (hnodup : keys.Nodup) {device : Device} (hnew : ∀ key ∈ keys, key ∉ published device) :
    ∃ d, addClaims device keys = .ok d ∧ published d = published device ++ keys := by
  induction keys generalizing device with
  | nil => exact ⟨device, rfl, (List.append_nil _).symm⟩
  | cons key keys ih =>
    obtain ⟨hkey, hkeys⟩ := List.forall_mem_cons.mp hkeys
    obtain ⟨hkeynew, hnew⟩ := List.forall_mem_cons.mp hnew
    obtain ⟨hnotin, hnodup⟩ := List.nodup_cons.mp hnodup
    obtain ⟨d, hd, hpublished⟩ := addClaim_published hkey device
    rw [if_neg hkeynew] at hpublished
    have hnew' : ∀ k ∈ keys, k ∉ published d := by
      intro k hk hmem
      rw [hpublished, List.mem_append, List.mem_singleton] at hmem
      obtain hmem | rfl := hmem
      · exact hnew k hk hmem
      · exact hnotin hk
    obtain ⟨d', hd', hpublished'⟩ := ih hkeys hnodup hnew'
    refine ⟨d', ?_, ?_⟩
    · rw [addClaims, List.foldlM_cons, hd]
      exact hd'
    · rw [hpublished', hpublished, List.append_assoc, List.singleton_append]

theorem published_of_lookup_eq_none {device : Device}
    (h : device.tags.lookup claimTag = none) : published device = [] := by
  rw [published, Device.claimTag, h]
  rfl

end ProviderSdk

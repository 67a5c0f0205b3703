import ProviderSdk.Claims
import Mathlib.Data.Set.Insert

/-!
# Claims of an I2C address

The claim keys of `src/anolis/provider_sdk/i2c/claims.cpp`. How a path is resolved is up to the
file system, as it is when `claim_keys` is called (`Filesystem`).

A key says its path and its address (`keyFor_inj`), though a path may hold colons and look like
a key itself : the address is at the end, and of one length. So two devices collide exactly when
an address and a spelling of its bus are shared (`collide_iff`).
-/

namespace ProviderSdk.I2c

open Words

/-! ## Keys -/

/-- What `std::filesystem` makes of a path, in generic format. -/
structure Filesystem where
  /-- `weakly_canonical`, none on an error. -/
  weaklyCanonical : Bytes → Option Bytes
  lexicallyNormal : Bytes → Bytes

/-- From its end : the last slashes dropped, but for the first character. -/
def dropSlashes : Bytes → Bytes
  | c :: d :: rest => if c = chr '/' then dropSlashes (d :: rest) else c :: d :: rest
  | rest => rest

def canonicalBusPath (fs : Filesystem) (busPath : Bytes) : Bytes :=
  if lit "://" <:+: busPath then busPath
  else
    let resolved := (fs.weaklyCanonical busPath).getD []
    let out := if resolved.isEmpty then fs.lexicallyNormal busPath else resolved
    (dropSlashes out.reverse).reverse

/-- It throws `std::invalid_argument`. -/
def checkInputs (busPath : Bytes) (address : UInt32) : Except Bytes Unit :=
  if busPath.isEmpty || busPath.any isspace then
    .error (lit "I2C claim key: bus path must be non-empty and contain no whitespace: '" ++
      busPath ++ lit "'")
  else if 0x7F < address then
    .error (lit "I2C claim key: address " ++ toStringNat address.toNat ++
      lit " is not a 7-bit address")
  else .ok ()

/-- The key for a 7-bit address : two digits. -/
def keyFor (path : Bytes) (address : UInt32) : Bytes :=
  lit "i2c:" ++ path ++ lit ":" ++ (lit "0x" ++ hexPadded 2 address.toNat)

def claimKey (busPath : Bytes) (address : UInt32) : Except Bytes Bytes := do
  checkInputs busPath address
  .ok (keyFor busPath address)

def claimKeys (fs : Filesystem) (busPath : Bytes) (address : UInt32) :
    Except Bytes (List Bytes) := do
  checkInputs busPath address
  let path := canonicalBusPath fs busPath
  if path.any isspace then
    .error (lit "I2C claim key: bus path '" ++ busPath ++ lit "' resolves to '" ++ path ++
      lit "', which contains whitespace")
  else
    .ok (keyFor busPath address :: if path = busPath then [] else [keyFor path address])

/-! ## What a key says -/

/-- A path and a 7-bit address are read off their key. -/
theorem keyFor_inj {p q : Bytes} {a b : UInt32} (ha : a ≤ 0x7F) (hb : b ≤ 0x7F)
    (h : keyFor p a = keyFor q b) : p = q ∧ a = b := by
  obtain ⟨hpath, haddress⟩ := List.append_inj' h (by simp)
  have hhex := List.append_cancel_left haddress
  have hpath' := List.append_cancel_left (List.append_cancel_right hpath)
  have ha' : a.toNat ≤ 127 := UInt32.le_iff_toNat_le.mp ha
  have hb' : b.toNat ≤ 127 := UInt32.le_iff_toNat_le.mp hb
  exact ⟨hpath', UInt32.toNat_inj.mp (hexPadded_inj (by omega) (by omega) hhex)⟩

theorem not_isspace_hexByte : ∀ d : Fin 16, isspace (hexByte d) = false := by
  decide

theorem not_isspace_hexPadded (width n : ℕ) : ∀ c ∈ hexPadded width n, isspace c = false := by
  induction width generalizing n with
  | zero => simp [hexPadded]
  | succ width ih =>
    intro c hc
    rw [hexPadded, List.mem_append, List.mem_singleton] at hc
    obtain hc | rfl := hc
    · exact ih (n / 16) c hc
    · exact not_isspace_hexByte ⟨n % 16, Nat.mod_lt n (by decide)⟩

/-- A path without whitespace gives a key that can be a claim. -/
theorem isKey_keyFor {path : Bytes} (h : path.any isspace = false) (address : UInt32) :
    IsKey (keyFor path address) := by
  refine ⟨List.append_ne_nil_of_right_ne_nil _ (List.append_ne_nil_of_left_ne_nil (by decide) _),
    fun c hc => ?_⟩
  have hwords : ∀ w ∈ [lit "i2c:", path, lit ":", lit "0x"], ∀ c ∈ w, isspace c = false := by
    have hfixed : ∀ w ∈ [lit "i2c:", lit ":", lit "0x"], w.any isspace = false := by decide
    intro w hw c hc
    have hany : w.any isspace = false := by
      by_cases hpath : w = path
      · rw [hpath, h]
      · exact hfixed w (by simpa [hpath] using hw)
    simpa using List.any_eq_false.mp hany c hc
  rw [keyFor, List.mem_append, List.mem_append, List.mem_append, List.mem_append] at hc
  obtain ((hc | hc) | hc) | hc | hc := hc
  · exact hwords _ (by simp) c hc
  · exact hwords _ (by simp) c hc
  · exact hwords _ (by simp) c hc
  · exact hwords _ (by simp) c hc
  · exact not_isspace_hexPadded 2 _ c hc

/-! ## When they are given -/

theorem checkInputs_eq_ok {p : Bytes} {a : UInt32} (h : checkInputs p a = .ok ()) :
    p.any isspace = false ∧ a ≤ 0x7F := by
  rw [checkInputs] at h
  split_ifs at h with hpath haddress
  rw [Bool.or_eq_true, not_or, Bool.not_eq_true, Bool.not_eq_true] at hpath
  exact ⟨hpath.2, UInt32.not_lt.mp haddress⟩

/-- What the keys of an address are. -/
structure Keys (fs : Filesystem) (p : Bytes) (a : UInt32) (keys : List Bytes) : Prop where
  path : p.any isspace = false
  resolved : (canonicalBusPath fs p).any isspace = false
  address : a ≤ 0x7F
  eq : keys = keyFor p a ::
    if canonicalBusPath fs p = p then [] else [keyFor (canonicalBusPath fs p) a]

theorem keys_of_claimKeys {fs : Filesystem} {p : Bytes} {a : UInt32} {keys : List Bytes}
    (h : claimKeys fs p a = .ok keys) : claimKey p a = .ok (keyFor p a) ∧ Keys fs p a keys := by
  unfold claimKeys at h
  cases hinputs : checkInputs p a with
  | error e =>
    rw [hinputs] at h
    cases h
  | ok u =>
    obtain ⟨hpath, haddress⟩ := checkInputs_eq_ok hinputs
    rw [hinputs] at h
    change (if _ then _ else _) = Except.ok keys at h
    by_cases hspace : (canonicalBusPath fs p).any isspace = true
    · rw [if_pos hspace] at h
      cases h
    · rw [if_neg hspace] at h
      refine ⟨?_, hpath, by simpa using hspace, haddress, (Except.ok.inj h).symm⟩
      rw [claimKey, hinputs]
      rfl

namespace Keys

variable {fs : Filesystem} {p : Bytes} {a : UInt32} {keys : List Bytes}

/-- They are the keys of both spellings. -/
theorem mem_iff (h : Keys fs p a keys) {key : Bytes} :
    key ∈ keys ↔ ∃ x ∈ ({p, canonicalBusPath fs p} : Set Bytes), key = keyFor x a := by
  rw [h.eq]
  by_cases hsame : canonicalBusPath fs p = p
  · simp [hsame]
  · simp [hsame]

theorem isKey (h : Keys fs p a keys) : ∀ key ∈ keys, IsKey key := by
  intro key hkey
  obtain ⟨x, rfl | rfl, rfl⟩ := h.mem_iff.mp hkey
  · exact isKey_keyFor h.path a
  · exact isKey_keyFor h.resolved a

theorem nodup (h : Keys fs p a keys) : keys.Nodup := by
  rw [h.eq]
  by_cases hsame : canonicalBusPath fs p = p
  · simp [hsame]
  · rw [if_neg hsame, List.nodup_cons, List.mem_singleton]
    exact ⟨fun heq => hsame (keyFor_inj h.address h.address heq).1.symm, List.nodup_singleton _⟩

/-- A device without a claim publishes them as they are. -/
theorem published (h : Keys fs p a keys) {device : Device}
    (hdevice : device.tags.lookup claimTag = none) :
    ∃ d, addClaims device keys = .ok d ∧ ProviderSdk.published d = keys := by
  have hnone := published_of_lookup_eq_none hdevice
  have hnew : ∀ key ∈ keys, key ∉ ProviderSdk.published device := by simp [hnone]
  obtain ⟨d, hd, hpublished⟩ := addClaims_published h.isKey h.nodup hnew
  rw [hnone, List.nil_append] at hpublished
  exact ⟨d, hd, hpublished⟩

end Keys

/-! ## When they collide -/

/-- Two sets of keys share one exactly when the addresses and a spelling of the paths agree. -/
theorem exists_common_key_iff {S T : Set Bytes} {a b : UInt32} (ha : a ≤ 0x7F) (hb : b ≤ 0x7F) :
    (∃ key, (∃ x ∈ S, key = keyFor x a) ∧ ∃ y ∈ T, key = keyFor y b) ↔
      a = b ∧ (S ∩ T).Nonempty := by
  constructor
  · rintro ⟨key, ⟨x, hx, rfl⟩, y, hy, hkey⟩
    obtain ⟨rfl, rfl⟩ := keyFor_inj ha hb hkey
    exact ⟨rfl, x, hx, hy⟩
  · rintro ⟨rfl, x, hx, hy⟩
    exact ⟨keyFor x a, ⟨x, hx, rfl⟩, x, hy, rfl⟩

/-- Two devices with no claim before publish the keys of two addresses, as they are. They
collide exactly when the addresses agree and the paths share a spelling. A device that publishes
its configured key alone collides when the other's path has that spelling. -/
theorem collide_iff (fs : Filesystem) (p q : Bytes) (a b : UInt32) {keys keys' : List Bytes}
    (hp : claimKeys fs p a = .ok keys) (hq : claimKeys fs q b = .ok keys') {device device' : Device}
    (hdevice : device.tags.lookup claimTag = none)
    (hdevice' : device'.tags.lookup claimTag = none) :
    ∃ d d' old key, addClaims device keys = .ok d ∧ addClaims device' keys' = .ok d' ∧
      claimKey p a = .ok key ∧ addClaim device key = .ok old ∧
      published d = keys ∧ published d' = keys' ∧ published old = [key] ∧
      (collide d d' ↔ a = b ∧
        (({p, canonicalBusPath fs p} : Set Bytes) ∩ {q, canonicalBusPath fs q}).Nonempty) ∧
      (collide old d' ↔ a = b ∧ (p = q ∨ p = canonicalBusPath fs q)) := by
  obtain ⟨hkey, hkeys⟩ := keys_of_claimKeys hp
  obtain ⟨-, hkeys'⟩ := keys_of_claimKeys hq
  obtain ⟨d, hd, hpublished⟩ := hkeys.published hdevice
  obtain ⟨d', hd', hpublished'⟩ := hkeys'.published hdevice'
  obtain ⟨old, hold, hpublishedOld⟩ :=
    addClaim_published (isKey_keyFor hkeys.path a) device
  rw [published_of_lookup_eq_none hdevice, if_neg (List.not_mem_nil), List.nil_append]
    at hpublishedOld
  refine ⟨d, d', old, keyFor p a, hd, hd', hkey, hold, hpublished, hpublished', hpublishedOld,
    ?_, ?_⟩
  · rw [collide, hpublished, hpublished', ← exists_common_key_iff hkeys.address hkeys'.address]
    simp only [hkeys.mem_iff, hkeys'.mem_iff]
  · have hcommon := exists_common_key_iff (S := {p})
      (T := {q, canonicalBusPath fs q}) hkeys.address hkeys'.address
    rw [collide, hpublishedOld, hpublished']
    rw [Set.singleton_inter_nonempty] at hcommon
    simp only [hkeys'.mem_iff, List.mem_singleton, Set.mem_insert_iff, Set.mem_singleton_iff,
      exists_eq_left] at hcommon ⊢
    exact hcommon

/-- A file system where every path names one adapter. -/
def oneAdapter : Filesystem where
  weaklyCanonical _ := some (lit "/dev/i2c-1")
  lexicallyNormal path := path

/-- A path with a doubled separator collides with the adapter's own, unless it is published
alone. -/
theorem collide_iff_spellings : ∃ d d' old : Device,
    published d = [lit "i2c:/dev//i2c-1:0x63", lit "i2c:/dev/i2c-1:0x63"] ∧
      published d' = [lit "i2c:/dev/i2c-1:0x63"] ∧
      published old = [lit "i2c:/dev//i2c-1:0x63"] ∧ collide d d' ∧ ¬collide old d' := by
  have hp : claimKeys oneAdapter (lit "/dev//i2c-1") 0x63 =
      .ok [lit "i2c:/dev//i2c-1:0x63", lit "i2c:/dev/i2c-1:0x63"] := by decide +kernel
  have hq : claimKeys oneAdapter (lit "/dev/i2c-1") 0x63 = .ok [lit "i2c:/dev/i2c-1:0x63"] := by
    decide +kernel
  have hnone : (⟨[], [], ∅⟩ : Device).tags.lookup claimTag = none := rfl
  obtain ⟨d, d', old, key, -, -, hkey, -, hd, hd', hold, hnew, holdest⟩ :=
    collide_iff oneAdapter _ _ _ _ hp hq hnone hnone
  have hkey' : claimKey (lit "/dev//i2c-1") 0x63 = .ok (lit "i2c:/dev//i2c-1:0x63") := by
    decide +kernel
  rw [Except.ok.inj (hkey.symm.trans hkey')] at hold
  have hcanonical : ∀ path ∈ [lit "/dev//i2c-1", lit "/dev/i2c-1"],
      canonicalBusPath oneAdapter path = lit "/dev/i2c-1" := by decide +kernel
  refine ⟨d, d', old, hd, hd', hold, hnew.mpr ⟨rfl, lit "/dev/i2c-1", ?_, .inl rfl⟩, ?_⟩
  · exact .inr (hcanonical _ (by simp)).symm
  · rw [holdest, hcanonical _ (by simp)]
    decide +kernel

end ProviderSdk.I2c

import ProviderSdk.FaultQuery
import ProviderSdk.SchemaText

/-!
# Bus paths with a query

A provider gives its faults in the path of its bus, as in `mock://bus?pad=8&nak_every=3`.
`split_bus_query` of `src/anolis/provider_sdk/i2c/fault_injecting_i2c_bus.cpp` cuts the path at
the first `?`, and the query is for `FaultSpec::parse`.

Every spec has such a path, and from each of its paths it is read back (`bus_query_read`) : the
fields come in any order, each may come more than once or not at all where it has its default,
and a number may be decimal, octal or hexadecimal.
-/

namespace ProviderSdk.I2c

open Numeral Strtoul

/-- What is before and after the first `?`. -/
def splitBusQuery (busPath : Bytes) : Bytes × Bytes :=
  if chr '?' ∈ busPath then
    (busPath.takeWhile (· ≠ chr '?'), (busPath.dropWhile (· ≠ chr '?')).tail)
  else (busPath, [])

/-- A pair of a query. -/
def pairOf (p : FaultField × Bytes) : Bytes :=
  p.1.key ++ chr '=' :: p.2

/-- The query of some fields with their texts. -/
def queryOf (pairs : List (FaultField × Bytes)) : Bytes :=
  [chr '&'].intercalate (pairs.map pairOf)

theorem splitBusQuery_append {base : Bytes} (hbase : chr '?' ∉ base) (query : Bytes) :
    splitBusQuery (base ++ chr '?' :: query) = (base, query) := by
  have hfront : ∀ b ∈ base, decide (b ≠ chr '?') = true :=
    fun b hb => decide_eq_true fun heq => hbase (heq ▸ hb)
  rw [splitBusQuery, if_pos (by simp), Text.takeWhile_append hfront (by simp),
    Text.dropWhile_append hfront (by simp)]
  rfl

/-- A path without a query injects nothing. -/
theorem splitBusQuery_none {busPath : Bytes} (h : chr '?' ∉ busPath) :
    splitBusQuery busPath = (busPath, []) ∧
      FaultSpec.any (FaultSpec.parse (splitBusQuery busPath).2) = false := by
  have hnone : FaultSpec.any (FaultSpec.parse []) = false := by decide
  rw [splitBusQuery, if_neg h]
  exact ⟨rfl, hnone⟩

/-! ## Pairs -/

theorem isDigit_ne_ampersand {base : ℕ} {b : UInt8} (h : isDigit base b = true) :
    b ≠ chr '&' := by
  rintro rfl
  cases h

/-- No constant has an `&`. -/
theorem ampersand_notMem_constant {text : Bytes} {n : ℕ} (h : Constant text n) :
    chr '&' ∉ text := by
  intro hmem
  cases h with
  | decimal h h0 => exact isDigit_ne_ampersand (h.2 _ hmem) rfl
  | octal h h0 => exact isDigit_ne_ampersand (h.2 _ hmem) rfl
  | @hex x ds hx h =>
    rcases List.mem_cons.mp hmem with hb | hmem
    · exact absurd hb (by decide)
    · rcases List.mem_cons.mp hmem with rfl | hmem
      · rcases hx with hx | hx <;> exact absurd hx (by decide)
      · exact isDigit_ne_ampersand (h.2 _ hmem) rfl

namespace FaultField

theorem ampersand_notMem_key (f : FaultField) : chr '&' ∉ f.key := by
  cases f <;> decide

/-- Two specs with the same fields are one. -/
theorem spec_ext {spec spec' : FaultSpec} (h : ∀ f : FaultField, f.read spec = f.read spec') :
    spec = spec' := by
  obtain ⟨_, _, _, _, _, _, _, _, _, _⟩ := spec
  obtain ⟨_, _, _, _, _, _, _, _, _, _⟩ := spec'
  rw [FaultSpec.mk.injEq]
  refine ⟨UInt32.toNat_inj.1 (h pad), UInt8.toNat_inj.1 (h padByte),
    UInt32.toNat_inj.1 (h shortEvery), UInt32.toNat_inj.1 (h corruptEvery),
    UInt32.toNat_inj.1 (h nakEvery), UInt32.toNat_inj.1 (h readFailEvery),
    UInt32.toNat_inj.1 (h timeoutEvery), UInt32.toNat_inj.1 (h dropAfter),
    UInt32.toNat_inj.1 (h dropFor), UInt32.toNat_inj.1 (h latencyUs)⟩

/-- The texts under a key are those of its pairs. -/
theorem texts_queryOf {f : FaultField} {pairs : List (FaultField × Bytes)}
    (h : ∀ p ∈ pairs, chr '&' ∉ p.2) :
    f.texts (queryOf pairs) = pairs.filterMap fun p => if p.1 = f then some p.2 else none := by
  have hpair : ∀ p : FaultField × Bytes, (pairOf p).dropPrefix? (f.key ++ lit "=") =
      if p.1 = f then some p.2 else none := by
    intro p
    split_ifs with hf
    · exact dropPrefix_key_eq_some.2 (by rw [pairOf, hf])
    · refine dropPrefix_key_eq_none fun text htext => hf ?_
      exact key_inj (split_inj equals_notMem_key equals_notMem_key htext).1
  have hampersand : ∀ pair ∈ pairs.map pairOf, chr '&' ∉ pair := by
    intro pair hmem
    obtain ⟨p, hp, rfl⟩ := List.mem_map.1 hmem
    have hne : chr '&' ≠ chr '=' := by decide
    simp [pairOf, ampersand_notMem_key, h p hp, hne]
  cases hpairs : pairs with
  | nil =>
    have hnone : ([] : Bytes).dropPrefix? (f.key ++ lit "=") = none :=
      dropPrefix_key_eq_none fun text => by simp
    change [[]].filterMap (fun pair : Bytes => pair.dropPrefix? (f.key ++ lit "=")) = []
    simp [hnone]
  | cons p rest =>
    rw [← hpairs, texts, queryOf, List.splitOn_intercalate _ hampersand (by simp [hpairs]),
      List.filterMap_map]
    exact List.filterMap_congr fun p _ => hpair p

/-- A text that is well formed for the value of the field sets it. -/
theorem update_wellFormed {f : FaultField} {text : Bytes} {n : ℕ} (h : f.WellFormed text n)
    (m : ℕ) : f.update m text = n := by
  have hn : (UInt32.ofNat n).toNat = n :=
    UInt32.toNat_ofNat_of_lt' (Nat.lt_succ_of_le (le_of_le_max h.2))
  have htaken : Taken text (UInt32.ofNat n) := taken_of_constant (by rw [hn]; exact h.1)
  rw [update, parseU32_eq_some_iff.2 htaken]
  exact (h.taken htaken).2

/-- Texts that are all well formed for one value leave it. -/
theorem foldl_update_wellFormed {f : FaultField} {texts : List Bytes} {n m : ℕ}
    (h : ∀ t ∈ texts, f.WellFormed t n) (hm : texts = [] → m = n) :
    texts.foldl f.update m = n := by
  induction texts generalizing m with
  | nil => exact hm rfl
  | cons t texts ih =>
    obtain ⟨ht, htexts⟩ := List.forall_mem_cons.1 h
    rw [List.foldl_cons, update_wellFormed ht]
    exact ih htexts fun _ => rfl

end FaultField

/-! ## Reading back -/

/-- A query with a spec's values is parsed to the spec, if the fields it leaves out have their
defaults. -/
theorem parse_queryOf {spec : FaultSpec} {pairs : List (FaultField × Bytes)}
    (hpairs : ∀ p ∈ pairs, p.1.WellFormed p.2 (p.1.read spec))
    (hrest : ∀ f : FaultField, f ∉ pairs.map Prod.fst → f.read spec = f.read {}) :
    FaultSpec.parse (queryOf pairs) = spec := by
  refine FaultField.spec_ext fun f => ?_
  rw [FaultField.read_parse,
    FaultField.texts_queryOf fun p hp => ampersand_notMem_constant (hpairs p hp).1]
  refine FaultField.foldl_update_wellFormed ?_ ?_
  · intro t ht
    obtain ⟨p, hp, hsome⟩ := List.mem_filterMap.1 ht
    split_ifs at hsome with hf
    obtain rfl := Option.some.inj hsome
    exact hf ▸ hpairs p hp
  · intro hnone
    refine (hrest f fun hmem => ?_).symm
    obtain ⟨p, hp, hf⟩ := List.mem_map.1 hmem
    exact absurd (List.filterMap_eq_nil_iff.1 hnone p hp) (by simp [hf])

theorem constant_toStringNat (n : ℕ) : Constant (toStringNat n) n := by
  have hnumeral := Config.isNumeral_toStringNat n
  have hvalue := Config.value_toStringNat n
  by_cases hzero : (toStringNat n).head? = some 48
  · rw [Config.toStringNat_head hzero] at hvalue ⊢
    rw [← hvalue]
    exact .octal ⟨List.cons_ne_nil _ _, List.forall_mem_singleton.2 (by decide)⟩ rfl
  · have hconstant := Constant.decimal hnumeral hzero
    rwa [hvalue] at hconstant

/-- The fields of a query, in the order of `FaultSpec`. -/
def FaultField.all : List FaultField :=
  [.pad, .padByte, .shortEvery, .corruptEvery, .nakEvery, .readFailEvery, .timeoutEvery,
    .dropAfter, .dropFor, .latencyUs]

theorem FaultField.mem_all (f : FaultField) : f ∈ all := by
  cases f <;> decide

theorem FaultField.read_le_max (f : FaultField) (spec : FaultSpec) : f.read spec ≤ f.max := by
  cases f with
  | padByte => exact Nat.le_of_lt_succ spec.padByte.toNat_lt
  | _ => exact Nat.le_of_lt_succ (UInt32.toNat_lt _)

/-- Every spec has a query. -/
theorem parse_all (spec : FaultSpec) :
    FaultSpec.parse (queryOf (FaultField.all.map fun f => (f, toStringNat (f.read spec)))) =
      spec := by
  refine parse_queryOf ?_ fun f hf => ?_
  · intro p hp
    obtain ⟨f, -, rfl⟩ := List.mem_map.1 hp
    exact ⟨constant_toStringNat _, f.read_le_max spec⟩
  · exact absurd (List.mem_map.2 ⟨_, List.mem_map_of_mem f.mem_all, rfl⟩) hf

/-- A spec is read back from every path with its values, whatever the order of the fields and
however often they come, where a field that has its default need not come at all. -/
theorem bus_query_read {base : Bytes} (hbase : chr '?' ∉ base) {spec : FaultSpec}
    {pairs : List (FaultField × Bytes)}
    (hpairs : ∀ p ∈ pairs, p.1.WellFormed p.2 (p.1.read spec))
    (hrest : ∀ f : FaultField, f ∉ pairs.map Prod.fst → f.read spec = f.read {}) :
    let (path, query) := splitBusQuery (base ++ chr '?' :: queryOf pairs)
    path = base ∧ FaultSpec.parse query = spec := by
  rw [splitBusQuery_append hbase]
  exact ⟨rfl, parse_queryOf hpairs hrest⟩

/-- A path with a hexadecimal padding byte and an octal count. -/
theorem bus_query_read_bus :
    let (path, query) := splitBusQuery (lit "mock://bus?pad=8&pad_byte=0x5A&drop_for=050")
    path = lit "mock://bus" ∧
      FaultSpec.parse query = { pad := 8, padByte := 0x5A, dropFor := 40 } := by
  have hpath : lit "mock://bus?pad=8&pad_byte=0x5A&drop_for=050" = lit "mock://bus" ++
      chr '?' :: queryOf [(.pad, lit "8"), (.padByte, lit "0x5A"), (.dropFor, lit "050")] := by
    decide
  have hbase : chr '?' ∉ lit "mock://bus" := by decide
  rw [hpath]
  refine bus_query_read hbase (fun p hp => ?_) fun f hf => ?_
  · simp only [List.mem_cons, List.not_mem_nil, or_false] at hp
    obtain rfl | rfl | rfl := hp
    · exact ⟨scanConstant_eq_iff.1 (by decide +kernel), by decide⟩
    · exact ⟨scanConstant_eq_iff.1 (by decide +kernel), by decide⟩
    · exact ⟨scanConstant_eq_iff.1 (by decide +kernel), by decide⟩
  · cases f <;> first | rfl | exact absurd (by decide) hf

end ProviderSdk.I2c

import ProviderSdk.CheckedTree

/-!
# Promised values

A field promises values : its enum values, its constant and its declared default. The
constructor of `Schema` checks each of them against the field's other constraints, and the
validator checks a document's scalar against all of them, in code of its own.

`promised_of_schema` : in a schema that was constructed, the validator reports nothing for
a scalar that resolves to a value its field promises.
-/

namespace ProviderSdk.Config

open Floating Relation

variable {stl : Stl}

/-- The scalar resolves to a value that the field promises. A number may be spelled as an
integer, an integer as a float without a fraction, and an address as a string. -/
inductive Field.Spec.Promises (spec : Field.Spec) : Resolved → Prop
  | enumValue {ev : Field.EnumValue} (h : ev ∈ spec.enumValues) : Promises spec (.string ev.value)
  | constValue {v : Bytes} (h : spec.constValue = some v) : Promises spec (.string v)
  | defaultString {v : Bytes} (h : spec.defaultString = some v) : Promises spec (.string v)
  | defaultInt {i : ℤ} {r : Resolved} (h : spec.defaultInt = some i) (hr : integerOf r = some i) :
      Promises spec r
  | defaultAddress {i : ℤ} {r : Resolved} (h : spec.defaultInt = some i)
      (hk : spec.kind = .i2cAddress) (hr : i2cAddressOf r = some i) : Promises spec r
  | defaultNumber {v : Double} {r : Resolved} (h : spec.defaultNumber = some v)
      (hr : numberOf r = some v) : Promises spec r
  | defaultBool {b : Bool} (h : spec.defaultBool = some b) : Promises spec (.bool b)

/-! ## What the constructor checks -/

/-- The constraints that the constructor holds a constant and an enum value to. -/
structure Field.Spec.Permits (stl : Stl) (spec : Field.Spec) (v : Bytes) : Prop where
  nonEmpty : spec.nonEmpty = true → v ≠ []
  forbidden : v ∉ spec.forbiddenValues.map Field.ForbiddenValue.value
  pattern : ∀ p, spec.pattern = some p → stl.regexSearch p v = true

/-- The promised values of a field are consistent with its other constraints. -/
structure Field.Spec.Honest (stl : Stl) (spec : Field.Spec) : Prop where
  const_or_enum : spec.constValue = none ∨ spec.enumValues = []
  constValue : ∀ v, spec.constValue = some v → spec.Permits stl v
  enumValue : ∀ ev ∈ spec.enumValues, spec.Permits stl ev.value
  defaultString : ∀ v, spec.defaultString = some v → spec.Permits stl v ∧
    (∀ c, spec.constValue = some c → v = c) ∧
    (spec.enumValues ≠ [] → v ∈ spec.enumValues.map Field.EnumValue.value)
  defaultInt : ∀ i, spec.defaultInt = some i →
    (integerBounds spec).1 ≤ i ∧ i ≤ (integerBounds spec).2
  defaultNumber : ∀ v, spec.defaultNumber = some v → outsideNumberBounds spec v = false

theorem nonEmpty_iff {spec : Field.Spec} {v : Bytes} :
    (!(spec.nonEmpty && v.isEmpty)) = true ↔ (spec.nonEmpty = true → v ≠ []) := by
  rw [Bool.not_eq_true', Bool.and_eq_false_imp]
  simp

theorem isForbidden_iff {spec : Field.Spec} {v : Bytes} :
    (!isForbidden spec v) = true ↔ v ∉ spec.forbiddenValues.map Field.ForbiddenValue.value := by
  simp [isForbidden]

theorem checkStringValueAgainstConstraints_eq_ok {spec : Field.Spec} {v path what : Bytes} :
    checkStringValueAgainstConstraints stl spec v path what = .ok () ↔ spec.Permits stl v := by
  simp only [checkStringValueAgainstConstraints, andThen_eq_ok, treeCheck_eq_ok, nonEmpty_iff,
    isForbidden_iff, matches_iff]
  constructor
  · rintro ⟨h1, h2, h3⟩
    exact ⟨h1, h2, h3⟩
  · rintro ⟨h1, h2, h3⟩
    exact ⟨h1, h2, h3⟩

theorem checkDefaultString_eq_ok {spec : Field.Spec} {v path : Bytes} :
    checkDefaultString stl spec v path = .ok () ↔ spec.Permits stl v ∧
      (∀ c, spec.constValue = some c → v = c) ∧
      (spec.enumValues ≠ [] → v ∈ spec.enumValues.map Field.EnumValue.value) := by
  have hconst : (spec.constValue.all fun c => v = c) = true ↔
      ∀ c, spec.constValue = some c → v = c := by
    cases spec.constValue <;> simp
  have henum : (spec.enumValues.isEmpty || isEnumValue spec v) = true ↔
      (spec.enumValues ≠ [] → v ∈ spec.enumValues.map Field.EnumValue.value) := by
    rw [Bool.or_eq_true, isEnumValue_iff, List.isEmpty_iff, ne_eq, or_iff_not_imp_left]
  simp only [checkDefaultString, andThen_eq_ok, treeCheck_eq_ok, nonEmpty_iff, isForbidden_iff,
    matches_iff, hconst, henum]
  constructor
  · rintro ⟨h1, h2, h3, h4, h5⟩
    exact ⟨⟨h1, h4, h5⟩, h2, h3⟩
  · rintro ⟨⟨h1, h4, h5⟩, h2, h3⟩
    exact ⟨h1, h2, h3, h4, h5⟩

/-- The check of a field leaves its promised values consistent. -/
theorem honest_of_checkField {spec : Field.Spec} {path : Bytes} {inArrayItem : Bool}
    (h : checkField stl spec path inArrayItem = .ok ()) : spec.Honest stl := by
  simp only [checkField, andThen_eq_ok, forM_eq_ok, treeCheck_eq_ok, Option.mem_toList,
    checkStringValueAgainstConstraints_eq_ok, checkDefaultString_eq_ok,
    decide_eq_true_eq, Bool.not_eq_true'] at h
  obtain ⟨-, -, hexcl, -, -, -, hconst, henum, hstring, hint, hnumber⟩ := h
  refine ⟨?_, hconst, henum, hstring, hint, hnumber⟩
  rw [Bool.and_eq_false_iff, Option.isSome_eq_false_iff, Option.isNone_iff_eq_none,
    Bool.not_eq_false', List.isEmpty_iff] at hexcl
  exact hexcl

/-! ## What the validator accepts -/

section Accepts

variable {spec : Field.Spec}

theorem acceptsString_of_permits {v : Bytes} (hp : spec.Permits stl v)
    (hc : ∀ c, spec.constValue = some c → v = c)
    (he : spec.enumValues ≠ [] → v ∈ spec.enumValues.map Field.EnumValue.value) :
    AcceptsString stl spec v :=
  ⟨hp.nonEmpty, hc, he, hp.pattern, hp.forbidden⟩

/-- The values a String field declares meet its constraints. -/
theorem Field.Spec.Honest.acceptsString (h : spec.Honest stl) {v : Bytes}
    (hv : v ∈ acceptedValues spec) : AcceptsString stl spec v := by
  rcases List.mem_append.mp hv with hv | hv
  · obtain ⟨ev, hev, rfl⟩ := List.mem_map.mp hv
    refine acceptsString_of_permits (h.enumValue ev hev) ?_ fun _ => hv
    intro c hc
    rcases h.const_or_enum with hnone | hnil
    · rw [hnone] at hc
      cases hc
    · rw [hnil] at hev
      exact absurd hev List.not_mem_nil
  · have hc : spec.constValue = some v := by simpa using hv
    refine acceptsString_of_permits (h.constValue v hc) ?_ ?_
    · intro c hc'
      exact Option.some.inj (hc.symm.trans hc')
    · intro hne
      rcases h.const_or_enum with hnone | hnil
      · rw [hnone] at hc
        cases hc
      · exact absurd hnil hne

theorem Field.Spec.Honest.acceptsDefault (h : spec.Honest stl) {v : Bytes}
    (hv : spec.defaultString = some v) : AcceptsString stl spec v := by
  obtain ⟨hp, hc, he⟩ := h.defaultString v hv
  exact acceptsString_of_permits hp hc he

/-- An integer default is inside the bounds of an Integer field. -/
theorem Field.Spec.Honest.acceptsInteger (h : spec.Honest stl) {i : ℤ}
    (hi : spec.defaultInt = some i) (hkind : spec.kind = .integer) : AcceptsInteger spec i := by
  obtain ⟨hlow, hhigh⟩ := h.defaultInt i hi
  have hne : spec.kind ≠ .i2cAddress := by simp [hkind]
  rw [integerBounds, if_neg hne] at hlow hhigh
  refine ⟨fun m hm => ?_, fun m hm => ?_⟩
  · simpa [hm] using hlow
  · simpa [hm] using hhigh

/-- An address default is in the range of the addresses. -/
theorem Field.Spec.Honest.acceptsAddress (h : spec.Honest stl) {i : ℤ} {r : Resolved}
    (hi : spec.defaultInt = some i) (hkind : spec.kind = .i2cAddress)
    (hr : integerOf r = some i) : AcceptsAddress r := by
  have hb := h.defaultInt i hi
  rw [integerBounds, if_pos hkind] at hb
  exact .inl ⟨i, hr, hb⟩

end Accepts

/-- A finite default is inside the bounds of a Number field. -/
theorem acceptsNumber_of_honest {f : Field} (h : f.spec.Honest stl) {v : Double}
    (hv : f.spec.defaultNumber = some v) : AcceptsNumber f.spec v := by
  have hfin := f.built.defaultNumber_finite v hv
  have hout := h.defaultNumber v hv
  simp only [outsideNumberBounds, Bool.or_eq_false_iff, Option.any_eq_false] at hout
  obtain ⟨⟨⟨hmin, hmax⟩, hxmin⟩, hxmax⟩ := hout
  refine validateNumber_eq_nil.mp (?_ : validateNumber stl f.spec v [] = [])
  rw [validateNumber, if_pos hfin]
  simp only [List.append_eq_nil_iff, boundError_eq_nil]
  exact ⟨⟨⟨hmin, hxmin⟩, hmax⟩, hxmax⟩

/-- A field accepts what it promises. -/
theorem accepts_of_promises {f : Field} (h : f.spec.Honest stl) {r : Resolved}
    (hr : f.spec.Promises r) : Accepts stl f.spec r := by
  -- a promise of the wrong kind is not declared
  have hkind {k : Field.Kind} {p : Prop} (hne : f.spec.kind ≠ k → ¬p) (hp : p) :
      f.spec.kind = k :=
    by_contra fun hk => hne hk hp
  unfold Accepts
  cases hr with
  | @enumValue ev hev =>
    have hk : f.spec.kind = .string := hkind (fun hne hp => by
      simp [(f.built.string_only hne).2.2.1] at hp) hev
    rw [hk]
    exact ⟨_, rfl, h.acceptsString (List.mem_append_left _ (List.mem_map_of_mem hev))⟩
  | @constValue v hv =>
    have hk : f.spec.kind = .string := hkind (fun hne hp => by
      simp [(f.built.string_only hne).2.2.2.1] at hp) hv
    rw [hk]
    exact ⟨_, rfl, h.acceptsString (List.mem_append_right _ (by simpa using hv))⟩
  | @defaultString v hv =>
    have hk : f.spec.kind = .string := hkind (fun hne hp => by
      simp [(f.built.string_only hne).2.2.2.2.2] at hp) hv
    rw [hk]
    exact ⟨v, rfl, h.acceptsDefault hv⟩
  | @defaultInt i r hi hr =>
    by_cases hk : f.spec.kind = .integer
    · rw [hk]
      exact ⟨i, hr, h.acceptsInteger hi hk⟩
    · have hk' : f.spec.kind = .i2cAddress := hkind (fun hne hp => by
        simp [f.built.defaultInt_only hk hne] at hp) hi
      rw [hk']
      exact h.acceptsAddress hi hk' hr
  | @defaultAddress i r hi hk hr =>
    rw [hk]
    exact i2cAddressOf_isSome.mp ⟨i, hr⟩
  | @defaultNumber v r hv hr =>
    have hk : f.spec.kind = .number := hkind (fun hne hp => by
      simp [(f.built.number_only hne).2.2.2.2] at hp) hv
    rw [hk]
    exact ⟨v, hr, acceptsNumber_of_honest h hv⟩
  | @defaultBool b hb =>
    have hk : f.spec.kind = .boolean := hkind (fun hne hp => by
      simp [f.built.boolean_only hne] at hp) hb
    rw [hk]
    exact ⟨b, rfl⟩

/-- In a schema that was constructed, no field rejects a value it promises. -/
theorem promised_of_schema (schema : Schema stl) {f : Field}
    (hf : Within (.object schema.root) (.field f)) {node : Node}
    (hr : f.spec.Promises node.resolve) (path : Bytes) :
    validateField stl f.spec node path = [] := by
  obtain ⟨_, _, hcheck⟩ := checked_of_within schema.checked_root hf
  exact validateField_eq_nil.mpr (accepts_of_promises (honest_of_checkField hcheck) hr)

/-- The enum value `scan` of the small schema. -/
theorem promised_of_schema_small :
    validateField Stl.exact modeField.spec (plain "scan") (lit "mode") = [] := by
  have hresolve : (plain "scan").resolve = .string (lit "scan") := by decide +kernel
  have hmem : Member.scalar modeField ∈ smallRoot.members := List.mem_cons_self
  have hin : Within (.object smallSchema.root) (.field modeField) := .single (Part.member hmem)
  have hscan : (⟨lit "scan", []⟩ : Field.EnumValue) ∈ modeField.spec.enumValues := by decide
  refine promised_of_schema smallSchema hin ?_ (lit "mode")
  rw [hresolve]
  exact .enumValue hscan

end ProviderSdk.Config

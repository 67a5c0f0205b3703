import ProviderSdk.Emission
import ProviderSdk.FieldContract

/-!
# What an emitted field asks

The emitted schema of a field, read keyword by keyword against the JSON value of a scalar.
It is the field's contract, up to integers outside `int64_t` and numbers that are not
finite (`valid_emitField`).
-/

namespace ProviderSdk.Config

open JsonSchema Floating

variable {stl : Stl} {search : Bytes → Bytes → Bool} {siblings : List (Text × Json)} {x : Json}

/-! ## Keywords -/

section keywords

variable {α : Type} {key : String} {value : Json} {P : Text × Json → Prop}

@[simp] theorem forall_unlessEmpty {l : List α} :
    (unlessEmpty key l value).Forall P ↔ (l ≠ [] → P (name key, value)) := by
  unfold unlessEmpty
  cases l <;> simp

@[simp] theorem forall_optional {o : Option α} {json : α → Json} :
    (optional key o json).Forall P ↔ ∀ v, o = some v → P (name key, json v) := by
  unfold optional
  cases o <;> simp

@[simp] theorem forall_flagged {flag : Bool} :
    (flagged key flag value).Forall P ↔ (flag = true → P (name key, value)) := by
  unfold flagged
  cases flag <;> simp

@[simp] theorem forall_titled {title description : Bytes} :
    (titled title description).Forall P ↔
      (title ≠ [] → P (name "title", .str title)) ∧
        (description ≠ [] → P (name "description", .str description)) := by
  unfold titled
  rw [List.forall_append, forall_unlessEmpty, forall_unlessEmpty]

end keywords

/-! ## Annotations -/

@[simp] theorem holds_titled {title description : Bytes} :
    (titled title description).Forall fun p => Holds search siblings p x := by
  rw [forall_titled]
  exact ⟨fun _ => holds_annotation (by decide), fun _ => holds_annotation (by decide)⟩

@[simp] theorem holds_commonSuffix {spec : Field.Spec} :
    (commonSuffix spec).Forall fun p => Holds search siblings p x := by
  unfold commonSuffix
  rw [List.forall_append, forall_unlessEmpty, forall_flagged]
  exact ⟨fun _ => holds_annotation (by decide), fun _ => holds_annotation (by decide)⟩

@[simp] theorem holds_default {v : Json} : Holds search siblings (name "default", v) x :=
  holds_annotation (by decide)

theorem holds_typeKeyword {type : String} :
    Holds search siblings (textKeyword "type" type) x ↔ hasType (name type) x := by
  simp [textKeyword]

/-! ## Enumerations and forbidden values -/

theorem valid_constEntry {s value title : Bytes} :
    Valid search (.obj ((name "const", .str value) :: unlessEmpty "title" title (.str title)))
      (.str s) ↔ value = s := by
  rw [valid_obj_iff (by simp), List.forall_cons, holds_const, Json.same_str, forall_unlessEmpty]
  constructor
  · rintro ⟨h, -⟩
    exact (Json.str.inj h).symm
  · rintro rfl
    exact ⟨rfl, fun _ => holds_annotation (by decide)⟩

/-- A choice of constants that differ is their enumeration. -/
theorem holds_enumKeyword {values : List Field.EnumValue} {s : Bytes}
    (hnd : (values.map Field.EnumValue.value).Nodup) :
    ((enumKeyword values).Forall fun p => Holds search siblings p (.str s)) ↔
      (values ≠ [] → s ∈ values.map Field.EnumValue.value) := by
  unfold enumKeyword
  split_ifs with htitle
  · rw [forall_unlessEmpty, holds_oneOf]
    refine forall_congr' fun _ => ?_
    rw [oneHolds_iff]
    · simp [valid_constEntry]
    · rw [List.pairwise_map]
      refine (List.pairwise_map.mp hnd).imp fun hne => ?_
      rw [valid_constEntry, valid_constEntry]
      rintro ⟨rfl, h⟩
      exact hne h.symm
  · rw [forall_unlessEmpty, holds_enum]
    simp [texts, Json.same_str, eq_comm]

theorem holds_notKeyword {values : List Field.ForbiddenValue} {s : Bytes} :
    ((notKeyword values).Forall fun p => Holds search siblings p (.str s)) ↔
      s ∉ values.map Field.ForbiddenValue.value := by
  unfold notKeyword
  rw [forall_unlessEmpty, holds_not, valid_obj_iff]
  · rcases values with _ | ⟨v, _ | ⟨w, values⟩⟩
    · simp
    · simp [Json.same_str]
    · simp [texts, Json.same_str, eq_comm]
  · rcases values with _ | ⟨v, _ | ⟨w, values⟩⟩ <;> simp

/-! ## Fields -/

theorem valid_emitField_iff {spec : Field.Spec} :
    Valid search (.obj (emitField spec)) x ↔
      (emitField spec).Forall fun p => Holds search (emitField spec) p x := by
  refine valid_obj_iff ?_
  unfold emitField commonSuffix
  cases spec.kind
  case string =>
    unfold enumKeyword notKeyword
    split_ifs <;> simp [textKeyword]
  all_goals simp [textKeyword]

theorem holds_emitField_string {f : Field} (hkind : f.spec.kind = .string) :
    ((emitField f.spec).Forall fun p => Holds stl.regexSearch siblings p x) ↔
      ∃ s, x = .str s ∧ AcceptsString stl f.spec s := by
  unfold emitField
  rw [hkind]
  simp only [List.cons_append, List.append_assoc, List.forall_cons, List.forall_append,
    holds_typeKeyword, hasType_string, forall_optional, forall_flagged, holds_titled,
    holds_commonSuffix, holds_const, holds_pattern, holds_minLength, holds_default, Json.same_str,
    true_and, and_true, implies_true]
  constructor
  · rintro ⟨⟨s, rfl⟩, hconst, henum, hpattern, hlength, hnot⟩
    refine ⟨s, rfl, fun h => ?_, fun c hc => Json.str.inj (hconst c hc),
      (holds_enumKeyword f.built.enumValues_nodup).mp henum, fun p hp => ?_,
      holds_notKeyword.mp hnot⟩
    · obtain ⟨n, hn, hle⟩ := hlength h s rfl
      obtain rfl := Json.int.inj hn
      exact one_le_characters.mp (by omega)
    · obtain ⟨q, hq, hs⟩ := hpattern p hp s rfl
      rwa [Json.str.inj hq]
  · rintro ⟨s, rfl, hne, hconst, henum, hpattern, hnot⟩
    refine ⟨⟨s, rfl⟩, fun c hc => congrArg _ (hconst c hc),
      (holds_enumKeyword f.built.enumValues_nodup).mpr henum, ?_, ?_, holds_notKeyword.mpr hnot⟩
    · rintro p hp t ht
      obtain rfl := Json.str.inj ht
      exact ⟨p, rfl, hpattern p hp⟩
    · rintro h t ht
      obtain rfl := Json.str.inj ht
      have := one_le_characters.mpr (hne h)
      exact ⟨1, rfl, by omega⟩

theorem holds_emitField_integer {f : Field} (hkind : f.spec.kind = .integer) :
    ((emitField f.spec).Forall fun p => Holds search siblings p x) ↔
      ∃ i, x.integer = some i ∧ AcceptsInteger f.spec i := by
  unfold emitField
  rw [hkind]
  simp only [List.cons_append, List.append_assoc, List.forall_cons, List.forall_append,
    holds_typeKeyword, hasType_integer, forall_optional, holds_titled, holds_commonSuffix,
    holds_minimum, holds_maximum, holds_default, true_and, and_true, implies_true]
  rw [← exists_and_right]
  refine exists_congr fun i => and_congr_right fun hi => ?_
  simp only [bounded_int hi]
  norm_cast
  constructor
  · rintro ⟨h1, h2⟩
    exact ⟨h1, h2⟩
  · rintro ⟨h1, h2⟩
    exact ⟨h1, h2⟩

/-- The bounds do not keep out what is not finite. -/
theorem holds_emitField_number {f : Field} (hkind : f.spec.kind = .number) :
    (((emitField f.spec).Forall fun p => Holds search siblings p x) ∧
        ∀ v, x.double = some v → v.isFinite = true) ↔
      ∃ v, x.double = some v ∧ AcceptsNumber f.spec v := by
  unfold emitField
  rw [hkind]
  simp only [List.cons_append, List.append_assoc, List.forall_cons, List.forall_append,
    holds_typeKeyword, hasType_number, forall_optional, holds_titled, holds_commonSuffix,
    holds_minimum, holds_maximum, holds_exclusiveMinimum, holds_exclusiveMaximum, holds_default,
    bounded, true_and, and_true, implies_true]
  constructor
  · rintro ⟨⟨⟨v, hv⟩, h1, h2, h3, h4⟩, hfinite⟩
    exact ⟨v, hv, hfinite v hv, fun m hm => h1 m hm v hv, fun m hm => h2 m hm v hv,
      fun m hm => h3 m hm v hv, fun m hm => h4 m hm v hv⟩
  · rintro ⟨v, hv, hfinite, h1, h2, h3, h4⟩
    have honly : ∀ w, x.double = some w → w = v := by
      intro w hw
      rw [hv] at hw
      exact (Option.some.inj hw).symm
    refine ⟨⟨⟨v, hv⟩, ?_, ?_, ?_, ?_⟩, ?_⟩
    · intro m hm w hw
      rw [honly w hw]
      exact h1 m hm
    · intro m hm w hw
      rw [honly w hw]
      exact h2 m hm
    · intro m hm w hw
      rw [honly w hw]
      exact h3 m hm
    · intro m hm w hw
      rw [honly w hw]
      exact h4 m hm
    · intro w hw
      rw [honly w hw]
      exact hfinite

theorem holds_emitField_boolean {f : Field} (hkind : f.spec.kind = .boolean) :
    ((emitField f.spec).Forall fun p => Holds search siblings p x) ↔ ∃ b, x = .bool b := by
  unfold emitField
  rw [hkind]
  simp only [List.cons_append, List.append_assoc, List.forall_cons, List.forall_append,
    holds_typeKeyword, hasType_boolean, forall_optional, holds_titled, holds_commonSuffix,
    holds_default, and_true, implies_true]

theorem valid_addressBranches (stl : Stl) : (∃ v ∈ addressBranches, Valid stl.regexSearch v x) ↔
    (∃ i, x.integer = some i ∧ kI2cAddressMin ≤ i ∧ i ≤ kI2cAddressMax) ∨
      ∃ s, x = .str s ∧ i2cHexPattern.rmatch s = true := by
  unfold addressBranches
  simp only [List.mem_cons, List.not_mem_nil, or_false, exists_eq_or_imp, exists_eq_left]
  rw [valid_obj_iff (by simp [textKeyword]), valid_obj_iff (by simp [textKeyword])]
  simp only [List.Forall, holds_typeKeyword, hasType_integer, hasType_string, holds_minimum,
    holds_maximum, holds_pattern]
  refine or_congr ?_ ?_
  · rw [← exists_and_right]
    refine exists_congr fun i => and_congr_right fun hi => ?_
    simp only [bounded_int hi]
    norm_cast
  · rw [← exists_and_right]
    refine exists_congr fun s => and_congr_right ?_
    rintro rfl
    rw [← stl.regexSearch_i2c]
    simp

theorem holds_emitField_i2cAddress {f : Field} (hkind : f.spec.kind = .i2cAddress) :
    ((emitField f.spec).Forall fun p => Holds stl.regexSearch siblings p x) ↔
      (∃ i, x.integer = some i ∧ kI2cAddressMin ≤ i ∧ i ≤ kI2cAddressMax) ∨
        ∃ s, x = .str s ∧ i2cHexPattern.rmatch s = true := by
  have hannotation : Holds stl.regexSearch siblings
      (textKeyword "x-anolis-type" "i2c_address") x := holds_annotation (by decide)
  rw [← valid_addressBranches stl]
  unfold emitField
  rw [hkind]
  simp only [List.append_assoc, List.forall_append, List.singleton_append, List.forall_cons,
    forall_optional, holds_titled, holds_commonSuffix, holds_anyOf, holds_default, hannotation,
    true_and, and_true, implies_true]

/-! ## The JSON value of a scalar -/

variable {n : Node}

theorem toJson_eq_str {s : Bytes} : n.toJson = .str s ↔ n.resolve = .string s := by
  rcases n with _ | ⟨tag, text⟩ | items | entries
  case scalar => rw [Node.toJson]; cases (Node.scalar tag text).resolve <;> simp [Resolved.toJson]
  all_goals simp [Node.toJson, Node.resolve]

theorem toJson_eq_bool {b : Bool} : n.toJson = .bool b ↔ n.resolve = .bool b := by
  rcases n with _ | ⟨tag, text⟩ | items | entries
  case scalar => rw [Node.toJson]; cases (Node.scalar tag text).resolve <;> simp [Resolved.toJson]
  all_goals simp [Node.toJson, Node.resolve]

theorem double_toJson : n.toJson.double = numberOf n.resolve := by
  rcases n with _ | ⟨tag, text⟩ | items | entries
  case scalar => rw [Node.toJson]; cases (Node.scalar tag text).resolve <;> rfl
  all_goals simp [Node.toJson, Node.resolve, Json.double, numberOf]

/-- The integers that fit `int64_t` are the ones the validator reads. -/
theorem integerOf_eq_some {i : ℤ} :
    integerOf n.resolve = some i ↔ n.toJson.integer = some i ∧ FitsInt64 i := by
  rcases n with _ | ⟨tag, text⟩ | items | entries
  case scalar =>
    rw [Node.toJson]
    have hfits := @fits_of_resolve (.scalar tag text)
    cases hr : (Node.scalar tag text).resolve with
    | int j =>
      simp only [integerOf, Resolved.toJson, Json.integer, Option.some.injEq]
      refine (and_iff_left_of_imp ?_).symm
      rintro rfl
      exact hfits hr
    | float v =>
      simp only [integerOf, Resolved.toJson, Json.integer]
      cases v.toInt with
      | none => simp
      | some j =>
        dsimp only
        split_ifs with hj
        · rw [Option.some.injEq]
          refine (and_iff_left_of_imp ?_).symm
          rintro rfl
          exact hj
        · refine iff_of_false (by simp) ?_
          rintro ⟨hji, hi⟩
          exact hj (Option.some.inj hji ▸ hi)
    | _ => simp [integerOf, Resolved.toJson, Json.integer]
  all_goals simp [Node.toJson, Node.resolve, Json.integer, integerOf]

/-! ## A field's schema is its contract -/

/-- An Integer is in `int64_t` and a Number is finite. -/
structure FitsKind (kind : Field.Kind) (x : Json) : Prop where
  integer : kind = .integer → ∀ i, x.integer = some i → FitsInt64 i
  number : kind = .number → ∀ v, x.double = some v → v.isFinite = true

theorem valid_emitField {f : Field} : Accepts stl f.spec n.resolve ↔
    Valid stl.regexSearch (.obj (emitField f.spec)) n.toJson ∧ FitsKind f.spec.kind n.toJson := by
  have hfree : f.spec.kind ≠ .integer → f.spec.kind ≠ .number → FitsKind f.spec.kind n.toJson :=
    fun h1 h2 => ⟨fun h => absurd h h1, fun h => absurd h h2⟩
  rw [valid_emitField_iff]
  unfold Accepts
  cases hkind : f.spec.kind with
  | string =>
    dsimp only
    rw [holds_emitField_string hkind, ← hkind,
      and_iff_left (hfree (by simp [hkind]) (by simp [hkind]))]
    simp only [toJson_eq_str]
  | integer =>
    dsimp only
    rw [holds_emitField_integer hkind]
    simp only [integerOf_eq_some]
    constructor
    · rintro ⟨i, ⟨hi, hfits⟩, hbounds⟩
      refine ⟨⟨i, hi, hbounds⟩, fun _ j hj => ?_, fun h => absurd h (by simp)⟩
      rw [hi] at hj
      rwa [← Option.some.inj hj]
    · rintro ⟨⟨i, hi, hbounds⟩, hfits⟩
      exact ⟨i, ⟨hi, hfits.integer rfl i hi⟩, hbounds⟩
  | number =>
    dsimp only
    rw [← double_toJson, ← holds_emitField_number hkind]
    exact and_congr_right fun _ => ⟨fun h => ⟨fun hk => absurd hk (by simp), fun _ => h⟩,
      fun h => h.number rfl⟩
  | boolean =>
    dsimp only
    rw [holds_emitField_boolean hkind, ← hkind,
      and_iff_left (hfree (by simp [hkind]) (by simp [hkind]))]
    simp only [toJson_eq_bool]
  | i2cAddress =>
    dsimp only
    rw [holds_emitField_i2cAddress hkind, ← hkind,
      and_iff_left (hfree (by simp [hkind]) (by simp [hkind]))]
    unfold AcceptsAddress
    simp only [integerOf_eq_some, toJson_eq_str]
    refine or_congr_left (exists_congr fun i => ?_)
    constructor
    · rintro ⟨⟨hi, -⟩, hrange⟩
      exact ⟨hi, hrange⟩
    · rintro ⟨hi, hmin, hmax⟩
      have h1 : kI2cAddressMin = 8 := rfl
      have h2 : kI2cAddressMax = 119 := rfl
      exact ⟨⟨hi, by omega, by omega⟩, hmin, hmax⟩

end ProviderSdk.Config

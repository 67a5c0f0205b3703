import ProviderSdk.EmittedField

/-!
# What an emitted object or array asks

The emitted schema of an object asks what its declaration asks of the keys
(`valid_emitObject`), and that of an array asks for the counts and the items
(`valid_emitArray`). JSON values of scalars are the same only if the parsed values are
(`parsedValue_eq_of_same`).
-/

namespace ProviderSdk.Config

open JsonSchema Floating

variable {stl : Stl} {search : Bytes → Bytes → Bool} {siblings : List (Text × Json)} {x : Json}
  {n : Node}

/-! ## Maps and sequences -/

theorem toJson_resolve_ne_obj {r : Resolved} {fields : List (Text × Json)} :
    r.toJson ≠ .obj fields := by
  cases r <;> simp [Resolved.toJson]

theorem toJson_resolve_ne_arr {r : Resolved} {items : List Json} : r.toJson ≠ .arr items := by
  cases r <;> simp [Resolved.toJson]

theorem toJson_eq_obj {fields : List (Text × Json)} :
    n.toJson = .obj fields ↔ ∃ entries, n = .map entries ∧ entriesJson entries = fields := by
  cases n <;> simp [Node.toJson, toJson_resolve_ne_obj]

theorem itemsJson_eq {items : List Node} : itemsJson items = items.map Node.toJson := by
  induction items with
  | nil => rfl
  | cons n items ih => rw [itemsJson, ih, List.map_cons]

theorem toJson_eq_arr {values : List Json} :
    n.toJson = .arr values ↔ ∃ items, n = .sequence items ∧ items.map Node.toJson = values := by
  cases n <;> simp [Node.toJson, toJson_resolve_ne_arr, itemsJson_eq]

theorem keys_entriesJson {entries : Entries} :
    Json.keys (entriesJson entries) = entries.scalarKeys := by
  induction entries with
  | nil => rfl
  | cons e entries ih =>
    obtain ⟨k, v⟩ := e
    rw [entriesJson]
    cases hk : k.scalarText <;> simp_all [Json.keys, Entries.scalarKeys]

/-- Both sides read the first entry with a key. -/
theorem field_entriesJson {entries : Entries} {key : Bytes} :
    Json.field (entriesJson entries) key = (entries.valueAt key).map Node.toJson := by
  induction entries with
  | nil => rfl
  | cons e entries ih =>
    obtain ⟨k, v⟩ := e
    unfold Entries.valueAt at ih ⊢
    rw [entriesJson, List.find?_cons]
    cases hk : k.scalarText with
    | none => simpa [hk] using ih
    | some k' =>
      dsimp only
      rw [Json.field_cons]
      by_cases hkey : k' = key
      · simp [hkey]
      · simpa [hk, hkey] using ih

theorem emitMembers_eq {ms : List Member} :
    emitMembers ms = ms.map fun m => (m.key, .obj (emitMember m)) := by
  induction ms with
  | nil => rfl
  | cons m ms ih => rw [emitMembers, ih, List.map_cons]

/-! ## Objects -/

/-- A conditional branch, if the discriminator selects it. -/
structure BranchMet (branch : When) (entries : Entries) : Prop where
  require : ∀ key ∈ branch.requireKeys, key ∈ entries.scalarKeys
  forbid : ∀ key ∈ branch.forbidKeys, key ∉ entries.scalarKeys

/-- What an object's schema asks of the keys. -/
structure KeysMet (o : Object) (entries : Entries) : Prop where
  required : ∀ m ∈ o.members, m.required = true → m.key ∈ entries.scalarKeys
  closed : o.spec.openness = .closed →
    ∀ key ∈ entries.scalarKeys, key ∈ o.members.map Member.key
  dependent : ∀ d ∈ o.spec.dependentRequired, d.key ∈ entries.scalarKeys →
    ∀ key ∈ d.alsoRequired, key ∈ entries.scalarKeys
  conditional : ∀ c ∈ o.spec.conditionals,
    resolveScalar (entries.valueAt c.key) = .string c.equals → BranchMet c.branch entries

theorem mem_scalarKeys {entries : Entries} {key : Bytes} :
    key ∈ entries.scalarKeys ↔ ∃ value, entries.valueAt key = some value := by
  rw [← keys_entriesJson, ← Option.isSome_iff_exists, ← Option.isSome_map (f := Node.toJson),
    ← field_entriesJson, ← not_iff_not, ← Json.field_eq_none, Option.not_isSome_iff_eq_none]

/-- `required` and the constant select the branch that the validator selects. -/
theorem valid_discriminator {c : Object.Conditional} {entries : Entries} :
    Valid search (.obj [(name "properties", .obj [(c.key, .obj [(name "const", .str c.equals)])]),
      (name "required", texts [c.key])]) (.obj (entriesJson entries)) ↔
      resolveScalar (entries.valueAt c.key) = .string c.equals := by
  rw [valid_obj_iff (by simp)]
  simp only [List.Forall, holds_properties, holds_required, Json.obj.injEq, forall_eq',
    List.mem_singleton, forall_eq, texts, hasNames_iff, keys_entriesJson, field_entriesJson,
    mem_scalarKeys]
  cases hv : entries.valueAt c.key with
  | none => simp [resolveScalar]
  | some value =>
    have hconst : Valid search (.obj [(name "const", .str c.equals)]) value.toJson ↔
        value.toJson = .str c.equals := by
      rw [valid_obj_iff (by simp), List.Forall, holds_const, Json.same_str]
    simp [resolveScalar, hconst, toJson_eq_str]

theorem valid_branch {branch : When} {entries : Entries} :
    Valid search (.obj
      (unlessEmpty "required" branch.requireKeys (texts branch.requireKeys) ++
        unlessEmpty "properties" branch.forbidKeys
          (.obj (branch.forbidKeys.map fun key => (key, .bool false)))))
      (.obj (entriesJson entries)) ↔ BranchMet branch entries := by
  rw [valid_obj_iff (by simp), List.forall_append, forall_unlessEmpty, forall_unlessEmpty,
    holds_required, holds_properties]
  simp only [Json.obj.injEq, forall_eq', texts, hasNames_iff, keys_entriesJson, field_entriesJson,
    List.forall_mem_map, valid_false, imp_false]
  constructor
  · rintro ⟨hrequire, hforbid⟩
    refine ⟨fun key hkey => hrequire (List.ne_nil_of_mem hkey) key hkey, fun key hkey hmem => ?_⟩
    obtain ⟨value, hv⟩ := mem_scalarKeys.mp hmem
    exact hforbid (List.ne_nil_of_mem hkey) key hkey value.toJson (by rw [hv, Option.map_some])
  · rintro ⟨hrequire, hforbid⟩
    refine ⟨fun _ => hrequire, fun _ key hkey y hy => hforbid key hkey ?_⟩
    obtain ⟨value, hv, -⟩ := Option.map_eq_some_iff.mp hy
    exact mem_scalarKeys.mpr ⟨value, hv⟩

theorem valid_emitConditional {c : Object.Conditional} {entries : Entries} :
    Valid search (emitConditional c) (.obj (entriesJson entries)) ↔
      (resolveScalar (entries.valueAt c.key) = .string c.equals → BranchMet c.branch entries) := by
  rw [emitConditional, valid_ifThen, valid_discriminator, valid_branch]

/-- The keywords around an emitted object, such as those of a schema's root, are
annotations. -/
def Annotations (keywords : List (Text × Json)) : Prop :=
  keywords.Forall fun p => ∃ k, p.1 = name k ∧ k ∉ "if" :: semantic

theorem Annotations.ne {keywords : List (Text × Json)} (h : Annotations keywords) {k : String}
    (hk : k ∈ "if" :: semantic) : keywords.Forall fun p => p.1 ≠ name k := by
  refine h.imp ?_
  rintro p ⟨k', hp, hk'⟩ heq
  rw [hp, name_inj] at heq
  exact hk' (heq ▸ hk)

theorem Annotations.holds {keywords : List (Text × Json)} (h : Annotations keywords) :
    keywords.Forall fun p => Holds search siblings p x := by
  refine h.imp ?_
  rintro ⟨_, v⟩ ⟨k, rfl, hk⟩
  exact holds_annotation fun hmem => hk (List.mem_cons_of_mem _ hmem)

theorem declared_objectKeywords {pre properties : List (Text × Json)} {spec : Object.Spec}
    {members : List Member} {title description : Bytes} (hpre : Annotations pre) :
    declared (pre ++ objectKeywords spec members properties title description) =
      Json.keys properties := by
  have hbefore : (pre ++ textKeyword "type" "object" :: titled title description).Forall
      fun p => p.1 ≠ name "properties" := by
    rw [List.forall_append]
    exact ⟨hpre.ne (by decide), by simp [textKeyword]⟩
  unfold declared objectKeywords
  simp only [List.append_assoc]
  rw [List.cons_append, ← List.cons_append, ← List.append_assoc, Json.field_append,
    Json.field_eq_none_of_forall hbefore, Option.none_or]
  by_cases hnil : properties = []
  · rw [Json.field_eq_none_of_forall (by simp [hnil]), hnil]
    rfl
  · rw [Json.field_append]
    simp [unlessEmpty, hnil, Json.field]

theorem keys_emitMembers {ms : List Member} :
    Json.keys (emitMembers ms) = ms.map Member.key := by
  rw [emitMembers_eq, Json.keys, List.map_map]
  rfl

/-- Leaving out an empty list asks nothing less. -/
theorem forall_of_ne_nil {α : Type} {l : List α} {P : α → Prop} :
    (¬l = [] → ∀ a ∈ l, P a) ↔ ∀ a ∈ l, P a :=
  ⟨fun h a ha => h (List.ne_nil_of_mem ha) a ha, fun h _ => h⟩

theorem forall_requiredKeys {members : List Member} {P : Bytes → Prop} :
    (∀ key ∈ requiredKeys members, P key) ↔ ∀ m ∈ members, m.required = true → P m.key := by
  rw [requiredKeys, List.forall_mem_map]
  simp only [List.mem_filter, and_imp]

theorem holds_objectKeywords {spec : Object.Spec} {members : List Member}
    {title description : Bytes} {entries : Entries}
    (hdeclared : declared siblings = members.map Member.key) :
    ((objectKeywords spec members (emitMembers members) title description).Forall
        fun p => Holds search siblings p (.obj (entriesJson entries))) ↔
      KeysMet ⟨spec, members⟩ entries ∧
        ∀ m ∈ members, ∀ value, entries.valueAt m.key = some value →
          Valid search (.obj (emitMember m)) value.toJson := by
  have hclosed : (∀ p ∈ entriesJson entries, p.1 ∈ members.map Member.key) ↔
      ∀ key ∈ entries.scalarKeys, key ∈ members.map Member.key := by
    rw [← keys_entriesJson, Json.keys, List.forall_mem_map]
  unfold objectKeywords
  simp only [List.cons_append, List.append_assoc, List.forall_cons, List.forall_append,
    holds_typeKeyword, hasType_object, forall_unlessEmpty, forall_flagged, holds_titled,
    holds_properties, holds_required, holds_additionalProperties, holds_dependentRequired,
    holds_allOf, valid_false, imp_false, not_not, hdeclared, hclosed, Json.obj.injEq, forall_eq',
    exists_eq', exists_eq_left', emitMembers_eq, List.forall_mem_map, field_entriesJson, texts,
    hasNames_iff, keys_entriesJson, valid_emitConditional, decide_eq_true_eq, true_and,
    ne_eq, List.map_eq_nil_iff, forall_of_ne_nil, Option.map_eq_some_iff,
    forall_exists_index, and_imp, forall_apply_eq_imp_iff₂]
  rw [forall_requiredKeys]
  constructor
  · rintro ⟨hmembers, hrequired, hclosed, hdependent, hconditional⟩
    exact ⟨⟨hrequired, hclosed, hdependent, hconditional⟩, hmembers⟩
  · rintro ⟨⟨hrequired, hclosed, hdependent, hconditional⟩, hmembers⟩
    exact ⟨hmembers, hrequired, hclosed, hdependent, hconditional⟩

/-- An object's schema asks for a map, for its keys, and for its members. -/
theorem valid_emitObject {pre : List (Text × Json)} {o : Object} {title description : Option Bytes}
    (hpre : Annotations pre) :
    Valid search (.obj (pre ++ emitObject o title description)) n.toJson ↔
      ∃ entries, n = .map entries ∧ KeysMet o entries ∧
        ∀ m ∈ o.members, ∀ value, Entries.valueAt entries m.key = some value →
          Valid search (.obj (emitMember m)) value.toJson := by
  obtain ⟨spec, members⟩ := o
  rw [emitObject, valid_obj_iff, List.forall_append, and_iff_right hpre.holds]
  · constructor
    · intro h
      obtain ⟨fields, hfields⟩ := hasType_object.mp (holds_typeKeyword.mp
        ((List.forall_cons _ _ _).mp h).1)
      obtain ⟨entries, rfl, -⟩ := toJson_eq_obj.mp hfields
      refine ⟨entries, rfl, (holds_objectKeywords ?_).mp h⟩
      rw [declared_objectKeywords hpre, keys_emitMembers]
    · rintro ⟨entries, rfl, h⟩
      refine (holds_objectKeywords ?_).mpr h
      rw [declared_objectKeywords hpre, keys_emitMembers]
  · rw [List.forall_append]
    exact ⟨hpre.ne (by decide), by simp [objectKeywords, textKeyword]⟩

/-! ## Arrays -/

/-- The flag of `Array::unique`. -/
def Array.isUnique : Array → Bool
  | .scalars _ unique _ => unique
  | .objects _ _ => false

/-- The counts fit `int64_t`, which the emitter casts them to. -/
structure Array.Spec.SmallCounts (spec : Array.Spec) : Prop where
  min : ∀ m, spec.minItems = some m → m < 2 ^ 63
  max : ∀ m, spec.maxItems = some m → m < 2 ^ 63

/-- What an array's schema asks of the items as a whole. -/
structure ItemsMet (a : Array) (items : List Node) : Prop where
  min : ∀ m, a.spec.minItems = some m → m ≤ items.length
  max : ∀ m, a.spec.maxItems = some m → items.length ≤ m
  unique : a.isUnique = true → items.Pairwise fun n n' => ¬Json.Same n.toJson n'.toJson

theorem castInt64_of_lt {m : ℕ} (h : m < 2 ^ 63) : castInt64 m = m := by
  rw [castInt64, if_pos h]

/-- A declaration's emitted schema. -/
def emitDecl : Decl → List (Text × Json)
  | .field f => emitField f.spec
  | .object o => emitObject o none none
  | .array a => emitArray a

theorem emitMember_eq {m : Member} : emitMember m = emitDecl m.decl := by
  cases m <;> simp [emitMember, emitDecl, Member.decl]

theorem emitArray_eq {a : Array} :
    emitArray a = arrayKeywords a.spec (.obj (emitDecl a.item)) a.isUnique := by
  cases a <;> simp [emitArray, emitDecl, Array.item, Array.spec, Array.isUnique]

theorem holds_arrayKeywords {a : Array} {item : Json} {items : List Node}
    (hsmall : a.spec.SmallCounts) :
    ((arrayKeywords a.spec item a.isUnique).Forall
        fun p => Holds search siblings p (.arr (items.map Node.toJson))) ↔
      ItemsMet a items ∧ ∀ m ∈ items, Valid search item m.toJson := by
  have hannotation : ∀ {y : Json}, Holds search siblings (name "x-anolis-unique", .bool true) y :=
    holds_annotation (by decide)
  unfold arrayKeywords
  simp only [List.cons_append, List.append_assoc, List.nil_append, List.forall_cons,
    List.forall_append, holds_typeKeyword, hasType_array, forall_optional, forall_flagged,
    holds_titled, holds_items, holds_minItems, holds_maxItems, holds_uniqueItems, hannotation,
    Json.arr.injEq, Json.int.injEq, forall_eq', exists_eq', exists_eq_left', List.forall_mem_map,
    List.length_map, List.pairwise_map, true_and, and_true, implies_true, forall_const]
  have hmin : ∀ m, a.spec.minItems = some m → (castInt64 m ≤ items.length ↔ m ≤ items.length) := by
    intro m hm
    rw [castInt64_of_lt (hsmall.min m hm), Nat.cast_le]
  have hmax : ∀ m, a.spec.maxItems = some m → (items.length ≤ castInt64 m ↔ items.length ≤ m) := by
    intro m hm
    rw [castInt64_of_lt (hsmall.max m hm), Nat.cast_le]
  constructor
  · rintro ⟨hitems, h1, h2, hunique⟩
    exact ⟨⟨fun m hm => (hmin m hm).mp (h1 m hm), fun m hm => (hmax m hm).mp (h2 m hm), hunique⟩,
      hitems⟩
  · rintro ⟨⟨h1, h2, hunique⟩, hitems⟩
    exact ⟨hitems, fun m hm => (hmin m hm).mpr (h1 m hm), fun m hm => (hmax m hm).mpr (h2 m hm),
      hunique⟩

/-- An array's schema asks for a sequence, for its counts, and for its items. -/
theorem valid_emitArray {a : Array} (hsmall : a.spec.SmallCounts) :
    Valid search (.obj (emitArray a)) n.toJson ↔
      ∃ items, n = .sequence items ∧ ItemsMet a items ∧
        ∀ m ∈ items, Valid search (.obj (emitDecl a.item)) m.toJson := by
  rw [emitArray_eq, valid_obj_iff (by simp [arrayKeywords, textKeyword])]
  constructor
  · intro h
    obtain ⟨values, hvalues⟩ := hasType_array.mp (holds_typeKeyword.mp
      ((List.forall_cons _ _ _).mp h).1)
    obtain ⟨items, rfl, -⟩ := toJson_eq_arr.mp hvalues
    rw [Node.toJson, itemsJson_eq] at h
    exact ⟨items, rfl, (holds_arrayKeywords hsmall).mp h⟩
  · rintro ⟨items, rfl, h⟩
    rw [Node.toJson, itemsJson_eq]
    exact (holds_arrayKeywords hsmall).mpr h

/-! ## Equal JSON values -/

theorem integer_of_i2cAddressOf {n : Node} {a : ℤ} (h : i2cAddressOf n.resolve = some a) :
    n.toJson.integer = some a ∨ ∃ s, n.resolve = .string s := by
  unfold i2cAddressOf at h
  split at h
  · next v hv =>
    obtain rfl := (inI2cRange_eq_some.mp h).1
    exact Or.inl (integerOf_eq_some.mp hv).1
  · next s _ hs => exact Or.inr ⟨s, hs⟩
  · exact absurd h (by simp)

/-- Scalars with the same JSON value have the same parsed value. -/
theorem parsedValue_eq_of_same {spec : Field.Spec} {n n' : Node} {v w : Parsed}
    (h : Json.Same n.toJson n'.toJson) (hv : parsedValue spec n.resolve = some v)
    (hw : parsedValue spec n'.resolve = some w) : v = w := by
  have hstring : ∀ s, n.resolve = .string s → v = w := by
    intro s hs
    rw [toJson_eq_str.mpr hs, Json.same_str, toJson_eq_str] at h
    rw [hs] at hv
    rw [h] at hw
    exact Option.some.inj (hv.symm.trans hw)
  unfold parsedValue at hv hw
  cases hkind : spec.kind <;> simp only [hkind] at hv hw
  case string =>
    cases hr : n.resolve with
    | string s => exact hstring s hr
    | _ => simp [hr] at hv
  case integer =>
    obtain ⟨i, hi, rfl⟩ := Option.map_eq_some_iff.mp hv
    obtain ⟨j, hj, rfl⟩ := Option.map_eq_some_iff.mp hw
    exact congrArg _ (integer_unique h.number_eq (integerOf_eq_some.mp hi).1
      (integerOf_eq_some.mp hj).1)
  case number =>
    obtain ⟨a, ha, hv⟩ := Option.bind_eq_some_iff.mp hv
    obtain ⟨b, hb, hw⟩ := Option.bind_eq_some_iff.mp hw
    obtain ⟨r, hr, hrv⟩ := Option.map_eq_some_iff.mp hv
    obtain ⟨s, hs, hsw⟩ := Option.map_eq_some_iff.mp hw
    subst hrv hsw
    rw [← double_toJson] at ha hb
    exact congrArg _ (double_unique h.number_eq ha hb hr hs)
  case boolean =>
    cases hr : n.resolve with
    | bool b =>
      rw [toJson_eq_bool.mpr hr, Json.same_bool, toJson_eq_bool] at h
      rw [hr] at hv
      rw [h] at hw
      exact Option.some.inj (hv.symm.trans hw)
    | _ => simp [hr] at hv
  case i2cAddress =>
    obtain ⟨a, ha, rfl⟩ := Option.map_eq_some_iff.mp hv
    obtain ⟨b, hb, rfl⟩ := Option.map_eq_some_iff.mp hw
    rcases integer_of_i2cAddressOf ha with hi | ⟨s, hs⟩
    · rcases integer_of_i2cAddressOf hb with hj | ⟨s, hs⟩
      · exact congrArg _ (integer_unique h.number_eq hi hj)
      · have hnumber := h.number_eq
        rw [number_of_integer hi, toJson_eq_str.mpr hs] at hnumber
        simp [Json.number] at hnumber
    · exact hstring s hs

end ProviderSdk.Config

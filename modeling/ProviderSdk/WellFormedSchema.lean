import ProviderSdk.Agreement
import ProviderSdk.CheckedTree
import ProviderSdk.Lib.SchemaForm

/-!
# Is the emitted schema well formed?

The keywords an emitter may add are a fixed list of distinct names, and it adds some of
them (`Named`), so an emitted schema has no keyword twice. The rest is up to the
declaration : its keys and values are distinct because a builder or the constructor of
`Schema` asked for it, except the keys of a conditional branch, which nothing looks at.
An item count is cast to `int64_t`, which nothing bounds.

`formed_emitDecl` says what an emitted schema asks of its own declaration and of those
directly below. `emitSchema_wellFormed_iff` collects it over the tree : the document is
well formed, with the declared counts, exactly when no branch lists a key twice and the
counts fit.
-/

namespace ProviderSdk.Config

open JsonSchema Relation

variable {stl : Stl}

/-! ## Names of keywords -/

/-- The names of some keywords are among `ks`, in that order. -/
def Named (ks : List String) (keywords : List (Text × Json)) : Prop :=
  (Json.keys keywords).Sublist (ks.map name)

namespace Named

variable {ks ls : List String} {as bs : List (Text × Json)}

theorem nodup (h : Named ks as) (hks : ks.Nodup) : (Json.keys as).Nodup :=
  List.Nodup.sublist h (hks.map fun _ _ hab => name_inj.mp hab)

theorem append (ha : Named ks as) (hb : Named ls bs) : Named (ks ++ ls) (as ++ bs) := by
  unfold Named Json.keys
  rw [List.map_append, List.map_append]
  exact List.Sublist.append ha hb

theorem cons (k : String) {v : Json} (ha : Named ks as) : Named (k :: ks) ((name k, v) :: as) :=
  List.Sublist.cons_cons _ ha

theorem nil : Named [] [] :=
  List.Sublist.refl _

theorem unlessEmpty {α : Type} (k : String) {l : List α} {v : Json} :
    Named [k] (unlessEmpty k l v) := by
  unfold Config.unlessEmpty
  split_ifs
  · exact List.nil_sublist _
  · exact nil.cons k

theorem optional {α : Type} (k : String) {o : Option α} {json : α → Json} :
    Named [k] (optional k o json) := by
  unfold Config.optional
  cases o with
  | none => exact List.nil_sublist _
  | some v => exact nil.cons k

theorem flagged (k : String) {flag : Bool} {v : Json} : Named [k] (flagged k flag v) := by
  unfold Config.flagged
  split_ifs
  · exact nil.cons k
  · exact List.nil_sublist _

theorem titled {title description : Bytes} :
    Named ["title", "description"] (titled title description) :=
  (unlessEmpty "title").append (unlessEmpty "description")

theorem commonSuffix {spec : Field.Spec} :
    Named ["x-anolis-placeholder", "x-anolis-unique"] (commonSuffix spec) :=
  (unlessEmpty "x-anolis-placeholder").append (flagged "x-anolis-unique")

theorem enumKeyword {values : List Field.EnumValue} :
    Named ["oneOf", "enum"] (enumKeyword values) := by
  unfold Config.enumKeyword
  split_ifs
  · exact (unlessEmpty "oneOf").trans (by simp)
  · exact (unlessEmpty "enum").trans (by simp)

end Named

/-- The keywords of a field's schema, of one kind or another. -/
def fieldKeywords : Field.Kind → List String
  | .string => ["type", "title", "description", "const", "oneOf", "enum", "pattern", "minLength",
      "not", "default", "x-anolis-placeholder", "x-anolis-unique"]
  | .integer => ["type", "title", "description", "minimum", "maximum", "default",
      "x-anolis-placeholder", "x-anolis-unique"]
  | .number => ["type", "title", "description", "minimum", "exclusiveMinimum", "maximum",
      "exclusiveMaximum", "default", "x-anolis-placeholder", "x-anolis-unique"]
  | .boolean => ["type", "title", "description", "default", "x-anolis-placeholder",
      "x-anolis-unique"]
  | .i2cAddress => ["title", "description", "anyOf", "default", "x-anolis-type",
      "x-anolis-placeholder", "x-anolis-unique"]

theorem named_emitField (spec : Field.Spec) : Named (fieldKeywords spec.kind) (emitField spec) := by
  unfold emitField
  cases spec.kind with
  | string =>
    exact ((((((Named.titled.cons "type").append (.optional "const")).append .enumKeyword).append
      (.optional "pattern")).append (.flagged "minLength")).append
        (.unlessEmpty "not")).append (.optional "default") |>.append .commonSuffix
  | integer =>
    exact ((((Named.titled.cons "type").append (.optional "minimum")).append
      (.optional "maximum")).append (.optional "default")).append .commonSuffix
  | number =>
    exact ((((((Named.titled.cons "type").append (.optional "minimum")).append
      (.optional "exclusiveMinimum")).append (.optional "maximum")).append
        (.optional "exclusiveMaximum")).append (.optional "default")).append .commonSuffix
  | boolean =>
    exact ((Named.titled.cons "type").append (.optional "default")).append .commonSuffix
  | i2cAddress =>
    exact (((Named.titled.append (Named.nil.cons "anyOf")).append (.optional "default")).append
      (Named.nil.cons "x-anolis-type")).append .commonSuffix

def arrayNames : List String :=
  ["type", "title", "description", "items", "minItems", "maxItems", "uniqueItems",
    "x-anolis-unique"]

theorem named_arrayKeywords {spec : Array.Spec} {items : Json} {unique : Bool} :
    Named arrayNames (arrayKeywords spec items unique) :=
  (((((Named.titled.cons "type").append (Named.nil.cons "items")).append
    (.optional "minItems")).append (.optional "maxItems")).append
      (.flagged "uniqueItems")).append (.flagged "x-anolis-unique")

def objectNames : List String :=
  ["type", "title", "description", "properties", "required", "additionalProperties",
    "dependentRequired", "allOf"]

theorem named_objectKeywords {spec : Object.Spec} {members : List Member}
    {properties : List (Text × Json)} {title description : Bytes} :
    Named objectNames (objectKeywords spec members properties title description) :=
  (((((Named.titled.cons "type").append (.unlessEmpty "properties")).append
    (.unlessEmpty "required")).append (.flagged "additionalProperties")).append
      (.unlessEmpty "dependentRequired")).append (.unlessEmpty "allOf")

/-! ## What each schema asks -/

theorem forall_titled_formed {title description : Bytes} :
    (titled title description).Forall fun p => Formed (Role.schema.member p.1) p.2 := by
  simp [Role.member]

theorem forall_commonSuffix_formed {spec : Field.Spec} :
    (commonSuffix spec).Forall fun p => Formed (Role.schema.member p.1) p.2 := by
  simp [commonSuffix, List.forall_append, Role.member]

/-- The alternatives of a titled enumeration. -/
theorem formed_enumKeyword {values : List Field.EnumValue}
    (hnd : (values.map Field.EnumValue.value).Nodup) :
    (enumKeyword values).Forall fun p => Formed (Role.schema.member p.1) p.2 := by
  unfold enumKeyword
  split_ifs
  · rw [forall_unlessEmpty]
    intro _
    have hrole : Role.schema.member (name "oneOf") = .schemas := by simp [Role.member]
    rw [hrole, formed_schemas, List.forall_mem_map]
    intro ev _
    rw [formed_schema, List.forall_cons, forall_unlessEmpty]
    exact ⟨((Named.unlessEmpty "title").cons "const").nodup (by decide), by simp [Role.member],
      by simp [Role.member]⟩
  · rw [forall_unlessEmpty]
    intro _
    have hrole : Role.schema.member (name "enum") = .values := by simp [Role.member]
    rw [hrole, texts, formed_values]
    exact hnd

theorem formed_notKeyword {values : List Field.ForbiddenValue}
    (hnd : (values.map Field.ForbiddenValue.value).Nodup) :
    (notKeyword values).Forall fun p => Formed (Role.schema.member p.1) p.2 := by
  have hrole : Role.schema.member (name "not") = .schema := by simp [Role.member]
  unfold notKeyword
  rw [forall_unlessEmpty, hrole, formed_schema]
  intro _
  split
  · simp [Role.member, Json.keys]
  · have hvalues : Role.schema.member (name "enum") = .values := by simp [Role.member]
    rw [List.forall_cons, hvalues, texts, formed_values]
    exact ⟨by simp [Json.keys], hnd, trivial⟩

/-- A field's schema is well formed, since its values are distinct. -/
theorem formed_emitField (f : Field) : Formed .schema (.obj (emitField f.spec)) := by
  have hnames : (fieldKeywords f.spec.kind).Nodup := by cases f.spec.kind <;> decide
  rw [formed_schema]
  refine ⟨(named_emitField f.spec).nodup hnames, ?_⟩
  unfold emitField
  rw [List.forall_append]
  refine ⟨?_, forall_commonSuffix_formed⟩
  cases f.spec.kind with
  | string =>
    simp only [List.cons_append, List.append_assoc, List.forall_cons, List.forall_append,
      forall_optional, forall_flagged]
    exact ⟨by simp [textKeyword, Role.member], forall_titled_formed, by simp [Role.member],
      formed_enumKeyword f.built.enumValues_nodup, by simp [Role.member], by simp [Role.member],
      formed_notKeyword f.built.forbiddenValues_nodup, by simp [Role.member]⟩
  | integer =>
    simp only [List.cons_append, List.append_assoc, List.forall_cons, List.forall_append,
      forall_optional]
    exact ⟨by simp [textKeyword, Role.member], forall_titled_formed, by simp [Role.member],
      by simp [Role.member], by simp [Role.member]⟩
  | number =>
    simp only [List.cons_append, List.append_assoc, List.forall_cons, List.forall_append,
      forall_optional]
    exact ⟨by simp [textKeyword, Role.member], forall_titled_formed, by simp [Role.member],
      by simp [Role.member], by simp [Role.member], by simp [Role.member], by simp [Role.member]⟩
  | boolean =>
    simp only [List.cons_append, List.forall_cons, List.forall_append, forall_optional]
    exact ⟨by simp [textKeyword, Role.member], forall_titled_formed, by simp [Role.member]⟩
  | i2cAddress =>
    simp only [List.append_assoc, List.forall_append, forall_optional]
    exact ⟨forall_titled_formed, by simp [Role.member, addressBranches, textKeyword, Json.keys],
      by simp [Role.member], by simp [textKeyword, Role.member]⟩

theorem formed_arrayKeywords {spec : Array.Spec} {items : Json} {unique : Bool} :
    Formed .schema (.obj (arrayKeywords spec items unique)) ↔
      Formed .schema items ∧ (∀ n, spec.minItems = some n → 0 ≤ castInt64 n) ∧
        ∀ n, spec.maxItems = some n → 0 ≤ castInt64 n := by
  rw [formed_schema, and_iff_right (named_arrayKeywords.nodup (by decide))]
  unfold arrayKeywords
  simp only [List.cons_append, List.append_assoc, List.forall_cons, List.forall_append,
    forall_optional, forall_flagged]
  rw [and_iff_right (by simp [textKeyword, Role.member]), and_iff_right forall_titled_formed]
  simp [Role.member]

/-- An empty list has nothing to repeat. -/
theorem nodup_of_ne_nil {l : List Bytes} : (l ≠ [] → l.Nodup) ↔ l.Nodup := by
  refine ⟨fun h => ?_, fun h _ => h⟩
  by_cases hnil : l = []
  · rw [hnil]
    exact List.nodup_nil
  · exact h hnil

theorem formed_texts {values : List Bytes} : Formed .names (texts values) ↔ values.Nodup :=
  formed_names

theorem member_schema : Role.schema.member (name "if") = .schema ∧
    Role.schema.member (name "then") = .schema ∧
    Role.schema.member (name "required") = .names ∧
    Role.schema.member (name "properties") = .properties ∧
    Role.schema.member (name "dependentRequired") = .dependents ∧
    Role.schema.member (name "allOf") = .schemas := by
  simp [Role.member]

/-- A branch's keys are what nothing has checked. -/
theorem formed_emitConditional {c : Object.Conditional} :
    Formed .schema (emitConditional c) ↔
      c.branch.requireKeys.Nodup ∧ c.branch.forbidKeys.Nodup := by
  obtain ⟨hrif, hrthen, hrrequired, hrproperties, -⟩ := member_schema
  have hif : Formed .schema (.obj
      [(name "properties", .obj [(c.key, .obj [(name "const", .str c.equals)])]),
        (name "required", texts [c.key])]) := by
    have hconst : Formed .schema (.obj [(name "const", .str c.equals)]) := by
      simp [Json.keys, Role.member]
    rw [formed_schema, List.forall_cons, List.forall_cons, hrrequired, hrproperties,
      formed_properties, formed_texts]
    exact ⟨by simp [Json.keys], ⟨by simp [Json.keys], by simpa using hconst⟩,
      List.nodup_singleton _, trivial⟩
  have hforbid : Json.keys (c.branch.forbidKeys.map fun key => (key, Json.bool false)) =
      c.branch.forbidKeys := by
    simp [Json.keys, Function.comp_def]
  have hnames : Named ["required", "properties"]
      (unlessEmpty "required" c.branch.requireKeys (texts c.branch.requireKeys) ++
        unlessEmpty "properties" c.branch.forbidKeys
          (.obj (c.branch.forbidKeys.map fun key => (key, .bool false)))) :=
    (Named.unlessEmpty "required").append (Named.unlessEmpty "properties")
  have hfalse : ∀ p ∈ c.branch.forbidKeys.map fun key => (key, Json.bool false),
      Formed .schema p.2 := by
    simp
  rw [emitConditional, formed_schema, List.forall_cons, List.forall_cons, hrif, hrthen,
    and_iff_right hif, formed_schema, and_iff_right (hnames.nodup (by decide)),
    List.forall_append, forall_unlessEmpty, forall_unlessEmpty, hrrequired, hrproperties]
  simp only [formed_texts, formed_properties, hforbid, and_iff_left hfalse, nodup_of_ne_nil]
  simp [Json.keys]

/-- The keys of an object are distinct by construction, and those of its dependencies because
they passed. -/
theorem formed_objectKeywords {pre : List (Text × Json)} {o : Object} {title description : Bytes}
    (hpre : Named ["$schema", "$id"] pre)
    (hformed : pre.Forall fun p => Formed (Role.schema.member p.1) p.2)
    (hdistinct : (o.members.map Member.key).Nodup) (hsound : o.Sound) :
    Formed .schema (.obj
        (pre ++ objectKeywords o.spec o.members (emitMembers o.members) title description)) ↔
      (∀ c ∈ o.spec.conditionals, c.branch.requireKeys.Nodup ∧ c.branch.forbidKeys.Nodup) ∧
        ∀ m ∈ o.members, Formed .schema (.obj (emitMember m)) := by
  obtain ⟨-, -, hrrequired, hrproperties, hrdependents, hrallOf⟩ := member_schema
  have hproperties : (emitMembers o.members ≠ [] →
      Formed .properties (.obj (emitMembers o.members))) ↔
        ∀ m ∈ o.members, Formed .schema (.obj (emitMember m)) := by
    rw [formed_properties, keys_emitMembers, and_iff_right hdistinct, emitMembers_eq,
      List.forall_mem_map, ne_eq, List.map_eq_nil_iff, forall_of_ne_nil]
  have hrequired : (requiredKeys o.members).Nodup :=
    List.Nodup.sublist (List.filter_sublist.map Member.key) hdistinct
  have hdependents : Formed .dependents
      (.obj (o.spec.dependentRequired.map fun d => (d.key, texts d.alsoRequired))) := by
    rw [formed_dependents, List.forall_mem_map]
    refine ⟨?_, fun d hd => formed_texts.mpr (hsound.dependents d hd).nodup⟩
    rw [Json.keys, List.map_map]
    exact hsound.dependents_nodup
  have hconditionals : (o.spec.conditionals ≠ [] →
      Formed .schemas (.arr (o.spec.conditionals.map emitConditional))) ↔
        ∀ c ∈ o.spec.conditionals, c.branch.requireKeys.Nodup ∧ c.branch.forbidKeys.Nodup := by
    simp only [formed_schemas, List.forall_mem_map, formed_emitConditional, ne_eq,
      forall_of_ne_nil]
  rw [formed_schema, and_iff_right ((hpre.append named_objectKeywords).nodup (by decide)),
    List.forall_append, and_iff_right hformed]
  unfold objectKeywords
  simp only [List.cons_append, List.append_assoc, List.forall_cons, List.forall_append,
    forall_unlessEmpty, forall_flagged, hrrequired, hrproperties, hrdependents, hrallOf,
    hproperties, hconditionals]
  constructor
  · rintro ⟨-, -, hmembers, -, -, -, hbranches⟩
    exact ⟨hbranches, hmembers⟩
  · rintro ⟨hbranches, hmembers⟩
    exact ⟨by simp [textKeyword, Role.member], forall_titled_formed, hmembers,
      fun _ => formed_texts.mpr hrequired, fun _ => by simp [Role.member], fun _ => hdependents,
      hbranches⟩

/-! ## The tree -/

/-- What the emitted schema of a declaration asks of the declaration itself. -/
def Decl.OwnFormed : Decl → Prop
  | .field _ => True
  | .object o => ∀ c ∈ o.spec.conditionals,
      c.branch.requireKeys.Nodup ∧ c.branch.forbidKeys.Nodup
  | .array a => (∀ n, a.spec.minItems = some n → 0 ≤ castInt64 n) ∧
      ∀ n, a.spec.maxItems = some n → 0 ≤ castInt64 n

/-- An emitted schema is well formed if its declaration, and those directly below, allow it. -/
theorem formed_emitDecl (d : Decl) (hd : d.Distinct ∧ d.Checked stl) :
    Formed .schema (.obj (emitDecl d)) ↔
      d.OwnFormed ∧ ∀ c, Part d c → Formed .schema (.obj (emitDecl c)) := by
  cases d with
  | field f =>
    refine iff_of_true (formed_emitField f) ⟨trivial, ?_⟩
    rintro c ⟨⟩
  | object o =>
    have hparts : (∀ c, Part (.object o) c → Formed .schema (.obj (emitDecl c))) ↔
        ∀ m ∈ o.members, Formed .schema (.obj (emitMember m)) := by
      refine ⟨fun h m hm => emitMember_eq ▸ h m.decl (.member hm), ?_⟩
      rintro h c ⟨hm⟩
      exact emitMember_eq ▸ h _ hm
    obtain ⟨spec, members⟩ := o
    rw [hparts, emitDecl, emitObject]
    exact @formed_objectKeywords [] ⟨spec, members⟩ _ _ (List.nil_sublist _) trivial
      (Object.distinct_iff.mp hd.1).1 (sound_of_checked hd.2)
  | array a =>
    have hparts : (∀ c, Part (.array a) c → Formed .schema (.obj (emitDecl c))) ↔
        Formed .schema (.obj (emitDecl a.item)) := by
      refine ⟨fun h => h a.item (.item a), ?_⟩
      rintro h c ⟨⟩
      exact h
    rw [hparts, emitDecl, emitArray_eq, formed_arrayKeywords, and_comm]
    rfl

/-- Apart from its title, a document asks what its root's schema asks. -/
theorem formed_emitSchema (schema : Schema stl) :
    Formed .schema (.obj (emitSchema schema)) ↔
      Formed .schema (.obj (emitDecl (.object schema.root))) := by
  have hdistinct := (Object.distinct_iff.mp schema.distinct).1
  have hsound := sound_of_checked schema.checked_root
  have hpre : Named ["$schema", "$id"]
      (textKeyword "$schema" "https://json-schema.org/draft/2020-12/schema" ::
        optional "$id" schema.schemaId .str) :=
    (Named.optional "$id").cons "$schema"
  have hformed : (textKeyword "$schema" "https://json-schema.org/draft/2020-12/schema" ::
      optional "$id" schema.schemaId .str).Forall
        fun p => Formed (Role.schema.member p.1) p.2 := by
    rw [List.forall_cons, forall_optional]
    simp [textKeyword, Role.member]
  unfold emitSchema emitDecl
  generalize schema.root = root at *
  obtain ⟨spec, members⟩ := root
  simp only [emitObject]
  rw [formed_objectKeywords hpre hformed hdistinct hsound]
  exact (@formed_objectKeywords [] ⟨spec, members⟩ _ _ (List.nil_sublist _) trivial hdistinct
    hsound).symm

/-- A document is well formed exactly when every declaration allows it. -/
theorem formed_emitSchema_iff (schema : Schema stl) :
    Formed .schema (.obj (emitSchema schema)) ↔
      ∀ d, Within (.object schema.root) d → d.OwnFormed := by
  rw [formed_emitSchema]
  have hinv : ∀ d c : Decl, (d.Distinct ∧ d.Checked stl) → Part d c → c.Distinct ∧ c.Checked stl :=
    fun d c hd h => ⟨distinct_of_part d c hd.1 h, checked_of_part d c hd.2 h⟩
  exact Walk.holds_iff wellFounded_part hinv formed_emitDecl ⟨schema.distinct, schema.checked_root⟩

/-! ## Where each declaration is -/

/-- The schema of the declaration `c` that is below `d` in the schema of `d`. -/
inductive Placed : Decl → Json → Decl → Json → Prop
  | here (d : Decl) (v : Json) : Placed d v d v
  | member {o : Object} {fields properties : List (Text × Json)} {m : Member} {v x : Json}
      {c : Decl} (hm : m ∈ o.members)
      (hp : Json.field fields (name "properties") = some (.obj properties))
      (hv : Json.field properties m.key = some v) (h : Placed m.decl v c x) :
      Placed (.object o) (.obj fields) c x
  | item {a : Array} {fields : List (Text × Json)} {v x : Json} {c : Decl}
      (hv : Json.field fields (name "items") = some v) (h : Placed a.item v c x) :
      Placed (.array a) (.obj fields) c x

section

variable {α : Type} {key : String} {value : Json} {k : String}

theorem field_nil {key : Bytes} : Json.field [] key = none :=
  rfl

theorem field_unlessEmpty {l : List α} : Json.field (unlessEmpty key l value) (name k) =
    if key = k ∧ l ≠ [] then some value else none := by
  unfold unlessEmpty
  cases l with
  | nil => simp [field_nil]
  | cons a l => simp [Json.field_cons, field_nil]

theorem field_optional {o : Option α} {json : α → Json} :
    Json.field (optional key o json) (name k) = if key = k then o.map json else none := by
  unfold optional
  cases o with
  | none => simp [field_nil]
  | some v => simp [Json.field_cons, field_nil]

theorem field_flagged {flag : Bool} : Json.field (flagged key flag value) (name k) =
    if key = k ∧ flag = true then some value else none := by
  unfold flagged
  cases flag <;> simp [Json.field_cons, field_nil]

end

/-- The count keywords of an array's schema. -/
theorem field_emitArray (a : Array) :
    Json.field (emitArray a) (name "minItems") =
        a.spec.minItems.map (fun n => Json.int (castInt64 n)) ∧
      Json.field (emitArray a) (name "maxItems") =
        a.spec.maxItems.map (fun n => Json.int (castInt64 n)) := by
  rw [emitArray_eq]
  unfold arrayKeywords titled
  simp [textKeyword, Json.field_append, Json.field_cons, field_unlessEmpty, field_optional,
    field_flagged]

/-- `minLength` is there for a non-empty field, which asks for one character. -/
theorem field_emitField (f : Field) : Json.field (emitField f.spec) (name "minLength") =
    if f.spec.nonEmpty then some (.int 1) else none := by
  by_cases hkind : f.spec.kind = .string
  · unfold emitField titled enumKeyword notKeyword commonSuffix
    rw [hkind]
    split_ifs <;> simp_all [textKeyword, Json.field_append, Json.field_cons, field_unlessEmpty,
      field_optional, field_flagged]
  · rw [(f.built.string_only hkind).1, if_neg Bool.false_ne_true, Json.field_eq_none]
    intro hmem
    have hnamed := (named_emitField f.spec).subset hmem
    obtain ⟨k, hk, hname⟩ := List.mem_map.mp hnamed
    obtain rfl := name_inj.mp hname
    revert hk
    cases hk' : f.spec.kind <;> simp_all [fieldKeywords]

/-- The members of an object's schema. -/
theorem field_emitMembers {m : Member} : ∀ {ms : List Member}, (ms.map Member.key).Nodup → m ∈ ms →
    Json.field (emitMembers ms) m.key = some (.obj (emitDecl m.decl))
  | n :: ms, hnd, hmem => by
    obtain ⟨hn, hnd⟩ := List.nodup_cons.mp hnd
    rw [emitMembers, Json.field_cons]
    rcases List.mem_cons.mp hmem with rfl | hmem
    · rw [if_pos rfl, emitMember_eq]
    · have hne : n.key ≠ m.key := fun heq => hn (heq ▸ List.mem_map_of_mem hmem)
      rw [if_neg hne, field_emitMembers hnd hmem]

/-- A value is the schema of a declaration, or has its properties. -/
def Decl.Matches : Decl → Json → Prop
  | .object o, v => ∃ fields, v = .obj fields ∧ Json.field fields (name "properties") =
      if o.members = [] then none else some (.obj (emitMembers o.members))
  | d, v => v = .obj (emitDecl d)

theorem matches_objectKeywords {pre : List (Text × Json)} {spec : Object.Spec}
    {members : List Member} {title description : Bytes} (hpre : Named ["$schema", "$id"] pre) :
    (Decl.object ⟨spec, members⟩).Matches
      (.obj (pre ++ objectKeywords spec members (emitMembers members) title description)) := by
  have hnone : Json.field pre (name "properties") = none := by
    rw [Json.field_eq_none]
    intro hmem
    have := hpre.subset hmem
    simp at this
  refine ⟨_, rfl, ?_⟩
  unfold objectKeywords titled
  rw [Json.field_append, hnone, emitMembers_eq]
  simp [textKeyword, Json.field_append, Json.field_cons, field_unlessEmpty, field_flagged]

theorem matches_emitDecl (d : Decl) : d.Matches (.obj (emitDecl d)) := by
  cases d with
  | field f => rfl
  | array a => rfl
  | object o =>
    obtain ⟨spec, members⟩ := o
    rw [emitDecl, emitObject]
    exact @matches_objectKeywords [] _ _ _ _ (List.nil_sublist _)

theorem matches_emitSchema (schema : Schema stl) :
    (Decl.object schema.root).Matches (.obj (emitSchema schema)) := by
  have hpre : Named ["$schema", "$id"]
      (textKeyword "$schema" "https://json-schema.org/draft/2020-12/schema" ::
        optional "$id" schema.schemaId .str) :=
    (Named.optional "$id").cons "$schema"
  unfold emitSchema
  generalize schema.root = root
  obtain ⟨spec, members⟩ := root
  rw [emitObject]
  exact matches_objectKeywords hpre

theorem field_items (a : Array) :
    Json.field (emitArray a) (name "items") = some (.obj (emitDecl a.item)) := by
  rw [emitArray_eq]
  unfold arrayKeywords titled
  simp [textKeyword, Json.field_append, Json.field_cons, field_unlessEmpty]

/-- What is placed in a schema is below its declaration, and is its own schema. -/
theorem within_of_placed {d c : Decl} {v x : Json} (h : Placed d v c x) :
    d.Distinct → d.Matches v → Within d c ∧ c.Matches x := by
  induction h with
  | here d v => exact fun _ hv => ⟨.refl, hv⟩
  | @member o fields properties m v x c hm hp hv h ih =>
    rintro hd ⟨fields', hfields, hproperties⟩
    obtain rfl := Json.obj.inj hfields
    rw [hp, if_neg (List.ne_nil_of_mem hm)] at hproperties
    obtain rfl := Json.obj.inj (Option.some.inj hproperties)
    rw [field_emitMembers (Object.distinct_iff.mp hd).1 hm] at hv
    obtain rfl := Option.some.inj hv
    have hpart := Part.member hm
    obtain ⟨hwithin, hx⟩ := ih (distinct_of_part _ _ hd hpart) (matches_emitDecl m.decl)
    exact ⟨.head hpart hwithin, hx⟩
  | @item a fields v x c hv h ih =>
    intro hd hfields
    obtain rfl := Json.obj.inj hfields
    rw [emitDecl, field_items] at hv
    obtain rfl := Option.some.inj hv
    obtain ⟨hwithin, hx⟩ := ih (distinct_of_part _ _ hd (.item a)) (matches_emitDecl a.item)
    exact ⟨.head (.item a) hwithin, hx⟩

/-- Every declaration below one is placed in its schema. -/
theorem exists_placed {d c : Decl} (h : Within d c) :
    ∀ {v : Json}, d.Distinct → d.Matches v → ∃ x, Placed d v c x := by
  induction h using ReflTransGen.head_induction_on with
  | refl => exact fun _ _ => ⟨_, .here c _⟩
  | head hpart _ ih =>
    intro v hd hv
    obtain ⟨x, hx⟩ := ih (distinct_of_part _ _ hd hpart) (matches_emitDecl _)
    cases hpart with
    | @member o m hm =>
      obtain ⟨fields, rfl, hproperties⟩ := hv
      rw [if_neg (List.ne_nil_of_mem hm)] at hproperties
      exact ⟨x, .member hm hproperties (field_emitMembers (Object.distinct_iff.mp hd).1 hm) hx⟩
    | item a =>
      obtain rfl : v = .obj (emitArray a) := hv
      exact ⟨x, .item (field_items a) hx⟩

/-! ## The document -/

/-- The emitted document is well formed, and its counts are the declared ones. -/
structure Schema.WellFormed (schema : Schema stl) : Prop where
  formed : Formed .schema (.obj (emitSchema schema))
  lengths : ∀ f x, Placed (.object schema.root) (.obj (emitSchema schema)) (.field f) x →
    ∃ fields, x = .obj fields ∧ Json.field fields (name "minLength") =
      if f.spec.nonEmpty then some (.int 1) else none
  counts : ∀ a x, Placed (.object schema.root) (.obj (emitSchema schema)) (.array a) x →
    ∃ fields, x = .obj fields ∧
      Json.field fields (name "minItems") = a.spec.minItems.map (fun n => Json.int n) ∧
      Json.field fields (name "maxItems") = a.spec.maxItems.map (fun n => Json.int n)

/-- No branch requires or forbids a key twice, and the item counts fit `int64_t`. -/
structure Schema.Tidy (schema : Schema stl) : Prop where
  branches : ∀ o, Within (.object schema.root) (.object o) → ∀ c ∈ o.spec.conditionals,
    c.branch.requireKeys.Nodup ∧ c.branch.forbidKeys.Nodup
  counts : ∀ a, Within (.object schema.root) (.array a) → a.spec.SmallCounts

theorem castInt64_eq_iff {n : ℕ} : castInt64 n = n ↔ n < 2 ^ 63 := by
  unfold castInt64
  split_ifs <;> omega

theorem map_castInt64_eq_iff {o : Option ℕ} :
    o.map (fun n => Json.int (castInt64 n)) = o.map (fun n => Json.int n) ↔
      ∀ n, o = some n → n < 2 ^ 63 := by
  cases o with
  | none => simp
  | some n => simp [castInt64_eq_iff]

theorem counts_iff {a : Array} :
    (Json.field (emitArray a) (name "minItems") = a.spec.minItems.map (fun n => Json.int n) ∧
      Json.field (emitArray a) (name "maxItems") = a.spec.maxItems.map (fun n => Json.int n)) ↔
        a.spec.SmallCounts := by
  rw [(field_emitArray a).1, (field_emitArray a).2, map_castInt64_eq_iff, map_castInt64_eq_iff]
  exact ⟨fun h => ⟨h.1, h.2⟩, fun h => ⟨h.min, h.max⟩⟩

theorem ownFormed_of_smallCounts {a : Array} (h : a.spec.SmallCounts) :
    (Decl.array a).OwnFormed := by
  refine ⟨fun n hn => ?_, fun n hn => ?_⟩
  · rw [castInt64_of_lt (h.min n hn)]
    omega
  · rw [castInt64_of_lt (h.max n hn)]
    omega

/-- The emitted document is well formed exactly when the declaration is tidy. -/
theorem emitSchema_wellFormed_iff (schema : Schema stl) : schema.WellFormed ↔ schema.Tidy := by
  have hmatches := matches_emitSchema schema
  constructor
  · intro h
    have hown := (formed_emitSchema_iff schema).mp h.formed
    refine ⟨fun o ho => hown (.object o) ho, fun a ha => ?_⟩
    obtain ⟨x, hx⟩ := exists_placed ha schema.distinct hmatches
    obtain ⟨fields, rfl, hcounts⟩ := h.counts a x hx
    obtain ⟨-, hfields⟩ := within_of_placed hx schema.distinct hmatches
    obtain rfl := Json.obj.inj hfields
    exact counts_iff.mp hcounts
  · intro h
    refine ⟨(formed_emitSchema_iff schema).mpr fun d hd => ?_, fun f x hx => ?_, fun a x hx => ?_⟩
    · cases d with
      | field f => trivial
      | object o => exact h.branches o hd
      | array a => exact ownFormed_of_smallCounts (h.counts a hd)
    · obtain ⟨-, rfl⟩ := within_of_placed hx schema.distinct hmatches
      exact ⟨_, rfl, field_emitField f⟩
    · obtain ⟨ha, rfl⟩ := within_of_placed hx schema.distinct hmatches
      exact ⟨_, rfl, counts_iff.mpr (h.counts a ha)⟩

/-- A schema of an accepted root. -/
def schemaOf (root : Object) (hdistinct : root.Distinct)
    (hchecked : checkObject Stl.exact root (lit "root") false = .ok ()) : Schema Stl.exact where
  root := root
  distinct := hdistinct
  checked := hchecked
  texts_utf8 := isValidUtf8_of_none

/-- The mode `manual` requires `addresses`, `times` times. -/
def requiringRoot (times : ℕ) : Object :=
  { smallRoot with
    spec := { openness := .closed,
              conditionals := [⟨lit "mode", lit "manual",
                ⟨List.replicate times (lit "addresses"), []⟩⟩] } }

theorem distinct_requiringRoot (times : ℕ) : (requiringRoot times).Distinct :=
  distinct_smallRoot

theorem checkObject_requiringRoot_two :
    checkObject Stl.exact (requiringRoot 2) (lit "root") false = .ok () := by
  rfl

/-- An array of at least `minItems` addresses. -/
def countedRoot (minItems : ℕ) : Object :=
  ⟨{ openness := .closed },
    [.array (lit "addresses") false (.scalars addressField false { minItems := some minItems })]⟩

theorem distinct_countedRoot (minItems : ℕ) : (countedRoot minItems).Distinct := by
  simp [countedRoot, Object.Distinct, membersDistinct, Member.Distinct, Array.Distinct]

theorem checkObject_countedRoot (minItems : ℕ) :
    checkObject Stl.exact (countedRoot minItems) (lit "root") false = .ok () := by
  rfl

/-- Requiring a key twice is accepted, and so is a count of 2^63. The first emits a `required`
with a name twice, the second a negative `minItems`. -/
theorem emitSchema_not_wellFormed :
    ¬(schemaOf (requiringRoot 2) (distinct_requiringRoot 2)
        checkObject_requiringRoot_two).WellFormed ∧
      ¬(schemaOf (countedRoot (2 ^ 63)) (distinct_countedRoot _)
        (checkObject_countedRoot _)).WellFormed := by
  constructor
  · intro h
    have hown := (formed_emitSchema_iff _).mp h.formed _ .refl
    have hnd := (hown _ (List.mem_singleton.mpr rfl)).1
    exact absurd hnd (by simp)
  · intro h
    have hown := (formed_emitSchema_iff _).mp h.formed _
      (.single (.member (List.mem_singleton.mpr rfl)))
    have hnonneg := hown.1 _ rfl
    exact absurd hnonneg (by decide)

end ProviderSdk.Config

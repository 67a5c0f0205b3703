import ProviderSdk.SchemaText
import ProviderSdk.WellFormedSchema
import Mathlib.Data.Nat.Prime.Basic

/-!
# The schema envelope

`config_schema_envelope` of `src/anolis/provider_sdk/config.cpp` : a version, the
provider's name, the extra entries and the schema, as one JSON text.

`writable_emitSchema` says that no text and no number of a declaration reaches the writer
unchecked. So the envelope is read back as what was declared (`configSchemaEnvelope_parses`).
-/

namespace ProviderSdk.Config

open JsonSchema JsonText Utf8 Floating Numeral

variable {stl : Stl}

/-! ## The documents -/

def toJsonSchema {stl : Stl} (schema : Schema stl) : Bytes :=
  serialize stl (.obj (emitSchema schema))

def kConfigSchemaVersion : ℤ := 1

structure EnvelopeOptions where
  providerName : Bytes := []
  extraStringEntries : List (Bytes × Bytes) := []

/-- The loop over the extra entries. -/
def addExtraEntries : List (Text × Json) → List (Bytes × Bytes) →
    Except LogicError (List (Text × Json))
  | envelope, [] => .ok envelope
  | envelope, (key, value) :: entries =>
    if !isValidUtf8 key || !isValidUtf8 value then
      .error (lit "config schema envelope: extra entry '" ++ key ++ lit "' is not valid UTF-8")
    else if key = lit "config_schema_version" || key = lit "schema" || key = lit "provider" then
      .error (lit "config schema envelope: extra entry '" ++ key ++
        lit "' collides with a reserved key")
    else if key ∈ Json.keys envelope then
      .error (lit "config schema envelope: duplicate extra entry '" ++ key ++ lit "'")
    else addExtraEntries (envelope ++ [(key, .str value)]) entries

/-- The members before the extra entries. -/
def envelopeHead (providerName : Bytes) : Except LogicError (List (Text × Json)) :=
  if providerName = [] then .ok [(name "config_schema_version", .int kConfigSchemaVersion)]
  else if !isValidUtf8 providerName then
    .error (lit "config schema envelope: provider_name is not valid UTF-8")
  else .ok [(name "config_schema_version", .int kConfigSchemaVersion),
    (name "provider", .str providerName)]

/-- The tree that `config_schema_envelope` builds. -/
def envelopeTree {stl : Stl} (schema : Schema stl) (options : EnvelopeOptions) :
    Except LogicError (List (Text × Json)) := do
  let head ← envelopeHead options.providerName
  let envelope ← addExtraEntries head options.extraStringEntries
  .ok (envelope ++ [(name "schema", .obj (emitSchema schema))])

def configSchemaEnvelope {stl : Stl} (schema : Schema stl) (options : EnvelopeOptions) :
    Except LogicError Bytes := do
  let envelope ← envelopeTree schema options
  .ok (serialize stl (.obj envelope))

/-! ## What the checks give -/

@[simp] theorem writable_str {s : Bytes} : Writable (.str s) ↔ isValidUtf8 s = true := Iff.rfl

@[simp] theorem writable_int (i : ℤ) : Writable (.int i) := trivial

@[simp] theorem writable_bool (b : Bool) : Writable (.bool b) := trivial

@[simp] theorem writable_num {v : Double} : Writable (.num v) ↔ v.isFinite = true := Iff.rfl

@[simp] theorem writable_arr {items : List Json} :
    Writable (.arr items) ↔ ∀ v ∈ items, Writable v :=
  itemsWritable_iff

theorem writable_obj {fields : List (Text × Json)} : Writable (.obj fields) ↔
    fields.Forall fun p => isValidUtf8 p.1 = true ∧ Writable p.2 :=
  fieldsWritable_iff

theorem writable_texts {values : List Bytes} :
    Writable (texts values) ↔ ∀ v ∈ values, isValidUtf8 v = true := by
  simp [texts]

/-- The members of a writable object. -/
abbrev MembersWritable (fields : List (Text × Json)) : Prop :=
  fields.Forall fun p => isValidUtf8 p.1 = true ∧ Writable p.2

theorem membersWritable_titled {title description : Bytes} (ht : isValidUtf8 title = true)
    (hd : isValidUtf8 description = true) : MembersWritable (titled title description) := by
  simp [MembersWritable, ht, hd]

theorem membersWritable_enumKeyword {values : List Field.EnumValue}
    (h : ∀ ev ∈ values, isValidUtf8 ev.value = true ∧ isValidUtf8 ev.title = true) :
    MembersWritable (enumKeyword values) := by
  unfold MembersWritable enumKeyword
  split_ifs
  · rw [forall_unlessEmpty, writable_arr, List.forall_mem_map]
    refine fun _ => ⟨isValidUtf8_name _, fun ev hev => ?_⟩
    rw [writable_obj, List.forall_cons, forall_unlessEmpty]
    exact ⟨⟨isValidUtf8_name _, (h ev hev).1⟩, fun _ => ⟨isValidUtf8_name _, (h ev hev).2⟩⟩
  · rw [forall_unlessEmpty, writable_texts, List.forall_mem_map]
    exact fun _ => ⟨isValidUtf8_name _, fun ev hev => (h ev hev).1⟩

theorem membersWritable_notKeyword {values : List Field.ForbiddenValue}
    (h : ∀ forbidden ∈ values, isValidUtf8 forbidden.value = true) :
    MembersWritable (notKeyword values) := by
  unfold MembersWritable notKeyword
  rw [forall_unlessEmpty]
  refine fun _ => ⟨isValidUtf8_name _, ?_⟩
  split
  · simpa [writable_obj] using h
  · rw [writable_obj, List.forall_cons, writable_texts, List.forall_mem_map]
    exact ⟨⟨isValidUtf8_name _, h⟩, trivial⟩

theorem isValidUtf8_kI2cHexPattern : isValidUtf8 kI2cHexPattern = true :=
  isValidUtf8_lit _

/-- The texts of a field were checked, and its numbers are finite by construction. -/
theorem writable_emitField (f : Field) (h : f.spec.TextsValid) :
    Writable (.obj (emitField f.spec)) := by
  have htitled := membersWritable_titled h.title h.description
  have hsuffix : MembersWritable (commonSuffix f.spec) := by
    simp [MembersWritable, commonSuffix, List.forall_append, h.placeholder]
  rw [writable_obj]
  unfold emitField
  rw [List.forall_append]
  refine ⟨?_, hsuffix⟩
  cases f.spec.kind with
  | string =>
    simp only [List.cons_append, List.append_assoc, List.forall_cons, List.forall_append,
      forall_optional, forall_flagged]
    exact ⟨by simp [textKeyword], htitled, fun v hv => ⟨by simp, h.constValue v hv⟩,
      membersWritable_enumKeyword h.enumValues, fun v hv => ⟨by simp, h.pattern v hv⟩, by simp,
      membersWritable_notKeyword fun v hv => (h.forbiddenValues v hv).1,
      fun v hv => ⟨by simp, h.defaultString v hv⟩⟩
  | integer =>
    simp only [List.cons_append, List.append_assoc, List.forall_cons, List.forall_append,
      forall_optional]
    exact ⟨by simp [textKeyword], htitled, by simp, by simp, by simp⟩
  | number =>
    simp only [List.cons_append, List.append_assoc, List.forall_cons, List.forall_append,
      forall_optional]
    exact ⟨by simp [textKeyword], htitled, fun v hv => ⟨by simp, f.built.minNumber_finite v hv⟩,
      fun v hv => ⟨by simp, f.built.exclusiveMinNumber_finite v hv⟩,
      fun v hv => ⟨by simp, f.built.maxNumber_finite v hv⟩,
      fun v hv => ⟨by simp, f.built.exclusiveMaxNumber_finite v hv⟩,
      fun v hv => ⟨by simp, f.built.defaultNumber_finite v hv⟩⟩
  | boolean =>
    simp only [List.cons_append, List.forall_cons, List.forall_append, forall_optional]
    exact ⟨by simp [textKeyword], htitled, by simp⟩
  | i2cAddress =>
    simp only [List.append_assoc, List.forall_append, forall_optional]
    exact ⟨htitled, by simp [addressBranches, textKeyword, writable_obj,
      isValidUtf8_kI2cHexPattern], by simp, by simp [textKeyword]⟩

theorem membersWritable_arrayKeywords {spec : Array.Spec} {items : Json} {unique : Bool}
    (ht : isValidUtf8 spec.title = true) (hd : isValidUtf8 spec.description = true)
    (hitems : Writable items) : MembersWritable (arrayKeywords spec items unique) := by
  unfold MembersWritable arrayKeywords
  simp only [List.cons_append, List.append_assoc, List.forall_cons, List.forall_append,
    forall_optional, forall_flagged]
  exact ⟨by simp [textKeyword], membersWritable_titled ht hd, by simpa using hitems, by simp,
    by simp, by simp, by simp⟩

/-- The keys of a branch are keys of members, and its constant was checked. -/
theorem writable_emitConditional {o : Object} {seen : List (Bytes × Bytes)}
    {c : Object.Conditional} (hc : c.Sound o.members seen)
    (hkeys : ∀ key ∈ o.members.map Member.key, isValidUtf8 key = true) :
    Writable (emitConditional c) := by
  have hkey := hkeys c.key (mem_keys_of_stringScalar hc.discriminator)
  have hrequire : ∀ key ∈ c.branch.requireKeys, isValidUtf8 key = true :=
    fun key h => hkeys key (hc.require key h)
  have hforbid : ∀ key ∈ c.branch.forbidKeys, isValidUtf8 key = true :=
    fun key h => hkeys key (hc.forbid key h).1
  unfold emitConditional
  simp only [writable_obj, List.forall_cons, List.forall_append, forall_unlessEmpty,
    writable_texts]
  refine ⟨⟨by simp, ⟨by simp, ⟨hkey, ⟨by simp, hc.equals⟩, trivial⟩, trivial⟩, ⟨by simp, ?_⟩,
    trivial⟩, ⟨by simp, fun _ => ⟨by simp, hrequire⟩, fun _ => ⟨by simp, ?_⟩⟩, trivial⟩
  · simpa using hkey
  · rw [List.forall_iff_forall_mem, List.forall_mem_map]
    exact fun key h => ⟨hforbid key h, trivial⟩

theorem membersWritable_objectKeywords {o : Object} {title description : Bytes}
    (ht : isValidUtf8 title = true) (hd : isValidUtf8 description = true) (hsound : o.Sound)
    (hmembers : ∀ m ∈ o.members, Writable (.obj (emitMember m))) :
    MembersWritable
      (objectKeywords o.spec o.members (emitMembers o.members) title description) := by
  have hkeys : ∀ key ∈ o.members.map Member.key, isValidUtf8 key = true := by
    rw [List.forall_mem_map]
    exact hsound.members
  have hproperties : Writable (.obj (emitMembers o.members)) := by
    rw [writable_obj, emitMembers_eq, List.forall_iff_forall_mem, List.forall_mem_map]
    exact fun m hm => ⟨hsound.members m hm, hmembers m hm⟩
  have hrequired : ∀ key ∈ requiredKeys o.members, isValidUtf8 key = true := fun key h =>
    hkeys key (List.Sublist.subset (List.filter_sublist.map Member.key) h)
  have hdependents : Writable
      (.obj (o.spec.dependentRequired.map fun d => (d.key, texts d.alsoRequired))) := by
    rw [writable_obj, List.forall_iff_forall_mem, List.forall_mem_map]
    intro d hd
    have hdsound := hsound.dependents d hd
    exact ⟨hkeys _ hdsound.key, writable_texts.mpr fun k hk => hkeys k (hdsound.also k hk).1⟩
  have hconditionals : Writable (.arr (o.spec.conditionals.map emitConditional)) := by
    rw [writable_arr, List.forall_mem_map]
    intro c hc
    obtain ⟨seen, hcsound⟩ := hsound.conditionals c hc
    exact writable_emitConditional hcsound hkeys
  unfold MembersWritable objectKeywords
  simp only [List.cons_append, List.append_assoc, List.forall_cons, List.forall_append,
    forall_unlessEmpty, forall_flagged]
  exact ⟨by simp [textKeyword], membersWritable_titled ht hd, fun _ => ⟨by simp, hproperties⟩,
    fun _ => ⟨by simp, writable_texts.mpr hrequired⟩, by simp, fun _ => ⟨by simp, hdependents⟩,
    fun _ => ⟨by simp, hconditionals⟩⟩

/-- What is emitted for a declaration that passed its check is writable. -/
theorem writable_emitDecl (d : Decl) : d.Checked stl → Writable (.obj (emitDecl d)) := by
  induction d using wellFounded_part.induction with
  | _ d ih =>
    intro hd
    cases d with
    | field f =>
      obtain ⟨path, inArrayItem, h⟩ := hd
      exact writable_emitField f (textsValid_of_checkField h)
    | object o =>
      have hsound := sound_of_checked hd
      have hmembers : ∀ m ∈ o.members, Writable (.obj (emitMember m)) := by
        intro m hm
        rw [emitMember_eq]
        exact ih m.decl (.member hm) (checked_of_part _ _ hd (.member hm))
      obtain ⟨spec, members⟩ := o
      rw [writable_obj, emitDecl, emitObject]
      exact membersWritable_objectKeywords (o := ⟨spec, members⟩) hsound.title
        hsound.description hsound hmembers
    | array a =>
      have hitem := ih a.item (.item a) (checked_of_part _ _ hd (.item a))
      obtain ⟨path, h⟩ := hd
      obtain ⟨ht, hdesc⟩ := utf8_of_checkArray h
      rw [writable_obj, emitDecl, emitArray_eq]
      exact membersWritable_arrayKeywords ht hdesc hitem

/-- Whatever the constructor of a schema and its setters accepted is writable. -/
theorem writable_emitSchema (schema : Schema stl) : Writable (.obj (emitSchema schema)) := by
  have hroot := schema.checked_root
  have hsound := sound_of_checked hroot
  have hmembers : ∀ m ∈ schema.root.members, Writable (.obj (emitMember m)) := by
    intro m hm
    rw [emitMember_eq]
    exact writable_emitDecl _ (checked_of_part _ _ hroot (.member hm))
  have htitle : isValidUtf8 (schema.schemaTitle.getD schema.root.spec.title) = true := by
    cases h : schema.schemaTitle with
    | none => exact hsound.title
    | some text => exact schema.texts_utf8 text (.inr (.inl h))
  have hdescription :
      isValidUtf8 (schema.schemaDescription.getD schema.root.spec.description) = true := by
    cases h : schema.schemaDescription with
    | none => exact hsound.description
    | some text => exact schema.texts_utf8 text (.inr (.inr h))
  rw [writable_obj, emitSchema, List.forall_append, List.forall_cons, forall_optional]
  refine ⟨⟨by simp [textKeyword], fun text h => ⟨by simp, schema.texts_utf8 text (.inl h)⟩⟩, ?_⟩
  generalize schema.root = root at *
  obtain ⟨spec, members⟩ := root
  rw [emitObject]
  exact membersWritable_objectKeywords (o := ⟨spec, members⟩) htitle hdescription hsound hmembers

/-- The schema is one JSON text, and it reads as the emitted tree. -/
theorem toJsonSchema_derives (hformat : stl.RoundTrips) (schema : Schema stl) :
    ∃ v, Derives (toJsonSchema schema) v ∧ Reads v (.obj (emitSchema schema)) :=
  derives_serialize hformat (writable_emitSchema schema)

/-! ## The envelope is read back -/

/-- An envelope before its schema is added. -/
structure Unfinished (envelope : List (Text × Json)) : Prop where
  nodup : (Json.keys envelope).Nodup
  writable : MembersWritable envelope
  schema : name "schema" ∉ Json.keys envelope

/-- The members that an envelope should have : the version, the provider if it has a name, the
extra entries in their order, and the schema. -/
def declaredMembers {stl : Stl} (schema : Schema stl) (options : EnvelopeOptions) :
    List (Text × Json) :=
  (lit "config_schema_version", .int 1) ::
    ((if options.providerName = [] then [] else [(lit "provider", .str options.providerName)]) ++
      (options.extraStringEntries.map (fun e => (e.1, .str e.2)) ++
        [(lit "schema", .obj (emitSchema schema))]))

theorem envelopeHead_eq {providerName : Bytes} {envelope : List (Text × Json)}
    (h : envelopeHead providerName = .ok envelope) :
    envelope = (lit "config_schema_version", .int 1) ::
      if providerName = [] then [] else [(lit "provider", .str providerName)] := by
  unfold envelopeHead at h
  split_ifs at h ⊢ <;> exact (Except.ok.inj h).symm

theorem addExtraEntries_eq : ∀ {entries : List (Bytes × Bytes)} {envelope out : List (Text × Json)},
    addExtraEntries envelope entries = .ok out →
      out = envelope ++ entries.map (fun e => (e.1, .str e.2))
  | [], _, _, h => by
    rw [List.map_nil, List.append_nil]
    exact (Except.ok.inj h).symm
  | (key, value) :: entries, envelope, out, h => by
    rw [addExtraEntries] at h
    split_ifs at h
    rw [addExtraEntries_eq h, List.map_cons, List.append_assoc]
    rfl

/-- The tree that is built has the members that were declared. -/
theorem envelopeTree_eq {schema : Schema stl} {options : EnvelopeOptions}
    {tree : List (Text × Json)} (h : envelopeTree schema options = .ok tree) :
    tree = declaredMembers schema options := by
  obtain ⟨head, hhead, h⟩ := exists_ok_of_bind h
  obtain ⟨envelope, henvelope, h⟩ := exists_ok_of_bind h
  obtain rfl := Except.ok.inj h
  rw [addExtraEntries_eq henvelope, envelopeHead_eq hhead, declaredMembers]
  simp only [List.cons_append, List.append_assoc]
  rfl

theorem unfinished_envelopeHead {providerName : Bytes} {envelope : List (Text × Json)}
    (h : envelopeHead providerName = .ok envelope) : Unfinished envelope := by
  unfold envelopeHead at h
  split_ifs at h with hempty hutf8
  · obtain rfl := Except.ok.inj h
    exact ⟨by simp [Json.keys], by simp [MembersWritable], by simp [Json.keys]⟩
  · obtain rfl := Except.ok.inj h
    have hutf8' : isValidUtf8 providerName = true := by simpa using hutf8
    exact ⟨by simp [Json.keys], by simp [MembersWritable, hutf8'], by simp [Json.keys]⟩

theorem keys_snoc {fields : List (Text × Json)} {key : Text} {v : Json} :
    Json.keys (fields ++ [(key, v)]) = Json.keys fields ++ [key] := by
  simp [Json.keys]

/-- An extra entry that is accepted is UTF-8, under a key that is neither reserved nor taken. -/
theorem unfinished_addExtraEntries : ∀ {entries : List (Bytes × Bytes)}
    {envelope out : List (Text × Json)}, addExtraEntries envelope entries = .ok out →
      Unfinished envelope → Unfinished out
  | [], _, _, h, henv => by
    obtain rfl := Except.ok.inj h
    exact henv
  | (key, value) :: entries, envelope, out, h, henv => by
    rw [addExtraEntries] at h
    split_ifs at h with hutf8 hreserved htaken
    refine unfinished_addExtraEntries h ⟨?_, ?_, ?_⟩
    · rw [keys_snoc]
      exact henv.nodup.append (List.nodup_singleton key) (by simpa using htaken)
    · simp only [Bool.or_eq_true, Bool.not_eq_true', not_or, Bool.not_eq_false] at hutf8
      unfold MembersWritable
      rw [List.forall_append, List.forall_cons]
      exact ⟨henv.writable, ⟨hutf8.1, hutf8.2⟩, trivial⟩
    · rw [keys_snoc, List.mem_append, List.mem_singleton, not_or]
      refine ⟨henv.schema, fun hkey => hreserved ?_⟩
      subst hkey
      rfl

/-- A member of a tree is read under its key. -/
theorem Reads.mem {ms : List (Bytes × JsonText.Value)} {fields : List (Text × Json)}
    (h : Reads (.object ms) (.obj fields)) {key : Text} {j : Json} (hj : (key, j) ∈ fields) :
    ∃ v, (key, v) ∈ ms ∧ Reads v j := by
  obtain ⟨hkeys, hvalues⟩ : ms.map Prod.fst = Json.keys fields ∧
      List.Forall₂ Reads (ms.map Prod.snd) (fields.map Prod.snd) := by
    cases h with
    | obj hkeys hvalues => exact ⟨hkeys, hvalues⟩
  clear h
  induction fields generalizing ms with
  | nil => exact absurd hj List.not_mem_nil
  | cons p fields ih =>
    obtain ⟨⟨k, v⟩, ms, rfl⟩ : ∃ m ms', ms = m :: ms' := by
      refine List.exists_cons_of_ne_nil ?_
      rintro rfl
      simp [Json.keys] at hkeys
    obtain ⟨key', j'⟩ := p
    simp only [Json.keys, List.map_cons, List.cons.injEq, List.forall₂_cons] at hkeys hvalues
    obtain ⟨rfl, hkeys⟩ := hkeys
    rcases List.mem_cons.mp hj with heq | hj
    · obtain ⟨rfl, rfl⟩ := Prod.mk.inj heq
      exact ⟨v, List.mem_cons_self, hvalues.1⟩
    · obtain ⟨x, hx, hreads⟩ := ih hj hkeys hvalues.2
      exact ⟨x, List.mem_cons_of_mem _ hx, hreads⟩

/-- The envelope is one JSON text, and it reads as what was declared : its keys are distinct,
its version is an integer, each extra entry comes back as its text, and the schema is the
emitted one. -/
theorem configSchemaEnvelope_parses (hformat : stl.RoundTrips) (schema : Schema stl)
    (options : EnvelopeOptions) (text : Bytes)
    (h : configSchemaEnvelope schema options = .ok text) :
    envelopeTree schema options = .ok (declaredMembers schema options) ∧
      ∃ ms, (∀ v, Derives text v ↔ v = .object ms) ∧ parse text = some (.object ms) ∧
        Reads (.object ms) (.obj (declaredMembers schema options)) ∧
        (ms.map Prod.fst).Nodup ∧
        (∃ t, (lit "config_schema_version", .number t) ∈ ms ∧ tokenInt t = some 1) ∧
        (options.providerName ≠ [] → (lit "provider", .string options.providerName) ∈ ms) ∧
        (∀ e ∈ options.extraStringEntries, (e.1, .string e.2) ∈ ms) ∧
        ∃ fields, (lit "schema", .object fields) ∈ ms ∧
          Reads (.object fields) (.obj (emitSchema schema)) := by
  obtain ⟨tree, htree, h⟩ := exists_ok_of_bind h
  obtain rfl := Except.ok.inj h
  have heq := envelopeTree_eq htree
  obtain ⟨head, hhead, htree'⟩ := exists_ok_of_bind htree
  obtain ⟨envelope, henvelope, htree'⟩ := exists_ok_of_bind htree'
  have hunfinished := unfinished_addExtraEntries henvelope (unfinished_envelopeHead hhead)
  have hwritable : Writable (.obj tree) := by
    obtain rfl := Except.ok.inj htree'
    rw [writable_obj, List.forall_append, List.forall_cons]
    exact ⟨hunfinished.writable, ⟨isValidUtf8_name _, writable_emitSchema schema⟩, trivial⟩
  have hnodup : (Json.keys tree).Nodup := by
    obtain rfl := Except.ok.inj htree'
    rw [keys_snoc]
    exact hunfinished.nodup.append (List.nodup_singleton _) (by simpa using hunfinished.schema)
  obtain ⟨v, hderives, hreads⟩ := derives_serialize hformat hwritable
  obtain ⟨ms, rfl, hkeys⟩ : ∃ ms, v = .object ms ∧ ms.map Prod.fst = Json.keys tree := by
    cases hreads with
    | obj hkeys _ => exact ⟨_, rfl, hkeys⟩
  subst heq
  have hstr : ∀ {key value : Bytes}, (key, .str value) ∈ declaredMembers schema options →
      (key, .string value) ∈ ms := fun hmem => by
    obtain ⟨v, hv, hreads⟩ := hreads.mem hmem
    cases hreads with
    | str => exact hv
  refine ⟨htree, ms, fun v => ⟨fun hv => hv.unique hderives, fun hv => hv ▸ hderives⟩,
    parse_of_derives hderives, hreads, hkeys ▸ hnodup, ?_, fun hname => hstr ?_,
    fun e he => hstr ?_, ?_⟩
  · obtain ⟨v, hv, hreads⟩ := hreads.mem (j := .int 1) List.mem_cons_self
    cases hreads with
    | int ht => exact ⟨_, hv, ht⟩
  · simp [declaredMembers, hname]
  · exact List.mem_cons_of_mem _ (List.mem_append_right _ (List.mem_append_left _
      (List.mem_map_of_mem he)))
  · have hschema : (lit "schema", Json.obj (emitSchema schema)) ∈ declaredMembers schema options := by
      simp [declaredMembers]
    obtain ⟨v, hv, hreads⟩ := hreads.mem hschema
    cases hreads with
    | obj hkeys hvalues => exact ⟨_, hv, .obj hkeys hvalues⟩

/-! ## A library that prints decimals -/

/-- A finite double in decimal. A fraction has its last digit at the exponent. -/
def decimalText : Double → Bytes
  | .nan => lit "nan"
  | .inf negative => if negative then lit "-inf" else lit "inf"
  | .zero negative => if negative then lit "-0" else lit "0"
  | .finite q _ =>
    if q.den = 1 then toStringInt q.num
    else
      let places := Nat.log 2 q.den
      toStringInt (q.num * 5 ^ places) ++ (lit "e-" ++ toStringNat places)

/-- A fraction over a power of two, in lowest terms. -/
theorem exists_den_of_representable {q : ℚ} (h : binary64.Representable q) :
    ∃ k, q.den = 2 ^ k := by
  obtain ⟨m, e, -, -, -, rfl⟩ := h
  have hdvd : ∃ n : ℕ, ((m : ℚ) * 2 ^ e).den ∣ 2 ^ n := by
    rcases le_total 0 e with he | he
    · obtain ⟨n, rfl⟩ := Int.eq_ofNat_of_zero_le he
      have hint : (m : ℚ) * 2 ^ (n : ℤ) = ((m * 2 ^ n : ℤ) : ℚ) := by
        rw [zpow_natCast]
        push_cast
        rfl
      refine ⟨0, ?_⟩
      rw [hint, Rat.den_intCast, pow_zero]
    · obtain ⟨n, hn⟩ := Int.eq_ofNat_of_zero_le (neg_nonneg.mpr he)
      obtain rfl : e = -(n : ℤ) := by omega
      have hdiv : (m : ℚ) * 2 ^ (-(n : ℤ)) = Rat.divInt m ((2 ^ n : ℕ) : ℤ) := by
        rw [Rat.divInt_eq_div, zpow_neg, zpow_natCast, div_eq_mul_inv]
        push_cast
        rfl
      refine ⟨n, ?_⟩
      rw [hdiv]
      exact Int.natCast_dvd_natCast.mp (Rat.den_dvd m _)
  obtain ⟨n, hdvd⟩ := hdvd
  obtain ⟨k, -, hk⟩ := (Nat.dvd_prime_pow Nat.prime_two).mp hdvd
  exact ⟨k, hk⟩

/-- An integer with an exponent reads as their product. -/
theorem tokenRat_exponent (i : ℤ) {e : Bytes} {k : ℤ} (he : Exponent e k) :
    tokenRat (toStringInt i ++ e) = some ((i : ℚ) * 10 ^ k) := by
  have hscan := scanDecimal_mantissa (.whole (isNumeral_toStringNat i.natAbs)) he
  have habs : ((i.natAbs : ℤ) : ℚ) = ((|i| : ℤ) : ℚ) := by rw [Int.natCast_natAbs]
  rw [Int.cast_natCast] at habs
  unfold tokenRat
  rw [scanSign_toStringInt]
  simp only [hscan, Decimal.toRat, List.append_nil, value_toStringNat, List.length_nil,
    Nat.cast_zero, sub_zero, decide_eq_true_eq, habs]
  congr 1
  split_ifs with hi
  · rw [abs_of_neg hi]
    push_cast
    ring
  · rw [abs_of_nonneg (not_lt.mp hi)]

theorem exponent_places (places : ℕ) :
    Exponent (lit "e-" ++ toStringNat places) (-(places : ℤ)) := by
  have h := Exponent.minus (e := 101) (.inl rfl) (isNumeral_toStringNat places)
  rwa [value_toStringNat] at h

/-- The decimal is exact. -/
theorem tokenRat_decimalText {v : Double} {q : ℚ} (h : v.toRat = some q) :
    tokenRat (decimalText v) = some q := by
  cases v with
  | nan => simp [Value.toRat] at h
  | inf negative => simp [Value.toRat] at h
  | zero negative =>
    obtain rfl : 0 = q := by simpa [Value.toRat] using h
    have hzero := tokenRat_exponent 0 .none
    cases negative with
    | false => rwa [zpow_zero, mul_one, Int.cast_zero] at hzero
    | true => decide +kernel
  | finite r hr =>
    obtain rfl : r = q := by simpa [Value.toRat] using h
    rw [decimalText]
    split_ifs with hden
    · have hint := tokenRat_exponent r.num .none
      have hr' : (r.num : ℚ) = r := (Rat.den_eq_one_iff r).mp hden
      rw [List.append_nil] at hint
      rw [hint, zpow_zero, mul_one, hr']
    · obtain ⟨k, hk⟩ := exists_den_of_representable hr.2
      have hlog : Nat.log 2 r.den = k := by rw [hk, Nat.log_pow (by norm_num)]
      have hr' : (r.num : ℚ) / 2 ^ k = r := by
        have := Rat.num_div_den r
        rw [hk] at this
        exact_mod_cast this
      dsimp only
      rw [hlog, tokenRat_exponent _ (exponent_places k)]
      have hten : (10 : ℚ) ^ k = 2 ^ k * 5 ^ k := by rw [← mul_pow]; norm_num
      have hvalue : ((r.num * 5 ^ k : ℤ) : ℚ) * 10 ^ (-(k : ℤ)) = (r.num : ℚ) / 2 ^ k := by
        rw [zpow_neg, zpow_natCast, hten]
        push_cast
        field_simp
      rw [hvalue, hr']

theorem decimalText_inj (v w : Double) (hv : v.isFinite = true) (hw : w.isFinite = true)
    (h : decimalText v = decimalText w) : v = w := by
  obtain ⟨q, hq⟩ := Value.exists_toRat hv
  obtain ⟨r, hr⟩ := Value.exists_toRat hw
  have hqr : q = r := by
    have hq' := tokenRat_decimalText hq
    rw [h, tokenRat_decimalText hr] at hq'
    exact (Option.some.inj hq').symm
  subst hqr
  by_cases hzero : q = 0
  · subst hzero
    have hcases : ∀ v : Double, v.toRat = some 0 → ∃ s, v = .zero s := by
      intro v hv
      cases v with
      | zero s => exact ⟨s, rfl⟩
      | finite r hr => exact absurd (by simpa [Value.toRat] using hv) hr.1
      | _ => simp [Value.toRat] at hv
    obtain ⟨s, rfl⟩ := hcases v hq
    obtain ⟨t, rfl⟩ := hcases w hr
    have hsign : ∀ s t : Bool, decimalText (.zero s) = decimalText (.zero t) → s = t := by decide
    rw [hsign s t h]
  · exact Value.ext_toRat hq hr hzero

/-- Numbers printed in decimal, and the search of `Stl.exact`. -/
def Stl.decimal : Stl :=
  { Stl.exact with formatDouble := decimalText, formatDouble_inj := decimalText_inj }

theorem rmatch_decimalText {v : Double} (hv : v.isFinite = true) :
    number.rmatch (decimalText v) = true := by
  cases v with
  | nan => simp [Value.isFinite, Value.toRat] at hv
  | inf negative => simp [Value.isFinite, Value.toRat] at hv
  | zero negative => cases negative <;> decide +kernel
  | finite q hq =>
    rw [decimalText]
    split_ifs
    · exact rmatch_toStringInt_nil _
    · exact rmatch_toStringInt _ (.inr ⟨_, rfl, isNumeral_toStringNat _⟩)

theorem roundTrips_decimal : Stl.decimal.RoundTrips := by
  intro v hv
  obtain ⟨q, hq⟩ := Value.exists_toRat hv
  exact ⟨rmatch_decimalText hv, q, tokenRat_decimalText hq,
    (Value.eq_iff (Format.round_toRat hq) hq).mpr rfl⟩

/-- A number between zero and five. -/
def ratioField : Field :=
  ⟨{ key := lit "ratio", kind := .number, minNumber := some (.zero false),
     maxNumber := some (doubleOfInt 5), title := lit "Größe \"r\"" },
    by constructor <;> simp <;> decide +kernel⟩

def ratioRoot : Object :=
  ⟨{ openness := .closed }, [.scalar ratioField]⟩

theorem distinct_ratioRoot : ratioRoot.Distinct := by
  simp [ratioRoot, Object.Distinct, membersDistinct, Member.Distinct]

theorem checkObject_ratioRoot : checkObject Stl.decimal ratioRoot (lit "root") false = .ok () := by
  decide +kernel

def ratioSchema : Schema Stl.decimal where
  root := ratioRoot
  distinct := distinct_ratioRoot
  checked := checkObject_ratioRoot
  texts_utf8 := isValidUtf8_of_none

def simOptions : EnvelopeOptions :=
  ⟨lit "sim", [(lit "build", lit "a\tb")]⟩

theorem configSchemaEnvelope_parses_ratio : ∃ text ms,
    configSchemaEnvelope ratioSchema simOptions = .ok text ∧ parse text = some (.object ms) ∧
      ms.map Prod.fst =
        [lit "config_schema_version", lit "provider", lit "build", lit "schema"] ∧
      (lit "provider", .string (lit "sim")) ∈ ms ∧
      (lit "build", .string (lit "a\tb")) ∈ ms := by
  obtain ⟨text, htext⟩ : ∃ text, configSchemaEnvelope ratioSchema simOptions = .ok text := ⟨_, rfl⟩
  obtain ⟨-, ms, -, hparse, hreads, -, -, hprovider, hextra, -⟩ :=
    configSchemaEnvelope_parses roundTrips_decimal ratioSchema simOptions text htext
  refine ⟨text, ms, htext, hparse, ?_, hprovider (by decide), hextra _ List.mem_cons_self⟩
  cases hreads with
  | obj hkeys _ => exact hkeys

end ProviderSdk.Config

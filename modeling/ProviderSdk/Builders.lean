import ProviderSdk.FieldCalls

/-!
# What the builders build

A schema is declared by calls of the builders of `src/anolis/provider_sdk/config.hpp`, on
fields, arrays and objects, and a call that throws builds nothing. What can be built is no more
than the checks of the setters leave, and no less : every `Spec` with `Field.Spec.Built` is that
of a field after some calls (`Field.built_iff`), and every object whose keys are distinct and
whose conditionals say something, at every depth, is one that calls make (`Object.made_iff`). So
what holds of all such declarations holds of all that a provider can declare, and of no others.
-/

namespace ProviderSdk.Config

/-! ## Calls on a field -/

namespace Field

/-- A `Spec` that a field has after some calls. -/
def Reached (key : Bytes) (kind : Kind) (spec : Spec) : Prop :=
  ∃ calls, afterFieldCalls { key := key, kind := kind } calls = spec

namespace Reached

variable {key : Bytes} {kind : Kind} {spec spec' : Spec}

theorem start (key : Bytes) (kind : Kind) : Reached key kind { key := key, kind := kind } :=
  ⟨[], rfl⟩

/-- One more call. -/
theorem call (h : Reached key kind spec) (call : FieldCall)
    (hrun : call.inPlace.run spec = .ok () spec') : Reached key kind spec' := by
  obtain ⟨calls, rfl⟩ := h
  refine ⟨calls ++ [call], ?_⟩
  have happend : ∀ (calls : List FieldCall) (spec : Spec),
      afterFieldCalls spec (calls ++ [call]) =
        (FieldCall.caught call (afterFieldCalls spec calls)).2 := by
    intro calls
    induction calls with
    | nil => exact fun _ => rfl
    | cons c calls ih => exact fun _ => ih _
  rw [happend, FieldCall.caught, hrun]

/-- A flag that is set or not. -/
theorem flag (s : Bool → Spec) (h : Reached key kind (s false)) (b : Bool) (call : FieldCall)
    (hrun : call.inPlace.run (s false) = .ok () (s true)) : Reached key kind (s b) := by
  cases b with
  | false => exact h
  | true => exact h.call call hrun

/-- A value that is set or not. -/
theorem option {α : Type} (s : Option α → Spec) (h : Reached key kind (s none)) (o : Option α)
    (call : α → FieldCall)
    (hrun : ∀ a ∈ o, (call a).inPlace.run (s none) = .ok () (s (some a))) :
    Reached key kind (s o) := by
  cases o with
  | none => exact h
  | some a => exact h.call (call a) (hrun a rfl)

/-- Values that are listed in order. -/
theorem list {α : Type} (s : List α → Spec) (h : Reached key kind (s [])) (call : α → FieldCall)
    (value : α → Bytes)
    (hrun : ∀ before a, value a ∉ before.map value →
      (call a).inPlace.run (s before) = .ok () (s (before ++ [a])))
    (values : List α) (hnodup : (values.map value).Nodup) : Reached key kind (s values) := by
  induction values using List.reverseRecOn with
  | nil => exact h
  | append_singleton before a ih =>
    rw [List.map_append, List.nodup_append] at hnodup
    refine (ih hnodup.1).call (call a) (hrun before a fun hmem => ?_)
    exact hnodup.2.2 _ hmem _ (by simp) rfl

/-- The setters that apply to every kind. -/
theorem common (spec : Spec) :
    Reached spec.key spec.kind
      { key := spec.key, kind := spec.kind, required := spec.required, unique := spec.unique,
        title := spec.title, description := spec.description,
        placeholder := spec.placeholder } := by
  have hrequired := (start spec.key spec.kind).flag
    (fun b => { key := spec.key, kind := spec.kind, required := b }) spec.required .required rfl
  have hunique := hrequired.flag
    (fun b => { key := spec.key, kind := spec.kind, required := spec.required, unique := b })
    spec.unique .unique rfl
  exact ((hunique.call (.title spec.title) rfl).call (.description spec.description) rfl).call
    (.placeholder spec.placeholder) rfl

end Reached

/-! ## Every `Spec` that is built -/

variable {spec after : Spec} {call : FieldCall} {kinds : List Kind} {message : Bytes}
  {g : Spec → Spec}

/-- A setter that checks the kind only. -/
theorem run_set (hcall : call.inPlace = (InPlace.onlyFor kinds message >>= fun _ => modify g))
    (hkind : spec.kind ∈ kinds) (hafter : g spec = after) :
    call.inPlace.run spec = .ok () after := by
  rw [hcall, InPlace.onlyFor, InPlace.run_refuse_bind, if_neg (by simpa using hkind), ← hafter]
  rfl

/-- A setter that refuses what is listed. -/
theorem run_listed {bad : Spec → Bool} {listed : Bytes}
    (hcall : call.inPlace = (InPlace.onlyFor kinds message >>= fun _ =>
      InPlace.refuse bad listed >>= fun _ => modify g))
    (hkind : spec.kind ∈ kinds) (hbad : bad spec = false) (hafter : g spec = after) :
    call.inPlace.run spec = .ok () after := by
  rw [hcall, InPlace.onlyFor, InPlace.run_refuse_bind, if_neg (by simpa using hkind),
    InPlace.run_refuse_bind, if_neg (by simp [hbad]), ← hafter]
  rfl

/-- A setter of a number, that refuses what is not finite and what conflicts. -/
theorem run_number {bad : Spec → Bool} {finite conflicts : Bytes} {v : Double}
    (hcall : call.inPlace = (InPlace.onlyFor kinds message >>= fun _ =>
      InPlace.refuse (fun _ => !v.isFinite) finite >>= fun _ =>
        InPlace.refuse bad conflicts >>= fun _ => modify g))
    (hkind : spec.kind ∈ kinds) (hfinite : v.isFinite = true) (hbad : bad spec = false)
    (hafter : g spec = after) : call.inPlace.run spec = .ok () after := by
  rw [hcall, InPlace.onlyFor, InPlace.run_refuse_bind, if_neg (by simpa using hkind),
    InPlace.run_refuse_bind, if_neg (by simp [hfinite]), InPlace.run_refuse_bind,
    if_neg (by simp [hbad]), ← hafter]
  rfl

theorem reached_string (h : spec.Built) (hkind : spec.kind = .string) :
    Reached spec.key spec.kind spec := by
  have hstring : spec.kind ∈ [Kind.string] := by simp [hkind]
  have hcommon : Reached spec.key spec.kind
      { spec with
        nonEmpty := false, pattern := none, enumValues := [], constValue := none,
        forbiddenValues := [], defaultString := none } := by
    obtain ⟨hmin, hmax⟩ := h.integer_only (by simp [hkind])
    obtain ⟨hminN, hmaxN, hexMin, hexMax, hdefN⟩ := h.number_only (by simp [hkind])
    rw [hmin, hmax, hminN, hmaxN, hexMin, hexMax, hdefN, h.boolean_only (by simp [hkind]),
      h.defaultInt_only (by simp [hkind]) (by simp [hkind])]
    exact .common spec
  have hnonEmpty := hcommon.flag
    (fun b => { spec with
      nonEmpty := b, pattern := none, enumValues := [], constValue := none,
      forbiddenValues := [], defaultString := none })
    spec.nonEmpty .nonEmpty (run_set rfl hstring rfl)
  have hpattern := hnonEmpty.option
    (fun o => { spec with
      pattern := o, enumValues := [], constValue := none, forbiddenValues := [],
      defaultString := none })
    spec.pattern .pattern fun _ _ => run_set rfl hstring rfl
  have henum := hpattern.list
    (fun l => { spec with
      enumValues := l, constValue := none, forbiddenValues := [], defaultString := none })
    (fun e => .enumValueTitled e.value e.title) EnumValue.value
    (fun before e hnew => run_listed rfl hstring (by simpa using hnew) rfl)
    spec.enumValues h.enumValues_nodup
  have hconst := henum.option
    (fun o => { spec with constValue := o, forbiddenValues := [], defaultString := none })
    spec.constValue .constValue fun _ _ => run_set rfl hstring rfl
  have hforbidden := hconst.list
    (fun l => { spec with forbiddenValues := l, defaultString := none })
    (fun v => .forbidValue v.value v.message) ForbiddenValue.value
    (fun before v hnew => run_listed rfl hstring (by simpa using hnew) rfl)
    spec.forbiddenValues h.forbiddenValues_nodup
  exact hforbidden.option (fun o => { spec with defaultString := o }) spec.defaultString
    .defaultString fun _ _ => run_set rfl hstring rfl

theorem reached_integer (h : spec.Built) (hkind : spec.kind = .integer) :
    Reached spec.key spec.kind spec := by
  have hinteger : spec.kind ∈ [Kind.integer] := by simp [hkind]
  have hcommon : Reached spec.key spec.kind
      { spec with minInt := none, maxInt := none, defaultInt := none } := by
    obtain ⟨hne, hpattern, henum, hconst, hforbidden, hdefS⟩ := h.string_only (by simp [hkind])
    obtain ⟨hminN, hmaxN, hexMin, hexMax, hdefN⟩ := h.number_only (by simp [hkind])
    rw [hne, hpattern, henum, hconst, hforbidden, hdefS, hminN, hmaxN, hexMin, hexMax, hdefN,
      h.boolean_only (by simp [hkind])]
    exact .common spec
  have hmin := hcommon.option
    (fun o => { spec with minInt := o, maxInt := none, defaultInt := none })
    spec.minInt .minInt fun _ _ => run_set rfl hinteger rfl
  have hmax := hmin.option (fun o => { spec with maxInt := o, defaultInt := none })
    spec.maxInt .maxInt fun _ _ => run_set rfl hinteger rfl
  exact hmax.option (fun o => { spec with defaultInt := o }) spec.defaultInt .defaultInt
    fun _ _ => run_set rfl (List.mem_cons.2 (.inl hkind)) rfl

theorem reached_i2cAddress (h : spec.Built) (hkind : spec.kind = .i2cAddress) :
    Reached spec.key spec.kind spec := by
  have hcommon : Reached spec.key spec.kind { spec with defaultInt := none } := by
    obtain ⟨hne, hpattern, henum, hconst, hforbidden, hdefS⟩ := h.string_only (by simp [hkind])
    obtain ⟨hmin, hmax⟩ := h.integer_only (by simp [hkind])
    obtain ⟨hminN, hmaxN, hexMin, hexMax, hdefN⟩ := h.number_only (by simp [hkind])
    rw [hne, hpattern, henum, hconst, hforbidden, hdefS, hmin, hmax, hminN, hmaxN, hexMin, hexMax,
      hdefN, h.boolean_only (by simp [hkind])]
    exact .common spec
  exact hcommon.option (fun o => { spec with defaultInt := o }) spec.defaultInt .defaultInt
    fun _ _ => run_set rfl (List.mem_cons_of_mem _ (List.mem_singleton.2 hkind)) rfl

theorem reached_boolean (h : spec.Built) (hkind : spec.kind = .boolean) :
    Reached spec.key spec.kind spec := by
  have hcommon : Reached spec.key spec.kind { spec with defaultBool := none } := by
    obtain ⟨hne, hpattern, henum, hconst, hforbidden, hdefS⟩ := h.string_only (by simp [hkind])
    obtain ⟨hmin, hmax⟩ := h.integer_only (by simp [hkind])
    obtain ⟨hminN, hmaxN, hexMin, hexMax, hdefN⟩ := h.number_only (by simp [hkind])
    rw [hne, hpattern, henum, hconst, hforbidden, hdefS, hmin, hmax, hminN, hmaxN, hexMin, hexMax,
      hdefN, h.defaultInt_only (by simp [hkind]) (by simp [hkind])]
    exact .common spec
  exact hcommon.option (fun o => { spec with defaultBool := o }) spec.defaultBool .defaultBool
    fun _ _ => run_set rfl (List.mem_singleton.2 hkind) rfl

/-- Of two options one of which is none, the one that is not has the other none. -/
theorem isSome_eq_false {a b : Option Double} (h : a = none ∨ b = none) {v : Double}
    (hv : v ∈ b) : a.isSome = false := by
  rcases h with rfl | rfl
  · rfl
  · cases hv

theorem reached_number (h : spec.Built) (hkind : spec.kind = .number) :
    Reached spec.key spec.kind spec := by
  have hnumber : spec.kind ∈ [Kind.number] := by simp [hkind]
  have hcommon : Reached spec.key spec.kind
      { spec with
        minNumber := none, maxNumber := none, exclusiveMinNumber := none,
        exclusiveMaxNumber := none, defaultNumber := none } := by
    obtain ⟨hne, hpattern, henum, hconst, hforbidden, hdefS⟩ := h.string_only (by simp [hkind])
    obtain ⟨hmin, hmax⟩ := h.integer_only (by simp [hkind])
    rw [hne, hpattern, henum, hconst, hforbidden, hdefS, hmin, hmax,
      h.boolean_only (by simp [hkind]), h.defaultInt_only (by simp [hkind]) (by simp [hkind])]
    exact .common spec
  have hmin := hcommon.option
    (fun o => { spec with
      minNumber := o, maxNumber := none, exclusiveMinNumber := none,
      exclusiveMaxNumber := none, defaultNumber := none })
    spec.minNumber .minNumber fun v hv => run_number rfl hnumber (h.minNumber_finite v hv) rfl rfl
  have hmax := hmin.option
    (fun o => { spec with
      maxNumber := o, exclusiveMinNumber := none, exclusiveMaxNumber := none,
      defaultNumber := none })
    spec.maxNumber .maxNumber fun v hv => run_number rfl hnumber (h.maxNumber_finite v hv) rfl rfl
  have hexMin := hmax.option
    (fun o => { spec with
      exclusiveMinNumber := o, exclusiveMaxNumber := none, defaultNumber := none })
    spec.exclusiveMinNumber .exclusiveMinNumber fun v hv =>
      run_number rfl hnumber (h.exclusiveMinNumber_finite v hv) (isSome_eq_false h.one_min hv) rfl
  have hexMax := hexMin.option
    (fun o => { spec with exclusiveMaxNumber := o, defaultNumber := none })
    spec.exclusiveMaxNumber .exclusiveMaxNumber fun v hv =>
      run_number rfl hnumber (h.exclusiveMaxNumber_finite v hv) (isSome_eq_false h.one_max hv) rfl
  exact hexMax.option (fun o => { spec with defaultNumber := o }) spec.defaultNumber .defaultNumber
    fun v hv => run_listed rfl hnumber (by simp [h.defaultNumber_finite v hv]) rfl

/-- A `Spec` is one that a field from a factory has after some calls exactly when it is
`Built`. -/
theorem built_iff (spec : Spec) : spec.Built ↔
    ∃ f calls, fieldFactory spec.kind spec.key = .ok f ∧ afterFieldCalls f.spec calls = spec := by
  have hfactory : ∀ kind key, fieldFactory kind key = Field.new key kind := by
    intro kind key
    cases kind <;> rfl
  constructor
  · intro h
    obtain ⟨calls, hcalls⟩ : Reached spec.key spec.kind spec := by
      cases hkind : spec.kind with
      | string => exact hkind ▸ reached_string h hkind
      | integer => exact hkind ▸ reached_integer h hkind
      | number => exact hkind ▸ reached_number h hkind
      | boolean => exact hkind ▸ reached_boolean h hkind
      | i2cAddress => exact hkind ▸ reached_i2cAddress h hkind
    refine ⟨⟨{ key := spec.key, kind := spec.kind }, Spec.built_new h.key_ne _⟩, calls, ?_,
      hcalls⟩
    rw [hfactory, Field.new, dif_neg h.key_ne]
  · rintro ⟨f, calls, -, hcalls⟩
    rw [← hcalls, afterFieldCalls_spec]
    exact (FieldCall.onField.run calls f).2.built

end Field

/-! ## Arrays and objects -/

mutual

/-- An object that the builders make. -/
inductive Object.Made : Object → Prop
  | new (openness : Openness) : Object.Made (.new openness)
  | field {o o' : Object} (ho : o.Made) (f : Field) (h : o.field f = .ok o') : Object.Made o'
  | child {o o' obj : Object} (ho : o.Made) (hobj : obj.Made) (key : Bytes) (presence : Presence)
    (h : o.child key obj presence = .ok o') : Object.Made o'
  | array {o o' : Object} {arr : Array} (ho : o.Made) (harr : arr.Made) (key : Bytes)
    (presence : Presence) (h : o.array key arr presence = .ok o') : Object.Made o'
  | when {o o' : Object} (ho : o.Made) (key equals : Bytes) (branch : When)
    (h : o.when key equals branch = .ok o') : Object.Made o'
  | dependentRequired {o : Object} (ho : o.Made) (key : Bytes) (alsoRequired : List Bytes) :
    Object.Made (o.dependentRequired key alsoRequired)
  | deprecatedKey {o : Object} (ho : o.Made) (key message : Bytes) :
    Object.Made (o.deprecatedKey key message)
  | title {o : Object} (ho : o.Made) (text : Bytes) : Object.Made (o.title text)
  | description {o : Object} (ho : o.Made) (text : Bytes) : Object.Made (o.description text)

/-- An array that the builders make. -/
inductive Array.Made : Array → Prop
  | ofScalars (item : Field) : Array.Made (.ofScalars item)
  | ofObjects {item : Object} (hitem : item.Made) : Array.Made (.ofObjects item)
  | minItems {a : Array} (ha : a.Made) (count : ℕ) : Array.Made (a.minItems count)
  | maxItems {a : Array} (ha : a.Made) (count : ℕ) : Array.Made (a.maxItems count)
  | unique {a a' : Array} (ha : a.Made) (h : a.unique = .ok a') : Array.Made a'
  | title {a : Array} (ha : a.Made) (text : Bytes) : Array.Made (a.title text)
  | description {a : Array} (ha : a.Made) (text : Bytes) : Array.Made (a.description text)

end

/-- A branch that requires or forbids something. -/
def When.Says (w : When) : Prop :=
  ¬(w.requireKeys = [] ∧ w.forbidKeys = [])

mutual

/-- Conditionals say something, here and in every declaration below. -/
def Object.Says : Object → Prop
  | ⟨spec, members⟩ => (∀ c ∈ spec.conditionals, c.branch.Says) ∧ membersSay members

def membersSay : List Member → Prop
  | [] => True
  | m :: ms => m.Says ∧ membersSay ms

def Member.Says : Member → Prop
  | .scalar _ => True
  | .object _ _ o => o.Says
  | .array _ _ a => a.Says

def Array.Says : Array → Prop
  | .scalars _ _ _ => True
  | .objects o _ => o.Says

end

theorem membersSay_iff {ms : List Member} : membersSay ms ↔ ∀ m ∈ ms, m.Says := by
  induction ms with
  | nil => simp [membersSay]
  | cons m ms ih => simp [membersSay, ih]

theorem Object.says_iff {o : Object} :
    o.Says ↔ (∀ c ∈ o.spec.conditionals, c.branch.Says) ∧ ∀ m ∈ o.members, m.Says := by
  obtain ⟨spec, members⟩ := o
  rw [Object.Says, membersSay_iff]

theorem Object.insertMember_keeps {o o' : Object} {m : Member} (h : o.insertMember m = .ok o')
    (ho : o.Distinct ∧ o.Says) (hm : m.Distinct ∧ m.Says) : o'.Distinct ∧ o'.Says := by
  refine ⟨Object.insertMember_distinct h ho.1 hm.1, ?_⟩
  unfold Object.insertMember at h
  split_ifs at h with hkey
  obtain rfl := Except.ok.inj h
  obtain ⟨hconditionals, hmembers⟩ := Object.says_iff.1 ho.2
  rw [Object.says_iff]
  exact ⟨hconditionals, List.forall_mem_append.2 ⟨hmembers, by simpa using hm.2⟩⟩

/-- The `Spec` of an object has no say in the members. -/
theorem Object.keeps_spec {o : Object} (h : o.Distinct ∧ o.Says) (spec : Object.Spec)
    (hspec : (∀ c ∈ o.spec.conditionals, c.branch.Says) →
      ∀ c ∈ spec.conditionals, c.branch.Says) :
    Object.Distinct { o with spec := spec } ∧ Object.Says { o with spec := spec } := by
  rw [Object.distinct_iff, Object.says_iff] at h ⊢
  exact ⟨h.1, hspec h.2.1, h.2.2⟩

theorem Array.setSpec_keeps (a : Array) (g : Array.Spec → Array.Spec) :
    ((a.setSpec g).Distinct ↔ a.Distinct) ∧ ((a.setSpec g).Says ↔ a.Says) := by
  cases a <;> exact ⟨.rfl, .rfl⟩

mutual

/-- What the builders make has distinct keys, and conditionals that say something. -/
theorem Object.Made.keeps : ∀ {o : Object}, o.Made → o.Distinct ∧ o.Says
  | _, .new openness => by simp [Object.new, Object.Distinct, membersDistinct, Object.Says,
      membersSay]
  | _, .field ho f h =>
    Object.insertMember_keeps h ho.keeps ⟨trivial, trivial⟩
  | _, .child ho hobj key presence h =>
    Object.insertMember_keeps h ho.keeps hobj.keeps
  | _, .array ho harr key presence h =>
    Object.insertMember_keeps h ho.keeps harr.keeps
  | _, .when ho key equals branch h => by
    unfold Object.when at h
    split_ifs at h with hvacuous
    obtain rfl := Except.ok.inj h
    refine Object.keeps_spec ho.keeps _ fun htold => List.forall_mem_append.2 ⟨htold, ?_⟩
    intro c hc
    rwa [List.mem_singleton.1 hc]
  | _, .dependentRequired ho key alsoRequired => Object.keeps_spec ho.keeps _ fun htold => htold
  | _, .deprecatedKey ho key message => Object.keeps_spec ho.keeps _ fun htold => htold
  | _, .title ho text => Object.keeps_spec ho.keeps _ fun htold => htold
  | _, .description ho text => Object.keeps_spec ho.keeps _ fun htold => htold

theorem Array.Made.keeps : ∀ {a : Array}, a.Made → a.Distinct ∧ a.Says
  | _, .ofScalars item => ⟨trivial, trivial⟩
  | _, .ofObjects hitem => hitem.keeps
  | _, .minItems (a := a) ha count =>
    ⟨(a.setSpec_keeps _).1.2 ha.keeps.1, (a.setSpec_keeps _).2.2 ha.keeps.2⟩
  | _, .maxItems (a := a) ha count =>
    ⟨(a.setSpec_keeps _).1.2 ha.keeps.1, (a.setSpec_keeps _).2.2 ha.keeps.2⟩
  | _, .unique (a := a) ha h => by
    cases a with
    | scalars item unique spec =>
      obtain rfl := Except.ok.inj h
      exact ⟨trivial, trivial⟩
    | objects item spec => cases h
  | _, .title (a := a) ha text =>
    ⟨(a.setSpec_keeps _).1.2 ha.keeps.1, (a.setSpec_keeps _).2.2 ha.keeps.2⟩
  | _, .description (a := a) ha text =>
    ⟨(a.setSpec_keeps _).1.2 ha.keeps.1, (a.setSpec_keeps _).2.2 ha.keeps.2⟩

end

/-! ### Every declaration is made -/

/-- A member whose declaration the builders make. -/
def Member.Made : Member → Prop
  | .scalar _ => True
  | .object _ _ o => o.Made
  | .array _ _ a => a.Made

/-- One more member, under a new key. -/
theorem Object.Made.insert {o : Object} (ho : o.Made) {m : Member} (hm : m.Made)
    (hkey : m.key ∉ o.members.map Member.key) :
    Object.Made { o with members := o.members ++ [m] } := by
  have hinsert : o.insertMember m = .ok { o with members := o.members ++ [m] } := if_neg hkey
  cases m with
  | scalar f => exact .field ho f hinsert
  | object key required obj =>
    cases required with
    | false => exact .child ho hm key .optional hinsert
    | true => exact .child ho hm key .required hinsert
  | array key required arr =>
    cases required with
    | false => exact .array ho hm key .optional hinsert
    | true => exact .array ho hm key .required hinsert

theorem Object.made_members (openness : Openness) (ms : List Member)
    (hkeys : (ms.map Member.key).Nodup) (hms : ∀ m ∈ ms, m.Made) :
    Object.Made ⟨{ openness := openness }, ms⟩ := by
  induction ms using List.reverseRecOn with
  | nil => exact .new openness
  | append_singleton ms m ih =>
    rw [List.map_append, List.nodup_append] at hkeys
    rw [List.forall_mem_append] at hms
    refine (ih hkeys.1 hms.1).insert (hms.2 m (List.mem_singleton_self m)) fun hmem => ?_
    exact hkeys.2.2 _ hmem _ (by simp) rfl

/-- The conditionals, the dependent keys and the deprecated keys come one after the other. -/
theorem Object.Made.setSpec {members : List Member} (spec : Object.Spec)
    (h : Object.Made ⟨{ openness := spec.openness }, members⟩)
    (htold : ∀ c ∈ spec.conditionals, c.branch.Says) : Object.Made ⟨spec, members⟩ := by
  have hconditionals : ∀ cs : List Object.Conditional, (∀ c ∈ cs, c.branch.Says) →
      Object.Made ⟨{ openness := spec.openness, conditionals := cs }, members⟩ := by
    intro cs hcs
    induction cs using List.reverseRecOn with
    | nil => exact h
    | append_singleton cs c ih =>
      rw [List.forall_mem_append] at hcs
      exact .when (ih hcs.1) c.key c.equals c.branch (if_neg (hcs.2 c (List.mem_singleton_self c)))
  have hdependent : ∀ ds : List Object.DependentRequired, Object.Made
      ⟨{ openness := spec.openness, conditionals := spec.conditionals, dependentRequired := ds },
        members⟩ := by
    intro ds
    induction ds using List.reverseRecOn with
    | nil => exact hconditionals spec.conditionals htold
    | append_singleton ds d ih => exact .dependentRequired ih d.key d.alsoRequired
  have hdeprecated : ∀ ds : List Object.DeprecatedKey, Object.Made
      ⟨{ openness := spec.openness, conditionals := spec.conditionals,
         dependentRequired := spec.dependentRequired, deprecatedKeys := ds }, members⟩ := by
    intro ds
    induction ds using List.reverseRecOn with
    | nil => exact hdependent spec.dependentRequired
    | append_singleton ds d ih => exact .deprecatedKey ih d.key d.message
  exact .description (.title (hdeprecated spec.deprecatedKeys) spec.title) spec.description

/-- The numbers and the texts of an array. -/
theorem Array.Made.setSpec (make : Array.Spec → Array)
    (hmake : ∀ g spec, (make spec).setSpec g = make (g spec)) (h : (make {}).Made)
    (spec : Array.Spec) : (make spec).Made := by
  have hmin : ∀ o, (make { minItems := o }).Made := fun o => by
    cases o with
    | none => exact h
    | some count =>
      have hcount := h.minItems count
      rwa [Array.minItems, hmake] at hcount
  have hmax : ∀ o, (make { minItems := spec.minItems, maxItems := o }).Made := fun o => by
    cases o with
    | none => exact hmin spec.minItems
    | some count =>
      have hcount := (hmin spec.minItems).maxItems count
      rwa [Array.maxItems, hmake] at hcount
  have htitle := Array.Made.title (hmax spec.maxItems) spec.title
  rw [Array.title, hmake] at htitle
  have hdescription := htitle.description spec.description
  rwa [Array.description, hmake] at hdescription

mutual

/-- What has distinct keys, and conditionals that say something, is made by the builders. -/
theorem Object.made_of_keeps : ∀ o : Object, o.Distinct → o.Says → o.Made
  | ⟨spec, members⟩, hdistinct, htold => by
    obtain ⟨hkeys, hmembers⟩ := Object.distinct_iff.1 hdistinct
    obtain ⟨hspec, htold⟩ := Object.says_iff.1 htold
    exact .setSpec spec (Object.made_members spec.openness members hkeys
      (members_made members hmembers htold)) hspec

theorem members_made : ∀ ms : List Member, (∀ m ∈ ms, m.Distinct) → (∀ m ∈ ms, m.Says) →
    ∀ m ∈ ms, m.Made
  | [], _, _ => fun _ hm => nomatch hm
  | m :: ms, hdistinct, htold => List.forall_mem_cons.2
    ⟨Member.made_of_keeps m (hdistinct m List.mem_cons_self) (htold m List.mem_cons_self),
      members_made ms (fun m hm => hdistinct m (List.mem_cons_of_mem _ hm))
        fun m hm => htold m (List.mem_cons_of_mem _ hm)⟩

theorem Member.made_of_keeps : ∀ m : Member, m.Distinct → m.Says → m.Made
  | .scalar _, _, _ => trivial
  | .object _ _ o, hdistinct, htold => Object.made_of_keeps o hdistinct htold
  | .array _ _ a, hdistinct, htold => Array.made_of_keeps a hdistinct htold

theorem Array.made_of_keeps : ∀ a : Array, a.Distinct → a.Says → a.Made
  | .scalars item unique spec, _, _ => by
    refine Array.Made.setSpec (.scalars item unique) (fun _ _ => rfl) ?_ spec
    cases unique with
    | false => exact .ofScalars item
    | true => exact .unique (.ofScalars item) rfl
  | .objects item spec, hdistinct, htold =>
    Array.Made.setSpec (.objects item) (fun _ _ => rfl)
      (.ofObjects (Object.made_of_keeps item hdistinct htold)) spec

end

/-- An object is one that the builders make exactly when, here and in every declaration below,
no two members have the same key and no conditional is vacuous. -/
theorem Object.made_iff (o : Object) : o.Made ↔ o.Distinct ∧ o.Says :=
  ⟨Object.Made.keeps, fun h => Object.made_of_keeps o h.1 h.2⟩

end ProviderSdk.Config

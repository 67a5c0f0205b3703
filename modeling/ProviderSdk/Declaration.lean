import ProviderSdk.Scalar

/-!
# Declaring a config

The declaration tree of `src/anolis/provider_sdk/config.hpp` and its builders : scalar
fields, arrays and objects. A setter that does not apply throws, which is an error with
the text of the exception, and leaves the field as it was.

A `Field` carries the proof that its `Spec` is one the setters build (`Field.Spec.Built`),
so a bound is finite and an enum value appears once in whatever reads the field. An
`Array` of objects has no `unique` flag to set. Member keys are distinct in whatever the
builders build (`Object.insertMember_distinct`).
-/

namespace ProviderSdk.Config

/-! ## Fields -/

/-- What a `std::logic_error` says. -/
abbrev LogicError := Bytes

inductive Field.Kind where
  | string
  | integer
  | number
  | boolean
  | i2cAddress
  deriving DecidableEq

structure Field.EnumValue where
  value : Bytes
  title : Bytes
  deriving DecidableEq

structure Field.ForbiddenValue where
  value : Bytes
  message : Bytes
  deriving DecidableEq

structure Field.Spec where
  key : Bytes
  kind : Field.Kind
  required : Bool := false
  nonEmpty : Bool := false
  unique : Bool := false
  pattern : Option Bytes := none
  enumValues : List Field.EnumValue := []
  constValue : Option Bytes := none
  forbiddenValues : List Field.ForbiddenValue := []
  minInt : Option ℤ := none
  maxInt : Option ℤ := none
  minNumber : Option Double := none
  maxNumber : Option Double := none
  exclusiveMinNumber : Option Double := none
  exclusiveMaxNumber : Option Double := none
  defaultString : Option Bytes := none
  defaultInt : Option ℤ := none
  defaultNumber : Option Double := none
  defaultBool : Option Bool := none
  title : Bytes := []
  description : Bytes := []
  placeholder : Bytes := []

namespace Field

/-- The constraints of a `Spec` are those of its kind, its numbers are finite, each side
has one bound, and no value is listed twice. -/
structure Spec.Built (s : Spec) : Prop where
  key_ne : s.key ≠ []
  string_only : s.kind ≠ .string → s.nonEmpty = false ∧ s.pattern = none ∧
    s.enumValues = [] ∧ s.constValue = none ∧ s.forbiddenValues = [] ∧ s.defaultString = none
  integer_only : s.kind ≠ .integer → s.minInt = none ∧ s.maxInt = none
  number_only : s.kind ≠ .number → s.minNumber = none ∧ s.maxNumber = none ∧
    s.exclusiveMinNumber = none ∧ s.exclusiveMaxNumber = none ∧ s.defaultNumber = none
  boolean_only : s.kind ≠ .boolean → s.defaultBool = none
  defaultInt_only : s.kind ≠ .integer → s.kind ≠ .i2cAddress → s.defaultInt = none
  minNumber_finite : ∀ v ∈ s.minNumber, v.isFinite = true
  maxNumber_finite : ∀ v ∈ s.maxNumber, v.isFinite = true
  exclusiveMinNumber_finite : ∀ v ∈ s.exclusiveMinNumber, v.isFinite = true
  exclusiveMaxNumber_finite : ∀ v ∈ s.exclusiveMaxNumber, v.isFinite = true
  defaultNumber_finite : ∀ v ∈ s.defaultNumber, v.isFinite = true
  one_min : s.minNumber = none ∨ s.exclusiveMinNumber = none
  one_max : s.maxNumber = none ∨ s.exclusiveMaxNumber = none
  enumValues_nodup : (s.enumValues.map EnumValue.value).Nodup
  forbiddenValues_nodup : (s.forbiddenValues.map ForbiddenValue.value).Nodup

end Field

/-- A scalar field declaration. -/
structure Field where
  spec : Field.Spec
  built : spec.Built

namespace Field

theorem Spec.built_new {key : Bytes} (h : key ≠ []) (kind : Kind) :
    Spec.Built { key := key, kind := kind } := by
  constructor <;> simp [h]

/-- The constructor of the factories. -/
def new (key : Bytes) (kind : Kind) : Except LogicError Field :=
  if h : key = [] then .error (lit "config schema field: key must not be empty")
  else .ok ⟨{ key := key, kind := kind }, Spec.built_new h kind⟩

def stringField (key : Bytes) : Except LogicError Field :=
  new key .string

def integerField (key : Bytes) : Except LogicError Field :=
  new key .integer

def numberField (key : Bytes) : Except LogicError Field :=
  new key .number

def booleanField (key : Bytes) : Except LogicError Field :=
  new key .boolean

def i2cAddressField (key : Bytes) : Except LogicError Field :=
  new key .i2cAddress

def fieldError {α : Type} (key message : Bytes) : Except LogicError α :=
  .error (lit "config schema field '" ++ key ++ lit "': " ++ message)

variable (f : Field)

/-- A setter that applies to some kinds only. -/
def setIf (applies : Bool) (message : Bytes) (next : Spec)
    (h : applies = true → next.Built) : Except LogicError Field :=
  if ha : applies = true then .ok ⟨next, h ha⟩ else fieldError f.spec.key message

def required : Field :=
  ⟨{ f.spec with required := true }, { f.built with }⟩

def nonEmpty : Except LogicError Field :=
  f.setIf (f.spec.kind = .string) (lit "non_empty() applies to String fields only")
    { f.spec with nonEmpty := true }
    fun h => { f.built with string_only := fun hk => absurd (of_decide_eq_true h) hk }

def unique : Field :=
  ⟨{ f.spec with unique := true }, { f.built with }⟩

def pattern (anchoredEcmaRegex : Bytes) : Except LogicError Field :=
  f.setIf (f.spec.kind = .string) (lit "pattern() applies to String fields only")
    { f.spec with pattern := some anchoredEcmaRegex }
    fun h => { f.built with string_only := fun hk => absurd (of_decide_eq_true h) hk }

theorem nodup_snoc {α β : Type} {g : α → β} {l : List α} {a : α} (hl : (l.map g).Nodup)
    (ha : g a ∉ l.map g) : ((l ++ [a]).map g).Nodup := by
  rw [List.map_append, List.map_singleton, List.nodup_append]
  refine ⟨hl, List.nodup_singleton _, ?_⟩
  intro b hb c hc hbc
  rw [List.mem_singleton.mp hc] at hbc
  exact ha (hbc ▸ hb)

def enumValue (value title : Bytes) : Except LogicError Field :=
  if hk : f.spec.kind = .string then
    if hv : value ∈ f.spec.enumValues.map EnumValue.value then
      fieldError f.spec.key (lit "duplicate enum value '" ++ value ++ lit "'")
    else
      .ok ⟨{ f.spec with enumValues := f.spec.enumValues ++ [⟨value, title⟩] },
        { f.built with
          string_only := fun h => absurd hk h
          enumValues_nodup := nodup_snoc f.built.enumValues_nodup hv }⟩
  else fieldError f.spec.key (lit "enum_value() applies to String fields only")

def constValue (value : Bytes) : Except LogicError Field :=
  f.setIf (f.spec.kind = .string) (lit "const_value() applies to String fields only")
    { f.spec with constValue := some value }
    fun h => { f.built with string_only := fun hk => absurd (of_decide_eq_true h) hk }

def forbidValue (value message : Bytes) : Except LogicError Field :=
  if hk : f.spec.kind = .string then
    if hv : value ∈ f.spec.forbiddenValues.map ForbiddenValue.value then
      fieldError f.spec.key (lit "duplicate forbidden value '" ++ value ++ lit "'")
    else
      .ok ⟨{ f.spec with forbiddenValues := f.spec.forbiddenValues ++ [⟨value, message⟩] },
        { f.built with
          string_only := fun h => absurd hk h
          forbiddenValues_nodup := nodup_snoc f.built.forbiddenValues_nodup hv }⟩
  else fieldError f.spec.key (lit "forbid_value() applies to String fields only")

def minInt (minimum : ℤ) : Except LogicError Field :=
  f.setIf (f.spec.kind = .integer)
    (lit "min_int() applies to Integer fields only (I2cAddress bounds are built in)")
    { f.spec with minInt := some minimum }
    fun h => { f.built with integer_only := fun hk => absurd (of_decide_eq_true h) hk }

def maxInt (maximum : ℤ) : Except LogicError Field :=
  f.setIf (f.spec.kind = .integer)
    (lit "max_int() applies to Integer fields only (I2cAddress bounds are built in)")
    { f.spec with maxInt := some maximum }
    fun h => { f.built with integer_only := fun hk => absurd (of_decide_eq_true h) hk }

/-- A number setter : the field is a Number, the value is finite, and nothing conflicts. -/
def setNumber (setter conflict : Bytes) (value : Double) (free : Bool) (next : Spec)
    (h : f.spec.kind = .number → value.isFinite = true → free = true → next.Built) :
    Except LogicError Field :=
  if hk : f.spec.kind = .number then
    if hv : value.isFinite = true then
      if hf : free = true then .ok ⟨next, h hk hv hf⟩
      else fieldError f.spec.key (setter ++ lit "() conflicts with " ++ conflict ++ lit "()")
    else fieldError f.spec.key (setter ++ lit "() must be finite")
  else fieldError f.spec.key (setter ++ lit "() applies to Number fields only")

theorem finite_some {v : Double} (hv : v.isFinite = true) : ∀ w ∈ some v, w.isFinite = true := by
  rintro w ⟨⟩
  exact hv

def minNumber (minimum : Double) : Except LogicError Field :=
  f.setNumber (lit "min_number") (lit "exclusive_min_number") minimum
    f.spec.exclusiveMinNumber.isNone { f.spec with minNumber := some minimum }
    fun hk hv hf =>
      { f.built with
        number_only := fun h => absurd hk h
        minNumber_finite := finite_some hv
        one_min := Or.inr (Option.isNone_iff_eq_none.mp hf) }

def maxNumber (maximum : Double) : Except LogicError Field :=
  f.setNumber (lit "max_number") (lit "exclusive_max_number") maximum
    f.spec.exclusiveMaxNumber.isNone { f.spec with maxNumber := some maximum }
    fun hk hv hf =>
      { f.built with
        number_only := fun h => absurd hk h
        maxNumber_finite := finite_some hv
        one_max := Or.inr (Option.isNone_iff_eq_none.mp hf) }

def exclusiveMinNumber (minimum : Double) : Except LogicError Field :=
  f.setNumber (lit "exclusive_min_number") (lit "min_number") minimum
    f.spec.minNumber.isNone { f.spec with exclusiveMinNumber := some minimum }
    fun hk hv hf =>
      { f.built with
        number_only := fun h => absurd hk h
        exclusiveMinNumber_finite := finite_some hv
        one_min := Or.inl (Option.isNone_iff_eq_none.mp hf) }

def exclusiveMaxNumber (maximum : Double) : Except LogicError Field :=
  f.setNumber (lit "exclusive_max_number") (lit "max_number") maximum
    f.spec.maxNumber.isNone { f.spec with exclusiveMaxNumber := some maximum }
    fun hk hv hf =>
      { f.built with
        number_only := fun h => absurd hk h
        exclusiveMaxNumber_finite := finite_some hv
        one_max := Or.inl (Option.isNone_iff_eq_none.mp hf) }

def defaultString (value : Bytes) : Except LogicError Field :=
  f.setIf (f.spec.kind = .string) (lit "default_string() applies to String fields only")
    { f.spec with defaultString := some value }
    fun h => { f.built with string_only := fun hk => absurd (of_decide_eq_true h) hk }

def defaultInt (value : ℤ) : Except LogicError Field :=
  f.setIf (f.spec.kind = .integer ∨ f.spec.kind = .i2cAddress)
    (lit "default_int() applies to Integer/I2cAddress fields only")
    { f.spec with defaultInt := some value }
    fun h =>
      { f.built with
        defaultInt_only := fun h1 h2 => absurd (of_decide_eq_true h) (not_or.mpr ⟨h1, h2⟩) }

def defaultNumber (value : Double) : Except LogicError Field :=
  f.setNumber (lit "default_number") [] value true
    { f.spec with defaultNumber := some value }
    fun hk hv _ =>
      { f.built with
        number_only := fun h => absurd hk h
        defaultNumber_finite := finite_some hv }

def defaultBool (value : Bool) : Except LogicError Field :=
  f.setIf (f.spec.kind = .boolean) (lit "default_bool() applies to Boolean fields only")
    { f.spec with defaultBool := some value }
    fun h => { f.built with boolean_only := fun hk => absurd (of_decide_eq_true h) hk }

def title (text : Bytes) : Field :=
  ⟨{ f.spec with title := text }, { f.built with }⟩

def description (text : Bytes) : Field :=
  ⟨{ f.spec with description := text }, { f.built with }⟩

def placeholder (text : Bytes) : Field :=
  ⟨{ f.spec with placeholder := text }, { f.built with }⟩

end Field

/-! ## Arrays and objects -/

/-- Unknown-key policy of an object. -/
inductive Openness where
  | closed
  | opened
  deriving DecidableEq

inductive Presence where
  | optional
  | required
  deriving DecidableEq

/-- A conditional branch. -/
structure When where
  requireKeys : List Bytes := []
  forbidKeys : List Bytes := []

def When.require (w : When) (key : Bytes) : When :=
  { w with requireKeys := w.requireKeys ++ [key] }

def When.forbid (w : When) (key : Bytes) : When :=
  { w with forbidKeys := w.forbidKeys ++ [key] }

structure Object.Conditional where
  key : Bytes
  equals : Bytes
  branch : When

structure Object.DeprecatedKey where
  key : Bytes
  message : Bytes

structure Object.DependentRequired where
  key : Bytes
  alsoRequired : List Bytes

/-- `Object::Spec` without its members. -/
structure Object.Spec where
  openness : Openness
  conditionals : List Object.Conditional := []
  dependentRequired : List Object.DependentRequired := []
  deprecatedKeys : List Object.DeprecatedKey := []
  title : Bytes := []
  description : Bytes := []

/-- `Array::Spec` without its items. -/
structure Array.Spec where
  minItems : Option ℕ := none
  maxItems : Option ℕ := none
  title : Bytes := []
  description : Bytes := []

mutual

/-- An object declaration. -/
structure Object where
  spec : Object.Spec
  members : List Member

/-- A member of an object. -/
inductive Member where
  | scalar (field : Field)
  | object (key : Bytes) (required : Bool) (object : Object)
  | array (key : Bytes) (required : Bool) (array : Array)

/-- An array declaration : scalar items, with their uniqueness flag, or object items. -/
inductive Array where
  | scalars (item : Field) (unique : Bool) (spec : Array.Spec)
  | objects (item : Object) (spec : Array.Spec)

end

namespace Array

def ofScalars (item : Field) : Array :=
  .scalars item false {}

def ofObjects (item : Object) : Array :=
  .objects item {}

def spec : Array → Array.Spec
  | scalars _ _ s => s
  | objects _ s => s

def setSpec (g : Array.Spec → Array.Spec) : Array → Array
  | scalars item unique s => .scalars item unique (g s)
  | objects item s => .objects item (g s)

def minItems (a : Array) (count : ℕ) : Array :=
  a.setSpec fun s => { s with minItems := some count }

def maxItems (a : Array) (count : ℕ) : Array :=
  a.setSpec fun s => { s with maxItems := some count }

def unique : Array → Except LogicError Array
  | scalars item _ s => .ok (.scalars item true s)
  | objects _ _ =>
    .error (lit "config schema: Array::unique() applies to scalar arrays only; " ++
      lit "mark the distinguishing item field with Field::unique() instead")

def title (a : Array) (text : Bytes) : Array :=
  a.setSpec fun s => { s with title := text }

def description (a : Array) (text : Bytes) : Array :=
  a.setSpec fun s => { s with description := text }

end Array

namespace Member

/-- A scalar member has its field's key and presence. -/
def key : Member → Bytes
  | scalar f => f.spec.key
  | object key _ _ => key
  | array key _ _ => key

def required : Member → Bool
  | scalar f => f.spec.required
  | object _ required _ => required
  | array _ required _ => required

end Member

namespace Object

def new (openness : Openness) : Object :=
  ⟨{ openness := openness }, []⟩

def insertMember (o : Object) (m : Member) : Except LogicError Object :=
  if m.key ∈ o.members.map Member.key then
    .error (lit "config schema: duplicate member key '" ++ m.key ++ lit "'")
  else .ok { o with members := o.members ++ [m] }

def field (o : Object) (f : Field) : Except LogicError Object :=
  o.insertMember (.scalar f)

def child (o : Object) (key : Bytes) (obj : Object) (presence : Presence) :
    Except LogicError Object :=
  o.insertMember (.object key (presence = .required) obj)

def array (o : Object) (key : Bytes) (arr : Array) (presence : Presence) :
    Except LogicError Object :=
  o.insertMember (.array key (presence = .required) arr)

def when (o : Object) (key equals : Bytes) (branch : When) : Except LogicError Object :=
  if branch.requireKeys = [] ∧ branch.forbidKeys = [] then
    .error (lit "config schema: when(" ++ key ++ lit "==" ++ equals ++
      lit "): branch requires and forbids nothing (vacuous)")
  else
    .ok { o with spec :=
      { o.spec with conditionals := o.spec.conditionals ++ [⟨key, equals, branch⟩] } }

def dependentRequired (o : Object) (key : Bytes) (alsoRequired : List Bytes) : Object :=
  { o with spec :=
    { o.spec with dependentRequired := o.spec.dependentRequired ++ [⟨key, alsoRequired⟩] } }

def deprecatedKey (o : Object) (key message : Bytes) : Object :=
  { o with spec := { o.spec with deprecatedKeys := o.spec.deprecatedKeys ++ [⟨key, message⟩] } }

def title (o : Object) (text : Bytes) : Object :=
  { o with spec := { o.spec with title := text } }

def description (o : Object) (text : Bytes) : Object :=
  { o with spec := { o.spec with description := text } }

end Object

/-! ## Distinct member keys -/

mutual

/-- Member keys are distinct, here and in every declaration below. -/
def Object.Distinct : Object → Prop
  | ⟨_, members⟩ => (members.map Member.key).Nodup ∧ membersDistinct members

def membersDistinct : List Member → Prop
  | [] => True
  | m :: ms => m.Distinct ∧ membersDistinct ms

def Member.Distinct : Member → Prop
  | .scalar _ => True
  | .object _ _ o => o.Distinct
  | .array _ _ a => a.Distinct

def Array.Distinct : Array → Prop
  | .scalars _ _ _ => True
  | .objects o _ => o.Distinct

end

theorem membersDistinct_iff {ms : List Member} :
    membersDistinct ms ↔ ∀ m ∈ ms, m.Distinct := by
  induction ms with
  | nil => simp [membersDistinct]
  | cons m ms ih => simp [membersDistinct, ih]

theorem Object.distinct_iff {o : Object} :
    o.Distinct ↔ (o.members.map Member.key).Nodup ∧ ∀ m ∈ o.members, m.Distinct := by
  obtain ⟨spec, members⟩ := o
  rw [Object.Distinct, membersDistinct_iff]

/-- Inserting a member keeps the keys distinct. -/
theorem Object.insertMember_distinct {o o' : Object} {m : Member}
    (h : o.insertMember m = .ok o') (ho : o.Distinct) (hm : m.Distinct) : o'.Distinct := by
  unfold Object.insertMember at h
  split_ifs at h with hkey
  obtain rfl := Except.ok.inj h
  rw [Object.distinct_iff] at ho ⊢
  refine ⟨Field.nodup_snoc ho.1 hkey, ?_⟩
  intro n hn
  rcases List.mem_append.mp hn with hn | hn
  · exact ho.2 n hn
  · rwa [List.mem_singleton.mp hn]

end ProviderSdk.Config

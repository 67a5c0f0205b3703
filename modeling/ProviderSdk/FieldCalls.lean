import ProviderSdk.Declaration
import ProviderSdk.Lib.Machine

/-!
# Calls on a field

The setters of `src/anolis/provider_sdk/config.cpp` change a `Field` in place, and what a
throw leaves is the state it found. `InPlace` has them so, check by check.

Each does to the `Spec` what the setter of `Declaration` gives, and a throw leaves the `Spec`
as it was (`run_inPlace`). So in any run of calls whose exceptions are caught, the `Spec` is
that of a `Field`, and keeps what a `Field` says of it (`field_calls`).
-/

namespace ProviderSdk.Config

/-- A member function of `Field` on its `spec_`. A throw keeps the state. -/
abbrev Setter : Type :=
  EStateM LogicError Field.Spec Unit

/-! ## The setters -/

namespace InPlace

def fieldError (key message : Bytes) : Setter :=
  throw (lit "config schema field '" ++ key ++ lit "': " ++ message)

/-- A check of a setter : it throws on this. -/
def refuse (bad : Field.Spec → Bool) (message : Bytes) : Setter := do
  let spec ← get
  if bad spec then fieldError spec.key message

/-- The check for the kinds a setter applies to. -/
def onlyFor (kinds : List Field.Kind) (message : Bytes) : Setter :=
  refuse (fun spec => spec.kind ∉ kinds) message

def required : Setter :=
  modify fun spec => { spec with required := true }

def nonEmpty : Setter := do
  onlyFor [.string] (lit "non_empty() applies to String fields only")
  modify fun spec => { spec with nonEmpty := true }

def unique : Setter :=
  modify fun spec => { spec with unique := true }

def pattern (anchoredEcmaRegex : Bytes) : Setter := do
  onlyFor [.string] (lit "pattern() applies to String fields only")
  modify fun spec => { spec with pattern := some anchoredEcmaRegex }

def enumValue (value title : Bytes) : Setter := do
  onlyFor [.string] (lit "enum_value() applies to String fields only")
  refuse (fun spec => value ∈ spec.enumValues.map Field.EnumValue.value)
    (lit "duplicate enum value '" ++ value ++ lit "'")
  modify fun spec => { spec with enumValues := spec.enumValues ++ [⟨value, title⟩] }

def constValue (value : Bytes) : Setter := do
  onlyFor [.string] (lit "const_value() applies to String fields only")
  modify fun spec => { spec with constValue := some value }

def forbidValue (value message : Bytes) : Setter := do
  onlyFor [.string] (lit "forbid_value() applies to String fields only")
  refuse (fun spec => value ∈ spec.forbiddenValues.map Field.ForbiddenValue.value)
    (lit "duplicate forbidden value '" ++ value ++ lit "'")
  modify fun spec => { spec with forbiddenValues := spec.forbiddenValues ++ [⟨value, message⟩] }

def minInt (minimum : ℤ) : Setter := do
  onlyFor [.integer]
    (lit "min_int() applies to Integer fields only (I2cAddress bounds are built in)")
  modify fun spec => { spec with minInt := some minimum }

def maxInt (maximum : ℤ) : Setter := do
  onlyFor [.integer]
    (lit "max_int() applies to Integer fields only (I2cAddress bounds are built in)")
  modify fun spec => { spec with maxInt := some maximum }

def minNumber (minimum : Double) : Setter := do
  onlyFor [.number] (lit "min_number() applies to Number fields only")
  refuse (fun _ => !minimum.isFinite) (lit "min_number() must be finite")
  refuse (fun spec => spec.exclusiveMinNumber.isSome)
    (lit "min_number() conflicts with exclusive_min_number()")
  modify fun spec => { spec with minNumber := some minimum }

def maxNumber (maximum : Double) : Setter := do
  onlyFor [.number] (lit "max_number() applies to Number fields only")
  refuse (fun _ => !maximum.isFinite) (lit "max_number() must be finite")
  refuse (fun spec => spec.exclusiveMaxNumber.isSome)
    (lit "max_number() conflicts with exclusive_max_number()")
  modify fun spec => { spec with maxNumber := some maximum }

def exclusiveMinNumber (minimum : Double) : Setter := do
  onlyFor [.number] (lit "exclusive_min_number() applies to Number fields only")
  refuse (fun _ => !minimum.isFinite) (lit "exclusive_min_number() must be finite")
  refuse (fun spec => spec.minNumber.isSome)
    (lit "exclusive_min_number() conflicts with min_number()")
  modify fun spec => { spec with exclusiveMinNumber := some minimum }

def exclusiveMaxNumber (maximum : Double) : Setter := do
  onlyFor [.number] (lit "exclusive_max_number() applies to Number fields only")
  refuse (fun _ => !maximum.isFinite) (lit "exclusive_max_number() must be finite")
  refuse (fun spec => spec.maxNumber.isSome)
    (lit "exclusive_max_number() conflicts with max_number()")
  modify fun spec => { spec with exclusiveMaxNumber := some maximum }

def defaultString (value : Bytes) : Setter := do
  onlyFor [.string] (lit "default_string() applies to String fields only")
  modify fun spec => { spec with defaultString := some value }

def defaultInt (value : ℤ) : Setter := do
  onlyFor [.integer, .i2cAddress] (lit "default_int() applies to Integer/I2cAddress fields only")
  modify fun spec => { spec with defaultInt := some value }

def defaultNumber (value : Double) : Setter := do
  onlyFor [.number] (lit "default_number() applies to Number fields only")
  refuse (fun _ => !value.isFinite) (lit "default_number() must be finite")
  modify fun spec => { spec with defaultNumber := some value }

def defaultBool (value : Bool) : Setter := do
  onlyFor [.boolean] (lit "default_bool() applies to Boolean fields only")
  modify fun spec => { spec with defaultBool := some value }

def title (text : Bytes) : Setter :=
  modify fun spec => { spec with title := text }

def description (text : Bytes) : Setter :=
  modify fun spec => { spec with description := text }

def placeholder (text : Bytes) : Setter :=
  modify fun spec => { spec with placeholder := text }

/-! ### Runs -/

theorem run_modify (g : Field.Spec → Field.Spec) (spec : Field.Spec) :
    (modify g : Setter).run spec = .ok () (g spec) :=
  rfl

theorem run_refuse (bad : Field.Spec → Bool) (message : Bytes) (spec : Field.Spec) :
    (refuse bad message).run spec =
      if bad spec then
        .error (lit "config schema field '" ++ spec.key ++ lit "': " ++ message) spec
      else .ok () spec := by
  change (if bad spec then fieldError spec.key message else pure ()).run spec = _
  split_ifs
  · rfl
  · rfl

/-- A check throws before anything after it is done. -/
theorem run_refuse_bind (bad : Field.Spec → Bool) (message : Bytes) (next : Setter)
    (spec : Field.Spec) : (refuse bad message >>= fun _ => next).run spec =
      if bad spec then
        .error (lit "config schema field '" ++ spec.key ++ lit "': " ++ message) spec
      else next.run spec := by
  rw [EStateM.run_bind, run_refuse]
  split_ifs
  · rfl
  · rfl

end InPlace

/-! ## Calls -/

/-- A call of a setter. -/
inductive FieldCall where
  | required
  | nonEmpty
  | unique
  | pattern (anchoredEcmaRegex : Bytes)
  | enumValue (value : Bytes)
  | enumValueTitled (value title : Bytes)
  | constValue (value : Bytes)
  | forbidValue (value message : Bytes)
  | minInt (minimum : ℤ)
  | maxInt (maximum : ℤ)
  | minNumber (minimum : Double)
  | maxNumber (maximum : Double)
  | exclusiveMinNumber (minimum : Double)
  | exclusiveMaxNumber (maximum : Double)
  | defaultString (value : Bytes)
  | defaultInt (value : ℤ)
  | defaultNumber (value : Double)
  | defaultBool (value : Bool)
  | title (text : Bytes)
  | description (text : Bytes)
  | placeholder (text : Bytes)

namespace FieldCall

/-- The call as the source makes it. -/
def inPlace : FieldCall → Setter
  | required => InPlace.required
  | nonEmpty => InPlace.nonEmpty
  | unique => InPlace.unique
  | pattern anchoredEcmaRegex => InPlace.pattern anchoredEcmaRegex
  | enumValue value => InPlace.enumValue value []
  | enumValueTitled value text => InPlace.enumValue value text
  | constValue value => InPlace.constValue value
  | forbidValue value message => InPlace.forbidValue value message
  | minInt minimum => InPlace.minInt minimum
  | maxInt maximum => InPlace.maxInt maximum
  | minNumber minimum => InPlace.minNumber minimum
  | maxNumber maximum => InPlace.maxNumber maximum
  | exclusiveMinNumber minimum => InPlace.exclusiveMinNumber minimum
  | exclusiveMaxNumber maximum => InPlace.exclusiveMaxNumber maximum
  | defaultString value => InPlace.defaultString value
  | defaultInt value => InPlace.defaultInt value
  | defaultNumber value => InPlace.defaultNumber value
  | defaultBool value => InPlace.defaultBool value
  | title text => InPlace.title text
  | description text => InPlace.description text
  | placeholder text => InPlace.placeholder text

/-- The call on a `Field` that carries its invariant. -/
def apply (f : Field) : FieldCall → Except LogicError Field
  | required => .ok f.required
  | nonEmpty => f.nonEmpty
  | unique => .ok f.unique
  | pattern anchoredEcmaRegex => f.pattern anchoredEcmaRegex
  | enumValue value => f.enumValue value []
  | enumValueTitled value text => f.enumValue value text
  | constValue value => f.constValue value
  | forbidValue value message => f.forbidValue value message
  | minInt minimum => f.minInt minimum
  | maxInt maximum => f.maxInt maximum
  | minNumber minimum => f.minNumber minimum
  | maxNumber maximum => f.maxNumber maximum
  | exclusiveMinNumber minimum => f.exclusiveMinNumber minimum
  | exclusiveMaxNumber maximum => f.exclusiveMaxNumber maximum
  | defaultString value => f.defaultString value
  | defaultInt value => f.defaultInt value
  | defaultNumber value => f.defaultNumber value
  | defaultBool value => f.defaultBool value
  | title text => .ok (f.title text)
  | description text => .ok (f.description text)
  | placeholder text => .ok (f.placeholder text)

end FieldCall

/-! ## Each setter in place -/

/-- What a setter on a `Field` gives, in place. -/
def Field.onSpec (f : Field) :
    Except LogicError Field → EStateM.Result LogicError Field.Spec Unit
  | .ok g => .ok () g.spec
  | .error e => .error e f.spec

namespace InPlace

variable {f : Field} {message : Bytes} {next : Field.Spec → Field.Spec}

/-- A check in place is the check of the `Field` setter, and so is what comes after. -/
theorem run_check {bad : Field.Spec → Bool} {rest : Setter} {p : Prop} [Decidable p]
    {passed : p → Except LogicError Field} (hbad : bad f.spec = !decide p)
    (hrest : ∀ h : p, rest.run f.spec = f.onSpec (passed h)) :
    (refuse bad message >>= fun _ => rest).run f.spec =
      f.onSpec (if h : p then passed h else Field.fieldError f.spec.key message) := by
  rw [run_refuse_bind]
  by_cases h : p
  · rw [if_neg (by simp [hbad, h]), dif_pos h, hrest h]
  · rw [if_pos (by simp [hbad, h]), dif_neg h]
    rfl

/-- The same for a check that something is not there yet. -/
theorem run_clash {bad : Field.Spec → Bool} {rest : Setter} {p : Prop} [Decidable p]
    {passed : ¬p → Except LogicError Field} (hbad : bad f.spec = decide p)
    (hrest : ∀ h : ¬p, rest.run f.spec = f.onSpec (passed h)) :
    (refuse bad message >>= fun _ => rest).run f.spec =
      f.onSpec (if h : p then Field.fieldError f.spec.key message else passed h) := by
  rw [run_refuse_bind]
  by_cases h : p
  · rw [if_pos (by simp [hbad, h]), dif_pos h]
    rfl
  · rw [if_neg (by simp [hbad, h]), dif_neg h, hrest h]

theorem run_setIf {kinds : List Field.Kind} {applies : Bool}
    (happlies : applies = decide (f.spec.kind ∈ kinds))
    (h : applies = true → (next f.spec).Built) :
    (onlyFor kinds message >>= fun _ => modify next).run f.spec =
      f.onSpec (f.setIf applies message (next f.spec) h) := by
  refine run_check ?_ fun _ => run_modify next f.spec
  simp [happlies]

theorem run_setNumber {setter conflict applies finite conflicts : Bytes} {value : Double}
    {free : Bool} {bad : Field.Spec → Bool}
    (happlies : applies = setter ++ lit "() applies to Number fields only")
    (hfinite : finite = setter ++ lit "() must be finite")
    (hconflicts : conflicts = setter ++ lit "() conflicts with " ++ conflict ++ lit "()")
    (hfree : free = !bad f.spec)
    (h : f.spec.kind = .number → value.isFinite = true → free = true → (next f.spec).Built) :
    (onlyFor [.number] applies >>= fun _ => refuse (fun _ => !value.isFinite) finite >>= fun _ =>
        refuse bad conflicts >>= fun _ => modify next).run f.spec =
      f.onSpec (f.setNumber setter conflict value free (next f.spec) h) := by
  subst happlies hfinite hconflicts
  refine run_check (by simp) fun _ => ?_
  refine run_check (by simp) fun _ => ?_
  exact run_check (by simp [hfree]) fun _ => run_modify next f.spec

/-- Nothing conflicts with a default. -/
theorem run_defaultNumber (value : Double) :
    (defaultNumber value).run f.spec = f.onSpec (f.defaultNumber value) := by
  refine run_check (by simp) fun _ => ?_
  exact run_check (by simp) fun _ => run_modify _ f.spec

theorem run_enumValue (value title : Bytes) :
    (enumValue value title).run f.spec = f.onSpec (f.enumValue value title) := by
  refine run_check (by simp) fun _ => ?_
  exact run_clash rfl fun _ => run_modify _ f.spec

theorem run_forbidValue (value message : Bytes) :
    (forbidValue value message).run f.spec = f.onSpec (f.forbidValue value message) := by
  refine run_check (by simp) fun _ => ?_
  exact run_clash rfl fun _ => run_modify _ f.spec

end InPlace

/-- A call in place does what the setter on the `Field` gives. -/
theorem FieldCall.run_inPlace (call : FieldCall) (f : Field) :
    call.inPlace.run f.spec = f.onSpec (call.apply f) := by
  have hkind : ∀ kind, decide (f.spec.kind = kind) = decide (f.spec.kind ∈ [kind]) := by simp
  cases call with
  | required | unique | title | description | placeholder => rfl
  | nonEmpty => exact InPlace.run_setIf (hkind .string) _
  | pattern anchoredEcmaRegex => exact InPlace.run_setIf (hkind .string) _
  | enumValue value => exact InPlace.run_enumValue value []
  | enumValueTitled value text => exact InPlace.run_enumValue value text
  | constValue value => exact InPlace.run_setIf (hkind .string) _
  | forbidValue value message => exact InPlace.run_forbidValue value message
  | minInt minimum => exact InPlace.run_setIf (hkind .integer) _
  | maxInt maximum => exact InPlace.run_setIf (hkind .integer) _
  | minNumber minimum =>
    exact InPlace.run_setNumber (by decide) (by decide) (by decide) (by simp) _
  | maxNumber maximum =>
    exact InPlace.run_setNumber (by decide) (by decide) (by decide) (by simp) _
  | exclusiveMinNumber minimum =>
    exact InPlace.run_setNumber (by decide) (by decide) (by decide) (by simp) _
  | exclusiveMaxNumber maximum =>
    exact InPlace.run_setNumber (by decide) (by decide) (by decide) (by simp) _
  | defaultString value => exact InPlace.run_setIf (hkind .string) _
  | defaultInt value => exact InPlace.run_setIf (by simp) _
  | defaultNumber value => exact InPlace.run_defaultNumber value
  | defaultBool value => exact InPlace.run_setIf (hkind .boolean) _

/-! ## Runs -/

/-- A call whose exception is caught. -/
def FieldCall.caught : Machine FieldCall (Except LogicError Unit) Field.Spec := fun call spec =>
  match call.inPlace.run spec with
  | .ok () after => (.ok (), after)
  | .error message after => (.error message, after)

/-- The same on a `Field`, which a throw leaves as it was. -/
def FieldCall.onField : Machine FieldCall (Except LogicError Unit) Field := fun call f =>
  match call.apply f with
  | .ok g => (.ok (), g)
  | .error message => (.error message, f)

theorem FieldCall.caught_spec (call : FieldCall) (f : Field) :
    FieldCall.caught call f.spec =
      ((FieldCall.onField call f).1, (FieldCall.onField call f).2.spec) := by
  rw [FieldCall.caught, FieldCall.onField, call.run_inPlace f]
  cases call.apply f with
  | ok g => rfl
  | error message => rfl

/-- The `Spec` after some calls. -/
def afterFieldCalls (spec : Field.Spec) (calls : List FieldCall) : Field.Spec :=
  (FieldCall.caught.run calls spec).2

/-- It is the `Spec` of a `Field`. -/
theorem afterFieldCalls_spec (calls : List FieldCall) (f : Field) :
    afterFieldCalls f.spec calls = (FieldCall.onField.run calls f).2.spec := by
  refine (Machine.run_simulates (R := fun (spec : Field.Spec) (f : Field) => spec = f.spec)
    ?_ calls rfl).2
  rintro call _ f rfl
  rw [FieldCall.caught_spec]
  exact ⟨rfl, rfl⟩

theorem Field.setIf_eq_ok {f g : Field} {applies : Bool} {message : Bytes} {next : Field.Spec}
    {h : applies = true → next.Built} (hg : f.setIf applies message next h = .ok g) :
    g.spec = next := by
  unfold Field.setIf at hg
  split_ifs at hg
  · exact congrArg Field.spec (Except.ok.inj hg).symm
  · cases hg

theorem Field.setNumber_eq_ok {f g : Field} {setter conflict : Bytes} {value : Double}
    {free : Bool} {next : Field.Spec}
    {h : f.spec.kind = .number → value.isFinite = true → free = true → next.Built}
    (hg : f.setNumber setter conflict value free next h = .ok g) : g.spec = next := by
  unfold Field.setNumber at hg
  split_ifs at hg
  · exact congrArg Field.spec (Except.ok.inj hg).symm
  all_goals cases hg

/-- No setter changes the key or the kind. -/
theorem FieldCall.apply_keeps {call : FieldCall} {f g : Field} (h : call.apply f = .ok g) :
    g.spec.key = f.spec.key ∧ g.spec.kind = f.spec.kind := by
  cases call with
  | required | unique | title | description | placeholder =>
    obtain rfl := Except.ok.inj h
    exact ⟨rfl, rfl⟩
  | nonEmpty | pattern | constValue | minInt | maxInt | defaultString | defaultInt | defaultBool =>
    rw [Field.setIf_eq_ok h]
    exact ⟨rfl, rfl⟩
  | minNumber | maxNumber | exclusiveMinNumber | exclusiveMaxNumber | defaultNumber =>
    rw [Field.setNumber_eq_ok h]
    exact ⟨rfl, rfl⟩
  | enumValue | enumValueTitled =>
    rw [FieldCall.apply, Field.enumValue] at h
    split_ifs at h <;> cases h
    exact ⟨rfl, rfl⟩
  | forbidValue =>
    rw [FieldCall.apply, Field.forbidValue] at h
    split_ifs at h <;> cases h
    exact ⟨rfl, rfl⟩

theorem FieldCall.run_onField_keeps (calls : List FieldCall) (f : Field) :
    let g := (FieldCall.onField.run calls f).2
    g.spec.key = f.spec.key ∧ g.spec.kind = f.spec.kind := by
  refine Machine.run_history FieldCall.onField (I := fun _ (g : Field) =>
    g.spec.key = f.spec.key ∧ g.spec.kind = f.spec.kind) ⟨rfl, rfl⟩ ?_ calls
  intro _ call g hg
  rw [FieldCall.onField]
  cases happly : call.apply g with
  | ok g' =>
    obtain ⟨hkey, hkind⟩ := FieldCall.apply_keeps happly
    exact ⟨hkey.trans hg.1, hkind.trans hg.2⟩
  | error message => exact hg

/-- The factory of a kind. -/
def fieldFactory : Field.Kind → Bytes → Except LogicError Field
  | .string => Field.stringField
  | .integer => Field.integerField
  | .number => Field.numberField
  | .boolean => Field.booleanField
  | .i2cAddress => Field.i2cAddressField

theorem spec_fieldFactory {kind : Field.Kind} {key : Bytes} {f : Field}
    (h : fieldFactory kind key = .ok f) : f.spec.key = key ∧ f.spec.kind = kind := by
  have hnew : Field.new key kind = .ok f := by
    cases kind <;> exact h
  unfold Field.new at hnew
  split_ifs at hnew
  obtain rfl := Except.ok.inj hnew
  exact ⟨rfl, rfl⟩

/-- After any calls on a field from a factory, its `Spec` is one that has only constraints of
the field's kind, with finite numbers, one bound a side and no value twice. A call that throws
leaves it. -/
theorem field_calls {kind : Field.Kind} {key : Bytes} {f : Field}
    (hmade : fieldFactory kind key = .ok f) (calls : List FieldCall) :
    let spec := afterFieldCalls f.spec calls
    spec.Built ∧ spec.key = key ∧ spec.kind = kind ∧
      ∀ (call : FieldCall) (message : LogicError) (after : Field.Spec),
        call.inPlace.run spec = .error message after → after = spec := by
  dsimp only
  rw [afterFieldCalls_spec]
  obtain ⟨hkey, hkind⟩ := spec_fieldFactory hmade
  obtain ⟨hkey', hkind'⟩ := FieldCall.run_onField_keeps calls f
  generalize (FieldCall.onField.run calls f).2 = g at hkey' hkind'
  refine ⟨g.built, hkey'.trans hkey, hkind'.trans hkind, fun call message after h => ?_⟩
  rw [call.run_inPlace] at h
  cases happly : call.apply g with
  | ok g' =>
    rw [happly] at h
    cases h
  | error message' =>
    rw [happly] at h
    cases h
    rfl

/-- A value that is listed and a bound that does not apply are refused in between. -/
theorem field_calls_between :
    let spec := afterFieldCalls { key := lit "mode", kind := .string }
      [.enumValue (lit "off"), .minInt 3, .enumValueTitled (lit "off") (lit "Off"),
        .enumValue (lit "on")]
    spec.Built ∧ spec.enumValues = [⟨lit "off", []⟩, ⟨lit "on", []⟩] ∧ spec.minInt = none := by
  have hmade : fieldFactory .string (lit "mode") = .ok ⟨{ key := lit "mode", kind := .string },
    Field.Spec.built_new (by decide) _⟩ := rfl
  exact ⟨(field_calls hmade _).1, by decide, by decide⟩

end ProviderSdk.Config

import ProviderSdk.Messages

/-!
# Call-argument validation and the typed getters

`src/anolis/provider_sdk/call_validation.cpp` and the getters of `values.hpp`. The
validator and the getters read a `Value` twice over : the type tag and the field that is
set. `checkType` accepts a value whose tag is the declared type or unspecified, and
whose field is the declared type's or none. A getter asks for the tag alone.

`validateCallArgs_eq_none_iff` says what the validator accepts, one argument at a time.
`getters_deliver_iff` is the agreement of the two readings : on accepted arguments, the
getters deliver what was validated exactly when no present argument is untagged.
-/

namespace ProviderSdk

/-- `std::ostringstream << double`, which prints at most a sign, six digits, a point and
a three-digit exponent. -/
structure NumberPrinter where
  print : Double → Bytes
  length_print : ∀ v, (print v).length ≤ 13

/-! ## Echoing request fields -/

/-- At most this many bytes of a request field are quoted. -/
def kMaxEchoBytes : ℕ :=
  64

/-- The cut of `echo` : back from `end` past the bytes that continue a character. -/
def echoEnd (field : Bytes) : ℕ → ℕ
  | 0 => 0
  | n + 1 => if field.getD (n + 1) 0 &&& 0xC0 = 0x80 then echoEnd field n else n + 1

/-- `field` cut to `kMaxEchoBytes` on a character boundary, `...` marking the cut. -/
def echo (field : Bytes) : Bytes :=
  if field.length ≤ kMaxEchoBytes then field
  else field.take (echoEnd field kMaxEchoBytes) ++ lit "..."

/-! ## The validator -/

structure ArgError where
  code : Status.Code
  message : Bytes
  deriving DecidableEq

/-- The oneof field that carries a value of each declared type. -/
def fieldFor : ValueType → Value.KindCase
  | .bool => .boolValue
  | .int64 => .int64Value
  | .uint64 => .uint64Value
  | .double => .doubleValue
  | .string => .stringValue
  | .bytes => .bytesValue
  | .unspecified => .notSet
  | .other _ => .notSet

def typeName : ValueType → Bytes
  | .unspecified => lit "VALUE_TYPE_UNSPECIFIED"
  | .double => lit "VALUE_TYPE_DOUBLE"
  | .int64 => lit "VALUE_TYPE_INT64"
  | .uint64 => lit "VALUE_TYPE_UINT64"
  | .bool => lit "VALUE_TYPE_BOOL"
  | .string => lit "VALUE_TYPE_STRING"
  | .bytes => lit "VALUE_TYPE_BYTES"
  | .other n => toStringInt n

def quoted (name : Bytes) : Bytes :=
  lit "'" ++ name ++ lit "'"

def invalid (message : Bytes) : ArgError :=
  ⟨.invalidArgument, message⟩

def outOfRange (message : Bytes) : ArgError :=
  ⟨.outOfRange, message⟩

/-- Rule 3 : the tag is the declared type or unspecified, and the field set is the
declared type's or none. An unspecified tag with no field is empty. -/
def checkType (arg : ArgSpec) (value : Value) : Option ArgError :=
  let expected := fieldFor arg.type
  if expected = .notSet then none
  else
    let tagOk := value.type = arg.type ∨ value.type = .unspecified
    let fieldOk := value.kindCase = expected ∨ value.kindCase = .notSet
    if ¬tagOk ∨ ¬fieldOk then
      some (invalid (lit "argument " ++ quoted arg.name ++ lit " expects " ++ typeName arg.type ++
        lit ", got " ++ typeName value.type))
    else if value.type = .unspecified ∧ value.kindCase = .notSet then
      some (invalid (lit "argument " ++ quoted arg.name ++ lit " expects " ++ typeName arg.type ++
        lit ", got an empty value"))
    else none

/-- `(has_min && v < min) || (has_max && v > max)`. -/
def outside {α : Type} (lt : α → α → Bool) (min max : Option α) (v : α) : Bool :=
  min.any (fun m => lt v m) || max.any (fun m => lt m v)

/-- Rules 4 and 5 for one argument whose type is already checked. -/
def checkBounds (number : NumberPrinter) (arg : ArgSpec) (value : Value) : Option ArgError :=
  let name := quoted arg.name
  let outsideError (v : Bytes) : ArgError :=
    outOfRange (lit "argument " ++ name ++ lit " = " ++ v ++ lit " is outside its declared bounds")
  match arg.type with
  | .double =>
    let v := value.doubleValue
    if !v.isFinite then
      some (invalid (lit "argument " ++ name ++ lit " must be finite, got " ++ number.print v))
    else if outside Floating.Value.lt arg.minDouble arg.maxDouble v then
      some (outsideError (number.print v))
    else none
  | .int64 =>
    let v := value.int64Value
    if outside (fun a b => decide (a < b)) arg.minInt64 arg.maxInt64 v then
      some (outsideError (toStringInt v))
    else none
  | .uint64 =>
    let v := value.uint64Value
    if outside (fun a b => decide (a < b)) arg.minUint64 arg.maxUint64 v then
      some (outsideError (toStringNat v))
    else none
  | _ => none

/-- Rule 6 : `allowed_values` constrains string arguments; any other value is outside it. -/
def checkAllowed (arg : ArgSpec) (value : Value) : Option ArgError :=
  if arg.allowedValues = [] then none
  else if arg.type = .string ∧ value.stringValue ∈ arg.allowedValues then none
  else
    some (invalid (lit "argument " ++ quoted arg.name ++ lit " must be one of [" ++
      (lit ", ").intercalate (arg.allowedValues.map quoted) ++ lit "]"))

/-- Rules 2 to 6 for one declared argument. -/
def checkArg (number : NumberPrinter) (spec : FunctionSpec) (args : ValueMap) (arg : ArgSpec) :
    Option ArgError :=
  match args.lookup arg.name with
  | none =>
    if arg.required then some (invalid (spec.name ++ lit " requires argument " ++ quoted arg.name))
    else none
  | some value =>
    (checkType arg value).or ((checkBounds number arg value).or (checkAllowed arg value))

/-- The names of `args` the function does not declare. -/
def undeclaredNames (spec : FunctionSpec) (args : ValueMap) : List Bytes :=
  args.keys.filter fun name => name ∉ spec.args.map ArgSpec.name

/-- The first rule `args` breaks for `spec`, or `none` when they are valid. -/
def validateCallArgs (number : NumberPrinter) (spec : FunctionSpec) (args : ValueMap) :
    Option ArgError :=
  match leastBytes (undeclaredNames spec args) with
  | some name => some (invalid (spec.name ++ lit " takes no argument " ++ quoted (echo name)))
  | none => spec.args.findSome? (checkArg number spec args)

/-! ## The getters -/

/-- One getter : the field `field` of the value under `key`, if its tag is `type`. -/
def getArg {α : Type} (type : ValueType) (field : Value → α) (args : ValueMap) (key : Bytes) :
    Option α :=
  match args.lookup key with
  | none => none
  | some value => if value.type = type then some (field value) else none

def getArgBool (args : ValueMap) (key : Bytes) : Option Bool :=
  getArg .bool Value.boolValue args key

def getArgInt64 (args : ValueMap) (key : Bytes) : Option ℤ :=
  getArg .int64 Value.int64Value args key

def getArgUint64 (args : ValueMap) (key : Bytes) : Option ℕ :=
  getArg .uint64 Value.uint64Value args key

def getArgDouble (args : ValueMap) (key : Bytes) : Option Double :=
  getArg .double Value.doubleValue args key

def getArgString (args : ValueMap) (key : Bytes) : Option Bytes :=
  getArg .string Value.stringValue args key

/-! ## What the validator accepts -/

/-- The validator accepts exactly the arguments that are all declared and break no rule
of the argument declared under their name. -/
theorem validateCallArgs_eq_none_iff (number : NumberPrinter) (spec : FunctionSpec)
    (args : ValueMap) :
    validateCallArgs number spec args = none ↔
      (∀ name ∈ args.keys, name ∈ spec.args.map ArgSpec.name) ∧
        ∀ arg ∈ spec.args, checkArg number spec args arg = none := by
  have hnames : leastBytes (undeclaredNames spec args) = none ↔
      ∀ name ∈ args.keys, name ∈ spec.args.map ArgSpec.name := by
    rw [leastBytes_eq_none, undeclaredNames, List.filter_eq_nil_iff]
    simp
  rw [← hnames, validateCallArgs]
  cases leastBytes (undeclaredNames spec args) with
  | none => simp
  | some name => simp

/-- The validator's errors are errors. -/
theorem checkArg_code {number : NumberPrinter} {spec : FunctionSpec} {args : ValueMap}
    {arg : ArgSpec} {err : ArgError} (h : checkArg number spec args arg = some err) :
    err.code ≠ .ok := by
  have htype : ∀ value, checkType arg value = some err → err.code ≠ .ok := by
    intro value h
    unfold checkType at h
    dsimp only at h
    split_ifs at h <;> (cases h; exact Status.Code.noConfusion)
  have hbounds : ∀ value, checkBounds number arg value = some err → err.code ≠ .ok := by
    intro value h
    unfold checkBounds at h
    dsimp only at h
    split at h
    · split_ifs at h <;> (cases h; exact Status.Code.noConfusion)
    · split_ifs at h
      cases h
      exact Status.Code.noConfusion
    · split_ifs at h
      cases h
      exact Status.Code.noConfusion
    · cases h
  have hallowed : ∀ value, checkAllowed arg value = some err → err.code ≠ .ok := by
    intro value h
    unfold checkAllowed at h
    split_ifs at h
    cases h
    exact Status.Code.noConfusion
  unfold checkArg at h
  split at h
  · split_ifs at h
    cases h
    exact Status.Code.noConfusion
  · rcases Option.or_eq_some_iff.mp h with h | ⟨-, h⟩
    · exact htype _ h
    · rcases Option.or_eq_some_iff.mp h with h | ⟨-, h⟩
      · exact hbounds _ h
      · exact hallowed _ h

theorem validateCallArgs_code {number : NumberPrinter} {spec : FunctionSpec} {args : ValueMap}
    {err : ArgError} (h : validateCallArgs number spec args = some err) : err.code ≠ .ok := by
  unfold validateCallArgs at h
  split at h
  · cases h
    exact Status.Code.noConfusion
  · obtain ⟨arg, -, harg⟩ := List.exists_of_findSome?_eq_some h
    exact checkArg_code harg

theorem checkType_of_checkArg {number : NumberPrinter} {spec : FunctionSpec} {args : ValueMap}
    {arg : ArgSpec} {value : Value} (h : checkArg number spec args arg = none)
    (hv : args.lookup arg.name = some value) : checkType arg value = none := by
  simp only [checkArg, hv, Option.or_eq_none_iff] at h
  exact h.1

/-- A declared type one of the getters reads. -/
def ValueType.HasGetter : ValueType → Prop
  | .bool | .int64 | .uint64 | .double | .string => True
  | .unspecified | .bytes | .other _ => False

theorem fieldFor_ne_notSet {t : ValueType} (h : t.HasGetter) : fieldFor t ≠ .notSet := by
  cases t <;> simp_all [fieldFor, ValueType.HasGetter]

/-- An accepted value is tagged with the declared type, or not tagged at all. -/
theorem type_of_checkType {arg : ArgSpec} {value : Value} (ht : arg.type.HasGetter)
    (h : checkType arg value = none) : value.type = arg.type ∨ value.type = .unspecified := by
  unfold checkType at h
  simp only [fieldFor_ne_notSet ht, if_false] at h
  split_ifs at h with hbad
  exact (not_or.mp hbad).1 |> not_not.mp

/-- The getter of the argument's type delivers the field the validator read. -/
def Delivers (args : ValueMap) (arg : ArgSpec) (value : Value) : Prop :=
  match arg.type with
  | .bool => getArgBool args arg.name = some value.boolValue
  | .int64 => getArgInt64 args arg.name = some value.int64Value
  | .uint64 => getArgUint64 args arg.name = some value.uint64Value
  | .double => getArgDouble args arg.name = some value.doubleValue
  | .string => getArgString args arg.name = some value.stringValue
  | .unspecified | .bytes | .other _ => True

/-- A getter delivers a value exactly when the value has its tag. -/
theorem getArg_eq_some_iff {α : Type} {type : ValueType} {field : Value → α} {args : ValueMap}
    {key : Bytes} {value : Value} (hv : args.lookup key = some value) :
    getArg type field args key = some (field value) ↔ value.type = type := by
  simp only [getArg, hv]
  split_ifs with h <;> simp [h]

theorem delivers_iff {args : ValueMap} {arg : ArgSpec} {value : Value}
    (ht : arg.type.HasGetter) (hv : args.lookup arg.name = some value) :
    Delivers args arg value ↔ value.type = arg.type := by
  unfold Delivers
  cases hty : arg.type <;> simp only [hty, ValueType.HasGetter] at ht
  all_goals exact getArg_eq_some_iff hv

/-- On validated arguments, every getter delivers what was validated exactly when every
present argument of its types carries a type tag. -/
theorem getters_deliver_iff (number : NumberPrinter) (spec : FunctionSpec) (args : ValueMap)
    (h : validateCallArgs number spec args = none) :
    (∀ arg ∈ spec.args, arg.type.HasGetter → ∀ value, args.lookup arg.name = some value →
        Delivers args arg value) ↔
      ∀ arg ∈ spec.args, arg.type.HasGetter → ∀ value, args.lookup arg.name = some value →
        value.type ≠ .unspecified := by
  have hargs := ((validateCallArgs_eq_none_iff number spec args).mp h).2
  refine forall₂_congr fun arg harg => forall_congr' fun ht => forall₂_congr fun value hv => ?_
  rw [delivers_iff ht hv]
  constructor
  · intro heq h0
    rw [heq] at h0
    simp [h0, ValueType.HasGetter] at ht
  · intro hne
    exact (type_of_checkType ht (checkType_of_checkArg (hargs arg harg) hv)).resolve_right hne

/-! ### An untagged argument -/

/-- A printer for runs that print no number. -/
def NumberPrinter.silent : NumberPrinter :=
  ⟨fun _ => [], by simp⟩

/-- `0.5`. -/
def half : Double :=
  .finite (1 / 2) ⟨by norm_num, 1, -1, by decide, by decide, by decide, by norm_num⟩

/-- `level: double in [0, 1]`, required. -/
def levelArg : ArgSpec :=
  { name := lit "level", type := .double, required := true
    minDouble := some (.zero false), maxDouble := some (Floating.binary64.round 1)
    minInt64 := none, maxInt64 := none, minUint64 := none, maxUint64 := none
    allowedValues := [] }

/-- `set_level(level)`. -/
def setLevelSpec : FunctionSpec :=
  { functionId := 1, name := lit "set_level", args := [levelArg] }

def levelArgs (type : ValueType) : ValueMap :=
  (∅ : ValueMap).insert (lit "level") ⟨type, .doubleValue half⟩

/-- An untagged `0.5` passes the validator, and no getter delivers it. -/
theorem getters_miss_untagged :
    validateCallArgs .silent setLevelSpec (levelArgs .unspecified) = none ∧
      ¬∀ arg ∈ setLevelSpec.args, arg.type.HasGetter → ∀ value,
        (levelArgs .unspecified).lookup arg.name = some value →
          Delivers (levelArgs .unspecified) arg value := by
  refine ⟨by decide +kernel, fun h => ?_⟩
  have hv : (levelArgs .unspecified).lookup levelArg.name =
      some ⟨.unspecified, .doubleValue half⟩ := AList.lookup_insert _
  have hd := h levelArg (List.mem_singleton_self _) trivial _ hv
  have ht : levelArg.type.HasGetter := trivial
  exact absurd ((delivers_iff ht hv).mp hd) (by decide)

/-- A tagged `0.5` is delivered. -/
theorem getters_deliver_tagged :
    (∀ arg ∈ setLevelSpec.args, arg.type.HasGetter → ∀ value,
        (levelArgs .double).lookup arg.name = some value → Delivers (levelArgs .double) arg value) ↔
      ∀ arg ∈ setLevelSpec.args, arg.type.HasGetter → ∀ value,
        (levelArgs .double).lookup arg.name = some value → value.type ≠ .unspecified :=
  getters_deliver_iff .silent setLevelSpec (levelArgs .double) (by decide +kernel)

end ProviderSdk

import ProviderSdk.SchemaCheck

/-!
# The validator

`validate` of `src/anolis/provider_sdk/config_validate.cpp` : a walk over a declaration
and a document that collects errors, each with the path it is about. Uniqueness compares
canonical strings, kept in sets as the items go by.
-/

namespace ProviderSdk.Config

/-- One validation failure. -/
structure ValidationError where
  path : Bytes
  message : Bytes
  deriving DecidableEq

/-! ## Nodes and paths -/

namespace Node

/-- `IsScalar` and `Scalar()`. -/
def scalarText : Node → Option Bytes
  | scalar _ text => some text
  | _ => none

end Node

/-- The entries of a parsed map. -/
abbrev Entries := List (Node × Node)

/-- `node[key]` of a map : the value of the first entry with that scalar key. -/
def Entries.valueAt (entries : Entries) (key : Bytes) : Option Node :=
  (entries.find? fun e => e.1.scalarText = some key).map Prod.snd

def childPath (base key : Bytes) : Bytes :=
  if base = [] then key else base ++ lit "." ++ key

def indexPath (base : Bytes) (index : ℕ) : Bytes :=
  base ++ lit "[" ++ toStringNat index ++ lit "]"

/-- The path of an error about a map itself. -/
def mapPath (path : Bytes) : Bytes :=
  if path = [] then lit "(root)" else path

/-! ## Fields -/

/-- `allowed` of the enum message : the values with commas between. The source adds a comma
when what it has is not empty. -/
def allowedValues : Bytes → List Field.EnumValue → Bytes
  | acc, [] => acc
  | acc, ev :: evs =>
    allowedValues ((if acc = [] then acc else acc ++ lit ", ") ++ ev.value) evs

def forbiddenMessage (value : Bytes) (forbidden : Field.ForbiddenValue) : Bytes :=
  if forbidden.message = [] then lit "value '" ++ value ++ lit "' is not allowed"
  else forbidden.message

/-- `add_error`, if the condition holds. -/
def errorIf (bad : Bool) (path message : Bytes) : List ValidationError :=
  if bad then [⟨path, message⟩] else []

def validateStringConstraints (stl : Stl) (spec : Field.Spec) (value path : Bytes) :
    List ValidationError :=
  errorIf (spec.nonEmpty && value.isEmpty) path (lit "must not be empty") ++
  match spec.constValue.filter fun c => value ≠ c with
  | some c => [⟨path, lit "must be '" ++ c ++ lit "'"⟩]
  | none =>
    if spec.enumValues ≠ [] ∧ isEnumValue spec value = false then
      [⟨path, lit "invalid value '" ++ value ++ lit "'; valid values: " ++
        allowedValues [] spec.enumValues⟩]
    else
      errorIf (!stl.matches spec.pattern value) path
        (lit "must match " ++ spec.pattern.getD []) ++
      (spec.forbiddenValues.filter fun forbidden => forbidden.value = value).map fun forbidden =>
        ⟨path, forbiddenMessage value forbidden⟩

/-- The error of a bound, if the value is on the wrong side of it. -/
def boundError {α : Type} (bound : Option α) (bad : α → Bool) (path sign : Bytes)
    (print : α → Bytes) : List ValidationError :=
  match bound with
  | none => []
  | some b => errorIf (bad b) path (lit "must be " ++ sign ++ lit " " ++ print b)

def validateInteger (spec : Field.Spec) (value : ℤ) (path : Bytes) : List ValidationError :=
  boundError spec.minInt (fun b => value < b) path (lit ">=") toStringInt ++
  boundError spec.maxInt (fun b => b < value) path (lit "<=") toStringInt

def validateNumber (stl : Stl) (spec : Field.Spec) (value : Double) (path : Bytes) :
    List ValidationError :=
  if value.isFinite then
    boundError spec.minNumber (fun b => value.lt b) path (lit ">=") stl.formatDouble ++
    boundError spec.exclusiveMinNumber (fun b => value.le b) path (lit ">") stl.formatDouble ++
    boundError spec.maxNumber (fun b => b.lt value) path (lit "<=") stl.formatDouble ++
    boundError spec.exclusiveMaxNumber (fun b => b.le value) path (lit "<") stl.formatDouble
  else [⟨path, lit "must be a finite number"⟩]

/-- The `double` a Number field reads : an integer is converted. -/
def numberOf : Resolved → Option Double
  | .int i => some (doubleOfInt i)
  | .float v => some v
  | _ => none

def typeError (path expected : Bytes) (resolved : Resolved) : List ValidationError :=
  [⟨path, lit "must be " ++ expected ++ lit ", got " ++ kindName resolved.kind⟩]

/-- An integer, or a float that is one. -/
def integerLike : Resolved → Bool
  | .int _ => true
  | .float v => (integerOf (.float v)).isSome
  | _ => false

def validateField (stl : Stl) (spec : Field.Spec) (node : Node) (path : Bytes) :
    List ValidationError :=
  match spec.kind with
  | .string =>
    match node.resolve with
    | .string s => validateStringConstraints stl spec s path
    | _ => typeError path (lit "a string") node.resolve
  | .integer =>
    match integerOf node.resolve with
    | some value => validateInteger spec value path
    | none => typeError path (lit "an integer") node.resolve
  | .number =>
    match numberOf node.resolve with
    | some value => validateNumber stl spec value path
    | none => typeError path (lit "a number") node.resolve
  | .boolean =>
    if node.resolve.kind = .bool then []
    else typeError path (lit "a boolean (true/false)") node.resolve
  | .i2cAddress =>
    if !integerLike node.resolve && node.resolve.kind ≠ .string then
      typeError path (lit "an integer or 0x-prefixed hex string") node.resolve
    else
      errorIf (i2cAddressOf node.resolve).isNone path
        (lit "must be an I2C address in the 0x08-0x77 range (integer or 0xNN string)")

/-! ## Uniqueness -/

/-- `-0.0` as `0.0`. -/
def normalizeZero (v : Double) : Double :=
  if v.eq (.zero false) then .zero false else v

/-- The string that stands for a node's parsed value in uniqueness comparisons. None if
the node does not have the field's type. -/
def canonicalValue (stl : Stl) (spec : Field.Spec) (node : Node) : Option Bytes :=
  match spec.kind with
  | .string =>
    match node.resolve with
    | .string s => some (lit "s:" ++ s)
    | _ => none
  | .integer => (integerOf node.resolve).map fun i => lit "i:" ++ toStringInt i
  | .number =>
    match node.resolve with
    | .int i => some (lit "f:" ++ stl.formatDouble (doubleOfInt i))
    | .float v =>
      if v.isFinite then some (lit "f:" ++ stl.formatDouble (normalizeZero v)) else none
    | _ => none
  | .boolean =>
    match node.resolve with
    | .bool true => some (lit "b:1")
    | .bool false => some (lit "b:0")
    | _ => none
  | .i2cAddress => (i2cAddressOf node.resolve).map fun a => lit "i:" ++ toStringInt a

/-- `insert(…).second` of a set is false : the value was there. -/
def repeats {α : Type} [DecidableEq α] (seen : List α) : Option α → Bool
  | none => false
  | some a => decide (a ∈ seen)

/-- The set after the insertion. -/
def insertSeen {α : Type} (seen : List α) : Option α → List α
  | none => seen
  | some a => a :: seen

/-! ## Keys of a map -/

/-- Errors of the loop over the keys : a key that is not a scalar, or that repeats. -/
def keyErrors (path : Bytes) : List Bytes → Entries → List ValidationError
  | _, [] => []
  | seen, (k, _) :: entries =>
    match k.scalarText with
    | none => ⟨mapPath path, lit "keys must be scalars"⟩ :: keyErrors path seen entries
    | some key =>
      if key ∈ seen then ⟨childPath path key, lit "duplicate key"⟩ :: keyErrors path seen entries
      else keyErrors path (key :: seen) entries

/-- `present` after the loop over the keys : each scalar key once, in document order. -/
def presentKeys : List Bytes → Entries → List Bytes
  | _, [] => []
  | seen, (k, _) :: entries =>
    match k.scalarText with
    | none => presentKeys seen entries
    | some key =>
      if key ∈ seen then presentKeys seen entries else key :: presentKeys (key :: seen) entries

/-- A deprecated key has its own message, and an unknown key of a Closed object is an error. -/
def unknownKeyErrors (spec : Object.Spec) (members : List Member) (path key : Bytes) :
    List ValidationError :=
  match spec.deprecatedKeys.find? fun dep => dep.key = key with
  | some dep =>
    [⟨childPath path key,
      if dep.message = [] then lit "is no longer supported" else dep.message⟩]
  | none =>
    errorIf (spec.openness = .closed && decide (key ∉ members.map Member.key))
      (childPath path key) (lit "unknown key")

/-- Errors of a conditional branch, if its discriminator resolves to its string. -/
def conditionalErrors (path : Bytes) (entries : Entries) (present : List Bytes)
    (c : Object.Conditional) : List ValidationError :=
  if resolveScalar (Entries.valueAt entries c.key) = .string c.equals then
    ((c.branch.requireKeys.filter fun key => key ∉ present).map fun key =>
      ⟨childPath path key, lit "is required when " ++ c.key ++ lit " is '" ++ c.equals ++ lit "'"⟩) ++
    ((c.branch.forbidKeys.filter fun key => key ∈ present).map fun key =>
      ⟨childPath path key, lit "is not valid when " ++ c.key ++ lit " is '" ++ c.equals ++ lit "'"⟩)
  else []

def dependentErrors (path : Bytes) (present : List Bytes) (d : Object.DependentRequired) :
    List ValidationError :=
  if d.key ∈ present then
    (d.alsoRequired.filter fun key => key ∉ present).map fun key =>
      ⟨childPath path key, lit "is required when " ++ d.key ++ lit " is present"⟩
  else []

/-! ## Arrays -/

/-- Errors about the number of items. -/
def countErrors (spec : Array.Spec) (size : ℕ) (path : Bytes) : List ValidationError :=
  errorIf (spec.minItems.any fun min => size < min) path
    (lit "must have at least " ++ toStringNat (spec.minItems.getD 0) ++ lit " item(s)") ++
  errorIf (spec.maxItems.any fun max => max < size) path
    (lit "must have at most " ++ toStringNat (spec.maxItems.getD 0) ++ lit " item(s)")

/-- The loop over scalar items, from index `i`. -/
def scalarItemErrors (stl : Stl) (item : Field.Spec) (unique : Bool) (path : Bytes) :
    ℕ → List Bytes → List Node → List ValidationError
  | _, _, [] => []
  | i, seen, n :: ns =>
    let canonical := if unique then canonicalValue stl item n else none
    validateField stl item n (indexPath path i) ++
    errorIf (repeats seen canonical) (indexPath path i) (lit "duplicate value") ++
    scalarItemErrors stl item unique path (i + 1) (insertSeen seen canonical) ns

/-- The key and canonical value of a unique member, if the item has one. -/
def uniqueEntry (stl : Stl) (m : Member) (entries : Entries) : Option (Bytes × Bytes) :=
  match m with
  | .scalar f =>
    if f.spec.unique then
      ((Entries.valueAt entries f.spec.key).bind (canonicalValue stl f.spec)).map
        fun canonical => (f.spec.key, canonical)
    else none
  | _ => none

/-- The loop over the unique members of one item. -/
def uniqueErrors (stl : Stl) (itemPath : Bytes) (entries : Entries) :
    List (Bytes × Bytes) → List Member → List ValidationError × List (Bytes × Bytes)
  | seen, [] => ([], seen)
  | seen, m :: ms =>
    let entry := uniqueEntry stl m entries
    let rest := uniqueErrors stl itemPath entries (insertSeen seen entry) ms
    (errorIf (repeats seen entry) (childPath itemPath m.key)
      (lit "duplicate " ++ m.key ++ lit " '" ++
        (((Entries.valueAt entries m.key).bind Node.scalarText).getD []) ++ lit "'") ++ rest.1,
      rest.2)

/-- The loop over object items, from index `i`, with what validates one item. -/
def objectItemErrors (stl : Stl) (validateItem : Node → Bytes → List ValidationError)
    (members : List Member) (path : Bytes) :
    ℕ → List (Bytes × Bytes) → List Node → List ValidationError
  | _, _, [] => []
  | i, seen, n :: ns =>
    let itemPath := indexPath path i
    validateItem n itemPath ++
    match n with
    | .map entries =>
      let found := uniqueErrors stl itemPath entries seen members
      found.1 ++ objectItemErrors stl validateItem members path (i + 1) found.2 ns
    | _ => objectItemErrors stl validateItem members path (i + 1) seen ns

/-! ## The walk -/

mutual

def validateObject (stl : Stl) : Object → Node → Bytes → List ValidationError
  | ⟨spec, members⟩, .map entries, path =>
    let present := presentKeys [] entries
    keyErrors path [] entries ++
    present.flatMap (unknownKeyErrors spec members path) ++
    validateMembers stl members entries path ++
    spec.conditionals.flatMap (conditionalErrors path entries present) ++
    spec.dependentRequired.flatMap (dependentErrors path present)
  | _, _, path => [⟨mapPath path, lit "must be a map"⟩]

def validateMembers (stl : Stl) : List Member → Entries → Bytes → List ValidationError
  | [], _, _ => []
  | m :: ms, entries, path =>
    (match Entries.valueAt entries m.key with
      | none => errorIf m.required (childPath path m.key) (lit "is required")
      | some value => validateMember stl m value (childPath path m.key)) ++
    validateMembers stl ms entries path

def validateMember (stl : Stl) : Member → Node → Bytes → List ValidationError
  | .scalar f, value, path => validateField stl f.spec value path
  | .object _ _ o, value, path => validateObject stl o value path
  | .array _ _ a, value, path => validateArray stl a value path

def validateArray (stl : Stl) : Array → Node → Bytes → List ValidationError
  | .scalars item unique spec, .sequence items, path =>
    countErrors spec items.length path ++
    scalarItemErrors stl item.spec unique path 0 [] items
  | .objects item spec, .sequence items, path =>
    countErrors spec items.length path ++
    objectItemErrors stl (fun n p => validateObject stl item n p) item.members path 0 [] items
  | _, _, path => [⟨path, lit "must be a sequence"⟩]

end

/-- `validate`. -/
def validate {stl : Stl} (schema : Schema stl) (root : Node) : List ValidationError :=
  validateObject stl schema.root root []

/-- `format_errors` : a line for each error. -/
def formatErrors : List ValidationError → Bytes
  | [] => []
  | [e] => e.path ++ lit ": " ++ e.message
  | e :: es => e.path ++ lit ": " ++ e.message ++ [chr '\n'] ++ formatErrors es

end ProviderSdk.Config

import ProviderSdk.Validate
import ProviderSdk.Lib.Walk

/-!
# What a declaration asks of a document

The contract a declaration states, independent of the walk that checks it. `Accepts` is
what a field asks of a scalar, over the value the scalar resolves to. A `Site` is a
declaration with the node it applies to and the path there, `Child` leads from an object
or an array to what it declares inside, and `Violated` lists the constraints that can
fail at a site, with the path of each failure.
-/

namespace ProviderSdk.Config

variable (stl : Stl)

/-! ## Fields -/

/-- The constraints of a String field. -/
structure AcceptsString (spec : Field.Spec) (s : Bytes) : Prop where
  nonEmpty : spec.nonEmpty = true → s ≠ []
  const : ∀ c, spec.constValue = some c → s = c
  enum : spec.enumValues ≠ [] → s ∈ spec.enumValues.map Field.EnumValue.value
  pattern : ∀ p, spec.pattern = some p → stl.regexSearch p s = true
  forbidden : s ∉ spec.forbiddenValues.map Field.ForbiddenValue.value

/-- The bounds of an Integer field. -/
structure AcceptsInteger (spec : Field.Spec) (i : ℤ) : Prop where
  min : ∀ m, spec.minInt = some m → m ≤ i
  max : ∀ m, spec.maxInt = some m → i ≤ m

/-- The bounds of a Number field, which takes finite numbers only. -/
structure AcceptsNumber (spec : Field.Spec) (v : Double) : Prop where
  finite : v.isFinite = true
  min : ∀ m, spec.minNumber = some m → m.le v = true
  exclusiveMin : ∀ m, spec.exclusiveMinNumber = some m → m.lt v = true
  max : ∀ m, spec.maxNumber = some m → v.le m = true
  exclusiveMax : ∀ m, spec.exclusiveMaxNumber = some m → v.lt m = true

/-- An I2C address : an integer of the range, or a string of the pattern. -/
def AcceptsAddress (r : Resolved) : Prop :=
  (∃ i, integerOf r = some i ∧ kI2cAddressMin ≤ i ∧ i ≤ kI2cAddressMax) ∨
    ∃ s, r = .string s ∧ i2cHexPattern.rmatch s = true

/-- A resolved scalar has the field's type and meets its constraints. -/
def Accepts (spec : Field.Spec) (r : Resolved) : Prop :=
  match spec.kind with
  | .string => ∃ s, r = .string s ∧ AcceptsString stl spec s
  | .integer => ∃ i, integerOf r = some i ∧ AcceptsInteger spec i
  | .number => ∃ v, numberOf r = some v ∧ AcceptsNumber spec v
  | .boolean => ∃ b, r = .bool b
  | .i2cAddress => AcceptsAddress r

/-- A value that a field reads. -/
inductive Parsed where
  | text (s : Bytes)
  | integer (i : ℤ)
  | number (q : ℚ)
  | boolean (b : Bool)
  deriving DecidableEq

/-- The value a field reads from a scalar of its type. Numbers are compared as numbers,
so the two zeros are one value. -/
def parsedValue (spec : Field.Spec) (r : Resolved) : Option Parsed :=
  match spec.kind with
  | .string =>
    match r with
    | .string s => some (.text s)
    | _ => none
  | .integer => (integerOf r).map .integer
  | .number => (numberOf r).bind fun v => v.toRat.map .number
  | .boolean =>
    match r with
    | .bool b => some (.boolean b)
    | _ => none
  | .i2cAddress => (i2cAddressOf r).map .integer

/-! ## Sites -/

/-- A declaration of the tree. -/
inductive Decl where
  | field (f : Field)
  | object (o : Object)
  | array (a : Array)

def Member.decl : Member → Decl
  | .scalar f => .field f
  | .object _ _ o => .object o
  | .array _ _ a => .array a

def Array.item : Array → Decl
  | .scalars f _ _ => .field f
  | .objects o _ => .object o

/-- A declaration with the node it applies to and the path there. -/
structure Site where
  decl : Decl
  node : Node
  path : Bytes

/-- From a map to its members that are present, and from a sequence to its items. -/
inductive Child : Site → Site → Prop
  | member {o : Object} {entries : Entries} {path : Bytes} {m : Member} {value : Node}
      (hm : m ∈ o.members) (hv : entries.valueAt m.key = some value) :
      Child ⟨.object o, .map entries, path⟩ ⟨m.decl, value, childPath path m.key⟩
  | item {a : Array} {items : List Node} {path : Bytes} {i : ℕ} {n : Node}
      (hi : items[i]? = some n) :
      Child ⟨.array a, .sequence items, path⟩ ⟨a.item, n, indexPath path i⟩

/-- The sites that the declaration and the document both have below a site. -/
abbrev Reaches : Site → Site → Prop :=
  Relation.ReflTransGen Child

/-- The keys of a map that are scalars, in document order. -/
def Entries.scalarKeys (entries : Entries) : List Bytes :=
  entries.filterMap fun e => e.1.scalarText

/-- The unique member `key` of an object array's item has the parsed value `v`. -/
def HasUnique (item : Object) (n : Node) (key : Bytes) (v : Parsed) : Prop :=
  ∃ (f : Field) (entries : Entries) (value : Node), .scalar f ∈ item.members ∧
    f.spec.unique = true ∧ f.spec.key = key ∧ n = .map entries ∧
    entries.valueAt key = some value ∧ parsedValue f.spec value.resolve = some v

/-- A constraint of the site's declaration fails, and this is the path of the failure. -/
inductive Violated : Site → Bytes → Prop
  | field {f : Field} {n : Node} {path : Bytes} (h : ¬Accepts stl f.spec n.resolve) :
      Violated ⟨.field f, n, path⟩ path
  | notMap {o : Object} {n : Node} {path : Bytes} (h : ∀ entries, n ≠ .map entries) :
      Violated ⟨.object o, n, path⟩ (mapPath path)
  | nonScalarKey {o : Object} {entries : Entries} {path : Bytes} {k v : Node}
      (he : (k, v) ∈ entries) (hk : k.scalarText = none) :
      Violated ⟨.object o, .map entries, path⟩ (mapPath path)
  | repeatedKey {o : Object} {entries : Entries} {path key : Bytes}
      (h : 2 ≤ entries.scalarKeys.count key) :
      Violated ⟨.object o, .map entries, path⟩ (childPath path key)
  | deprecatedKey {o : Object} {entries : Entries} {path : Bytes} {d : Object.DeprecatedKey}
      (hd : d ∈ o.spec.deprecatedKeys) (hk : d.key ∈ entries.scalarKeys) :
      Violated ⟨.object o, .map entries, path⟩ (childPath path d.key)
  | unknownKey {o : Object} {entries : Entries} {path key : Bytes}
      (ho : o.spec.openness = .closed) (hk : key ∈ entries.scalarKeys)
      (hm : key ∉ o.members.map Member.key) :
      Violated ⟨.object o, .map entries, path⟩ (childPath path key)
  | missing {o : Object} {entries : Entries} {path : Bytes} {m : Member}
      (hm : m ∈ o.members) (hr : m.required = true) (hk : m.key ∉ entries.scalarKeys) :
      Violated ⟨.object o, .map entries, path⟩ (childPath path m.key)
  | requiredByBranch {o : Object} {entries : Entries} {path key : Bytes}
      {c : Object.Conditional} (hc : c ∈ o.spec.conditionals)
      (hd : resolveScalar (entries.valueAt c.key) = .string c.equals)
      (hk : key ∈ c.branch.requireKeys) (h : key ∉ entries.scalarKeys) :
      Violated ⟨.object o, .map entries, path⟩ (childPath path key)
  | forbiddenByBranch {o : Object} {entries : Entries} {path key : Bytes}
      {c : Object.Conditional} (hc : c ∈ o.spec.conditionals)
      (hd : resolveScalar (entries.valueAt c.key) = .string c.equals)
      (hk : key ∈ c.branch.forbidKeys) (h : key ∈ entries.scalarKeys) :
      Violated ⟨.object o, .map entries, path⟩ (childPath path key)
  | dependent {o : Object} {entries : Entries} {path key : Bytes}
      {d : Object.DependentRequired} (hd : d ∈ o.spec.dependentRequired)
      (hp : d.key ∈ entries.scalarKeys) (hk : key ∈ d.alsoRequired)
      (h : key ∉ entries.scalarKeys) :
      Violated ⟨.object o, .map entries, path⟩ (childPath path key)
  | notSequence {a : Array} {n : Node} {path : Bytes} (h : ∀ items, n ≠ .sequence items) :
      Violated ⟨.array a, n, path⟩ path
  | tooFew {a : Array} {items : List Node} {path : Bytes} {m : ℕ}
      (hm : a.spec.minItems = some m) (h : items.length < m) :
      Violated ⟨.array a, .sequence items, path⟩ path
  | tooMany {a : Array} {items : List Node} {path : Bytes} {m : ℕ}
      (hm : a.spec.maxItems = some m) (h : m < items.length) :
      Violated ⟨.array a, .sequence items, path⟩ path
  | repeatedItem {f : Field} {spec : Array.Spec} {items : List Node} {path : Bytes} {i j : ℕ}
      {n n' : Node} {v : Parsed} (hi : items[i]? = some n) (hj : items[j]? = some n')
      (hji : j < i) (hn : parsedValue f.spec n.resolve = some v)
      (hn' : parsedValue f.spec n'.resolve = some v) :
      Violated ⟨.array (.scalars f true spec), .sequence items, path⟩ (indexPath path i)
  | repeatedMember {item : Object} {spec : Array.Spec} {items : List Node}
      {path key : Bytes} {i j : ℕ} {n n' : Node} {v : Parsed} (hi : items[i]? = some n)
      (hj : items[j]? = some n') (hji : j < i) (hn : HasUnique item n key v)
      (hn' : HasUnique item n' key v) :
      Violated ⟨.array (.objects item spec), .sequence items, path⟩
        (childPath (indexPath path i) key)

end ProviderSdk.Config

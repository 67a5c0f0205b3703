import ProviderSdk.Validate
import ProviderSdk.Lib.JsonSchema

/-!
# The emitted JSON Schema

The emitter of `src/anolis/provider_sdk/config.cpp` : `emit_field`, `emit_array`,
`emit_object` and `emit_schema`, with the keywords in the order the source adds them.
`toJson` is the JSON value of a document, under the resolver's typing.
-/

namespace ProviderSdk.Config

open JsonSchema

/-! ## Keywords -/

/-- A keyword with a text. -/
def textKeyword (key text : String) : Text × Json :=
  (name key, .str (name text))

/-- A keyword that is emitted unless the list is empty. -/
def unlessEmpty {α : Type} (key : String) (l : List α) (value : Json) : List (Text × Json) :=
  if l.isEmpty then [] else [(name key, value)]

/-- A keyword that is emitted if there is a value. -/
def optional {α : Type} (key : String) (value : Option α) (json : α → Json) :
    List (Text × Json) :=
  value.toList.map fun v => (name key, json v)

/-- A keyword that is emitted if a flag is set. -/
def flagged (key : String) (flag : Bool) (value : Json) : List (Text × Json) :=
  if flag then [(name key, value)] else []

/-- `title` and `description`. -/
def titled (title description : Bytes) : List (Text × Json) :=
  unlessEmpty "title" title (.str title) ++ unlessEmpty "description" description (.str description)

/-- An array of texts. -/
def texts (values : List Bytes) : Json :=
  .arr (values.map .str)

/-! ## Fields -/

/-- What `add_common_suffix` adds. -/
def commonSuffix (spec : Field.Spec) : List (Text × Json) :=
  unlessEmpty "x-anolis-placeholder" spec.placeholder (.str spec.placeholder) ++
  flagged "x-anolis-unique" spec.unique (.bool true)

/-- A titled enumeration is a choice of constants. -/
def enumKeyword (values : List Field.EnumValue) : List (Text × Json) :=
  if values.any fun ev => ev.title ≠ [] then
    unlessEmpty "oneOf" values <| .arr <| values.map fun ev =>
      .obj ((name "const", .str ev.value) :: unlessEmpty "title" ev.title (.str ev.title))
  else unlessEmpty "enum" values (texts (values.map Field.EnumValue.value))

/-- A single forbidden value is a constant. -/
def notKeyword (values : List Field.ForbiddenValue) : List (Text × Json) :=
  unlessEmpty "not" values <| .obj <|
    match values with
    | [forbidden] => [(name "const", .str forbidden.value)]
    | _ => [(name "enum", texts (values.map Field.ForbiddenValue.value))]

/-- The alternatives of an I2C address. -/
def addressBranches : List Json :=
  [.obj [textKeyword "type" "integer", (name "minimum", .int kI2cAddressMin),
      (name "maximum", .int kI2cAddressMax)],
    .obj [textKeyword "type" "string", (name "pattern", .str kI2cHexPattern)]]

def emitField (spec : Field.Spec) : List (Text × Json) :=
  (match spec.kind with
  | .string =>
    textKeyword "type" "string" :: titled spec.title spec.description ++
    optional "const" spec.constValue .str ++ enumKeyword spec.enumValues ++
    optional "pattern" spec.pattern .str ++ flagged "minLength" spec.nonEmpty (.int 1) ++
    notKeyword spec.forbiddenValues ++ optional "default" spec.defaultString .str
  | .integer =>
    textKeyword "type" "integer" :: titled spec.title spec.description ++
    optional "minimum" spec.minInt .int ++ optional "maximum" spec.maxInt .int ++
    optional "default" spec.defaultInt .int
  | .number =>
    textKeyword "type" "number" :: titled spec.title spec.description ++
    optional "minimum" spec.minNumber .num ++
    optional "exclusiveMinimum" spec.exclusiveMinNumber .num ++
    optional "maximum" spec.maxNumber .num ++
    optional "exclusiveMaximum" spec.exclusiveMaxNumber .num ++
    optional "default" spec.defaultNumber .num
  | .boolean =>
    textKeyword "type" "boolean" :: titled spec.title spec.description ++
    optional "default" spec.defaultBool .bool
  | .i2cAddress =>
    titled spec.title spec.description ++ [(name "anyOf", .arr addressBranches)] ++
    optional "default" spec.defaultInt .int ++ [textKeyword "x-anolis-type" "i2c_address"]) ++
  commonSuffix spec

/-! ## Arrays and objects -/

/-- `static_cast<int64_t>` of a `size_t`. -/
def castInt64 (size : ℕ) : ℤ :=
  if size < 2 ^ 63 then size else (size : ℤ) - 2 ^ 64

/-- `emit_array`, around the emitted items. -/
def arrayKeywords (spec : Array.Spec) (items : Json) (unique : Bool) : List (Text × Json) :=
  textKeyword "type" "array" :: titled spec.title spec.description ++ [(name "items", items)] ++
  optional "minItems" spec.minItems (fun n => .int (castInt64 n)) ++
  optional "maxItems" spec.maxItems (fun n => .int (castInt64 n)) ++
  flagged "uniqueItems" unique (.bool true) ++ flagged "x-anolis-unique" unique (.bool true)

/-- `required` inside the `if` keeps an absent discriminator from selecting the branch. -/
def emitConditional (c : Object.Conditional) : Json :=
  .obj
    [(name "if", .obj
      [(name "properties", .obj [(c.key, .obj [(name "const", .str c.equals)])]),
        (name "required", texts [c.key])]),
      (name "then", .obj
        (unlessEmpty "required" c.branch.requireKeys (texts c.branch.requireKeys) ++
        unlessEmpty "properties" c.branch.forbidKeys
          (.obj (c.branch.forbidKeys.map fun key => (key, .bool false)))))]

/-- `emit_object`, around the emitted members. -/
def objectKeywords (spec : Object.Spec) (members : List Member) (properties : List (Text × Json))
    (title description : Bytes) : List (Text × Json) :=
  textKeyword "type" "object" :: titled title description ++
  unlessEmpty "properties" properties (.obj properties) ++
  unlessEmpty "required" (requiredKeys members) (texts (requiredKeys members)) ++
  flagged "additionalProperties" (spec.openness = .closed) (.bool false) ++
  unlessEmpty "dependentRequired" spec.dependentRequired
    (.obj (spec.dependentRequired.map fun d => (d.key, texts d.alsoRequired))) ++
  unlessEmpty "allOf" spec.conditionals (.arr (spec.conditionals.map emitConditional))

mutual

def emitArray : Array → List (Text × Json)
  | .scalars item unique spec => arrayKeywords spec (.obj (emitField item.spec)) unique
  | .objects item spec => arrayKeywords spec (.obj (emitObject item none none)) false

def emitObject : Object → Option Bytes → Option Bytes → List (Text × Json)
  | ⟨spec, members⟩, titleOverride, descriptionOverride =>
    objectKeywords spec members (emitMembers members) (titleOverride.getD spec.title)
      (descriptionOverride.getD spec.description)

def emitMembers : List Member → List (Text × Json)
  | [] => []
  | m :: ms => (m.key, .obj (emitMember m)) :: emitMembers ms

def emitMember : Member → List (Text × Json)
  | .scalar f => emitField f.spec
  | .object _ _ o => emitObject o none none
  | .array _ _ a => emitArray a

end

/-- `emit_schema`. -/
def emitSchema {stl : Stl} (schema : Schema stl) : List (Text × Json) :=
  textKeyword "$schema" "https://json-schema.org/draft/2020-12/schema" ::
    optional "$id" schema.schemaId .str ++
    emitObject schema.root schema.schemaTitle schema.schemaDescription

/-! ## Documents -/

/-- The JSON value of a resolved scalar. -/
def Resolved.toJson : Resolved → Json
  | nonScalar => .null
  | null => .null
  | bool b => .bool b
  | int i => .int i
  | float v => .num v
  | string s => .str s

mutual

/-- The JSON value of a document. A map's entries stay in order, under the keys that are
scalars. -/
def Node.toJson : Node → Json
  | .null => .null
  | .scalar tag text => (Node.scalar tag text).resolve.toJson
  | .sequence items => .arr (itemsJson items)
  | .map entries => .obj (entriesJson entries)

def itemsJson : List Node → List Json
  | [] => []
  | n :: ns => n.toJson :: itemsJson ns

def entriesJson : List (Node × Node) → List (Text × Json)
  | [] => []
  | (k, v) :: entries =>
    match k.scalarText with
    | none => entriesJson entries
    | some key => (key, v.toJson) :: entriesJson entries

end

end ProviderSdk.Config

import ProviderSdk.Lib.Floating

/-!
# JSON Schema validation

JSON values and the meaning of a schema document, draft 2020-12, for the assertions and
applicators of `Valid` : the type, constant, enumeration, pattern, length and bound
assertions, the counts and uniqueness of items, `required` and `dependentRequired`, and
`not`, `anyOf`, `allOf`, `oneOf`, `items`, `properties`, `additionalProperties` and
`if`/`then`. Any other keyword is an annotation.

Numbers are integers or doubles. They compare exactly, but against a bound that is a
double an integer is rounded first. The search of a pattern in a text is a parameter.
-/

namespace JsonSchema

open Floating

/-- A byte string. -/
abbrev Text := List UInt8

/-- An ASCII literal. -/
def name (s : String) : Text :=
  s.toByteArray.data.toList

@[simp] theorem name_inj {s t : String} : name s = name t ↔ s = t := by
  constructor
  · intro h
    apply String.toByteArray_inj.mp
    apply ByteArray.ext
    exact Array.toList_inj.mp h
  · rintro rfl
    rfl

/-- A JSON value. An object keeps its members in order. -/
inductive Json where
  | null
  | bool (b : Bool)
  | int (i : ℤ)
  | num (v : Value binary64)
  | str (s : Text)
  | arr (items : List Json)
  | obj (fields : List (Text × Json))

namespace Json

/-- The exact number, if the value is one. -/
def number : Json → Option (WithBot (WithTop ℚ))
  | int i => some (((i : ℚ) : WithTop ℚ) : WithBot (WithTop ℚ))
  | num v => v.num
  | _ => none

/-- The integer, if the value is a number without a fraction. -/
def integer : Json → Option ℤ
  | int i => some i
  | num v => v.toInt
  | _ => none

/-- The double, if the value is a number. -/
def double : Json → Option (Value binary64)
  | int i => some (binary64.round i)
  | num v => some v
  | _ => none

/-- The members of an object with a name. -/
def field (fields : List (Text × Json)) (key : Text) : Option Json :=
  (fields.find? fun f => f.1 = key).map Prod.snd

/-- The names of an object's members. -/
def keys (fields : List (Text × Json)) : List Text :=
  fields.map Prod.fst

/-- Equality of JSON values : numbers by value, objects up to the order of members. -/
inductive Same : Json → Json → Prop
  | null : Same null null
  | bool {b : Bool} : Same (bool b) (bool b)
  | number {a b : Json} {q : WithBot (WithTop ℚ)} (ha : a.number = some q)
      (hb : b.number = some q) : Same a b
  | str {s : Text} : Same (str s) (str s)
  | arr {as bs : List Json} (h : List.Forall₂ Same as bs) : Same (arr as) (arr bs)
  | obj {as bs : List (Text × Json)}
      (hkeys : ∀ key, key ∈ keys as ↔ key ∈ keys bs)
      (h : ∀ key a b, field as key = some a → field bs key = some b → Same a b) :
      Same (obj as) (obj bs)

end Json

open Json

/-! ## Assertions -/

/-- `type`. -/
def hasType (type : Text) : Json → Prop
  | .null => type = name "null"
  | .bool _ => type = name "boolean"
  | .int _ => type = name "integer" ∨ type = name "number"
  | .num v => type = name "number" ∨ (type = name "integer" ∧ v.toInt.isSome = true)
  | .str _ => type = name "string"
  | .arr _ => type = name "array"
  | .obj _ => type = name "object"

/-- The number of characters of a text : the bytes that do not continue a character. A
text always starts one. -/
def characters : Text → ℕ
  | [] => 0
  | _ :: rest => 1 + rest.countP fun b => !(0x80 ≤ b && b ≤ 0xBF)

/-- A bound, with the comparison of exact numbers and that of doubles. -/
def bounded (exact : WithBot (WithTop ℚ) → WithBot (WithTop ℚ) → Prop)
    (rounded : Value binary64 → Value binary64 → Bool) (bound x : Json) : Prop :=
  match bound with
  | .num v => ∀ w, x.double = some w → rounded v w = true
  | b => ∀ p q, b.number = some p → x.number = some q → exact p q

/-- The names in an array of names. -/
def names : List Json → List Text
  | [] => []
  | .str s :: rest => s :: names rest
  | _ :: rest => names rest

/-- An object has the names that an array lists. -/
def hasNames (fields : List (Text × Json)) : Json → Prop
  | .arr required => ∀ key ∈ names required, key ∈ keys fields
  | _ => False

/-- The keywords without subschemas. -/
def assertion (search : Text → Text → Bool) (keyword : Text) (v x : Json) : Prop :=
  if keyword = name "type" then ∃ t, v = .str t ∧ hasType t x
  else if keyword = name "const" then Same v x
  else if keyword = name "enum" then ∃ vs, v = .arr vs ∧ ∃ w ∈ vs, Same w x
  else if keyword = name "pattern" then ∀ s, x = .str s → ∃ p, v = .str p ∧ search p s = true
  else if keyword = name "minLength" then ∀ s, x = .str s → ∃ n, v = .int n ∧ n ≤ characters s
  else if keyword = name "minimum" then bounded (· ≤ ·) Value.le v x
  else if keyword = name "maximum" then bounded (fun p q => q ≤ p) (fun v w => w.le v) v x
  else if keyword = name "exclusiveMinimum" then bounded (· < ·) Value.lt v x
  else if keyword = name "exclusiveMaximum" then bounded (fun p q => q < p) (fun v w => w.lt v) v x
  else if keyword = name "minItems" then
    ∀ items, x = .arr items → ∃ n, v = .int n ∧ n ≤ items.length
  else if keyword = name "maxItems" then
    ∀ items, x = .arr items → ∃ n, v = .int n ∧ items.length ≤ n
  else if keyword = name "uniqueItems" then
    v = .bool true → ∀ items, x = .arr items → items.Pairwise fun a b => ¬Same a b
  else if keyword = name "required" then ∀ fields, x = .obj fields → hasNames fields v
  else if keyword = name "dependentRequired" then
    ∀ fields, x = .obj fields → ∃ deps, v = .obj deps ∧
      ∀ dep ∈ deps, dep.1 ∈ keys fields → hasNames fields dep.2
  else True

/-! ## Types and numbers -/

section types

variable {x : Json}

theorem hasType_string : hasType (name "string") x ↔ ∃ s, x = .str s := by
  cases x <;> simp [hasType]

theorem hasType_object : hasType (name "object") x ↔ ∃ fields, x = .obj fields := by
  cases x <;> simp [hasType]

theorem hasType_array : hasType (name "array") x ↔ ∃ items, x = .arr items := by
  cases x <;> simp [hasType]

theorem hasType_boolean : hasType (name "boolean") x ↔ ∃ b, x = .bool b := by
  cases x <;> simp [hasType]

theorem hasType_integer : hasType (name "integer") x ↔ ∃ i, x.integer = some i := by
  cases x <;> simp [hasType, integer, Option.isSome_iff_exists]

theorem hasType_number : hasType (name "number") x ↔ ∃ v, x.double = some v := by
  cases x <;> simp [hasType, double]

theorem one_le_characters {s : Text} : 1 ≤ characters s ↔ s ≠ [] := by
  cases s <;> simp [characters]

theorem number_of_integer {i : ℤ} (h : x.integer = some i) :
    x.number = some (((i : ℚ) : WithTop ℚ) : WithBot (WithTop ℚ)) := by
  cases x <;> simp only [integer, reduceCtorEq, Option.some.injEq] at h
  · rw [h, number]
  · exact Value.num_of_toRat (Value.toInt_eq_some.mp h)

/-- An integer bound compares exactly. -/
theorem bounded_int {exact : WithBot (WithTop ℚ) → WithBot (WithTop ℚ) → Prop}
    {rounded : Value binary64 → Value binary64 → Bool} {m i : ℤ} (h : x.integer = some i) :
    bounded exact rounded (.int m) x ↔
      exact (((m : ℚ) : WithTop ℚ) : WithBot (WithTop ℚ)) (((i : ℚ) : WithTop ℚ)) := by
  unfold bounded
  rw [number_of_integer h]
  simp [number]

/-- The integer is the exact number. -/
theorem integer_unique {y : Json} {i j : ℤ} (h : x.number = y.number) (hi : x.integer = some i)
    (hj : y.integer = some j) : i = j := by
  rw [number_of_integer hi, number_of_integer hj] at h
  simpa using h

/-- The double is the exact number, rounded. -/
theorem exists_toRat_round {v : Value binary64} {r : ℚ} (hv : x.double = some v)
    (hr : v.toRat = some r) :
    ∃ p : ℚ, x.number = some ((p : WithTop ℚ) : WithBot (WithTop ℚ)) ∧
      (binary64.round p).toRat = some r := by
  cases x with
  | int i =>
    obtain rfl := Option.some.inj hv
    exact ⟨i, rfl, hr⟩
  | num w =>
    obtain rfl := Option.some.inj hv
    exact ⟨r, Value.num_of_toRat hr, Format.round_toRat hr⟩
  | _ => simp [double] at hv

theorem double_unique {y : Json} {v w : Value binary64} {r s : ℚ} (h : x.number = y.number)
    (hv : x.double = some v) (hw : y.double = some w) (hr : v.toRat = some r)
    (hs : w.toRat = some s) : r = s := by
  obtain ⟨p, hp, hpr⟩ := exists_toRat_round hv hr
  obtain ⟨q, hq, hqs⟩ := exists_toRat_round hw hs
  rw [hp, hq] at h
  obtain rfl : p = q := by simpa using h
  exact Option.some.inj (hpr.symm.trans hqs)

end types

/-! ## Schemas -/

/-- The names that `properties` declares beside a keyword. -/
def declared (siblings : List (Text × Json)) : List Text :=
  match field siblings (name "properties") with
  | some (.obj props) => keys props
  | _ => []

variable (search : Text → Text → Bool)

mutual

/-- `x` is valid against a schema. -/
def Valid : Json → Json → Prop
  | .bool b, _ => b = true
  | .obj keywords, x =>
    ValidKeywords keywords keywords x ∧
      (name "if" ∈ keys keywords → ValidAt (name "if") keywords x →
        ValidAt (name "then") keywords x)
  | _, _ => False
termination_by structural schema => schema

/-- `x` satisfies each keyword, which may depend on its siblings. -/
def ValidKeywords (siblings : List (Text × Json)) : List (Text × Json) → Json → Prop
  | [], _ => True
  | (keyword, v) :: rest, x =>
    (assertion search keyword v x ∧
      (keyword = name "not" → ¬Valid v x) ∧
      (keyword = name "anyOf" → ValidAny v x) ∧
      (keyword = name "allOf" → ValidAll v x) ∧
      (keyword = name "oneOf" → ValidOne v x) ∧
      (keyword = name "items" → ∀ items, x = .arr items → ∀ y ∈ items, Valid v y) ∧
      (keyword = name "properties" → ∀ fields, x = .obj fields → ValidFields v fields) ∧
      (keyword = name "additionalProperties" →
        ∀ fields, x = .obj fields → ∀ f ∈ fields, f.1 ∉ declared siblings → Valid v f.2)) ∧
    ValidKeywords siblings rest x
termination_by structural keywords => keywords

/-- `x` is valid against the subschema with a name. -/
def ValidAt (key : Text) : List (Text × Json) → Json → Prop
  | [], _ => True
  | (keyword, v) :: rest, x => (keyword = key → Valid v x) ∧ ValidAt key rest x
termination_by structural keywords => keywords

/-- Each member that has a subschema is valid against it. -/
def ValidFields : Json → List (Text × Json) → Prop
  | .obj props, fields => FieldsHold props fields
  | _, _ => False
termination_by structural props => props

def FieldsHold : List (Text × Json) → List (Text × Json) → Prop
  | [], _ => True
  | (key, v) :: rest, fields =>
    (∀ y, field fields key = some y → Valid v y) ∧ FieldsHold rest fields
termination_by structural props => props

/-- Some subschema is satisfied. -/
def ValidAny : Json → Json → Prop
  | .arr subs, x => AnyHolds subs x
  | _, _ => False
termination_by structural subs => subs

def AnyHolds : List Json → Json → Prop
  | [], _ => False
  | v :: rest, x => Valid v x ∨ AnyHolds rest x
termination_by structural subs => subs

/-- Every subschema is satisfied. -/
def ValidAll : Json → Json → Prop
  | .arr subs, x => AllHold subs x
  | _, _ => False
termination_by structural subs => subs

def AllHold : List Json → Json → Prop
  | [], _ => True
  | v :: rest, x => Valid v x ∧ AllHold rest x
termination_by structural subs => subs

/-- Exactly one subschema is satisfied. -/
def ValidOne : Json → Json → Prop
  | .arr subs, x => OneHolds subs x
  | _, _ => False
termination_by structural subs => subs

def OneHolds : List Json → Json → Prop
  | [], _ => False
  | v :: rest, x => (Valid v x ∧ ¬AnyHolds rest x) ∨ (¬Valid v x ∧ OneHolds rest x)
termination_by structural subs => subs

end

/-! ## Keyword by keyword -/

/-- A keyword with its value holds of `x`, beside its siblings. -/
def Holds (siblings : List (Text × Json)) (p : Text × Json) (x : Json) : Prop :=
  ValidKeywords search siblings [p] x

variable {search} {siblings keywords : List (Text × Json)} {v x : Json}

namespace Json

theorem field_eq_none {fields : List (Text × Json)} {key : Text} :
    field fields key = none ↔ key ∉ keys fields := by
  simp only [field, keys, Option.map_eq_none_iff, List.find?_eq_none, decide_eq_true_eq,
    List.mem_map, not_exists, not_and]

theorem field_eq_none_of_forall {fields : List (Text × Json)} {key : Text}
    (h : fields.Forall fun p => p.1 ≠ key) : field fields key = none := by
  rw [field_eq_none]
  intro hkey
  obtain ⟨p, hp, rfl⟩ := List.mem_map.mp hkey
  exact List.forall_iff_forall_mem.mp h p hp rfl

theorem field_append {as bs : List (Text × Json)} {key : Text} :
    field (as ++ bs) key = (field as key).or (field bs key) := by
  rw [field, field, field, List.find?_append]
  cases as.find? fun f => f.1 = key <;> rfl

theorem field_cons {key k : Text} {fields : List (Text × Json)} :
    field ((key, v) :: fields) k = if key = k then some v else field fields k := by
  unfold field
  rw [List.find?_cons]
  split_ifs with h <;> simp [h]

theorem same_str {s : Text} : Same (.str s) x ↔ x = .str s := by
  constructor
  · intro h
    cases h with
    | str => rfl
    | number ha _ => simp [number] at ha
  · rintro rfl
    exact .str

theorem same_bool {b : Bool} : Same (.bool b) x ↔ x = .bool b := by
  constructor
  · intro h
    cases h with
    | bool => rfl
    | number ha _ => simp [number] at ha
  · rintro rfl
    exact .bool

/-- The same value is the same number, if it is one. -/
theorem Same.number_eq {y : Json} (h : Same x y) : x.number = y.number := by
  cases h with
  | number ha hb => rw [ha, hb]
  | _ => rfl

end Json

theorem hasNames_iff {fields : List (Text × Json)} {keys : List Text} :
    hasNames fields (.arr (keys.map .str)) ↔ ∀ key ∈ keys, key ∈ Json.keys fields := by
  have hnames : names (keys.map .str) = keys := by
    induction keys with
    | nil => rfl
    | cons key keys ih => rw [List.map_cons, names, ih]
  rw [hasNames, hnames]

theorem validKeywords_iff :
    ValidKeywords search siblings keywords x ↔
      keywords.Forall fun p => Holds search siblings p x := by
  induction keywords with
  | nil => simp [ValidKeywords]
  | cons p keywords ih =>
    obtain ⟨keyword, v⟩ := p
    rw [List.forall_cons, ← ih, Holds]
    simp only [ValidKeywords, and_true]

/-- What a keyword asserts. -/
theorem holds_iff {keyword : Text} : Holds search siblings (keyword, v) x ↔
    assertion search keyword v x ∧
      (keyword = name "not" → ¬Valid search v x) ∧
      (keyword = name "anyOf" → ValidAny search v x) ∧
      (keyword = name "allOf" → ValidAll search v x) ∧
      (keyword = name "oneOf" → ValidOne search v x) ∧
      (keyword = name "items" → ∀ items, x = .arr items → ∀ y ∈ items, Valid search v y) ∧
      (keyword = name "properties" → ∀ fields, x = .obj fields → ValidFields search v fields) ∧
      (keyword = name "additionalProperties" →
        ∀ fields, x = .obj fields → ∀ f ∈ fields, f.1 ∉ declared siblings →
          Valid search v f.2) := by
  rw [Holds, ValidKeywords, ValidKeywords, and_true]

/-- A schema without `if` is the conjunction of its keywords. -/
theorem valid_obj_iff (hif : keywords.Forall fun p => p.1 ≠ name "if") :
    Valid search (.obj keywords) x ↔ keywords.Forall fun p => Holds search keywords p x := by
  have hno : name "if" ∉ keys keywords := field_eq_none.mp (field_eq_none_of_forall hif)
  rw [Valid, validKeywords_iff]
  simp [hno]

theorem validFields_iff {props fields : List (Text × Json)} :
    ValidFields search (.obj props) fields ↔
      ∀ p ∈ props, ∀ y, field fields p.1 = some y → Valid search p.2 y := by
  rw [ValidFields]
  induction props with
  | nil => simp [FieldsHold]
  | cons p props ih =>
    obtain ⟨key, v⟩ := p
    rw [FieldsHold, ih, List.forall_mem_cons]

theorem anyHolds_iff {subs : List Json} :
    AnyHolds search subs x ↔ ∃ v ∈ subs, Valid search v x := by
  induction subs with
  | nil => simp [AnyHolds]
  | cons v subs ih => rw [AnyHolds, ih, List.exists_mem_cons_iff]

theorem allHold_iff {subs : List Json} :
    AllHold search subs x ↔ ∀ v ∈ subs, Valid search v x := by
  induction subs with
  | nil => simp [AllHold]
  | cons v subs ih => rw [AllHold, ih, List.forall_mem_cons]

/-- If no two subschemas can hold together, exactly one holds when any does. -/
theorem oneHolds_iff {subs : List Json}
    (h : subs.Pairwise fun v w => ¬(Valid search v x ∧ Valid search w x)) :
    OneHolds search subs x ↔ ∃ v ∈ subs, Valid search v x := by
  induction subs with
  | nil => simp [OneHolds]
  | cons v subs ih =>
    rw [List.pairwise_cons] at h
    rw [OneHolds, ih h.2, anyHolds_iff, List.exists_mem_cons_iff]
    constructor
    · rintro (⟨hv, -⟩ | ⟨-, hw⟩)
      · exact Or.inl hv
      · exact Or.inr hw
    · rintro (hv | ⟨w, hw, hwx⟩)
      · refine Or.inl ⟨hv, ?_⟩
        rintro ⟨w, hw, hwx⟩
        exact h.1 w hw ⟨hv, hwx⟩
      · exact Or.inr ⟨fun hv => h.1 w hw ⟨hv, hwx⟩, w, hw, hwx⟩

/-- `if` and `then` alone. -/
theorem valid_ifThen {test branch : Json} :
    Valid search (.obj [(name "if", test), (name "then", branch)]) x ↔
      (Valid search test x → Valid search branch x) := by
  simp [Valid, ValidKeywords, ValidAt, assertion, keys]

/-- The keywords that are not annotations. -/
def semantic : List String :=
  ["type", "const", "enum", "pattern", "minLength", "minimum", "maximum", "exclusiveMinimum",
    "exclusiveMaximum", "minItems", "maxItems", "uniqueItems", "required", "dependentRequired",
    "not", "anyOf", "allOf", "oneOf", "items", "properties", "additionalProperties"]

theorem holds_annotation {k : String} (h : k ∉ semantic) :
    Holds search siblings (name k, v) x := by
  simp only [semantic, List.mem_cons, List.not_mem_nil, or_false, not_or] at h
  simp [holds_iff, assertion, h]

section keywords

/-- The keywords with subschemas. -/
def applicators : List String :=
  ["not", "anyOf", "allOf", "oneOf", "items", "properties", "additionalProperties"]

/-- A keyword without subschemas is its assertion. -/
theorem holds_assertion {k : String} (h : k ∉ applicators) :
    Holds search siblings (name k, v) x ↔ assertion search (name k) v x := by
  simp only [applicators, List.mem_cons, List.not_mem_nil, or_false, not_or] at h
  simp only [holds_iff, name_inj, h, false_implies, and_true]

@[simp] theorem holds_type :
    Holds search siblings (name "type", v) x ↔ ∃ t, v = .str t ∧ hasType t x := by
  rw [holds_assertion (by simp [applicators])]
  simp [assertion]

@[simp] theorem holds_const : Holds search siblings (name "const", v) x ↔ Same v x := by
  rw [holds_assertion (by simp [applicators])]
  simp [assertion]

@[simp] theorem holds_enum :
    Holds search siblings (name "enum", v) x ↔ ∃ vs, v = .arr vs ∧ ∃ w ∈ vs, Same w x := by
  rw [holds_assertion (by simp [applicators])]
  simp [assertion]

@[simp] theorem holds_pattern : Holds search siblings (name "pattern", v) x ↔
    ∀ s, x = .str s → ∃ p, v = .str p ∧ search p s = true := by
  rw [holds_assertion (by simp [applicators])]
  simp [assertion]

@[simp] theorem holds_minLength : Holds search siblings (name "minLength", v) x ↔
    ∀ s, x = .str s → ∃ n, v = .int n ∧ n ≤ characters s := by
  rw [holds_assertion (by simp [applicators])]
  simp [assertion]

@[simp] theorem holds_minimum : Holds search siblings (name "minimum", v) x ↔
    bounded (· ≤ ·) Value.le v x := by
  rw [holds_assertion (by simp [applicators])]
  simp [assertion]

@[simp] theorem holds_maximum : Holds search siblings (name "maximum", v) x ↔
    bounded (fun p q => q ≤ p) (fun v w => w.le v) v x := by
  rw [holds_assertion (by simp [applicators])]
  simp [assertion]

@[simp] theorem holds_exclusiveMinimum : Holds search siblings (name "exclusiveMinimum", v) x ↔
    bounded (· < ·) Value.lt v x := by
  rw [holds_assertion (by simp [applicators])]
  simp [assertion]

@[simp] theorem holds_exclusiveMaximum : Holds search siblings (name "exclusiveMaximum", v) x ↔
    bounded (fun p q => q < p) (fun v w => w.lt v) v x := by
  rw [holds_assertion (by simp [applicators])]
  simp [assertion]

@[simp] theorem holds_minItems : Holds search siblings (name "minItems", v) x ↔
    ∀ items, x = .arr items → ∃ n, v = .int n ∧ n ≤ items.length := by
  rw [holds_assertion (by simp [applicators])]
  simp [assertion]

@[simp] theorem holds_maxItems : Holds search siblings (name "maxItems", v) x ↔
    ∀ items, x = .arr items → ∃ n, v = .int n ∧ items.length ≤ n := by
  rw [holds_assertion (by simp [applicators])]
  simp [assertion]

@[simp] theorem holds_uniqueItems : Holds search siblings (name "uniqueItems", v) x ↔
    (v = .bool true → ∀ items, x = .arr items → items.Pairwise fun a b => ¬Same a b) := by
  rw [holds_assertion (by simp [applicators])]
  simp [assertion]

@[simp] theorem holds_required : Holds search siblings (name "required", v) x ↔
    ∀ fields, x = .obj fields → hasNames fields v := by
  rw [holds_assertion (by simp [applicators])]
  simp [assertion]

@[simp] theorem holds_dependentRequired :
    Holds search siblings (name "dependentRequired", v) x ↔
      ∀ fields, x = .obj fields → ∃ deps, v = .obj deps ∧
        ∀ dep ∈ deps, dep.1 ∈ keys fields → hasNames fields dep.2 := by
  rw [holds_assertion (by simp [applicators])]
  simp [assertion]

@[simp] theorem holds_not : Holds search siblings (name "not", v) x ↔ ¬Valid search v x := by
  simp only [holds_iff, assertion, name_inj, String.reduceEq, if_false, false_implies, true_implies,
    and_true, true_and]

@[simp] theorem holds_anyOf {subs : List Json} :
    Holds search siblings (name "anyOf", .arr subs) x ↔ ∃ v ∈ subs, Valid search v x := by
  simp only [holds_iff, assertion, name_inj, String.reduceEq, if_false, false_implies, true_implies,
    and_true, true_and, ValidAny, anyHolds_iff]

@[simp] theorem holds_allOf {subs : List Json} :
    Holds search siblings (name "allOf", .arr subs) x ↔ ∀ v ∈ subs, Valid search v x := by
  simp only [holds_iff, assertion, name_inj, String.reduceEq, if_false, false_implies, true_implies,
    and_true, true_and, ValidAll, allHold_iff]

@[simp] theorem holds_oneOf {subs : List Json} :
    Holds search siblings (name "oneOf", .arr subs) x ↔ OneHolds search subs x := by
  simp only [holds_iff, assertion, name_inj, String.reduceEq, if_false, false_implies, true_implies,
    and_true, true_and, ValidOne]

@[simp] theorem holds_items : Holds search siblings (name "items", v) x ↔
    ∀ items, x = .arr items → ∀ y ∈ items, Valid search v y := by
  simp only [holds_iff, assertion, name_inj, String.reduceEq, if_false, false_implies, true_implies,
    and_true, true_and]

@[simp] theorem holds_properties {props : List (Text × Json)} :
    Holds search siblings (name "properties", .obj props) x ↔
      ∀ fields, x = .obj fields →
        ∀ p ∈ props, ∀ y, field fields p.1 = some y → Valid search p.2 y := by
  simp only [holds_iff, assertion, name_inj, String.reduceEq, if_false, false_implies, true_implies,
    and_true, true_and, validFields_iff]

@[simp] theorem holds_additionalProperties :
    Holds search siblings (name "additionalProperties", v) x ↔
      ∀ fields, x = .obj fields →
        ∀ f ∈ fields, f.1 ∉ declared siblings → Valid search v f.2 := by
  simp only [holds_iff, assertion, name_inj, String.reduceEq, if_false, false_implies, true_implies,
    true_and]

end keywords

@[simp] theorem valid_false : ¬Valid search (.bool false) x := by
  simp [Valid]

end JsonSchema

import ProviderSdk.Lib.JsonSchema

/-!
# Well-formed schema documents

What a JSON Schema document may look like, draft 2020-12, for the keywords of `Role.member`.
A value in a document has a `Role`, which its parent's role and its key determine, and the
role says what the value may be : a schema, an array of distinct names, a count.

`Formed` is that every value of a document is what its role admits, and that no object has
a key twice.
-/

namespace JsonSchema

open Json

/-- What a value of a schema document is there for. -/
inductive Role where
  | schema
  /-- A schema for each name. -/
  | properties
  /-- A list of schemas. -/
  | schemas
  /-- A list of distinct names. -/
  | names
  /-- A list of distinct values. -/
  | values
  /-- A list of distinct names for each name. -/
  | dependents
  /-- A non-negative integer. -/
  | count
  /-- Any JSON value. -/
  | any
  deriving DecidableEq

namespace Role

/-- The role of a member's value. -/
def member : Role → Text → Role
  | schema, key =>
    if key = name "properties" then properties
    else if key = name "items" ∨ key = name "not" ∨ key = name "if" ∨ key = name "then" ∨
      key = name "additionalProperties" then schema
    else if key = name "anyOf" ∨ key = name "allOf" ∨ key = name "oneOf" then schemas
    else if key = name "required" then names
    else if key = name "enum" then values
    else if key = name "dependentRequired" then dependents
    else if key = name "minLength" ∨ key = name "minItems" ∨ key = name "maxItems" then count
    else any
  | properties, _ => schema
  | dependents, _ => names
  | _, _ => any

/-- The role of an item. -/
def item : Role → Role
  | schemas => schema
  | _ => any

/-- What a value in the role may be, apart from the values in it. -/
def Admits : Role → Json → Prop
  | schema, v => (∃ fields, v = .obj fields) ∨ ∃ b, v = .bool b
  | properties, v => ∃ fields, v = .obj fields
  | schemas, v => ∃ items, v = .arr items
  | names, v => ∃ texts : List Text, v = .arr (texts.map .str) ∧ texts.Nodup
  | values, v => ∃ items, v = .arr items ∧ items.Pairwise fun a b => ¬Same a b
  | dependents, v => ∃ fields, v = .obj fields
  | count, v => ∃ n : ℕ, v = .int n
  | any, _ => True

end Role

mutual

/-- Every value is one its role admits, and no object has a key twice. -/
def Formed (role : Role) : Json → Prop
  | .null => role.Admits .null
  | .bool b => role.Admits (.bool b)
  | .int i => role.Admits (.int i)
  | .num v => role.Admits (.num v)
  | .str s => role.Admits (.str s)
  | .arr items => role.Admits (.arr items) ∧ ItemsFormed role.item items
  | .obj fields => role.Admits (.obj fields) ∧ (keys fields).Nodup ∧ FieldsFormed role fields

def ItemsFormed (role : Role) : List Json → Prop
  | [] => True
  | v :: items => Formed role v ∧ ItemsFormed role items

def FieldsFormed (role : Role) : List (Text × Json) → Prop
  | [] => True
  | (key, v) :: fields => Formed (role.member key) v ∧ FieldsFormed role fields

end

variable {role : Role}

theorem formed_bool {b : Bool} : Formed role (.bool b) ↔ role.Admits (.bool b) :=
  Iff.rfl

theorem formed_int {i : ℤ} : Formed role (.int i) ↔ role.Admits (.int i) :=
  Iff.rfl

theorem formed_num {v : Floating.Value Floating.binary64} :
    Formed role (.num v) ↔ role.Admits (.num v) :=
  Iff.rfl

theorem formed_str {s : Text} : Formed role (.str s) ↔ role.Admits (.str s) :=
  Iff.rfl

theorem itemsFormed_iff {items : List Json} :
    ItemsFormed role items ↔ ∀ v ∈ items, Formed role v := by
  induction items with
  | nil => exact iff_of_true trivial (List.forall_mem_nil _)
  | cons v items ih =>
    rw [List.forall_mem_cons, ← ih]
    exact Iff.rfl

theorem fieldsFormed_iff {fields : List (Text × Json)} :
    FieldsFormed role fields ↔ fields.Forall fun p => Formed (role.member p.1) p.2 := by
  induction fields with
  | nil => exact Iff.rfl
  | cons p fields ih =>
    rw [List.forall_cons, ← ih]
    exact Iff.rfl

theorem formed_arr {items : List Json} :
    Formed role (.arr items) ↔ role.Admits (.arr items) ∧ ∀ v ∈ items, Formed role.item v := by
  rw [← itemsFormed_iff]
  exact Iff.rfl

theorem formed_obj {fields : List (Text × Json)} :
    Formed role (.obj fields) ↔ role.Admits (.obj fields) ∧ (keys fields).Nodup ∧
      fields.Forall fun p => Formed (role.member p.1) p.2 := by
  rw [← fieldsFormed_iff]
  exact Iff.rfl

/-! ## Values of each role -/

@[simp] theorem formed_str_any {s : Text} : Formed .any (.str s) :=
  formed_str.mpr trivial

@[simp] theorem formed_int_any {i : ℤ} : Formed .any (.int i) :=
  formed_int.mpr trivial

@[simp] theorem formed_num_any {v : Floating.Value Floating.binary64} :
    Formed .any (.num v) :=
  formed_num.mpr trivial

@[simp] theorem formed_bool_any {b : Bool} : Formed .any (.bool b) :=
  formed_bool.mpr trivial

@[simp] theorem formed_bool_schema {b : Bool} : Formed .schema (.bool b) :=
  formed_bool.mpr (Or.inr ⟨b, rfl⟩)

@[simp] theorem formed_count {i : ℤ} : Formed .count (.int i) ↔ 0 ≤ i := by
  rw [formed_int]
  constructor
  · rintro ⟨n, hn⟩
    rw [Json.int.inj hn]
    exact Int.natCast_nonneg n
  · exact fun h => ⟨i.toNat, congrArg Json.int (Int.toNat_of_nonneg h).symm⟩

@[simp] theorem formed_schema {fields : List (Text × Json)} :
    Formed .schema (.obj fields) ↔ (keys fields).Nodup ∧
      fields.Forall fun p => Formed (Role.schema.member p.1) p.2 :=
  formed_obj.trans (and_iff_right (Or.inl ⟨fields, rfl⟩))

@[simp] theorem formed_properties {fields : List (Text × Json)} :
    Formed .properties (.obj fields) ↔
      (keys fields).Nodup ∧ ∀ p ∈ fields, Formed .schema p.2 := by
  rw [formed_obj, and_iff_right ⟨fields, rfl⟩, List.forall_iff_forall_mem]
  exact Iff.rfl

@[simp] theorem formed_dependents {fields : List (Text × Json)} :
    Formed .dependents (.obj fields) ↔
      (keys fields).Nodup ∧ ∀ p ∈ fields, Formed .names p.2 := by
  rw [formed_obj, and_iff_right ⟨fields, rfl⟩, List.forall_iff_forall_mem]
  exact Iff.rfl

@[simp] theorem formed_schemas {items : List Json} :
    Formed .schemas (.arr items) ↔ ∀ v ∈ items, Formed .schema v := by
  rw [formed_arr, and_iff_right ⟨items, rfl⟩]
  exact Iff.rfl

theorem forall_formed_texts {texts : List Text} : ∀ v ∈ texts.map .str, Formed .any v := by
  intro v hv
  obtain ⟨s, -, rfl⟩ := List.mem_map.mp hv
  exact formed_str_any

@[simp] theorem formed_names {texts : List Text} :
    Formed .names (.arr (texts.map .str)) ↔ texts.Nodup := by
  rw [formed_arr]
  constructor
  · rintro ⟨⟨names, h, hnd⟩, -⟩
    have hinj : Function.Injective Json.str := fun a b hab => Json.str.inj hab
    rwa [List.map_injective_iff.mpr hinj (Json.arr.inj h)]
  · exact fun hnd => ⟨⟨texts, rfl, hnd⟩, forall_formed_texts⟩

@[simp] theorem formed_values {texts : List Text} :
    Formed .values (.arr (texts.map .str)) ↔ texts.Nodup := by
  have hpairs : ((texts.map Json.str).Pairwise fun a b => ¬Same a b) ↔ texts.Nodup := by
    rw [List.pairwise_map]
    refine List.Pairwise.iff fun a b => not_congr ?_
    rw [same_str, Json.str.injEq]
    exact eq_comm
  rw [formed_arr, ← hpairs]
  constructor
  · rintro ⟨⟨items, h, hp⟩, -⟩
    rwa [Json.arr.inj h]
  · exact fun hp => ⟨⟨_, rfl, hp⟩, forall_formed_texts⟩

end JsonSchema

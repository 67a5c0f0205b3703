import ProviderSdk.Locations

/-!
# What the checks of a declaration tree say

A check is a sequence of conditions, each with the exception it throws. `..._eq_ok` says
for each check of the tree which conditions it accepts, so that nothing else reads the
checks themselves.

`checked_of_within` : every declaration below one that passed has passed.
-/

namespace ProviderSdk.Config

open Relation

variable {stl : Stl}

/-! ## Sequences of checks -/

theorem andThen_eq_ok {x y : Except LogicError Unit} :
    (x >>= fun _ => y) = .ok () ↔ x = .ok () ∧ y = .ok () := by
  cases x with
  | error e => simp [bind, Except.bind]
  | ok u => simp [bind, Except.bind]

theorem exists_ok_of_bind {α β : Type} {x : Except LogicError α} {f : α → Except LogicError β}
    {b : β} (h : (x >>= f) = .ok b) : ∃ a, x = .ok a ∧ f a = .ok b := by
  cases x with
  | error e => simp [bind, Except.bind] at h
  | ok a => exact ⟨a, rfl, h⟩

theorem forM_eq_ok {α : Type} {f : α → Except LogicError Unit} {l : List α} :
    l.forM f = .ok () ↔ ∀ a ∈ l, f a = .ok () := by
  induction l with
  | nil => simp [pure, Except.pure]
  | cons a l ih =>
    rw [List.forall_mem_cons, ← ih, ← andThen_eq_ok]
    rfl

@[simp] theorem treeCheck_eq_ok {ok : Bool} {path message : Bytes} :
    treeCheck ok path message = .ok () ↔ ok = true := by
  unfold treeCheck
  split_ifs with h <;> simp [h]

@[simp] theorem checkUtf8_eq_ok {value path what : Bytes} :
    checkUtf8 value path what = .ok () ↔ isValidUtf8 value = true := by
  simp [checkUtf8]

/-! ## Fields -/

/-- The texts of a field are UTF-8. -/
structure Field.Spec.TextsValid (spec : Field.Spec) : Prop where
  key : isValidUtf8 spec.key = true
  title : isValidUtf8 spec.title = true
  description : isValidUtf8 spec.description = true
  placeholder : isValidUtf8 spec.placeholder = true
  pattern : ∀ p ∈ spec.pattern, isValidUtf8 p = true
  enumValues : ∀ ev ∈ spec.enumValues, isValidUtf8 ev.value = true ∧ isValidUtf8 ev.title = true
  constValue : ∀ v ∈ spec.constValue, isValidUtf8 v = true
  forbiddenValues : ∀ forbidden ∈ spec.forbiddenValues,
    isValidUtf8 forbidden.value = true ∧ isValidUtf8 forbidden.message = true
  defaultString : ∀ v ∈ spec.defaultString, isValidUtf8 v = true

theorem checkTexts_eq_ok {spec : Field.Spec} {path : Bytes} :
    checkTexts spec path = .ok () ↔ spec.TextsValid := by
  simp only [checkTexts, andThen_eq_ok, forM_eq_ok, checkUtf8_eq_ok, Option.mem_toList]
  constructor
  · rintro ⟨h1, h2, h3, h4, h5, h6, h7, h8, h9⟩
    exact ⟨h1, h2, h3, h4, h5, h6, h7, h8, h9⟩
  · rintro ⟨h1, h2, h3, h4, h5, h6, h7, h8, h9⟩
    exact ⟨h1, h2, h3, h4, h5, h6, h7, h8, h9⟩

theorem textsValid_of_checkField {spec : Field.Spec} {path : Bytes} {inArrayItem : Bool}
    (h : checkField stl spec path inArrayItem = .ok ()) : spec.TextsValid := by
  rw [checkField, andThen_eq_ok, checkTexts_eq_ok] at h
  exact h.1

/-! ## Objects -/

/-- The discriminator is a String member. -/
theorem exists_of_stringScalar {members : List Member} {key : Bytes} {spec : Field.Spec}
    (h : stringScalar members key = some spec) :
    ∃ f, Member.scalar f ∈ members ∧ f.spec = spec ∧ spec.key = key ∧ spec.kind = .string := by
  obtain ⟨m, hm, hf⟩ := List.exists_of_findSome?_eq_some h
  cases m with
  | scalar f =>
    dsimp only at hf
    split_ifs at hf with hk
    obtain rfl := Option.some.inj hf
    exact ⟨f, hm, rfl, hk⟩
  | object key required o => cases hf
  | array key required a => cases hf

/-- A discriminator is the key of a member. -/
theorem mem_keys_of_stringScalar {members : List Member} {key : Bytes}
    (h : (stringScalar members key).isSome = true) : key ∈ members.map Member.key := by
  obtain ⟨spec, hspec⟩ := Option.isSome_iff_exists.mp h
  obtain ⟨f, hf, rfl, hkey, -⟩ := exists_of_stringScalar hspec
  exact hkey ▸ List.mem_map_of_mem (f := Member.key) hf

/-- What the constructor asks of a conditional, with the branches before it. -/
structure Object.Conditional.Sound (members : List Member) (seen : List (Bytes × Bytes))
    (c : Object.Conditional) : Prop where
  equals : isValidUtf8 c.equals = true
  discriminator : (stringScalar members c.key).isSome = true
  reachable : ((stringScalar members c.key).map acceptedValues).getD [] = [] ∨
    c.equals ∈ ((stringScalar members c.key).map acceptedValues).getD []
  unseen : (c.key, c.equals) ∉ seen
  require : ∀ key ∈ c.branch.requireKeys, key ∈ members.map Member.key
  forbid : ∀ key ∈ c.branch.forbidKeys, key ∈ members.map Member.key ∧
    key ∉ requiredKeys members ∧ key ∉ c.branch.requireKeys

theorem checkConditional_eq_ok {members : List Member} {path : Bytes}
    {seen : List (Bytes × Bytes)} {c : Object.Conditional} :
    checkConditional members path seen c = .ok () ↔ c.Sound members seen := by
  simp only [checkConditional, andThen_eq_ok, forM_eq_ok, checkUtf8_eq_ok, treeCheck_eq_ok,
    Bool.or_eq_true, List.isEmpty_iff, decide_eq_true_eq]
  constructor
  · rintro ⟨h1, h2, h3, h4, h5, h6⟩
    exact ⟨h1, h2, h3, h4, h5, h6⟩
  · rintro ⟨h1, h2, h3, h4, h5, h6⟩
    exact ⟨h1, h2, h3, h4, h5, h6⟩

/-- The conditionals each pass, with those before them. -/
theorem sound_of_checkConditionals {members : List Member} {path : Bytes} :
    ∀ {seen : List (Bytes × Bytes)} {cs : List Object.Conditional},
      checkConditionals members path seen cs = .ok () →
        ∀ c ∈ cs, ∃ seen', c.Sound members seen'
  | _, [], _, _, h => absurd h List.not_mem_nil
  | seen, c :: cs, h, c', hc' => by
    rw [checkConditionals, andThen_eq_ok, checkConditional_eq_ok] at h
    rcases List.mem_cons.mp hc' with rfl | hc'
    · exact ⟨seen, h.1⟩
    · exact sound_of_checkConditionals h.2 c' hc'

theorem checkAlsoRequired_eq_ok {members : List Member} {depPath key : Bytes} :
    ∀ {seen ks : List Bytes}, checkAlsoRequired members depPath key seen ks = .ok () ↔
      (∀ k ∈ ks, k ∈ members.map Member.key ∧ k ≠ key ∧ k ∉ seen) ∧ ks.Nodup
  | seen, [] => by simp [checkAlsoRequired]
  | seen, k :: ks => by
    rw [checkAlsoRequired, List.forall_mem_cons]
    simp only [andThen_eq_ok, treeCheck_eq_ok, decide_eq_true_eq, checkAlsoRequired_eq_ok,
      List.nodup_cons, List.mem_cons, not_or]
    constructor
    · rintro ⟨h1, h2, h3, h4, h5⟩
      exact ⟨⟨⟨h1, h2, h3⟩, fun k' hk' => ⟨(h4 k' hk').1, (h4 k' hk').2.1, (h4 k' hk').2.2.2⟩⟩,
        fun hk => (h4 k hk).2.2.1 rfl, h5⟩
    · rintro ⟨⟨⟨h1, h2, h3⟩, h4⟩, hk, h5⟩
      refine ⟨h1, h2, h3, fun k' hk' => ⟨(h4 k' hk').1, (h4 k' hk').2.1, ?_, (h4 k' hk').2.2⟩, h5⟩
      rintro rfl
      exact hk hk'

/-- What the constructor asks of a dependency. -/
structure Object.DependentRequired.Sound (members : List Member)
    (d : Object.DependentRequired) : Prop where
  key : d.key ∈ members.map Member.key
  also : ∀ k ∈ d.alsoRequired, k ∈ members.map Member.key ∧ k ≠ d.key
  nodup : d.alsoRequired.Nodup

theorem checkDependents_eq_ok {members : List Member} {path : Bytes} :
    ∀ {seen : List Bytes} {ds : List Object.DependentRequired},
      checkDependents members path seen ds = .ok () ↔
        (∀ d ∈ ds, d.Sound members ∧ d.key ∉ seen) ∧
          (ds.map Object.DependentRequired.key).Nodup
  | seen, [] => by simp [checkDependents]
  | seen, d :: ds => by
    rw [checkDependents, List.forall_mem_cons]
    simp only [andThen_eq_ok, treeCheck_eq_ok, decide_eq_true_eq, checkAlsoRequired_eq_ok,
      checkDependents_eq_ok, List.map_cons, List.nodup_cons, List.mem_cons, not_or,
      List.not_mem_nil, not_false_eq_true, and_true]
    constructor
    · rintro ⟨h1, h2, ⟨h3, h4⟩, h5, h6⟩
      refine ⟨⟨⟨⟨h1, h3, h4⟩, h2⟩, fun d' hd' => ⟨(h5 d' hd').1, (h5 d' hd').2.2⟩⟩, ?_, h6⟩
      intro hkey
      obtain ⟨d', hd', hkey⟩ := List.mem_map.mp hkey
      exact (h5 d' hd').2.1 hkey
    · rintro ⟨⟨⟨⟨h1, h3, h4⟩, h2⟩, h5⟩, hne, h6⟩
      refine ⟨h1, h2, ⟨h3, h4⟩, fun d' hd' => ⟨(h5 d' hd').1, ?_, (h5 d' hd').2⟩, h6⟩
      exact fun hkey => hne (hkey ▸ List.mem_map_of_mem hd')

theorem checkMembers_eq_ok {path : Bytes} {inArrayItem : Bool} : ∀ {ms : List Member},
    checkMembers stl ms path inArrayItem = .ok () ↔
      ∀ m ∈ ms, checkMember stl m path inArrayItem = .ok ()
  | [] => by simp [checkMembers]
  | m :: ms => by
    rw [checkMembers, andThen_eq_ok, checkMembers_eq_ok, List.forall_mem_cons]

/-! ## The tree -/

/-- From a declaration to those directly below it. -/
inductive Part : Decl → Decl → Prop
  | member {o : Object} {m : Member} (hm : m ∈ o.members) : Part (.object o) m.decl
  | item (a : Array) : Part (.array a) a.item

/-- From a declaration to itself and those below it. -/
abbrev Within : Decl → Decl → Prop :=
  ReflTransGen Part

theorem wellFounded_part : WellFounded fun c d => Part d c := by
  refine Subrelation.wf (r := InvImage (· < ·) sizeOf) ?_ (InvImage.wf _ wellFounded_lt)
  intro c d h
  cases h with
  | @member o m hm =>
    have hlt := List.sizeOf_lt_of_mem hm
    obtain ⟨spec, members⟩ := o
    cases m <;> simp_all [InvImage, Member.decl] <;> omega
  | item a => cases a <;> simp [InvImage, Array.item] <;> omega

theorem distinct_of_part (d c : Decl) (hd : d.Distinct) (h : Part d c) : c.Distinct := by
  cases h with
  | @member o m hm =>
    have hmd := (Object.distinct_iff.mp hd).2 m hm
    cases m <;> exact hmd
  | item a => cases a <;> exact hd

/-- Every declaration below one with distinct member keys has distinct member keys. -/
theorem distinct_of_within {d c : Decl} (hd : d.Distinct) (h : Within d c) : c.Distinct := by
  induction h with
  | refl => exact hd
  | tail _ hpart ih => exact distinct_of_part _ _ ih hpart

/-- A declaration passed its check, wherever it stood. -/
def Decl.Checked (stl : Stl) : Decl → Prop
  | .field f => ∃ path inArrayItem, checkField stl f.spec path inArrayItem = .ok ()
  | .object o => ∃ path inArrayItem, checkObject stl o path inArrayItem = .ok ()
  | .array a => ∃ path, checkArray stl a path = .ok ()

/-- What the check of an object asks of the object itself. -/
structure Object.Sound (o : Object) : Prop where
  title : isValidUtf8 o.spec.title = true
  description : isValidUtf8 o.spec.description = true
  members : ∀ m ∈ o.members, isValidUtf8 m.key = true
  conditionals : ∀ c ∈ o.spec.conditionals, ∃ seen, c.Sound o.members seen
  dependents : ∀ d ∈ o.spec.dependentRequired, d.Sound o.members
  dependents_nodup : (o.spec.dependentRequired.map Object.DependentRequired.key).Nodup

theorem checkMember_utf8 {m : Member} {path : Bytes} {inArrayItem : Bool}
    (h : checkMember stl m path inArrayItem = .ok ()) : isValidUtf8 m.key = true := by
  cases m <;>
  · rw [checkMember, andThen_eq_ok, checkUtf8_eq_ok] at h
    exact h.1

/-- The members of a checked object are checked. -/
theorem checked_of_checkMember {m : Member} {path : Bytes} {inArrayItem : Bool}
    (h : checkMember stl m path inArrayItem = .ok ()) : m.decl.Checked stl := by
  cases m with
  | scalar f =>
    rw [checkMember, andThen_eq_ok] at h
    exact ⟨_, _, h.2⟩
  | object key required o =>
    rw [checkMember, andThen_eq_ok] at h
    exact ⟨_, _, h.2⟩
  | array key required a =>
    rw [checkMember, andThen_eq_ok] at h
    exact ⟨_, h.2⟩

theorem checkObject_eq_ok {o : Object} {path : Bytes} {inArrayItem : Bool}
    (h : checkObject stl o path inArrayItem = .ok ()) :
    o.Sound ∧ ∀ m ∈ o.members, m.decl.Checked stl := by
  obtain ⟨spec, members⟩ := o
  simp only [checkObject, andThen_eq_ok, checkUtf8_eq_ok, checkMembers_eq_ok,
    checkDependents_eq_ok] at h
  obtain ⟨htitle, hdescription, hmembers, hconditionals, hdependents, -⟩ := h
  exact ⟨⟨htitle, hdescription, fun m hm => checkMember_utf8 (hmembers m hm),
    sound_of_checkConditionals hconditionals, fun d hd => (hdependents.1 d hd).1, hdependents.2⟩,
    fun m hm => checked_of_checkMember (hmembers m hm)⟩

theorem sound_of_checked {o : Object} (h : (Decl.object o).Checked stl) : o.Sound := by
  obtain ⟨path, inArrayItem, h⟩ := h
  exact (checkObject_eq_ok h).1

/-- The texts of an array are UTF-8. -/
theorem utf8_of_checkArray {a : Array} {path : Bytes} (h : checkArray stl a path = .ok ()) :
    isValidUtf8 a.spec.title = true ∧ isValidUtf8 a.spec.description = true := by
  cases a with
  | scalars f unique spec =>
    simp only [checkArray, checkLimits, andThen_eq_ok, checkUtf8_eq_ok] at h
    exact ⟨h.1.1, h.1.2.1⟩
  | objects o spec =>
    simp only [checkArray, checkLimits, andThen_eq_ok, checkUtf8_eq_ok] at h
    exact ⟨h.1.1, h.1.2.1⟩

theorem checked_of_part (d c : Decl) (hd : d.Checked stl) (h : Part d c) : c.Checked stl := by
  cases h with
  | @member o m hm =>
    obtain ⟨path, inArrayItem, hd⟩ := hd
    exact (checkObject_eq_ok hd).2 m hm
  | item a =>
    obtain ⟨path, hd⟩ := hd
    cases a with
    | scalars f unique spec =>
      simp only [checkArray, andThen_eq_ok] at hd
      exact ⟨_, _, hd.2.2.2⟩
    | objects o spec =>
      simp only [checkArray, andThen_eq_ok] at hd
      exact ⟨_, _, hd.2⟩

/-- Every declaration below one that passed its check has passed. -/
theorem checked_of_within {d c : Decl} (hd : d.Checked stl) (h : Within d c) : c.Checked stl := by
  induction h with
  | refl => exact hd
  | tail _ hpart ih => exact checked_of_part _ _ ih hpart

theorem Schema.distinct_root (schema : Schema stl) : (Decl.object schema.root).Distinct :=
  schema.distinct

theorem Schema.checked_root (schema : Schema stl) : (Decl.object schema.root).Checked stl :=
  ⟨_, _, schema.checked⟩

end ProviderSdk.Config

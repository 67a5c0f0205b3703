import ProviderSdk.Locations

/-!
# The order of the keys

A YAML map is not ordered, but a parsed one is a list of entries, and the validator walks it in
the order of the document. `Reordered` relates documents that differ in the order of their
keys alone, in any of their maps. The errors of the two are the same but for their order
(`validate_reordered`), and each declared scalar is read as the same value.
-/

namespace ProviderSdk.Config

/-- The documents differ in the order of the keys in their maps, which do not repeat. -/
inductive Reordered : Node → Node → Prop where
  | null : Reordered .null .null
  | scalar (tag text : Bytes) : Reordered (.scalar tag text) (.scalar tag text)
  | sequence {items items' : List Node} (h : List.Forall₂ Reordered items items') :
    Reordered (.sequence items) (.sequence items')
  | map {entries middle entries' : Entries} (hkeys : entries.scalarKeys.Nodup)
    (hsame : entries.map Prod.fst = middle.map Prod.fst)
    (hvalues : List.Forall₂ Reordered (entries.map Prod.snd) (middle.map Prod.snd))
    (horder : middle.Perm entries') : Reordered (.map entries) (.map entries')

/-! ## What is found under a key -/

/-- Where at most one element is looked for, the order does not matter. -/
theorem find?_of_perm {α : Type} {p : α → Bool} {l l' : List α} (h : l.Perm l')
    (hone : ∀ a ∈ l, ∀ b ∈ l, p a = true → p b = true → a = b) : l.find? p = l'.find? p := by
  cases hl : l.find? p with
  | none =>
    have hnone := List.find?_eq_none.mp hl
    exact (List.find?_eq_none.mpr fun a ha => hnone a (h.mem_iff.mpr ha)).symm
  | some a =>
    have ha := List.mem_of_find?_eq_some hl
    have hpa := List.find?_some hl
    cases hl' : l'.find? p with
    | none => exact absurd hpa (List.find?_eq_none.mp hl' a (h.mem_iff.mp ha))
    | some b =>
      have hb := h.mem_iff.mpr (List.mem_of_find?_eq_some hl')
      rw [hone a ha b hb hpa (List.find?_some hl')]

/-- Entries with one key are one entry, if the keys do not repeat. -/
theorem eq_of_scalarText : ∀ {entries : Entries}, entries.scalarKeys.Nodup → ∀ {a b : Node × Node},
    a ∈ entries → b ∈ entries → ∀ {key : Bytes}, a.1.scalarText = some key →
      b.1.scalarText = some key → a = b
  | [], _, _, _, ha, _, _, _, _ => by cases ha
  | e :: entries, h, a, b, ha, hb, key, hka, hkb => by
    have hmem : ∀ {c : Node × Node}, c ∈ entries → c.1.scalarText = some key →
        key ∈ Entries.scalarKeys entries := fun hc hkc => List.mem_filterMap.mpr ⟨_, hc, hkc⟩
    have hhead : e.1.scalarText = some key → key ∉ Entries.scalarKeys entries := by
      intro hke
      have hcons : Entries.scalarKeys (e :: entries) = key :: Entries.scalarKeys entries :=
        List.filterMap_cons_some hke
      rw [hcons] at h
      exact (List.nodup_cons.mp h).1
    have htail : (Entries.scalarKeys entries).Nodup := by
      refine h.sublist ?_
      exact List.Sublist.filterMap _ (List.sublist_cons_self e entries)
    rcases List.mem_cons.mp ha with rfl | ha'
    · rcases List.mem_cons.mp hb with rfl | hb'
      · rfl
      · exact absurd (hmem hb' hkb) (hhead hka)
    · rcases List.mem_cons.mp hb with rfl | hb'
      · exact absurd (hmem ha' hka) (hhead hkb)
      · exact eq_of_scalarText htail ha' hb' hka hkb

variable {entries middle entries' : Entries}

theorem scalarKeys_of_same (h : entries.map Prod.fst = middle.map Prod.fst) :
    entries.scalarKeys = middle.scalarKeys := by
  have hmap : ∀ l : Entries, l.scalarKeys = (l.map Prod.fst).filterMap Node.scalarText := by
    intro l
    rw [List.filterMap_map]
    rfl
  rw [hmap, hmap, h]

/-- The value of a key is the one of the other document, reordered. -/
theorem valueAt_of_values : ∀ {entries middle : Entries},
    entries.map Prod.fst = middle.map Prod.fst →
      List.Forall₂ Reordered (entries.map Prod.snd) (middle.map Prod.snd) → ∀ key : Bytes,
        Option.Rel Reordered (entries.valueAt key) (middle.valueAt key)
  | [], [], _, _, _ => .none
  | (k, v) :: entries, (k', v') :: middle, hsame, hvalues, key => by
    obtain ⟨hk, hsame'⟩ := List.cons.inj hsame
    obtain ⟨hv, hvalues'⟩ := List.forall₂_cons.mp hvalues
    have ih := valueAt_of_values hsame' hvalues' key
    unfold Entries.valueAt at ih ⊢
    have hk' : k = k' := hk
    subst hk'
    by_cases hkey : k.scalarText = some key
    · simpa [hkey] using hv
    · simpa [hkey] using ih

theorem valueAt_of_perm (hkeys : middle.scalarKeys.Nodup) (h : middle.Perm entries') (key : Bytes) :
    middle.valueAt key = entries'.valueAt key := by
  unfold Entries.valueAt
  rw [find?_of_perm h]
  intro a ha b hb hka hkb
  exact eq_of_scalarText hkeys ha hb (of_decide_eq_true hka) (of_decide_eq_true hkb)

/-! ## The loop over the keys -/

/-- The error of a key that is not a scalar. -/
def nonScalarError (path : Bytes) (e : Node × Node) : Option ValidationError :=
  match e.1.scalarText with
  | none => some ⟨mapPath path, lit "keys must be scalars"⟩
  | some _ => none

/-- Without repeated keys, the loop over the keys keeps each, and reports those that are not
scalars. -/
theorem keys_of_nodup (path : Bytes) : ∀ (seen : List Bytes) {entries : Entries},
    (entries.scalarKeys).Nodup → (∀ key ∈ entries.scalarKeys, key ∉ seen) →
      presentKeys seen entries = entries.scalarKeys ∧
        keyErrors path seen entries = entries.filterMap (nonScalarError path)
  | seen, [], _, _ => ⟨rfl, rfl⟩
  | seen, (k, v) :: entries, h, hseen => by
    cases hk : k.scalarText with
    | none =>
      have hkeys : Entries.scalarKeys ((k, v) :: entries) = Entries.scalarKeys entries :=
        List.filterMap_cons_none hk
      rw [hkeys] at h hseen ⊢
      obtain ⟨hpresent, herrors⟩ := keys_of_nodup path _ h hseen
      simp [presentKeys, keyErrors, hk, hpresent, herrors, nonScalarError]
    | some key =>
      have hkeys : Entries.scalarKeys ((k, v) :: entries) = key :: Entries.scalarKeys entries :=
        List.filterMap_cons_some hk
      rw [hkeys] at h hseen ⊢
      obtain ⟨hfresh, htail⟩ := List.nodup_cons.mp h
      have hnew : key ∉ seen := hseen key List.mem_cons_self
      obtain ⟨hpresent, herrors⟩ := keys_of_nodup path (key :: seen) htail fun other ho =>
        List.not_mem_cons_of_ne_of_not_mem (fun heq => hfresh (heq ▸ ho))
          (hseen other (List.mem_cons_of_mem _ ho))
      simp [presentKeys, keyErrors, hk, hnew, hpresent, herrors, nonScalarError]

/-! ## Two maps -/

/-- What the validator sees of two maps with their keys reordered. -/
structure SameMap (entries entries' : Entries) : Prop where
  keys : entries.scalarKeys.Perm entries'.scalarKeys
  nodup : entries.scalarKeys.Nodup
  nonScalar : ∀ path,
    (entries.filterMap (nonScalarError path)).Perm (entries'.filterMap (nonScalarError path))
  values : ∀ key, Option.Rel Reordered (entries.valueAt key) (entries'.valueAt key)

theorem SameMap.of_reordered (h : Reordered (.map entries) (.map entries')) :
    SameMap entries entries' := by
  cases h with
  | @map _ middle _ hkeys hsame hvalues horder =>
    have hmiddle := scalarKeys_of_same hsame
    refine ⟨?_, hkeys, fun path => ?_, fun key => ?_⟩
    · rw [hmiddle]
      exact horder.filterMap _
    · have hmap : ∀ l : Entries, l.filterMap (nonScalarError path) =
          (l.map Prod.fst).filterMap fun k => nonScalarError path (k, .null) := by
        intro l
        rw [List.filterMap_map]
        rfl
      rw [hmap entries, hsame, ← hmap middle]
      exact horder.filterMap _
    · rw [← valueAt_of_perm (hmiddle ▸ hkeys) horder]
      exact valueAt_of_values hsame hvalues key

namespace SameMap

/-- A key is in neither map, or has a value in both. -/
theorem valueAt_cases (h : SameMap entries entries') (key : Bytes) :
    (entries.valueAt key = none ∧ entries'.valueAt key = none) ∨
      ∃ n n', entries.valueAt key = some n ∧ entries'.valueAt key = some n' ∧ Reordered n n' := by
  have hvalues := h.values key
  generalize entries.valueAt key = found at hvalues
  generalize entries'.valueAt key = found' at hvalues
  cases hvalues with
  | none => exact .inl ⟨rfl, rfl⟩
  | some hvalue => exact .inr ⟨_, _, rfl, rfl, hvalue⟩

theorem mem_keys (h : SameMap entries entries') {key : Bytes} :
    key ∈ entries.scalarKeys ↔ key ∈ entries'.scalarKeys :=
  h.keys.mem_iff

theorem present (h : SameMap entries entries') :
    presentKeys [] entries = entries.scalarKeys ∧ presentKeys [] entries' = entries'.scalarKeys :=
  ⟨(keys_of_nodup [] [] h.nodup (by simp)).1,
    (keys_of_nodup [] [] (h.keys.nodup_iff.mp h.nodup) (by simp)).1⟩

theorem keyErrors_perm (h : SameMap entries entries') (path : Bytes) :
    (keyErrors path [] entries).Perm (keyErrors path [] entries') := by
  rw [(keys_of_nodup path [] h.nodup (by simp)).2,
    (keys_of_nodup path [] (h.keys.nodup_iff.mp h.nodup) (by simp)).2]
  exact h.nonScalar path

end SameMap

/-! ## Nodes that read the same -/

theorem Reordered.resolve {n n' : Node} (h : Reordered n n') : n.resolve = n'.resolve := by
  cases h <;> rfl

theorem Reordered.scalarText {n n' : Node} (h : Reordered n n') : n.scalarText = n'.scalarText := by
  cases h <;> rfl

variable {stl : Stl}

theorem Reordered.validateField {n n' : Node} (h : Reordered n n') (spec : Field.Spec)
    (path : Bytes) : validateField stl spec n path = Config.validateField stl spec n' path := by
  unfold Config.validateField
  rw [h.resolve]

theorem Reordered.canonicalValue {n n' : Node} (h : Reordered n n') (spec : Field.Spec) :
    canonicalValue stl spec n = Config.canonicalValue stl spec n' := by
  unfold Config.canonicalValue
  rw [h.resolve]

namespace SameMap

theorem resolveScalar_valueAt (h : SameMap entries entries') (key : Bytes) :
    resolveScalar (entries.valueAt key) = resolveScalar (entries'.valueAt key) := by
  rcases h.valueAt_cases key with ⟨hn, hn'⟩ | ⟨n, n', hn, hn', hvalue⟩ <;> rw [hn, hn']
  exact hvalue.resolve

theorem conditionalErrors_eq (h : SameMap entries entries') (path : Bytes) :
    conditionalErrors path entries entries.scalarKeys =
      conditionalErrors path entries' entries'.scalarKeys := by
  funext c
  simp only [conditionalErrors, h.resolveScalar_valueAt, h.mem_keys]

theorem dependentErrors_eq (h : SameMap entries entries') (path : Bytes) :
    dependentErrors path entries.scalarKeys = dependentErrors path entries'.scalarKeys := by
  funext d
  simp only [dependentErrors, h.mem_keys]

theorem uniqueEntry_eq (h : SameMap entries entries') (m : Member) :
    uniqueEntry stl m entries = uniqueEntry stl m entries' := by
  cases m with
  | scalar f =>
    rcases h.valueAt_cases f.spec.key with ⟨hn, hn'⟩ | ⟨n, n', hn, hn', hvalue⟩
    · simp only [uniqueEntry, hn, hn']
    · simp only [uniqueEntry, hn, hn', Option.bind_some, hvalue.canonicalValue]
  | _ => rfl

theorem scalarText_valueAt (h : SameMap entries entries') (key : Bytes) :
    (entries.valueAt key).bind Node.scalarText = (entries'.valueAt key).bind Node.scalarText := by
  rcases h.valueAt_cases key with ⟨hn, hn'⟩ | ⟨n, n', hn, hn', hvalue⟩ <;> rw [hn, hn']
  exact hvalue.scalarText

theorem uniqueErrors_eq (h : SameMap entries entries') (itemPath : Bytes) :
    ∀ (seen : List (Bytes × Bytes)) (ms : List Member),
      uniqueErrors stl itemPath entries seen ms = uniqueErrors stl itemPath entries' seen ms
  | _, [] => rfl
  | seen, m :: ms => by
    simp only [uniqueErrors, h.uniqueEntry_eq m, h.scalarText_valueAt m.key,
      h.uniqueErrors_eq itemPath _ ms]

end SameMap

theorem scalarItemErrors_eq (item : Field.Spec) (unique : Bool) (path : Bytes) {ns ns' : List Node}
    (h : List.Forall₂ Reordered ns ns') : ∀ (i : ℕ) (seen : List Bytes),
      scalarItemErrors stl item unique path i seen ns =
        scalarItemErrors stl item unique path i seen ns' := by
  induction h with
  | nil => exact fun _ _ => rfl
  | cons h _ ih =>
    intro i seen
    simp only [scalarItemErrors, h.validateField, h.canonicalValue, ih]

theorem objectItemErrors_perm {validateItem : Node → Bytes → List ValidationError}
    (hitem : ∀ {n n' : Node}, Reordered n n' → ∀ path,
      (validateItem n path).Perm (validateItem n' path))
    (members : List Member) (path : Bytes) {ns ns' : List Node}
    (h : List.Forall₂ Reordered ns ns') : ∀ (i : ℕ) (seen : List (Bytes × Bytes)),
      (objectItemErrors stl validateItem members path i seen ns).Perm
        (objectItemErrors stl validateItem members path i seen ns') := by
  induction h with
  | nil => exact fun _ _ => .refl _
  | @cons n n' _ _ hn _ ih =>
    intro i seen
    refine (hitem hn _).append ?_
    cases hn with
    | map hkeys hsame hvalues horder =>
      have hmap := SameMap.of_reordered (.map hkeys hsame hvalues horder)
      simp only [hmap.uniqueErrors_eq]
      exact (ih _ _).append_left _
    | _ => exact ih _ _

/-! ## The walk -/

mutual

/-- The errors of an object do not depend on the order of the keys. -/
theorem validateObject_perm : ∀ (o : Object) {n n' : Node}, Reordered n n' → ∀ path,
    (validateObject stl o n path).Perm (validateObject stl o n' path)
  | ⟨spec, members⟩, _, _, hreordered, path => by
    cases hreordered with
    | map hkeys hsame hvalues horder =>
      have h := SameMap.of_reordered (.map hkeys hsame hvalues horder)
      simp only [validateObject, h.present.1, h.present.2, h.conditionalErrors_eq,
        h.dependentErrors_eq]
      refine ((((h.keyErrors_perm path).append ?_).append ?_).append_right _).append_right _
      · exact h.keys.flatMap_right _
      · exact validateMembers_perm members h path
    | _ => exact .refl _

theorem validateMembers_perm : ∀ (ms : List Member) {entries entries' : Entries},
    SameMap entries entries' → ∀ path,
      (validateMembers stl ms entries path).Perm (validateMembers stl ms entries' path)
  | [], _, _, _, _ => .refl _
  | m :: ms, entries, entries', h, path => by
    rw [validateMembers, validateMembers]
    refine List.Perm.append ?_ (validateMembers_perm ms h path)
    rcases h.valueAt_cases m.key with ⟨hn, hn'⟩ | ⟨n, n', hn, hn', hvalue⟩ <;> rw [hn, hn']
    exact validateMember_perm m hvalue _

theorem validateMember_perm : ∀ (m : Member) {n n' : Node}, Reordered n n' → ∀ path,
    (validateMember stl m n path).Perm (validateMember stl m n' path)
  | .scalar f, _, _, h, path => by
    rw [validateMember, validateMember, h.validateField]
  | .object _ _ o, _, _, h, path => validateObject_perm o h path
  | .array _ _ a, _, _, h, path => validateArray_perm a h path

theorem validateArray_perm : ∀ (a : Array) {n n' : Node}, Reordered n n' → ∀ path,
    (validateArray stl a n path).Perm (validateArray stl a n' path)
  | .scalars item unique spec, _, _, hreordered, path => by
    cases hreordered with
    | sequence h => rw [validateArray, validateArray, h.length_eq, scalarItemErrors_eq _ _ _ h]
    | _ => exact .refl _
  | .objects item spec, _, _, hreordered, path => by
    cases hreordered with
    | sequence h =>
      rw [validateArray, validateArray, h.length_eq]
      exact (objectItemErrors_perm (fun hn p => validateObject_perm item hn p) _ _ h _
        _).append_left _
    | _ => exact .refl _

end

/-! ## The sites -/

theorem exists_getElem?_of_forall₂ {α β : Type} {R : α → β → Prop} {l : List α} {l' : List β}
    (h : List.Forall₂ R l l') :
    ∀ {i : ℕ} {a : α}, l[i]? = some a → ∃ b, l'[i]? = some b ∧ R a b := by
  induction h with
  | nil => simp
  | cons h _ ih =>
    intro i a hi
    cases i with
    | zero =>
      obtain rfl : _ = a := by simpa using hi
      exact ⟨_, rfl, h⟩
    | succ i => exact ih (by simpa using hi)

/-- A step down one document is a step down the other. -/
theorem exists_child {s t : Site} (hchild : Child s t) {n' : Node} (h : Reordered s.node n') :
    ∃ m', Child ⟨s.decl, n', s.path⟩ ⟨t.decl, m', t.path⟩ ∧ Reordered t.node m' := by
  cases hchild with
  | @member o entries path m value hm hv =>
    cases h with
    | map hkeys hsame hvalues horder =>
      have hmap := SameMap.of_reordered (.map hkeys hsame hvalues horder)
      rcases hmap.valueAt_cases m.key with ⟨hn, -⟩ | ⟨n, n', hn, hn', hvalue⟩
      · cases hn.symm.trans hv
      · obtain rfl := Option.some.inj (hn.symm.trans hv)
        exact ⟨n', .member hm hn', hvalue⟩
  | @item a items path i n hi =>
    cases h with
    | sequence hitems =>
      obtain ⟨n', hn', hvalue⟩ := exists_getElem?_of_forall₂ hitems hi
      exact ⟨n', .item hn', hvalue⟩

/-- What is declared below one document is declared below the other, at the same path. -/
theorem exists_reaches {s t : Site} (hreach : Reaches s t) {n' : Node}
    (h : Reordered s.node n') :
    ∃ m', Reaches ⟨s.decl, n', s.path⟩ ⟨t.decl, m', t.path⟩ ∧ Reordered t.node m' := by
  induction hreach with
  | refl => exact ⟨n', .refl, h⟩
  | tail _ hchild ih =>
    obtain ⟨middle, hmiddle, hreordered⟩ := ih
    obtain ⟨m', hlast, hreordered'⟩ := exists_child hchild hreordered
    exact ⟨m', hmiddle.tail hlast, hreordered'⟩

/-- The order in which the keys of a config are written, at any depth, does not matter : the
errors are the same, each with its path and its message, in some order, and what is read of
each declared scalar is the same. -/
theorem validate_reordered (schema : Schema stl) {doc doc' : Node} (h : Reordered doc doc') :
    (validate schema doc).Perm (validate schema doc') ∧
      ∀ (f : Field) (node : Node) (path : Bytes),
        Reaches (schema.site doc) ⟨.field f, node, path⟩ →
          ∃ node', Reaches (schema.site doc') ⟨.field f, node', path⟩ ∧
            node'.resolve = node.resolve := by
  refine ⟨validateObject_perm schema.root h [], fun f node path hreach => ?_⟩
  obtain ⟨node', hreach', hreordered⟩ := exists_reaches (t := ⟨.field f, node, path⟩) hreach h
  exact ⟨node', hreach', hreordered.resolve.symm⟩

/-- A config with an unknown colour and shape, whose one device has the keys given. -/
def markedDoc (device : Entries) : Entries :=
  [(plain "mode", plain "manual"), (plain "devices", .sequence [.map device]),
    (plain "colour", plain "red"), (plain "shape", plain "round")]

def idFirst : Entries :=
  [(plain "id", plain "LEFT"), (plain "label", plain "Left")]

/-- The keys of the config and of its device, backwards. -/
theorem reordered_marked : Reordered (.map (markedDoc idFirst))
    (.map (markedDoc idFirst.reverse).reverse) := by
  have hdevice : Reordered (.map idFirst) (.map idFirst.reverse) :=
    .map (by decide) rfl (.cons (.scalar _ _) (.cons (.scalar _ _) .nil))
      (List.reverse_perm idFirst).symm
  have hsame : (markedDoc idFirst).map Prod.fst = (markedDoc idFirst.reverse).map Prod.fst := rfl
  have hvalues : List.Forall₂ Reordered ((markedDoc idFirst).map Prod.snd)
      ((markedDoc idFirst.reverse).map Prod.snd) :=
    .cons (.scalar _ _) (.cons (.sequence (.cons hdevice .nil))
      (.cons (.scalar _ _) (.cons (.scalar _ _) .nil)))
  have horder : (markedDoc idFirst.reverse).Perm (markedDoc idFirst.reverse).reverse :=
    (List.reverse_perm _).symm
  exact .map (by decide) hsame hvalues horder

/-- An unknown colour and shape, no addresses, and an id that does not match. -/
theorem validate_reordered_small :
    let doc := Node.map (markedDoc idFirst)
    let doc' := Node.map (markedDoc idFirst.reverse).reverse
    (validate smallSchema doc).map ValidationError.path =
        [lit "colour", lit "shape", lit "devices[0].id", lit "addresses"] ∧
      (validate smallSchema doc').map ValidationError.path =
        [lit "shape", lit "colour", lit "devices[0].id", lit "addresses"] ∧
      (validate smallSchema doc).Perm (validate smallSchema doc') ∧
      ∃ node, Reaches (smallSchema.site doc') ⟨.field idField, node, lit "devices[0].id"⟩ ∧
        node.resolve = .string (lit "LEFT") := by
  intro doc doc'
  obtain ⟨hperm, hfields⟩ := validate_reordered smallSchema reordered_marked
  let item : Object := ⟨{ openness := .opened }, [.scalar idField]⟩
  let devices : Array := .objects item {}
  have hmem : Member.array (lit "devices") true devices ∈ smallRoot.members :=
    List.mem_cons_of_mem _ (List.mem_cons_of_mem _ (List.mem_singleton_self _))
  have hdevices : Child (smallSchema.site doc)
      ⟨.array devices, .sequence [.map idFirst], lit "devices"⟩ := .member hmem rfl
  have hdevice : Child ⟨.array devices, .sequence [.map idFirst], lit "devices"⟩
      ⟨.object item, .map idFirst, lit "devices[0]"⟩ := .item (i := 0) rfl
  have hid : Child ⟨.object item, .map idFirst, lit "devices[0]"⟩
      ⟨.field idField, plain "LEFT", lit "devices[0].id"⟩ :=
    .member (m := .scalar idField) (List.mem_singleton_self _) rfl
  obtain ⟨node, hnode, hresolve⟩ :=
    hfields idField _ _ (.tail (.tail (.single hdevices) hdevice) hid)
  exact ⟨by decide +kernel, by decide +kernel, hperm, node, hnode, hresolve⟩

end ProviderSdk.Config

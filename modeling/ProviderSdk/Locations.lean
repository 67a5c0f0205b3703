import ProviderSdk.FieldContract

/-!
# The validator reports the violated locations

One step lemma for each kind of declaration says that the errors there are those of the
constraints violated there and those of the members or items below
(`reports_validateAt`). Over the whole walk, the paths of `validate` are the paths of
the violations at the sites that the schema and the document reach together
(`validate_paths`).
-/

namespace ProviderSdk.Config

open Walk

variable {stl : Stl}

/-! ## Keys -/

theorem scalarKeys_cons {k v : Node} {entries : Entries} :
    Entries.scalarKeys ((k, v) :: entries) = k.scalarText.toList ++ entries.scalarKeys := by
  cases hk : k.scalarText <;> simp [Entries.scalarKeys, hk]

theorem mem_presentKeys {key : Bytes} : ∀ {seen : List Bytes} {entries : Entries},
    key ∈ presentKeys seen entries ↔ key ∈ entries.scalarKeys ∧ key ∉ seen
  | seen, [] => by simp [presentKeys, Entries.scalarKeys]
  | seen, (k, v) :: entries => by
    rw [presentKeys, scalarKeys_cons]
    rcases k.scalarText with _ | k'
    · simpa using mem_presentKeys
    · dsimp only
      split_ifs with hseen
      · rw [mem_presentKeys]
        simp only [Option.toList_some, List.singleton_append, List.mem_cons]
        constructor
        · exact fun h => ⟨Or.inr h.1, h.2⟩
        · rintro ⟨rfl | h, hn⟩
          · exact absurd hseen hn
          · exact ⟨h, hn⟩
      · rw [List.mem_cons, mem_presentKeys]
        simp only [Option.toList_some, List.singleton_append, List.mem_cons, not_or]
        constructor
        · rintro (rfl | ⟨h, -, hn⟩)
          · exact ⟨Or.inl rfl, hseen⟩
          · exact ⟨Or.inr h, hn⟩
        · rintro ⟨rfl | h, hn⟩
          · exact Or.inl rfl
          · by_cases hkey : key = k'
            · exact Or.inl hkey
            · exact Or.inr ⟨h, hkey, hn⟩

/-- A key of the list was seen before, or the list repeats it. -/
def Repeated (seen keys : List Bytes) (key : Bytes) : Prop :=
  (key ∈ seen ∧ key ∈ keys) ∨ 2 ≤ keys.count key

theorem repeated_cons_seen {seen keys : List Bytes} {k key : Bytes} (hk : k ∈ seen) :
    Repeated seen (k :: keys) key ↔ key = k ∨ Repeated seen keys key := by
  unfold Repeated
  by_cases hkey : key = k
  · subst hkey
    simp [hk]
  · rw [List.count_cons_of_ne (Ne.symm hkey)]
    simp [hkey]

theorem repeated_cons_new {seen keys : List Bytes} {k key : Bytes} (hk : k ∉ seen) :
    Repeated seen (k :: keys) key ↔ Repeated (k :: seen) keys key := by
  unfold Repeated
  by_cases hkey : key = k
  · subst hkey
    have hcount : 2 ≤ (key :: keys).count key ↔ key ∈ keys := by
      rw [List.count_cons_self, ← List.count_pos_iff]
      omega
    rw [hcount]
    simp only [hk, false_and, false_or, List.mem_cons, true_or, true_and]
    refine ⟨Or.inl, fun h => h.elim id fun h => ?_⟩
    exact List.count_pos_iff.mp (by omega)
  · rw [List.count_cons_of_ne (Ne.symm hkey)]
    simp [hkey]

theorem exists_nonScalar_cons {k v : Node} {entries : Entries} :
    (∃ k₀ v₀, (k₀, v₀) ∈ (k, v) :: entries ∧ k₀.scalarText = none) ↔
      k.scalarText = none ∨ ∃ k₀ v₀, (k₀, v₀) ∈ entries ∧ k₀.scalarText = none := by
  constructor
  · rintro ⟨k₀, v₀, he, hk₀⟩
    rcases List.mem_cons.mp he with heq | he
    · obtain ⟨rfl, rfl⟩ := Prod.mk.inj heq
      exact Or.inl hk₀
    · exact Or.inr ⟨k₀, v₀, he, hk₀⟩
  · rintro (hk | ⟨k₀, v₀, he, hk₀⟩)
    · exact ⟨k, v, List.mem_cons_self, hk⟩
    · exact ⟨k₀, v₀, List.mem_cons_of_mem _ he, hk₀⟩

theorem repeated_nil {keys : List Bytes} {key : Bytes} :
    Repeated [] keys key ↔ 2 ≤ keys.count key := by
  simp [Repeated]

/-- The loop over the keys reports the keys that are not scalars, and those that it has
seen, from before or from an earlier entry. -/
theorem reports_keyErrors {path q : Bytes} : ∀ {seen : List Bytes} {entries : Entries},
    Reports (keyErrors path seen entries) q ↔
      ((∃ k v, (k, v) ∈ entries ∧ k.scalarText = none) ∧ q = mapPath path) ∨
      ∃ key, q = childPath path key ∧ Repeated seen entries.scalarKeys key
  | seen, [] => by simp [keyErrors, Entries.scalarKeys, Repeated]
  | seen, (k, v) :: entries => by
    rw [keyErrors, scalarKeys_cons, exists_nonScalar_cons]
    rcases hk : k.scalarText with _ | k'
    · dsimp only
      rw [reports_cons, reports_keyErrors]
      simp only [Option.toList_none, List.nil_append, true_or, true_and]
      constructor
      · rintro (rfl | ⟨-, h⟩ | h)
        · exact Or.inl rfl
        · exact Or.inl h
        · exact Or.inr h
      · rintro (rfl | h)
        · exact Or.inl rfl
        · exact Or.inr (Or.inr h)
    · simp only [Option.toList_some, List.singleton_append, reduceCtorEq, false_or]
      split_ifs with hseen
      · rw [reports_cons, reports_keyErrors]
        simp only [repeated_cons_seen hseen, and_or_left, exists_or, exists_eq_right]
        rw [or_left_comm, @eq_comm _ (childPath path k')]
      · rw [reports_keyErrors]
        simp only [repeated_cons_new hseen]

theorem valueAt_eq_none {entries : Entries} {key : Bytes} :
    entries.valueAt key = none ↔ key ∉ entries.scalarKeys := by
  simp [Entries.valueAt, Entries.scalarKeys]

theorem reports_unknownKeyErrors {spec : Object.Spec} {members : List Member}
    {path key q : Bytes} :
    Reports (unknownKeyErrors spec members path key) q ↔
      ((∃ d ∈ spec.deprecatedKeys, d.key = key) ∨
        (spec.openness = .closed ∧ key ∉ members.map Member.key)) ∧ childPath path key = q := by
  unfold unknownKeyErrors
  rcases hfind : spec.deprecatedKeys.find? (fun dep => dep.key = key) with _ | dep
  · have hno : ¬∃ d ∈ spec.deprecatedKeys, d.key = key := by
      rintro ⟨d, hd, hk⟩
      have := List.find?_eq_none.mp hfind d hd
      simp [hk] at this
    rw [hfind]
    simp [hno]
  · have hyes : ∃ d ∈ spec.deprecatedKeys, d.key = key :=
      ⟨dep, List.mem_of_find?_eq_some hfind, by simpa using List.find?_some hfind⟩
    rw [hfind]
    simp [hyes]

theorem reports_conditionalErrors {path q : Bytes} {entries : Entries} {present : List Bytes}
    {c : Object.Conditional} :
    Reports (conditionalErrors path entries present c) q ↔
      resolveScalar (entries.valueAt c.key) = .string c.equals ∧
        ((∃ key ∈ c.branch.requireKeys, key ∉ present ∧ childPath path key = q) ∨
          ∃ key ∈ c.branch.forbidKeys, key ∈ present ∧ childPath path key = q) := by
  unfold conditionalErrors
  split_ifs with h
  · simp [h, and_assoc]
  · simp [h]

theorem reports_dependentErrors {path q : Bytes} {present : List Bytes}
    {d : Object.DependentRequired} :
    Reports (dependentErrors path present d) q ↔
      d.key ∈ present ∧ ∃ key ∈ d.alsoRequired, key ∉ present ∧ childPath path key = q := by
  unfold dependentErrors
  split_ifs with h
  · simp [h, and_assoc]
  · simp [h]

/-! ## Members -/

/-- The walk from a site. -/
def validateAt (stl : Stl) : Site → List ValidationError
  | ⟨.field f, n, path⟩ => validateField stl f.spec n path
  | ⟨.object o, n, path⟩ => validateObject stl o n path
  | ⟨.array a, n, path⟩ => validateArray stl a n path

theorem validateMember_eq {m : Member} {value : Node} {path : Bytes} :
    validateMember stl m value path = validateAt stl ⟨m.decl, value, path⟩ := by
  cases m <;> rfl

theorem reports_validateMembers {entries : Entries} {path q : Bytes} : ∀ {ms : List Member},
    Reports (validateMembers stl ms entries path) q ↔
      ∃ m ∈ ms, (m.required = true ∧ m.key ∉ entries.scalarKeys ∧ childPath path m.key = q) ∨
        ∃ value, entries.valueAt m.key = some value ∧
          Reports (validateAt stl ⟨m.decl, value, childPath path m.key⟩) q
  | [] => by simp [validateMembers]
  | m :: ms => by
    rw [validateMembers, reports_append, reports_validateMembers]
    simp only [List.mem_cons, exists_eq_or_imp]
    refine or_congr_left ?_
    rw [← valueAt_eq_none]
    cases entries.valueAt m.key with
    | none => simp
    | some value => simp [validateMember_eq]

/-- Errors of a map are the constraints it violates and the errors of its members. -/
theorem reports_validateObject {o : Object} {entries : Entries} {path q : Bytes} :
    Reports (validateObject stl o (.map entries) path) q ↔
      Violated stl ⟨.object o, .map entries, path⟩ q ∨
        ∃ c, Child ⟨.object o, .map entries, path⟩ c ∧ Reports (validateAt stl c) q := by
  obtain ⟨spec, members⟩ := o
  rw [validateObject]
  simp only [reports_append, reports_flatMap, reports_keyErrors, reports_unknownKeyErrors,
    reports_validateMembers, reports_conditionalErrors, reports_dependentErrors,
    mem_presentKeys, repeated_nil, List.not_mem_nil, not_false_eq_true, and_true]
  constructor
  · rintro (((((⟨⟨k, v, he, hk⟩, rfl⟩ | ⟨key, rfl, hc⟩) | ⟨key, hkey, hu, rfl⟩) |
      ⟨m, hm, ⟨hr, hk, rfl⟩ | ⟨value, hv, hrep⟩⟩) | ⟨c, hc, hd, hkeys⟩) |
      ⟨d, hd, hp, key, hk, hn, rfl⟩)
    · exact Or.inl (.nonScalarKey he hk)
    · exact Or.inl (.repeatedKey hc)
    · rcases hu with ⟨d, hd, rfl⟩ | ⟨ho, hm⟩
      · exact Or.inl (.deprecatedKey hd hkey)
      · exact Or.inl (.unknownKey ho hkey hm)
    · exact Or.inl (.missing hm hr hk)
    · exact Or.inr ⟨_, .member hm hv, hrep⟩
    · rcases hkeys with ⟨key, hk, hn, rfl⟩ | ⟨key, hk, hn, rfl⟩
      · exact Or.inl (.requiredByBranch hc hd hk hn)
      · exact Or.inl (.forbiddenByBranch hc hd hk hn)
    · exact Or.inl (.dependent hd hp hk hn)
  · rintro (h | ⟨c, hc, hrep⟩)
    · cases h with
      | notMap h => exact absurd rfl (h entries)
      | nonScalarKey he hk =>
        exact Or.inl (Or.inl (Or.inl (Or.inl (Or.inl ⟨⟨_, _, he, hk⟩, rfl⟩))))
      | repeatedKey hc => exact Or.inl (Or.inl (Or.inl (Or.inl (Or.inr ⟨_, rfl, hc⟩))))
      | deprecatedKey hd hk =>
        exact Or.inl (Or.inl (Or.inl (Or.inr ⟨_, hk, Or.inl ⟨_, hd, rfl⟩, rfl⟩)))
      | unknownKey ho hk hm =>
        exact Or.inl (Or.inl (Or.inl (Or.inr ⟨_, hk, Or.inr ⟨ho, hm⟩, rfl⟩)))
      | missing hm hr hk => exact Or.inl (Or.inl (Or.inr ⟨_, hm, Or.inl ⟨hr, hk, rfl⟩⟩))
      | requiredByBranch hc hd hk hn =>
        exact Or.inl (Or.inr ⟨_, hc, hd, Or.inl ⟨_, hk, hn, rfl⟩⟩)
      | forbiddenByBranch hc hd hk hn =>
        exact Or.inl (Or.inr ⟨_, hc, hd, Or.inr ⟨_, hk, hn, rfl⟩⟩)
      | dependent hd hp hk hn => exact Or.inr ⟨_, hd, hp, _, hk, hn, rfl⟩
    · cases hc with
      | member hm hv => exact Or.inl (Or.inl (Or.inr ⟨_, hm, Or.inr ⟨_, hv, hrep⟩⟩))

/-! ## Arrays -/

theorem mem_insertSeen {α : Type} {seen : List α} {o : Option α} {a : α} :
    a ∈ insertSeen seen o ↔ a ∈ seen ∨ a ∈ o.toList := by
  cases o with
  | none => simp [insertSeen]
  | some b => simp [insertSeen, or_comm]

theorem repeats_iff {α : Type} [DecidableEq α] {seen : List α} {o : Option α} :
    repeats seen o = true ↔ ∃ a, o = some a ∧ a ∈ seen := by
  cases o <;> simp [repeats]

/-- The string a unique array of scalars keeps for an item. -/
def itemValue (stl : Stl) (item : Field.Spec) (unique : Bool) (n : Node) : Option Bytes :=
  if unique then canonicalValue stl item n else none

theorem reports_scalarItemErrors {item : Field.Spec} {unique : Bool} {path q : Bytes} :
    ∀ {i₀ : ℕ} {seen : List Bytes} {items : List Node},
      Reports (scalarItemErrors stl item unique path i₀ seen items) q ↔
        ∃ i n, items[i]? = some n ∧
          (Reports (validateField stl item n (indexPath path (i₀ + i))) q ∨
            (∃ c, itemValue stl item unique n = some c ∧
              SeenBefore (fun n => (itemValue stl item unique n).toList) seen items i c) ∧
              indexPath path (i₀ + i) = q)
  | i₀, seen, [] => by simp [scalarItemErrors]
  | i₀, seen, n :: ns => by
    rw [scalarItemErrors, exists_getElem?_cons]
    simp only [reports_append, reports_errorIf, reports_scalarItemErrors, repeats_iff,
      seenBefore_zero, add_zero]
    refine or_congr Iff.rfl (exists_congr fun i => exists_congr fun m =>
      and_congr_right fun _ => ?_)
    have hseen : ∀ c, SeenBefore (fun n => (itemValue stl item unique n).toList) seen (n :: ns)
        (i + 1) c ↔ SeenBefore (fun n => (itemValue stl item unique n).toList)
          (insertSeen seen (itemValue stl item unique n)) ns i c := fun c =>
      seenBefore_succ _ mem_insertSeen
    simp only [hseen, show i₀ + 1 + i = i₀ + (i + 1) by omega]
    rfl

/-- The keys and strings that an array of objects keeps for an item. -/
def itemValues (stl : Stl) (members : List Member) : Node → List (Bytes × Bytes)
  | .map entries => members.filterMap fun m => uniqueEntry stl m entries
  | _ => []

theorem key_of_uniqueEntry {m : Member} {entries : Entries} {c : Bytes × Bytes}
    (h : uniqueEntry stl m entries = some c) : c.1 = m.key := by
  unfold uniqueEntry at h
  split at h
  · split_ifs at h
    obtain ⟨a, -, rfl⟩ := Option.map_eq_some_iff.mp h
    rfl
  · exact absurd h (by simp)

theorem mem_uniqueErrors {itemPath : Bytes} {entries : Entries} {c : Bytes × Bytes} :
    ∀ {seen : List (Bytes × Bytes)} {ms : List Member},
      c ∈ (uniqueErrors stl itemPath entries seen ms).2 ↔
        c ∈ seen ∨ ∃ m ∈ ms, uniqueEntry stl m entries = some c
  | seen, [] => by simp [uniqueErrors]
  | seen, m :: ms => by
    rw [uniqueErrors]
    dsimp only
    rw [mem_uniqueErrors, mem_insertSeen, Option.mem_toList, or_assoc]
    simp only [List.mem_cons, exists_eq_or_imp]

/-- The members of one item have different keys, so they only repeat earlier items. -/
theorem reports_uniqueErrors {itemPath q : Bytes} {entries : Entries} :
    ∀ {seen : List (Bytes × Bytes)} {ms : List Member}, (ms.map Member.key).Nodup →
      (Reports (uniqueErrors stl itemPath entries seen ms).1 q ↔
        ∃ m ∈ ms, (∃ c, uniqueEntry stl m entries = some c ∧ c ∈ seen) ∧
          childPath itemPath m.key = q)
  | seen, [], _ => by simp [uniqueErrors]
  | seen, m :: ms, hnd => by
    rw [List.map_cons, List.nodup_cons] at hnd
    rw [uniqueErrors]
    simp only [reports_append, reports_errorIf, repeats_iff, reports_uniqueErrors hnd.2,
      List.mem_cons, exists_eq_or_imp, mem_insertSeen]
    refine or_congr Iff.rfl (exists_congr fun m' => and_congr_right fun hm' =>
      and_congr_left fun _ => exists_congr fun c => and_congr_right fun hc => ?_)
    refine or_iff_left fun hmem => hnd.1 ?_
    rw [← key_of_uniqueEntry (Option.mem_toList.mp hmem), key_of_uniqueEntry hc]
    exact List.mem_map_of_mem hm'

theorem reports_objectItemErrors {validateItem : Node → Bytes → List ValidationError}
    {members : List Member} {path q : Bytes} (hnd : (members.map Member.key).Nodup) :
    ∀ {i₀ : ℕ} {seen : List (Bytes × Bytes)} {items : List Node},
      Reports (objectItemErrors stl validateItem members path i₀ seen items) q ↔
        ∃ i n, items[i]? = some n ∧
          (Reports (validateItem n (indexPath path (i₀ + i))) q ∨
            ∃ c ∈ itemValues stl members n, SeenBefore (itemValues stl members) seen items i c ∧
              childPath (indexPath path (i₀ + i)) c.1 = q)
  | i₀, seen, [] => by simp [objectItemErrors]
  | i₀, seen, n :: ns => by
    have hrest : ∀ seen' : List (Bytes × Bytes),
        (∀ c, c ∈ seen' ↔ c ∈ seen ∨ c ∈ itemValues stl members n) →
        (Reports (objectItemErrors stl validateItem members path (i₀ + 1) seen' ns) q ↔
          ∃ i m, ns[i]? = some m ∧
            (Reports (validateItem m (indexPath path (i₀ + (i + 1)))) q ∨
              ∃ c ∈ itemValues stl members m,
                SeenBefore (itemValues stl members) seen (n :: ns) (i + 1) c ∧
                  childPath (indexPath path (i₀ + (i + 1))) c.1 = q)) := by
      intro seen' hseen'
      rw [reports_objectItemErrors hnd]
      simp only [seenBefore_succ _ (hseen' _), show ∀ i, i₀ + 1 + i = i₀ + (i + 1) by omega]
    rw [exists_getElem?_cons]
    simp only [seenBefore_zero, add_zero]
    cases n with
    | map entries =>
      have hvalues : ∀ c, c ∈ itemValues stl members (.map entries) ↔
          ∃ m ∈ members, uniqueEntry stl m entries = some c := by
        intro c
        exact List.mem_filterMap
      rw [objectItemErrors]
      dsimp only
      rw [reports_append, reports_append, hrest _ fun c => by rw [mem_uniqueErrors, hvalues],
        ← or_assoc]
      refine or_congr_left (or_congr_right ?_)
      rw [reports_uniqueErrors hnd]
      constructor
      · rintro ⟨m, hm, ⟨c, hc, hs⟩, rfl⟩
        refine ⟨c, (hvalues c).mpr ⟨m, hm, hc⟩, hs, ?_⟩
        rw [key_of_uniqueEntry hc]
      · rintro ⟨c, hc, hs, rfl⟩
        obtain ⟨m, hm, hmc⟩ := (hvalues c).mp hc
        refine ⟨m, hm, ⟨c, hmc, hs⟩, ?_⟩
        rw [key_of_uniqueEntry hmc]
    | null => simp [objectItemErrors, hrest seen fun c => by simp [itemValues], itemValues]
    | scalar tag text =>
      simp [objectItemErrors, hrest seen fun c => by simp [itemValues], itemValues]
    | sequence items =>
      simp [objectItemErrors, hrest seen fun c => by simp [itemValues], itemValues]

theorem reports_countErrors {spec : Array.Spec} {size : ℕ} {path q : Bytes} :
    Reports (countErrors spec size path) q ↔
      ((∃ m, spec.minItems = some m ∧ size < m) ∨ ∃ m, spec.maxItems = some m ∧ m < size) ∧
        path = q := by
  unfold countErrors
  rw [reports_append, reports_errorIf, reports_errorIf, ← or_and_right]
  refine and_congr_left fun _ => or_congr ?_ ?_
  · cases spec.minItems <;> simp
  · cases spec.maxItems <;> simp

theorem mem_itemValue {f : Field} {unique : Bool} {n : Node} {c : Bytes} :
    itemValue stl f.spec unique n = some c ↔
      unique = true ∧ ∃ v, parsedValue f.spec n.resolve = some v ∧ encode stl v = c := by
  unfold itemValue
  rw [canonicalValue_eq]
  split_ifs with h
  · rw [Option.map_eq_some_iff]
    simp [h]
  · simp [h]

/-- Errors of a sequence of scalars. -/
theorem reports_validateScalars {f : Field} {unique : Bool} {spec : Array.Spec}
    {items : List Node} {path q : Bytes} :
    Reports (validateArray stl (.scalars f unique spec) (.sequence items) path) q ↔
      Violated stl ⟨.array (.scalars f unique spec), .sequence items, path⟩ q ∨
        ∃ c, Child ⟨.array (.scalars f unique spec), .sequence items, path⟩ c ∧
          Reports (validateAt stl c) q := by
  rw [validateArray, reports_append, reports_countErrors, reports_scalarItemErrors]
  simp only [SeenBefore, List.not_mem_nil, false_or, Option.mem_toList, mem_itemValue, zero_add]
  constructor
  · rintro (⟨⟨m, hm, hlt⟩ | ⟨m, hm, hlt⟩, rfl⟩ | ⟨i, n, hi, hrep | ⟨⟨c, ⟨rfl, v, hv, rfl⟩, j, hj,
      n', hn', -, w, hw, hvw⟩, rfl⟩⟩)
    · exact Or.inl (.tooFew hm hlt)
    · exact Or.inl (.tooMany hm hlt)
    · exact Or.inr ⟨_, .item hi, hrep⟩
    · obtain rfl := encode_inj (represented_of_parsedValue hw) (represented_of_parsedValue hv) hvw
      exact Or.inl (.repeatedItem hi hn' hj hv hw)
  · rintro (h | ⟨c, hc, hrep⟩)
    · cases h with
      | notSequence h => exact absurd rfl (h items)
      | tooFew hm hlt => exact Or.inl ⟨Or.inl ⟨_, hm, hlt⟩, rfl⟩
      | tooMany hm hlt => exact Or.inl ⟨Or.inr ⟨_, hm, hlt⟩, rfl⟩
      | repeatedItem hi hj hji hn hn' =>
        exact Or.inr ⟨_, _, hi,
          Or.inr ⟨⟨_, ⟨rfl, _, hn, rfl⟩, _, hji, _, hj, rfl, _, hn', rfl⟩, rfl⟩⟩
    · cases hc with
      | item hi => exact Or.inr ⟨_, _, hi, Or.inl hrep⟩

theorem mem_itemValues {item : Object} {n : Node} {c : Bytes × Bytes} :
    c ∈ itemValues stl item.members n ↔ ∃ v, HasUnique item n c.1 v ∧ encode stl v = c.2 := by
  obtain ⟨key, text⟩ := c
  constructor
  · intro h
    cases n with
    | map entries =>
      obtain ⟨m, hm, hc⟩ := List.mem_filterMap.mp h
      unfold uniqueEntry at hc
      split at hc
      · next f =>
        split_ifs at hc with hu
        obtain ⟨a, ha, hka⟩ := Option.map_eq_some_iff.mp hc
        obtain ⟨rfl, rfl⟩ := Prod.mk.inj hka
        obtain ⟨value, hvalue, hcanon⟩ := Option.bind_eq_some_iff.mp ha
        rw [canonicalValue_eq] at hcanon
        obtain ⟨v, hv, hvt⟩ := Option.map_eq_some_iff.mp hcanon
        exact ⟨v, ⟨f, entries, value, hm, hu, rfl, rfl, hvalue, hv⟩, hvt⟩
      · exact absurd hc (by simp)
    | null => exact absurd h List.not_mem_nil
    | scalar tag text => exact absurd h List.not_mem_nil
    | sequence items => exact absurd h List.not_mem_nil
  · rintro ⟨v, ⟨f, entries, value, hm, hu, rfl, rfl, hvalue, hv⟩, rfl⟩
    refine List.mem_filterMap.mpr ⟨_, hm, ?_⟩
    simp only [uniqueEntry, hu, if_true, hvalue, Option.bind_some, canonicalValue_eq, hv,
      Option.map_some]

theorem represented_of_hasUnique {item : Object} {n : Node} {key : Bytes} {v : Parsed}
    (h : HasUnique item n key v) : v.Represented := by
  obtain ⟨f, entries, value, -, -, -, -, -, hv⟩ := h
  exact represented_of_parsedValue hv

/-- Errors of a sequence of objects. -/
theorem reports_validateObjects {item : Object} {spec : Array.Spec} {items : List Node}
    {path q : Bytes} (hnd : (item.members.map Member.key).Nodup) :
    Reports (validateArray stl (.objects item spec) (.sequence items) path) q ↔
      Violated stl ⟨.array (.objects item spec), .sequence items, path⟩ q ∨
        ∃ c, Child ⟨.array (.objects item spec), .sequence items, path⟩ c ∧
          Reports (validateAt stl c) q := by
  rw [validateArray, reports_append, reports_countErrors, reports_objectItemErrors hnd]
  simp only [SeenBefore, List.not_mem_nil, false_or, mem_itemValues, zero_add]
  constructor
  · rintro (⟨⟨m, hm, hlt⟩ | ⟨m, hm, hlt⟩, rfl⟩ | ⟨i, n, hi, hrep | ⟨c, ⟨v, hv, hvc⟩, ⟨j, hj, n',
      hn', w, hw, hwc⟩, rfl⟩⟩)
    · exact Or.inl (.tooFew hm hlt)
    · exact Or.inl (.tooMany hm hlt)
    · exact Or.inr ⟨_, .item hi, hrep⟩
    · obtain rfl := encode_inj (represented_of_hasUnique hv) (represented_of_hasUnique hw)
        (hvc.trans hwc.symm)
      exact Or.inl (.repeatedMember hi hn' hj hv hw)
  · rintro (h | ⟨c, hc, hrep⟩)
    · cases h with
      | notSequence h => exact absurd rfl (h items)
      | tooFew hm hlt => exact Or.inl ⟨Or.inl ⟨_, hm, hlt⟩, rfl⟩
      | tooMany hm hlt => exact Or.inl ⟨Or.inr ⟨_, hm, hlt⟩, rfl⟩
      | repeatedMember hi hj hji hn hn' =>
        exact Or.inr ⟨_, _, hi, Or.inr ⟨(_, _), ⟨_, hn, rfl⟩, ⟨_, hji, _, hj, _, hn', rfl⟩, rfl⟩⟩
    · cases hc with
      | item hi => exact Or.inr ⟨_, _, hi, Or.inl hrep⟩

/-! ## The walk -/

/-- The declarations of a site have distinct member keys. -/
def Decl.Distinct : Decl → Prop
  | .field _ => True
  | .object o => o.Distinct
  | .array a => a.Distinct

theorem distinct_of_child (s c : Site) (hs : s.decl.Distinct) (h : Child s c) :
    c.decl.Distinct := by
  cases h with
  | @member o entries path m value hm hv =>
    have hmd := (Object.distinct_iff.mp hs).2 m hm
    cases m <;> exact hmd
  | @item a items path i n hi => cases a <;> exact hs

/-- A child's declaration is a part of its parent's. -/
theorem wellFounded_child : WellFounded fun c s => Child s c := by
  refine Subrelation.wf (r := InvImage (· < ·) fun s : Site => sizeOf s.decl) ?_
    (InvImage.wf _ wellFounded_lt)
  intro c s h
  cases h with
  | @member o entries path m value hm hv =>
    have hlt := List.sizeOf_lt_of_mem hm
    obtain ⟨spec, members⟩ := o
    cases m <;> simp_all [InvImage, Member.decl] <;> omega
  | @item a items path i n hi =>
    cases a <;> simp [InvImage, Array.item] <;> omega

/-- Below a container of the wrong node type nothing is examined. -/
theorem reports_notMap {o : Object} {n : Node} {path q : Bytes}
    (h : ∀ entries, n ≠ .map entries) :
    Reports (validateAt stl ⟨.object o, n, path⟩) q ↔
      Violated stl ⟨.object o, n, path⟩ q ∨
        ∃ c, Child ⟨.object o, n, path⟩ c ∧ Reports (validateAt stl c) q := by
  have herrors : validateAt stl ⟨.object o, n, path⟩ = [⟨mapPath path, lit "must be a map"⟩] := by
    cases n with
    | map entries => exact absurd rfl (h entries)
    | null => simp [validateAt, validateObject]
    | scalar tag text => simp [validateAt, validateObject]
    | sequence items => simp [validateAt, validateObject]
  rw [herrors, reports_cons]
  simp only [reports_nil, or_false]
  constructor
  · rintro rfl
    exact Or.inl (.notMap h)
  · rintro (hv | ⟨c, hc, -⟩)
    · cases hv with
      | notMap _ => rfl
      | _ => exact absurd rfl (h _)
    · cases hc with
      | member _ _ => exact absurd rfl (h _)

theorem reports_notSequence {a : Array} {n : Node} {path q : Bytes}
    (h : ∀ items, n ≠ .sequence items) :
    Reports (validateAt stl ⟨.array a, n, path⟩) q ↔
      Violated stl ⟨.array a, n, path⟩ q ∨
        ∃ c, Child ⟨.array a, n, path⟩ c ∧ Reports (validateAt stl c) q := by
  have herrors : validateAt stl ⟨.array a, n, path⟩ = [⟨path, lit "must be a sequence"⟩] := by
    cases n with
    | sequence items => exact absurd rfl (h items)
    | null => cases a <;> simp [validateAt, validateArray]
    | scalar tag text => cases a <;> simp [validateAt, validateArray]
    | map entries => cases a <;> simp [validateAt, validateArray]
  rw [herrors, reports_cons]
  simp only [reports_nil, or_false]
  constructor
  · rintro rfl
    exact Or.inl (.notSequence h)
  · rintro (hv | ⟨c, hc, -⟩)
    · cases hv with
      | notSequence _ => rfl
      | _ => exact absurd rfl (h _)
    · cases hc with
      | item _ => exact absurd rfl (h _)

/-- Errors at a site are the constraints violated there and the errors below. -/
theorem reports_validateAt (s : Site) (hs : s.decl.Distinct) (q : Bytes) :
    Reports (validateAt stl s) q ↔
      Violated stl s q ∨ ∃ c, Child s c ∧ Reports (validateAt stl c) q := by
  obtain ⟨f | o | a, n, path⟩ := s
  · rw [validateAt, reports_validateField]
    constructor
    · rintro ⟨h, rfl⟩
      exact Or.inl (.field h)
    · rintro (hv | ⟨c, hc, -⟩)
      · cases hv with
        | field h => exact ⟨h, rfl⟩
      · cases hc
  · by_cases hn : ∃ entries, n = .map entries
    · obtain ⟨entries, rfl⟩ := hn
      exact reports_validateObject
    · exact reports_notMap fun entries h => hn ⟨entries, h⟩
  · by_cases hn : ∃ items, n = .sequence items
    · obtain ⟨items, rfl⟩ := hn
      rcases a with ⟨f, unique, spec⟩ | ⟨item, spec⟩
      · exact reports_validateScalars
      · exact reports_validateObjects (Object.distinct_iff.mp hs).1
    · exact reports_notSequence fun items h => hn ⟨items, h⟩

/-- The site of a schema's root. -/
def Schema.site (schema : Schema stl) (root : Node) : Site :=
  ⟨.object schema.root, root, []⟩

theorem reports_validate {schema : Schema stl} {root : Node} {q : Bytes} :
    Reports (validate schema root) q ↔
      ∃ s, Reaches (schema.site root) s ∧ Violated stl s q :=
  report_iff wellFounded_child distinct_of_child
    (fun s hs q => reports_validateAt s hs q) (a := schema.site root) schema.distinct

/-- How paths are spelled : `key` and `(root)` at the root, and `path.key`, `path[i]` and the path
itself below it. -/
theorem path_forms (path key : Bytes) (i : ℕ) :
    childPath [] key = key ∧ mapPath [] = lit "(root)" ∧
      indexPath path i = path ++ lit "[" ++ toStringNat i ++ lit "]" ∧
      (path ≠ [] → childPath path key = path ++ lit "." ++ key ∧ mapPath path = path) :=
  ⟨rfl, rfl, rfl, fun h => ⟨if_neg h, if_neg h⟩⟩

/-- The paths of the errors are the paths of the violated constraints, at whatever site
the schema and the document both have. -/
theorem validate_paths (schema : Schema stl) (root : Node) :
    {q | ∃ e ∈ validate schema root, e.path = q} =
      {q | ∃ s, Reaches (schema.site root) s ∧ Violated stl s q} := by
  ext q
  exact reports_validate

/-! ## A small schema -/

def modeField : Field :=
  ⟨{ key := lit "mode", kind := .string, required := true,
     enumValues := [⟨lit "manual", lit "By hand"⟩, ⟨lit "scan", []⟩] },
    by constructor <;> simp⟩

def idField : Field :=
  ⟨{ key := lit "id", kind := .string, required := true, unique := true,
     pattern := some (lit "^[a-z]+$") },
    by constructor <;> simp⟩

def addressField : Field :=
  ⟨{ key := lit "address", kind := .i2cAddress }, Field.Spec.built_new (by decide) .i2cAddress⟩

def smallRoot : Object :=
  ⟨{ openness := .closed,
     conditionals := [⟨lit "mode", lit "manual", ⟨[lit "addresses"], []⟩⟩] },
    [.scalar modeField,
      .array (lit "addresses") false (.scalars addressField true { minItems := some 1 }),
      .array (lit "devices") true
        (.objects ⟨{ openness := .opened }, [.scalar idField]⟩ {})]⟩

theorem distinct_smallRoot : smallRoot.Distinct := by
  simp [smallRoot, Object.Distinct, membersDistinct, Member.Distinct, Array.Distinct, Member.key,
    modeField]

theorem checkObject_smallRoot : checkObject Stl.exact smallRoot (lit "root") false = .ok () := by
  rfl

def smallSchema : Schema Stl.exact where
  root := smallRoot
  distinct := distinct_smallRoot
  checked := checkObject_smallRoot
  texts_utf8 := isValidUtf8_of_none

def plain (text : String) : Node :=
  .scalar (lit "?") (lit text)

def quotedScalar (text : String) : Node :=
  .scalar (lit "!") (lit text)

/-- A config of the schema, with the addresses and device names given. -/
def smallDoc (addresses : List Node) (names : List String) : Node :=
  .map [(plain "mode", plain "manual"), (plain "addresses", .sequence addresses),
    (plain "devices", .sequence (names.map fun name => .map [(plain "id", plain name)]))]

-- `0x08` and `"0x08"` are one address
example : (validate smallSchema
    (smallDoc [plain "0x08", quotedScalar "0x08", plain "7"] ["left", "left"])).map
      ValidationError.path =
    [lit "addresses[1]", lit "addresses[2]", lit "devices[1].id"] := by
  decide +kernel

end ProviderSdk.Config

import ProviderSdk.Locations

/-!
# Extraction after validation

After `validate` passes, the typed extractors deliver what the declaration asked for.
`extraction_of_validate` says so of every declared scalar that is present, at any depth,
of the required members, and of the values that have to differ.
-/

namespace ProviderSdk.Config

variable {stl : Stl}

/-- The extractor of the field's kind delivers a value that meets the constraints. -/
def Extracts (stl : Stl) (spec : Field.Spec) (node : Option Node) : Prop :=
  match spec.kind with
  | .string => ∃ s, asString node = some s ∧ AcceptsString stl spec s
  | .integer => ∃ i, asInt64 node = some i ∧ AcceptsInteger spec i
  | .number => ∃ v, asDouble node = some v ∧ AcceptsNumber spec v
  | .boolean => ∃ b, asBool node = some b
  | .i2cAddress =>
    ∃ a, parseI2cAddress node = some a ∧ kI2cAddressMin ≤ a ∧ a ≤ kI2cAddressMax

/-- The extractor of the field's kind does not deliver the same value of both nodes.
Numbers differ as numbers. -/
def ExtractsDifferent (spec : Field.Spec) (node node' : Option Node) : Prop :=
  match spec.kind with
  | .string => asString node ≠ asString node'
  | .integer => asInt64 node ≠ asInt64 node'
  | .number => ∀ v w, asDouble node = some v → asDouble node' = some w → v.eq w = false
  | .boolean => asBool node ≠ asBool node'
  | .i2cAddress => parseI2cAddress node ≠ parseI2cAddress node'

/-- What a provider may rely on when it parses a config it has validated. -/
structure Extractable (schema : Schema stl) (doc : Node) : Prop where
  /-- Every declared scalar that is present. -/
  scalar : ∀ {f : Field} {node : Node} {path : Bytes},
    Reaches (schema.site doc) ⟨.field f, node, path⟩ → Extracts stl f.spec (some node)
  /-- Every declared object is a map, with its required members. -/
  required : ∀ {o : Object} {node : Node} {path : Bytes},
    Reaches (schema.site doc) ⟨.object o, node, path⟩ →
    ∃ entries : Entries, node = .map entries ∧
      ∀ m ∈ o.members, m.required = true → ∃ value, entries.valueAt m.key = some value
  /-- Every declared array is a sequence, and the items of a unique one differ. -/
  items : ∀ {a : Array} {node : Node} {path : Bytes},
    Reaches (schema.site doc) ⟨.array a, node, path⟩ →
    ∃ items, node = .sequence items ∧
      ∀ (f : Field) (spec : Array.Spec), a = .scalars f true spec →
      ∀ (i j : ℕ) (n n' : Node), j < i → items[i]? = some n → items[j]? = some n' →
        ExtractsDifferent f.spec (some n) (some n')
  /-- So do the unique members of an array's objects. -/
  members : ∀ {item : Object} {spec : Array.Spec} {items : List Node} {path : Bytes},
    Reaches (schema.site doc) ⟨.array (.objects item spec), .sequence items, path⟩ →
    ∀ f, Member.scalar f ∈ item.members → f.spec.unique = true →
    ∀ (i j : ℕ) (entries entries' : Entries) (n n' : Node), j < i →
      items[i]? = some (.map entries) → items[j]? = some (.map entries') →
      entries.valueAt f.spec.key = some n →
      entries'.valueAt f.spec.key = some n' → ExtractsDifferent f.spec (some n) (some n')

theorem asDouble_eq {n : Node} : asDouble (some n) = numberOf n.resolve := by
  unfold asDouble
  dsimp only [resolveScalar]
  cases n.resolve <;> rfl

/-- The extractors share the resolver with the validator. -/
theorem extracts_of_accepts {spec : Field.Spec} {n : Node} (h : Accepts stl spec n.resolve) :
    Extracts stl spec (some n) := by
  unfold Accepts at h
  unfold Extracts
  cases hkind : spec.kind <;> rw [hkind] at h
  case string =>
    obtain ⟨s, hs, hc⟩ := h
    exact ⟨s, by simp [asString, resolveScalar, hs], hc⟩
  case integer => exact h
  case number =>
    obtain ⟨v, hv, hc⟩ := h
    exact ⟨v, by rw [asDouble_eq, hv], hc⟩
  case boolean =>
    obtain ⟨b, hb⟩ := h
    exact ⟨b, by simp [asBool, resolveScalar, hb]⟩
  case i2cAddress =>
    obtain ⟨a, ha⟩ := i2cAddressOf_isSome.mpr h
    exact ⟨a, ha, range_of_i2cAddressOf ha⟩

/-- A scalar that meets its field's contract has a parsed value. -/
theorem exists_parsedValue {spec : Field.Spec} {r : Resolved} (h : Accepts stl spec r) :
    ∃ v, parsedValue spec r = some v := by
  unfold Accepts at h
  unfold parsedValue
  cases hkind : spec.kind <;> rw [hkind] at h
  case string =>
    obtain ⟨s, rfl, -⟩ := h
    exact ⟨_, rfl⟩
  case integer =>
    obtain ⟨i, hi, -⟩ := h
    exact ⟨.integer i, by simp [hi]⟩
  case number =>
    obtain ⟨v, hv, hc⟩ := h
    obtain ⟨q, hq⟩ := Floating.Value.exists_toRat hc.finite
    exact ⟨.number q, by simp [hv, hq]⟩
  case boolean =>
    obtain ⟨b, rfl⟩ := h
    exact ⟨_, rfl⟩
  case i2cAddress =>
    obtain ⟨a, ha⟩ := i2cAddressOf_isSome.mpr h
    exact ⟨.integer a, by simp [ha]⟩

/-- Nodes with different parsed values are extracted differently. -/
theorem extractsDifferent_of_ne {spec : Field.Spec} {n n' : Node} {v w : Parsed}
    (hv : parsedValue spec n.resolve = some v) (hw : parsedValue spec n'.resolve = some w)
    (hne : v ≠ w) : ExtractsDifferent spec (some n) (some n') := by
  -- an extractor that the parsed value is read with tells the two nodes apart
  have hdiff : ∀ {α : Type} (extract : Option Node → Option α) (wrap : α → Parsed),
      (∀ m : Node, parsedValue spec m.resolve = (extract (some m)).map wrap) →
      extract (some n) ≠ extract (some n') := by
    intro α extract wrap hread heq
    rw [hread, heq, ← hread, hw] at hv
    exact hne (Option.some.inj hv).symm
  unfold ExtractsDifferent
  cases hkind : spec.kind
  case string =>
    refine hdiff asString .text fun m => ?_
    unfold parsedValue asString
    dsimp only [resolveScalar]
    rw [hkind]
    cases m.resolve <;> rfl
  case integer =>
    refine hdiff asInt64 .integer fun m => ?_
    unfold parsedValue
    rw [hkind]
    rfl
  case number =>
    intro a b ha hb
    rw [asDouble_eq] at ha hb
    unfold parsedValue at hv hw
    rw [hkind] at hv hw
    simp only [ha, hb, Option.bind_some] at hv hw
    obtain ⟨q, hq, rfl⟩ := Option.map_eq_some_iff.mp hv
    obtain ⟨r, hr, rfl⟩ := Option.map_eq_some_iff.mp hw
    rw [← Bool.not_eq_true, Floating.Value.eq_iff hq hr]
    rintro rfl
    exact hne rfl
  case boolean =>
    refine hdiff asBool .boolean fun m => ?_
    unfold parsedValue asBool
    dsimp only [resolveScalar]
    rw [hkind]
    cases m.resolve <;> rfl
  case i2cAddress =>
    refine hdiff parseI2cAddress .integer fun m => ?_
    unfold parsedValue
    rw [hkind]
    rfl

/-- No constraint is violated anywhere in a config that passed. -/
theorem validate_eq_nil {schema : Schema stl} {doc : Node} :
    validate schema doc = [] ↔
      ∀ s, Reaches (schema.site doc) s → ∀ q, ¬Violated stl s q := by
  rw [eq_nil_iff_not_reports]
  simp only [reports_validate, not_exists, not_and]
  exact ⟨fun h s hs q => h q s hs, fun h q s hs => h s hs q⟩

theorem accepts_of_validate {schema : Schema stl} {doc : Node} (h : validate schema doc = [])
    {f : Field} {node : Node} {path : Bytes}
    (hs : Reaches (schema.site doc) ⟨.field f, node, path⟩) : Accepts stl f.spec node.resolve := by
  by_contra hno
  exact validate_eq_nil.mp h _ hs _ (.field hno)

/-- After a passing `validate`, extraction delivers values in contract. -/
theorem extraction_of_validate {schema : Schema stl} {doc : Node}
    (h : validate schema doc = []) : Extractable schema doc := by
  have hclean := validate_eq_nil.mp h
  refine ⟨fun hs => extracts_of_accepts (accepts_of_validate h hs), ?_, ?_, ?_⟩
  · intro o node path hs
    by_cases hn : ∃ entries, node = .map entries
    · obtain ⟨entries, rfl⟩ := hn
      refine ⟨entries, rfl, fun m hm hr => ?_⟩
      rw [← Option.ne_none_iff_exists', ne_eq, valueAt_eq_none, not_not]
      by_contra hk
      exact hclean _ hs _ (.missing hm hr hk)
    · exact absurd (.notMap fun entries he => hn ⟨entries, he⟩) (hclean _ hs _)
  · intro a node path hs
    by_cases hn : ∃ items, node = .sequence items
    · obtain ⟨items, rfl⟩ := hn
      refine ⟨items, rfl, ?_⟩
      rintro f spec rfl i j n n' hji hi hj
      obtain ⟨v, hv⟩ := exists_parsedValue (accepts_of_validate h (hs.tail (.item hi)))
      obtain ⟨w, hw⟩ := exists_parsedValue (accepts_of_validate h (hs.tail (.item hj)))
      refine extractsDifferent_of_ne hv hw ?_
      rintro rfl
      exact hclean _ hs _ (.repeatedItem hi hj hji hv hw)
    · exact absurd (.notSequence fun items hi => hn ⟨items, hi⟩) (hclean _ hs _)
  · intro item spec items path hs f hf hu i j entries entries' n n' hji hi hj hn hn'
    obtain ⟨v, hv⟩ := exists_parsedValue
      (accepts_of_validate h ((hs.tail (.item hi)).tail (.member hf hn)))
    obtain ⟨w, hw⟩ := exists_parsedValue
      (accepts_of_validate h ((hs.tail (.item hj)).tail (.member hf hn')))
    refine extractsDifferent_of_ne hv hw ?_
    rintro rfl
    exact hclean _ hs _ (.repeatedMember hi hj hji ⟨f, entries, n, hf, hu, rfl, rfl, hn, hv⟩
      ⟨f, entries', n', hf, hu, rfl, rfl, hn', hw⟩)

/-- A config with a manual mode, two addresses in two spellings and two devices. -/
theorem extraction_of_validate_small :
    Extractable smallSchema (smallDoc [plain "0x08", quotedScalar "0x09"] ["left", "right"]) :=
  extraction_of_validate (by decide +kernel)

end ProviderSdk.Config

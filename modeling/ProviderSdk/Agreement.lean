import ProviderSdk.EmittedContainer
import ProviderSdk.Extraction

/-!
# The validator and the emitted JSON Schema agree

Two walks over one declaration tree : `validate` over a document, and a JSON Schema
validator over the emitted schema and the document's JSON value. What the first adds to the
second is listed (`KeysClean`, `NumbersFit`, `ParsedDistinct`), and `validate_agrees` says
that it is all.

Both walks are read at the same sites : `validate` passes when no site violates its
constraints, and the emitted schema holds when every site meets its keywords
(`valid_emitSchema`).
-/

namespace ProviderSdk.Config

open JsonSchema Walk

variable {stl : Stl} {search : Bytes → Bytes → Bool}

/-! ## Item counts -/

mutual

/-- The item counts fit `int64_t`, here and in every declaration below. -/
def Object.SmallCounts : Object → Prop
  | ⟨_, members⟩ => membersSmallCounts members

def membersSmallCounts : List Member → Prop
  | [] => True
  | m :: ms => m.SmallCounts ∧ membersSmallCounts ms

def Member.SmallCounts : Member → Prop
  | .scalar _ => True
  | .object _ _ o => o.SmallCounts
  | .array _ _ a => a.SmallCounts

def Array.SmallCounts : Array → Prop
  | .scalars _ _ spec => spec.SmallCounts
  | .objects o spec => spec.SmallCounts ∧ o.SmallCounts

end

theorem membersSmallCounts_iff {ms : List Member} :
    membersSmallCounts ms ↔ ∀ m ∈ ms, m.SmallCounts := by
  induction ms with
  | nil => simp [membersSmallCounts]
  | cons m ms ih => simp [membersSmallCounts, ih]

def Decl.SmallCounts : Decl → Prop
  | .field _ => True
  | .object o => o.SmallCounts
  | .array a => a.SmallCounts

theorem Array.SmallCounts.spec {a : Array} (h : a.SmallCounts) : a.spec.SmallCounts := by
  cases a with
  | scalars f unique spec => exact h
  | objects o spec => exact h.1

theorem smallCounts_of_child (s c : Site) (hs : s.decl.SmallCounts) (h : Child s c) :
    c.decl.SmallCounts := by
  cases h with
  | @member o entries path m value hm hv =>
    obtain ⟨spec, members⟩ := o
    have hmember := membersSmallCounts_iff.mp hs m hm
    cases m <;> exact hmember
  | @item a items path i n hi =>
    cases a with
    | scalars f unique spec => trivial
    | objects o spec => exact hs.2

/-! ## The emitted schema, site by site -/

/-- A site meets the keywords of its own emitted schema. -/
def KeywordsMet (search : Bytes → Bytes → Bool) : Site → Prop
  | ⟨.field f, n, _⟩ => Valid search (.obj (emitField f.spec)) n.toJson
  | ⟨.object o, n, _⟩ => ∃ entries, n = .map entries ∧ KeysMet o entries
  | ⟨.array a, n, _⟩ => ∃ items, n = .sequence items ∧ ItemsMet a items

theorem KeywordsMet.keysMet {o : Object} {entries : Entries} {path : Bytes}
    (h : KeywordsMet search ⟨.object o, .map entries, path⟩) : KeysMet o entries := by
  obtain ⟨entries', hn, hkeys⟩ := h
  obtain rfl := Node.map.inj hn
  exact hkeys

theorem KeywordsMet.itemsMet {a : Array} {items : List Node} {path : Bytes}
    (h : KeywordsMet search ⟨.array a, .sequence items, path⟩) : ItemsMet a items := by
  obtain ⟨items', hn, hitems⟩ := h
  obtain rfl := Node.sequence.inj hn
  exact hitems

/-- The emitted schema of a site holds if the site meets its keywords and the schemas of
the sites below hold. -/
theorem valid_emitDecl (s : Site) (hs : s.decl.SmallCounts) :
    Valid search (.obj (emitDecl s.decl)) s.node.toJson ↔
      KeywordsMet search s ∧
        ∀ c, Child s c → Valid search (.obj (emitDecl c.decl)) c.node.toJson := by
  obtain ⟨f | o | a, n, path⟩ := s
  · refine (and_iff_left ?_).symm
    intro c hc
    cases hc
  · have hnil : Annotations [] := trivial
    dsimp only
    rw [emitDecl, ← List.nil_append (emitObject o none none), valid_emitObject hnil]
    simp only [emitMember_eq]
    constructor
    · rintro ⟨entries, rfl, hkeys, hmembers⟩
      refine ⟨⟨entries, rfl, hkeys⟩, ?_⟩
      intro c hc
      cases hc with
      | member hm hv => exact hmembers _ hm _ hv
    · rintro ⟨⟨entries, rfl, hkeys⟩, hbelow⟩
      exact ⟨entries, rfl, hkeys, fun m hm value hv => hbelow _ (.member hm hv)⟩
  · dsimp only
    rw [emitDecl, valid_emitArray hs.spec]
    constructor
    · rintro ⟨items, rfl, hcounts, hitems⟩
      refine ⟨⟨items, rfl, hcounts⟩, ?_⟩
      intro c hc
      cases hc with
      | item hi => exact hitems _ (List.mem_of_getElem? hi)
    · rintro ⟨⟨items, rfl, hcounts⟩, hbelow⟩
      refine ⟨items, rfl, hcounts, ?_⟩
      intro m hm
      obtain ⟨i, hi⟩ := List.mem_iff_getElem?.mp hm
      exact hbelow _ (.item hi)

/-- What `emit_schema` adds at the root are annotations. -/
theorem valid_emitSchema_iff {schema : Schema stl} {doc : Node} :
    Valid search (.obj (emitSchema schema)) doc.toJson ↔
      Valid search (.obj (emitDecl (.object schema.root))) doc.toJson := by
  have hpre : Annotations (textKeyword "$schema" "https://json-schema.org/draft/2020-12/schema" ::
      optional "$id" schema.schemaId .str) := by
    unfold Annotations
    rw [List.forall_cons, forall_optional]
    exact ⟨⟨_, rfl, by decide⟩, fun _ _ => ⟨_, rfl, by decide⟩⟩
  have hnil : Annotations [] := trivial
  rw [emitSchema, valid_emitObject hpre, emitDecl,
    ← List.nil_append (emitObject schema.root none none), valid_emitObject hnil]

theorem valid_emitSchema {schema : Schema stl} {doc : Node} (hsmall : schema.root.SmallCounts) :
    Valid search (.obj (emitSchema schema)) doc.toJson ↔
      ∀ s, Reaches (schema.site doc) s → KeywordsMet search s := by
  rw [valid_emitSchema_iff]
  exact holds_iff wellFounded_child smallCounts_of_child valid_emitDecl
    (a := schema.site doc) hsmall

/-! ## What the validator adds -/

/-- No map of a declared object has a key that is not a scalar, a repeated key, or a
deprecated one. -/
structure KeysClean (schema : Schema stl) (doc : Node) : Prop where
  scalar : ∀ {o : Object} {entries : Entries} {path : Bytes},
    Reaches (schema.site doc) ⟨.object o, .map entries, path⟩ →
    ∀ k v, (k, v) ∈ entries → ∃ key, k.scalarText = some key
  nodup : ∀ {o : Object} {entries : Entries} {path : Bytes},
    Reaches (schema.site doc) ⟨.object o, .map entries, path⟩ → entries.scalarKeys.Nodup
  deprecated : ∀ {o : Object} {entries : Entries} {path : Bytes},
    Reaches (schema.site doc) ⟨.object o, .map entries, path⟩ →
    ∀ d ∈ o.spec.deprecatedKeys, d.key ∉ entries.scalarKeys

/-- The value of every Integer field fits `int64_t`, and that of every Number field is
finite. -/
def NumbersFit (schema : Schema stl) (doc : Node) : Prop :=
  ∀ {f : Field} {node : Node} {path : Bytes},
    Reaches (schema.site doc) ⟨.field f, node, path⟩ → FitsKind f.spec.kind node.toJson

/-- The items of a unique array have different parsed values, and so do the unique members
of an array's objects. -/
structure ParsedDistinct (schema : Schema stl) (doc : Node) : Prop where
  items : ∀ {f : Field} {spec : Array.Spec} {items : List Node} {path : Bytes},
    Reaches (schema.site doc) ⟨.array (.scalars f true spec), .sequence items, path⟩ →
    items.Pairwise fun n n' =>
      ∀ v, parsedValue f.spec n.resolve = some v → parsedValue f.spec n'.resolve ≠ some v
  members : ∀ {item : Object} {spec : Array.Spec} {items : List Node} {path : Bytes},
    Reaches (schema.site doc) ⟨.array (.objects item spec), .sequence items, path⟩ →
    items.Pairwise fun n n' => ∀ key v, HasUnique item n key v → ¬HasUnique item n' key v

/-! ## Agreement -/

theorem pairwise_iff_getElem? {α : Type} {l : List α} {R : α → α → Prop} :
    l.Pairwise R ↔ ∀ (i j : ℕ) (a b : α), j < i → l[i]? = some a → l[j]? = some b → R b a := by
  rw [List.pairwise_iff_getElem]
  constructor
  · intro h i j a b hji ha hb
    obtain ⟨hi, rfl⟩ := List.getElem?_eq_some_iff.mp ha
    obtain ⟨hj, rfl⟩ := List.getElem?_eq_some_iff.mp hb
    exact h j i hj hi hji
  · intro h j i hj hi hji
    exact h i j _ _ hji (List.getElem?_eq_getElem hi) (List.getElem?_eq_getElem hj)

/-- A document that passes is clean of what the emitted schema does not see. -/
theorem keysClean_of_validate {schema : Schema stl} {doc : Node} (h : validate schema doc = []) :
    KeysClean schema doc := by
  have hclean := validate_eq_nil.mp h
  refine ⟨fun hs k v he => ?_, fun hs => ?_, fun hs d hd hk => hclean _ hs _ (.deprecatedKey hd hk)⟩
  · rw [← Option.isSome_iff_exists, ← Option.ne_none_iff_isSome]
    exact fun hk => hclean _ hs _ (.nonScalarKey he hk)
  · rw [List.nodup_iff_count_le_one]
    intro key
    by_contra hcount
    exact hclean _ hs _ (.repeatedKey (Nat.lt_of_not_le hcount))

theorem numbersFit_of_validate {schema : Schema stl} {doc : Node} (h : validate schema doc = []) :
    NumbersFit schema doc :=
  fun hs => (valid_emitField.mp (accepts_of_validate h hs)).2

theorem parsedDistinct_of_validate {schema : Schema stl} {doc : Node}
    (h : validate schema doc = []) : ParsedDistinct schema doc := by
  have hclean := validate_eq_nil.mp h
  constructor
  · intro f spec items path hs
    rw [pairwise_iff_getElem?]
    intro i j n n' hji hi hj v hv' hv
    exact hclean _ hs _ (.repeatedItem hi hj hji hv hv')
  · intro item spec items path hs
    rw [pairwise_iff_getElem?]
    intro i j n n' hji hi hj key v hv' hv
    exact hclean _ hs _ (.repeatedMember hi hj hji hv hv')

/-- Every site of a document that passes meets the keywords of its emitted schema. -/
theorem keywordsMet_of_validate {schema : Schema stl} {doc : Node} (h : validate schema doc = [])
    {s : Site} (hs : Reaches (schema.site doc) s) : KeywordsMet stl.regexSearch s := by
  have hclean := validate_eq_nil.mp h s hs
  obtain ⟨f | o | a, n, path⟩ := s
  · exact (valid_emitField.mp (accepts_of_validate h hs)).1
  · by_cases hn : ∃ entries, n = .map entries
    · obtain ⟨entries, rfl⟩ := hn
      refine ⟨entries, rfl, ?_, ?_, ?_, ?_⟩
      · intro m hm hr
        by_contra hk
        exact hclean _ (.missing hm hr hk)
      · intro ho key hk
        by_contra hm
        exact hclean _ (.unknownKey ho hk hm)
      · intro d hd hp key hk
        by_contra hno
        exact hclean _ (.dependent hd hp hk hno)
      · intro c hc hd
        refine ⟨fun key hk => ?_, fun key hk hmem => hclean _ (.forbiddenByBranch hc hd hk hmem)⟩
        by_contra hno
        exact hclean _ (.requiredByBranch hc hd hk hno)
    · exact absurd (.notMap fun entries he => hn ⟨entries, he⟩) (hclean _)
  · by_cases hn : ∃ items, n = .sequence items
    · obtain ⟨items, rfl⟩ := hn
      refine ⟨items, rfl, fun m hm => ?_, fun m hm => ?_, fun hunique => ?_⟩
      · by_contra hlt
        exact hclean _ (.tooFew hm (Nat.lt_of_not_le hlt))
      · by_contra hlt
        exact hclean _ (.tooMany hm (Nat.lt_of_not_le hlt))
      · rcases a with ⟨f, unique, spec⟩ | ⟨item, spec⟩
        · obtain rfl : unique = true := hunique
          rw [pairwise_iff_getElem?]
          intro i j n n' hji hi hj hsame
          obtain ⟨v, hv⟩ := exists_parsedValue (accepts_of_validate h (hs.tail (.item hi)))
          obtain ⟨w, hw⟩ := exists_parsedValue (accepts_of_validate h (hs.tail (.item hj)))
          -- items that `uniqueItems` finds the same have one parsed value
          obtain rfl := parsedValue_eq_of_same hsame hw hv
          exact hclean _ (.repeatedItem hi hj hji hv hw)
        · exact absurd hunique (by simp [Array.isUnique])
    · exact absurd (.notSequence fun items hi => hn ⟨items, hi⟩) (hclean _)

/-- A site that meets the keywords of its emitted schema and is clean of what that does not
see violates nothing. -/
theorem not_violated {schema : Schema stl} {doc : Node} (hkeys : KeysClean schema doc)
    (hfit : NumbersFit schema doc) (hdistinct : ParsedDistinct schema doc) {s : Site}
    (hs : Reaches (schema.site doc) s) (hmet : KeywordsMet stl.regexSearch s) (q : Bytes) :
    ¬Violated stl s q := by
  intro hviolated
  cases hviolated with
  | field h => exact h (valid_emitField.mpr ⟨hmet, hfit hs⟩)
  | notMap h =>
    obtain ⟨entries, rfl, -⟩ := hmet
    exact h entries rfl
  | nonScalarKey he hk =>
    obtain ⟨key, hkey⟩ := hkeys.scalar hs _ _ he
    rw [hk] at hkey
    exact absurd hkey (by simp)
  | repeatedKey h =>
    have hcount := List.nodup_iff_count_le_one.mp (hkeys.nodup hs)
    exact absurd (h.trans (hcount _)) (by decide)
  | deprecatedKey hd hk => exact hkeys.deprecated hs _ hd hk
  | unknownKey ho hk hm => exact hm (hmet.keysMet.closed ho _ hk)
  | missing hm hr hk => exact hk (hmet.keysMet.required _ hm hr)
  | requiredByBranch hc hd hk h => exact h ((hmet.keysMet.conditional _ hc hd).require _ hk)
  | forbiddenByBranch hc hd hk h => exact (hmet.keysMet.conditional _ hc hd).forbid _ hk h
  | dependent hd hp hk h => exact h (hmet.keysMet.dependent _ hd hp _ hk)
  | notSequence h =>
    obtain ⟨items, rfl, -⟩ := hmet
    exact h items rfl
  | tooFew hm h => exact absurd (hmet.itemsMet.min _ hm) (Nat.not_le_of_lt h)
  | tooMany hm h => exact absurd (hmet.itemsMet.max _ hm) (Nat.not_le_of_lt h)
  | repeatedItem hi hj hji hv hw =>
    exact pairwise_iff_getElem?.mp (hdistinct.items hs) _ _ _ _ hji hi hj _ hw hv
  | repeatedMember hi hj hji hv hw =>
    exact pairwise_iff_getElem?.mp (hdistinct.members hs) _ _ _ _ hji hi hj _ _ hw hv

/-- The validator passes a document exactly when the emitted schema holds of its JSON
value and the document is clean of what the schema does not see. -/
theorem validate_agrees (schema : Schema stl) (doc : Node) (hsmall : schema.root.SmallCounts) :
    validate schema doc = [] ↔
      KeysClean schema doc ∧ NumbersFit schema doc ∧ ParsedDistinct schema doc ∧
        Valid stl.regexSearch (.obj (emitSchema schema)) doc.toJson := by
  rw [valid_emitSchema hsmall]
  constructor
  · intro h
    exact ⟨keysClean_of_validate h, numbersFit_of_validate h, parsedDistinct_of_validate h,
      fun s hs => keywordsMet_of_validate h hs⟩
  · rintro ⟨hkeys, hfit, hdistinct, hmet⟩
    rw [validate_eq_nil]
    exact fun s hs q => not_violated hkeys hfit hdistinct hs (hmet s hs) q

theorem smallCounts_smallRoot : smallRoot.SmallCounts := by
  simp only [smallRoot, Object.SmallCounts, membersSmallCounts, Member.SmallCounts,
    Array.SmallCounts, true_and, and_true]
  refine ⟨⟨?_, by simp⟩, ⟨by simp, by simp⟩⟩
  rintro m ⟨rfl⟩
  decide

/-- A config that passes is valid against the emitted schema. -/
theorem validate_agrees_small :
    Valid Stl.exact.regexSearch (.obj (emitSchema smallSchema))
      (smallDoc [plain "0x08", quotedScalar "0x09"] ["left", "right"]).toJson :=
  ((validate_agrees smallSchema _ smallCounts_smallRoot).mp (by decide +kernel)).2.2.2

end ProviderSdk.Config

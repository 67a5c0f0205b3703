import ProviderSdk.HonestValues
import ProviderSdk.Lib.Chain

/-!
# Live branches

A conditional branch is live if a document can take it : its discriminator accepts the
branch's value, and some set of keys has the discriminator and the required members, meets
the dependencies and does what the branch asks (`Object.Conditional.Live`).

The constructor of `Schema` holds the value to the values the discriminator declares, and
the branch's forbidden keys to the keys that are required outright. `live_iff` says what
that leaves open : a discriminator that declares no values may refuse the branch's value,
the branch may forbid its own discriminator, and a chain of dependencies may lead to a key
the branch forbids.
-/

namespace ProviderSdk.Config

open Relation

variable {stl : Stl}

/-! ## Live and dead branches -/

/-- The keys that a document taking the branch has before any dependency is followed. -/
def Object.Conditional.seeds (o : Object) (c : Object.Conditional) : Set Bytes :=
  {k | k = c.key ∨ k ∈ requiredKeys o.members ∨ k ∈ c.branch.requireKeys}

/-- `a` in a document asks for `b`. -/
def Object.Demands (o : Object) (a b : Bytes) : Prop :=
  ∃ d ∈ o.spec.dependentRequired, d.key = a ∧ b ∈ d.alsoRequired

/-- A document can take the branch. -/
structure Object.Conditional.Live (stl : Stl) (o : Object) (c : Object.Conditional) : Prop where
  equals : ∃ f, Member.scalar f ∈ o.members ∧ f.spec.key = c.key ∧ f.spec.kind = .string ∧
    ∀ path, validateStringConstraints stl f.spec c.equals path = []
  keys : ∃ keys : Set Bytes, (∀ k ∈ keys, k ∈ o.members.map Member.key) ∧ c.key ∈ keys ∧
    (∀ m ∈ o.members, m.required = true → m.key ∈ keys) ∧
    (∀ d ∈ o.spec.dependentRequired, d.key ∈ keys → ∀ k ∈ d.alsoRequired, k ∈ keys) ∧
    (∀ k ∈ c.branch.requireKeys, k ∈ keys) ∧ ∀ k ∈ c.branch.forbidKeys, k ∉ keys

/-- What the constructor leaves open : a discriminator without declared values permits the
value, the branch does not forbid its discriminator, and no chain of dependencies leads to
a key it forbids. -/
structure Object.Conditional.Unblocked (stl : Stl) (o : Object) (c : Object.Conditional) :
    Prop where
  permits : ∀ f, Member.scalar f ∈ o.members → f.spec.key = c.key →
    acceptedValues f.spec = [] → f.spec.Permits stl c.equals
  discriminator : c.key ∉ c.branch.forbidKeys
  chains : ∀ a ∈ c.seeds o, ∀ b, TransGen o.Demands a b → b ∉ c.branch.forbidKeys

/-! ## The discriminator -/

/-- Members with one key are one member. -/
theorem scalar_unique {o : Object} (hd : o.Distinct) {f g : Field}
    (hf : Member.scalar f ∈ o.members) (hg : Member.scalar g ∈ o.members)
    (h : f.spec.key = g.spec.key) : f = g := by
  have hinj := List.inj_on_of_nodup_map (Object.distinct_iff.mp hd).1 hf hg h
  exact Member.scalar.inj hinj

theorem permits_of_acceptsString {spec : Field.Spec} {v : Bytes}
    (h : AcceptsString stl spec v) : spec.Permits stl v :=
  ⟨h.nonEmpty, h.forbidden, h.pattern⟩

/-- Without declared values, a String field has no constant and no enum. -/
theorem acceptsString_of_no_values {spec : Field.Spec} {v : Bytes} (hnil : acceptedValues spec = [])
    (hp : spec.Permits stl v) : AcceptsString stl spec v := by
  obtain ⟨henum, hconst⟩ := List.append_eq_nil_iff.mp hnil
  refine acceptsString_of_permits hp ?_ fun hne => absurd (List.map_eq_nil_iff.mp henum) hne
  intro c hc
  rw [hc] at hconst
  cases hconst

section Branch

variable {o : Object} {c : Object.Conditional}

/-- The discriminator accepts the value exactly when, if it declares no values, its other
constraints permit the value. -/
theorem equals_iff (hd : o.Distinct) (ho : (Decl.object o).Checked stl)
    (hc : c ∈ o.spec.conditionals) :
    (∃ f, Member.scalar f ∈ o.members ∧ f.spec.key = c.key ∧ f.spec.kind = .string ∧
        ∀ path, validateStringConstraints stl f.spec c.equals path = []) ↔
      ∀ f, Member.scalar f ∈ o.members → f.spec.key = c.key → acceptedValues f.spec = [] →
        f.spec.Permits stl c.equals := by
  constructor
  · rintro ⟨f, hf, hkey, -, haccepts⟩ g hg hgkey -
    obtain rfl := scalar_unique hd hf hg (hkey.trans hgkey.symm)
    exact permits_of_acceptsString (validateStringConstraints_eq_nil.mp (haccepts []))
  · intro hpermits
    obtain ⟨seen, hsound⟩ := (sound_of_checked ho).conditionals c hc
    obtain ⟨spec, hspec⟩ := Option.isSome_iff_exists.mp hsound.discriminator
    obtain ⟨f, hf, rfl, hkey, hkind⟩ := exists_of_stringScalar hspec
    refine ⟨f, hf, hkey, hkind, fun path => validateStringConstraints_eq_nil.mpr ?_⟩
    have hreach := hsound.reachable
    rw [hspec, Option.map_some, Option.getD_some] at hreach
    rcases hreach with hnil | hmem
    · exact acceptsString_of_no_values hnil (hpermits f hf hkey hnil)
    · obtain ⟨_, _, hcheck⟩ := checked_of_part _ _ ho (.member hf)
      exact (honest_of_checkField hcheck).acceptsString hmem

/-- The keys that a branch allows : those of the members that it does not forbid. -/
def Object.Conditional.allowed (o : Object) (c : Object.Conditional) : Set Bytes :=
  {k | k ∈ o.members.map Member.key ∧ k ∉ c.branch.forbidKeys}

theorem mem_requiredKeys {ms : List Member} {k : Bytes} :
    k ∈ requiredKeys ms ↔ ∃ m ∈ ms, m.required = true ∧ m.key = k := by
  simp [requiredKeys, and_assoc]

/-- The key sets of a live branch are the closed sets of allowed keys above its seeds. -/
theorem keys_iff : (∃ keys : Set Bytes, (∀ k ∈ keys, k ∈ o.members.map Member.key) ∧
      c.key ∈ keys ∧ (∀ m ∈ o.members, m.required = true → m.key ∈ keys) ∧
      (∀ d ∈ o.spec.dependentRequired, d.key ∈ keys → ∀ k ∈ d.alsoRequired, k ∈ keys) ∧
      (∀ k ∈ c.branch.requireKeys, k ∈ keys) ∧ ∀ k ∈ c.branch.forbidKeys, k ∉ keys) ↔
    ∃ keys, c.seeds o ⊆ keys ∧ Chain.Closed o.Demands keys ∧ keys ⊆ c.allowed o := by
  refine exists_congr fun keys => ?_
  constructor
  · rintro ⟨hmembers, hkey, hrequired, hdeps, hrequire, hforbid⟩
    refine ⟨?_, ?_, fun k hk => ⟨hmembers k hk, fun hf => hforbid k hf hk⟩⟩
    · rintro k (rfl | hk | hk)
      · exact hkey
      · obtain ⟨m, hm, hreq, rfl⟩ := mem_requiredKeys.mp hk
        exact hrequired m hm hreq
      · exact hrequire k hk
    · rintro a ha b ⟨d, hd, rfl, hb⟩
      exact hdeps d hd ha b hb
  · rintro ⟨hseeds, hclosed, hallowed⟩
    refine ⟨fun k hk => (hallowed hk).1, hseeds (.inl rfl), fun m hm hreq => ?_, ?_, ?_, ?_⟩
    · exact hseeds (.inr (.inl (mem_requiredKeys.mpr ⟨m, hm, hreq, rfl⟩)))
    · exact fun d hd hk k hk' => hclosed _ hk k ⟨d, hd, rfl, hk'⟩
    · exact fun k hk => hseeds (.inr (.inr hk))
    · exact fun k hk hin => (hallowed hin).2 hk

/-- The seeds are allowed, unless the branch forbids its own discriminator. -/
theorem seeds_subset_allowed (ho : (Decl.object o).Checked stl) (hc : c ∈ o.spec.conditionals) :
    c.seeds o ⊆ c.allowed o ↔ c.key ∉ c.branch.forbidKeys := by
  obtain ⟨seen, hsound⟩ := (sound_of_checked ho).conditionals c hc
  refine ⟨fun h => (h (.inl rfl)).2, fun h => ?_⟩
  rintro k (rfl | hk | hk)
  · exact ⟨mem_keys_of_stringScalar hsound.discriminator, h⟩
  · obtain ⟨m, hm, -, rfl⟩ := mem_requiredKeys.mp hk
    exact ⟨List.mem_map_of_mem hm, fun hf => (hsound.forbid _ hf).2.1 hk⟩
  · exact ⟨hsound.require k hk, fun hf => (hsound.forbid _ hf).2.2 hk⟩

/-- A dependency leads to members. -/
theorem mem_keys_of_demands (ho : (Decl.object o).Checked stl) {a b : Bytes}
    (h : TransGen o.Demands a b) : b ∈ o.members.map Member.key := by
  obtain ⟨_, -, d, hd, -, hb⟩ := TransGen.tail'_iff.mp h
  exact (((sound_of_checked ho).dependents d hd).also b hb).1

/-- A branch of a checked object is live exactly when nothing blocks it. -/
theorem live_iff_unblocked (hd : o.Distinct) (ho : (Decl.object o).Checked stl)
    (hc : c ∈ o.spec.conditionals) : c.Live stl o ↔ c.Unblocked stl o := by
  have hkeys := (keys_iff (o := o) (c := c)).trans Chain.exists_closed_iff
  rw [seeds_subset_allowed ho hc] at hkeys
  constructor
  · rintro ⟨hequals, hlive⟩
    obtain ⟨hself, hchains⟩ := hkeys.mp hlive
    exact ⟨(equals_iff hd ho hc).mp hequals, hself, fun a ha b hab => (hchains a ha b hab).2⟩
  · rintro ⟨hpermits, hself, hchains⟩
    refine ⟨(equals_iff hd ho hc).mpr hpermits, hkeys.mpr ⟨hself, fun a ha b hab => ?_⟩⟩
    exact ⟨mem_keys_of_demands ho hab, hchains a ha b hab⟩

end Branch

/-- A branch of an accepted schema is live exactly when its discriminator, if it declares
no values, permits the branch's value, and the branch forbids neither its discriminator nor
a key that dependencies lead to. -/
theorem branch_live_iff (schema : Schema stl) {o : Object}
    (ho : Within (.object schema.root) (.object o)) {c : Object.Conditional}
    (hc : c ∈ o.spec.conditionals) : c.Live stl o ↔ c.Unblocked stl o :=
  live_iff_unblocked (distinct_of_within schema.distinct_root ho)
    (checked_of_within schema.checked_root ho) hc

/-! ### Dead branches of an accepted schema -/

/-- A String field that refuses `off` without declaring the values it takes. -/
def panelMode : Field :=
  ⟨{ key := lit "mode", kind := .string, forbiddenValues := [⟨lit "off", []⟩] },
    by constructor <;> simp⟩

def integerMember (key : Bytes) (h : key ≠ []) : Member :=
  .scalar ⟨{ key := key, kind := .integer }, Field.Spec.built_new h .integer⟩

def offBranch : Object.Conditional :=
  ⟨lit "mode", lit "off", ⟨[lit "level"], []⟩⟩

def autoBranch : Object.Conditional :=
  ⟨lit "mode", lit "auto", ⟨[], [lit "mode"]⟩⟩

def fixedBranch : Object.Conditional :=
  ⟨lit "mode", lit "fixed", ⟨[lit "level"], [lit "gain"]⟩⟩

/-- `level` asks for `gain`. -/
def panelRoot : Object :=
  ⟨{ openness := .closed, conditionals := [offBranch, autoBranch, fixedBranch],
     dependentRequired := [⟨lit "level", [lit "gain"]⟩] },
    [.scalar panelMode, integerMember (lit "level") (by decide),
      integerMember (lit "gain") (by decide)]⟩

theorem distinct_panelRoot : panelRoot.Distinct := by
  simp [panelRoot, panelMode, integerMember, Object.Distinct, membersDistinct, Member.Distinct,
    Member.key]

theorem checkObject_panelRoot : checkObject Stl.exact panelRoot (lit "root") false = .ok () := by
  rfl

def panelSchema : Schema Stl.exact where
  root := panelRoot
  distinct := distinct_panelRoot
  checked := checkObject_panelRoot
  texts_utf8 := isValidUtf8_of_none

theorem panelMode_mem : Member.scalar panelMode ∈ panelRoot.members :=
  List.mem_cons_self

theorem offBranch_blocked : ¬offBranch.Unblocked Stl.exact panelRoot := by
  intro h
  have hp := h.permits panelMode panelMode_mem rfl rfl
  exact absurd hp.forbidden (by decide)

theorem autoBranch_blocked : ¬autoBranch.Unblocked Stl.exact panelRoot := by
  intro h
  exact absurd h.discriminator (by decide)

theorem fixedBranch_blocked : ¬fixedBranch.Unblocked Stl.exact panelRoot := by
  intro h
  have hstep : panelRoot.Demands (lit "level") (lit "gain") :=
    ⟨_, List.mem_singleton_self _, rfl, List.mem_singleton_self _⟩
  have hseed : lit "level" ∈ fixedBranch.seeds panelRoot :=
    .inr (.inr (List.mem_singleton_self _))
  exact absurd (h.chains _ hseed _ (.single hstep)) (by decide)

/-- The constructor accepts the panel, and none of its three branches is live. -/
theorem not_live_panel : panelRoot.spec.conditionals = [offBranch, autoBranch, fixedBranch] ∧
    panelSchema.root = panelRoot ∧ ¬offBranch.Live Stl.exact panelRoot ∧
    ¬autoBranch.Live Stl.exact panelRoot ∧ ¬fixedBranch.Live Stl.exact panelRoot := by
  have hd := distinct_panelRoot
  have ho : (Decl.object panelRoot).Checked Stl.exact := panelSchema.checked_root
  refine ⟨rfl, rfl, fun h => offBranch_blocked ?_, fun h => autoBranch_blocked ?_,
    fun h => fixedBranch_blocked ?_⟩
  · exact (live_iff_unblocked hd ho List.mem_cons_self).mp h
  · exact (live_iff_unblocked hd ho (List.mem_cons_of_mem _ List.mem_cons_self)).mp h
  · exact (live_iff_unblocked hd ho (by simp [panelRoot])).mp h

/-- The one branch of the small schema is live. -/
theorem branch_live_iff_small :
    (⟨lit "mode", lit "manual", ⟨[lit "addresses"], []⟩⟩ : Object.Conditional).Live Stl.exact
      smallRoot := by
  refine (branch_live_iff smallSchema .refl (List.mem_singleton_self _)).mpr ⟨?_, ?_, ?_⟩
  · intro f hf hkey hnil
    have hmode : Member.scalar modeField ∈ smallRoot.members := List.mem_cons_self
    obtain rfl := scalar_unique distinct_smallRoot hf hmode hkey
    exact absurd hnil (by decide)
  · exact List.not_mem_nil
  · exact fun _ _ _ _ => List.not_mem_nil

end ProviderSdk.Config

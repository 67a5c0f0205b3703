import ProviderSdk.CallValidation
import Mathlib.Order.WellFounded

/-!
# The rules of a call

The rule list of `call_validation.hpp`, as propositions. `ArgRule.Breaks` says what breaks
each of the rules 2 to 6 for one argument, and `ArgRule.rank` is the rule's place in the
list. `Decides` picks the argument and the rule that the documented order reports : the
first argument in declared order that breaks a rule, and the first rule it breaks.

`validateCallArgs_rule_order` : the validator reports the least undeclared name if there is
one, else the rule of the argument that decides, and accepts exactly when no rule is broken.
-/

namespace ProviderSdk

/-! ## The rule list -/

/-- A declared type whose values the validator can check. -/
def ValueType.Checkable : ValueType → Prop
  | .bool | .int64 | .uint64 | .double | .string | .bytes => True
  | .unspecified | .other _ => False

/-- The value carries `type` : it is tagged with `type`, and its field is the one of `type`
or is left at its default, or it is not tagged and its field is the one of `type`. -/
def Value.Carries (value : Value) (type : ValueType) : Prop :=
  (value.type = type ∧ (value.kindCase = fieldFor type ∨ value.kindCase = .notSet)) ∨
    (value.type = .unspecified ∧ value.kindCase = fieldFor type)

/-- Below the lower bound or above the upper one, where they are declared. -/
def Outside {α : Type} (lt : α → α → Prop) (min max : Option α) (v : α) : Prop :=
  (∃ m, min = some m ∧ lt v m) ∨ ∃ m, max = some m ∧ lt m v

/-- The value is outside the inclusive bounds that `arg` declares for its type. -/
def ArgSpec.Exceeded (arg : ArgSpec) (value : Value) : Prop :=
  match arg.type with
  | .double =>
    Outside (fun a b => a.lt b = true) arg.minDouble arg.maxDouble value.doubleValue
  | .int64 => Outside (· < ·) arg.minInt64 arg.maxInt64 value.int64Value
  | .uint64 => Outside (· < ·) arg.minUint64 arg.maxUint64 value.uint64Value
  | _ => False

/-- The rules 2 to 6, for one declared argument. -/
inductive ArgRule where
  | required
  | type
  | finite
  | bounds
  | allowed
  deriving DecidableEq, Repr

namespace ArgRule

/-- The number of the rule in the list. -/
def rank : ArgRule → ℕ
  | required => 2
  | type => 3
  | finite => 4
  | bounds => 5
  | allowed => 6

/-- The status code the list gives for the rule. -/
def code : ArgRule → Status.Code
  | bounds => .outOfRange
  | required | type | finite | allowed => .invalidArgument

/-- `args` breaks the rule for `arg`. -/
def Breaks (args : ValueMap) (arg : ArgSpec) : ArgRule → Prop
  | required => arg.required = true ∧ args.lookup arg.name = none
  | type => arg.type.Checkable ∧ ∃ v, args.lookup arg.name = some v ∧ ¬v.Carries arg.type
  | finite => arg.type = .double ∧
      ∃ v, args.lookup arg.name = some v ∧ v.doubleValue.isFinite = false
  | bounds => ∃ v, args.lookup arg.name = some v ∧ arg.Exceeded v
  | allowed => arg.allowedValues ≠ [] ∧ ∃ v, args.lookup arg.name = some v ∧
      (arg.type = .string → v.stringValue ∉ arg.allowedValues)

/-- A rule that is broken while none before it is. -/
theorem exists_first {p : ArgRule → Prop} (h : ∃ r, p r) :
    ∃ r, p r ∧ ∀ s, s.rank < r.rank → ¬p s := by
  obtain ⟨r, hr, hmin⟩ := (measure rank).wf.has_min {r | p r} h
  exact ⟨r, hr, fun s hs hp => hmin s hp hs⟩

end ArgRule

/-- `arg` decides by `rule` : no argument declared before it breaks a rule, and `rule` is
the first rule it breaks. -/
def Decides (spec : FunctionSpec) (args : ValueMap) (arg : ArgSpec) (rule : ArgRule) : Prop :=
  ∃ before after, spec.args = before ++ arg :: after ∧
    (∀ a ∈ before, ∀ r : ArgRule, ¬r.Breaks args a) ∧
    rule.Breaks args arg ∧ ∀ r : ArgRule, r.rank < rule.rank → ¬r.Breaks args arg

/-- An error with the code, whose message quotes the argument's name. -/
def Reports (result : Option ArgError) (code : Status.Code) (arg : ArgSpec) : Prop :=
  ∃ err, result = some err ∧ err.code = code ∧ quoted arg.name <:+: err.message

/-! ## Each check against its rule -/

section Checks

variable {arg : ArgSpec} {value : Value}

/-- A message with the quoted name in its middle. -/
theorem reports_invalid (arg : ArgSpec) (a b : Bytes) :
    Reports (some (invalid (a ++ quoted arg.name ++ b))) .invalidArgument arg :=
  ⟨_, rfl, rfl, a, b, rfl⟩

theorem reports_outOfRange (arg : ArgSpec) (a b : Bytes) :
    Reports (some (outOfRange (a ++ quoted arg.name ++ b))) .outOfRange arg :=
  ⟨_, rfl, rfl, a, b, rfl⟩

theorem checkable_iff {t : ValueType} : t.Checkable ↔ fieldFor t ≠ .notSet := by
  cases t <;> simp [ValueType.Checkable, fieldFor]

theorem checkType_of_carries (h : arg.type.Checkable → value.Carries arg.type) :
    checkType arg value = none := by
  unfold checkType
  dsimp only
  split_ifs with hexp hbad hempty
  · rfl
  · rcases h (checkable_iff.mpr hexp) with ⟨htag, hfield⟩ | ⟨htag, hfield⟩ <;>
      simp [htag, hfield] at hbad
  · rcases h (checkable_iff.mpr hexp) with ⟨htag, -⟩ | ⟨-, hfield⟩
    · rw [← htag, hempty.1] at hexp
      exact absurd rfl hexp
    · exact absurd (hfield.symm.trans hempty.2) hexp
  · rfl

theorem checkType_reports (ht : arg.type.Checkable) (h : ¬value.Carries arg.type) :
    Reports (checkType arg value) .invalidArgument arg := by
  unfold checkType
  dsimp only
  rw [if_neg (checkable_iff.mp ht)]
  split_ifs with hbad hempty
  · have hr := reports_invalid arg (lit "argument ")
      (lit " expects " ++ typeName arg.type ++ lit ", got " ++ typeName value.type)
    simpa only [List.append_assoc] using hr
  · have hr := reports_invalid arg (lit "argument ")
      (lit " expects " ++ typeName arg.type ++ lit ", got an empty value")
    simpa only [List.append_assoc] using hr
  · -- the tag and the field are right, and one of them is set
    unfold Value.Carries at h
    push Not at hbad hempty h
    obtain ⟨htag, hfield⟩ := hbad
    rcases htag with htag | htag
    · exact absurd (h.1 htag) (by tauto)
    · exact absurd hfield (not_or.mpr ⟨h.2 htag, hempty htag⟩)

theorem outside_iff {α : Type} {lt : α → α → Bool} {min max : Option α} {v : α} :
    outside lt min max v = true ↔ Outside (fun a b => lt a b = true) min max v := by
  simp [outside, Outside, Option.any_eq_true]

theorem outside_decide_iff {α : Type} [LT α] [DecidableLT α] {min max : Option α} {v : α} :
    outside (fun a b => decide (a < b)) min max v = true ↔ Outside (· < ·) min max v := by
  simp only [outside_iff, decide_eq_true_eq]

/-- Rule 4. -/
theorem checkBounds_not_finite (number : NumberPrinter) (ht : arg.type = .double)
    (h : value.doubleValue.isFinite = false) :
    Reports (checkBounds number arg value) .invalidArgument arg := by
  have hr := reports_invalid arg (lit "argument ")
    (lit " must be finite, got " ++ number.print value.doubleValue)
  simpa only [checkBounds, ht, h, Bool.not_false, if_true, List.append_assoc] using hr

/-- Rule 5. -/
theorem checkBounds_of_finite (number : NumberPrinter)
    (hfin : arg.type = .double → value.doubleValue.isFinite = true) :
    (¬arg.Exceeded value → checkBounds number arg value = none) ∧
      (arg.Exceeded value → Reports (checkBounds number arg value) .outOfRange arg) := by
  have hreport (v : Bytes) : Reports (some (outOfRange (lit "argument " ++ quoted arg.name ++
      lit " = " ++ v ++ lit " is outside its declared bounds"))) .outOfRange arg := by
    have hr := reports_outOfRange arg (lit "argument ")
      (lit " = " ++ v ++ lit " is outside its declared bounds")
    simpa only [List.append_assoc] using hr
  unfold checkBounds ArgSpec.Exceeded
  dsimp only
  cases hty : arg.type with
  | double =>
    dsimp only
    rw [hfin hty, ← outside_iff]
    split_ifs with hout <;> simp_all
  | int64 | uint64 =>
    dsimp only
    rw [← outside_decide_iff]
    split_ifs with hout <;> simp_all
  | _ => simp

/-- Rule 6. -/
theorem checkAllowed_cases :
    (arg.allowedValues = [] ∨ (arg.type = .string ∧ value.stringValue ∈ arg.allowedValues) →
        checkAllowed arg value = none) ∧
      (arg.allowedValues ≠ [] → (arg.type = .string → value.stringValue ∉ arg.allowedValues) →
        Reports (checkAllowed arg value) .invalidArgument arg) := by
  unfold checkAllowed
  split_ifs with hnil hin
  · exact ⟨fun _ => rfl, fun h => absurd hnil h⟩
  · exact ⟨fun _ => rfl, fun _ h => absurd hin.2 (h hin.1)⟩
  · refine ⟨fun h => (h.elim hnil hin).elim, fun _ _ => ?_⟩
    have hr := reports_invalid arg (lit "argument ") (lit " must be one of [" ++
      (lit ", ").intercalate (arg.allowedValues.map quoted) ++ lit "]")
    simpa only [List.append_assoc] using hr

end Checks

/-! ## One argument -/

section Argument

variable (number : NumberPrinter) (spec : FunctionSpec) {args : ValueMap} {arg : ArgSpec}

/-- The later checks of an argument are reached when the earlier ones pass. -/
theorem Reports.or_right {a b : Option ArgError} {code : Status.Code} (ha : a = none)
    (hb : Reports b code arg) : Reports (a.or b) code arg := by
  rwa [ha, Option.none_or]

theorem Reports.or_left {a b : Option ArgError} {code : Status.Code}
    (ha : Reports a code arg) : Reports (a.or b) code arg := by
  obtain ⟨err, rfl, hrest⟩ := ha
  exact ⟨err, rfl, hrest⟩

/-- The type check passes when rule 3 is not broken. -/
theorem checkType_of_not_breaks {value : Value} (hv : args.lookup arg.name = some value)
    (h : ¬ArgRule.type.Breaks args arg) : checkType arg value = none :=
  checkType_of_carries fun ht => by_contra fun hc => h ⟨ht, value, hv, hc⟩

theorem isFinite_of_not_breaks {value : Value} (hv : args.lookup arg.name = some value)
    (h : ¬ArgRule.finite.Breaks args arg) (ht : arg.type = .double) :
    value.doubleValue.isFinite = true :=
  Bool.not_eq_false _ ▸ fun hf => h ⟨ht, value, hv, hf⟩

/-- An argument that breaks no rule passes. -/
theorem checkArg_of_not_breaks (h : ∀ r : ArgRule, ¬r.Breaks args arg) :
    checkArg number spec args arg = none := by
  unfold checkArg
  cases hv : args.lookup arg.name with
  | none =>
    have hreq : arg.required ≠ true := fun hreq => h .required ⟨hreq, hv⟩
    simp [hreq]
  | some value =>
    have hbounds := (checkBounds_of_finite number
      (isFinite_of_not_breaks hv (h .finite))).1 fun hx => h .bounds ⟨value, hv, hx⟩
    have hallowed : checkAllowed arg value = none := by
      refine checkAllowed_cases.1 (by_contra fun hc => ?_)
      rw [not_or, not_and] at hc
      exact h .allowed ⟨hc.1, value, hv, hc.2⟩
    simp only [checkType_of_not_breaks hv (h .type), hbounds, hallowed, Option.or_none]

/-- The first rule an argument breaks is the one reported. -/
theorem checkArg_reports {rule : ArgRule} (hrule : rule.Breaks args arg)
    (hfirst : ∀ r : ArgRule, r.rank < rule.rank → ¬r.Breaks args arg) :
    Reports (checkArg number spec args arg) rule.code arg := by
  unfold checkArg
  cases rule with
  | required =>
    obtain ⟨hreq, hv⟩ := hrule
    have hr := reports_invalid arg (spec.name ++ lit " requires argument ") []
    simpa only [hv, hreq, if_true, List.append_nil, ArgRule.code] using hr
  | type =>
    obtain ⟨ht, value, hv, hc⟩ := hrule
    simp only [hv]
    exact (checkType_reports ht hc).or_left
  | finite =>
    obtain ⟨ht, value, hv, hf⟩ := hrule
    simp only [hv]
    have htype := checkType_of_not_breaks hv (hfirst .type (by decide))
    exact (checkBounds_not_finite number ht hf).or_left.or_right htype
  | bounds =>
    obtain ⟨value, hv, hx⟩ := hrule
    simp only [hv]
    have htype := checkType_of_not_breaks hv (hfirst .type (by decide))
    have hfin := isFinite_of_not_breaks hv (hfirst .finite (by decide))
    exact ((checkBounds_of_finite number hfin).2 hx).or_left.or_right htype
  | allowed =>
    obtain ⟨hne, value, hv, hout⟩ := hrule
    simp only [hv]
    have htype := checkType_of_not_breaks hv (hfirst .type (by decide))
    have hfin := isFinite_of_not_breaks hv (hfirst .finite (by decide))
    have hbounds := (checkBounds_of_finite number hfin).1
      fun hx => hfirst .bounds (by decide) ⟨value, hv, hx⟩
    exact ((checkAllowed_cases.2 hne hout).or_right hbounds).or_right htype

theorem checkArg_eq_none_iff :
    checkArg number spec args arg = none ↔ ∀ r : ArgRule, ¬r.Breaks args arg := by
  refine ⟨fun h r hr => ?_, checkArg_of_not_breaks number spec⟩
  obtain ⟨rule, hrule, hfirst⟩ := ArgRule.exists_first ⟨r, hr⟩
  obtain ⟨err, herr, -⟩ := checkArg_reports number spec hrule hfirst
  rw [h] at herr
  cases herr

end Argument

/-! ## The whole call -/

/-- No argument declares the name. -/
theorem mem_undeclaredNames {spec : FunctionSpec} {args : ValueMap} {name : Bytes} :
    name ∈ undeclaredNames spec args ↔ name ∈ args ∧ ∀ arg ∈ spec.args, arg.name ≠ name := by
  simp [undeclaredNames, AList.mem_keys]

/-- Only the contents of the map are read. -/
theorem validateCallArgs_congr (number : NumberPrinter) (spec : FunctionSpec)
    {args args' : ValueMap} (h : ∀ name, args'.lookup name = args.lookup name) :
    validateCallArgs number spec args' = validateCallArgs number spec args := by
  have hmem (name : Bytes) : name ∈ args' ↔ name ∈ args := by
    rw [← AList.lookup_isSome, h, AList.lookup_isSome]
  have hleast : leastBytes (undeclaredNames spec args') =
      leastBytes (undeclaredNames spec args) := by
    ext name
    simp only [leastBytes_eq_some_iff, mem_undeclaredNames, hmem]
  have harg : checkArg number spec args' = checkArg number spec args := by
    ext1 arg
    simp only [checkArg, h]
  simp only [validateCallArgs, hleast, harg]

/-- Rule 1. -/
theorem validateCallArgs_of_undeclared (number : NumberPrinter) {spec : FunctionSpec}
    {args : ValueMap} {name : Bytes}
    (h : IsLeast {n | n ∈ args ∧ ∀ arg ∈ spec.args, arg.name ≠ n} name) :
    validateCallArgs number spec args =
      some ⟨.invalidArgument, spec.name ++ lit " takes no argument " ++ quoted (echo name)⟩ := by
  have hleast : leastBytes (undeclaredNames spec args) = some name := by
    simpa only [leastBytes_eq_some_iff, mem_undeclaredNames] using h
  simp only [validateCallArgs, hleast, invalid]

/-- Rules 2 to 6, when every name is declared. -/
theorem validateCallArgs_of_declared (number : NumberPrinter) {spec : FunctionSpec}
    {args : ValueMap} (h : ∀ n ∈ args, ∃ arg ∈ spec.args, arg.name = n) :
    validateCallArgs number spec args = spec.args.findSome? (checkArg number spec args) := by
  have hnil : undeclaredNames spec args = [] := by
    refine List.eq_nil_iff_forall_not_mem.mpr fun name hname => ?_
    obtain ⟨hin, hnot⟩ := mem_undeclaredNames.mp hname
    obtain ⟨arg, harg, heq⟩ := h name hin
    exact hnot arg harg heq
  simp only [validateCallArgs, hnil, leastBytes]

/-- The first argument that breaks a rule is the one reported. -/
theorem validateCallArgs_of_decides (number : NumberPrinter) {spec : FunctionSpec}
    {args : ValueMap} (h : ∀ n ∈ args, ∃ arg ∈ spec.args, arg.name = n) {arg : ArgSpec}
    {rule : ArgRule} (hd : Decides spec args arg rule) :
    Reports (validateCallArgs number spec args) rule.code arg := by
  obtain ⟨before, after, hargs, hbefore, hrule, hfirst⟩ := hd
  obtain ⟨err, herr, hrest⟩ := checkArg_reports number spec hrule hfirst
  have hpass : before.findSome? (checkArg number spec args) = none :=
    List.findSome?_eq_none_iff.mpr fun a ha => checkArg_of_not_breaks number spec (hbefore a ha)
  refine ⟨err, ?_, hrest⟩
  rw [validateCallArgs_of_declared number h, hargs, List.findSome?_append, hpass,
    Option.none_or, List.findSome?_cons, herr]

/-- The validator keeps the documented rule order. -/
theorem validateCallArgs_rule_order (number : NumberPrinter) (spec : FunctionSpec)
    (args : ValueMap) :
    (∀ args' : ValueMap, (∀ name, args'.lookup name = args.lookup name) →
        validateCallArgs number spec args' = validateCallArgs number spec args) ∧
      (∀ name, IsLeast {n | n ∈ args ∧ ∀ arg ∈ spec.args, arg.name ≠ n} name →
        validateCallArgs number spec args =
          some ⟨.invalidArgument, spec.name ++ lit " takes no argument " ++ quoted (echo name)⟩) ∧
      ((∀ n ∈ args, ∃ arg ∈ spec.args, arg.name = n) →
        ∀ arg rule, Decides spec args arg rule →
          Reports (validateCallArgs number spec args) rule.code arg) ∧
      (validateCallArgs number spec args = none ↔
        (∀ n ∈ args, ∃ arg ∈ spec.args, arg.name = n) ∧
          ∀ arg ∈ spec.args, ∀ rule : ArgRule, ¬rule.Breaks args arg) := by
  refine ⟨fun _ h => validateCallArgs_congr number spec h,
    fun _ h => validateCallArgs_of_undeclared number h,
    fun h _ _ hd => validateCallArgs_of_decides number h hd, ?_⟩
  rw [validateCallArgs_eq_none_iff]
  refine and_congr (forall_congr' fun n => ?_)
    (forall₂_congr fun arg _ => checkArg_eq_none_iff number spec)
  rw [AList.mem_keys, List.mem_map]

end ProviderSdk

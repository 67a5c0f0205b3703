import ProviderSdk.Extraction
import ProviderSdk.ReferenceProvider

/-!
# The config of the reference provider

`config_schema` and `load_config` of `src/examples/reference/reference_provider.cpp`. The schema
is declared with the builders, and the loader extracts with a default for each field, which a
config that passed `validate` does not need where the field is required.
-/

namespace ProviderSdk.Reference

open Config Floating Pattern

/-! ## The schema -/

def kIdPattern : Bytes :=
  lit "^[a-z][a-z0-9_]*$"

def idField : Except LogicError Field := do
  let f ← Field.stringField (lit "id")
  let f ← f.required.unique.pattern kIdPattern
  return f.title (lit "Device id")

def labelField : Except LogicError Field := do
  let f ← Field.stringField (lit "label")
  let f ← f.nonEmpty
  return f.title (lit "Label")

def ambientField : Except LogicError Field := do
  let f ← Field.numberField (lit "ambient_c")
  let f ← f.defaultNumber (binary64.round 20)
  return f.title (lit "Ambient temperature (degC)")

/-- A number above zero. -/
def positiveField (key : Bytes) (byDefault : Double) (title : Bytes) :
    Except LogicError Field := do
  let f ← Field.numberField key
  let f ← f.exclusiveMinNumber (.zero false)
  let f ← f.defaultNumber byDefault
  return f.title title

def maxRiseField : Except LogicError Field :=
  positiveField (lit "max_rise_c") (binary64.round 50)
    (lit "Rise above ambient at full power (degC)")

def ratedField : Except LogicError Field :=
  positiveField (lit "rated_w") (binary64.round 100) (lit "Power at full (W)")

def deviceObject : Except LogicError Object := do
  let device ← (Object.new .closed).field (← idField)
  let device ← device.field (← labelField)
  let device ← device.field (← ambientField)
  let device ← device.field (← maxRiseField)
  device.field (← ratedField)

def configRoot : Except LogicError Object := do
  let device ← deviceObject
  (Object.new .closed).array (lit "devices") ((Array.ofObjects device).minItems 1) .required

/-! ## What the builders make -/

def idSpec : Field.Spec :=
  { key := lit "id", kind := .string, required := true, unique := true
    pattern := some kIdPattern, title := lit "Device id" }

def labelSpec : Field.Spec :=
  { key := lit "label", kind := .string, nonEmpty := true, title := lit "Label" }

def ambientSpec : Field.Spec :=
  { key := lit "ambient_c", kind := .number, defaultNumber := some (binary64.round 20)
    title := lit "Ambient temperature (degC)" }

def positiveSpec (key : Bytes) (byDefault : Double) (title : Bytes) : Field.Spec :=
  { key := key, kind := .number, exclusiveMinNumber := some (.zero false)
    defaultNumber := some byDefault, title := title }

def maxRiseSpec : Field.Spec :=
  positiveSpec (lit "max_rise_c") (binary64.round 50)
    (lit "Rise above ambient at full power (degC)")

def ratedSpec : Field.Spec :=
  positiveSpec (lit "rated_w") (binary64.round 100) (lit "Power at full (W)")

/-- The builders make a field of `spec`. -/
def Makes (made : Except LogicError Field) (spec : Field.Spec) : Prop :=
  ∃ f, made = .ok f ∧ f.spec = spec

theorem Makes.bind {made : Except LogicError Field} {next : Field → Except LogicError Field}
    {spec spec' : Field.Spec} (h : Makes made spec)
    (hnext : ∀ f, f.spec = spec → Makes (next f) spec') : Makes (made >>= next) spec' := by
  obtain ⟨f, rfl, hspec⟩ := h
  exact hnext f hspec

theorem makes_title {f : Field} {spec : Field.Spec} (h : f.spec = spec) (title : Bytes) :
    Makes (pure (f.title title)) { spec with title := title } :=
  ⟨_, rfl, by rw [← h]; rfl⟩

theorem makes_numberField {key : Bytes} (h : key ≠ []) :
    Makes (Field.numberField key) { key := key, kind := .number } := by
  rw [Field.numberField, Field.new, dif_neg h]
  exact ⟨_, rfl, rfl⟩

theorem makes_exclusiveMinNumber {f : Field} {spec : Field.Spec} (h : f.spec = spec) {v : Double}
    (hk : spec.kind = .number) (hv : v.isFinite = true) (hfree : spec.minNumber = none) :
    Makes (f.exclusiveMinNumber v) { spec with exclusiveMinNumber := some v } := by
  subst h
  rw [Field.exclusiveMinNumber, Field.setNumber, dif_pos hk, dif_pos hv,
    dif_pos (by rw [hfree]; rfl)]
  exact ⟨_, rfl, rfl⟩

theorem makes_defaultNumber {f : Field} {spec : Field.Spec} (h : f.spec = spec) {v : Double}
    (hk : spec.kind = .number) (hv : v.isFinite = true) :
    Makes (f.defaultNumber v) { spec with defaultNumber := some v } := by
  subst h
  rw [Field.defaultNumber, Field.setNumber, dif_pos hk, dif_pos hv, dif_pos rfl]
  exact ⟨_, rfl, rfl⟩

theorem makes_idField : Makes idField idSpec :=
  ⟨_, rfl, rfl⟩

theorem makes_labelField : Makes labelField labelSpec :=
  ⟨_, rfl, rfl⟩

theorem makes_ambientField : Makes ambientField ambientSpec :=
  (makes_numberField (by decide)).bind fun _ h =>
    (makes_defaultNumber h rfl (by decide +kernel)).bind fun _ h => makes_title h _

theorem makes_positiveField {key : Bytes} (hkey : key ≠ []) {byDefault : Double}
    (hv : byDefault.isFinite = true) (title : Bytes) :
    Makes (positiveField key byDefault title) (positiveSpec key byDefault title) :=
  (makes_numberField hkey).bind fun _ h => (makes_exclusiveMinNumber h rfl rfl rfl).bind fun _ h =>
    (makes_defaultNumber h rfl hv).bind fun _ h => makes_title h _

theorem makes_maxRiseField : Makes maxRiseField maxRiseSpec :=
  makes_positiveField (by decide) (by decide +kernel) _

theorem makes_ratedField : Makes ratedField ratedSpec :=
  makes_positiveField (by decide) (by decide +kernel) _

/-- The fields of a device. -/
structure Declared where
  id : Field
  label : Field
  ambient : Field
  maxRise : Field
  rated : Field
  id_spec : id.spec = idSpec
  label_spec : label.spec = labelSpec
  ambient_spec : ambient.spec = ambientSpec
  maxRise_spec : maxRise.spec = maxRiseSpec
  rated_spec : rated.spec = ratedSpec

namespace Declared

def device (d : Declared) : Object :=
  ⟨{ openness := .closed },
    [.scalar d.id, .scalar d.label, .scalar d.ambient, .scalar d.maxRise, .scalar d.rated]⟩

def devices (d : Declared) : Config.Array :=
  .objects d.device { minItems := some 1 }

/-- A required array of one or more devices. -/
def root (d : Declared) : Object :=
  ⟨{ openness := .closed }, [.array (lit "devices") true d.devices]⟩

theorem distinct_root (d : Declared) : d.root.Distinct := by
  simp [root, devices, device, Object.Distinct, membersDistinct, Member.Distinct, Array.Distinct,
    Member.key, d.id_spec, d.label_spec, d.ambient_spec, d.maxRise_spec, d.rated_spec, idSpec,
    labelSpec, ambientSpec, maxRiseSpec, ratedSpec, positiveSpec]

end Declared

theorem exists_configRoot : ∃ d : Declared, configRoot = .ok d.root := by
  obtain ⟨id, hid, hid'⟩ := makes_idField
  obtain ⟨label, hlabel, hlabel'⟩ := makes_labelField
  obtain ⟨ambient, hambient, hambient'⟩ := makes_ambientField
  obtain ⟨maxRise, hmaxRise, hmaxRise'⟩ := makes_maxRiseField
  obtain ⟨rated, hrated, hrated'⟩ := makes_ratedField
  refine ⟨⟨id, label, ambient, maxRise, rated, hid', hlabel', hambient', hmaxRise', hrated'⟩, ?_⟩
  simp [configRoot, deviceObject, hid, hlabel, hambient, hmaxRise, hrated, Object.new,
    Object.field, Object.array, Object.insertMember, Member.key, hid', hlabel', hambient',
    hmaxRise', hrated', idSpec, labelSpec, ambientSpec, maxRiseSpec, ratedSpec, positiveSpec,
    Array.ofObjects, Array.minItems, Array.setSpec, Bind.bind, Except.bind, Declared.root,
    Declared.devices, Declared.device]

theorem distinct_of_configRoot {root : Object} (h : configRoot = .ok root) : root.Distinct := by
  obtain ⟨d, hd⟩ := exists_configRoot
  rw [← Except.ok.inj (hd.symm.trans h)]
  exact d.distinct_root

/-- `config_schema`. -/
def configSchema (stl : Stl) : Except LogicError (Schema stl) :=
  match h : configRoot with
  | .error e => .error e
  | .ok root => do
    let schema ← Schema.new stl root (distinct_of_configRoot h)
    schema.title (lit "anolis-provider-reference config")

/-! ## The constructor accepts it -/

section Checks

variable {stl : Stl}

/-- A field passes whose values are none but a number by default. -/
theorem checkField_ok {spec : Field.Spec} {path : Bytes} (htexts : checkTexts spec path = .ok ())
    (hnone : spec.enumValues = [] ∧ spec.constValue = none ∧ spec.minInt = none ∧
      spec.defaultString = none ∧ spec.defaultInt = none)
    (hpattern : ∀ p, spec.pattern = some p → stl.regexError p = none)
    (hbounds : (upperBound spec).lt (lowerBound spec) = false ∧
      (lowerBound spec).eq (upperBound spec) = false)
    (hdefault : ∀ v, spec.defaultNumber = some v → outsideNumberBounds spec v = false) :
    checkField stl spec path true = .ok () := by
  obtain ⟨henum, hconst, hminInt, hstring, hint⟩ := hnone
  have hregex : spec.pattern.toList.forM (fun p => treeCheck (stl.regexError p).isNone path
      (lit "pattern does not compile: " ++ (stl.regexError p).getD [])) = .ok () := by
    cases hp : spec.pattern with
    | none => rfl
    | some p => simp [treeCheck, hpattern p hp, Bind.bind, Except.bind]; rfl
  have hnumber : spec.defaultNumber.toList.forM (fun v => treeCheck (!outsideNumberBounds spec v)
      path (lit "default " ++ stl.formatDouble v ++ lit " is outside the declared bounds")) =
        .ok () := by
    cases hv : spec.defaultNumber with
    | none => rfl
    | some v => simp [treeCheck, hdefault v hv, Bind.bind, Except.bind]; rfl
  simp only [checkField, htexts, henum, hconst, hminInt, hstring, hint, hbounds.1, hbounds.2,
    hregex, hnumber, Bind.bind, Except.bind]
  simp [treeCheck]
  rfl

theorem checkField_idSpec (h : stl.regexError kIdPattern = none) (path : Bytes) :
    checkField stl idSpec path true = .ok () :=
  checkField_ok rfl ⟨rfl, rfl, rfl, rfl, rfl⟩ (fun p hp => Option.some.inj hp ▸ h)
    ⟨rfl, rfl⟩ fun _ hv => by cases hv

theorem checkField_labelSpec (path : Bytes) : checkField stl labelSpec path true = .ok () :=
  checkField_ok rfl ⟨rfl, rfl, rfl, rfl, rfl⟩ (fun p hp => by cases hp) ⟨rfl, rfl⟩
    fun _ hv => by cases hv

theorem checkField_ambientSpec (path : Bytes) : checkField stl ambientSpec path true = .ok () :=
  checkField_ok rfl ⟨rfl, rfl, rfl, rfl, rfl⟩ (fun p hp => by cases hp) ⟨rfl, rfl⟩ fun _ _ => rfl

theorem checkField_maxRiseSpec (path : Bytes) : checkField stl maxRiseSpec path true = .ok () :=
  checkField_ok rfl ⟨rfl, rfl, rfl, rfl, rfl⟩ (fun p hp => by cases hp) ⟨rfl, rfl⟩
    fun v hv => Option.some.inj hv ▸ (by decide +kernel)

theorem checkField_ratedSpec (path : Bytes) : checkField stl ratedSpec path true = .ok () :=
  checkField_ok rfl ⟨rfl, rfl, rfl, rfl, rfl⟩ (fun p hp => by cases hp) ⟨rfl, rfl⟩
    fun v hv => Option.some.inj hv ▸ (by decide +kernel)

theorem checkMember_scalar {f : Field} {path : Bytes} (hkey : isValidUtf8 f.spec.key = true)
    (h : ∀ path, checkField stl f.spec path true = .ok ()) :
    checkMember stl (.scalar f) path true = .ok () := by
  simp [checkMember, checkUtf8, treeCheck, hkey, h, Bind.bind, Except.bind]

theorem checkObject_root (h : stl.regexError kIdPattern = none) (d : Declared) :
    checkObject stl d.root (lit "root") false = .ok () := by
  have hid : ∀ path, checkMember stl (.scalar d.id) path true = .ok () := fun path =>
    checkMember_scalar (by rw [d.id_spec]; rfl) (by rw [d.id_spec]; exact checkField_idSpec h)
  have hlabel : ∀ path, checkMember stl (.scalar d.label) path true = .ok () := fun path =>
    checkMember_scalar (by rw [d.label_spec]; rfl)
      (by rw [d.label_spec]; exact checkField_labelSpec)
  have hambient : ∀ path, checkMember stl (.scalar d.ambient) path true = .ok () := fun path =>
    checkMember_scalar (by rw [d.ambient_spec]; rfl)
      (by rw [d.ambient_spec]; exact checkField_ambientSpec)
  have hmaxRise : ∀ path, checkMember stl (.scalar d.maxRise) path true = .ok () := fun path =>
    checkMember_scalar (by rw [d.maxRise_spec]; rfl)
      (by rw [d.maxRise_spec]; exact checkField_maxRiseSpec)
  have hrated : ∀ path, checkMember stl (.scalar d.rated) path true = .ok () := fun path =>
    checkMember_scalar (by rw [d.rated_spec]; rfl)
      (by rw [d.rated_spec]; exact checkField_ratedSpec)
  have hdevice : ∀ path, checkObject stl d.device path true = .ok () := by
    intro path
    simp only [Declared.device, checkObject, checkMembers, hid, hlabel, hambient, hmaxRise, hrated]
    rfl
  have hdevices : ∀ path, checkArray stl d.devices path = .ok () := by
    intro path
    simp only [Declared.devices, checkArray, hdevice]
    rfl
  simp only [Declared.root, checkObject, checkMembers, checkMember, hdevices]
  rfl

/-- The schema is one, if the pattern compiles. -/
theorem exists_configSchema (h : stl.regexError kIdPattern = none) :
    ∃ (schema : Schema stl) (d : Declared),
      configSchema stl = .ok schema ∧ schema.root = d.root := by
  obtain ⟨d, hd⟩ := exists_configRoot
  unfold configSchema
  split
  · next e he => cases hd.symm.trans he
  · next root hroot =>
    obtain rfl := Except.ok.inj (hd.symm.trans hroot)
    unfold Schema.new
    split
    · exact ⟨_, d, rfl, rfl⟩
    · next e he => cases (checkObject_root h d).symm.trans he

end Checks

/-! ## The loader -/

/-- `node[key]` of a map. -/
def valueAt (node : Node) (key : Bytes) : Option Node :=
  match node with
  | .map entries => Entries.valueAt entries key
  | _ => none

/-- The items of a sequence. -/
def itemsOf : Option Node → List Node
  | some (.sequence items) => items
  | _ => []

/-- One turn of the loop over the devices. -/
def loadHeater (node : Node) : HeaterConfig :=
  let id := (asString (valueAt node (lit "id"))).getD []
  { id := id
    label := (asString (valueAt node (lit "label"))).getD id
    ambientC := (asDouble (valueAt node (lit "ambient_c"))).getD (binary64.round 20)
    maxRiseC := (asDouble (valueAt node (lit "max_rise_c"))).getD (binary64.round 50)
    ratedW := (asDouble (valueAt node (lit "rated_w"))).getD (binary64.round 100) }

/-- `load_config` of a file that parsed as `root`. An error is what the exception says. -/
def loadConfig (stl : Stl) (path : Bytes) (root : Node) : Except Bytes (List HeaterConfig) := do
  let schema ← configSchema stl
  match validate schema root with
  | [] => .ok ((itemsOf (valueAt root (lit "devices"))).map loadHeater)
  | errors => .error (lit "invalid config '" ++ path ++ lit "':\n" ++ formatErrors errors)

/-! ## What the provider gets -/

def lowercase : Bytes :=
  lit "abcdefghijklmnopqrstuvwxyz"

/-- The texts that `kIdPattern` finds. -/
def idPattern : RegularExpression UInt8 :=
  oneOf lowercase * many (oneOf (lowercase ++ lit "0123456789_"))

/-- `std::regex` compiles the anchored pattern, and a search of it matches the whole text. -/
structure ReadsIds (stl : Stl) : Prop where
  compiles : stl.regexError kIdPattern = none
  search : ∀ text, stl.regexSearch kIdPattern text = idPattern.rmatch text

/-- A finite number above zero. -/
def Positive (v : Double) : Prop :=
  ∃ q, v.toRat = some q ∧ 0 < q

/-- The heaters of a config : one or more, named apart, and sound. -/
structure Loaded (heaters : List HeaterConfig) : Prop where
  ne_nil : heaters ≠ []
  nodup : (heaters.map HeaterConfig.id).Nodup
  id : ∀ c ∈ heaters, idPattern.rmatch c.id = true
  label : ∀ c ∈ heaters, c.label ≠ []
  ambient : ∀ c ∈ heaters, c.ambientC.isFinite = true
  maxRise : ∀ c ∈ heaters, Positive c.maxRiseC
  rated : ∀ c ∈ heaters, Positive c.ratedW

section Contract

variable {stl : Stl} {schema : Schema stl} {d : Declared} {doc : Node}

/-- The devices of a config that passed. -/
theorem exists_devices (hroot : schema.root = d.root) (h : validate schema doc = []) :
    ∃ items path, items ≠ [] ∧ itemsOf (valueAt doc (lit "devices")) = items ∧
      Reaches (schema.site doc) ⟨.array d.devices, .sequence items, path⟩ := by
  have hclean := validate_eq_nil.mp h
  have hsite : schema.site doc = ⟨.object d.root, doc, []⟩ := by rw [Schema.site, hroot]
  rw [hsite] at hclean ⊢
  cases doc with
  | map entries =>
    cases hvalue : Entries.valueAt entries (lit "devices") with
    | none =>
      have hmissing : Violated stl ⟨.object d.root, .map entries, []⟩ _ :=
        .missing (m := .array (lit "devices") true d.devices) (List.mem_singleton_self _) rfl
          (valueAt_eq_none.mp hvalue)
      exact absurd hmissing (hclean _ .refl _)
    | some value =>
      have hreach : Reaches ⟨.object d.root, .map entries, []⟩
          ⟨.array d.devices, value, childPath [] (lit "devices")⟩ :=
        .single (.member (m := .array (lit "devices") true d.devices)
          (List.mem_singleton_self _) hvalue)
      cases value with
      | sequence items =>
        refine ⟨items, _, ?_, by simp [valueAt, hvalue, itemsOf], hreach⟩
        rintro rfl
        exact hclean _ hreach _ (.tooFew (m := 1) rfl (by decide))
      | _ => exact absurd (.notSequence (by simp)) (hclean _ hreach _)
  | _ => exact absurd (.notMap (by simp)) (hclean _ .refl _)

/-- A field that may be absent is read within its contract, or has its default. -/
theorem asDouble_of_validate (h : validate schema doc = []) {entries : Entries} {path : Bytes}
    (hreach : Reaches (schema.site doc) ⟨.object d.device, .map entries, path⟩) {f : Field}
    (hf : .scalar f ∈ d.device.members) (hkind : f.spec.kind = .number) :
    asDouble (entries.valueAt f.spec.key) = none ∨
      ∃ v, asDouble (entries.valueAt f.spec.key) = some v ∧ AcceptsNumber f.spec v := by
  cases hvalue : entries.valueAt f.spec.key with
  | none => exact .inl rfl
  | some node =>
    have haccepts := accepts_of_validate h (hreach.tail (.member hf hvalue))
    have hextracts := extracts_of_accepts haccepts
    unfold Extracts at hextracts
    rw [hkind] at hextracts
    exact .inr hextracts

/-- What a positive field reads, or its default, is above zero. -/
theorem positive_of_validate (h : validate schema doc = []) {entries : Entries} {path : Bytes}
    (hreach : Reaches (schema.site doc) ⟨.object d.device, .map entries, path⟩) {f : Field}
    (hf : .scalar f ∈ d.device.members) {key : Bytes} {byDefault : Double} {title : Bytes}
    (hspec : f.spec = positiveSpec key byDefault title) (hdefault : Positive byDefault) :
    Positive ((asDouble (entries.valueAt key)).getD byDefault) := by
  have hkey : f.spec.key = key := by rw [hspec]; rfl
  rcases asDouble_of_validate h hreach hf (by rw [hspec]; rfl) with hnone | ⟨v, hv, haccepts⟩
  · rw [← hkey, hnone]
    exact hdefault
  · rw [← hkey, hv]
    obtain ⟨q, hq⟩ := Value.exists_toRat haccepts.finite
    have hlt : (Value.zero false : Double).lt v = true :=
      haccepts.exclusiveMin _ (by rw [hspec]; rfl)
    exact ⟨q, hq, (Value.lt_iff rfl hq).mp hlt⟩

theorem positive_fifty : Positive (binary64.round 50) :=
  ⟨50, by simpa using toRat_round_int (n := 50) (by norm_num), by norm_num⟩

theorem positive_hundred : Positive (binary64.round 100) :=
  ⟨100, by simpa using toRat_round_int (n := 100) (by norm_num), by norm_num⟩

/-- The device is a map with an id of the pattern, which the loader reads. -/
theorem exists_id (hstl : ReadsIds stl) (h : validate schema doc = []) {node : Node} {path : Bytes}
    (hreach : Reaches (schema.site doc) ⟨.object d.device, node, path⟩) :
    ∃ entries, node = .map entries ∧ idPattern.rmatch (loadHeater node).id = true ∧
      HasUnique d.device node (lit "id") (.text (loadHeater node).id) := by
  have hclean := validate_eq_nil.mp h
  have hkey : d.id.spec.key = lit "id" := by rw [d.id_spec]; rfl
  have hmem : Member.scalar d.id ∈ d.device.members := List.mem_cons_self
  cases node with
  | map entries =>
    cases hvalue : Entries.valueAt entries (lit "id") with
    | none =>
      have hmissing : Violated stl ⟨.object d.device, .map entries, path⟩ _ :=
        .missing hmem (by rw [Member.required, d.id_spec]; rfl)
          (by rw [Member.key, hkey]; exact valueAt_eq_none.mp hvalue)
      exact absurd hmissing (hclean _ hreach _)
    | some value =>
      have haccepts := accepts_of_validate h
        (hreach.tail (.member hmem (by rw [Member.key, hkey]; exact hvalue)))
      rw [d.id_spec] at haccepts
      obtain ⟨s, hs, hstring⟩ := haccepts
      have hid : (loadHeater (.map entries)).id = s := by
        simp [loadHeater, valueAt, hvalue, asString, resolveScalar, hs]
      refine ⟨entries, rfl, ?_, ?_⟩
      · rw [hid, ← hstl.search]
        exact hstring.pattern _ rfl
      · refine ⟨d.id, entries, value, hmem, by rw [d.id_spec]; rfl, hkey, rfl, hvalue, ?_⟩
        rw [d.id_spec, hs, hid]
        rfl
  | _ => exact absurd (.notMap (by simp)) (hclean _ hreach _)

/-- The label of a device, or its id in its place. -/
theorem label_ne_nil (h : validate schema doc = []) {entries : Entries} {path : Bytes}
    (hreach : Reaches (schema.site doc) ⟨.object d.device, .map entries, path⟩)
    (hid : idPattern.rmatch (loadHeater (.map entries)).id = true) :
    (loadHeater (.map entries)).label ≠ [] := by
  have hkey : d.label.spec.key = lit "label" := by rw [d.label_spec]; rfl
  have hmem : Member.scalar d.label ∈ d.device.members := by simp [Declared.device]
  cases hvalue : Entries.valueAt entries (lit "label") with
  | none =>
    have hlabel : (loadHeater (.map entries)).label = (loadHeater (.map entries)).id := by
      simp [loadHeater, valueAt, hvalue, asString, resolveScalar]
    rw [hlabel]
    rintro hnil
    rw [hnil] at hid
    exact absurd hid (by decide)
  | some value =>
    have haccepts := accepts_of_validate h
      (hreach.tail (.member hmem (by rw [Member.key, hkey]; exact hvalue)))
    rw [d.label_spec] at haccepts
    obtain ⟨s, hs, hstring⟩ := haccepts
    have hlabel : (loadHeater (.map entries)).label = s := by
      simp [loadHeater, valueAt, hvalue, asString, resolveScalar, hs]
    rw [hlabel]
    exact hstring.nonEmpty rfl

/-- What the loader gives is what the provider relies on. -/
theorem loaded_of_validate (hstl : ReadsIds stl) (hroot : schema.root = d.root)
    (h : validate schema doc = []) :
    Loaded ((itemsOf (valueAt doc (lit "devices"))).map loadHeater) := by
  obtain ⟨items, path, hne, hitems, hreach⟩ := exists_devices hroot h
  rw [hitems]
  have hitem : ∀ {i : ℕ} {node : Node}, items[i]? = some node →
      Reaches (schema.site doc) ⟨.object d.device, node, indexPath path i⟩ := fun hi =>
    hreach.tail (.item hi)
  have hdevice : ∀ c ∈ items.map loadHeater, ∃ entries path, c = loadHeater (.map entries) ∧
      Reaches (schema.site doc) ⟨.object d.device, .map entries, path⟩ ∧
        idPattern.rmatch c.id = true := by
    intro c hc
    obtain ⟨node, hnode, rfl⟩ := List.mem_map.mp hc
    obtain ⟨i, hi⟩ := List.mem_iff_getElem?.mp hnode
    obtain ⟨entries, rfl, hid, -⟩ := exists_id hstl h (hitem hi)
    exact ⟨entries, _, rfl, hitem hi, hid⟩
  refine ⟨by simpa using hne, ?_, ?_, ?_, ?_, ?_, ?_⟩
  · rw [List.map_map, List.nodup_iff_getElem?_ne_getElem?]
    intro j i hji hlt heq
    rw [List.length_map] at hlt
    obtain ⟨-, -, -, hj⟩ := exists_id hstl h (hitem (List.getElem?_eq_getElem (hji.trans hlt)))
    obtain ⟨-, -, -, hi⟩ := exists_id hstl h (hitem (List.getElem?_eq_getElem hlt))
    simp only [List.getElem?_map, List.getElem?_eq_getElem (hji.trans hlt),
      List.getElem?_eq_getElem hlt, Option.map_some, Option.some.injEq, Function.comp] at heq
    rw [heq] at hj
    exact validate_eq_nil.mp h _ hreach _ (.repeatedMember (List.getElem?_eq_getElem hlt)
      (List.getElem?_eq_getElem (hji.trans hlt)) hji hi hj)
  · intro c hc
    obtain ⟨entries, path, rfl, -, hid⟩ := hdevice c hc
    exact hid
  · intro c hc
    obtain ⟨entries, path, rfl, hreach, hid⟩ := hdevice c hc
    exact label_ne_nil h hreach hid
  · intro c hc
    obtain ⟨entries, path, rfl, hreach, -⟩ := hdevice c hc
    have hmem : Member.scalar d.ambient ∈ d.device.members := by simp [Declared.device]
    have hkey : d.ambient.spec.key = lit "ambient_c" := by rw [d.ambient_spec]; rfl
    change ((asDouble (Entries.valueAt entries (lit "ambient_c"))).getD
      (binary64.round 20)).isFinite = true
    rcases asDouble_of_validate h hreach hmem (by rw [d.ambient_spec]; rfl) with
      hnone | ⟨v, hv, haccepts⟩
    · rw [← hkey, hnone]
      exact Value.isFinite_of_toRat
        (by simpa using toRat_round_int (n := 20) (by norm_num) :
          (binary64.round 20).toRat = some 20)
    · rw [← hkey, hv]
      exact haccepts.finite
  · intro c hc
    obtain ⟨entries, path, rfl, hreach, -⟩ := hdevice c hc
    exact positive_of_validate h hreach (by simp [Declared.device]) d.maxRise_spec positive_fifty
  · intro c hc
    obtain ⟨entries, path, rfl, hreach, -⟩ := hdevice c hc
    exact positive_of_validate h hreach (by simp [Declared.device]) d.rated_spec positive_hundred

/-- Whatever file `load_config` accepts, the heaters it returns are what the provider relies
on. -/
theorem loadConfig_loaded (hstl : ReadsIds stl) {path : Bytes} {doc : Node}
    {heaters : List HeaterConfig} (h : loadConfig stl path doc = .ok heaters) : Loaded heaters := by
  obtain ⟨schema, d, hschema, hroot⟩ := exists_configSchema hstl.compiles
  unfold loadConfig at h
  rw [hschema] at h
  change (match validate schema doc with
    | [] => .ok ((itemsOf (valueAt doc (lit "devices"))).map loadHeater)
    | errors => .error (lit "invalid config '" ++ path ++ lit "':\n" ++ formatErrors errors)) =
      Except.ok heaters at h
  split at h
  · next hnil =>
    obtain rfl := Except.ok.inj h
    exact loaded_of_validate hstl hroot hnil
  · cases h

end Contract

/-- A library that knows the pattern of an id, besides the addresses. -/
def stlForIds : Stl where
  regexError _ := none
  regexSearch pattern text :=
    if pattern = kIdPattern then idPattern.rmatch text else i2cHexPattern.rmatch text
  regexSearch_i2c text := by rw [if_neg (by decide)]
  formatDouble := exactText
  formatDouble_inj := exactText_inj

theorem readsIds_stlForIds : ReadsIds stlForIds :=
  ⟨rfl, fun text => by simp [stlForIds]⟩

/-- Two heaters, one with a rating of its own. -/
def benchDoc : Node :=
  .map [(plain "devices", .sequence
    [.map [(plain "id", plain "bench")],
      .map [(plain "id", plain "oven_2"), (plain "rated_w", plain "1.5e3")]])]

theorem loadConfig_bench : (loadConfig stlForIds (lit "bench.yaml") benchDoc).toBool = true := by
  decide +kernel

theorem loadConfig_loaded_bench :
    ∃ heaters, loadConfig stlForIds (lit "bench.yaml") benchDoc = .ok heaters ∧ Loaded heaters := by
  have hok := loadConfig_bench
  cases h : loadConfig stlForIds (lit "bench.yaml") benchDoc with
  | error e => rw [h] at hok; cases hok
  | ok heaters => exact ⟨heaters, rfl, loadConfig_loaded readsIds_stlForIds h⟩

end ProviderSdk.Reference

import ProviderSdk.Declaration

/-!
# Checking a declaration tree

The checks of `src/anolis/provider_sdk/config.cpp` that the constructor of `Schema` makes
on a declaration tree. The constructor throws at the first inconsistency, with its path.
A `Schema` carries the proof that its root passed, so only trees the constructor accepts
can be one.
-/

namespace ProviderSdk.Config

open Floating Pattern

/-- What the toolkit takes from the C++ library : ECMAScript regular expressions, and
`std::format` of a `double`, which round-trips. -/
structure Stl where
  /-- What `std::regex` throws on a pattern, if it does. -/
  regexError : Bytes → Option Bytes
  /-- `std::regex_search`, of a pattern in a text. -/
  regexSearch : Bytes → Bytes → Bool
  /-- The address pattern is anchored, so searching for it is matching it. -/
  regexSearch_i2c : ∀ text, regexSearch kI2cHexPattern text = i2cHexPattern.rmatch text
  formatDouble : Double → Bytes
  formatDouble_inj : ∀ v w, v.isFinite = true → w.isFinite = true →
    formatDouble v = formatDouble w → v = w

/-- A finite double as an exact fraction. -/
def exactText : Double → Bytes
  | .nan => lit "nan"
  | .inf negative => if negative then lit "-inf" else lit "inf"
  | .zero negative => if negative then lit "-0" else lit "0"
  | .finite q _ => toStringInt q.num ++ chr '/' :: toStringNat q.den

theorem slash_not_mem_toStringNat (n : ℕ) : chr '/' ∉ toStringNat n := by
  intro h
  obtain ⟨d, hd, he⟩ := exists_digit_of_mem_toStringNat h
  have hn := congrArg UInt8.toNat he
  simp only [digitByte, UInt8.toNat_ofNat', show (chr '/').toNat = 47 from rfl] at hn
  omega

theorem slash_not_mem_toStringInt (i : ℤ) : chr '/' ∉ toStringInt i := by
  unfold toStringInt
  split_ifs
  · rw [List.mem_cons, not_or]
    exact ⟨by decide, slash_not_mem_toStringNat _⟩
  · exact slash_not_mem_toStringNat _

theorem exactText_inj (v w : Double) (hv : v.isFinite = true) (hw : w.isFinite = true)
    (h : exactText v = exactText w) : v = w := by
  have hslash : ∀ q : ℚ, chr '/' ∈ toStringInt q.num ++ chr '/' :: toStringNat q.den := by simp
  have hno : ∀ s : Bool, chr '/' ∉ exactText (.zero s) := by decide
  have hnum : ∀ q : ℚ, (toStringInt q.num ++ chr '/' :: toStringNat q.den).takeWhile
      (fun b => b ≠ chr '/') = toStringInt q.num := by
    intro q
    rw [List.takeWhile_append_of_pos]
    · simp
    · intro b hb
      simp only [ne_eq, decide_eq_true_eq]
      rintro rfl
      exact slash_not_mem_toStringInt _ hb
  cases v with
  | nan => simp [Value.isFinite, Value.toRat] at hv
  | inf s => simp [Value.isFinite, Value.toRat] at hv
  | zero s =>
    cases w with
    | nan => simp [Value.isFinite, Value.toRat] at hw
    | inf s => simp [Value.isFinite, Value.toRat] at hw
    | zero t =>
      revert h
      cases s <;> cases t <;> decide
    | finite q hq => exact absurd (h ▸ hslash q) (hno s)
  | finite q hq =>
    cases w with
    | nan => simp [Value.isFinite, Value.toRat] at hw
    | inf s => simp [Value.isFinite, Value.toRat] at hw
    | zero t => exact absurd (h ▸ hslash q) (hno t)
    | finite r hr =>
      have hn := congrArg (List.takeWhile (fun b => b ≠ chr '/')) h
      simp only [exactText] at hn
      rw [hnum, hnum] at hn
      have h' : toStringInt q.num ++ chr '/' :: toStringNat q.den =
          toStringInt r.num ++ chr '/' :: toStringNat r.den := h
      rw [hn] at h'
      have hden := toStringNat_inj (List.cons.inj (List.append_cancel_left h')).2
      have hqr : q = r := Rat.ext (toStringInt_inj hn) hden
      subst hqr
      rfl

/-- Numbers printed as exact fractions, and a search that knows one pattern besides the
addresses. -/
def Stl.exact : Stl where
  regexError _ := none
  regexSearch pattern text :=
    if pattern = lit "^[a-z]+$" then
      (many1 (oneOf (lit "abcdefghijklmnopqrstuvwxyz"))).rmatch text
    else i2cHexPattern.rmatch text
  regexSearch_i2c text := by rw [if_neg (by decide)]
  formatDouble := exactText
  formatDouble_inj := exactText_inj

/-! ## UTF-8 -/

/-- The length of the sequence a lead byte starts, and the range of its second byte. -/
def leadByte (lead : UInt8) : Option (ℕ × UInt8 × UInt8) :=
  if 0xC2 ≤ lead ∧ lead ≤ 0xDF then some (2, 0x80, 0xBF)
  else if lead = 0xE0 then some (3, 0xA0, 0xBF)
  else if (0xE1 ≤ lead ∧ lead ≤ 0xEC) ∨ lead = 0xEE ∨ lead = 0xEF then some (3, 0x80, 0xBF)
  else if lead = 0xED then some (3, 0x80, 0x9F)
  else if lead = 0xF0 then some (4, 0x90, 0xBF)
  else if 0xF1 ≤ lead ∧ lead ≤ 0xF3 then some (4, 0x80, 0xBF)
  else if lead = 0xF4 then some (4, 0x80, 0x8F)
  else none

def isContinuation (b : UInt8) : Bool :=
  0x80 ≤ b && b ≤ 0xBF

/-- Strict UTF-8 : no overlong form, no surrogate, nothing above U+10FFFF. -/
def isValidUtf8 : Bytes → Bool
  | [] => true
  | lead :: rest =>
    if lead < 0x80 then isValidUtf8 rest
    else
      match leadByte lead, rest with
      | some (2, lo, hi), b1 :: rest => lo ≤ b1 && b1 ≤ hi && isValidUtf8 rest
      | some (3, lo, hi), b1 :: b2 :: rest =>
        lo ≤ b1 && b1 ≤ hi && isContinuation b2 && isValidUtf8 rest
      | some (4, lo, hi), b1 :: b2 :: b3 :: rest =>
        lo ≤ b1 && b1 ≤ hi && isContinuation b2 && isContinuation b3 && isValidUtf8 rest
      | _, _ => false

/-! ## Fields -/

/-- Throws the message at the path, unless the condition holds. -/
def treeCheck (ok : Bool) (path message : Bytes) : Except LogicError Unit :=
  if ok then .ok () else .error (lit "config schema: " ++ path ++ lit ": " ++ message)

def checkUtf8 (value path what : Bytes) : Except LogicError Unit :=
  treeCheck (isValidUtf8 value) path (what ++ lit " is not valid UTF-8")

/-- `std::regex_search` of a pattern, if there is one. -/
def Stl.matches (stl : Stl) (pattern : Option Bytes) (value : Bytes) : Bool :=
  pattern.all fun p => stl.regexSearch p value

def isForbidden (spec : Field.Spec) (value : Bytes) : Bool :=
  spec.forbiddenValues.any fun forbidden => forbidden.value = value

def isEnumValue (spec : Field.Spec) (value : Bytes) : Bool :=
  spec.enumValues.any fun ev => ev.value = value

/-- A value that some constraint promises to accept passes the others. -/
def checkStringValueAgainstConstraints (stl : Stl) (spec : Field.Spec) (value path what : Bytes) :
    Except LogicError Unit := do
  treeCheck (!(spec.nonEmpty && value.isEmpty)) path (what ++ lit " violates non_empty()")
  treeCheck (!isForbidden spec value) path
    (what ++ lit " '" ++ value ++ lit "' is a forbidden value")
  treeCheck (stl.matches spec.pattern value) path
    (what ++ lit " '" ++ value ++ lit "' does not match pattern")

/-- The lower bound of a Number, minus infinity if it declares none. -/
def lowerBound (spec : Field.Spec) : Double :=
  (spec.minNumber <|> spec.exclusiveMinNumber).getD (.inf true)

def upperBound (spec : Field.Spec) : Double :=
  (spec.maxNumber <|> spec.exclusiveMaxNumber).getD (.inf false)

def checkTexts (spec : Field.Spec) (path : Bytes) : Except LogicError Unit := do
  checkUtf8 spec.key path (lit "key")
  checkUtf8 spec.title path (lit "title")
  checkUtf8 spec.description path (lit "description")
  checkUtf8 spec.placeholder path (lit "placeholder")
  spec.pattern.toList.forM fun p => checkUtf8 p path (lit "pattern")
  spec.enumValues.forM fun ev => do
    checkUtf8 ev.value path (lit "enum value")
    checkUtf8 ev.title path (lit "enum title")
  spec.constValue.toList.forM fun v => checkUtf8 v path (lit "const value")
  spec.forbiddenValues.forM fun forbidden => do
    checkUtf8 forbidden.value path (lit "forbidden value")
    checkUtf8 forbidden.message path (lit "forbidden-value message")
  spec.defaultString.toList.forM fun v => checkUtf8 v path (lit "default")

def checkDefaultString (stl : Stl) (spec : Field.Spec) (value path : Bytes) :
    Except LogicError Unit := do
  treeCheck (!(spec.nonEmpty && value.isEmpty)) path (lit "default violates non_empty()")
  treeCheck (spec.constValue.all fun c => value = c) path
    (lit "default contradicts const_value()")
  treeCheck (spec.enumValues.isEmpty || isEnumValue spec value) path
    (lit "default '" ++ value ++ lit "' is not an enum value")
  treeCheck (!isForbidden spec value) path
    (lit "default '" ++ value ++ lit "' is a forbidden value")
  treeCheck (stl.matches spec.pattern value) path
    (lit "default '" ++ value ++ lit "' does not match pattern")

/-- The bounds an integer default must respect. -/
def integerBounds (spec : Field.Spec) : ℤ × ℤ :=
  if spec.kind = .i2cAddress then (kI2cAddressMin, kI2cAddressMax)
  else (spec.minInt.getD (-2 ^ 63), spec.maxInt.getD (2 ^ 63 - 1))

def outsideNumberBounds (spec : Field.Spec) (v : Double) : Bool :=
  spec.minNumber.any (fun m => v.lt m) || spec.maxNumber.any (fun m => m.lt v) ||
    spec.exclusiveMinNumber.any (fun m => v.le m) || spec.exclusiveMaxNumber.any (fun m => m.le v)

def checkField (stl : Stl) (spec : Field.Spec) (path : Bytes) (inArrayItem : Bool) :
    Except LogicError Unit := do
  checkTexts spec path
  treeCheck (!(spec.unique && !inArrayItem)) path
    (lit "unique() is only meaningful on fields inside an object-array item")
  treeCheck (!(spec.constValue.isSome && !spec.enumValues.isEmpty)) path
    (lit "const_value() and enum_value() are mutually exclusive")
  treeCheck (!(spec.minInt.any fun min => spec.maxInt.any fun max => max < min)) path
    (lit "min_int exceeds max_int")
  treeCheck (!((upperBound spec).lt (lowerBound spec) ||
      ((spec.exclusiveMinNumber.isSome || spec.exclusiveMaxNumber.isSome) &&
        (lowerBound spec).eq (upperBound spec)))) path
    (lit "lower number bound exceeds (or excludes) the upper bound")
  spec.pattern.toList.forM fun p =>
    treeCheck (stl.regexError p).isNone path
      (lit "pattern does not compile: " ++ (stl.regexError p).getD [])
  spec.constValue.toList.forM fun v =>
    checkStringValueAgainstConstraints stl spec v path (lit "const value")
  spec.enumValues.forM fun ev =>
    checkStringValueAgainstConstraints stl spec ev.value path (lit "enum value")
  spec.defaultString.toList.forM fun v => checkDefaultString stl spec v path
  spec.defaultInt.toList.forM fun v =>
    treeCheck (decide ((integerBounds spec).1 ≤ v ∧ v ≤ (integerBounds spec).2)) path
      (lit "default " ++ toStringInt v ++ lit " is outside the declared bounds")
  spec.defaultNumber.toList.forM fun v =>
    treeCheck (!outsideNumberBounds spec v) path
      (lit "default " ++ stl.formatDouble v ++ lit " is outside the declared bounds")

/-! ## Objects -/

/-- The String fields among the members, which can be discriminators. -/
def stringScalar (members : List Member) (key : Bytes) : Option Field.Spec :=
  members.findSome? fun
    | .scalar f => if f.spec.key = key ∧ f.spec.kind = .string then some f.spec else none
    | _ => none

/-- The values a String field declares, if it declares any. -/
def acceptedValues (spec : Field.Spec) : List Bytes :=
  spec.enumValues.map Field.EnumValue.value ++ spec.constValue.toList

def requiredKeys (members : List Member) : List Bytes :=
  (members.filter Member.required).map Member.key

def quotedKey (key : Bytes) : Bytes :=
  lit "'" ++ key ++ lit "'"

def checkConditional (members : List Member) (path : Bytes) (seen : List (Bytes × Bytes))
    (c : Object.Conditional) : Except LogicError Unit := do
  let keys := members.map Member.key
  let condPath := path ++ lit ".when(" ++ c.key ++ lit "==" ++ c.equals ++ lit ")"
  checkUtf8 c.equals condPath (lit "equals value")
  treeCheck (stringScalar members c.key).isSome condPath
    (lit "discriminator is not a declared String field")
  let accepted := ((stringScalar members c.key).map acceptedValues).getD []
  treeCheck (accepted.isEmpty || decide (c.equals ∈ accepted)) condPath
    (quotedKey c.equals ++ lit " is not among the discriminator's declared values")
  treeCheck (decide ((c.key, c.equals) ∉ seen)) condPath
    (lit "duplicate branch for this discriminator value")
  c.branch.requireKeys.forM fun key =>
    treeCheck (decide (key ∈ keys)) condPath
      (lit "require(" ++ quotedKey key ++ lit ") references an undeclared member")
  c.branch.forbidKeys.forM fun key => do
    treeCheck (decide (key ∈ keys)) condPath
      (lit "forbid(" ++ quotedKey key ++ lit ") references an undeclared member")
    treeCheck (decide (key ∉ requiredKeys members)) condPath
      (lit "forbid(" ++ quotedKey key ++ lit ") contradicts the member being required")
    treeCheck (decide (key ∉ c.branch.requireKeys)) condPath
      (quotedKey key ++ lit " is both required and forbidden in this branch")

def checkConditionals (members : List Member) (path : Bytes) :
    List (Bytes × Bytes) → List Object.Conditional → Except LogicError Unit
  | _, [] => .ok ()
  | seen, c :: cs => do
    checkConditional members path seen c
    checkConditionals members path ((c.key, c.equals) :: seen) cs

def checkAlsoRequired (members : List Member) (depPath key : Bytes) :
    List Bytes → List Bytes → Except LogicError Unit
  | _, [] => .ok ()
  | seen, k :: ks => do
    treeCheck (decide (k ∈ members.map Member.key)) depPath
      (quotedKey k ++ lit " references an undeclared member")
    treeCheck (decide (k ≠ key)) depPath (lit "a key cannot depend on itself")
    treeCheck (decide (k ∉ seen)) depPath
      (lit "duplicate " ++ quotedKey k ++ lit " in also_required")
    checkAlsoRequired members depPath key (k :: seen) ks

def checkDependents (members : List Member) (path : Bytes) :
    List Bytes → List Object.DependentRequired → Except LogicError Unit
  | _, [] => .ok ()
  | seen, d :: ds => do
    let depPath := path ++ lit ".dependent_required(" ++ d.key ++ lit ")"
    treeCheck (decide (d.key ∈ members.map Member.key)) depPath
      (lit "references an undeclared member")
    treeCheck (decide (d.key ∉ seen)) depPath (lit "duplicate dependent_required key")
    checkAlsoRequired members depPath d.key [] d.alsoRequired
    checkDependents members path (d.key :: seen) ds

def checkDeprecated (members : List Member) (path : Bytes) (d : Object.DeprecatedKey) :
    Except LogicError Unit := do
  checkUtf8 d.key path (lit "deprecated key")
  checkUtf8 d.message path (lit "deprecated-key message")
  treeCheck (decide (d.key ∉ members.map Member.key)) (path ++ lit "." ++ d.key)
    (lit "deprecated_key collides with a declared member")

def checkLimits (spec : Array.Spec) (path : Bytes) : Except LogicError Unit := do
  checkUtf8 spec.title path (lit "title")
  checkUtf8 spec.description path (lit "description")
  treeCheck (!(spec.minItems.any fun min => spec.maxItems.any fun max => max < min)) path
    (lit "min_items exceeds max_items")

mutual

def checkObject (stl : Stl) : Object → Bytes → Bool → Except LogicError Unit
  | ⟨spec, members⟩, path, inArrayItem => do
    checkUtf8 spec.title path (lit "title")
    checkUtf8 spec.description path (lit "description")
    checkMembers stl members path inArrayItem
    checkConditionals members path [] spec.conditionals
    checkDependents members path [] spec.dependentRequired
    spec.deprecatedKeys.forM (checkDeprecated members path)

def checkMembers (stl : Stl) : List Member → Bytes → Bool → Except LogicError Unit
  | [], _, _ => .ok ()
  | m :: ms, path, inArrayItem => do
    checkMember stl m path inArrayItem
    checkMembers stl ms path inArrayItem

def checkMember (stl : Stl) : Member → Bytes → Bool → Except LogicError Unit
  | .scalar f, path, inArrayItem => do
    checkUtf8 f.spec.key (path ++ lit "." ++ f.spec.key) (lit "key")
    checkField stl f.spec (path ++ lit "." ++ f.spec.key) inArrayItem
  | .object key _ o, path, _ => do
    checkUtf8 key (path ++ lit "." ++ key) (lit "key")
    checkObject stl o (path ++ lit "." ++ key) false
  | .array key _ a, path, _ => do
    checkUtf8 key (path ++ lit "." ++ key) (lit "key")
    checkArray stl a (path ++ lit "." ++ key)

def checkArray (stl : Stl) : Array → Bytes → Except LogicError Unit
  | .scalars item _ spec, path => do
    checkLimits spec path
    treeCheck (!item.spec.required) path
      (lit "required() on an array item spec is meaningless")
    treeCheck (!item.spec.unique) path
      (lit "use Array::unique() for scalar-array uniqueness")
    checkField stl item.spec (path ++ lit "[]") false
  | .objects item spec, path => do
    checkLimits spec path
    checkObject stl item (path ++ lit "[]") true

end

/-! ## Schemas -/

/-- A schema that was constructed without an exception, with the texts that its setters
accepted. -/
structure Schema (stl : Stl) where
  root : Object
  distinct : root.Distinct
  checked : checkObject stl root (lit "root") false = .ok ()
  schemaId : Option Bytes := none
  schemaTitle : Option Bytes := none
  schemaDescription : Option Bytes := none
  texts_utf8 : ∀ text, schemaId = some text ∨ schemaTitle = some text ∨
    schemaDescription = some text → isValidUtf8 text = true

theorem isValidUtf8_of_none (text : Bytes)
    (h : (none : Option Bytes) = some text ∨ (none : Option Bytes) = some text ∨
      (none : Option Bytes) = some text) : isValidUtf8 text = true := by
  simp at h

/-- The constructor, on an object the builders built. -/
def Schema.new (stl : Stl) (root : Object) (h : root.Distinct) : Except LogicError (Schema stl) :=
  match hc : checkObject stl root (lit "root") false with
  | .ok () => .ok ⟨root, h, hc, none, none, none, isValidUtf8_of_none⟩
  | .error e => .error e

namespace Schema

variable {stl : Stl} (schema : Schema stl) (value : Bytes)

theorem texts_utf8_id (h : isValidUtf8 value = true) (text : Bytes)
    (ht : some value = some text ∨ schema.schemaTitle = some text ∨
      schema.schemaDescription = some text) : isValidUtf8 text = true := by
  rcases ht with ht | ht
  · rwa [← Option.some.inj ht]
  · exact schema.texts_utf8 text (.inr ht)

theorem texts_utf8_title (h : isValidUtf8 value = true) (text : Bytes)
    (ht : schema.schemaId = some text ∨ some value = some text ∨
      schema.schemaDescription = some text) : isValidUtf8 text = true := by
  rcases ht with ht | ht | ht
  · exact schema.texts_utf8 text (.inl ht)
  · rwa [← Option.some.inj ht]
  · exact schema.texts_utf8 text (.inr (.inr ht))

theorem texts_utf8_description (h : isValidUtf8 value = true) (text : Bytes)
    (ht : schema.schemaId = some text ∨ schema.schemaTitle = some text ∨
      some value = some text) : isValidUtf8 text = true := by
  rcases ht with ht | ht | ht
  · exact schema.texts_utf8 text (.inl ht)
  · exact schema.texts_utf8 text (.inr (.inl ht))
  · rwa [← Option.some.inj ht]

/-- The setters throw on a text that is not UTF-8. -/
def id : Except LogicError (Schema stl) :=
  if h : isValidUtf8 value = true then
    .ok { schema with schemaId := some value, texts_utf8 := schema.texts_utf8_id value h }
  else .error (lit "config schema: $id is not valid UTF-8")

def title : Except LogicError (Schema stl) :=
  if h : isValidUtf8 value = true then
    .ok { schema with schemaTitle := some value, texts_utf8 := schema.texts_utf8_title value h }
  else .error (lit "config schema: title is not valid UTF-8")

def description : Except LogicError (Schema stl) :=
  if h : isValidUtf8 value = true then
    .ok { schema with
      schemaDescription := some value, texts_utf8 := schema.texts_utf8_description value h }
  else .error (lit "config schema: description is not valid UTF-8")

end Schema

end ProviderSdk.Config

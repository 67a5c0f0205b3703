import ProviderSdk.Bytes
import ProviderSdk.Lib.Floating
import ProviderSdk.Lib.Numeral
import ProviderSdk.Lib.Pattern

/-!
# Scalar resolution

The resolver of `src/anolis/provider_sdk/config_validate.cpp`, which types a YAML scalar
by its tag and text, and the typed extraction helpers that share it with the validator.
`std::regex_match` is `rmatch` of the pattern the source spells out, and
`std::from_chars` reads the longest numeral, with exact arithmetic up to one rounding.
-/

namespace ProviderSdk.Config

open Pattern Numeral Floating

/-- A `double`. -/
abbrev Double := Floating.Value binary64

/-- The values of `int64_t`. -/
def FitsInt64 (i : ℤ) : Prop :=
  -2 ^ 63 ≤ i ∧ i < 2 ^ 63

instance (i : ℤ) : Decidable (FitsInt64 i) :=
  inferInstanceAs (Decidable (_ ∧ _))

/-- `static_cast<double>` of an `int64_t`. -/
def doubleOfInt (i : ℤ) : Double :=
  binary64.round i

/-- A parsed YAML node. A map keeps its entries in document order, its keys being nodes. -/
inductive Node where
  | null
  | scalar (tag text : Bytes)
  | sequence (items : List Node)
  | map (entries : List (Node × Node))

/-- The YAML 1.2 core-schema type of a node. -/
inductive ScalarKind where
  | null
  | bool
  | int
  | float
  | string
  | nonScalar
  deriving DecidableEq

/-- The core-schema value of a node. -/
inductive Resolved where
  | nonScalar
  | null
  | bool (value : Bool)
  | int (value : ℤ)
  | float (value : Double)
  | string (value : Bytes)
  deriving DecidableEq

def Resolved.kind : Resolved → ScalarKind
  | nonScalar => .nonScalar
  | null => .null
  | bool _ => .bool
  | int _ => .int
  | float _ => .float
  | string _ => .string

/-! ## `std::from_chars` -/

/-- What `std::from_chars` reports, with the text it did not consume. -/
inductive FromChars (α : Type) where
  | ok (value : α) (rest : Bytes)
  | outOfRange (rest : Bytes)
  | invalidArgument

/-- `std::from_chars` into an `int64_t` : a minus sign or none, and digits of the base. -/
def fromCharsInt (base : ℕ) (text : Bytes) : FromChars ℤ :=
  let negative := text.head? = some (chr '-')
  let digits := scanDigits base (if negative then text.tail else text)
  let v : ℤ := if negative then -(value base digits.1 : ℤ) else (value base digits.1 : ℤ)
  if digits.1 = [] then .invalidArgument
  else if FitsInt64 v then .ok v digits.2
  else .outOfRange digits.2

/-- The `double` nearest `q`. Out of range means that `q` rounds to an infinity, or to
zero without being zero. -/
def fromCharsRounded (q : ℚ) (rest : Bytes) : FromChars Double :=
  match binary64.round q with
  | .nan => .invalidArgument
  | .inf _ => .outOfRange rest
  | .zero s => if q = 0 then .ok (.zero s) rest else .outOfRange rest
  | .finite r h => .ok (.finite r h) rest

/-- `std::from_chars` into a `double`, of a text without a sign. -/
def fromCharsDouble (text : Bytes) : FromChars Double :=
  match scanDecimal text with
  | none => .invalidArgument
  | some (d, rest) => fromCharsRounded d.toRat rest

/-! ## Plain scalars -/

def isCoreNull (text : Bytes) : Bool :=
  text.isEmpty || text = lit "~" || text = lit "null" || text = lit "Null" || text = lit "NULL"

def coreBool (text : Bytes) : Option Bool :=
  if text = lit "true" ∨ text = lit "True" ∨ text = lit "TRUE" then some true
  else if text = lit "false" ∨ text = lit "False" ∨ text = lit "FALSE" then some false
  else none

/-- `[0-9]`. -/
def decimalDigit : RegularExpression UInt8 :=
  oneOf (lit "0123456789")

/-- `[-+]?`. -/
def optionalSign : RegularExpression UInt8 :=
  opt (oneOf (lit "-+"))

/-- `^[-+]?[0-9]+$`. -/
def intDecPattern : RegularExpression UInt8 :=
  optionalSign * many1 decimalDigit

/-- `^0o[0-7]+$`. -/
def intOctPattern : RegularExpression UInt8 :=
  word (lit "0o") * many1 (oneOf (lit "01234567"))

/-- `^0x[0-9a-fA-F]+$`. -/
def intHexPattern : RegularExpression UInt8 :=
  word (lit "0x") * many1 (oneOf (lit "0123456789abcdefABCDEF"))

/-- `(\.[0-9]+|[0-9]+(\.[0-9]*)?)`. -/
def mantissaPattern : RegularExpression UInt8 :=
  word (lit ".") * many1 decimalDigit +
    many1 decimalDigit * opt (word (lit ".") * many decimalDigit)

/-- `[eE][-+]?[0-9]+`. -/
def exponentPattern : RegularExpression UInt8 :=
  oneOf (lit "eE") * (optionalSign * many1 decimalDigit)

/-- `^[-+]?(\.[0-9]+|[0-9]+(\.[0-9]*)?)([eE][-+]?[0-9]+)?$`. -/
def floatPattern : RegularExpression UInt8 :=
  optionalSign * (mantissaPattern * opt exponentPattern)

/-- `^([-+]?\.(inf|Inf|INF)|\.(nan|NaN|NAN))$`. -/
def floatSpecialPattern : RegularExpression UInt8 :=
  optionalSign * (word (lit ".") * anyWord [lit "inf", lit "Inf", lit "INF"]) +
    word (lit ".") * anyWord [lit "nan", lit "NaN", lit "NAN"]

/-- The whole of `text` after `skipPrefix` bytes as an `int64_t`. -/
def parseInt (text : Bytes) (base skipPrefix : ℕ) : Option ℤ :=
  if 0 < skipPrefix ∧ (text.head? = some (chr '+') ∨ text.head? = some (chr '-')) then none
  else
    let first :=
      if base = 10 ∧ text.head? = some (chr '+') then text.drop 1 else text.drop skipPrefix
    match fromCharsInt base first with
    | .ok v [] => some v
    | _ => none

/-- The side an out-of-range magnitude is taken to be out on, from the sign of its
exponent, or from a leading `0.` if it has none. True is towards zero. -/
def underflows (magnitude : Bytes) : Bool :=
  match magnitude.dropWhile fun b => !(b = chr 'e' || b = chr 'E') with
  | [] => magnitude.take 2 = lit "0."
  | [_] => false
  | _ :: sign :: _ => sign = chr '-'

/-- The float branch of `resolvePlain`. -/
def resolveFloat (raw : Bytes) : Resolved :=
  let negative := raw.head? = some (chr '-')
  let magnitude := if raw.head? = some (chr '+') ∨ negative then raw.drop 1 else raw
  match fromCharsDouble magnitude with
  | .ok parsed [] => .float (if negative then parsed.neg else parsed)
  | .outOfRange [] =>
    if underflows magnitude then .float (.zero negative) else .float (.inf negative)
  | _ => .string raw

/-- The integer branches of `resolvePlain`. A text they match but cannot hold falls
through to the next branch. -/
def resolveInt (raw : Bytes) : Option ℤ :=
  (if intDecPattern.rmatch raw then parseInt raw 10 0 else none) <|>
  (if intHexPattern.rmatch raw then parseInt raw 16 2 else none) <|>
  (if intOctPattern.rmatch raw then parseInt raw 8 2 else none)

/-- Core-schema resolution of the text of a plain scalar. -/
def resolvePlain (raw : Bytes) : Resolved :=
  if isCoreNull raw then .null
  else
    match coreBool raw with
    | some b => .bool b
    | none =>
      match resolveInt raw with
      | some v => .int v
      | none =>
        if floatSpecialPattern.rmatch raw then
          -- the infinities end in `f` or `F`, the others in `n` or `N`
          if raw.getLast? = some (chr 'f') ∨ raw.getLast? = some (chr 'F') then
            .float (.inf (raw.head? = some (chr '-')))
          else .float .nan
        else if floatPattern.rmatch raw then resolveFloat raw
        else .string raw

/-! ## Nodes -/

/-- Quoted scalars (tag `!`) and explicit strings are strings whatever their text. -/
def Node.resolve : Node → Resolved
  | null => .null
  | scalar tag raw =>
    if tag = lit "!" ∨ tag = lit "tag:yaml.org,2002:str" then .string raw else resolvePlain raw
  | sequence _ => .nonScalar
  | map _ => .nonScalar

/-- The resolver takes an undefined node too, which is not a scalar. -/
def resolveScalar : Option Node → Resolved
  | none => .nonScalar
  | some node => node.resolve

def kindName : ScalarKind → Bytes
  | .null => lit "null"
  | .bool => lit "a boolean"
  | .int => lit "an integer"
  | .float => lit "a number"
  | .string => lit "a string"
  | .nonScalar => lit "not a scalar"

/-- JSON Schema `integer` : an integer, or a float without a fraction, in `int64_t`. -/
def integerOf : Resolved → Option ℤ
  | .int i => some i
  | .float v =>
    match v.toInt with
    | some i => if FitsInt64 i then some i else none
    | none => none
  | _ => none

def kI2cAddressMin : ℤ :=
  0x08

def kI2cAddressMax : ℤ :=
  0x77

/-- The text of the address pattern, which the schema emits. -/
def kI2cHexPattern : Bytes :=
  lit "^0[xX](0[89a-fA-F]|[1-6][0-9a-fA-F]|7[0-7])$"

/-- The pattern `kI2cHexPattern` spells out. -/
def i2cHexPattern : RegularExpression UInt8 :=
  word (lit "0") * (oneOf (lit "xX") *
    (word (lit "0") * oneOf (lit "89abcdefABCDEF") +
      oneOf (lit "123456") * oneOf (lit "0123456789abcdefABCDEF") +
      word (lit "7") * oneOf (lit "01234567")))

def inI2cRange (v : ℤ) : Option ℤ :=
  if v < kI2cAddressMin ∨ kI2cAddressMax < v then none else some v

def i2cAddressOf (resolved : Resolved) : Option ℤ :=
  match integerOf resolved, resolved with
  | some v, _ => inI2cRange v
  | none, .string s =>
    if i2cHexPattern.rmatch s then
      match parseInt s 16 2 with
      | some v => inI2cRange v
      | none => none
    else none
  | none, _ => none

/-! ## Typed extraction -/

def resolvedKind (node : Option Node) : ScalarKind :=
  (resolveScalar node).kind

def asString (node : Option Node) : Option Bytes :=
  match resolveScalar node with
  | .string s => some s
  | _ => none

def asInt64 (node : Option Node) : Option ℤ :=
  integerOf (resolveScalar node)

def asDouble (node : Option Node) : Option Double :=
  match resolveScalar node with
  | .int i => some (doubleOfInt i)
  | .float v => some v
  | _ => none

def asBool (node : Option Node) : Option Bool :=
  match resolveScalar node with
  | .bool b => some b
  | _ => none

def parseI2cAddress (node : Option Node) : Option ℤ :=
  i2cAddressOf (resolveScalar node)

end ProviderSdk.Config

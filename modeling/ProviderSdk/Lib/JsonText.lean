import ProviderSdk.Lib.Numeral
import ProviderSdk.Lib.Pattern
import ProviderSdk.Lib.Utf8

/-!
# JSON text

The grammar of RFC 8259 over bytes, with the value each text stands for (`Derive`), and a
parser. A string's value is the UTF-8 of its characters, a number's is its token, and an
object keeps its members in order, repeated ones too.

`parse_of_derives` : the parser reads every text of the grammar as the value it stands
for. So a text stands for one value at most (`Derives.unique`).
-/

namespace JsonText

open Pattern Numeral

/-- A JSON value, as a text gives it. -/
inductive Value where
  | null
  | bool (b : Bool)
  | number (token : List UInt8)
  | string (s : List UInt8)
  | array (items : List Value)
  | object (members : List (List UInt8 × Value))

/-! ## Tokens -/

/-- Space, tab, line feed and carriage return. -/
def isWs (b : UInt8) : Bool :=
  b = 32 || b = 9 || b = 10 || b = 13

/-- Insignificant whitespace. -/
def Ws (w : List UInt8) : Prop :=
  ∀ b ∈ w, isWs b = true

theorem ws_nil : Ws [] :=
  fun _ hb => absurd hb List.not_mem_nil

theorem Ws.append {w w' : List UInt8} (hw : Ws w) (hw' : Ws w') : Ws (w ++ w') := by
  intro b hb
  rcases List.mem_append.mp hb with hb | hb
  · exact hw b hb
  · exact hw' b hb

def digits : List UInt8 :=
  [48, 49, 50, 51, 52, 53, 54, 55, 56, 57]

/-- `-?(0|[1-9][0-9]*)(\.[0-9]+)?([eE][-+]?[0-9]+)?`. -/
def number : RegularExpression UInt8 :=
  opt (word [45]) * ((word [48] + oneOf digits.tail * many (oneOf digits)) *
    (opt (word [46] * many1 (oneOf digits)) *
      opt (oneOf [101, 69] * (opt (oneOf [45, 43]) * many1 (oneOf digits)))))

/-- The bytes of numbers. -/
def isNumberByte (b : UInt8) : Bool :=
  b ∈ [43, 45, 46, 69, 101] ++ digits

/-- What a backslash and a byte stand for. -/
def escapes : List (UInt8 × UInt8) :=
  [(34, 34), (92, 92), (47, 47), (98, 8), (102, 12), (110, 10), (114, 13), (116, 9)]

/-- Four hexadecimal digits. -/
def codeUnit (a b c d : UInt8) : Option ℕ :=
  if [a, b, c, d].all (Numeral.isDigit 16) then some (Numeral.value 16 [a, b, c, d]) else none

/-- The characters between the quotes of a string, and their UTF-8. -/
inductive Chars : List UInt8 → List UInt8 → Prop
  | nil : Chars [] []
  | plain {b : UInt8} {t s : List UInt8} (hb : 32 ≤ b.toNat ∧ b ≠ 34 ∧ b ≠ 92)
      (h : Chars t s) : Chars (b :: t) (b :: s)
  | escape {c d : UInt8} {t s : List UInt8} (hc : (c, d) ∈ escapes) (h : Chars t s) :
      Chars (92 :: c :: t) (d :: s)
  | unicode {a b c d : UInt8} {t s : List UInt8} {x : Char}
      (hx : codeUnit a b c d = some x.val.toNat) (h : Chars t s) :
      Chars (92 :: 117 :: a :: b :: c :: d :: t) (String.utf8EncodeChar x ++ s)
  | pair {a b c d a' b' c' d' : UInt8} {t s : List UInt8} {high low : ℕ} {x : Char}
      (hhigh : codeUnit a b c d = some high) (hlow : codeUnit a' b' c' d' = some low)
      (hrange : 0xD800 ≤ high ∧ high < 0xDC00 ∧ 0xDC00 ≤ low ∧ low < 0xE000)
      (hx : x.val.toNat = 0x10000 + (high - 0xD800) * 0x400 + (low - 0xDC00)) (h : Chars t s) :
      Chars (92 :: 117 :: a :: b :: c :: d :: 92 :: 117 :: a' :: b' :: c' :: d' :: t)
        (String.utf8EncodeChar x ++ s)

/-! ## What numbers stand for -/

/-- The exact number of a token. -/
def tokenRat (t : List UInt8) : Option ℚ :=
  match scanDecimal (scanSign t).2 with
  | some (d, []) => some (if (scanSign t).1 then -d.toRat else d.toRat)
  | _ => none

/-- The exact integer of a token without a fraction or an exponent. -/
def tokenInt (t : List UInt8) : Option ℤ :=
  if (scanSign t).2.all (isDigit 10) then
    some (if (scanSign t).1 then -(value 10 (scanSign t).2 : ℤ) else value 10 (scanSign t).2)
  else none

/-! ## The grammar -/

/-- What a part of a text stands for. -/
inductive Node where
  | value (v : Value)
  /-- The items of an array. -/
  | items (vs : List Value)
  /-- The members of an object. -/
  | members (ms : List (List UInt8 × Value))

/-- A part of a text, without the whitespace around a value. -/
inductive Derive : List UInt8 → Node → Prop
  | null : Derive [110, 117, 108, 108] (.value .null)
  | true : Derive [116, 114, 117, 101] (.value (.bool true))
  | false : Derive [102, 97, 108, 115, 101] (.value (.bool false))
  | number {t : List UInt8} (h : number.rmatch t = true) : Derive t (.value (.number t))
  | string {t s : List UInt8} (h : Chars t s) : Derive (34 :: (t ++ [34])) (.value (.string s))
  | emptyArray {w : List UInt8} (hw : Ws w) : Derive (91 :: (w ++ [93])) (.value (.array []))
  | array {t : List UInt8} {vs : List Value} (h : Derive t (.items vs)) :
      Derive (91 :: (t ++ [93])) (.value (.array vs))
  | emptyObject {w : List UInt8} (hw : Ws w) : Derive (123 :: (w ++ [125])) (.value (.object []))
  | object {t : List UInt8} {ms : List (List UInt8 × Value)} (h : Derive t (.members ms)) :
      Derive (123 :: (t ++ [125])) (.value (.object ms))
  | item {w t w' : List UInt8} {v : Value} (hw : Ws w) (hw' : Ws w') (h : Derive t (.value v)) :
      Derive (w ++ (t ++ w')) (.items [v])
  | items {w t w' ts : List UInt8} {v : Value} {vs : List Value} (hw : Ws w) (hw' : Ws w')
      (h : Derive t (.value v)) (hs : Derive ts (.items vs)) :
      Derive (w ++ (t ++ (w' ++ 44 :: ts))) (.items (v :: vs))
  | member {w₁ k w₂ w₃ t w₄ key : List UInt8} {v : Value} (hw₁ : Ws w₁) (hk : Chars k key)
      (hw₂ : Ws w₂) (hw₃ : Ws w₃) (h : Derive t (.value v)) (hw₄ : Ws w₄) :
      Derive (w₁ ++ 34 :: (k ++ 34 :: (w₂ ++ 58 :: (w₃ ++ (t ++ w₄))))) (.members [(key, v)])
  | members {w₁ k w₂ w₃ t w₄ ts key : List UInt8} {v : Value} {ms : List (List UInt8 × Value)}
      (hw₁ : Ws w₁) (hk : Chars k key) (hw₂ : Ws w₂) (hw₃ : Ws w₃) (h : Derive t (.value v))
      (hw₄ : Ws w₄) (hs : Derive ts (.members ms)) :
      Derive (w₁ ++ 34 :: (k ++ 34 :: (w₂ ++ 58 :: (w₃ ++ (t ++ (w₄ ++ 44 :: ts))))))
        (.members ((key, v) :: ms))

/-- A whole text : UTF-8, and a value with whitespace around it. -/
def Derives (text : List UInt8) (v : Value) : Prop :=
  Utf8.WellFormed text ∧
    ∃ w t w', Ws w ∧ Ws w' ∧ Derive t (.value v) ∧ text = w ++ (t ++ w')

/-! ## The parser -/

def skipWs (s : List UInt8) : List UInt8 :=
  s.dropWhile isWs

/-- The character of a scalar value. -/
def charOf (n : ℕ) : Option Char :=
  if h : n.isValidChar then some (Char.ofNatAux n h) else none

/-- The bytes after `\u`. -/
def parseUnicode : List UInt8 → Option (List UInt8 × List UInt8)
  | a :: b :: c :: d :: rest =>
    match codeUnit a b c d with
    | none => none
    | some u =>
      match charOf u with
      | some x => some (String.utf8EncodeChar x, rest)
      | none =>
        -- a surrogate, so the other half has to follow
        match rest with
        | 92 :: 117 :: a :: b :: c :: d :: rest =>
          match codeUnit a b c d with
          | none => none
          | some low =>
            if u < 0xDC00 ∧ 0xDC00 ≤ low ∧ low < 0xE000 then
              (charOf (0x10000 + (u - 0xD800) * 0x400 + (low - 0xDC00))).map fun x =>
                (String.utf8EncodeChar x, rest)
            else none
        | _ => none
  | _ => none

/-- The bytes after a backslash. -/
def parseEscape : List UInt8 → Option (List UInt8 × List UInt8)
  | [] => none
  | c :: rest =>
    match escapes.lookup c with
    | some d => some ([d], rest)
    | none => if c = 117 then parseUnicode rest else none

/-- A string up to its closing quote. -/
def parseChars : ℕ → List UInt8 → Option (List UInt8 × List UInt8)
  | 0, _ => none
  | _ + 1, [] => none
  | n + 1, b :: rest =>
    if b = 34 then some ([], rest)
    else if b = 92 then
      match parseEscape rest with
      | none => none
      | some (s, rest) => (parseChars n rest).map fun p => (s ++ p.1, p.2)
    else if b.toNat < 32 then none
    else (parseChars n rest).map fun p => (b :: p.1, p.2)

/-- A literal name or a number. -/
def parseAtom (s : List UInt8) : Option (Value × List UInt8) :=
  if s.take 4 = [110, 117, 108, 108] then some (.null, s.drop 4)
  else if s.take 4 = [116, 114, 117, 101] then some (.bool true, s.drop 4)
  else if s.take 5 = [102, 97, 108, 115, 101] then some (.bool false, s.drop 5)
  else if number.rmatch (s.takeWhile isNumberByte) then
    some (.number (s.takeWhile isNumberByte), s.dropWhile isNumberByte)
  else none

mutual

def parseValue : ℕ → List UInt8 → Option (Value × List UInt8)
  | 0, _ => none
  | _ + 1, [] => none
  | n + 1, b :: rest =>
    if b = 34 then (parseChars n rest).map fun p => (.string p.1, p.2)
    else if b = 91 then
      if (skipWs rest).head? = some 93 then some (.array [], (skipWs rest).tail)
      else (parseItems n rest).map fun p => (.array p.1, p.2)
    else if b = 123 then
      if (skipWs rest).head? = some 125 then some (.object [], (skipWs rest).tail)
      else (parseMembers n rest).map fun p => (.object p.1, p.2)
    else parseAtom (b :: rest)

def parseItems : ℕ → List UInt8 → Option (List Value × List UInt8)
  | 0, _ => none
  | n + 1, s =>
    match parseValue n (skipWs s) with
    | none => none
    | some (v, s) =>
      match skipWs s with
      | [] => none
      | b :: rest =>
        if b = 93 then some ([v], rest)
        else if b = 44 then (parseItems n rest).map fun p => (v :: p.1, p.2)
        else none

def parseMembers : ℕ → List UInt8 → Option (List (List UInt8 × Value) × List UInt8)
  | 0, _ => none
  | n + 1, s =>
    match skipWs s with
    | [] => none
    | q :: s =>
      if q = 34 then
        match parseChars n s with
        | none => none
        | some (key, s) =>
          match skipWs s with
          | [] => none
          | colon :: s =>
            if colon = 58 then
              match parseValue n (skipWs s) with
              | none => none
              | some (v, s) =>
                match skipWs s with
                | [] => none
                | b :: rest =>
                  if b = 125 then some ([(key, v)], rest)
                  else if b = 44 then (parseMembers n rest).map fun p => ((key, v) :: p.1, p.2)
                  else none
            else none
      else none

end

/-- The value of a text, if it is one of the grammar. -/
def parse (text : List UInt8) : Option Value :=
  match parseValue (2 * text.length + 1) (skipWs text) with
  | none => none
  | some (v, rest) => if skipWs rest = [] then some v else none

/-! ## Writing numbers and strings -/

theorem mem_digits : ∀ b : UInt8, isDigit 10 b = true ↔ b ∈ digits :=
  Text.forall_byte (by decide +kernel)

/-- A numeral without a leading zero is a number, with a sign or an exponent or without. -/
theorem rmatch_number {m ds e : List UInt8} (hm : m = [] ∨ m = [45]) (hds : IsNumeral 10 ds)
    (hzero : ds.head? = some 48 → ds = [48])
    (he : e = [] ∨ ∃ es, e = 101 :: 45 :: es ∧ IsNumeral 10 es) :
    number.rmatch (m ++ (ds ++ e)) = true := by
  have hdigits : ∀ b ∈ ds, b ∈ digits := fun b hb => (mem_digits b).mp (hds.2 b hb)
  refine rmatch_mul.mpr ⟨m, ds ++ e, rfl, ?_, rmatch_mul.mpr ⟨ds, e, rfl, ?_, ?_⟩⟩
  · exact rmatch_opt.mpr (hm.imp id rmatch_word.mpr)
  · obtain ⟨d, ds', rfl⟩ := List.exists_cons_of_ne_nil hds.1
    rw [rmatch_add]
    by_cases hd : d = 48
    · exact .inl (rmatch_word.mpr (hzero (by rw [hd]; rfl)))
    · have hd' : d ∈ digits.tail := by
        have := hdigits d List.mem_cons_self
        simpa [digits, hd] using this
      exact .inr (rmatch_mul.mpr ⟨[d], ds', rfl, rmatch_oneOf.mpr ⟨d, hd', rfl⟩,
        rmatch_many_oneOf.mpr fun b hb => hdigits b (List.mem_cons_of_mem d hb)⟩)
  · refine rmatch_mul.mpr ⟨[], e, rfl, rmatch_opt.mpr (.inl rfl), rmatch_opt.mpr (he.imp id ?_)⟩
    rintro ⟨es, rfl, hes⟩
    refine rmatch_mul.mpr ⟨[101], 45 :: es, rfl, rmatch_oneOf.mpr ⟨101, by decide, rfl⟩,
      rmatch_mul.mpr ⟨[45], es, rfl, ?_, ?_⟩⟩
    · exact rmatch_opt.mpr (.inr (rmatch_oneOf.mpr ⟨45, by decide, rfl⟩))
    · exact rmatch_many1_oneOf.mpr ⟨hes.1, fun b hb => (mem_digits b).mp (hes.2 b hb)⟩

theorem Chars.append {t s t' s' : List UInt8} (h : Chars t s) (h' : Chars t' s') :
    Chars (t ++ t') (s ++ s') := by
  induction h with
  | nil => exact h'
  | plain hb _ ih => exact .plain hb ih
  | escape hc _ ih => exact .escape hc ih
  | unicode hx _ ih =>
    simp only [List.cons_append, List.append_assoc]
    exact .unicode hx ih
  | pair hhigh hlow hrange hx _ ih =>
    simp only [List.cons_append, List.append_assoc]
    exact .pair hhigh hlow hrange hx ih

/-- A character below 128 by its number. -/
theorem Chars.ascii {a b c d e : UInt8} (he : e.toNat < 0x80)
    (h : codeUnit a b c d = some e.toNat) : Chars [92, 117, a, b, c, d] [e] := by
  have hvalid : e.toNat.isValidChar := by
    unfold Nat.isValidChar
    omega
  have hval : (Char.ofNatAux e.toNat hvalid).val.toNat = e.toNat := by
    unfold Char.ofNatAux
    simp
  have hencode : String.utf8EncodeChar (Char.ofNatAux e.toNat hvalid) = [e] := by
    unfold String.utf8EncodeChar
    rw [hval, if_pos (by omega)]
    simp
  rw [← hval] at h
  have hchars := Chars.unicode h .nil
  rwa [hencode, List.append_nil] at hchars

/-- Plain bytes stand for themselves. -/
theorem Chars.self {t : List UInt8} (h : ∀ b ∈ t, 32 ≤ b.toNat ∧ b ≠ 34 ∧ b ≠ 92) :
    Chars t t := by
  induction t with
  | nil => exact .nil
  | cons b t ih =>
    obtain ⟨hb, ht⟩ := List.forall_mem_cons.mp h
    exact .plain hb (ih ht)

/-- Bytes of longer characters are plain. -/
theorem Chars.high {t : List UInt8} (h : ∀ b ∈ t, 0x80 ≤ b.toNat) : Chars t t := by
  have hne : ∀ {b c : UInt8}, 0x80 ≤ b.toNat → c.toNat < 0x80 → b ≠ c := by
    rintro b c hb hc rfl
    omega
  refine Chars.self fun b hb => ⟨?_, hne (h b hb) (by decide), hne (h b hb) (by decide)⟩
  have := h b hb
  omega

/-! ## Compact texts -/

/-- Texts with commas between them. -/
def commas : List (List UInt8) → List UInt8
  | [] => []
  | [t] => t
  | t :: ts => t ++ 44 :: commas ts

@[simp] theorem commas_nil : commas [] = [] :=
  rfl

@[simp] theorem commas_singleton (t : List UInt8) : commas [t] = t :=
  rfl

@[simp] theorem commas_cons_cons (t t' : List UInt8) (ts : List (List UInt8)) :
    commas (t :: t' :: ts) = t ++ 44 :: commas (t' :: ts) :=
  rfl

theorem commas_cons (t : List UInt8) (ts : List (List UInt8)) :
    commas (t :: ts) = t ++ ts.flatMap (44 :: ·) := by
  induction ts generalizing t with
  | nil => simp
  | cons t' ts ih => rw [commas_cons_cons, ih, List.flatMap_cons, List.cons_append]

theorem commas_concat (t u : List UInt8) (ts : List (List UInt8)) :
    commas (t :: (ts ++ [u])) = commas (t :: ts) ++ 44 :: u := by
  induction ts generalizing t with
  | nil => rfl
  | cons t' ts ih =>
    rw [List.cons_append, commas_cons_cons, ih, commas_cons_cons, List.append_assoc,
      List.cons_append]

theorem derive_items {t : List UInt8} {ts : List (List UInt8)} {v : Value} {vs : List Value}
    (h : Derive t (.value v)) (hs : List.Forall₂ (fun t v => Derive t (.value v)) ts vs) :
    Derive (commas (t :: ts)) (.items (v :: vs)) := by
  induction hs generalizing t v with
  | nil => simpa using Derive.item ws_nil ws_nil h
  | cons h' _ ih =>
    rw [commas_cons_cons]
    simpa using Derive.items ws_nil ws_nil h (ih h')

/-- The text of an array from the texts of its items. -/
theorem derive_array {ts : List (List UInt8)} {vs : List Value}
    (hs : List.Forall₂ (fun t v => Derive t (.value v)) ts vs) :
    Derive (91 :: (commas ts ++ [93])) (.value (.array vs)) := by
  cases hs with
  | nil => exact .emptyArray ws_nil
  | cons h hs => exact .array (derive_items h hs)

/-- The text of a member whose key needs no escapes. -/
def memberText (key t : List UInt8) : List UInt8 :=
  34 :: (key ++ 34 :: 58 :: t)

/-- A text for the member of an object. -/
def DeriveMember (t : List UInt8) (m : List UInt8 × Value) : Prop :=
  ∃ x, t = memberText m.1 x ∧ Chars m.1 m.1 ∧ Derive x (.value m.2)

theorem derive_members {t : List UInt8} {ts : List (List UInt8)} {m : List UInt8 × Value}
    {ms : List (List UInt8 × Value)} (h : DeriveMember t m)
    (hs : List.Forall₂ DeriveMember ts ms) :
    Derive (commas (t :: ts)) (.members (m :: ms)) := by
  induction hs generalizing t m with
  | nil =>
    obtain ⟨x, rfl, hk, hx⟩ := h
    simpa [memberText] using Derive.member ws_nil hk ws_nil ws_nil hx ws_nil
  | cons h' _ ih =>
    obtain ⟨x, rfl, hk, hx⟩ := h
    rw [commas_cons_cons]
    simpa [memberText] using Derive.members ws_nil hk ws_nil ws_nil hx ws_nil (ih h')

/-- The text of an object from the texts of its members. -/
theorem derive_object {ts : List (List UInt8)} {ms : List (List UInt8 × Value)}
    (hs : List.Forall₂ DeriveMember ts ms) :
    Derive (123 :: (commas ts ++ [125])) (.value (.object ms)) := by
  cases hs with
  | nil => exact .emptyObject ws_nil
  | cons h hs => exact .object (derive_members h hs)

/-! ## Strings are parsed whole -/

theorem skipWs_append {w t : List UInt8} (hw : Ws w) (ht : ∀ b ∈ t.head?, isWs b = false) :
    skipWs (w ++ t) = t :=
  Text.dropWhile_append hw ht

theorem charOf_val (x : Char) : charOf x.val.toNat = some x := by
  have hx : x.val.toNat.isValidChar := x.valid
  unfold charOf
  rw [dif_pos hx]
  congr 1

theorem charOf_surrogate {n : ℕ} (h : 0xD800 ≤ n ∧ n < 0xE000) : charOf n = none := by
  unfold charOf
  rw [dif_neg]
  unfold Nat.isValidChar
  omega

theorem parseEscape_escape {c d : UInt8} (h : (c, d) ∈ escapes) (rest : List UInt8) :
    parseEscape (c :: rest) = some ([d], rest) := by
  have hlookup : escapes.lookup c = some d := by
    simp only [escapes, List.mem_cons, Prod.mk.injEq, List.not_mem_nil, or_false] at h
    rcases h with ⟨rfl, rfl⟩ | ⟨rfl, rfl⟩ | ⟨rfl, rfl⟩ | ⟨rfl, rfl⟩ | ⟨rfl, rfl⟩ | ⟨rfl, rfl⟩ |
      ⟨rfl, rfl⟩ | ⟨rfl, rfl⟩ <;> rfl
  simp only [parseEscape, hlookup]

theorem parseEscape_u (rest : List UInt8) : parseEscape (117 :: rest) = parseUnicode rest := by
  have hlookup : escapes.lookup 117 = none := by rfl
  simp only [parseEscape, hlookup, if_true]

theorem parseUnicode_char {a b c d : UInt8} {x : Char}
    (hx : codeUnit a b c d = some x.val.toNat) (rest : List UInt8) :
    parseUnicode (a :: b :: c :: d :: rest) = some (String.utf8EncodeChar x, rest) := by
  simp only [parseUnicode, hx, charOf_val]

theorem parseUnicode_pair {a b c d a' b' c' d' : UInt8} {high low : ℕ} {x : Char}
    (hhigh : codeUnit a b c d = some high) (hlow : codeUnit a' b' c' d' = some low)
    (hrange : 0xD800 ≤ high ∧ high < 0xDC00 ∧ 0xDC00 ≤ low ∧ low < 0xE000)
    (hx : x.val.toNat = 0x10000 + (high - 0xD800) * 0x400 + (low - 0xDC00))
    (rest : List UInt8) :
    parseUnicode (a :: b :: c :: d :: 92 :: 117 :: a' :: b' :: c' :: d' :: rest) =
      some (String.utf8EncodeChar x, rest) := by
  have hnone : charOf high = none := charOf_surrogate (by omega)
  simp only [parseUnicode, hhigh, hnone, hlow]
  rw [if_pos (by omega), ← hx, charOf_val]
  rfl

/-- The characters of a string are parsed up to the quote after them. -/
theorem parseChars_of_chars {t s : List UInt8} (h : Chars t s) :
    ∀ (n : ℕ) (rest : List UInt8), t.length < n →
      parseChars n (t ++ 34 :: rest) = some (s, rest) := by
  induction h with
  | nil =>
    intro n rest hn
    obtain ⟨n, rfl⟩ := Nat.exists_eq_add_of_lt hn
    simp [parseChars]
  | @plain b t s hb h ih =>
    intro n rest hn
    obtain ⟨n, rfl⟩ : ∃ m, n = m + 1 := ⟨n - 1, by omega⟩
    rw [List.cons_append, parseChars, if_neg hb.2.1, if_neg hb.2.2, if_neg (by omega),
      ih n rest (by simpa using hn)]
    rfl
  | @escape c d t s hc h ih =>
    intro n rest hn
    obtain ⟨n, rfl⟩ : ∃ m, n = m + 1 := ⟨n - 1, by omega⟩
    simp only [List.length_cons] at hn
    rw [List.cons_append, List.cons_append, parseChars, if_neg (by decide), if_pos rfl,
      parseEscape_escape hc]
    dsimp only
    rw [ih n rest (by omega)]
    rfl
  | @unicode a b c d t s x hx h ih =>
    intro n rest hn
    obtain ⟨n, rfl⟩ : ∃ m, n = m + 1 := ⟨n - 1, by omega⟩
    simp only [List.length_cons] at hn
    simp only [List.cons_append]
    rw [parseChars, if_neg (by decide), if_pos rfl, parseEscape_u, parseUnicode_char hx]
    dsimp only
    rw [ih n rest (by omega)]
    rfl
  | @pair a b c d a' b' c' d' t s high low x hhigh hlow hrange hx h ih =>
    intro n rest hn
    obtain ⟨n, rfl⟩ : ∃ m, n = m + 1 := ⟨n - 1, by omega⟩
    simp only [List.length_cons] at hn
    simp only [List.cons_append]
    rw [parseChars, if_neg (by decide), if_pos rfl, parseEscape_u,
      parseUnicode_pair hhigh hlow hrange hx]
    dsimp only
    rw [ih n rest (by omega)]
    rfl

/-! ## Values are parsed whole -/

/-- A number starts with a minus sign or a digit. -/
theorem number_head {t : List UInt8} (h : number.rmatch t = true) :
    ∃ b t', t = b :: t' ∧ (b = 45 ∨ b ∈ digits) := by
  obtain ⟨m, t, rfl, hm, h⟩ := rmatch_mul.mp h
  obtain ⟨i, t, rfl, hi, -⟩ := rmatch_mul.mp h
  have hhead : ∃ b i', i = b :: i' ∧ b ∈ digits := by
    rcases rmatch_add.mp hi with hi | hi
    · exact ⟨48, [], rmatch_word.mp hi, by decide⟩
    · obtain ⟨d, ds, rfl, hd, -⟩ := rmatch_mul.mp hi
      obtain ⟨b, hb, rfl⟩ := rmatch_oneOf.mp hd
      exact ⟨b, ds, rfl, List.mem_of_mem_tail hb⟩
  rcases rmatch_opt.mp hm with rfl | hm
  · obtain ⟨b, i', rfl, hb⟩ := hhead
    exact ⟨b, i' ++ t, rfl, .inr hb⟩
  · rw [rmatch_word.mp hm]
    exact ⟨45, i ++ t, rfl, .inl rfl⟩

/-- The bytes of a number are number bytes. -/
theorem number_bytes : Over (fun b => isNumberByte b = true) number := by
  have hdigits : ∀ b ∈ digits, isNumberByte b = true := forall_mem_of_all (by decide)
  have hnonzero : ∀ b ∈ digits.tail, isNumberByte b = true :=
    fun b hb => hdigits b (List.mem_of_mem_tail hb)
  have hsign : ∀ b ∈ [45, 43], isNumberByte b = true := forall_mem_of_all (by decide)
  have hletter : ∀ b ∈ [101, 69], isNumberByte b = true := forall_mem_of_all (by decide)
  have hword : ∀ {b : UInt8}, isNumberByte b = true → ∀ a ∈ [b], isNumberByte a = true := by
    intro b hb a ha
    rwa [List.mem_singleton.mp ha]
  have hinteger := (Over.word (hword (b := 48) rfl)).add
    ((Over.oneOf hnonzero).mul (.many_oneOf hdigits))
  have hfraction := (Over.word (hword (b := 46) rfl)).mul (.many1_oneOf hdigits)
  have hexponent := (Over.oneOf hletter).mul
    ((Over.opt (.oneOf hsign)).mul (.many1_oneOf hdigits))
  exact (Over.opt (.word (hword rfl))).mul
    (hinteger.mul ((Over.opt hfraction).mul (.opt hexponent)))

/-- What follows is not part of a number. -/
def Stops (rest : List UInt8) : Prop :=
  ∀ b ∈ rest.head?, isNumberByte b = false

theorem parseAtom_number {t rest : List UInt8} (h : number.rmatch t = true) (hrest : Stops rest) :
    parseAtom (t ++ rest) = some (.number t, rest) := by
  have hbytes := number_bytes t h
  unfold parseAtom
  rw [Text.takeWhile_append hbytes hrest, Text.dropWhile_append hbytes hrest, if_pos h]
  obtain ⟨b, t', rfl, hb⟩ := number_head h
  have hne : ∀ c ∈ [(110 : UInt8), 116, 102], b ≠ c := by
    rintro c hc rfl
    revert hc
    rcases hb with rfl | hb
    · decide
    · revert hb
      simp only [digits, List.mem_cons, List.not_mem_nil, or_false]
      rintro (rfl | rfl | rfl | rfl | rfl | rfl | rfl | rfl | rfl | rfl) <;> decide
  rw [if_neg, if_neg, if_neg]
  · exact fun heq => hne 102 (by simp) (List.cons.inj heq).1
  · exact fun heq => hne 116 (by simp) (List.cons.inj heq).1
  · exact fun heq => hne 110 (by simp) (List.cons.inj heq).1

/-- How a value may start. -/
theorem derive_head {t : List UInt8} {v : Value} (h : Derive t (.value v)) :
    ∃ b t', t = b :: t' ∧ isWs b = false ∧ b ≠ 93 ∧ b ≠ 125 := by
  have hdigit : ∀ b ∈ digits, isWs b = false ∧ b ≠ 93 ∧ b ≠ 125 :=
    forall_mem_of_all (by decide)
  cases h with
  | number h =>
    obtain ⟨b, t', rfl, rfl | hb⟩ := number_head h
    · exact ⟨_, _, rfl, by decide⟩
    · exact ⟨b, t', rfl, hdigit b hb⟩
  | _ => exact ⟨_, _, rfl, by decide⟩

/-- A part of a text is parsed up to what follows it, with fuel for twice its bytes. -/
def Parses (t : List UInt8) : Node → Prop
  | .value v => ∀ (n : ℕ) (rest : List UInt8), 2 * t.length < n → Stops rest →
      parseValue n (t ++ rest) = some (v, rest)
  | .items vs => ∀ (n : ℕ) (rest : List UInt8), 2 * t.length + 1 < n →
      parseItems n (t ++ 93 :: rest) = some (vs, rest)
  | .members ms => ∀ (n : ℕ) (rest : List UInt8), 2 * t.length + 1 < n →
      parseMembers n (t ++ 125 :: rest) = some (ms, rest)

theorem stops_ws {w rest : List UInt8} (hw : Ws w) (hrest : Stops rest) : Stops (w ++ rest) := by
  intro b hb
  cases w with
  | nil => exact hrest b hb
  | cons c w =>
    obtain rfl : c = b := by simpa using hb
    have hc := hw c List.mem_cons_self
    simp only [isWs, Bool.or_eq_true, decide_eq_true_eq] at hc
    rcases hc with ((rfl | rfl) | rfl) | rfl <;> decide

theorem stops_cons {b : UInt8} {rest : List UInt8} (h : isNumberByte b = false) :
    Stops (b :: rest) := by
  intro c hc
  obtain rfl : b = c := by simpa using hc
  exact h

/-- A value after whitespace. -/
theorem parseValue_skipWs {w t rest : List UInt8} {v : Value} {n : ℕ} (hw : Ws w)
    (hd : Derive t (.value v)) (ht : Parses t (.value v)) (hn : 2 * t.length < n)
    (hrest : Stops rest) : parseValue n (skipWs (w ++ (t ++ rest))) = some (v, rest) := by
  rw [skipWs_append hw, ht n rest hn hrest]
  obtain ⟨b, t', rfl, hb, -⟩ := derive_head hd
  simpa using hb

theorem skipWs_byte {w rest : List UInt8} {b : UInt8} (hw : Ws w) (hb : isWs b = false) :
    skipWs (w ++ b :: rest) = b :: rest :=
  skipWs_append hw (by simpa using hb)

/-- The first byte of items or members, after whitespace. -/
theorem skipWs_head {t rest : List UInt8} {node : Node} (h : Derive t node)
    (hnode : ∀ v, node ≠ .value v) :
    (skipWs (t ++ rest)).head? ≠ some 93 ∧ (skipWs (t ++ rest)).head? ≠ some 125 := by
  have hvalue : ∀ {w t s : List UInt8} {v : Value}, Ws w → Derive t (.value v) →
      (skipWs (w ++ (t ++ s))).head? ≠ some 93 ∧ (skipWs (w ++ (t ++ s))).head? ≠ some 125 := by
    intro w t s v hw h
    obtain ⟨b, t', rfl, hb, h93, h125⟩ := derive_head h
    rw [skipWs_append hw (by simpa using hb)]
    simpa using ⟨h93, h125⟩
  have hquote : ∀ {w s : List UInt8}, Ws w →
      (skipWs (w ++ 34 :: s)).head? ≠ some 93 ∧ (skipWs (w ++ 34 :: s)).head? ≠ some 125 := by
    intro w s hw
    rw [skipWs_byte hw (by decide)]
    simp
  cases h with
  | item hw _ h =>
    simp only [List.append_assoc]
    exact hvalue hw h
  | items hw _ h _ =>
    simp only [List.append_assoc]
    exact hvalue hw h
  | member hw => simpa only [List.append_assoc, List.cons_append] using hquote hw
  | members hw => simpa only [List.append_assoc, List.cons_append] using hquote hw
  | _ => exact absurd rfl (hnode _)

theorem parseValue_number {t rest : List UInt8} (h : number.rmatch t = true)
    (hrest : Stops rest) (n : ℕ) : parseValue (n + 1) (t ++ rest) = some (.number t, rest) := by
  have hatom := parseAtom_number h hrest
  obtain ⟨b, t', rfl, hb⟩ := number_head h
  have hdigit : ∀ b ∈ digits, b ≠ 34 ∧ b ≠ 91 ∧ b ≠ 123 :=
    forall_mem_of_all (by decide)
  have hne : b ≠ 34 ∧ b ≠ 91 ∧ b ≠ 123 := by
    rcases hb with rfl | hb
    · decide
    · exact hdigit b hb
  rw [List.cons_append, parseValue, if_neg hne.1, if_neg hne.2.1, if_neg hne.2.2]
  exact hatom

/-- The first item, up to the byte after it. -/
theorem parseItems_item {w t w' rest : List UInt8} {v : Value} {b : UInt8} {n : ℕ} (hw : Ws w)
    (hw' : Ws w') (hd : Derive t (.value v)) (ht : Parses t (.value v)) (hn : 2 * t.length < n)
    (hws : isWs b = false) (hnumber : isNumberByte b = false) :
    parseItems (n + 1) (w ++ (t ++ (w' ++ b :: rest))) =
      if b = 93 then some ([v], rest)
      else if b = 44 then (parseItems n rest).map fun p => (v :: p.1, p.2)
      else none := by
  rw [parseItems, parseValue_skipWs hw hd ht hn (stops_ws hw' (stops_cons hnumber))]
  dsimp only
  rw [skipWs_byte hw' hws]

/-- The first member, up to the byte after it. -/
theorem parseMembers_member {w₁ k w₂ w₃ t w₄ key rest : List UInt8} {v : Value} {b : UInt8}
    {n : ℕ} (hw₁ : Ws w₁) (hk : Chars k key) (hw₂ : Ws w₂) (hw₃ : Ws w₃)
    (hd : Derive t (.value v)) (hw₄ : Ws w₄) (ht : Parses t (.value v))
    (hkn : k.length < n) (hn : 2 * t.length < n) (hws : isWs b = false)
    (hnumber : isNumberByte b = false) :
    parseMembers (n + 1)
        (w₁ ++ 34 :: (k ++ 34 :: (w₂ ++ 58 :: (w₃ ++ (t ++ (w₄ ++ b :: rest)))))) =
      if b = 125 then some ([(key, v)], rest)
      else if b = 44 then (parseMembers n rest).map fun p => ((key, v) :: p.1, p.2)
      else none := by
  rw [parseMembers, skipWs_byte hw₁ (by decide)]
  dsimp only
  rw [if_pos rfl, parseChars_of_chars hk n _ hkn]
  dsimp only
  rw [skipWs_byte hw₂ (by decide)]
  dsimp only
  rw [if_pos rfl, parseValue_skipWs hw₃ hd ht hn (stops_ws hw₄ (stops_cons hnumber))]
  dsimp only
  rw [skipWs_byte hw₄ hws]

/-- Every part of a text is parsed. -/
theorem parses_of_derive {t : List UInt8} {node : Node} (h : Derive t node) : Parses t node := by
  induction h with
  | null =>
    intro n rest hn _
    obtain ⟨n, rfl⟩ : ∃ m, n = m + 1 := ⟨n - 1, by omega⟩
    rfl
  | true =>
    intro n rest hn _
    obtain ⟨n, rfl⟩ : ∃ m, n = m + 1 := ⟨n - 1, by omega⟩
    rfl
  | false =>
    intro n rest hn _
    obtain ⟨n, rfl⟩ : ∃ m, n = m + 1 := ⟨n - 1, by omega⟩
    rfl
  | number h =>
    intro n rest hn hrest
    obtain ⟨n, rfl⟩ : ∃ m, n = m + 1 := ⟨n - 1, by omega⟩
    exact parseValue_number h hrest n
  | @string t s h =>
    intro n rest hn _
    obtain ⟨n, rfl⟩ : ∃ m, n = m + 1 := ⟨n - 1, by omega⟩
    simp only [List.length_cons, List.length_append] at hn
    rw [List.cons_append, List.append_assoc, List.singleton_append, parseValue, if_pos rfl,
      parseChars_of_chars h n rest (by omega)]
    rfl
  | @emptyArray w hw =>
    intro n rest hn _
    obtain ⟨n, rfl⟩ : ∃ m, n = m + 1 := ⟨n - 1, by omega⟩
    rw [List.cons_append, List.append_assoc, List.singleton_append, parseValue,
      if_neg (by decide), if_pos rfl, skipWs_byte hw (by decide)]
    rfl
  | @array t vs h ih =>
    intro n rest hn _
    obtain ⟨n, rfl⟩ : ∃ m, n = m + 1 := ⟨n - 1, by omega⟩
    simp only [List.length_cons, List.length_append] at hn
    rw [List.cons_append, List.append_assoc, List.singleton_append, parseValue,
      if_neg (by decide), if_pos rfl, if_neg (skipWs_head h (by simp)).1,
      ih n rest (by omega)]
    rfl
  | @emptyObject w hw =>
    intro n rest hn _
    obtain ⟨n, rfl⟩ : ∃ m, n = m + 1 := ⟨n - 1, by omega⟩
    rw [List.cons_append, List.append_assoc, List.singleton_append, parseValue,
      if_neg (by decide), if_neg (by decide), if_pos rfl, skipWs_byte hw (by decide)]
    rfl
  | @object t ms h ih =>
    intro n rest hn _
    obtain ⟨n, rfl⟩ : ∃ m, n = m + 1 := ⟨n - 1, by omega⟩
    simp only [List.length_cons, List.length_append] at hn
    rw [List.cons_append, List.append_assoc, List.singleton_append, parseValue,
      if_neg (by decide), if_neg (by decide), if_pos rfl, if_neg (skipWs_head h (by simp)).2,
      ih n rest (by omega)]
    rfl
  | @item w t w' v hw hw' h ih =>
    intro n rest hn
    obtain ⟨n, rfl⟩ : ∃ m, n = m + 1 := ⟨n - 1, by omega⟩
    simp only [List.length_append] at hn
    rw [List.append_assoc, List.append_assoc,
      parseItems_item hw hw' h ih (by omega) (by decide) (by decide)]
    rfl
  | @items w t w' ts v vs hw hw' h hs ih ihs =>
    intro n rest hn
    obtain ⟨n, rfl⟩ : ∃ m, n = m + 1 := ⟨n - 1, by omega⟩
    simp only [List.length_append, List.length_cons] at hn
    rw [List.append_assoc, List.append_assoc, List.append_assoc, List.cons_append,
      parseItems_item hw hw' h ih (by omega) (by decide) (by decide), if_neg (by decide),
      if_pos rfl, ihs n rest (by omega)]
    rfl
  | @member w₁ k w₂ w₃ t w₄ key v hw₁ hk hw₂ hw₃ h hw₄ ih =>
    intro n rest hn
    obtain ⟨n, rfl⟩ : ∃ m, n = m + 1 := ⟨n - 1, by omega⟩
    simp only [List.length_append, List.length_cons] at hn
    simp only [List.append_assoc, List.cons_append]
    rw [parseMembers_member hw₁ hk hw₂ hw₃ h hw₄ ih (by omega) (by omega) (by decide)
      (by decide)]
    rfl
  | @members w₁ k w₂ w₃ t w₄ ts key v ms hw₁ hk hw₂ hw₃ h hw₄ hs ih ihs =>
    intro n rest hn
    obtain ⟨n, rfl⟩ : ∃ m, n = m + 1 := ⟨n - 1, by omega⟩
    simp only [List.length_append, List.length_cons] at hn
    simp only [List.append_assoc, List.cons_append]
    rw [parseMembers_member hw₁ hk hw₂ hw₃ h hw₄ ih (by omega) (by omega) (by decide)
      (by decide), if_neg (by decide), if_pos rfl, ihs n rest (by omega)]
    rfl

/-- The parser reads every text of the grammar. -/
theorem parse_of_derives {text : List UInt8} {v : Value} (h : Derives text v) :
    parse text = some v := by
  obtain ⟨-, w, t, w', hw, hw', hd, rfl⟩ := h
  have hstops : Stops w' := by simpa using @stops_ws w' [] hw' (by simp [Stops])
  have hend : skipWs w' = [] := by simpa using skipWs_append hw' (t := []) (by simp)
  unfold parse
  rw [parseValue_skipWs hw hd (parses_of_derive hd) _ hstops]
  · simp only [hend, if_true]
  · simp only [List.length_append]
    omega

/-- A text stands for one value. -/
theorem Derives.unique {text : List UInt8} {v v' : Value} (h : Derives text v)
    (h' : Derives text v') : v = v' :=
  Option.some.inj ((parse_of_derives h).symm.trans (parse_of_derives h'))

end JsonText

import ProviderSdk.Claims
import ProviderSdk.FaultInjection
import ProviderSdk.Lib.Strtoul

/-!
# The query of a fault bus

`FaultSpec::parse` of `src/anolis/provider_sdk/i2c/fault_injecting_i2c_bus.cpp`, a loop over
the pairs of a query, and `parse_u32`, which leaves the reading of a number to `strtoul`.

A field should have the value of the last well-formed text under its key (`Leaves`). The code
takes the last text that `strtoul` reads to its end (`read_parse`), and `strtoul` reads more
than the grammar has : blanks and a sign before the numeral, and anything after a NUL
(`parseU32_eq_some_iff`). The value of `pad_byte` is not held to a byte at all. So the query is
read as it should be exactly when such a text does not have the last word
(`parse_leaves_iff`).
-/

namespace ProviderSdk.I2c

open Numeral Strtoul

/-! ## The parser -/

/-- `c_str()` : what is before the first NUL. -/
def cStr (text : Bytes) : Bytes :=
  text.takeWhile (· ≠ 0)

/-- `parse_u32`, none where it returns false. -/
def parseU32 (value : Bytes) : Option UInt32 :=
  if value = [] then none
  else if value.head? = some (chr '-') then none
  else
    match strtoul isspace (cStr value) with
    -- `end == value.c_str()`
    | none => none
    | some v =>
      if v.rest ≠ [] ∨ v.range ∨ 0xFFFFFFFF < v.value then none else some (UInt32.ofNat v.value)

/-- The field of a key takes the value, if that parses. Unknown keys are ignored. -/
def FaultSpec.set (spec : FaultSpec) (key value : Bytes) : FaultSpec :=
  if key = lit "pad" then { spec with pad := (parseU32 value).getD spec.pad }
  else if key = lit "pad_byte" then
    match parseU32 value with
    | some v => { spec with padByte := v.toUInt8 }
    | none => spec
  else if key = lit "short_every" then
    { spec with shortEvery := (parseU32 value).getD spec.shortEvery }
  else if key = lit "corrupt_every" then
    { spec with corruptEvery := (parseU32 value).getD spec.corruptEvery }
  else if key = lit "nak_every" then
    { spec with nakEvery := (parseU32 value).getD spec.nakEvery }
  else if key = lit "read_fail_every" then
    { spec with readFailEvery := (parseU32 value).getD spec.readFailEvery }
  else if key = lit "timeout_every" then
    { spec with timeoutEvery := (parseU32 value).getD spec.timeoutEvery }
  else if key = lit "drop_after" then
    { spec with dropAfter := (parseU32 value).getD spec.dropAfter }
  else if key = lit "drop_for" then
    { spec with dropFor := (parseU32 value).getD spec.dropFor }
  else if key = lit "latency_us" then
    { spec with latencyUs := (parseU32 value).getD spec.latencyUs }
  else spec

/-- What is before and after the first `=`. -/
def keyValue (pair : Bytes) : Option (Bytes × Bytes) :=
  if chr '=' ∈ pair then
    some (pair.takeWhile (· ≠ chr '='), (pair.dropWhile (· ≠ chr '=')).tail)
  else none

/-- The body of the loop. -/
def FaultSpec.take (spec : FaultSpec) (pair : Bytes) : FaultSpec :=
  match keyValue pair with
  | none => spec
  | some (key, value) => spec.set key value

/-- The pairs the loop sees, after the part of one that was read. The loop is over at the end
of the query, so there is no pair after a last `&`. -/
def pairsFrom : Bytes → Bytes → List Bytes
  | pair, [] => if pair.isEmpty then [] else [pair]
  | pair, b :: query =>
    if b = chr '&' then pair :: pairsFrom [] query else pairsFrom (pair ++ [b]) query

def FaultSpec.parse (query : Bytes) : FaultSpec :=
  (pairsFrom [] query).foldl FaultSpec.take {}

/-! ## What a query should mean -/

/-- The fields of a spec that have a key. -/
inductive FaultField where
  | pad
  | padByte
  | shortEvery
  | corruptEvery
  | nakEvery
  | readFailEvery
  | timeoutEvery
  | dropAfter
  | dropFor
  | latencyUs
  deriving DecidableEq

namespace FaultField

def key : FaultField → Bytes
  | pad => lit "pad"
  | padByte => lit "pad_byte"
  | shortEvery => lit "short_every"
  | corruptEvery => lit "corrupt_every"
  | nakEvery => lit "nak_every"
  | readFailEvery => lit "read_fail_every"
  | timeoutEvery => lit "timeout_every"
  | dropAfter => lit "drop_after"
  | dropFor => lit "drop_for"
  | latencyUs => lit "latency_us"

/-- The largest value the field holds. -/
def max : FaultField → ℕ
  | padByte => 255
  | _ => 2 ^ 32 - 1

/-- The field of a spec. -/
def read (spec : FaultSpec) : FaultField → ℕ
  | pad => spec.pad.toNat
  | padByte => spec.padByte.toNat
  | shortEvery => spec.shortEvery.toNat
  | corruptEvery => spec.corruptEvery.toNat
  | nakEvery => spec.nakEvery.toNat
  | readFailEvery => spec.readFailEvery.toNat
  | timeoutEvery => spec.timeoutEvery.toNat
  | dropAfter => spec.dropAfter.toNat
  | dropFor => spec.dropFor.toNat
  | latencyUs => spec.latencyUs.toNat

/-- The value of the text is `n`, and the field holds it. -/
def WellFormed (f : FaultField) (text : Bytes) (n : ℕ) : Prop :=
  Constant text n ∧ n ≤ f.max

/-- The texts under the field's key, in order : a pair is between `&`s, and the key of one is
what is before its first `=`. -/
def texts (f : FaultField) (query : Bytes) : List Bytes :=
  (query.splitOn (chr '&')).filterMap fun pair => pair.dropPrefix? (f.key ++ lit "=")

/-- The value that texts leave in the field : that of the last well-formed one, or the default
if none is. -/
def Leaves (f : FaultField) (texts : List Bytes) (n : ℕ) : Prop :=
  (∃ before text after, texts = before ++ text :: after ∧ f.WellFormed text n ∧
      ∀ t ∈ after, ∀ m, ¬f.WellFormed t m) ∨
    (∀ t ∈ texts, ∀ m, ¬f.WellFormed t m) ∧ n = f.read {}

end FaultField

example : FaultField.padByte.texts (lit "&pad_byte=1&&pad=2&pad_byte==&pad_byte") =
    [lit "1", lit "="] := by decide

example : [FaultField.pad, .padByte, .dropAfter].map
    (FaultField.read (FaultSpec.parse (lit "pad=8&&pad_byte=0xAB&drop_after=010&pad=x&"))) =
      [8, 0xAB, 8] := by decide +kernel

/-! ## What `parse_u32` takes -/

/-- A text that is taken for `v` : blanks, a sign and a constant, and then nothing, or a NUL
and anything. A minus needs a blank before it. -/
def Taken (text : Bytes) (v : UInt32) : Prop :=
  ∃ front tail blanks neg, text = front ++ tail ∧ (tail = [] ∨ tail.head? = some 0) ∧
    Reads isspace front blanks neg v.toNat ∧ (neg = true → blanks ≠ [])

theorem blanks_isspace : Blanks isspace :=
  ⟨by decide, by decide, Text.forall_byte (by decide +kernel)⟩

/-- No digit is NUL, in any base. -/
theorem isDigit_ne_zero {base : ℕ} {b : UInt8} (h : isDigit base b = true) : b ≠ 0 := by
  rintro rfl
  cases h

theorem constant_ne_zero {text : Bytes} {n : ℕ} (h : Constant text n) : ∀ b ∈ text, b ≠ 0 := by
  cases h with
  | decimal h h0 => exact fun b hb => isDigit_ne_zero (h.2 b hb)
  | octal h h0 => exact fun b hb => isDigit_ne_zero (h.2 b hb)
  | @hex x ds hx h =>
    intro b hb
    rcases List.mem_cons.mp hb with rfl | hb
    · decide
    · rcases List.mem_cons.mp hb with rfl | hb
      · rcases hx with rfl | rfl <;> decide
      · exact isDigit_ne_zero (h.2 b hb)

/-- What is read whole has no NUL, and a minus at its front is the sign. -/
theorem reads_front {front blanks : Bytes} {neg : Bool} {v : ℕ}
    (h : Reads isspace front blanks neg v) :
    (∀ b ∈ front, b ≠ 0) ∧ (front.head? = some (chr '-') ↔ neg = true ∧ blanks = []) := by
  obtain ⟨hskipped, sign, constant, n, rfl, hsign, hconstant, -, -⟩ := h
  have hblank : ∀ b ∈ blanks, b ≠ 0 ∧ b ≠ chr '-' := by
    intro b hb
    have hspace := hskipped b hb
    exact ⟨by rintro rfl; exact absurd hspace (by decide),
      by rintro rfl; exact absurd hspace (by decide)⟩
  obtain ⟨c, rest, hc, hdigit⟩ := hconstant.exists_head
  have hzero := constant_ne_zero hconstant
  constructor
  · intro b hb
    rcases List.mem_append.mp hb with hb | hb
    · exact (hblank b hb).1
    · rcases List.mem_append.mp hb with hb | hb
      · cases hsign with
        | none => cases hb
        | plus => rw [List.mem_singleton.mp hb]; decide
        | minus => rw [List.mem_singleton.mp hb]; decide
      · exact hzero b hb
  · cases blanks with
    | cons b blanks =>
      have hb := (hblank b List.mem_cons_self).2
      simp [hb]
    | nil =>
      cases hsign with
      | none =>
        have hminus : c ≠ chr '-' := by rintro rfl; exact absurd hdigit (by decide)
        simp [hc, hminus]
      | plus => simp; decide
      | minus => simp; decide

theorem cStr_append {front tail : Bytes} (hfront : ∀ b ∈ front, b ≠ 0)
    (htail : tail = [] ∨ tail.head? = some 0) : cStr (front ++ tail) = front := by
  refine Text.takeWhile_append (by simpa using hfront) fun b hb => ?_
  rcases htail with rfl | htail
  · cases hb
  · obtain rfl : 0 = b := Option.some.inj (htail.symm.trans hb)
    rfl

/-- A text before its first `b`, and from there. -/
theorem dropWhile_ne (b : UInt8) (text : Bytes) :
    text.dropWhile (· ≠ b) = [] ∨ ∃ rest, text.dropWhile (· ≠ b) = b :: rest := by
  have hhead := Text.head_dropWhile (p := (· ≠ b)) text
  cases hdrop : text.dropWhile (· ≠ b) with
  | nil => exact .inl rfl
  | cons c rest =>
    rw [hdrop] at hhead
    obtain rfl : c = b := by simpa using hhead c rfl
    exact .inr ⟨rest, rfl⟩

/-- `parse_u32` takes these texts and no others. -/
theorem parseU32_eq_some_iff {text : Bytes} {v : UInt32} :
    parseU32 text = some v ↔ Taken text v := by
  constructor
  · intro h
    unfold parseU32 at h
    split_ifs at h with hnil hminus
    split at h
    · cases h
    · next r hr =>
      split_ifs at h with hbad
      obtain rfl := Option.some.inj h
      obtain ⟨value, range, rest⟩ := r
      simp only [not_or, not_not, Bool.not_eq_true, not_lt] at hbad
      obtain ⟨rfl, rfl, hvalue⟩ := hbad
      obtain ⟨blanks, neg, hreads⟩ := (strtoul_eq_iff blanks_isspace).mp hr
      have hnat : (UInt32.ofNat value).toNat = value :=
        UInt32.toNat_ofNat_of_lt' (Nat.lt_succ_of_le hvalue)
      have hsplit : text = cStr text ++ text.dropWhile (· ≠ 0) :=
        List.takeWhile_append_dropWhile.symm
      have htail : text.dropWhile (· ≠ 0) = [] ∨ (text.dropWhile (· ≠ 0)).head? = some 0 := by
        obtain hnil | ⟨rest, hrest⟩ := dropWhile_ne 0 text
        · exact .inl hnil
        · exact .inr (congrArg List.head? hrest)
      refine ⟨_, _, blanks, neg, hsplit, htail, by rwa [hnat], ?_⟩
      rintro hneg rfl
      have hhead := (reads_front hreads).2.mpr ⟨hneg, rfl⟩
      obtain ⟨rest, hrest⟩ := List.head?_eq_some_iff.mp hhead
      rw [hsplit, hrest] at hminus
      exact hminus rfl
  · rintro ⟨front, tail, blanks, neg, rfl, htail, hreads, hneg⟩
    obtain ⟨hfront, hhead⟩ := reads_front hreads
    have hread := (strtoul_eq_iff blanks_isspace).mpr ⟨blanks, neg, hreads⟩
    have hne : front ≠ [] := by
      rintro rfl
      cases hread
    have hminus : (front ++ tail).head? ≠ some (chr '-') := by
      rw [List.head?_append_of_ne_nil _ hne]
      exact fun h => hneg (hhead.mp h).1 (hhead.mp h).2
    have hrange := v.toNat_lt
    rw [parseU32, if_neg (by simp [hne]), if_neg hminus, cStr_append hfront htail, hread]
    simp only [ne_eq, not_true_eq_false, Bool.false_eq_true, false_or, UInt32.ofNat_toNat]
    rw [if_neg (by omega)]

/-- A constant that fits is taken for its value. -/
theorem taken_of_constant {text : Bytes} {v : UInt32} (h : Constant text v.toNat) :
    Taken text v := by
  have hv := v.toNat_lt
  exact ⟨text, [], [], false, by simp, .inl rfl,
    ⟨by simp, [], text, v.toNat, rfl, .none, h, by omega, rfl⟩, by simp⟩

/-! ## What the loop does -/

namespace FaultField

variable {f : FaultField} {spec : FaultSpec} {pair key value : Bytes}

/-- The value a field takes from a parsed one : `pad_byte` is cast. -/
def narrow (f : FaultField) (v : UInt32) : ℕ :=
  match f with
  | padByte => v.toNat % 256
  | _ => v.toNat

/-- The field after a text under its key. -/
def update (f : FaultField) (n : ℕ) (text : Bytes) : ℕ :=
  ((parseU32 text).map f.narrow).getD n

theorem key_inj {g : FaultField} (h : f.key = g.key) : f = g := by
  revert h
  cases f <;> cases g <;> decide

theorem equals_notMem_key : chr '=' ∉ f.key := by
  cases f <;> decide

/-- A key that is one sets its own field. -/
theorem read_set_key (f g : FaultField) (spec : FaultSpec) (value : Bytes) :
    f.read (spec.set g.key value) =
      if g = f then f.update (f.read spec) value else f.read spec := by
  cases hv : parseU32 value with
  | none => cases g <;> cases f <;> simp [FaultSpec.set, key, read, update, hv]
  | some v =>
    cases g <;> cases f <;> simp [FaultSpec.set, key, read, update, narrow, hv]

/-- Other keys set nothing. -/
theorem set_of_ne (h : ∀ g : FaultField, key ≠ g.key) : spec.set key value = spec := by
  exact (if_neg (h pad)).trans <| (if_neg (h padByte)).trans <| (if_neg (h shortEvery)).trans <|
    (if_neg (h corruptEvery)).trans <| (if_neg (h nakEvery)).trans <|
    (if_neg (h readFailEvery)).trans <| (if_neg (h timeoutEvery)).trans <|
    (if_neg (h dropAfter)).trans <| (if_neg (h dropFor)).trans <| if_neg (h latencyUs)

theorem read_set (f : FaultField) (spec : FaultSpec) (key value : Bytes) :
    f.read (spec.set key value) =
      if key = f.key then f.update (f.read spec) value else f.read spec := by
  by_cases hkey : ∃ g : FaultField, key = g.key
  · obtain ⟨g, rfl⟩ := hkey
    rw [read_set_key]
    by_cases hg : g = f
    · rw [if_pos hg, if_pos (congrArg FaultField.key hg)]
    · rw [if_neg hg, if_neg fun h => hg (key_inj h)]
  · rw [set_of_ne (not_exists.mp hkey), if_neg fun h => hkey ⟨f, h⟩]

/-! ### Pairs -/

theorem keyValue_eq_none (h : keyValue pair = none) : chr '=' ∉ pair := by
  unfold keyValue at h
  split_ifs at h with hmem
  exact hmem

/-- The key has no `=`, and the value is what follows the first. -/
theorem keyValue_eq_some (h : keyValue pair = some (key, value)) :
    pair = key ++ chr '=' :: value ∧ chr '=' ∉ key := by
  unfold keyValue at h
  split_ifs at h with hmem
  simp only [Option.some.injEq, Prod.mk.injEq] at h
  obtain ⟨rfl, rfl⟩ := h
  have hkey : chr '=' ∉ pair.takeWhile (· ≠ chr '=') := fun hin => by
    simpa using List.all_eq_true.mp List.all_takeWhile _ hin
  have hsplit := List.takeWhile_append_dropWhile (p := (· ≠ chr '=')) (l := pair)
  refine ⟨?_, hkey⟩
  obtain hnil | ⟨rest, hrest⟩ := dropWhile_ne (chr '=') pair
  · rw [hnil, List.append_nil] at hsplit
    exact absurd (hsplit.symm ▸ hmem) hkey
  · rw [hrest, List.tail_cons, ← hrest, hsplit]

/-- Two splits at the first `=` are one. -/
theorem split_inj {key' value' : Bytes} (hkey : chr '=' ∉ key) (hkey' : chr '=' ∉ key')
    (h : key ++ chr '=' :: value = key' ++ chr '=' :: value') : key = key' ∧ value = value' := by
  have hfront {k v : Bytes} (hk : chr '=' ∉ k) :
      (k ++ chr '=' :: v).takeWhile (· ≠ chr '=') = k :=
    Text.takeWhile_append (fun b hb => decide_eq_true fun heq => hk (heq ▸ hb)) (by simp)
  have hkeys := congrArg (List.takeWhile (· ≠ chr '=')) h
  rw [hfront hkey, hfront hkey'] at hkeys
  subst hkeys
  exact ⟨rfl, (List.cons.inj (List.append_cancel_left h)).2⟩

/-- What a pair has under the field's key. -/
theorem dropPrefix_key_eq_some {text : Bytes} :
    pair.dropPrefix? (f.key ++ lit "=") = some text ↔ pair = f.key ++ chr '=' :: text := by
  rw [List.dropPrefix?_eq_some_iff]
  constructor
  · rintro ⟨p, rfl, hp⟩
    rw [eq_of_beq hp, List.append_assoc]
    rfl
  · rintro rfl
    exact ⟨f.key ++ lit "=", by rw [List.append_assoc]; rfl, BEq.rfl⟩

theorem dropPrefix_key_eq_none (h : ∀ text, pair ≠ f.key ++ chr '=' :: text) :
    pair.dropPrefix? (f.key ++ lit "=") = none :=
  Option.eq_none_iff_forall_ne_some.mpr fun text htext => h text (dropPrefix_key_eq_some.mp htext)

/-- The body of the loop, for one field. -/
theorem read_take (f : FaultField) (spec : FaultSpec) (pair : Bytes) :
    f.read (spec.take pair) =
      ((pair.dropPrefix? (f.key ++ lit "=")).map (f.update (f.read spec))).getD (f.read spec) := by
  unfold FaultSpec.take
  cases hsplit : keyValue pair with
  | none =>
    have hequals := keyValue_eq_none hsplit
    rw [dropPrefix_key_eq_none fun text htext => hequals (by simp [htext])]
    rfl
  | some split =>
    obtain ⟨key, value⟩ := split
    obtain ⟨rfl, hkey⟩ := keyValue_eq_some hsplit
    dsimp only
    rw [read_set]
    by_cases hf : key = f.key
    · have hsome := (dropPrefix_key_eq_some (f := f)).mpr
        (congrArg (· ++ chr '=' :: value) hf)
      rw [if_pos hf, hsome]
      rfl
    · have hnone : ∀ text, key ++ chr '=' :: value ≠ f.key ++ chr '=' :: text :=
        fun text htext => hf (split_inj hkey equals_notMem_key htext).1
      rw [if_neg hf, dropPrefix_key_eq_none hnone]
      rfl

theorem read_foldl_take (f : FaultField) (pairs : List Bytes) : ∀ spec : FaultSpec,
    f.read (pairs.foldl FaultSpec.take spec) =
      (pairs.filterMap fun pair => pair.dropPrefix? (f.key ++ lit "=")).foldl f.update
        (f.read spec) := by
  induction pairs with
  | nil => exact fun _ => rfl
  | cons pair pairs ih =>
    intro spec
    rw [List.foldl_cons, ih, read_take, List.filterMap_cons]
    cases pair.dropPrefix? (f.key ++ lit "=") with
    | none => rfl
    | some text => rfl

/-- The pairs of the loop are what is between the `&`s, but for an empty one at the end. -/
theorem filterMap_pairsFrom {α : Type} {g : Bytes → Option α} (hg : g [] = none)
    (query : Bytes) : ∀ pair : Bytes, (pairsFrom pair query).filterMap g =
      (query.splitOnPPrepend (· == chr '&') pair.reverse).filterMap g := by
  induction query with
  | nil =>
    intro pair
    rw [pairsFrom, List.splitOnPPrepend_nil, List.reverse_reverse]
    cases pair with
    | nil => rw [List.filterMap_cons_none hg]; rfl
    | cons b pair => rfl
  | cons b query ih =>
    intro pair
    rw [pairsFrom]
    by_cases hb : b = chr '&'
    · have hbeq : (b == chr '&') = true := beq_iff_eq.mpr hb
      rw [if_pos hb, List.splitOnPPrepend_cons_pos (p := (· == chr '&')) hbeq,
        List.reverse_reverse, List.filterMap_cons, List.filterMap_cons, ih]
      rfl
    · have hbeq : (b == chr '&') = false := beq_eq_false_iff_ne.mpr hb
      rw [if_neg hb, List.splitOnPPrepend_cons_neg (p := (· == chr '&')) hbeq, ih,
        List.reverse_append]
      rfl

/-- A parsed field comes from the texts under its key, one after the other. -/
theorem read_parse (f : FaultField) (query : Bytes) :
    f.read (FaultSpec.parse query) = (f.texts query).foldl f.update (f.read {}) := by
  have hnil : ([] : Bytes).dropPrefix? (f.key ++ lit "=") = none :=
    dropPrefix_key_eq_none fun text => by simp
  rw [FaultSpec.parse, read_foldl_take, filterMap_pairsFrom hnil]
  rfl

/-! ## The last word -/

/-- An element with the property after which there is none. -/
theorem exists_last {α : Type} {p : α → Prop} {l : List α} (h : ∃ a ∈ l, p a) :
    ∃ before a after, l = before ++ a :: after ∧ p a ∧ ∀ b ∈ after, ¬p b := by
  induction l with
  | nil => simp at h
  | cons a l ih =>
    by_cases hl : ∃ b ∈ l, p b
    · obtain ⟨before, b, after, rfl, hb, hafter⟩ := ih hl
      exact ⟨a :: before, b, after, rfl, hb, hafter⟩
    · obtain ⟨b, hb, hpb⟩ := h
      rcases List.mem_cons.mp hb with rfl | hb
      · exact ⟨[], b, l, rfl, hpb, fun c hc hpc => hl ⟨c, hc, hpc⟩⟩
      · exact absurd ⟨b, hb, hpb⟩ hl

/-- Texts that are not taken leave the field. -/
theorem foldl_update_of_not_taken {texts : List Bytes} (h : ∀ t ∈ texts, ∀ v, ¬Taken t v)
    (n : ℕ) : texts.foldl f.update n = n := by
  induction texts with
  | nil => rfl
  | cons t texts ih =>
    obtain ⟨ht, htexts⟩ := List.forall_mem_cons.mp h
    have hnone : parseU32 t = none :=
      Option.eq_none_iff_forall_ne_some.mpr fun v hv => ht v (parseU32_eq_some_iff.mp hv)
    rw [List.foldl_cons, update, hnone]
    exact ih htexts

/-- The last text that is taken sets the field. -/
theorem foldl_update_of_last {before after : List Bytes} {text : Bytes} {v : UInt32}
    (htext : Taken text v) (hafter : ∀ t ∈ after, ∀ w, ¬Taken t w) (n : ℕ) :
    (before ++ text :: after).foldl f.update n = f.narrow v := by
  rw [List.foldl_append, List.foldl_cons, foldl_update_of_not_taken hafter, update,
    parseU32_eq_some_iff.mpr htext]
  rfl

theorem le_of_le_max {n : ℕ} (h : n ≤ f.max) : n ≤ 2 ^ 32 - 1 := by
  refine h.trans ?_
  cases f <;> decide

/-- A well-formed text is taken for its value, and the field holds that. -/
theorem WellFormed.taken {text : Bytes} {n : ℕ} (h : f.WellFormed text n) {v : UInt32}
    (hv : Taken text v) : v.toNat = n ∧ f.narrow v = n := by
  obtain ⟨hconstant, hmax⟩ := h
  have hn : (UInt32.ofNat n).toNat = n :=
    UInt32.toNat_ofNat_of_lt' (Nat.lt_succ_of_le (le_of_le_max hmax))
  have htaken : Taken text (UInt32.ofNat n) := taken_of_constant (by rwa [hn])
  have heq := (parseU32_eq_some_iff.mpr hv).symm.trans (parseU32_eq_some_iff.mpr htaken)
  obtain rfl := Option.some.inj heq
  refine ⟨hn, ?_⟩
  cases f with
  | padByte =>
    change (UInt32.ofNat n).toNat % 256 = n
    rw [hn]
    exact Nat.mod_eq_of_lt (Nat.lt_succ_of_le hmax)
  | _ => exact hn

theorem not_wellFormed_of_not_taken {text : Bytes} (h : ∀ v, ¬Taken text v) (n : ℕ) :
    ¬f.WellFormed text n := by
  rintro ⟨hconstant, hmax⟩
  refine h (UInt32.ofNat n) (taken_of_constant ?_)
  rwa [UInt32.toNat_ofNat_of_lt' (Nat.lt_succ_of_le (le_of_le_max hmax))]

/-- One more text has the last word if it is well formed. -/
theorem leaves_concat {texts : List Bytes} {t : Bytes} {n : ℕ} :
    f.Leaves (texts ++ [t]) n ↔
      f.WellFormed t n ∨ (∀ m, ¬f.WellFormed t m) ∧ f.Leaves texts n := by
  constructor
  · rintro (⟨before, text, after, heq, hwell, hafter⟩ | ⟨hnone, hn⟩)
    · rcases List.eq_nil_or_concat after with rfl | ⟨after', y, rfl⟩
      · obtain ⟨-, ht⟩ := List.append_inj' heq rfl
        obtain rfl : t = text := by simpa using ht
        exact .inl hwell
      · rw [List.concat_eq_append, ← List.cons_append, ← List.append_assoc] at heq
        obtain ⟨rfl, ht⟩ := List.append_inj' heq rfl
        obtain rfl : t = y := by simpa using ht
        rw [List.concat_eq_append, List.forall_mem_append] at hafter
        exact .inr ⟨hafter.2 t (List.mem_singleton_self t),
          .inl ⟨before, text, after', rfl, hwell, hafter.1⟩⟩
    · rw [List.forall_mem_append] at hnone
      exact .inr ⟨hnone.2 t (List.mem_singleton_self t), .inr ⟨hnone.1, hn⟩⟩
  · rintro (hwell | ⟨ht, hleaves⟩)
    · exact .inl ⟨texts, t, [], rfl, hwell, by simp⟩
    · have hlast : ∀ x ∈ [t], ∀ m, ¬f.WellFormed x m := by simpa using ht
      rcases hleaves with ⟨before, text, after, rfl, hwell, hafter⟩ | ⟨hnone, hn⟩
      · refine .inl ⟨before, text, after ++ [t], by simp, hwell, ?_⟩
        exact List.forall_mem_append.mpr ⟨hafter, hlast⟩
      · exact .inr ⟨List.forall_mem_append.mpr ⟨hnone, hlast⟩, hn⟩

theorem leaves_singleton {t : Bytes} {n : ℕ} :
    f.Leaves [t] n ↔ f.WellFormed t n ∨ (∀ m, ¬f.WellFormed t m) ∧ n = f.read {} := by
  have hnil : f.Leaves [] n ↔ n = f.read {} := by simp [Leaves]
  rw [← List.nil_append [t], leaves_concat, hnil]

/-- Texts that are not well formed change nothing. -/
theorem leaves_append_iff {texts after : List Bytes} {n : ℕ}
    (h : ∀ t ∈ after, ∀ m, ¬f.WellFormed t m) :
    f.Leaves (texts ++ after) n ↔ f.Leaves texts n := by
  induction after generalizing texts with
  | nil => rw [List.append_nil]
  | cons t after ih =>
    obtain ⟨ht, hafter⟩ := List.forall_mem_cons.mp h
    rw [List.append_cons, ih hafter, leaves_concat]
    constructor
    · rintro (hwell | ⟨-, hleaves⟩)
      · exact absurd hwell (ht n)
      · exact hleaves
    · exact fun hleaves => .inr ⟨ht, hleaves⟩

/-- The last text that the code takes is well formed, or it stands for the number that the
texts before it leave. -/
def Settled (f : FaultField) (query : Bytes) : Prop :=
  ∀ before text after v, f.texts query = before ++ text :: after → Taken text v →
    (∀ t ∈ after, ∀ w, ¬Taken t w) →
      f.WellFormed text v.toNat ∨ f.Leaves before (f.narrow v)

theorem leaves_read_iff (f : FaultField) (query : Bytes) :
    f.Leaves (f.texts query) (f.read (FaultSpec.parse query)) ↔ f.Settled query := by
  rw [read_parse]
  constructor
  · intro hleaves before text after v htexts htext hafter
    rw [htexts, foldl_update_of_last htext hafter, List.append_cons,
      leaves_append_iff fun t ht => not_wellFormed_of_not_taken (hafter t ht),
      leaves_concat] at hleaves
    rcases hleaves with hwell | ⟨-, hleaves⟩
    · rw [(hwell.taken htext).1]
      exact .inl hwell
    · exact .inr hleaves
  · intro hsettled
    by_cases hany : ∃ t ∈ f.texts query, ∃ v, Taken t v
    · obtain ⟨before, text, after, htexts, ⟨v, htext⟩, hafter⟩ := exists_last hany
      have hafter : ∀ t ∈ after, ∀ w, ¬Taken t w := fun t ht w hw => hafter t ht ⟨w, hw⟩
      rw [htexts, foldl_update_of_last htext hafter, List.append_cons,
        leaves_append_iff fun t ht => not_wellFormed_of_not_taken (hafter t ht), leaves_concat]
      by_cases hwell : ∃ m, f.WellFormed text m
      · obtain ⟨m, hwell⟩ := hwell
        rw [(hwell.taken htext).2]
        exact .inl hwell
      · refine .inr ⟨fun m h => hwell ⟨m, h⟩, ?_⟩
        exact (hsettled before text after v htexts htext hafter).resolve_left
          fun h => hwell ⟨_, h⟩
    · have hnone : ∀ t ∈ f.texts query, ∀ v, ¬Taken t v :=
        fun t ht v hv => hany ⟨t, ht, v, hv⟩
      rw [foldl_update_of_not_taken hnone]
      exact .inr ⟨fun t ht => not_wellFormed_of_not_taken (hnone t ht), rfl⟩

end FaultField

/-- A query is read as it should be exactly when, under each key, no text that only the code
takes has the last word and changes the field. -/
theorem parse_leaves_iff (query : Bytes) :
    (∀ f : FaultField, f.Leaves (f.texts query) (f.read (FaultSpec.parse query))) ↔
      ∀ f : FaultField, f.Settled query :=
  forall_congr' fun f => f.leaves_read_iff query

/-- A padding byte that does not fit is cut, and a minus after a blank is read. -/
theorem not_parse_leaves :
    (¬∀ f : FaultField, f.Leaves (f.texts (lit "pad_byte=256"))
        (f.read (FaultSpec.parse (lit "pad_byte=256")))) ∧
      ¬∀ f : FaultField, f.Leaves (f.texts (lit "pad= -18446744073709551615"))
        (f.read (FaultSpec.parse (lit "pad= -18446744073709551615"))) := by
  have hpad : scanConstant (lit "256") = some (256, []) := by decide +kernel
  have hminus : scanConstant (lit " -18446744073709551615") = none := by decide +kernel
  constructor
  · intro h
    have hread : FaultField.read (FaultSpec.parse (lit "pad_byte=256")) .padByte = 0 := by
      decide +kernel
    have hleaves := h .padByte
    rw [show FaultField.padByte.texts (lit "pad_byte=256") = [lit "256"] by decide, hread,
      FaultField.leaves_singleton] at hleaves
    rcases hleaves with hwell | ⟨-, hn⟩
    · rw [scanConstant_eq_iff.mpr hwell.1] at hpad
      cases hpad
    · cases hn
  · intro h
    have hread : FaultField.read (FaultSpec.parse (lit "pad= -18446744073709551615")) .pad = 1 := by
      decide +kernel
    have hleaves := h .pad
    rw [show FaultField.pad.texts (lit "pad= -18446744073709551615") =
      [lit " -18446744073709551615"] by decide, hread, FaultField.leaves_singleton] at hleaves
    rcases hleaves with hwell | ⟨-, hn⟩
    · rw [scanConstant_eq_iff.mpr hwell.1] at hminus
      cases hminus
    · cases hn

end ProviderSdk.I2c

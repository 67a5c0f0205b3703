import ProviderSdk.HostText

/-!
# The host check envelope

`envelope` of `src/anolis/provider_sdk/host_check.cpp`, what `--check-host` prints.

It is built without a JSON library, so that it is JSON rests on the commas and on what
`jsonString` writes (`envelope_parses`).
-/

namespace ProviderSdk.HostCheck

open JsonText Utf8

/-! ## The envelope -/

inductive Status where
  | met
  | unmet
  | unknown
  deriving DecidableEq, Repr

/-- `to_string`. -/
def Status.toString : Status → Bytes
  | .met => lit "met"
  | .unmet => lit "unmet"
  | .unknown => lit "unknown"

structure Requirement where
  id : Bytes
  status : Status := .unknown
  detail : Bytes := []
  remedy : Bytes := []
  deriving DecidableEq

def kCheckHostVersion : ℤ := 1

/-- What the loop writes for a requirement. -/
def writeRequirement (r : Requirement) : Bytes :=
  lit "\x7b\"id\":" ++ jsonString r.id ++ lit ",\"status\":" ++ jsonString r.status.toString ++
    (if r.detail.isEmpty then [] else lit ",\"detail\":" ++ jsonString r.detail) ++
    (if r.remedy.isEmpty then [] else lit ",\"remedy\":" ++ jsonString r.remedy) ++ lit "\x7d"

/-- The loop over the requirements, with what is written and whether none is. It throws
`std::invalid_argument`. -/
def writeRequirements : Bool → Bytes → List Requirement → Except Bytes Bytes
  | _, out, [] => .ok out
  | first, out, r :: rs =>
    if r.id.isEmpty then .error (lit "host check requirement has an empty id")
    else writeRequirements false (out ++ (if first then [] else lit ",") ++ writeRequirement r) rs

def envelope (providerName : Bytes) (requirements : List Requirement) : Except Bytes Bytes := do
  let head := lit "\x7b\"check_host_version\":" ++ toStringInt kCheckHostVersion ++
    (if providerName.isEmpty then [] else lit ",\"provider\":" ++ jsonString providerName) ++
    lit ",\"requirements\":["
  let out ← writeRequirements true head requirements
  .ok (out ++ lit "]\x7d")

/-! ## Requirements -/

/-- A value says a requirement : its texts repaired, a detail and a remedy if it has one. -/
def Says (r : Requirement) (v : Value) : Prop :=
  ∃ id detail remedy, Repaired r.id id ∧ Repaired r.detail detail ∧ Repaired r.remedy remedy ∧
    v = .object ([(lit "id", .string id), (lit "status", .string r.status.toString)] ++
      (if r.detail = [] then [] else [(lit "detail", .string detail)]) ++
      (if r.remedy = [] then [] else [(lit "remedy", .string remedy)]))

theorem Status.wellFormed_toString (status : Status) : WellFormed status.toString := by
  cases status <;> exact wellFormed_lit _

/-- A key of the envelope and a text. -/
theorem exists_deriveMember {key : Bytes} (hkey : Chars key key) (text : Bytes) :
    ∃ s, Repaired text s ∧ DeriveMember (memberText key (jsonString text)) (key, .string s) := by
  obtain ⟨s, hs, hderive⟩ := derive_jsonString text
  exact ⟨s, hs, _, rfl, hkey, hderive⟩

/-- A member that is written if its text is not empty. -/
theorem forall₂_unless (text : Bytes) {t : Bytes} {m : Bytes × Value} (h : DeriveMember t m) :
    List.Forall₂ DeriveMember (if text = [] then [] else [t]) (if text = [] then [] else [m]) := by
  split_ifs
  · exact .nil
  · exact .cons h .nil

theorem commas_append_unless (t : Bytes) (ts : List Bytes) (text u : Bytes) :
    commas (t :: (ts ++ if text = [] then [] else [u])) =
      commas (t :: ts) ++ if text = [] then [] else 44 :: u := by
  split_ifs
  · rw [List.append_nil, List.append_nil]
  · exact commas_concat t u ts

/-- The texts of the members of a requirement. -/
def memberTexts (r : Requirement) : List Bytes :=
  memberText (lit "id") (jsonString r.id) ::
    (([memberText (lit "status") (jsonString r.status.toString)] ++
      if r.detail = [] then [] else [memberText (lit "detail") (jsonString r.detail)]) ++
      if r.remedy = [] then [] else [memberText (lit "remedy") (jsonString r.remedy)])

theorem writeRequirement_eq (r : Requirement) :
    writeRequirement r = 123 :: (commas (memberTexts r) ++ [125]) := by
  have hid : lit "\x7b\"id\":" = 123 :: 34 :: (lit "id" ++ [34, 58]) := by decide
  have hstatus : lit ",\"status\":" = 44 :: 34 :: (lit "status" ++ [34, 58]) := by decide
  have hdetail : lit ",\"detail\":" = 44 :: 34 :: (lit "detail" ++ [34, 58]) := by decide
  have hremedy : lit ",\"remedy\":" = 44 :: 34 :: (lit "remedy" ++ [34, 58]) := by decide
  have hend : lit "\x7d" = [125] := by decide
  rw [writeRequirement, memberTexts, commas_append_unless, commas_append_unless, hid, hstatus,
    hdetail, hremedy, hend]
  simp only [List.isEmpty_iff, commas_cons_cons, commas_singleton, memberText]
  split_ifs <;> simp

theorem exists_says (r : Requirement) :
    ∃ v, Says r v ∧ Derive (writeRequirement r) (.value v) := by
  have hplain : ∀ key ∈ [lit "id", lit "status", lit "detail", lit "remedy"], ∀ b ∈ key,
      32 ≤ b.toNat ∧ b ≠ 34 ∧ b ≠ 92 := by decide +kernel
  have hkeys : ∀ key ∈ [lit "id", lit "status", lit "detail", lit "remedy"], Chars key key :=
    fun key hkey => .self (hplain key hkey)
  obtain ⟨id, hid, hidMember⟩ := exists_deriveMember (hkeys (lit "id") (by simp)) r.id
  obtain ⟨status, hstatus, hstatusMember⟩ :=
    exists_deriveMember (hkeys (lit "status") (by simp)) r.status.toString
  obtain ⟨detail, hdetail, hdetailMember⟩ :=
    exists_deriveMember (hkeys (lit "detail") (by simp)) r.detail
  obtain ⟨remedy, hremedy, hremedyMember⟩ :=
    exists_deriveMember (hkeys (lit "remedy") (by simp)) r.remedy
  rw [hstatus.eq_self r.status.wellFormed_toString] at hstatusMember
  refine ⟨_, ⟨id, detail, remedy, hid, hdetail, hremedy, rfl⟩, ?_⟩
  rw [writeRequirement_eq]
  exact derive_object (.cons hidMember (List.rel_append (List.rel_append (.cons hstatusMember .nil)
    (forall₂_unless _ hdetailMember)) (forall₂_unless _ hremedyMember)))

theorem exists_forall₂_says : ∀ rs : List Requirement, ∃ vs, List.Forall₂ Says rs vs ∧
    List.Forall₂ (fun t v => Derive t (.value v)) (rs.map writeRequirement) vs
  | [] => ⟨[], .nil, .nil⟩
  | r :: rs => by
    obtain ⟨v, hv, hderive⟩ := exists_says r
    obtain ⟨vs, hvs, hderives⟩ := exists_forall₂_says rs
    exact ⟨v :: vs, .cons hv hvs, .cons hderive hderives⟩

theorem line_unless {t : Bytes} (h : Line t) (b : Bool) : Line (if b then [] else t) := by
  split_ifs
  · exact .nil
  · exact h

theorem line_writeRequirement (r : Requirement) : Line (writeRequirement r) := by
  have hdetail : Line (lit ",\"detail\":" ++ jsonString r.detail) :=
    .append (.of_all (by decide)) (line_jsonString _)
  have hremedy : Line (lit ",\"remedy\":" ++ jsonString r.remedy) :=
    .append (.of_all (by decide)) (line_jsonString _)
  have hid : Line (lit "\x7b\"id\":" ++ jsonString r.id) :=
    .append (.of_all (by decide)) (line_jsonString _)
  have hstatus : Line (lit ",\"status\":") := .of_all (by decide)
  exact ((((hid.append hstatus).append (line_jsonString _)).append
    (line_unless hdetail _)).append (line_unless hremedy _)).append (.of_all (by decide))

theorem line_commas {ts : List Bytes} (h : ∀ t ∈ ts, Line t) : Line (commas ts) := by
  induction ts with
  | nil => exact .nil
  | cons t ts ih =>
    obtain ⟨ht, hts⟩ := List.forall_mem_cons.mp h
    cases ts with
    | nil => exact ht
    | cons t' ts =>
      have hcomma : Line [44] := .of_all (by decide)
      exact ht.append (hcomma.append (ih hts))

/-! ### The loop -/

theorem writeRequirements_false {rs : List Requirement} (h : ∀ r ∈ rs, r.id ≠ []) (out : Bytes) :
    writeRequirements false out rs =
      .ok (out ++ (rs.map writeRequirement).flatMap (44 :: ·)) := by
  induction rs generalizing out with
  | nil => rw [writeRequirements, List.map_nil, List.flatMap_nil, List.append_nil]
  | cons r rs ih =>
    obtain ⟨hr, hrs⟩ := List.forall_mem_cons.mp h
    rw [writeRequirements, if_neg (by simpa using hr), ih hrs, List.map_cons, List.flatMap_cons,
      List.append_assoc, List.append_assoc]
    rfl

/-- With ids, every requirement is written, and commas between them. -/
theorem writeRequirements_true {rs : List Requirement} (h : ∀ r ∈ rs, r.id ≠ []) (out : Bytes) :
    writeRequirements true out rs = .ok (out ++ commas (rs.map writeRequirement)) := by
  cases rs with
  | nil => rw [writeRequirements, List.map_nil, commas_nil, List.append_nil]
  | cons r rs =>
    obtain ⟨hr, hrs⟩ := List.forall_mem_cons.mp h
    rw [writeRequirements, if_neg (by simpa using hr), if_pos rfl, List.append_nil,
      writeRequirements_false hrs, List.map_cons, commas_cons, List.append_assoc]

/-- An empty id is refused, wherever it is. -/
theorem writeRequirements_of_empty_id {rs : List Requirement} (h : ∃ r ∈ rs, r.id = [])
    (first : Bool) (out : Bytes) : writeRequirements first out rs =
      .error (lit "host check requirement has an empty id") := by
  induction rs generalizing first out with
  | nil => simp at h
  | cons r rs ih =>
    rw [writeRequirements]
    by_cases hr : r.id = []
    · rw [if_pos (by simpa using hr)]
    · rw [if_neg (by simpa using hr)]
      exact ih (by simpa [hr] using h) _ _

/-! ## The envelope parses -/

/-- The texts of the members of the envelope. -/
def envelopeTexts (providerName : Bytes) (requirements : List Requirement) : List Bytes :=
  memberText (lit "check_host_version") (toStringInt kCheckHostVersion) ::
    ((if providerName = [] then [] else [memberText (lit "provider") (jsonString providerName)]) ++
      [memberText (lit "requirements") (91 :: (commas (requirements.map writeRequirement) ++ [93]))])

theorem envelope_eq {requirements : List Requirement} (h : ∀ r ∈ requirements, r.id ≠ [])
    (providerName : Bytes) : envelope providerName requirements =
      .ok (123 :: (commas (envelopeTexts providerName requirements) ++ [125])) := by
  have hversion : lit "\x7b\"check_host_version\":" =
      123 :: 34 :: (lit "check_host_version" ++ [34, 58]) := by decide
  have hprovider : lit ",\"provider\":" = 44 :: 34 :: (lit "provider" ++ [34, 58]) := by decide
  have hrequirements : lit ",\"requirements\":[" =
      44 :: 34 :: (lit "requirements" ++ [34, 58, 91]) := by decide
  have hend : lit "]\x7d" = [93, 125] := by decide
  rw [envelope, writeRequirements_true h]
  change Except.ok _ = _
  rw [hversion, hprovider, hrequirements, hend, envelopeTexts, commas_concat]
  simp only [List.isEmpty_iff, memberText]
  split_ifs <;> simp

theorem line_memberText {key t : Bytes} (hkey : Line key) (ht : Line t) :
    Line (memberText key t) := by
  have hquote : Line [34] := .of_all (by decide)
  have hcolon : Line [34, 58] := .of_all (by decide)
  exact hquote.append (hkey.append (hcolon.append ht))

theorem line_envelope (providerName : Bytes) (requirements : List Requirement) :
    Line (123 :: (commas (envelopeTexts providerName requirements) ++ [125])) := by
  have hopen : Line [123] := .of_all (by decide)
  have hclose : Line [125] := .of_all (by decide)
  refine hopen.append (Line.append (line_commas fun t ht => ?_) hclose)
  rw [envelopeTexts, List.mem_cons, List.mem_append, List.mem_singleton] at ht
  obtain rfl | ht | rfl := ht
  · exact line_memberText (.of_all (by decide)) (.of_all (by decide))
  · split_ifs at ht
    · cases ht
    · rw [List.mem_singleton.mp ht]
      exact line_memberText (.of_all (by decide)) (line_jsonString _)
  · have hbracket : Line [91] := .of_all (by decide)
    have hbracket' : Line [93] := .of_all (by decide)
    have hitems : Line (commas (requirements.map writeRequirement)) :=
      line_commas (List.forall_mem_map.mpr fun r _ => line_writeRequirement r)
    exact line_memberText (.of_all (by decide)) (hbracket.append (hitems.append hbracket'))

/-- With an id for every requirement, the envelope is one line of JSON that says the version, the
provider if there is one, and every requirement in order. Without, it throws. What is said of a
text is the text repaired, which is the text if it is UTF-8. -/
theorem envelope_parses (providerName : Bytes) (requirements : List Requirement) :
    ((∀ r ∈ requirements, r.id ≠ []) → ∃ text provider vs,
      envelope providerName requirements = .ok text ∧ Line text ∧
        Repaired providerName provider ∧ List.Forall₂ Says requirements vs ∧
          Derives text (.object ([(lit "check_host_version", .number (lit "1"))] ++
            (if providerName = [] then [] else [(lit "provider", .string provider)]) ++
            [(lit "requirements", .array vs)]))) ∧
      ((∃ r ∈ requirements, r.id = []) → envelope providerName requirements =
        .error (lit "host check requirement has an empty id")) ∧
      ∀ s s', WellFormed s → Repaired s s' → s' = s := by
  refine ⟨fun h => ?_, fun h => ?_, fun s s' hs hs' => hs'.eq_self hs⟩
  · obtain ⟨vs, hvs, hderives⟩ := exists_forall₂_says requirements
    have hkeys : ∀ key ∈ [lit "check_host_version", lit "provider", lit "requirements"],
        Chars key key := by
      have hplain : ∀ key ∈ [lit "check_host_version", lit "provider", lit "requirements"],
          ∀ b ∈ key, 32 ≤ b.toNat ∧ b ≠ 34 ∧ b ≠ 92 := by decide +kernel
      exact fun key hkey => .self (hplain key hkey)
    obtain ⟨provider, hprovider, hmember⟩ :=
      exists_deriveMember (hkeys (lit "provider") (by simp)) providerName
    have hline := line_envelope providerName requirements
    have hversion : DeriveMember (memberText (lit "check_host_version") (lit "1"))
        (lit "check_host_version", .number (lit "1")) :=
      ⟨_, rfl, hkeys _ (by simp), .number (by decide)⟩
    have hrequirements : DeriveMember (memberText (lit "requirements")
        (91 :: (commas (requirements.map writeRequirement) ++ [93])))
        (lit "requirements", .array vs) :=
      ⟨_, rfl, hkeys _ (by simp), derive_array hderives⟩
    have hprovided := forall₂_unless providerName hmember
    have hderive := derive_object
      (.cons hversion (List.rel_append hprovided (.cons hrequirements .nil)))
    exact ⟨_, provider, vs, envelope_eq h providerName, hline, hprovider, hvs, hline.wellFormed,
      [], _, [], ws_nil, ws_nil, hderive, (List.append_nil _).symm⟩
  · rw [envelope, writeRequirements_of_empty_id h]
    rfl

/-- A requirement whose detail is the first byte of a character that does not follow. -/
theorem envelope_parses_truncated : ∃ text provider vs,
    envelope (lit "bench") [⟨lit "bus", .unmet, [0xC3], []⟩] = .ok text ∧ Line text ∧
      Repaired (lit "bench") provider ∧
        List.Forall₂ Says [⟨lit "bus", .unmet, [0xC3], []⟩] vs ∧
          Derives text (.object ([(lit "check_host_version", .number (lit "1"))] ++
            (if lit "bench" = [] then [] else [(lit "provider", .string provider)]) ++
            [(lit "requirements", .array vs)])) :=
  (envelope_parses (lit "bench") [⟨lit "bus", .unmet, [0xC3], []⟩]).1 (by decide)

end ProviderSdk.HostCheck

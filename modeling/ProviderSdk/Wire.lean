import ProviderSdk.RunLoop

/-!
# A wire format and a provider to run the loop with

`Wire.codec` is a `Codec` : protobuf's encoding of the responses of a provider without
devices. The field numbers are the protocol's to choose, so these are a choice. Requests
are parsed from a table of frames.

`quiet` is a provider without devices, whose methods only answer.
-/

namespace ProviderSdk

namespace Wire

/-! ## Encoding -/

/-- A base-128 varint of at most `n` bytes. -/
def varint : ℕ → ℕ → Bytes
  | 0, _ => []
  | n + 1, v =>
    if v < 128 then [UInt8.ofNat v] else UInt8.ofNat (v % 128 + 128) :: varint n (v / 128)

/-- A varint field, left out when it is zero. -/
def varintField (field v : ℕ) : Bytes :=
  if v = 0 then [] else varint 10 (8 * field) ++ varint 10 v

/-- A length-delimited field. -/
def lengthDelimited (field : ℕ) (body : Bytes) : Bytes :=
  varint 10 (8 * field + 2) ++ varint 10 body.length ++ body

/-- A string field, left out when it is empty. -/
def stringField (field : ℕ) (body : Bytes) : Bytes :=
  if body = [] then [] else lengthDelimited field body

def mapField (field : ℕ) (m : StringMap Bytes) : Bytes :=
  m.entries.flatMap fun e => lengthDelimited field (lengthDelimited 1 e.1 ++ lengthDelimited 2 e.2)

def codeNumber : Status.Code → ℕ
  | .ok => 1
  | .invalidArgument => 2
  | .notFound => 3
  | .failedPrecondition => 4
  | .outOfRange => 5
  | .unimplemented => 6
  | .internal => 7
  | .unavailable => 8
  | .deadlineExceeded => 9
  | .resourceExhausted => 10
  | .other n => (n % 2 ^ 64).toNat

def status (status : Status) : Bytes :=
  varintField 1 (codeNumber status.code) ++ stringField 2 status.message ++
    mapField 3 status.details

/-- The payload, for those a provider without devices needs. -/
def payload : Response.Payload → Option Bytes
  | .none => some []
  | .hello hello => some (lengthDelimited 3 (stringField 1 hello.protocolVersion ++
      stringField 2 hello.providerName ++ stringField 3 hello.providerVersion ++
        mapField 4 hello.metadata))
  | .waitReady waitReady => some (lengthDelimited 4 (mapField 1 waitReady.diagnostics))
  | _ => none

def serialize (response : Response) : Option Bytes :=
  (payload response.payload).bind fun body =>
    let bytes := varintField 1 response.requestId.toNat ++
      lengthDelimited 2 (status response.status) ++ body
    if bytes.length < 2 ^ 31 then some bytes else none

/-! ## Sizes -/

theorem length_varint_le : ∀ n v, (varint n v).length ≤ n
  | 0, _ => le_rfl
  | n + 1, v => by
    unfold varint
    split_ifs
    · simp
    · simpa using length_varint_le n (v / 128)

theorem length_varintField_le (field v : ℕ) : (varintField field v).length ≤ 20 := by
  unfold varintField
  split_ifs
  · simp
  · rw [List.length_append]
    exact Nat.add_le_add (length_varint_le 10 _) (length_varint_le 10 _)

theorem length_lengthDelimited_le (field : ℕ) (body : Bytes) :
    (lengthDelimited field body).length ≤ 20 + body.length := by
  have h1 := length_varint_le 10 (8 * field + 2)
  have h2 := length_varint_le 10 body.length
  simp only [lengthDelimited, List.length_append]
  omega

theorem length_lt_lengthDelimited (field : ℕ) (body : Bytes) :
    body.length < (lengthDelimited field body).length := by
  have h : 0 < (varint 10 (8 * field + 2)).length := by
    unfold varint
    split_ifs <;> simp
  simp only [lengthDelimited, List.length_append]
  omega

theorem length_stringField_le (field : ℕ) (body : Bytes) :
    (stringField field body).length ≤ 20 + body.length := by
  unfold stringField
  split_ifs
  · simp
  · exact length_lengthDelimited_le field body

/-- A map's encoding is longer than each of its values. -/
theorem length_le_mapField (field : ℕ) {m : StringMap Bytes} {key value : Bytes}
    (h : m.lookup key = some value) : value.length ≤ (mapField field m).length := by
  have hmem : Sigma.mk key value ∈ m.entries := AList.mem_lookup_iff.mp h
  obtain ⟨before, after, hentries⟩ := List.append_of_mem hmem
  have hvalue := length_lt_lengthDelimited 2 value
  have hentry := length_lt_lengthDelimited field (lengthDelimited 1 key ++ lengthDelimited 2 value)
  rw [List.length_append] at hentry
  rw [mapField, hentries]
  simp only [List.flatMap_append, List.flatMap_cons, List.length_append]
  omega

theorem serialize_ne_nil {response : Response} {bytes : Bytes}
    (h : serialize response = some bytes) : bytes ≠ [] := by
  obtain ⟨body, -, hbody⟩ := Option.bind_eq_some_iff.mp h
  dsimp only at hbody
  split_ifs at hbody
  cases hbody
  simp [lengthDelimited, varint]

theorem length_serialize_lt {response : Response} {bytes : Bytes}
    (h : serialize response = some bytes) : bytes.length < 2 ^ 31 := by
  obtain ⟨body, -, hbody⟩ := Option.bind_eq_some_iff.mp h
  dsimp only at hbody
  split_ifs at hbody with hlen
  cases hbody
  exact hlen

theorem serialize_short (requestId : UInt64) (code : Status.Code) (message : Bytes)
    (h : message.length ≤ 80) :
    ∃ bytes, serialize ⟨requestId, ⟨code, message, ∅⟩, .none⟩ = some bytes ∧
      bytes.length ≤ kMaxFrameBytes.toNat := by
  have hid := length_varintField_le 1 requestId.toNat
  have hcode := length_varintField_le 1 (codeNumber code)
  have hmessage := length_stringField_le 2 message
  have hstatus := length_lengthDelimited_le 2 (status ⟨code, message, ∅⟩)
  have hdetails : mapField 3 (∅ : StringMap Bytes) = [] := rfl
  have hsize : (varintField 1 requestId.toNat ++
      lengthDelimited 2 (status ⟨code, message, ∅⟩)).length ≤ 200 := by
    simp only [status, hdetails, List.length_append, List.length_nil] at hstatus ⊢
    omega
  refine ⟨varintField 1 requestId.toNat ++ lengthDelimited 2 (status ⟨code, message, ∅⟩), ?_, ?_⟩
  · simp only [serialize, payload, Option.bind_some, List.append_nil]
    exact if_pos (by omega)
  · exact hsize.trans (by decide)

/-- The codec that parses the frames of a table. -/
def codec (requests : List (Bytes × Request)) : Codec where
  parse frame := (requests.find? fun r => r.1 = frame).map Prod.snd
  serialize := serialize
  serialize_ne_nil := serialize_ne_nil
  length_serialize_lt := length_serialize_lt
  serialize_short := serialize_short

/-- A Hello for `v1`. -/
def helloRequest : Request :=
  ⟨1, .hello ⟨lit "v1"⟩⟩

/-- A WaitReady with a hint of 5 s. -/
def waitReadyRequest : Request :=
  ⟨2, .waitReady ⟨5000⟩⟩

def helloFrame : Bytes :=
  [0x08, 0x01, 0x12, 0x04, 0x0A, 0x02, 0x76, 0x31]

def waitReadyFrame : Bytes :=
  [0x08, 0x02, 0x1A, 0x03, 0x08, 0x88, 0x27]

/-- The codec that knows the two requests. -/
def twoRequests : Codec :=
  codec [(helloFrame, helloRequest), (waitReadyFrame, waitReadyRequest)]

theorem serialize_twoRequests : twoRequests.serialize = serialize :=
  rfl

/-- A Hello is serialized to more bytes than each of its metadata values. -/
theorem length_serialize_hello {response : Response} {hello : HelloResponse}
    {bytes key value : Bytes} (hpayload : response.payload = .hello hello)
    (hvalue : hello.metadata.lookup key = some value)
    (h : serialize response = some bytes) : value.length < bytes.length := by
  have hmap := length_le_mapField 4 hvalue
  obtain ⟨body, hbody, hlen⟩ := Option.bind_eq_some_iff.mp h
  rw [hpayload] at hbody
  cases hbody
  dsimp only at hlen
  split_ifs at hlen
  cases hlen
  have hfield := length_lt_lengthDelimited 3 (stringField 1 hello.protocolVersion ++
    stringField 2 hello.providerName ++ stringField 3 hello.providerVersion ++
      mapField 4 hello.metadata)
  simp only [List.length_append] at hfield ⊢
  omega

end Wire

/-! ## A quiet provider -/

/-- A provider without devices that reports `metadata`, `report`, and nothing else. -/
def quiet (metadata : ProviderMetadata) (report : ReadinessReport) : Host Unit where
  runtime :=
    { metadata := fun s => (metadata, s)
      readiness := fun s => (report, s)
      deviceHealth := fun _ s => (⟨∅, none, none, none⟩, s)
      providerHealth := fun s => (⟨∅, none, none⟩, s)
      listDeviceIds := fun s => ([], s)
      hasDevice := fun _ s => (false, s)
      deviceInfo := fun deviceId s => (⟨deviceId, [], ∅⟩, s)
      capabilities := fun _ s => (⟨[], []⟩, s)
      read := fun _ _ s => (⟨false, .notFound, [], []⟩, s)
      call := fun _ _ _ s => (⟨false, .notFound, [], ∅⟩, s)
      resolveFunctionId := fun _ _ s => (none, s) }
  hooks := { onInitialize := fun _ s => s, onWaitReady := id, onShutdown := id }
  now := fun s => (0, s)
  number := .silent

theorem failuresCarryErrors_quiet (metadata : ProviderMetadata) (report : ReadinessReport) :
    (quiet metadata report).FailuresCarryErrors :=
  ⟨fun _ _ _ _ => Status.Code.noConfusion, fun _ _ _ _ _ => Status.Code.noConfusion⟩

/-- A report of nothing configured. -/
def emptyReport : ReadinessReport :=
  ⟨0, [], [], lit "strict", lit "quiet", ∅⟩

/-- The metadata of a provider for `v1`, with `extra` of its own. -/
def metadataWith (extra : StringMap Bytes) : ProviderMetadata :=
  ⟨lit "quiet", lit "1.0.0", lit "v1", extra⟩

/-- An output stream that takes everything. -/
def OStream.sink : OStream :=
  ⟨[], true, fun _ => .ok⟩

end ProviderSdk

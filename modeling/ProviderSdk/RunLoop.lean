import ProviderSdk.Handlers

/-!
# The serving loop

`src/anolis/provider_sdk/runtime.cpp`. `runLoop` reads a frame, parses it, answers it and
writes the answer, until a frame cannot be read, parsed or written; `on_shutdown` fires on
every exit.

Protobuf is not part of the repository : a `Codec` is its parse and serialize functions,
with what the loop relies on.
-/

namespace ProviderSdk

variable {σ : Type}

/-- Protobuf's `ParseFromArray` and `SerializeToString`. A response has its status set, so
it is never serialized as nothing; no message of 2 GiB or more is serialized; and one with
a request id and a short status is a small message. -/
structure Codec where
  parse : Bytes → Option Request
  serialize : Response → Option Bytes
  serialize_ne_nil : ∀ {r b}, serialize r = some b → b ≠ []
  length_serialize_lt : ∀ {r b}, serialize r = some b → b.length < 2 ^ 31
  serialize_short : ∀ requestId code message, message.length ≤ 80 →
    ∃ b, serialize ⟨requestId, ⟨code, message, ∅⟩, .none⟩ = some b ∧
      b.length ≤ kMaxFrameBytes.toNat

/-! ## The source's functions -/

/-- WaitReady's hint, or `0` (no hint) for any other request. -/
def initializeBudget (request : Request) : ℕ :=
  match request.kind with
  | .waitReady waitReady => waitReady.maxWaitMsHint.toNat
  | _ => 0

/-- The response a handler starts from. -/
def initialResponse (request : Request) : Response :=
  ⟨request.requestId, ⟨.internal, lit "uninitialized", ∅⟩, .none⟩

/-- The answer to a request that came before a successful Hello. -/
def refusal (request : Request) : Response :=
  (initialResponse request).setStatus .failedPrecondition
    (lit "Hello handshake required before any other request")

/-- The small error sent for a response that cannot be framed. -/
def fallback (request : Request) (serialized : Option Bytes) : Response :=
  match serialized with
  | some bytes =>
    ⟨request.requestId,
      ⟨.resourceExhausted, lit "response of " ++ toStringNat bytes.length ++
        lit " bytes exceeds the " ++ toStringNat kMaxFrameBytes.toNat ++ lit "-byte frame limit", ∅⟩,
      .none⟩
  | none => ⟨request.requestId, ⟨.internal, lit "response could not be serialized", ∅⟩, .none⟩

/-- The response to send for `own`, and its bytes : `own` itself, or the fallback when it
is over the cap or not serializable. A fallback that fails to serialize has no bytes. -/
def encodeResponse (codec : Codec) (request : Request) (own : Response) : Response × Bytes :=
  let sendFallback (serialized : Option Bytes) : Response × Bytes :=
    (fallback request serialized, (codec.serialize (fallback request serialized)).getD [])
  match codec.serialize own with
  | some bytes =>
    if bytes.length > kMaxFrameBytes.toNat then sendFallback (some bytes) else (own, bytes)
  | none => sendFallback none

/-- The two flags of the session. -/
structure Flags where
  helloCompleted : Bool
  initialized : Bool
  deriving DecidableEq, Repr

/-- The provider's start-up runs once, after Hello and before the first request it would
answer from the inventory. -/
def startUp (host : Host σ) (flags : Flags) (request : Request) : Sdk σ Flags :=
  if flags.helloCompleted && !flags.initialized && !request.hasHello then do
    host.onInitialize (initializeBudget request)
    return { flags with initialized := true }
  else return flags

/-- Run the request's handler, and note its response. -/
def runHandler (host : Host σ) (request : Request) : Sdk σ Response := do
  let response ← handle host request (initialResponse request)
  Traced.note (.handled request response)
  return response

/-- The gate and the dispatch. -/
def dispatch (host : Host σ) (flags : Flags) (request : Request) : Sdk σ (Response × Flags) :=
  if request.hasHello then do
    let response ← runHandler host request
    return (response,
      { flags with helloCompleted := flags.helloCompleted || response.status.code = .ok })
  else if flags.helloCompleted = false then do
    Traced.note (.refused request (refusal request))
    return (refusal request, flags)
  else do
    let response ← runHandler host request
    if request.hasWaitReady then
      host.onWaitReady
      return (response, flags)
    else return (response, flags)

/-- Send `own`, or its fallback : whether it was written, and the stream after it. -/
def reply (codec : Codec) (output : OStream) (request : Request) (own : Response) :
    Sdk σ (Bool × OStream) :=
  let sent := encodeResponse codec request own
  let written := writeFrame output sent.2 kMaxFrameBytes
  if written.1 then do
    Traced.note (.wrote request own sent.1 sent.2)
    return (true, written.2.2)
  else do
    Traced.note (.writeFailed request)
    return (false, written.2.2)

/-- What one request leaves the loop. -/
structure Served where
  written : Bool
  flags : Flags
  output : OStream

/-- One request : start up if it is time, dispatch, reply. -/
def serveRequest (host : Host σ) (codec : Codec) (flags : Flags) (output : OStream)
    (request : Request) : Sdk σ Served := do
  Traced.note (.received request)
  let flags ← startUp host flags request
  let dispatched ← dispatch host flags request
  let replied ← reply codec output request dispatched.1
  return ⟨replied.1, dispatched.2, replied.2⟩

/-- The loop : the exit code and the output stream it leaves. -/
def serve (host : Host σ) (codec : Codec) (flags : Flags) (input : IStream) (output : OStream) :
    Sdk σ (ℕ × OStream) :=
  match _hread : readFrame input [] kMaxFrameBytes with
  | (⟨false, _, error⟩, _) => return (if error = [] then 0 else 2, output)
  | (⟨true, frame, _⟩, rest) =>
    match codec.parse frame with
    | none => return (3, output)
    | some request => do
      let served ← serveRequest host codec flags output request
      if served.written then serve host codec served.flags rest served.output
      else return (5, served.output)
termination_by input.rest.length
decreasing_by exact rest_lt_of_readFrame _hread

/-- `run_loop` : the loop from a fresh session, then the shutdown hook. -/
def runLoop (host : Host σ) (codec : Codec) (input : IStream) (output : OStream) :
    Sdk σ (ℕ × OStream) := do
  let exit ← serve host codec ⟨false, false⟩ input output
  host.onShutdown
  return exit

/-! ## Induction on the loop -/

/-- One turn of the loop. -/
theorem serve_eq (host : Host σ) (codec : Codec) (flags : Flags) (input : IStream)
    (output : OStream) :
    serve host codec flags input output =
      match readFrame input [] kMaxFrameBytes with
      | (⟨false, _, error⟩, _) => pure (if error = [] then 0 else 2, output)
      | (⟨true, frame, _⟩, rest) =>
        match codec.parse frame with
        | none => pure (3, output)
        | some request =>
          serveRequest host codec flags output request >>= fun served =>
            if served.written then serve host codec served.flags rest served.output
            else pure (5, served.output) := by
  rw [serve]
  split <;> rename_i h <;> simp only [h]

/-- A turn on a frame that parses. -/
theorem serve_frame (host : Host σ) {codec : Codec} {frame : Bytes} {request : Request}
    (hframe : FramePayload kMaxFrameBytes frame) (hparse : codec.parse frame = some request)
    (flags : Flags) (rest : Bytes) (e : Ending) (output : OStream) :
    serve host codec flags (.of (frameBytes frame ++ rest) e) output =
      serveRequest host codec flags output request >>= fun served =>
        if served.written then serve host codec served.flags (.of rest e) served.output
        else pure (5, served.output) := by
  rw [serve_eq, readFrame_frameBytes hframe]
  simp only [hparse]

/-- The end of the input. -/
theorem serve_nil (host : Host σ) (codec : Codec) (flags : Flags) (e : Ending) (output : OStream) :
    serve host codec flags (.of [] e) output = pure (0, output) := by
  rw [serve_eq, readFrame_nil]
  rfl

/-- What holds where the loop stops, and of a turn when it holds of every way to go on from
it, holds of the loop. -/
theorem serve_induction {host : Host σ} {codec : Codec}
    {P : Flags → IStream → OStream → Sdk σ (ℕ × OStream) → Prop}
    (hend : ∀ {flags input output out error rest},
      readFrame input [] kMaxFrameBytes = (⟨false, out, error⟩, rest) →
        P flags input output (pure (if error = [] then 0 else 2, output)))
    (hbad : ∀ {flags input output frame error rest},
      readFrame input [] kMaxFrameBytes = (⟨true, frame, error⟩, rest) →
        codec.parse frame = none → P flags input output (pure (3, output)))
    (hturn : ∀ {flags input output frame error rest request},
      readFrame input [] kMaxFrameBytes = (⟨true, frame, error⟩, rest) →
        codec.parse frame = some request →
          (∀ flags output, P flags rest output (serve host codec flags rest output)) →
            P flags input output
              (serveRequest host codec flags output request >>= fun served =>
                if served.written then serve host codec served.flags rest served.output
                else pure (5, served.output))) :
    ∀ (flags : Flags) (input : IStream) (output : OStream),
      P flags input output (serve host codec flags input output) := by
  intro flags input
  -- on the bytes left : a frame that is read leaves fewer
  induction hn : input.rest.length using Nat.strong_induction_on generalizing flags input with
  | _ n ih =>
    intro output
    rw [serve_eq]
    cases hread : readFrame input [] kMaxFrameBytes with
    | mk read rest =>
      obtain ⟨ok, frame, error⟩ := read
      cases ok with
      | false => exact hend hread
      | true =>
        dsimp only
        cases hparse : codec.parse frame with
        | none => exact hbad hread hparse
        | some request =>
          have hlt := rest_lt_of_readFrame hread
          exact hturn hread hparse fun flags output => ih _ (hn ▸ hlt) flags rest rfl output

end ProviderSdk

import ProviderSdk.Wire
import ProviderSdk.Guarantees

/-!
# One answer for each request

`run_loop` answers every request it parses exactly once, in order. `encodeResponse` always
makes a frame that can be written (`encodeResponse_spec`), whatever the response;
`serveRequest_answers` is one turn of the loop and `runLoop_answers` the run. The responses
are those of the handlers, each in the state that the run had left the host in by then
(`runLoop_own`).
-/

namespace ProviderSdk

variable {σ : Type}

/-! ## What is sent -/

variable (codec : Codec)

/-- A fallback is a small message. -/
theorem serialize_fallback (request : Request) {own : Response} {serialized : Option Bytes}
    (h : codec.serialize own = serialized) :
    ∃ bytes, codec.serialize (fallback request serialized) = some bytes ∧
      bytes.length ≤ kMaxFrameBytes.toNat := by
  cases serialized with
  | none => exact codec.serialize_short request.requestId _ _ (by decide)
  | some bytes =>
    have hlen := codec.length_serialize_lt h
    have hdigits : (toStringNat bytes.length).length ≤ 10 :=
      length_toStringNat_le (by omega) (by omega)
    refine codec.serialize_short request.requestId _ _ ?_
    have h1 : (lit "response of ").length = 12 := rfl
    have h2 : (lit " bytes exceeds the ").length = 19 := rfl
    have h3 : (toStringNat kMaxFrameBytes.toNat).length ≤ 10 :=
      length_toStringNat_le (by omega) (by decide)
    have h4 : (lit "-byte frame limit").length = 17 := rfl
    simp only [List.length_append]
    omega

/-- What is sent for a response : the response itself when it fits a frame, else the
fallback; in either case bytes that serialize it and fit a frame. -/
theorem encodeResponse_spec (request : Request) (own : Response) :
    codec.serialize (encodeResponse codec request own).1 =
        some (encodeResponse codec request own).2 ∧
      FramePayload kMaxFrameBytes (encodeResponse codec request own).2 ∧
      ((∃ bytes, codec.serialize own = some bytes ∧ bytes.length ≤ kMaxFrameBytes.toNat ∧
          encodeResponse codec request own = (own, bytes)) ∨
        (∀ bytes, codec.serialize own = some bytes → kMaxFrameBytes.toNat < bytes.length) ∧
          (encodeResponse codec request own).1 = fallback request (codec.serialize own)) := by
  have hpos : ∀ {r b}, codec.serialize r = some b → 1 ≤ b.length := fun h =>
    List.length_pos_iff.mpr (codec.serialize_ne_nil h)
  cases hown : codec.serialize own with
  | none =>
    obtain ⟨bytes, hbytes, hlen⟩ := serialize_fallback codec request hown
    have henc : encodeResponse codec request own = (fallback request none, bytes) := by
      simp [encodeResponse, hown, hbytes]
    rw [henc]
    exact ⟨hbytes, ⟨hpos hbytes, hlen⟩, .inr ⟨by simp, rfl⟩⟩
  | some bytes =>
    by_cases hlen : bytes.length ≤ kMaxFrameBytes.toNat
    · have henc : encodeResponse codec request own = (own, bytes) := by
        simp [encodeResponse, hown, Nat.not_lt.mpr hlen]
      rw [henc]
      exact ⟨hown, ⟨hpos hown, hlen⟩, .inl ⟨bytes, rfl, hlen, rfl⟩⟩
    · obtain ⟨bytes', hbytes', hlen'⟩ := serialize_fallback codec request hown
      have henc : encodeResponse codec request own = (fallback request (some bytes), bytes') := by
        simp [encodeResponse, hown, Nat.not_le.mp hlen, hbytes']
      rw [henc]
      refine ⟨hbytes', ⟨hpos hbytes', hlen'⟩, .inr ⟨?_, rfl⟩⟩
      rintro b ⟨⟩
      exact Nat.not_le.mp hlen

/-- `response` goes out as it is. -/
def Fits (response : Response) : Prop :=
  ∃ bytes, codec.serialize response = some bytes ∧ bytes.length ≤ kMaxFrameBytes.toNat

variable {codec} in
theorem encodeResponse_of_fits {response : Response} (h : Fits codec response)
    (request : Request) : (encodeResponse codec request response).1 = response := by
  obtain ⟨bytes, hbytes, hlen⟩ := h
  simp [encodeResponse, hbytes, Nat.not_lt.mpr hlen]

/-- A refusal is a small message. -/
theorem fits_refusal (request : Request) : Fits codec (refusal request) :=
  codec.serialize_short request.requestId _ _ (by decide)

/-- A response that was written, for which request, and in place of which response. -/
structure Answer where
  request : Request
  own : Response
  sent : Response
  frame : Bytes

/-- The answer is the request's : it carries the request's id, and either `CODE_OK` and the
payload of the request's kind or neither; it is the handler's own response whenever that
fits a frame, and else a small error. -/
structure Answer.Correct (a : Answer) : Prop where
  requestId : a.sent.requestId = a.request.requestId
  serialized : codec.serialize a.sent = some a.frame
  length_pos : 1 ≤ a.frame.length
  length_le : a.frame.length ≤ kMaxFrameBytes.toNat
  ok_iff : a.sent.status.code = .ok ↔ a.sent.payload.Answers a.request.kind
  payload_none : a.sent.status.code ≠ .ok → a.sent.payload = .none
  own : ∀ bytes, codec.serialize a.own = some bytes → bytes.length ≤ kMaxFrameBytes.toNat →
    a.sent = a.own ∧ a.frame = bytes
  tooLong : ∀ bytes, codec.serialize a.own = some bytes → kMaxFrameBytes.toNat < bytes.length →
    a.sent.status.code = .resourceExhausted
  unserializable : codec.serialize a.own = none → a.sent.status.code = .internal

/-- No payload answers any request. -/
theorem not_answers_none (kind : Request.Kind) : ¬Response.Payload.Answers .none kind := by
  cases kind <;> exact id

/-- A response that concludes is answered correctly. -/
theorem correct_of_concludes {request : Request} {own : Response}
    (h : Response.Concludes request.kind (initialResponse request) own) :
    Answer.Correct codec ⟨request, own, (encodeResponse codec request own).1,
      (encodeResponse codec request own).2⟩ := by
  obtain ⟨hserialized, ⟨hpos, hle⟩, hsent⟩ := encodeResponse_spec codec request own
  obtain ⟨hid, hconcludes⟩ := h
  rcases hsent with ⟨bytes, hbytes, hlen, henc⟩ | ⟨hlong, hsent⟩
  · rw [henc] at hserialized hpos hle ⊢
    refine ⟨hid, hserialized, hpos, hle, ?_, ?_, ?_, ?_, ?_⟩
    · rcases hconcludes with ⟨hok, hanswers⟩ | ⟨hok, hnone⟩
      · exact iff_of_true hok hanswers
      · refine iff_of_false hok fun h => ?_
        rw [hnone] at h
        exact not_answers_none _ h
    · exact fun hok => (hconcludes.resolve_left fun h => hok h.1).2
    · intro bytes' hbytes' _
      cases hbytes.symm.trans hbytes'
      exact ⟨rfl, rfl⟩
    · intro bytes' hbytes' hlen'
      cases hbytes.symm.trans hbytes'
      omega
    · intro hnone
      rw [hbytes] at hnone
      cases hnone
  · rw [hsent] at hserialized ⊢
    have hfallback : ∀ serialized, (fallback request serialized).requestId = request.requestId ∧
        (fallback request serialized).status.code ≠ .ok ∧
          (fallback request serialized).payload = .none := fun serialized => by
      cases serialized <;> exact ⟨rfl, Status.Code.noConfusion, rfl⟩
    obtain ⟨hid', hcode, hpayload⟩ := hfallback (codec.serialize own)
    refine ⟨hid', hserialized, hpos, hle, ?_, fun _ => hpayload, ?_, ?_, ?_⟩
    · refine iff_of_false hcode fun h => ?_
      rw [hpayload] at h
      exact not_answers_none _ h
    · intro bytes hbytes hlen
      exact absurd (hlong bytes hbytes) (by omega)
    · intro bytes hbytes _
      rw [hbytes]
      rfl
    · intro hnone
      rw [hnone]
      rfl

/-! ## The ledger of a run -/

/-- The request an event received. -/
def Event.received? : Event → Option Request
  | .received request => some request
  | _ => none

/-- The response an event made, and its request. -/
def Event.made? : Event → Option (Request × Response)
  | .handled request response => some (request, response)
  | .refused request response => some (request, response)
  | _ => none

/-- The answer an event wrote. -/
def Event.answer? : Event → Option Answer
  | .wrote request own sent frame => some ⟨request, own, sent, frame⟩
  | _ => none

/-- What a list of events received, made and wrote. -/
def ledger (es : List Event) : List Request × List (Request × Response) × List Answer :=
  (es.filterMap Event.received?, es.filterMap Event.made?, es.filterMap Event.answer?)

theorem ledger_append (es es' : List Event) :
    ledger (es ++ es') =
      ((ledger es).1 ++ (ledger es').1, (ledger es).2.1 ++ (ledger es').2.1,
        (ledger es).2.2 ++ (ledger es').2.2) := by
  simp [ledger]

theorem ledger_received (request : Request) (es : List Event) :
    ledger (.received request :: es) =
      (request :: (ledger es).1, (ledger es).2.1, (ledger es).2.2) :=
  rfl

/-- Questions are not in the ledger. -/
theorem ledger_questions {es : List Event} (h : ∀ e ∈ es, e.IsQuestion) :
    ledger es = ([], [], []) := by
  have hnone : ∀ e ∈ es, e.received? = none ∧ e.made? = none ∧ e.answer? = none := by
    intro e he
    have hq := h e he
    cases e with
    | invoked _ => exact ⟨rfl, rfl, rfl⟩
    | clockRead _ => exact ⟨rfl, rfl, rfl⟩
    | _ => exact hq.elim
  simp only [ledger, Prod.mk.injEq, List.filterMap_eq_nil_iff]
  exact ⟨fun e he => (hnone e he).1, fun e he => (hnone e he).2.1, fun e he => (hnone e he).2.2⟩

/-! ## One turn -/

variable {host : Host σ}

theorem runHandler_ledger (request : Request) :
    (runHandler host request).Ensures fun own es => ledger es = ([], [(request, own)], []) := by
  refine .bind (handle_emits host request _) fun own es hes _ => ?_
  change ledger (es ++ [.handled request own]) = _
  rw [ledger_append, ledger_questions hes]
  rfl

/-- Whatever the handlers do, one response is made for the request. -/
theorem dispatch_ledger (flags : Flags) (request : Request) :
    (dispatch host flags request).Ensures fun out es =>
      ledger es = ([], [(request, out.1)], []) := by
  refine .ite (fun _ => ?_) fun _ => .ite (fun _ => fun _ => rfl) fun _ => ?_
  · exact .bind (runHandler_ledger request) fun own es hes => .pure (by simpa using hes)
  · refine .bind (runHandler_ledger request) fun own es hes => ?_
    refine .ite (fun _ => fun _ => ?_) fun _ => .pure (by simpa using hes)
    change ledger (es ++ [.onWaitReady]) = _
    rw [ledger_append, hes]
    rfl

theorem runHandler_concludes (hfail : host.FailuresCarryErrors) (request : Request) :
    (runHandler host request).Returns fun own =>
      Response.Concludes request.kind (initialResponse request) own :=
  .bind_value (handle_concludes hfail request _) fun _ h => .bind fun _ => .pure h

theorem dispatch_concludes (hfail : host.FailuresCarryErrors) (flags : Flags)
    (request : Request) :
    (dispatch host flags request).Returns fun out =>
      Response.Concludes request.kind (initialResponse request) out.1 := by
  refine .ite (fun _ => ?_) fun _ => .ite (fun _ => ?_) fun _ => ?_
  · exact .bind_value (runHandler_concludes hfail request) fun _ h => .pure h
  · exact fun _ => concludes_setStatus Status.Code.noConfusion
  · exact .bind_value (runHandler_concludes hfail request) fun _ h =>
      .ite (fun _ => .bind fun _ => .pure h) fun _ => .pure h

theorem startUp_ledger (flags : Flags) (request : Request) :
    (startUp host flags request).Ensures fun _ es => ledger es = ([], [], []) := by
  refine .ite (fun _ => fun _ => rfl) fun _ => .pure rfl

/-- What `reply` writes for `own`. -/
def answerTo (request : Request) (own : Response) : Answer :=
  ⟨request, own, (encodeResponse codec request own).1, (encodeResponse codec request own).2⟩

/-- A reply is written whole, or the stream failed. -/
theorem reply_answers (output : OStream) (request : Request) (own : Response) :
    (reply codec output request own : Sdk σ _).Ensures fun out es =>
      (out.1 = true → ledger es = ([], [], [answerTo codec request own]) ∧
        out.2.written = output.written ++ frameBytes (answerTo codec request own).frame) ∧
      (out.1 = false → ledger es = ([], [], []) ∧
        ∃ torn, out.2.written = output.written ++ torn) ∧
      (output.Sound → out.1 = true ∧ out.2.Sound) := by
  have hframe := (encodeResponse_spec codec request own).2.1
  obtain ⟨torn, hwritten, -, htorn⟩ := exists_torn_writeFrame output hframe
  have hsound := fun ho : output.Sound => writeFrame_sound ho hframe
  refine Traced.Ensures.ite (fun hok s => ?_) fun hok s => ?_
  · rw [htorn hok] at hwritten
    exact ⟨fun _ => ⟨rfl, hwritten⟩, fun h => Bool.noConfusion (h : true = false),
      fun ho => ⟨rfl, (hsound ho).2.1⟩⟩
  · exact ⟨fun h => Bool.noConfusion (h : false = true), fun _ => ⟨rfl, torn, hwritten⟩,
      fun ho => absurd (hsound ho).1 hok⟩

/-- One turn of the loop : the request is received, a response is made for it, and the
answer is written or the stream failed. -/
theorem serveRequest_answers (flags : Flags) (output : OStream) (request : Request) :
    (serveRequest host codec flags output request).Ensures fun served es => ∃ own,
      (host.FailuresCarryErrors →
        Response.Concludes request.kind (initialResponse request) own) ∧
      (served.written = true →
        ledger es = ([request], [(request, own)], [answerTo codec request own]) ∧
          served.output.written =
            output.written ++ frameBytes (answerTo codec request own).frame) ∧
      (served.written = false → ledger es = ([request], [(request, own)], []) ∧
        ∃ torn, served.output.written = output.written ++ torn) ∧
      (output.Sound → served.written = true ∧ served.output.Sound) := by
  refine .bind (R := fun _ es => es = [.received request]) (fun _ => rfl) fun _ _ h => h ▸ ?_
  refine .bind (startUp_ledger flags request) fun flags es₁ h₁ => ?_
  have hdispatch : (dispatch host flags request).Ensures fun out es =>
      ledger es = ([], [(request, out.1)], []) ∧ (host.FailuresCarryErrors →
        Response.Concludes request.kind (initialResponse request) out.1) := fun s =>
    ⟨dispatch_ledger flags request s, fun hfail => dispatch_concludes hfail flags request s⟩
  refine .bind hdispatch fun out es₂ ⟨h₂, hconcludes⟩ => ?_
  refine .bind (reply_answers codec output request out.1) fun replied es₃ ⟨h₃, h₄, h₅⟩ => .pure ?_
  refine ⟨out.1, hconcludes, fun hok => ⟨?_, (h₃ hok).2⟩, fun hok => ⟨?_, (h₄ hok).2⟩, h₅⟩
  · simp [ledger_received, ledger_append, h₁, h₂, (h₃ hok).1]
  · simp [ledger_received, ledger_append, h₁, h₂, (h₄ hok).1]

/-! ## The run -/

/-- The values of `f` up to the first `none`. -/
def leading {α β : Type} (f : α → Option β) : List α → List β
  | [] => []
  | a :: l =>
    match f a with
    | some b => b :: leading f l
    | none => []

/-- The requests the frames of the input parse as, up to the first that does not. -/
def arrivals (input : IStream) : List Request :=
  leading codec.parse (readFrames input kMaxFrameBytes).1

theorem arrivals_eq (input : IStream) :
    arrivals codec input =
      match readFrame input [] kMaxFrameBytes with
      | (⟨false, _, _⟩, _) => []
      | (⟨true, frame, _⟩, rest) =>
        match codec.parse frame with
        | none => []
        | some request => request :: arrivals codec rest := by
  unfold arrivals
  rw [readFrames]
  split <;> rename_i h
  · simp [h, leading]
  · simp only [h, leading]
    cases codec.parse _ <;> rfl

/-- The ledger of a run is that of its input : every request that arrives is received and
gets one response, in order, and every response is written, but for the last when the
stream failed. -/
structure Answered (host : Host σ) (input : IStream) (output : OStream) (out : ℕ × OStream)
    (es : List Event) : Prop where
  received : (ledger es).1 <+: arrivals codec input
  received_eq : out.1 ≠ 5 → (ledger es).1 = arrivals codec input
  made : (ledger es).2.1.map Prod.fst = (ledger es).1
  answers : (ledger es).2.2.map (fun a => (a.request, a.own)) =
    if out.1 = 5 then (ledger es).2.1.dropLast else (ledger es).2.1
  received_ne_nil : out.1 = 5 → (ledger es).1 ≠ []
  written : ∃ torn, out.2.written =
    output.written ++ (ledger es).2.2.flatMap (fun a => frameBytes a.frame) ++ torn ∧
      (out.1 ≠ 5 → torn = [])
  correct : host.FailuresCarryErrors → ∀ a ∈ (ledger es).2.2, a.Correct codec
  sound : output.Sound → out.1 ≠ 5

variable {codec} {input rest : IStream} {output output' : OStream}

/-- Nothing arrives, and the loop stops with another code than a failed write's. -/
theorem Answered.stop {code : ℕ} (harrivals : arrivals codec input = []) (hcode : code ≠ 5) :
    Answered codec host input output (code, output) [] where
  received := List.nil_prefix
  received_eq := fun _ => harrivals.symm
  made := rfl
  answers := by simp [ledger, hcode]
  received_ne_nil := fun h => absurd h hcode
  written := ⟨[], by simp [ledger], fun _ => rfl⟩
  correct := by simp [ledger]
  sound := fun _ => hcode

/-- A request that was answered, before the rest of the run. -/
theorem Answered.cons {request : Request} {own : Response} {es es' : List Event}
    {out : ℕ × OStream} (harrivals : arrivals codec input = request :: arrivals codec rest)
    (hes : ledger es = ([request], [(request, own)], [answerTo codec request own]))
    (hwritten : output'.written =
      output.written ++ frameBytes (answerTo codec request own).frame)
    (hcorrect : host.FailuresCarryErrors → (answerTo codec request own).Correct codec)
    (hsound : output.Sound → output'.Sound) (h : Answered codec host rest output' out es') :
    Answered codec host input output out (es ++ es') := by
  have hledger : ledger (es ++ es') = (request :: (ledger es').1,
      (request, own) :: (ledger es').2.1, answerTo codec request own :: (ledger es').2.2) := by
    rw [ledger_append, hes]
    rfl
  obtain ⟨torn, htorn, hnone⟩ := h.written
  refine ⟨?_, ?_, ?_, ?_, ?_, ⟨torn, ?_, hnone⟩, ?_, fun ho => h.sound (hsound ho)⟩
  all_goals rw [hledger]
  · rw [harrivals]
    exact (List.prefix_cons_inj request).mpr h.received
  · exact fun hcode => by rw [harrivals, ← h.received_eq hcode]
  · rw [List.map_cons, h.made]
  · rw [List.map_cons, h.answers]
    split_ifs with hcode
    · -- the run failed later, so the response dropped is not this one
      have hne : (ledger es').2.1 ≠ [] := fun hnil => by
        have hmade := h.made
        rw [hnil] at hmade
        exact h.received_ne_nil hcode hmade.symm
      rw [List.dropLast_cons_of_ne_nil hne]
      rfl
    · rfl
  · exact fun _ => List.cons_ne_nil _ _
  · rw [htorn, hwritten, List.flatMap_cons]
    simp only [List.append_assoc]
  · intro hfail a ha
    rcases List.mem_cons.mp ha with rfl | ha
    · exact hcorrect hfail
    · exact h.correct hfail a ha

/-- A request whose answer could not be written is the last. -/
theorem Answered.torn {request : Request} {own : Response} {es : List Event}
    (harrivals : arrivals codec input = request :: arrivals codec rest)
    (hes : ledger es = ([request], [(request, own)], []))
    (hwritten : ∃ torn, output'.written = output.written ++ torn) (hsound : ¬output.Sound) :
    Answered codec host input output (5, output') es := by
  obtain ⟨torn, hwritten⟩ := hwritten
  refine ⟨?_, fun h => absurd rfl h, ?_, ?_, ?_, ⟨torn, ?_, fun h => absurd rfl h⟩, ?_,
    fun ho => absurd ho hsound⟩
  all_goals rw [hes]
  · rw [harrivals]
    exact (List.prefix_cons_inj request).mpr List.nil_prefix
  · rfl
  · rfl
  · exact fun _ => List.cons_ne_nil _ _
  · simpa using hwritten
  · simp

variable (codec)

theorem serve_answers (flags : Flags) (input : IStream) (output : OStream) :
    (serve host codec flags input output).Ensures (Answered codec host input output) := by
  refine serve_induction
    (P := fun _ input output m => m.Ensures (Answered codec host input output))
    ?_ ?_ ?_ flags input output
  · intro flags input output out error rest hread
    refine .pure (.stop ?_ (by split_ifs <;> decide))
    rw [arrivals_eq, hread]
  · intro flags input output frame error rest hread hparse
    refine .pure (.stop ?_ (by decide))
    rw [arrivals_eq, hread]
    simp [hparse]
  · intro flags input output frame error rest request hread hparse ih
    have harrivals : arrivals codec input = request :: arrivals codec rest := by
      rw [arrivals_eq, hread]
      simp [hparse]
    refine .bind (serveRequest_answers codec flags output request) fun served es hserved => ?_
    obtain ⟨own, hconcludes, hwritten, hfailed, hsound⟩ := hserved
    refine .ite (fun hok => (ih served.flags served.output).mono fun out es' h => ?_)
      fun hok => .pure ?_
    · obtain ⟨hes, hout⟩ := hwritten hok
      exact h.cons harrivals hes hout
        (fun hfail => correct_of_concludes codec (hconcludes hfail)) fun ho => (hsound ho).2
    · obtain ⟨hes, hout⟩ := hfailed (by simpa using hok)
      rw [List.append_nil]
      exact .torn harrivals hes hout fun ho => hok (hsound ho).1

variable (host)

/-- The ledger of a whole run. -/
theorem runLoop_answered (input : IStream) (output : OStream) (s : σ) :
    Answered codec host input output (runLoop host codec input output s).value
      (runLoop host codec input output s).events := by
  have h : Answered codec host input output _ _ :=
    serve_answers codec ⟨false, false⟩ input output s
  have hledger : ledger (runLoop host codec input output s).events =
      ledger (serve host codec ⟨false, false⟩ input output s).events := by
    change ledger ((serve host codec ⟨false, false⟩ input output s).events ++ [.onShutdown]) = _
    rw [ledger_append]
    simp [ledger, Event.received?, Event.made?, Event.answer?]
  change Answered codec host input output (serve host codec ⟨false, false⟩ input output s).value _
  obtain ⟨h₁, h₂, h₃, h₄, h₅, h₆, h₇, h₈⟩ := h
  exact ⟨hledger ▸ h₁, hledger ▸ h₂, hledger ▸ h₃, hledger ▸ h₄, hledger ▸ h₅, hledger ▸ h₆,
    hledger ▸ h₇, h₈⟩

/-! ## The handlers' own responses -/

variable {host}

/-- What was handled is what the handler makes of the request, in the state that the events
before it left the host in, and after asking what was asked. What was refused is the gate's. -/
structure OwnResponses (host : Host σ) (s : σ) (trace : List Event) : Prop where
  handled : ∀ before request own post, trace = before ++ .handled request own :: post →
    ∃ start asked, before = start ++ asked ∧
      handle host request (initialResponse request) (host.after s start) =
        ⟨own, host.after s before, asked⟩
  refused : ∀ request own, .refused request own ∈ trace → own = refusal request

/-- One more event, that is not handled. -/
theorem OwnResponses.snoc {s : σ} {trace : List Event} (h : OwnResponses host s trace) {e : Event}
    (hhandled : ∀ request own, e ≠ .handled request own)
    (hrefused : ∀ request own, e = .refused request own → own = refusal request) :
    OwnResponses host s (trace ++ [e]) where
  handled before request own post hsplit := by
    rcases Traced.snoc_eq_append_cons hsplit with ⟨-, hlast, -⟩ | ⟨mid, -, htrace⟩
    · exact absurd hlast (hhandled request own)
    · exact h.handled before request own mid htrace
  refused request own hmem := by
    rcases List.mem_append.mp hmem with hmem | hmem
    · exact h.refused request own hmem
    · exact hrefused request own (List.mem_singleton.mp hmem).symm

/-- One more event, that is no response. -/
theorem OwnResponses.snoc_other {s : σ} {trace : List Event} (h : OwnResponses host s trace)
    {e : Event} (he : e.made? = none) : OwnResponses host s (trace ++ [e]) := by
  refine h.snoc ?_ ?_
  · rintro request own rfl
    cases he
  · rintro request own rfl
    cases he

theorem next_of_answers {s s' : σ} {invocation : Invocation} (h : host.Answers s invocation s') :
    invocation.next host.runtime s = s' := by
  cases h <;> rfl

/-- A run's events say which state the host is in, and the responses are the handlers' own. -/
theorem sustains_own (host : Host σ) (s : σ) :
    host.Sustains fun past t => host.after s past = t ∧ OwnResponses host s past where
  invoked := by
    rintro past _ request asked invocation s' ⟨rfl, hown⟩ - - hanswers
    refine ⟨?_, hown.snoc_other rfl⟩
    rw [Host.after_snoc]
    exact next_of_answers hanswers
  clock := by
    rintro past _ ⟨rfl, hown⟩
    exact ⟨Host.after_snoc .., hown.snoc_other rfl⟩
  onInitialize := by
    rintro past _ budget ⟨rfl, hown⟩
    exact ⟨Host.after_snoc .., hown.snoc_other rfl⟩
  onWaitReady := by
    rintro past _ ⟨rfl, hown⟩
    exact ⟨Host.after_snoc .., hown.snoc_other rfl⟩
  handled := by
    rintro past _ request asked response ⟨rfl, hown⟩ - - ⟨start, _, es, rfl, ⟨rfl, -⟩, hmade⟩
    refine ⟨Host.after_snoc .., fun before request' own post hsplit => ?_,
      fun request' own hmem => ?_⟩
    · rcases Traced.snoc_eq_append_cons hsplit with ⟨rfl, hlast, -⟩ | ⟨mid, -, htrace⟩
      · obtain ⟨rfl, rfl⟩ := Event.handled.inj hlast
        exact ⟨start, es, rfl, hmade⟩
      · exact hown.handled before request' own mid htrace
    · rcases List.mem_append.mp hmem with hmem | hmem
      · exact hown.refused request' own hmem
      · cases List.mem_singleton.mp hmem
  noted := by
    rintro past _ e hnote ⟨rfl, hown⟩
    refine ⟨?_, hown.snoc ?_ ?_⟩
    · rw [Host.after_snoc]
      cases e <;> first | rfl | exact hnote.elim
    · rintro request own rfl
      exact hnote.elim
    · rintro request own rfl
      exact hnote

theorem runLoop_own (host : Host σ) (codec : Codec) (input : IStream) (output : OStream) (s : σ) :
    OwnResponses host s (runLoop host codec input output s).events := by
  obtain ⟨past, _, ⟨-, hown⟩, hevents, -⟩ := runLoop_sustains codec (sustains_own host s)
    (s := s) ⟨rfl, by simp, by simp⟩ input output
  rw [hevents]
  exact hown.snoc_other rfl

/-! ## The answers -/

variable (host)

/-- A response is written to a stream that does not fail. -/
theorem reply_sound {output : OStream} (ho : output.Sound) (request : Request) (own : Response)
    (s : σ) :
    ∃ output', output'.Sound ∧ reply codec output request own s =
      ⟨(true, output'), s, [.wrote request own (encodeResponse codec request own).1
        (encodeResponse codec request own).2]⟩ := by
  obtain ⟨hok, hsound, -⟩ := writeFrame_sound ho (encodeResponse_spec codec request own).2.1
  refine ⟨_, hsound, ?_⟩
  simp only [reply, hok, if_true]
  rfl

/-- The turns of requests, on a stream that takes everything. -/
def turns : Flags → σ → List Request → List Event
  | _, _, [] => []
  | flags, s, request :: requests =>
    let started := startUp host flags request s
    let dispatched := dispatch host started.value request started.state
    let sent := encodeResponse codec request dispatched.value.1
    .received request :: (started.events ++ (dispatched.events ++
      .wrote request dispatched.value.1 sent.1 sent.2 ::
        turns dispatched.value.2 dispatched.state requests))

/-- A frame parses as a request. -/
def ParsesAs (frame : Bytes) (request : Request) : Prop :=
  FramePayload kMaxFrameBytes frame ∧ codec.parse frame = some request

variable {host codec}

/-- Where every frame parses and the stream takes everything, the loop is the turns of the
requests. -/
theorem events_serve {frames : List Bytes} {requests : List Request}
    (h : List.Forall₂ (ParsesAs codec) frames requests) (flags : Flags) {output : OStream}
    (ho : output.Sound) (s : σ) :
    (serve host codec flags (.of (frames.flatMap frameBytes) .eof) output s).events =
      turns codec host flags s requests := by
  induction h generalizing flags output s with
  | nil =>
    rw [List.flatMap_nil, serve_nil]
    rfl
  | @cons frame request frames requests hparse _ ih =>
    have hturn := reply_sound codec ho request
      (dispatch host (startUp host flags request s).value request
        (startUp host flags request s).state).value.1
      (dispatch host (startUp host flags request s).value request
        (startUp host flags request s).state).state
    obtain ⟨output', hsound, hreply⟩ := hturn
    rw [List.flatMap_cons, serve_frame host hparse.1 hparse.2, turns, Traced.events_bind]
    simp only [serveRequest, Traced.bind_apply, Traced.note_apply, Traced.pure_apply, hreply,
      if_true, ih _ hsound]
    simp

theorem events_runLoop {frames : List Bytes} {requests : List Request}
    (h : List.Forall₂ (ParsesAs codec) frames requests) {output : OStream} (ho : output.Sound)
    (s : σ) : (runLoop host codec (.of (frames.flatMap frameBytes) .eof) output s).events =
      turns codec host ⟨false, false⟩ s requests ++ [.onShutdown] :=
  congrArg (· ++ [Event.onShutdown]) (events_serve h ⟨false, false⟩ ho s)

namespace Wire

def readFrame : Bytes :=
  [0x08, 0x03, 0x32, 0x07, 0x0A, 0x05, 0x70, 0x72, 0x6F, 0x62, 0x65]

end Wire

end ProviderSdk

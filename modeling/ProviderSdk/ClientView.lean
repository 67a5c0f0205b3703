import ProviderSdk.HelloGate
import ProviderSdk.Answers

/-!
# The session and what the client was told

The gate opens and the WaitReady hook runs on the handler's response, before that response
is framed. A response that does not fit a frame goes out as a small error, so the client
may be told something else. `session_matches_client` is the law that the two agree, for
every run in which the responses concerned fit; `session_ahead_of_client` is a run in which
they do not.
-/

namespace ProviderSdk

variable {σ : Type}

open Session

/-- A request is served only if a Hello response with `CODE_OK` was written before, and the
WaitReady hook runs only for a request whose written response has `CODE_OK`. -/
def MatchesClient (trace : List Event) : Prop :=
  (∀ pre r response post, trace = pre ++ .handled r response :: post → r.hasHello = false →
    ∃ hello own sent frame, .wrote hello own sent frame ∈ pre ∧ sent.status.code = .ok ∧
      ∃ payload, sent.payload = .hello payload) ∧
  ∀ pre post, trace = pre ++ .onWaitReady :: post →
    ∃ r own sent frame post', post = .wrote r own sent frame :: post' ∧ r.hasWaitReady = true ∧
      sent.status.code = .ok

/-- In this run, the metadata of every Hello that is accepted, and the report and metadata
of every WaitReady that is served, make a response that fits a frame; and the output stream
takes the response to each WaitReady that is served. -/
structure RepliesFit (codec : Codec) (trace : List Event) : Prop where
  hello : ∀ pre r hello metadata post,
    trace = pre ++ .received r :: .invoked (.metadata metadata) :: post → r.kind = .hello hello →
      hello.protocolVersion = metadata.protocolVersion →
        Fits codec (helloResponse hello metadata (initialResponse r))
  waitReady : ∀ pre r start report metadata post,
    trace = pre ++ .received r ::
        (start ++ .invoked (.readiness report) :: .invoked (.metadata metadata) :: post) →
      r.hasWaitReady = true → (start = [] ∨ start = [.onInitialize (initializeBudget r)]) →
        Fits codec (waitReadyResponse report metadata (initialResponse r))
  written : ∀ pre r response post,
    trace ≠ pre ++ .handled r response :: .onWaitReady :: .writeFailed r :: post

variable {codec : Codec} {st : State}

/-- Where a response of a handler comes from. -/
theorem handled_of_trace {pre post : List Event} {r : Request} {response : Response}
    (h : Runs (Step codec) init (pre ++ .handled r response :: post) st) :
    (∃ past start asked, pre = past ++ .received r :: (start ++ asked) ∧
      (start = [] ∨ r.hasHello = false ∧ start = [.onInitialize (initializeBudget r)]) ∧
        MadeFrom r asked response) ∧ (r.hasHello = false → HelloAnswered pre) := by
  obtain ⟨u, u', hpre, hstep, -⟩ := h.at_label
  have hpast := past_of_runs hpre
  cases hstep with
  | ask asked hask => exact hask.isQuestion.elim
  | handle hgate hmade =>
    obtain ⟨⟨past, start, hes, hstart⟩, hanswered⟩ := hpast
    refine ⟨⟨past, start, _, hes, hstart, hmade⟩, fun hhello => hanswered ?_⟩
    exact hgate.resolve_left (by simp [hhello])

/-- A response that was written is the one its handler made, encoded. -/
theorem wrote_of_trace {pre post : List Event} {r : Request} {own sent : Response} {frame : Bytes}
    (h : Runs (Step codec) init (pre ++ .wrote r own sent frame :: post) st) :
    sent = (encodeResponse codec r own).1 := by
  obtain ⟨u, u', -, hstep, -⟩ := h.at_label
  cases hstep with
  | ask asked hask => exact hask.isQuestion.elim
  | write => rfl

/-- A Hello answered with `CODE_OK` was accepted, and has the Hello payload. -/
theorem helloResponse_of_ok {hello : HelloRequest} {metadata : ProviderMetadata}
    {response : Response} (h : (helloResponse hello metadata response).status.code = .ok) :
    hello.protocolVersion = metadata.protocolVersion ∧
      ∃ payload, (helloResponse hello metadata response).payload = .hello payload := by
  unfold helloResponse at h ⊢
  split_ifs at h ⊢ with hversion
  · cases h
  · exact ⟨not_not.mp hversion, _, rfl⟩

/-- A Hello that was answered with `CODE_OK` and fits was written as such. -/
theorem exists_wrote_of_helloAnswered {pre post : List Event}
    (h : Runs (Step codec) init (pre ++ post) st) (hfit : RepliesFit codec (pre ++ post))
    (hanswered : HelloAnswered pre) :
    ∃ hello own sent frame, .wrote hello own sent frame ∈ pre ∧ sent.status.code = .ok ∧
      ∃ payload, sent.payload = .hello payload := by
  obtain ⟨before, r, response, sent, frame, after, rfl, hhello, hok⟩ := hanswered
  have hrun := h
  rw [List.append_assoc, List.cons_append] at hrun
  obtain ⟨⟨past, start, asked, hbefore, hstart, hmade⟩, -⟩ := handled_of_trace hrun
  rw [List.cons_append, List.append_cons] at hrun
  have hsent := wrote_of_trace hrun
  cases hkind : r.kind with
  | hello hello =>
    simp only [MadeFrom, hkind] at hmade
    obtain ⟨metadata, rfl, rfl⟩ := hmade
    obtain ⟨hversion, hpayload⟩ := helloResponse_of_ok hok
    have hstart' : start = [] := hstart.resolve_right (by simp [hhello])
    have hfits := hfit.hello past r hello metadata
      (.handled r (helloResponse hello metadata (initialResponse r)) ::
        .wrote r (helloResponse hello metadata (initialResponse r)) sent frame :: after ++ post)
      (by simp [hbefore, hstart']) hkind hversion
    rw [encodeResponse_of_fits hfits] at hsent
    exact ⟨r, helloResponse hello metadata (initialResponse r), sent, frame, by simp,
      by rw [hsent, hok], by rw [hsent]; exact hpayload⟩
  | _ => simp [Request.hasHello, hkind] at hhello

variable (host : Host σ) (codec : Codec) (input : IStream) (output : OStream) (s : σ)

/-- In every run whose Hello and WaitReady responses fit a frame, the session is what the
client was told. -/
theorem session_matches_client
    (hfit : RepliesFit codec (runLoop host codec input output s).events) :
    MatchesClient (runLoop host codec input output s).events := by
  obtain ⟨flags, -, -, -, hrun⟩ := runs_runLoop host codec input output s
  change Runs (Step codec) init _ ⟨flags, .stopped⟩ at hrun
  generalize (runLoop host codec input output s).events = trace at hfit hrun
  refine ⟨?_, ?_⟩
  · rintro pre r response post rfl hhello
    exact exists_wrote_of_helloAnswered hrun hfit ((handled_of_trace hrun).2 hhello)
  · rintro pre post rfl
    obtain ⟨u, u', hpre, hstep, hpost⟩ := hrun.at_label
    have hpast := past_of_runs hpre
    cases hstep with
    | ask asked hask => exact hask.isQuestion.elim
    | hook flags' r response =>
      obtain ⟨⟨past, rfl⟩, hwait, -⟩ := hpast
      have hrun' := hrun
      rw [List.append_assoc, List.singleton_append] at hrun'
      obtain ⟨⟨past', start, asked, rfl, hstart, hmade⟩, -⟩ := handled_of_trace hrun'
      cases hkind : r.kind with
      | waitReady waitReady =>
        simp only [MadeFrom, hkind] at hmade
        obtain ⟨report, metadata, rfl, rfl⟩ := hmade
        have hfits := hfit.waitReady past' r start report metadata
          (.handled r (waitReadyResponse report metadata (initialResponse r)) ::
            .onWaitReady :: post) (by simp) hwait (hstart.imp_right And.right)
        rcases next_of_replying hpost rfl with ⟨post', rfl⟩ | rfl
        · refine ⟨r, _, _, _, post', rfl, hwait, ?_⟩
          rw [encodeResponse_of_fits hfits]
          rfl
        · exact absurd (List.append_assoc ..) (hfit.written _ r _ [.onShutdown])
      | _ => simp [Request.hasWaitReady, hkind] at hwait

/-! ### A Hello and a WaitReady -/

/-- A Hello and a WaitReady. -/
def twoFrames : IStream :=
  .of (frameBytes Wire.helloFrame ++ (frameBytes Wire.waitReadyFrame ++ [])) .eof

/-- The responses of a quiet provider with the metadata `extra` of its own. -/
def helloOf (extra : StringMap Bytes) : Response :=
  helloResponse ⟨lit "v1"⟩ (metadataWith extra) (initialResponse Wire.helloRequest)

def waitReadyOf (extra : StringMap Bytes) : Response :=
  waitReadyResponse emptyReport (metadataWith extra) (initialResponse Wire.waitReadyRequest)

/-- The events of the two requests to a quiet provider. -/
theorem events_twoFrames (extra : StringMap Bytes) :
    (runLoop (quiet (metadataWith extra) emptyReport) Wire.twoRequests twoFrames .sink ()).events =
      [.received Wire.helloRequest, .invoked (.metadata (metadataWith extra)),
        .handled Wire.helloRequest (helloOf extra),
        .wrote Wire.helloRequest (helloOf extra)
          (encodeResponse Wire.twoRequests Wire.helloRequest (helloOf extra)).1
          (encodeResponse Wire.twoRequests Wire.helloRequest (helloOf extra)).2,
        .received Wire.waitReadyRequest, .onInitialize 5000, .invoked (.readiness emptyReport),
        .invoked (.metadata (metadataWith extra)),
        .handled Wire.waitReadyRequest (waitReadyOf extra), .onWaitReady,
        .wrote Wire.waitReadyRequest (waitReadyOf extra)
          (encodeResponse Wire.twoRequests Wire.waitReadyRequest (waitReadyOf extra)).1
          (encodeResponse Wire.twoRequests Wire.waitReadyRequest (waitReadyOf extra)).2,
        .onShutdown] := by
  have hhello : ParsesAs Wire.twoRequests Wire.helloFrame Wire.helloRequest :=
    ⟨⟨by decide, by decide⟩, by decide⟩
  have hwait : ParsesAs Wire.twoRequests Wire.waitReadyFrame Wire.waitReadyRequest :=
    ⟨⟨by decide, by decide⟩, by decide⟩
  exact events_runLoop (.cons hhello (.cons hwait .nil)) ⟨rfl, fun _ => rfl⟩ ()

/-- The provider's own metadata is in the Hello metadata. -/
theorem lookup_helloMetadata (key value : Bytes) :
    (helloMetadata (metadataWith (StringMap.of [(key, value)]))).lookup key = some value :=
  AList.lookup_insert _

/-- Metadata as long as a frame does not fit one. -/
theorem not_fits_helloOf {key value : Bytes} (hlen : value.length = kMaxFrameBytes.toNat) :
    ¬Fits Wire.twoRequests (helloOf (StringMap.of [(key, value)])) := by
  rintro ⟨bytes, hbytes, hle⟩
  have hpayload : (helloOf (StringMap.of [(key, value)])).payload =
      .hello ⟨lit "v1", lit "quiet", lit "1.0.0",
        helloMetadata (metadataWith (StringMap.of [(key, value)]))⟩ := by
    simp [helloOf, helloResponse, metadataWith, Response.setStatusOk]
  rw [Wire.serialize_twoRequests] at hbytes
  have hlong := Wire.length_serialize_hello hpayload (lookup_helloMetadata key value) hbytes
  rw [hlen] at hlong
  exact absurd hle (Nat.not_le.mpr hlong)

/-- 1 MiB. -/
def megabyte : Bytes :=
  List.replicate (1024 * 1024) 0x61

/-- With 1 MiB of metadata, the client is told that its Hello failed, and the WaitReady after
it is served. -/
theorem session_ahead_of_client :
    ¬MatchesClient (runLoop (quiet (metadataWith (StringMap.of [(lit "blob", megabyte)])) emptyReport)
      Wire.twoRequests twoFrames .sink ()).events := by
  have hfits : ¬Fits Wire.twoRequests (helloOf (StringMap.of [(lit "blob", megabyte)])) :=
    not_fits_helloOf List.length_replicate
  generalize StringMap.of [(lit "blob", megabyte)] = extra at hfits ⊢
  rintro ⟨h, -⟩
  rw [events_twoFrames] at h
  obtain ⟨hello, own, sent, frame, hmem, hok, -⟩ := h
    [.received Wire.helloRequest, .invoked (.metadata (metadataWith extra)),
      .handled Wire.helloRequest (helloOf extra),
      .wrote Wire.helloRequest (helloOf extra)
        (encodeResponse Wire.twoRequests Wire.helloRequest (helloOf extra)).1
        (encodeResponse Wire.twoRequests Wire.helloRequest (helloOf extra)).2,
      .received Wire.waitReadyRequest, .onInitialize 5000, .invoked (.readiness emptyReport),
      .invoked (.metadata (metadataWith extra))] Wire.waitReadyRequest (waitReadyOf extra) _ rfl rfl
  have hsent : sent = (encodeResponse Wire.twoRequests Wire.helloRequest (helloOf extra)).1 := by
    simp only [List.mem_cons, reduceCtorEq, Event.wrote.injEq, List.not_mem_nil, or_false,
      false_or] at hmem
    exact hmem.2.2.1
  rcases (encodeResponse_spec Wire.twoRequests Wire.helloRequest (helloOf extra)).2.2 with
    ⟨bytes, hbytes, hlen, -⟩ | ⟨-, hfallback⟩
  · exact hfits ⟨bytes, hbytes, hlen⟩
  · rw [hsent, hfallback] at hok
    cases hs : Wire.twoRequests.serialize (helloOf extra) <;> rw [hs] at hok <;> cases hok

theorem fits_of_any {codec : Codec} {response : Response}
    (h : (codec.serialize response).any (fun b => b.length ≤ kMaxFrameBytes.toNat) = true) :
    Fits codec response := by
  obtain ⟨bytes, hbytes, hlen⟩ := (Option.any_eq_true _ _).mp h
  exact ⟨bytes, hbytes, by simpa using hlen⟩

/-- Without it, the session is what the client was told. -/
theorem session_matches_client_small :
    MatchesClient (runLoop (quiet (metadataWith ∅) emptyReport) Wire.twoRequests twoFrames
      .sink ()).events := by
  have hhello : Fits Wire.twoRequests (helloOf ∅) := fits_of_any (by decide +kernel)
  have hwait : Fits Wire.twoRequests (waitReadyOf ∅) := fits_of_any (by decide +kernel)
  refine session_matches_client _ _ _ _ _ ⟨?_, ?_, ?_⟩
  all_goals rw [events_twoFrames]
  · intro pre r hello metadata post htrace hkind _
    have hr : Event.received r ∈ pre ++ .received r :: .invoked (.metadata metadata) :: post := by
      simp
    have hm : Event.invoked (.metadata metadata) ∈
        pre ++ .received r :: .invoked (.metadata metadata) :: post := by simp
    rw [← htrace] at hr hm
    simp only [List.mem_cons, reduceCtorEq, Event.received.injEq, Event.invoked.injEq,
      Invocation.metadata.injEq, List.not_mem_nil, or_false, false_or, or_self] at hr hm
    rcases hr with rfl | rfl
    · cases hkind
      rw [hm]
      exact hhello
    · cases hkind
  · intro pre r start report metadata post htrace hkind _
    have hr : Event.received r ∈ pre ++ .received r ::
        (start ++ .invoked (.readiness report) :: .invoked (.metadata metadata) :: post) := by simp
    have hreport : Event.invoked (.readiness report) ∈ pre ++ .received r ::
        (start ++ .invoked (.readiness report) :: .invoked (.metadata metadata) :: post) := by simp
    have hm : Event.invoked (.metadata metadata) ∈ pre ++ .received r ::
        (start ++ .invoked (.readiness report) :: .invoked (.metadata metadata) :: post) := by simp
    rw [← htrace] at hr hreport hm
    simp only [List.mem_cons, reduceCtorEq, Event.received.injEq, Event.invoked.injEq,
      Invocation.metadata.injEq, Invocation.readiness.injEq, List.not_mem_nil, or_false, false_or,
      or_self] at hr hreport hm
    rcases hr with rfl | rfl
    · cases hkind
    · rw [hm, hreport]
      exact hwait
  · intro pre r response post htrace
    have hmem : Event.writeFailed r ∈
        pre ++ .handled r response :: .onWaitReady :: .writeFailed r :: post := by simp
    rw [← htrace] at hmem
    simp at hmem

end ProviderSdk

import ProviderSdk.Wire
import ProviderSdk.Lib.Pattern
import ProviderSdk.Lib.Utf8
import Mathlib.Data.List.GetD

/-!
# Errors stay small

Whatever a request holds, what the SDK says of it is short. `echo` cuts a field at the last
character boundary within its limit (`exists_cut_echo`). A message is the SDK's own text,
echoes, numbers and strings the provider declares, so its length is that of the declared
strings and a constant. `Quotes` keeps this account, one lemma a piece of a message.

An allowed value brings its quotes and its comma with it. So the account of a message that
lists them counts four bytes more for each, and no constant does (`no_constant_bound`).
-/

namespace ProviderSdk

open Utf8

/-! ## The cut -/

section Echo

variable {field : Bytes}

theorem echo_of_length_le (h : field.length ≤ kMaxEchoBytes) : echo field = field :=
  if_pos h

theorem echo_of_length_gt (h : kMaxEchoBytes < field.length) :
    echo field = field.take (echoEnd field kMaxEchoBytes) ++ lit "..." :=
  if_neg (Nat.not_le_of_lt h)

theorem echoEnd_le (field : Bytes) (n : ℕ) : echoEnd field n ≤ n := by
  induction n with
  | zero => exact le_rfl
  | succ n ih =>
    rw [echoEnd]
    split_ifs
    · exact ih.trans (Nat.le_succ n)
    · exact le_rfl

/-- The walk back stops at the last boundary. -/
theorem isGreatest_echoEnd (h : WellFormed field) {n : ℕ} (hn : n < field.length) :
    IsGreatest {i | i ≤ n ∧ Boundary field i} (echoEnd field n) := by
  induction n with
  | zero => exact ⟨⟨le_rfl, boundary_zero h⟩, fun i hi => hi.1⟩
  | succ n ih =>
    have hiff := h.boundary_iff (n + 1) hn
    rw [echoEnd, List.getD_eq_getElem _ _ hn]
    split_ifs with htail <;> rw [and_C0_eq_iff] at htail
    · obtain ⟨⟨hle, hboundary⟩, hmax⟩ := ih (Nat.lt_of_succ_lt hn)
      refine ⟨⟨hle.trans (Nat.le_succ n), hboundary⟩, fun i hi => ?_⟩
      obtain ⟨hi, hi'⟩ := hi
      rcases Nat.lt_or_eq_of_le hi with hlt | rfl
      · exact hmax ⟨Nat.le_of_lt_succ hlt, hi'⟩
      · exact absurd htail (hiff.mp hi')
    · exact ⟨⟨le_rfl, hiff.mpr htail⟩, fun i hi => hi.1⟩

/-- Any field, however long, is quoted in at most 67 bytes. -/
theorem length_echo_le (field : Bytes) : (echo field).length ≤ 67 := by
  rcases Nat.lt_or_ge kMaxEchoBytes field.length with h | h
  · have hend := echoEnd_le field kMaxEchoBytes
    have hdots : (lit "...").length = 3 := rfl
    rw [echo_of_length_gt h, List.length_append, List.length_take, hdots]
    unfold kMaxEchoBytes at hend ⊢
    omega
  · rw [echo_of_length_le h]
    exact h.trans (by decide)

/-- A longer field is cut at its last character boundary within the limit. -/
theorem exists_cut_echo (hlong : 64 < field.length) (h : WellFormed field) :
    ∃ n, IsGreatest {i | i ≤ 64 ∧ Boundary field i} n ∧
      echo field = field.take n ++ lit "..." ∧ WellFormed (echo field) := by
  have hcut := isGreatest_echoEnd h hlong
  refine ⟨_, hcut, echo_of_length_gt hlong, ?_⟩
  rw [echo_of_length_gt hlong]
  obtain ⟨-, hboundary⟩ := hcut.1
  exact hboundary.before.append (wellFormed_ascii (Pattern.forall_mem_of_all (by decide)))

end Echo

/-! ## The account of a message -/

/-- The message quotes the declared strings `names` and `values`, the values in a list, and
is at most `k` bytes longer than they are, with four bytes for the quotes and the comma of
each value. -/
structure Quotes (k : ℕ) (names values : List Bytes) (message : Bytes) : Prop where
  shows : ∀ s ∈ names ++ values, s <:+: message
  length_le : message.length ≤
    k + (names.map List.length).sum + (values.map fun v => v.length + 4).sum

/-- The bytes of a list of quoted values, but for the comma its last one does not have. -/
theorem length_list_quoted {values : List Bytes} (h : values ≠ []) :
    ((lit ", ").intercalate (values.map quoted)).length + 2 =
      (values.map fun v => v.length + 4).sum := by
  have hquote (v : Bytes) : (quoted v).length = v.length + 2 := by
    have hmark : (lit "'").length = 1 := rfl
    rw [quoted, List.length_append, List.length_append, hmark]
    omega
  have hcomma : (lit ", ").length = 2 := rfl
  induction values with
  | nil => exact absurd rfl h
  | cons v vs ih =>
    cases vs with
    | nil => simp [hquote]
    | cons w ws =>
      have hrest := ih (List.cons_ne_nil w ws)
      simp only [List.map_cons, List.intercalate_cons_cons, List.length_append, hquote, hcomma,
        List.sum_cons] at hrest ⊢
      omega

/-- Each value is in the list. -/
theorem quoted_infix_list {values : List Bytes} {v : Bytes} (h : v ∈ values) :
    v <:+: (lit ", ").intercalate (values.map quoted) := by
  have hv (v : Bytes) : v <:+: quoted v := ⟨lit "'", lit "'", rfl⟩
  induction values with
  | nil => cases h
  | cons w ws ih =>
    cases ws with
    | nil =>
      obtain rfl := List.mem_singleton.mp h
      simpa using hv v
    | cons x xs =>
      rw [List.map_cons, List.map_cons, List.intercalate_cons_cons]
      rcases List.mem_cons.mp h with rfl | h
      · exact (hv v).trans ((List.prefix_append _ _).isInfix.trans (List.prefix_append _ _).isInfix)
      · exact (ih h).trans (List.suffix_append _ _).isInfix

namespace Quotes

variable {k k' : ℕ} {names names' values values' : List Bytes} {message message' : Bytes}

theorem mono (h : Quotes k names values message) (hk : k ≤ k') :
    Quotes k' names values message :=
  ⟨h.shows, h.length_le.trans (by omega)⟩

/-- Text that quotes nothing. -/
theorem own (h : message.length ≤ k) : Quotes k [] [] message :=
  ⟨by simp, by simpa using h⟩

theorem text (s : String) : Quotes (lit s).length [] [] (lit s) :=
  own le_rfl

theorem echoed (field : Bytes) : Quotes 67 [] [] (echo field) :=
  own (length_echo_le field)

theorem name (n : Bytes) : Quotes 0 [n] [] n :=
  ⟨by simp, by simp⟩

theorem list (values : List Bytes) :
    Quotes 0 [] values ((lit ", ").intercalate (values.map quoted)) := by
  refine ⟨fun s hs => quoted_infix_list (by simpa using hs), ?_⟩
  by_cases h : values = []
  · simp [h]
  · have hlen := length_list_quoted h
    rw [List.map_nil, List.sum_nil]
    omega

/-- The account of two pieces. -/
theorem append (h : Quotes k names values message) (h' : Quotes k' names' values' message') :
    Quotes (k + k') (names ++ names') (values ++ values') (message ++ message') := by
  refine ⟨fun s hs => ?_, ?_⟩
  · have hs : s ∈ names ++ values ∨ s ∈ names' ++ values' := by
      simp only [List.mem_append] at hs ⊢
      tauto
    rcases hs with hs | hs
    · exact (h.shows s hs).trans (List.prefix_append _ _).isInfix
    · exact (h'.shows s hs).trans (List.suffix_append _ _).isInfix
  · have hlen := h.length_le
    have hlen' := h'.length_le
    simp only [List.length_append, List.map_append, List.sum_append]
    omega

/-- Quote marks are two bytes. -/
theorem marked (h : Quotes k names values message) :
    Quotes (k + 2) names values (quoted message) := by
  have hmarked := ((text "'").append h).append (text "'")
  simp only [List.nil_append, List.append_nil] at hmarked
  exact hmarked.mono (by
    have hmark : (lit "'").length = 1 := rfl
    omega)

end Quotes

/-! ## What the validator says -/

/-- The numbers a value holds are in range of their types, `int` for an unnamed tag. -/
structure Value.Fits (v : Value) : Prop where
  tag : ∀ n, v.type = .other n → -2 ^ 31 ≤ n ∧ n < 2 ^ 31
  int64 : -2 ^ 63 ≤ v.int64Value ∧ v.int64Value < 2 ^ 63
  uint64 : v.uint64Value < 2 ^ 64

def ValueMap.Fits (args : ValueMap) : Prop :=
  ∀ name v, args.lookup name = some v → v.Fits

/-- What one message quotes of a function's declaration. -/
inductive FunctionSpec.Declares (spec : FunctionSpec) : List Bytes → List Bytes → Prop
  | function : Declares spec [spec.name] []
  | argument {arg : ArgSpec} (h : arg ∈ spec.args) : Declares spec [arg.name] []
  | both {arg : ArgSpec} (h : arg ∈ spec.args) : Declares spec [spec.name, arg.name] []
  | allowed {arg : ArgSpec} (h : arg ∈ spec.args) : Declares spec [arg.name] arg.allowedValues

/-- The most a message has beyond what it quotes : that of an unknown function. -/
def kMaxOwnBytes : ℕ :=
  175

section Validator

variable {arg : ArgSpec} {value : Value} {err : ArgError}

theorem length_typeName_le {t : ValueType} (h : ∀ n, t = .other n → -2 ^ 31 ≤ n ∧ n < 2 ^ 31) :
    (typeName t).length ≤ 22 := by
  cases t with
  | other n =>
    have hn := h n rfl
    have hlen : (toStringInt n).length ≤ 10 + 1 := length_toStringInt_le (by decide) (by omega)
    exact hlen.trans (by decide)
  | _ => decide

/-- A declared type that is checked has a name. -/
theorem length_typeName_of_fieldFor {t : ValueType} (h : fieldFor t ≠ .notSet) :
    (typeName t).length ≤ 22 := by
  refine length_typeName_le fun n ht => ?_
  rw [ht] at h
  exact absurd rfl h

theorem checkType_quotes (hv : value.Fits) (h : checkType arg value = some err) :
    Quotes kMaxOwnBytes [arg.name] [] err.message := by
  unfold checkType at h
  dsimp only at h
  split_ifs at h with hexp hbad hempty
  · obtain rfl := Option.some.inj h
    have hq := (((((Quotes.text "argument ").append (Quotes.name arg.name).marked).append
      (.text " expects ")).append (.own (length_typeName_of_fieldFor hexp))).append
        (.text ", got ")).append (.own (length_typeName_le hv.tag))
    exact hq.mono (by decide)
  · obtain rfl := Option.some.inj h
    have hq := ((((Quotes.text "argument ").append (Quotes.name arg.name).marked).append
      (.text " expects ")).append (.own (length_typeName_of_fieldFor hexp))).append
        (.text ", got an empty value")
    exact hq.mono (by decide)

/-- A number outside its bounds. -/
theorem outside_quotes {v : Bytes} (hv : v.length ≤ 20) :
    Quotes kMaxOwnBytes [arg.name] [] (outOfRange (lit "argument " ++ quoted arg.name ++
      lit " = " ++ v ++ lit " is outside its declared bounds")).message := by
  have hq := ((((Quotes.text "argument ").append (Quotes.name arg.name).marked).append
    (.text " = ")).append (.own hv)).append (.text " is outside its declared bounds")
  exact hq.mono (by decide)

theorem checkBounds_quotes {number : NumberPrinter} (hv : value.Fits)
    (h : checkBounds number arg value = some err) :
    Quotes kMaxOwnBytes [arg.name] [] err.message := by
  have hdouble : (number.print value.doubleValue).length ≤ 20 :=
    (number.length_print _).trans (by decide)
  unfold checkBounds at h
  dsimp only at h
  split at h
  · split_ifs at h with hfin hout
    · obtain rfl := Option.some.inj h
      have hq := (((Quotes.text "argument ").append (Quotes.name arg.name).marked).append
        (.text " must be finite, got ")).append (.own hdouble)
      exact hq.mono (by decide)
    · obtain rfl := Option.some.inj h
      exact outside_quotes hdouble
  · split_ifs at h
    obtain rfl := Option.some.inj h
    have hint := hv.int64
    exact outside_quotes (length_toStringInt_le (k := 19) (by decide) (by omega))
  · split_ifs at h
    obtain rfl := Option.some.inj h
    have huint := hv.uint64
    exact outside_quotes (length_toStringNat_le (k := 20) (by decide) (by omega))
  · cases h

theorem checkAllowed_quotes (h : checkAllowed arg value = some err) :
    Quotes kMaxOwnBytes [arg.name] arg.allowedValues err.message := by
  unfold checkAllowed at h
  split_ifs at h
  obtain rfl := Option.some.inj h
  have hq := ((((Quotes.text "argument ").append (Quotes.name arg.name).marked).append
    (.text " must be one of [")).append (.list arg.allowedValues)).append (.text "]")
  simp only [List.nil_append, List.append_nil] at hq
  exact hq.mono (by decide)

theorem checkArg_quotes {number : NumberPrinter} {spec : FunctionSpec} {args : ValueMap}
    (hargs : args.Fits) (harg : arg ∈ spec.args)
    (h : checkArg number spec args arg = some err) :
    ∃ names values, spec.Declares names values ∧
      Quotes kMaxOwnBytes names values err.message := by
  unfold checkArg at h
  split at h
  · split_ifs at h
    obtain rfl := Option.some.inj h
    have hq := ((Quotes.name spec.name).append (.text " requires argument ")).append
      (Quotes.name arg.name).marked
    exact ⟨_, _, .both harg, hq.mono (by decide)⟩
  · next value hvalue =>
    have hv := hargs _ _ hvalue
    rcases Option.or_eq_some_iff.mp h with h | ⟨-, h⟩
    · exact ⟨_, _, .argument harg, checkType_quotes hv h⟩
    · rcases Option.or_eq_some_iff.mp h with h | ⟨-, h⟩
      · exact ⟨_, _, .argument harg, checkBounds_quotes hv h⟩
      · exact ⟨_, _, .allowed harg, checkAllowed_quotes h⟩

/-- Every message of the validator. -/
theorem validateCallArgs_quotes {number : NumberPrinter} {spec : FunctionSpec} {args : ValueMap}
    (hargs : args.Fits) (h : validateCallArgs number spec args = some err) :
    ∃ names values, spec.Declares names values ∧
      Quotes kMaxOwnBytes names values err.message := by
  unfold validateCallArgs at h
  split at h
  · next name _ =>
    obtain rfl := Option.some.inj h
    have hq := ((Quotes.name spec.name).append (.text " takes no argument ")).append
      (Quotes.echoed name).marked
    exact ⟨_, _, .function, hq.mono (by decide)⟩
  · obtain ⟨arg, harg, herr⟩ := List.exists_of_findSome?_eq_some h
    exact checkArg_quotes hargs harg herr

end Validator

/-! ## What the handlers say -/

/-- What one message quotes of what the provider has told a run. -/
inductive Told (es : List Event) : List Bytes → List Bytes → Prop
  | nothing : Told es [] []
  | protocol {metadata : ProviderMetadata} (h : .invoked (.metadata metadata) ∈ es) :
      Told es [metadata.protocolVersion] []
  | function {deviceId : Bytes} {caps : CapabilitySet} {spec : FunctionSpec}
      {names values : List Bytes} (h : .invoked (.capabilities deviceId caps) ∈ es)
      (hspec : spec ∈ caps.functions) (hdeclares : spec.Declares names values) :
      Told es names values

/-- The message is the SDK's, and short, or it is the one of a read or a call that failed. -/
inductive SmallMessage (es : List Event) (message : Bytes) : Prop
  | own {names values : List Bytes} (h : Told es names values)
      (hquotes : Quotes kMaxOwnBytes names values message) : SmallMessage es message
  | ofRead {deviceId : Bytes} {signalIds : List Bytes} {result : AdapterReadResult}
      (h : .invoked (.read deviceId signalIds result) ∈ es) (hok : result.ok = false)
      (hmessage : message = result.errorMessage) : SmallMessage es message
  | ofCall {deviceId : Bytes} {functionId : UInt32} {args : ValueMap} {result : AdapterCallResult}
      (h : .invoked (.call deviceId functionId args result) ∈ es) (hok : result.ok = false)
      (hmessage : message = result.errorMessage) : SmallMessage es message

namespace SmallMessage

variable {es es' : List Event} {message : Bytes} {k : ℕ}

theorem of_quotes (h : Quotes k [] [] message) (hk : k ≤ kMaxOwnBytes) :
    SmallMessage es message :=
  .own .nothing (h.mono hk)

/-- A text of the SDK alone. -/
theorem text {s : String} (hs : (lit s).length ≤ kMaxOwnBytes) : SmallMessage es (lit s) :=
  of_quotes (.text s) hs

theorem ok : SmallMessage es (lit "ok") :=
  text (by decide)

/-- What came before does not matter. -/
theorem mono (h : SmallMessage es message) (hes : es ⊆ es') : SmallMessage es' message := by
  cases h with
  | own htold hquotes =>
    refine .own ?_ hquotes
    cases htold with
    | nothing => exact .nothing
    | protocol h => exact .protocol (hes h)
    | function h hspec hdeclares => exact .function (hes h) hspec hdeclares
  | ofRead h hok hmessage => exact .ofRead (hes h) hok hmessage
  | ofCall h hok hmessage => exact .ofCall (hes h) hok hmessage

end SmallMessage

/-- Whatever the computation is asked, the status message it leaves is small. -/
def Speaks {σ : Type} (m : Sdk σ Response) : Prop :=
  m.Ensures fun r es => SmallMessage es r.status.message

section Handlers

variable {σ : Type} {host : Host σ}

namespace Speaks

theorem pure {r : Response} (h : SmallMessage [] r.status.message) :
    Speaks (Pure.pure r : Sdk σ Response) :=
  Traced.Ensures.pure h

/-- A computation that speaks, after any other. -/
theorem bind {α : Type} {m : Sdk σ α} {f : α → Sdk σ Response} (h : ∀ a, Speaks (f a)) :
    Speaks (m >>= f) :=
  fun s => (h _ (m s).state).mono (List.subset_append_right _ _)

theorem after {m : Sdk σ Response} (h : Speaks m) (e : Event) :
    m.Ensures fun r es => SmallMessage (e :: es) r.status.message :=
  Traced.Ensures.mono h fun _ _ hsmall => hsmall.mono (List.subset_cons_self e _)

theorem ite {c : Prop} [Decidable c] {m m' : Sdk σ Response} (h : c → Speaks m)
    (h' : ¬c → Speaks m') : Speaks (if c then m else m') :=
  Traced.Ensures.ite h h'

end Speaks

theorem unknownDevice_speaks (deviceId : Bytes) (response : Response) :
    Speaks (Pure.pure (unknownDevice deviceId response) : Sdk σ Response) :=
  .pure (.of_quotes ((Quotes.text "unknown device_id: ").append (.echoed deviceId)) (by decide))

theorem handleHello_speaks (request : HelloRequest) (response : Response) :
    Speaks (handleHello host request response) := by
  refine Traced.Ensures.observe_bind fun s => Traced.Ensures.pure ?_
  unfold helloResponse
  split_ifs
  · have hq := (Quotes.text "unsupported protocol_version; expected ").append
      (.name (host.runtime.metadata s).1.protocolVersion)
    exact .own (.protocol List.mem_cons_self) (hq.mono (by decide))
  · exact .ok

theorem handleListDevices_speaks (request : ListDevicesRequest) (response : Response) :
    Speaks (handleListDevices host request response) :=
  .bind fun _ => .bind fun _ => .ite
    (fun _ => .bind fun _ => .bind fun _ => .pure .ok) fun _ => .pure .ok

theorem handleDescribeDevice_speaks (request : DescribeDeviceRequest) (response : Response) :
    Speaks (handleDescribeDevice host request response) :=
  .ite (fun _ => .pure (.text (by decide))) fun _ => .bind fun _ =>
    .ite (fun _ => unknownDevice_speaks _ response) fun _ => .bind fun _ => .bind fun _ => .pure .ok

theorem readKnownSignals_speaks (request : ReadSignalsRequest) (response : Response) :
    Speaks (readKnownSignals host request response) :=
  Traced.Ensures.observe_bind fun _ => Traced.Ensures.ite
    (fun hfail => Traced.Ensures.pure (.ofRead List.mem_cons_self hfail rfl)) fun _ =>
    Traced.Ensures.pure .ok

theorem handleReadSignals_speaks (request : ReadSignalsRequest) (response : Response) :
    Speaks (handleReadSignals host request response) := by
  refine .ite (fun _ => .pure (.text (by decide))) fun _ => .bind fun _ =>
    .ite (fun _ => unknownDevice_speaks _ response) fun _ =>
    .ite (fun _ => readKnownSignals_speaks request response) fun _ => .bind fun _ => ?_
  split
  · next id _ =>
    have hq := ((((Quotes.text "unknown signal_id '").append (.echoed id)).append
      (.text "' for device '")).append (.echoed request.deviceId)).append (.text "'")
    exact .pure (.of_quotes hq (by decide))
  · exact readKnownSignals_speaks request response

theorem callProvider_speaks (request : CallRequest) (functionId : UInt32) (response : Response) :
    Speaks (callProvider host request functionId response) := by
  refine Traced.Ensures.observe_bind fun _ => Traced.Ensures.ite
    (fun hfail => Traced.Ensures.pure (.ofCall List.mem_cons_self hfail rfl)) fun _ => ?_
  split
  · exact Traced.Ensures.pure .ok
  · exact Speaks.after (.bind fun _ => .ite (fun _ => .pure (.text (by decide)))
      fun _ => .pure .ok) _

theorem callBeforeDeadline_speaks (request : CallRequest) (functionId : UInt32)
    (response : Response) : Speaks (callBeforeDeadline host request functionId response) := by
  unfold callBeforeDeadline
  split
  · exact callProvider_speaks request functionId response
  · exact .ite (fun _ => .pure (.text (by decide))) fun _ => .bind fun _ =>
      .ite (fun _ => .pure (.text (by decide))) fun _ =>
        callProvider_speaks request functionId response

/-- An error of the validator quotes the capabilities just read. -/
theorem callResolved_speaks {request : CallRequest} (hargs : request.args.Fits)
    (functionId : UInt32) (response : Response) :
    Speaks (callResolved host request functionId response) := by
  refine Traced.Ensures.observe_bind fun s => ?_
  split
  · next err herr =>
    obtain ⟨spec, hspec, herr⟩ := Option.bind_eq_some_iff.mp herr
    obtain ⟨names, values, hdeclares, hquotes⟩ := validateCallArgs_quotes hargs herr
    exact Traced.Ensures.pure (.own (.function List.mem_cons_self
      (List.mem_of_find?_eq_some hspec) hdeclares) hquotes)
  · exact (callBeforeDeadline_speaks request functionId response).after _

theorem handleCall_speaks {request : CallRequest} (hargs : request.args.Fits)
    (response : Response) : Speaks (handleCall host request response) := by
  refine .ite (fun _ => .pure (.text (by decide))) fun _ => .bind fun _ =>
    .ite (fun _ => unknownDevice_speaks _ response) fun _ =>
    .ite (fun _ => .pure (.text (by decide))) fun _ =>
    .ite (fun _ => .bind fun resolved => ?_) fun _ => callResolved_speaks hargs _ response
  cases resolved with
  | none =>
    have hq := ((((Quotes.text "unknown function_name '").append
      (.echoed request.functionName)).append (.text "' for device_id '")).append
        (.echoed request.deviceId)).append (.text "'")
    exact .pure (.of_quotes hq (by decide))
  | some functionId => exact callResolved_speaks hargs functionId response

end Handlers

/-- The values of a request are ones its types can hold. -/
def Request.Fits (request : Request) : Prop :=
  ∀ call, request.kind = .call call → call.args.Fits

/-- Every handler leaves a small message. -/
theorem handle_speaks {σ : Type} {host : Host σ} {request : Request} (hfits : request.Fits)
    (response : Response) : Speaks (handle host request response) := by
  unfold handle
  cases hkind : request.kind with
  | hello hello => exact handleHello_speaks hello response
  | waitReady _ => exact .bind fun _ => .bind fun _ => .pure .ok
  | listDevices listDevices => exact handleListDevices_speaks listDevices response
  | describeDevice describeDevice => exact handleDescribeDevice_speaks describeDevice response
  | readSignals readSignals => exact handleReadSignals_speaks readSignals response
  | call call => exact handleCall_speaks (hfits call hkind) response
  | getHealth => exact .bind fun _ => .bind fun _ => .bind fun _ => .bind fun _ => .pure .ok
  | none => exact .pure (.text (by decide))

/-! ### Many allowed values -/

/-- `mode: string`, one of the first `count` numbers. -/
def modeArg (count : ℕ) : ArgSpec :=
  { name := lit "mode", type := .string, required := true
    minDouble := none, maxDouble := none, minInt64 := none, maxInt64 := none
    minUint64 := none, maxUint64 := none
    allowedValues := (List.range count).map toStringNat }

/-- `set_mode(mode)`. -/
def setModeSpec (count : ℕ) : FunctionSpec :=
  { functionId := 1, name := lit "set_mode", args := [modeArg count] }

/-- `mode = ?`. -/
def modeArgs : ValueMap :=
  (∅ : ValueMap).insert (lit "mode") ⟨.string, .stringValue (lit "?")⟩

theorem lookup_modeArgs : modeArgs.lookup (lit "mode") = some ⟨.string, .stringValue (lit "?")⟩ :=
  AList.lookup_insert _

theorem fits_modeArgs : modeArgs.Fits := by
  intro name v hv
  by_cases hname : name = lit "mode"
  · rw [hname, lookup_modeArgs, Option.some.injEq] at hv
    subst hv
    exact ⟨fun n hn => absurd hn (by simp), by decide, by decide⟩
  · rw [modeArgs, AList.lookup_insert_ne hname] at hv
    cases hv

/-- The declared strings of a function, in bytes. -/
def FunctionSpec.declaredBytes (spec : FunctionSpec) : ℕ :=
  spec.name.length + (spec.args.map fun arg =>
    arg.name.length + (arg.allowedValues.map List.length).sum).sum

/-- A number is no question mark. -/
theorem question_notMem_allowedValues (count : ℕ) : lit "?" ∉ (modeArg count).allowedValues := by
  intro hmem
  obtain ⟨n, -, hn⟩ := List.mem_map.mp hmem
  obtain ⟨d, hd, hdigit⟩ := exists_digit_of_mem_toStringNat (n := n) (b := chr '?')
    (hn ▸ List.mem_singleton_self _)
  have hval := congrArg UInt8.toNat hdigit
  simp only [digitByte, UInt8.toNat_ofNat', show (chr '?').toNat = 63 from rfl] at hval
  omega

/-- The list in the message of a mode that is not allowed. -/
theorem validateCallArgs_modeArgs {count : ℕ} (h : count ≠ 0) :
    validateCallArgs .silent (setModeSpec count) modeArgs =
      some (invalid (lit "argument " ++ quoted (lit "mode") ++ lit " must be one of [" ++
        (lit ", ").intercalate ((modeArg count).allowedValues.map quoted) ++ lit "]")) := by
  have hnames : undeclaredNames (setModeSpec count) modeArgs = [] := rfl
  have htype : checkType (modeArg count) ⟨.string, .stringValue (lit "?")⟩ = none := rfl
  have hbounds : checkBounds .silent (modeArg count) ⟨.string, .stringValue (lit "?")⟩ = none := rfl
  have hallowed : checkAllowed (modeArg count) ⟨.string, .stringValue (lit "?")⟩ =
      some (invalid (lit "argument " ++ quoted (lit "mode") ++ lit " must be one of [" ++
        (lit ", ").intercalate ((modeArg count).allowedValues.map quoted) ++ lit "]")) := by
    have hne : (modeArg count).allowedValues ≠ [] := by simpa [modeArg] using h
    rw [checkAllowed, if_neg hne,
      if_neg fun hin => question_notMem_allowedValues count hin.2]
    rfl
  have harg : checkArg .silent (setModeSpec count) modeArgs (modeArg count) =
      checkAllowed (modeArg count) ⟨.string, .stringValue (lit "?")⟩ := by
    rw [checkArg, show (modeArg count).name = lit "mode" from rfl, lookup_modeArgs]
    simp only [htype, hbounds, Option.none_or]
  rw [validateCallArgs, hnames, leastBytes]
  simp only [setModeSpec, List.findSome?_cons] at harg ⊢
  rw [harg, hallowed]

/-- No constant bounds a message beyond the declared strings. -/
theorem no_constant_bound : ¬∃ K, ∀ spec args err, ValueMap.Fits args →
    validateCallArgs .silent spec args = some err →
      err.message.length ≤ K + spec.declaredBytes := by
  rintro ⟨K, hK⟩
  have hle := hK _ _ _ fits_modeArgs (validateCallArgs_modeArgs (Nat.add_one_ne_zero K))
  have hne : (modeArg (K + 1)).allowedValues ≠ [] := by simp [modeArg]
  have hlist := length_list_quoted hne
  have hcount : (modeArg (K + 1)).allowedValues.length = K + 1 := by simp [modeArg]
  have hsum : ((modeArg (K + 1)).allowedValues.map fun v => v.length + 4).sum =
      ((modeArg (K + 1)).allowedValues.map List.length).sum + 4 * (K + 1) := by
    rw [List.sum_map_add, List.map_const', List.sum_replicate_nat, hcount, mul_comm]
  have hbytes : (setModeSpec (K + 1)).declaredBytes =
      12 + ((modeArg (K + 1)).allowedValues.map List.length).sum := by
    simp only [FunctionSpec.declaredBytes, setModeSpec, List.map_cons, List.map_nil, List.sum_cons,
      List.sum_nil, show (modeArg (K + 1)).name.length = 4 from rfl,
      show (lit "set_mode").length = 8 from rfl]
    omega
  simp only [invalid, List.length_append, show (lit " must be one of [").length = 17 from rfl]
    at hle
  omega

/-! ### An unknown device -/

/-- Thirty characters of three bytes. -/
def euros : Bytes :=
  (List.replicate 30 '€').flatMap String.utf8EncodeChar

/-- A request to describe a device nobody has. -/
def describeEuros : Request :=
  ⟨1, .describeDevice ⟨euros⟩⟩

theorem fits_describeEuros : describeEuros.Fits :=
  fun _ hkind => nomatch hkind

/-! ### Small errors -/

/-- Whatever a request holds, echoes are cut between characters and messages stay within a
constant of what they quote, with four bytes more for each allowed value. -/
theorem errors_stay_small :
    (∀ field : Bytes, field.length ≤ 64 → echo field = field) ∧
      (∀ field : Bytes, 64 < field.length → WellFormed field →
        ∃ n, IsGreatest {i | i ≤ 64 ∧ Boundary field i} n ∧
          echo field = field.take n ++ lit "..." ∧ WellFormed (echo field) ∧
            (echo field).length ≤ 67) ∧
      (∀ (number : NumberPrinter) (spec : FunctionSpec) (args : ValueMap) (err : ArgError),
        args.Fits → validateCallArgs number spec args = some err →
          ∃ names values, spec.Declares names values ∧ Quotes 175 names values err.message) ∧
      ∀ {σ : Type} (host : Host σ) (request : Request) (response : Response), request.Fits →
        (handle host request response).Ensures fun r es => SmallMessage es r.status.message := by
  refine ⟨fun field h => echo_of_length_le h, fun field hlong h => ?_,
    fun _ _ _ _ hargs h => validateCallArgs_quotes hargs h,
    fun _ _ response hfits => handle_speaks hfits response⟩
  obtain ⟨n, hcut, hecho, hwell⟩ := exists_cut_echo hlong h
  exact ⟨n, hcut, hecho, hwell, length_echo_le field⟩

/-- A long name is cut, a wrong mode lists two values, and an unknown device is reported. -/
theorem errors_stay_small_euros :
    (∃ n, IsGreatest {i | i ≤ 64 ∧ Boundary euros i} n ∧
        echo euros = euros.take n ++ lit "..." ∧ WellFormed (echo euros) ∧
          (echo euros).length ≤ 67) ∧
      (∃ names values, (setModeSpec 2).Declares names values ∧
        Quotes 175 names values (lit "argument " ++ quoted (lit "mode") ++
          lit " must be one of [" ++
            (lit ", ").intercalate ((modeArg 2).allowedValues.map quoted) ++ lit "]")) ∧
      (handle (quiet (metadataWith ∅) emptyReport) describeEuros ⟨1, ⟨.ok, [], ∅⟩, .none⟩).Ensures
        fun r es => SmallMessage es r.status.message :=
  ⟨errors_stay_small.2.1 euros (by decide +kernel) ⟨_, rfl⟩,
    errors_stay_small.2.2.1 .silent (setModeSpec 2) modeArgs _ fits_modeArgs
      (validateCallArgs_modeArgs (by decide)),
    errors_stay_small.2.2.2 _ _ _ fits_describeEuros⟩

end ProviderSdk

import Keylix.Lib.JsonValue
import Keylix.Verifier.Envelope
import Keylix.Verifier.Nonce

/-!
# Remote calls

A host adapter writes its request as text, seals it, and sends it as one line; it opens the line
that comes back and reads the result from it. `VerifierRequest` and `VerifierResult` are the two
texts: the request is written and the result is read by the adapter.

`remoteCall_iff`: over streams that do not fail, the calls of an adapter have exactly the results
and the effects of calling the service directly.
-/

set_option autoImplicit false

namespace Keylix.Verifier

open Keylix.Lib Keylix.Core Keylix.Dpop Keylix.OAuth
open Keylix.Lib.Prog (Outcome outcome_bind outcome_inl outcome_inr sumHandler)

theorem asU16_natCast {n : Nat} (h : n < 2 ^ 16) : Json.asU16 (.int n) = some n := by
  simp only [Json.asU16]
  rw [if_pos (by omega), Int.toNat_natCast]

theorem asI64_toInt (z : I64) : Json.asI64 (.int z.toInt) = some z := I64.ofInt?_toInt z

/-! ## Requests -/

/-- An optional string, written as `null` when it is absent. -/
def optionalString : Option Bytes → Json
  | none => .null
  | some s => .str s

theorem asOptionalString_optionalString (s : Option Bytes) :
    Json.asOptionalString (some (optionalString s)) = some s := by
  cases s with
  | none => rfl
  | some s => rfl

namespace VerifierRequest

def toJson (request : VerifierRequest) : Json :=
  .obj [(ascii "version", .int request.version), (ascii "method", .str request.method),
    (ascii "target", .str request.target), (ascii "access_token", .str request.accessToken),
    (ascii "dpop_proof", .str request.dpopProof),
    (ascii "confirmation_jkt", optionalString request.confirmationJkt)]

/-- The fields are values of their types: a 16-bit version, and UTF-8 strings. -/
structure Typed (request : VerifierRequest) : Prop where
  version : request.version < 2 ^ 16
  method : IsUtf8 request.method
  target : IsUtf8 request.target
  accessToken : IsUtf8 request.accessToken
  dpopProof : IsUtf8 request.dpopProof
  confirmationJkt : ∀ jkt, request.confirmationJkt = some jkt → IsUtf8 jkt

/-- A request is read as it was written. -/
theorem ofJson_toJson {request : VerifierRequest} (h : request.Typed) :
    ofJson request.toJson = some request := by
  show (do
    let version ← Json.asU16 (.int request.version)
    let jkt ← Json.asOptionalString (some (optionalString request.confirmationJkt))
    some (VerifierRequest.mk version request.method request.target request.accessToken
      request.dpopProof jkt)) = some request
  rw [asU16_natCast h.version, asOptionalString_optionalString]
  rfl

theorem toJson_plain {request : VerifierRequest} (h : request.Typed) :
    request.toJson.Plain ∧ request.toJson.depth ≤ 127 := by
  have hname : ∀ n ∈ [ascii "version", ascii "method", ascii "target", ascii "access_token",
      ascii "dpop_proof", ascii "confirmation_jkt"], IsUtf8 n := by
    intro n hn
    refine isUtf8_of_isAscii ?_
    revert n
    decide
  have hversion := h.version
  simp only [List.mem_cons, List.not_mem_nil, or_false, forall_eq_or_imp, forall_eq] at hname
  have hjkt : (optionalString request.confirmationJkt).Plain ∧
      (optionalString request.confirmationJkt).depth = 0 := by
    cases hvalue : request.confirmationJkt with
    | none => simp [optionalString, Json.Plain, Json.depth]
    | some jkt => simp [optionalString, Json.Plain, Json.depth, h.confirmationJkt jkt hvalue]
  constructor
  · simp only [toJson, Json.Plain, Json.PlainMembers, Json.PlainMember, hname, h.method, h.target,
      h.accessToken, h.dpopProof, hjkt, true_and, and_true]
    omega
  · simp [toJson, Json.depth, Json.depthMembers, Json.depthMember, hjkt]

theorem render_ne_nil (request : VerifierRequest) : request.toJson.render ≠ [] :=
  List.cons_ne_nil _ _

/-- The text has 90 bytes beside its values. -/
theorem length_render (request : VerifierRequest) : request.toJson.render.length =
    90 + (decimalInt request.version).length + Json.escapedLength request.method +
      Json.escapedLength request.target + Json.escapedLength request.accessToken +
      Json.escapedLength request.dpopProof +
      (optionalString request.confirmationJkt).render.length := by
  have hconst : Json.escapedLength (ascii "version") = 7 ∧
      Json.escapedLength (ascii "method") = 6 ∧ Json.escapedLength (ascii "target") = 6 ∧
      Json.escapedLength (ascii "access_token") = 12 ∧
      Json.escapedLength (ascii "dpop_proof") = 10 ∧
      Json.escapedLength (ascii "confirmation_jkt") = 16 := by decide
  simp only [toJson, Json.render, Json.renderMember, Json.renderMembers, List.length_cons,
    List.length_append, List.length_nil, Json.length_renderStr, hconst]
  omega

theorem parse_render (json : JsonText) {request : VerifierRequest} (h : request.Typed) :
    (json.parse request.toJson.render).bind ofJson = some request := by
  obtain ⟨hplain, hdepth⟩ := toJson_plain h
  rw [json.parse_render _ hplain hdepth, Option.bind_some, ofJson_toJson h]

end VerifierRequest

/-! ## Results -/

def failureClasses : List FailureClass :=
  [.unsupportedVersion, .malformedRequest, .invalidProof, .methodMismatch, .targetMismatch,
    .staleProof, .futureProof, .nonceRequired, .nonceMismatch, .nonceStateUnavailable, .replay,
    .replayStoreUnavailable, .tokenHashMismatch, .tokenBindingMissing, .tokenBindingMalformed,
    .confirmationKeyMismatch, .tokenIdentityMismatch, .clockUnavailable, .internalFailure]

/-- The failure class of a name on the wire. -/
def FailureClass.ofJson (j : Json) : Option FailureClass := do
  let name ← j.asUnitVariant
  failureClasses.find? fun failure => failure.wireName = name

theorem FailureClass.ofJson_wireName (failure : FailureClass) :
    FailureClass.ofJson (.str failure.wireName) = some failure := by
  cases failure <;> decide

def verifiedBindingFields : List Json.Field :=
  [⟨ascii "key_thumbprint", .required⟩, ⟨ascii "proof_issued_at_unix", .required⟩,
    ⟨ascii "nonce_enforced", .required⟩, ⟨ascii "replay_checked", .required⟩]

def VerifiedBinding.ofJson (j : Json) : Option VerifiedBinding :=
  match Json.recordFields true verifiedBindingFields j with
  | some [some keyThumbprint, some issuedAt, some nonceEnforced, some replayChecked] => do
      let keyThumbprint ← keyThumbprint.asString
      let issuedAt ← issuedAt.asI64
      let nonceEnforced ← nonceEnforced.asBool
      let replayChecked ← replayChecked.asBool
      some ⟨keyThumbprint, issuedAt, nonceEnforced, replayChecked⟩
  | _ => none

namespace VerifierResult

def verifiedFields : List Json.Field :=
  [⟨ascii "version", .required⟩, ⟨ascii "binding", .required⟩]

def rejectedFields : List Json.Field :=
  [⟨ascii "version", .required⟩, ⟨ascii "failure", .required⟩, ⟨ascii "dpop_nonce", .optional⟩]

/-- The fields of a variant. A member that is none of them is skipped. -/
def readVerified (content : Json) : Option VerifierResult :=
  match Json.recordFields false verifiedFields content with
  | some [some version, some binding] => do
      let version ← version.asU16
      let binding ← VerifiedBinding.ofJson binding
      some (.verified version binding)
  | _ => none

def readRejected (content : Json) : Option VerifierResult :=
  match Json.recordFields false rejectedFields content with
  | some [some version, some failure, dpopNonce] => do
      let version ← version.asU16
      let failure ← FailureClass.ofJson failure
      let dpopNonce ← Json.asOptionalString dpopNonce
      some (.rejected version failure dpopNonce)
  | _ => none

/-- The tag names the variant. -/
def ofJson (j : Json) : Option VerifierResult :=
  match Json.taggedContent (ascii "status") j with
  | some (variant, content) =>
      if variant = ascii "verified" then readVerified content
      else if variant = ascii "rejected" then readRejected content
      else none
  | none => none

def version : VerifierResult → Nat
  | .verified version _ => version
  | .rejected version _ _ => version

theorem readVerified_members {version : Nat} (h : version < 2 ^ 16) (binding : VerifiedBinding) :
    readVerified (.obj [(ascii "version", .int version), (ascii "binding", binding.toJson)]) =
      some (.verified version binding) := by
  have hbinding : VerifiedBinding.ofJson binding.toJson = some binding := by
    show (do
      let issuedAt ← Json.asI64 (.int binding.proofIssuedAtUnix.toInt)
      some (VerifiedBinding.mk binding.keyThumbprint issuedAt binding.nonceEnforced
        binding.replayChecked)) = some binding
    rw [asI64_toInt]
    rfl
  show (do
    let version ← Json.asU16 (.int version)
    let binding ← VerifiedBinding.ofJson binding.toJson
    some (VerifierResult.verified version binding)) = some (.verified version binding)
  rw [asU16_natCast h, hbinding]
  rfl

theorem readRejected_members {version : Nat} (h : version < 2 ^ 16) (failure : FailureClass)
    (dpopNonce : Option Bytes) :
    readRejected
      (.obj ([(ascii "version", .int version), (ascii "failure", .str failure.wireName)] ++
        dpopNonce.toList.map fun nonce => (ascii "dpop_nonce", .str nonce))) =
      some (.rejected version failure dpopNonce) := by
  have hread : readRejected (.obj ([(ascii "version", .int version),
        (ascii "failure", .str failure.wireName)] ++
          dpopNonce.toList.map fun nonce => (ascii "dpop_nonce", .str nonce))) = (do
      let version ← Json.asU16 (.int version)
      let failure ← FailureClass.ofJson (.str failure.wireName)
      some (VerifierResult.rejected version failure dpopNonce)) := by
    -- a nonce that is written is read, and one that is left out is read as none
    cases dpopNonce with
    | none => rfl
    | some nonce => rfl
  rw [hread, asU16_natCast h, FailureClass.ofJson_wireName]
  rfl

/-- A result is read as it was written. -/
theorem ofJson_toJson {result : VerifierResult} (h : result.version < 2 ^ 16) :
    ofJson result.toJson = some result := by
  cases result with
  | verified version binding =>
    have htag : ascii "status" ∉ [ascii "version", ascii "binding"] := by decide
    rw [toJson, ofJson, Json.taggedContent_obj htag]
    exact readVerified_members h binding
  | rejected version failure dpopNonce =>
    have hname : ascii "status" ≠ ascii "version" ∧ ascii "status" ≠ ascii "failure" ∧
        ascii "status" ≠ ascii "dpop_nonce" := by decide
    have hnames : ascii "status" ∉ ([(ascii "version", Json.int version),
        (ascii "failure", .str failure.wireName)] ++
          dpopNonce.toList.map fun nonce => (ascii "dpop_nonce", Json.str nonce)).map Prod.fst := by
      cases dpopNonce with
      | none => simp [hname]
      | some nonce => simp [hname]
    have hvariant : ascii "rejected" ≠ ascii "verified" := by decide
    rw [toJson, List.cons_append, ofJson, Json.taggedContent_obj hnames]
    simp only [if_neg hvariant, if_true]
    exact readRejected_members h failure dpopNonce

/-- The results of the service are texts that a parser reads back. -/
theorem FromService.plain {result : VerifierResult} (h : result.FromService) :
    result.toJson.Plain ∧ result.toJson.depth ≤ 127 := by
  have hname : ∀ n ∈ [ascii "status", ascii "verified", ascii "rejected", ascii "version",
      ascii "binding", ascii "key_thumbprint", ascii "proof_issued_at_unix",
      ascii "nonce_enforced", ascii "replay_checked", ascii "failure", ascii "dpop_nonce"],
      IsUtf8 n := by
    intro n hn
    refine isUtf8_of_isAscii ?_
    revert n
    decide
  simp only [List.mem_cons, List.not_mem_nil, or_false, forall_eq_or_imp, forall_eq] at hname
  cases h with
  | verified thumbprint issuedAt nonceEnforced replayChecked =>
    have hthumbprint : IsUtf8 thumbprint.toBase64url :=
      isUtf8_of_isAscii (Base64.isAscii_encode _)
    have hlower := issuedAt.lower
    have hupper := issuedAt.upper
    constructor
    · simp only [toJson, VerifiedBinding.toJson, Json.Plain, Json.PlainMembers, Json.PlainMember,
        hname, hthumbprint, verifierProtocolVersion, true_and, and_true]
      omega
    · simp [toJson, VerifiedBinding.toJson, Json.depth, Json.depthMembers, Json.depthMember]
  | rejected failure nonce =>
    have hfailure : IsUtf8 failure.wireName := by
      refine isUtf8_of_isAscii ?_
      cases failure <;> decide
    cases nonce with
    | none =>
      constructor
      · simp [toJson, Json.Plain, Json.PlainMembers, Json.PlainMember, hname, hfailure,
          verifierProtocolVersion]
      · simp [toJson, Json.depth, Json.depthMembers, Json.depthMember]
    | some nonce =>
      have hnonce : IsUtf8 nonce.asHeaderValue := nonce.value.utf8
      constructor
      · simp [toJson, Json.Plain, Json.PlainMembers, Json.PlainMember, hname, hfailure, hnonce,
          verifierProtocolVersion]
      · simp [toJson, Json.depth, Json.depthMembers, Json.depthMember]

theorem FromService.parse_render (json : JsonText) {result : VerifierResult}
    (h : result.FromService) :
    (json.parse result.toJson.render).bind ofJson = some result := by
  obtain ⟨hplain, hdepth⟩ := h.plain
  have hversion : result.version < 2 ^ 16 := by
    have hservice : result.version = verifierProtocolVersion := by
      cases h with
      | verified => rfl
      | rejected => rfl
    rw [hservice]
    decide
  rw [json.parse_render _ hplain hdepth, Option.bind_some, ofJson_toJson hversion]

end VerifierResult

/-! ## Calls -/

section Calls

variable {hmac : Hmac} (crypto : Crypto) (json : JsonText)

/-- One call of an adapter: its sealed request is sent as a line, the connection answers it, and the
result is read from the line that was written back. -/
def RemoteCall (c : Configuration hmac) (adapter : PeerCredentialSet hmac) (peerId : Bytes)
    (correlation : ByteArr ipcCorrelationBytes) (request : VerifierRequest)
    (result : VerifierResult) (state' : c.σ) : Prop :=
  ∃ sealed t' line response,
    adapter.sealRequest peerId request.toJson.render (some correlation) = .ok sealed ∧
    Outcome (sumHandler c.handler deliver) (handleConnection crypto json c.peers c.app)
      (c.state, ⟨sealed.frame ++ [byte '\n'], []⟩) (.ok ()) (state', t') ∧
    t'.written = line ++ [byte '\n'] ∧
    adapter.openResponseForRequest json sealed line = .ok response ∧
    (json.parse response.payload).bind VerifierResult.ofJson = some result

variable {crypto json} {c : Configuration hmac} {adapter : PeerCredentialSet hmac}
  {peer : PeerCredential hmac} {correlation : ByteArr ipcCorrelationBytes}
  {request : VerifierRequest}

theorem sealRequest_eq_ok_iff (hpeer : peer ∈ adapter.peers) {sealed : SealedIpcRequest} :
    adapter.sealRequest peer.id request.toJson.render (some correlation) = .ok sealed ↔
      request.toJson.render.length ≤ maxVerifierPayloadBytes ∧
        sealed = ⟨(peer.envelope correlation request.toJson.render .request).toJson.render, peer.id,
          correlation⟩ := by
  by_cases hlen : request.toJson.render.length ≤ maxVerifierPayloadBytes
  · rw [PeerCredentialSet.sealRequest, sealEnvelope_of_mem hpeer request.render_ne_nil hlen]
    constructor
    · intro h
      exact ⟨hlen, (Except.ok.inj h).symm⟩
    · rintro ⟨-, rfl⟩
      rfl
  · -- a payload beyond the limit is not sealed
    have hlimit : (request.toJson.render.isEmpty ||
        decide (maxVerifierPayloadBytes < request.toJson.render.length)) = true := by
      rw [decide_eq_true (Nat.lt_of_not_le hlen), Bool.or_true]
    simp only [PeerCredentialSet.sealRequest, PeerCredentialSet.sealEnvelope, if_pos hlimit]
    constructor
    · intro h
      cases h
    · rintro ⟨hle, -⟩
      exact absurd hle hlen

section Answer

variable (hcorrect : hmac.Correct) (hpeer : peer ∈ c.peers.peers) (hrequest : request.Typed)
  (hlen : request.toJson.render.length ≤ maxVerifierPayloadBytes)

include hcorrect hpeer hlen

/-- The line of a sealed request arrives as its frame, which is opened. -/
theorem openRequest_line :
    c.peers.openRequest json
        (peer.envelope correlation request.toJson.render .request).toJson.render =
      .ok ⟨peer.id, correlation, request.toJson.render⟩ := by
  rw [PeerCredentialSet.openRequest,
    openEnvelope_envelope json hpeer request.render_ne_nil hlen, if_pos (hcorrect _ _)]

omit hcorrect hpeer in
/-- The line of a sealed request is read as its frame, and nothing is written before it is
answered. -/
theorem readFrame_line {received : Except Unit Bytes} {t₀ : StreamState}
    (hread : Outcome deliver readFrame
      ⟨(peer.envelope correlation request.toJson.render .request).toJson.render ++ [byte '\n'], []⟩
      received t₀) :
    received = .ok (peer.envelope correlation request.toJson.render .request).toJson.render ∧
      t₀.written = [] :=
  ⟨outcome_readFrame_of_frame (envelope_ne_nil peer correlation _ _)
    (length_envelope_lt peer correlation _ hlen) (not_mem_envelope (by decide))
    (not_mem_envelope (by decide)) hread,
    written_readLoop (hread.mono streamHandler_of_deliver)⟩

omit hcorrect hpeer in
theorem exists_readFrame_line :
    ∃ t₀, Outcome deliver readFrame
      ⟨(peer.envelope correlation request.toJson.render .request).toJson.render ++ [byte '\n'], []⟩
      (.ok (peer.envelope correlation request.toJson.render .request).toJson.render) t₀ ∧
      t₀.written = [] := by
  obtain ⟨received, t₀, hread⟩ := exists_delivery []
    ⟨(peer.envelope correlation request.toJson.render .request).toJson.render ++ [byte '\n'], []⟩
  obtain ⟨rfl, hsilent⟩ := readFrame_line hlen hread
  exact ⟨t₀, hread, hsilent⟩

include hrequest

/-- A connection answers the line of a sealed request with the sealed result of the service. -/
theorem outcome_line {r : Except Unit Unit} {state' : c.σ} {t' : StreamState}
    (h : Outcome (sumHandler c.handler deliver) (handleConnection crypto json c.peers c.app)
      (c.state, ⟨(peer.envelope correlation request.toJson.render .request).toJson.render ++
        [byte '\n'], []⟩) r (state', t')) :
    ∃ result, Outcome c.handler (c.app.verify crypto json request) c.state result state' ∧
      r = .ok () ∧ t'.written =
        (peer.envelope correlation result.toJson.render .response).toJson.render ++
          [byte '\n'] := by
  obtain ⟨received, ⟨state₀, t₀⟩, hread, hanswer⟩ := outcome_bind.1 h
  obtain ⟨hstate, hread⟩ := outcome_inr.1 hread
  have hsilent : t₀.written = [] := (readFrame_line hlen hread).2
  obtain rfl := (readFrame_line hlen hread).1
  cases hstate
  obtain ⟨result, hresult, rfl, rfl⟩ := Configuration.outcome_answerFrame hpeer rfl
    (openRequest_line hcorrect hpeer hlen) hanswer
  unfold Configuration.Answers at hresult
  simp only [VerifierRequest.parse_render json hrequest] at hresult
  refine ⟨result, hresult, rfl, ?_⟩
  simp only [hsilent, List.nil_append]

/-- Every answer of the service is the answer of a run of the connection. -/
theorem exists_answer_line {result : VerifierResult} {state' : c.σ}
    (h : Outcome c.handler (c.app.verify crypto json request) c.state result state') :
    ∃ t₀ t', Outcome deliver readFrame
        ⟨(peer.envelope correlation request.toJson.render .request).toJson.render ++ [byte '\n'],
          []⟩
        (.ok (peer.envelope correlation request.toJson.render .request).toJson.render) t₀ ∧
      Outcome (sumHandler c.handler deliver) (answerFrame crypto json c.peers c.app
        (peer.envelope correlation request.toJson.render .request).toJson.render) (c.state, t₀)
        (.ok ()) (state', t') ∧
      t'.written = (peer.envelope correlation result.toJson.render .response).toJson.render ++
        [byte '\n'] := by
  have hservice := (fromService_verify crypto json c.app request).outcome h
  obtain ⟨t₀, hread, hsilent⟩ := @exists_readFrame_line hmac peer correlation request hlen
  have hwrite := exists_writeFrame mayAccept_deliver
    (envelope_ne_nil peer correlation result.toJson.render .response)
    (Nat.le_of_succ_le (length_envelope_lt peer correlation _ (length_result_le hservice).2)) t₀
  have hrespond : respond c.peers ⟨peer.id, correlation, request.toJson.render⟩ result =
      writeFrame (peer.envelope correlation result.toJson.render .response).toJson.render :=
    Configuration.respond_eq hpeer rfl hservice
  have hanswer : answerFrame crypto json c.peers c.app
      (peer.envelope correlation request.toJson.render .request).toJson.render =
        (c.app.verify crypto json request).inl >>= fun result =>
          (respond c.peers ⟨peer.id, correlation, request.toJson.render⟩ result).inr := by
    simp only [answerFrame, openRequest_line hcorrect hpeer hlen,
      VerifierRequest.parse_render json hrequest]
  refine ⟨t₀, ⟨t₀.incoming, t₀.written ++
    (peer.envelope correlation result.toJson.render .response).toJson.render ++ [byte '\n']⟩,
    hread, ?_, ?_⟩
  · rw [hanswer]
    refine outcome_bind.2 ⟨result, (state', t₀), outcome_inl.2 ⟨rfl, h⟩, ?_⟩
    rw [hrespond]
    exact outcome_inr.2 ⟨rfl, hwrite⟩
  · simp only [hsilent, List.nil_append]

/-- And it may end so. -/
theorem exists_outcome_line {result : VerifierResult} {state' : c.σ}
    (h : Outcome c.handler (c.app.verify crypto json request) c.state result state') :
    ∃ t', Outcome (sumHandler c.handler deliver) (handleConnection crypto json c.peers c.app)
      (c.state, ⟨(peer.envelope correlation request.toJson.render .request).toJson.render ++
        [byte '\n'], []⟩) (.ok ()) (state', t') ∧
      t'.written = (peer.envelope correlation result.toJson.render .response).toJson.render ++
        [byte '\n'] := by
  obtain ⟨t₀, t', hread, hanswer, hwritten⟩ :=
    exists_answer_line hcorrect hpeer hrequest hlen h
  exact ⟨t', outcome_bind.2 ⟨.ok _, (c.state, t₀), outcome_inr.2 ⟨rfl, hread⟩, hanswer⟩, hwritten⟩

end Answer

/-- The adapter opens the response of its own request, and reads the result. -/
theorem openResponse_line (hcorrect : hmac.Correct) (hpeer : peer ∈ adapter.peers)
    {result : VerifierResult} (hresult : result.FromService) (frame : Bytes) :
    adapter.openResponseForRequest json ⟨frame, peer.id, correlation⟩
        (peer.envelope correlation result.toJson.render .response).toJson.render =
      .ok ⟨peer.id, correlation, result.toJson.render⟩ := by
  obtain ⟨hne, hlen⟩ := length_result_le hresult
  rw [PeerCredentialSet.openResponseForRequest,
    openEnvelope_envelope json hpeer hne hlen, if_pos (hcorrect _ _)]
  simp [bind, Except.bind]

/-- **A remote call is a call of the service.** An adapter that shares a credential with the host
seals exactly the requests whose text fits a payload. Over streams that do not fail, the results and
the effects of its call are those of calling the service directly, however the lines are cut; and no
run of the connection on its line ends without such a result. -/
theorem remoteCall_iff (hcorrect : hmac.Correct) (hhost : peer ∈ c.peers.peers)
    (hadapter : peer ∈ adapter.peers) (hrequest : request.Typed) :
    ((∃ sealed, adapter.sealRequest peer.id request.toJson.render (some correlation) =
        .ok sealed) ↔ request.toJson.render.length ≤ maxVerifierPayloadBytes) ∧
    (∀ result state',
      RemoteCall crypto json c adapter peer.id correlation request result state' ↔
        request.toJson.render.length ≤ maxVerifierPayloadBytes ∧
          Outcome c.handler (c.app.verify crypto json request) c.state result state') ∧
    ∀ sealed r state' t',
      adapter.sealRequest peer.id request.toJson.render (some correlation) = .ok sealed →
      Outcome (sumHandler c.handler deliver) (handleConnection crypto json c.peers c.app)
        (c.state, ⟨sealed.frame ++ [byte '\n'], []⟩) r (state', t') →
      ∃ result, r = .ok () ∧
        RemoteCall crypto json c adapter peer.id correlation request result state' := by
  have hcall : ∀ sealed r state' t',
      adapter.sealRequest peer.id request.toJson.render (some correlation) = .ok sealed →
      Outcome (sumHandler c.handler deliver) (handleConnection crypto json c.peers c.app)
        (c.state, ⟨sealed.frame ++ [byte '\n'], []⟩) r (state', t') →
      ∃ result, r = .ok () ∧ result.FromService ∧
        Outcome c.handler (c.app.verify crypto json request) c.state result state' ∧
        t'.written = (peer.envelope correlation result.toJson.render .response).toJson.render ++
          [byte '\n'] := by
    intro sealed r state' t' hsealed hrun
    obtain ⟨hlen, rfl⟩ := (sealRequest_eq_ok_iff hadapter).1 hsealed
    obtain ⟨result, hverify, hr, hwritten⟩ := outcome_line hcorrect hhost hrequest hlen hrun
    exact ⟨result, hr, (fromService_verify crypto json c.app request).outcome hverify, hverify,
      hwritten⟩
  refine ⟨?_, ?_, ?_⟩
  · constructor
    · rintro ⟨sealed, hsealed⟩
      exact ((sealRequest_eq_ok_iff hadapter).1 hsealed).1
    · intro hlen
      exact ⟨_, (sealRequest_eq_ok_iff hadapter).2 ⟨hlen, rfl⟩⟩
  · intro result state'
    constructor
    · rintro ⟨sealed, t', line, response, hsealed, hrun, hline, hopen, hread⟩
      obtain ⟨result', -, hservice, hverify, hwritten⟩ := hcall _ _ _ _ hsealed hrun
      obtain ⟨hlen, rfl⟩ := (sealRequest_eq_ok_iff hadapter).1 hsealed
      -- the line that came back is the sealed response of the service
      obtain ⟨rfl, -⟩ := List.append_inj' (hline.symm.trans hwritten) rfl
      rw [openResponse_line hcorrect hadapter hservice] at hopen
      cases hopen
      rw [hservice.parse_render json] at hread
      cases hread
      exact ⟨hlen, hverify⟩
    · rintro ⟨hlen, hverify⟩
      have hservice := (fromService_verify crypto json c.app request).outcome hverify
      obtain ⟨t', hrun, hwritten⟩ := exists_outcome_line hcorrect hhost hrequest hlen hverify
      exact ⟨_, t', _, _, (sealRequest_eq_ok_iff hadapter).2 ⟨hlen, rfl⟩, hrun, hwritten,
        openResponse_line hcorrect hadapter hservice _, hservice.parse_render json⟩
  · intro sealed r state' t' hsealed hrun
    obtain ⟨result, rfl, hservice, hverify, hwritten⟩ := hcall _ _ _ _ hsealed hrun
    obtain ⟨-, rfl⟩ := (sealRequest_eq_ok_iff hadapter).1 hsealed
    exact ⟨result, rfl, _, t', _, _, hsealed, hrun, hwritten,
      openResponse_line hcorrect hadapter hservice _, hservice.parse_render json⟩

end Calls

/-! ## One call -/

def remoteRequest : VerifierRequest where
  version := verifierProtocolVersion
  method := ascii "GET"
  target := ascii "https://a/"
  accessToken := ascii "token"
  dpopProof := ascii "proof"
  confirmationJkt := none

theorem typed_remoteRequest : remoteRequest.Typed where
  version := by decide
  method := isUtf8_of_isAscii (by decide)
  target := isUtf8_of_isAscii (by decide)
  accessToken := isUtf8_of_isAscii (by decide)
  dpopProof := isUtf8_of_isAscii (by decide)
  confirmationJkt jkt h := by cases h

theorem length_remoteRequest : remoteRequest.toJson.render.length ≤ maxVerifierPayloadBytes := by
  have hparts : (decimalInt remoteRequest.version).length = 1 ∧
      Json.escapedLength remoteRequest.method = 3 ∧
      Json.escapedLength remoteRequest.target = 10 ∧
      Json.escapedLength remoteRequest.accessToken = 5 ∧
      Json.escapedLength remoteRequest.dpopProof = 5 ∧
      (optionalString remoteRequest.confirmationJkt).render.length = 4 := by decide
  rw [VerifierRequest.length_render]
  simp only [hparts, maxVerifierPayloadBytes]
  omega

/-- The proof of the request is no proof: the service rejects it before it uses a capability. -/
theorem verify_remoteRequest (crypto : Crypto) (json : JsonText) :
    closedApplication.verify crypto json remoteRequest = .ret (.reject .invalidProof) := by
  have hversion : ¬ remoteRequest.version ≠ verifierProtocolVersion := not_not.2 rfl
  have hnonempty : (remoteRequest.accessToken.isEmpty || remoteRequest.dpopProof.isEmpty) =
      false := by
    decide
  have htarget : EffectiveRequestTarget.parse remoteRequest.target = .ok sampleTarget :=
    parse_sampleTarget
  have hnonce : closedApplication.requiredNonce = .ret (.ok none) := rfl
  have hnew : DpopRequest.new remoteRequest.method sampleTarget = .ok sampleRequest := new_sample
  have hheader : parseDpopHeaderValues crypto json [remoteRequest.dpopProof] =
      .error .malformedProof := rfl
  unfold VerifierApplication.verify
  rw [if_neg hversion, hnonempty, if_neg Bool.false_ne_true, htarget]
  simp only [hnonce, Prog.bind_ret, VerifierApplication.verifyWithNonce, hnew, hheader]
  rfl

/-- The request and its result behind names, so that nothing evaluates the service on them. -/
theorem exists_remoteRequest (crypto : Crypto) (json : JsonText) :
    ∃ request result, remoteRequest = request ∧ VerifierResult.reject .invalidProof = result ∧
      request.Typed ∧ request.toJson.render.length ≤ maxVerifierPayloadBytes ∧
      Prog.Outcome (closedConfiguration operators).handler
        ((closedConfiguration operators).app.verify crypto json request) () result () := by
  refine ⟨_, _, rfl, rfl, typed_remoteRequest, length_remoteRequest, ?_⟩
  show Prog.Outcome _ (closedApplication.verify crypto json remoteRequest) () _ ()
  rw [verify_remoteRequest]
  exact ⟨rfl, rfl⟩

/-- An adapter calls a service with a request whose proof is none, and reads its result. -/
theorem remoteCall_iff_sample :
    RemoteCall permissiveCrypto compactText (closedConfiguration operators) operators operator.id
      exchangeCorrelation remoteRequest (.reject .invalidProof) () := by
  obtain ⟨request, result, hrequest, hresult, htyped, hlen, hverify⟩ :=
    exists_remoteRequest permissiveCrypto compactText
  have hiff := (@remoteCall_iff operatorHmac permissiveCrypto compactText
    (closedConfiguration operators) operators operator exchangeCorrelation request
    correct_operatorHmac List.mem_cons_self List.mem_cons_self htyped).2.1 result ()
  rw [hrequest, hresult]
  exact hiff.2 ⟨hlen, hverify⟩

end Keylix.Verifier

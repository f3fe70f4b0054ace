import Keylix.Verifier.Framing

/-!
# Envelopes and their sizes

What a peer seals is opened as it was sealed, and under the other domain not at all; its frame has
no line break and fits the writer and the reader of frames. The results of the service fit a
payload, so that a connection writes the sealed response of every request that it opened.

The library that computes tags is a parameter. Two properties of it are used: a tag of a text is
accepted for that text, and, for the separation of the domains, for no other text (`IdealTag`).
-/

set_option autoImplicit false

namespace Keylix.Verifier

open Keylix.Lib Keylix.Core Keylix.Dpop Keylix.OAuth
open Keylix.Lib.Prog (Outcome Returns outcome_bind outcome_inl outcome_inr sumHandler)

/-! ## The envelope of a message -/

section Messages

variable {hmac : Hmac}

/-- The tag of a text is accepted for the text. -/
def Hmac.Correct (hmac : Hmac) : Prop :=
  ∀ key input, hmac.verify key input (hmac.sign key input).1 = true

/-- The tag of a text is accepted for no other text. -/
def Hmac.IdealTag (hmac : Hmac) (key : hmac.Key) (input : Bytes) : Prop :=
  ∀ input', hmac.verify key input' (hmac.sign key input).1 = true → input' = input

/-- The envelope that `seal` writes. -/
def PeerCredential.envelope (peer : PeerCredential hmac) (correlation : ByteArr ipcCorrelationBytes)
    (payload : Bytes) (domain : Domain) : WireEnvelope where
  version := ipcProtocolVersion
  peerId := peer.id
  correlationBase64url := Base64.encode correlation.1
  payloadBase64url := Base64.encode payload
  macBase64url :=
    Base64.encode (hmac.sign peer.key (macInput domain peer.id correlation payload)).1

/-- An envelope is read back. -/
theorem ofJson_toJson {e : WireEnvelope} (h : e.version < 2 ^ 16) :
    WireEnvelope.ofJson e.toJson = some e := by
  have hversion : Json.asU16 (.int e.version) = some e.version := by
    simp only [Json.asU16]
    rw [if_pos (by omega), Int.toNat_natCast]
  show (do
    let version ← Json.asU16 (.int e.version)
    some (WireEnvelope.mk version e.peerId e.correlationBase64url e.payloadBase64url
      e.macBase64url)) = some e
  rw [hversion]
  rfl

/-- An identity belongs to one peer. -/
theorem find_of_mem {set : PeerCredentialSet hmac} {peer : PeerCredential hmac}
    (h : peer ∈ set.peers) : set.find peer.id = some peer := by
  obtain ⟨peers, hnodup⟩ := set
  simp only [PeerCredentialSet.find] at h ⊢
  induction peers with
  | nil => exact absurd h List.not_mem_nil
  | cons first peers ih =>
    rw [List.map_cons, List.nodup_cons] at hnodup
    rcases List.mem_cons.1 h with rfl | h
    · simp
    · -- another peer of the same identity would repeat it
      have hne : first.id ≠ peer.id := by
        intro he
        exact hnodup.1 (he ▸ List.mem_map_of_mem h)
      rw [List.find?_cons_of_neg (by simpa using hne)]
      exact ih hnodup.2 h

theorem validPeerId_spec {id : Bytes} (h : validPeerId id = true) :
    id.length ≤ 64 ∧ ∀ b ∈ id, isPeerIdByte b = true := by
  simp only [validPeerId, Bool.and_eq_true, List.all_eq_true, decide_eq_true_eq] at h
  exact ⟨h.1.2, h.2⟩

theorem isUtf8_peerId {id : Bytes} (h : validPeerId id = true) : IsUtf8 id := by
  have hbyte : ∀ b : UInt8, isPeerIdByte b = true → b < 0x80 := by decide +kernel
  apply isUtf8_of_isAscii
  simp only [isAscii, List.all_eq_true, decide_eq_true_eq]
  intro b hb
  exact hbyte b ((validPeerId_spec h).2 b hb)

/-- An identity is written without escapes. -/
theorem escapedLength_peerId {id : Bytes} (h : validPeerId id = true) :
    Json.escapedLength id = id.length := by
  have hbyte : ∀ b : UInt8, isPeerIdByte b = true → Json.escapedByteLength b = 1 := by
    decide +kernel
  apply Json.escapedLength_eq_length
  intro b hb
  exact hbyte b ((validPeerId_spec h).2 b hb)

end Messages

section Seal

variable {hmac : Hmac} {set : PeerCredentialSet hmac} (peer : PeerCredential hmac)
  (correlation : ByteArr ipcCorrelationBytes) (payload : Bytes) (domain : Domain)

theorem plain_envelope :
    (peer.envelope correlation payload domain).toJson.Plain ∧
      (peer.envelope correlation payload domain).toJson.depth ≤ 127 := by
  have hname : ∀ n ∈ [ascii "version", ascii "peer_id", ascii "correlation_base64url",
      ascii "payload_base64url", ascii "mac_base64url"], IsUtf8 n := by
    intro n hn
    refine isUtf8_of_isAscii ?_
    revert n
    decide
  have hencode : ∀ b, IsUtf8 (Base64.encode b) :=
    fun b => isUtf8_of_isAscii (Base64.isAscii_encode b)
  have hpeer := isUtf8_peerId peer.validId
  simp only [List.mem_cons, List.not_mem_nil, or_false, forall_eq_or_imp, forall_eq] at hname
  constructor
  · simp [PeerCredential.envelope, WireEnvelope.toJson, Json.Plain, Json.PlainMembers,
      Json.PlainMember, hname, hencode, hpeer, ipcProtocolVersion]
  · simp [PeerCredential.envelope, WireEnvelope.toJson, Json.depth, Json.depthMembers,
      Json.depthMember]

/-- The envelope has 181 bytes beside the identity and the payload. -/
theorem length_envelope :
    (peer.envelope correlation payload domain).toJson.render.length =
      181 + peer.id.length + (4 * payload.length + 2) / 3 := by
  have hpeer := escapedLength_peerId peer.validId
  have harr : ∀ x : ByteArr 32, Json.escapedLength (Base64.encode x.1) = 43 := by
    intro x
    rw [escapedLength_encode, Base64.length_encode, x.2]
  have hpayload : Json.escapedLength (Base64.encode payload) = (4 * payload.length + 2) / 3 := by
    rw [escapedLength_encode, Base64.length_encode]
  have hconst : Json.escapedLength (ascii "version") = 7 ∧
      Json.escapedLength (ascii "peer_id") = 7 ∧
      Json.escapedLength (ascii "correlation_base64url") = 21 ∧
      Json.escapedLength (ascii "payload_base64url") = 17 ∧
      Json.escapedLength (ascii "mac_base64url") = 13 := by decide
  have hversion : (decimalInt (ipcProtocolVersion : Nat)).length = 1 := by decide
  simp only [PeerCredential.envelope, WireEnvelope.toJson, Json.render, Json.renderMember,
    Json.renderMembers, List.length_cons, List.length_append, List.length_nil,
    Json.length_renderStr, harr, hpeer, hpayload, hconst, hversion]
  omega

/-- The frame of an envelope and its newline fit the reader of frames. -/
theorem length_envelope_lt {payload : Bytes} (hlen : payload.length ≤ maxVerifierPayloadBytes) :
    (peer.envelope correlation payload domain).toJson.render.length + 1 ≤ maxFrameBytes := by
  have hid := (validPeerId_spec peer.validId).1
  rw [length_envelope]
  simp only [maxFrameBytes, maxVerifierPayloadBytes] at hlen ⊢
  omega

theorem envelope_ne_nil : (peer.envelope correlation payload domain).toJson.render ≠ [] :=
  List.cons_ne_nil _ _

variable {peer correlation payload domain}

theorem decodeCanonical_encode (x : ByteArr 32) : decodeCanonical (Base64.encode x.1) = .ok x := by
  simp only [decodeCanonical, Base64.decode_encode, x.2, ne_eq, not_true_eq_false,
    if_false, dif_pos]

theorem decodePayload_encode (hne : payload ≠ [])
    (hlen : payload.length ≤ maxVerifierPayloadBytes) :
    decodePayload (Base64.encode payload) = .ok payload := by
  simp [decodePayload, Base64.decode_encode, hne, hlen]

theorem sealEnvelope_of_mem (hpeer : peer ∈ set.peers) (hne : payload ≠ [])
    (hlen : payload.length ≤ maxVerifierPayloadBytes) :
    set.sealEnvelope peer.id correlation payload domain =
      .ok (peer.envelope correlation payload domain).toJson.render := by
  have hfits : ¬ (payload.isEmpty || decide (maxVerifierPayloadBytes < payload.length)) = true := by
    simp [hne, hlen]
  rw [PeerCredentialSet.sealEnvelope, if_neg hfits, find_of_mem hpeer]
  rfl

/-- What was sealed is decoded as it was sealed. -/
theorem decode_envelope (json : JsonText) (hpeer : peer ∈ set.peers) (hne : payload ≠ [])
    (hlen : payload.length ≤ maxVerifierPayloadBytes) :
    set.decode json (peer.envelope correlation payload domain).toJson.render =
      .ok ⟨peer, correlation, payload,
        (hmac.sign peer.key (macInput domain peer.id correlation payload)).1⟩ := by
  obtain ⟨hplain, hdepth⟩ := plain_envelope peer correlation payload domain
  have hframe := length_envelope peer correlation payload domain
  have hlimit := length_envelope_lt peer correlation domain hlen
  -- a frame is far below the limit of the decoder, which is twice the one of a payload
  have hfits : ¬ ((peer.envelope correlation payload domain).toJson.render.isEmpty ||
      decide (maxVerifierPayloadBytes * 2 <
        (peer.envelope correlation payload domain).toJson.render.length)) = true := by
    simp only [Bool.or_eq_true, List.isEmpty_iff, decide_eq_true_eq, not_or]
    refine ⟨?_, ?_⟩
    · intro hnil
      rw [hnil, List.length_nil] at hframe
      omega
    · simp only [maxFrameBytes] at hlimit
      omega
  have hversion : (peer.envelope correlation payload domain).version < 2 ^ 16 := by
    simp [PeerCredential.envelope, ipcProtocolVersion]
  have hvalid : ¬ (((peer.envelope correlation payload domain).version ≠ ipcProtocolVersion) ||
      !validPeerId (peer.envelope correlation payload domain).peerId) = true := by
    simp [PeerCredential.envelope, peer.validId]
  rw [PeerCredentialSet.decode, if_neg hfits, json.parse_render _ hplain hdepth, Option.bind_some,
    ofJson_toJson hversion]
  simp only [if_neg hvalid]
  simp only [PeerCredential.envelope, decodeCanonical_encode, decodePayload_encode hne hlen,
    find_of_mem hpeer, bind, Except.bind]

/-- Opening a sealed message checks its tag for the domain. -/
theorem openEnvelope_envelope (json : JsonText) (hpeer : peer ∈ set.peers) (hne : payload ≠ [])
    (hlen : payload.length ≤ maxVerifierPayloadBytes) (other : Domain) :
    set.openEnvelope json (peer.envelope correlation payload domain).toJson.render other =
      if hmac.verify peer.key (macInput other peer.id correlation payload)
          (hmac.sign peer.key (macInput domain peer.id correlation payload)).1 then
        .ok ⟨peer.id, correlation, payload⟩
      else .error .unauthorizedPeer := by
  rw [PeerCredentialSet.openEnvelope, decode_envelope json hpeer hne hlen]
  rfl

theorem not_mem_envelope {b : UInt8} (hb : ¬ 0x20 ≤ b) :
    b ∉ (peer.envelope correlation payload domain).toJson.render := by
  intro hmem
  exact hb (Json.printable_render _ (plain_envelope peer correlation payload domain).1 b hmem)

end Seal

/-! ## The results of the service -/

/-- The results of the service: a thumbprint, or a failure with a nonce of the server. -/
inductive VerifierResult.FromService : VerifierResult → Prop where
  | verified (thumbprint : JwkThumbprint) (issuedAt : I64) (nonceEnforced replayChecked : Bool) :
      FromService (.verified verifierProtocolVersion
        ⟨thumbprint.toBase64url, issuedAt, nonceEnforced, replayChecked⟩)
  | rejected (failure : FailureClass) (nonce : Option DpopNonce) :
      FromService (.rejected verifierProtocolVersion failure (nonce.map DpopNonce.asHeaderValue))

section Results

variable {S : Signature} (crypto : Crypto) (json : JsonText)

theorem fromService_reject (failure : FailureClass) : (VerifierResult.reject failure).FromService :=
  .rejected failure none

theorem fromService_rejectProof (error : DpopError) (nonce : Option DpopNonce) :
    (VerifierApplication.rejectProof error nonce).FromService := by
  unfold VerifierApplication.rejectProof VerifierResult.rejectedWithNonce
  simp only
  split
  · exact .rejected _ nonce
  · exact .rejected _ none

theorem fromService_composeResult (request : VerifierRequest) (proof : VerifiedDpopProof) :
    (VerifierApplication.composeResult crypto request proof).FromService := by
  unfold VerifierApplication.composeResult
  split
  · exact fromService_reject _
  split
  · exact fromService_reject _
  · exact .verified _ _ _ _

theorem fromService_verifyWithNonce (app : VerifierApplication S) (request : VerifierRequest)
    (target : EffectiveRequestTarget) (nonce : Option DpopNonce) :
    Returns VerifierResult.FromService (app.verifyWithNonce crypto json request target nonce) := by
  unfold VerifierApplication.verifyWithNonce
  split
  · exact fromService_reject _
  split
  · exact fromService_reject _
  refine Returns.bind (Prog.returns_true _) ?_
  rintro (error | proof) -
  · exact fromService_rejectProof error nonce
  · exact fromService_composeResult crypto request proof

/-- Whatever the clock, the replay state and the nonce state answer. -/
theorem fromService_verify (app : VerifierApplication S) (request : VerifierRequest) :
    Returns VerifierResult.FromService (app.verify crypto json request) := by
  unfold VerifierApplication.verify
  split
  · exact fromService_reject _
  split
  · exact fromService_reject _
  split
  · exact fromService_reject _
  refine Returns.bind (Prog.returns_true _) ?_
  rintro (failure | nonce) -
  · exact fromService_reject failure
  · exact fromService_verifyWithNonce crypto json app request _ nonce

end Results

theorem length_decimalInt_le (z : I64) : (decimalInt z.toInt).length ≤ 20 := by
  have hlower := z.lower
  have hupper := z.upper
  have hlen : (decimal z.toInt.natAbs).length ≤ 19 :=
    length_numeral_le (by norm_num) (by norm_num) (by omega)
  unfold decimalInt
  split
  · rw [List.length_cons]
    omega
  · omega

/-- A nonce of 1024 control characters is the longest part of a result. -/
theorem length_result_le {result : VerifierResult} (h : result.FromService) :
    result.toJson.render ≠ [] ∧ result.toJson.render.length ≤ maxVerifierPayloadBytes := by
  have hversion : (decimalInt (verifierProtocolVersion : Nat)).length = 1 := by decide
  refine ⟨?_, ?_⟩
  · cases h <;> exact List.cons_ne_nil _ _
  -- the shape of a result is fixed, so that its length is a sum of constants and of its variable
  -- parts
  cases h with
  | verified thumbprint issuedAt nonceEnforced replayChecked =>
    have hthumbprint : Json.escapedLength thumbprint.toBase64url = 43 := by
      rw [JwkThumbprint.toBase64url, escapedLength_encode, Base64.length_encode, thumbprint.bytes.2]
    have hissued := length_decimalInt_le issuedAt
    have hbool : ∀ b : Bool, (Json.render (.bool b)).length ≤ 5 := by decide
    have hnonce := hbool nonceEnforced
    have hreplay := hbool replayChecked
    have hconst : Json.escapedLength (ascii "status") = 6 ∧
        Json.escapedLength (ascii "verified") = 8 ∧ Json.escapedLength (ascii "version") = 7 ∧
        Json.escapedLength (ascii "binding") = 7 ∧
        Json.escapedLength (ascii "key_thumbprint") = 14 ∧
        Json.escapedLength (ascii "proof_issued_at_unix") = 20 ∧
        Json.escapedLength (ascii "nonce_enforced") = 14 ∧
        Json.escapedLength (ascii "replay_checked") = 14 := by decide
    simp only [Json.render] at hnonce hreplay
    simp only [VerifierResult.toJson, VerifiedBinding.toJson, Json.render, Json.renderMember,
      Json.renderMembers, List.length_cons, List.length_append, List.length_nil,
      Json.length_renderStr, hthumbprint, hversion, hconst, maxVerifierPayloadBytes]
    omega
  | rejected failure nonce =>
    have hfailure : Json.escapedLength failure.wireName ≤ 25 := by
      cases failure <;> decide
    have hconst : Json.escapedLength (ascii "status") = 6 ∧
        Json.escapedLength (ascii "rejected") = 8 ∧ Json.escapedLength (ascii "version") = 7 ∧
        Json.escapedLength (ascii "failure") = 7 ∧
        Json.escapedLength (ascii "dpop_nonce") = 10 := by decide
    cases nonce with
    | none =>
      simp only [VerifierResult.toJson, Option.map_none, Option.toList_none, List.map_nil,
        List.append_nil, Json.render, Json.renderMember, Json.renderMembers, List.length_cons,
        List.length_append, List.length_nil, Json.length_renderStr, hversion, hconst,
        maxVerifierPayloadBytes]
      omega
    | some nonce =>
      -- every byte of the nonce may need an escape of six bytes
      have hnonce : Json.escapedLength nonce.asHeaderValue ≤ 6 * 1024 :=
        (Json.escapedLength_le _).trans (Nat.mul_le_mul_left 6 nonce.length_le)
      simp only [VerifierResult.toJson, Option.map_some, Option.toList_some, List.map_cons,
        List.map_nil, List.cons_append, List.nil_append, Json.render, Json.renderMember,
        Json.renderMembers, List.length_cons, List.length_append, List.length_nil,
        Json.length_renderStr, hversion, hconst, maxVerifierPayloadBytes]
      omega

/-! ## Connections -/

section Connections

variable {hmac : Hmac} (crypto : Crypto) (json : JsonText)

namespace Configuration

/-- The service answers an opened request, which it may fail to decode. -/
def Answers (c : Configuration hmac) (authenticated : AuthenticatedIpcRequest)
    (result : VerifierResult) (state' : c.σ) : Prop :=
  match (json.parse authenticated.payload).bind VerifierRequest.ofJson with
  | none => result = .reject .malformedRequest ∧ state' = c.state
  | some request => Outcome c.handler (c.app.verify crypto json request) c.state result state'

variable {crypto json} {c : Configuration hmac} {authenticated : AuthenticatedIpcRequest}
  {result : VerifierResult} {state' : c.σ}

theorem Answers.fromService (h : c.Answers crypto json authenticated result state') :
    result.FromService := by
  unfold Answers at h
  split at h
  · rw [h.1]
    exact fromService_reject _
  · exact (fromService_verify crypto json c.app _).outcome h

/-- What is opened names a peer of the set. -/
theorem peer_of_openRequest {set : PeerCredentialSet hmac} {frame : Bytes}
    (h : set.openRequest json frame = .ok authenticated) :
    ∃ peer ∈ set.peers, authenticated.peerId = peer.id := by
  obtain ⟨d, hdecode, -, rfl⟩ := openEnvelope_eq_ok json h
  exact ⟨d.peer, decode_peer_mem json hdecode, rfl⟩

/-- The response of the service is sealed and written. -/
theorem respond_eq {peer : PeerCredential hmac} (hpeer : peer ∈ c.peers.peers)
    (hid : authenticated.peerId = peer.id) (hresult : result.FromService) :
    respond c.peers authenticated result = writeFrame
      (peer.envelope authenticated.correlation result.toJson.render .response).toJson.render := by
  obtain ⟨hne, hlen⟩ := length_result_le hresult
  rw [respond, PeerCredentialSet.sealResponse, hid, sealEnvelope_of_mem hpeer hne hlen]

theorem length_response_le (authenticated : AuthenticatedIpcRequest) (peer : PeerCredential hmac)
    (hresult : result.FromService) :
    (peer.envelope authenticated.correlation result.toJson.render .response).toJson.render.length ≤
      maxFrameBytes :=
  Nat.le_of_succ_le (length_envelope_lt _ _ _ (length_result_le hresult).2)

/-- Every stream that does not fail accepts the response. -/
theorem outcome_respond {peer : PeerCredential hmac} {t t' : StreamState}
    {r : Except Unit Unit} (hpeer : peer ∈ c.peers.peers)
    (hid : authenticated.peerId = peer.id) (hresult : result.FromService)
    (h : Outcome deliver (respond c.peers authenticated result) t r t') :
    r = .ok () ∧ t' = ⟨t.incoming, t.written ++
      (peer.envelope authenticated.correlation result.toJson.render .response).toJson.render ++
      [byte '\n']⟩ := by
  rw [respond_eq hpeer hid hresult] at h
  exact outcome_writeFrame (envelope_ne_nil _ _ _ _)
    (length_response_le authenticated peer hresult) h

/-- A payload that is no request is answered. -/
theorem exists_connection {frame : Bytes} {t t₀ : StreamState}
    (hopen : c.peers.openRequest json frame = .ok authenticated)
    (hpayload : (json.parse authenticated.payload).bind VerifierRequest.ofJson = none)
    (hread : Outcome deliver readFrame t (.ok frame) t₀) :
    ∃ t', Outcome (sumHandler c.handler deliver) (handleConnection crypto json c.peers c.app)
      (c.state, t) (.ok ()) (c.state, t') := by
  obtain ⟨peer, hpeer, hid⟩ := peer_of_openRequest hopen
  have hresult := fromService_reject .malformedRequest
  obtain ⟨t', hwrite⟩ : ∃ t', Outcome deliver (writeFrame (peer.envelope authenticated.correlation
      (VerifierResult.reject .malformedRequest).toJson.render .response).toJson.render)
      t₀ (.ok ()) t' :=
    ⟨_, exists_writeFrame mayAccept_deliver (envelope_ne_nil _ _ _ _)
      (length_response_le authenticated peer hresult) t₀⟩
  rw [← respond_eq hpeer hid hresult] at hwrite
  have hanswer : answerFrame crypto json c.peers c.app frame =
      (respond c.peers authenticated (.reject .malformedRequest)).inr := by
    simp only [answerFrame, hopen, hpayload]
  refine ⟨t', outcome_bind.2 ⟨.ok frame, (c.state, t₀), outcome_inr.2 ⟨rfl, hread⟩, ?_⟩⟩
  simp only [hanswer]
  exact outcome_inr.2 ⟨rfl, hwrite⟩

/-- An opened request is answered with the sealed result of the service. -/
theorem outcome_answerFrame {frame : Bytes} {t t' : StreamState} {r : Except Unit Unit}
    {peer : PeerCredential hmac} (hpeer : peer ∈ c.peers.peers)
    (hid : authenticated.peerId = peer.id)
    (hopen : c.peers.openRequest json frame = .ok authenticated)
    (h : Outcome (sumHandler c.handler deliver) (answerFrame crypto json c.peers c.app frame)
      (c.state, t) r (state', t')) :
    ∃ result, c.Answers crypto json authenticated result state' ∧ r = .ok () ∧
      t' = ⟨t.incoming, t.written ++
        (peer.envelope authenticated.correlation result.toJson.render .response).toJson.render ++
        [byte '\n']⟩ := by
  unfold answerFrame at h
  simp only [hopen] at h
  cases hrequest : (json.parse authenticated.payload).bind VerifierRequest.ofJson with
  -- a payload that is no request is answered without the service
  | none =>
    simp only [hrequest] at h
    obtain ⟨hstate, h⟩ := outcome_inr.1 h
    have hanswer : c.Answers crypto json authenticated (.reject .malformedRequest) state' := by
      unfold Answers
      rw [hrequest]
      exact ⟨rfl, hstate⟩
    exact ⟨_, hanswer, outcome_respond hpeer hid (fromService_reject _) h⟩
  | some request =>
    simp only [hrequest] at h
    obtain ⟨result, ⟨state₁, t₁⟩, hservice, hwrite⟩ := outcome_bind.1 h
    obtain ⟨rfl, hverify⟩ := outcome_inl.1 hservice
    obtain ⟨rfl, hrespond⟩ := outcome_inr.1 hwrite
    have hanswer : c.Answers crypto json authenticated result state' := by
      unfold Answers
      rw [hrequest]
      exact hverify
    exact ⟨result, hanswer, outcome_respond hpeer hid hanswer.fromService hrespond⟩

end Configuration

/-- **What is sealed is opened, and no response is lost to a size.** For every peer of a set and
every payload within the limit, a sealed message is opened as it was sealed, and not under the other
domain; its frame has no line break, is accepted by the writer and is read back. Every result of the
service fits a payload. And a connection that received a request which it opens writes the sealed
result of the service for it, on every stream that does not fail. -/
theorem envelope_roundTrip (hcorrect : hmac.Correct) :
    (∀ (set : PeerCredentialSet hmac), ∀ peer ∈ set.peers,
        ∀ (correlation : ByteArr ipcCorrelationBytes) (payload : Bytes) (domain : Domain),
        1 ≤ payload.length → payload.length ≤ maxVerifierPayloadBytes →
      ∃ frame, set.sealEnvelope peer.id correlation payload domain = .ok frame ∧
        set.openEnvelope json frame domain = .ok ⟨peer.id, correlation, payload⟩ ∧
        (hmac.IdealTag peer.key (macInput domain peer.id correlation payload) →
          ∀ other, other ≠ domain → set.openEnvelope json frame other = .error .unauthorizedPeer) ∧
        byte '\n' ∉ frame ∧ byte '\r' ∉ frame ∧ frame.length + 1 ≤ maxFrameBytes ∧
        (∀ t r t', Outcome deliver (writeFrame frame) t r t' →
          r = .ok () ∧ t'.written = t.written ++ frame ++ [byte '\n']) ∧
        ∀ written r t', Outcome deliver readFrame ⟨frame ++ [byte '\n'], written⟩ r t' →
          r = .ok frame) ∧
    (∀ (S : Signature) (app : VerifierApplication S) (request : VerifierRequest),
      Returns (fun result => 1 ≤ result.toJson.render.length ∧
        result.toJson.render.length ≤ maxVerifierPayloadBytes) (app.verify crypto json request)) ∧
    ∀ (c : Configuration hmac) (t t' : StreamState) (r : Except Unit Unit) (state' : c.σ),
      Outcome (sumHandler c.handler deliver) (handleConnection crypto json c.peers c.app)
        (c.state, t) r (state', t') →
      ∃ received t₀, Outcome deliver readFrame t received t₀ ∧
        ∀ frame authenticated, received = .ok frame →
          c.peers.openRequest json frame = .ok authenticated →
          ∃ result sealed, c.Answers crypto json authenticated result state' ∧
            c.peers.sealResponse authenticated result.toJson.render = .ok sealed ∧
            c.peers.openEnvelope json sealed .response =
              .ok ⟨authenticated.peerId, authenticated.correlation, result.toJson.render⟩ ∧
            r = .ok () ∧ t'.written = t.written ++ sealed ++ [byte '\n'] := by
  refine ⟨?_, ?_, ?_⟩
  · intro set peer hpeer correlation payload domain hpos hlen
    have hne : payload ≠ [] := List.length_pos_iff.1 hpos
    have hfits := length_envelope_lt peer correlation domain hlen
    have hnewline : byte '\n' ∉ (peer.envelope correlation payload domain).toJson.render :=
      not_mem_envelope (by decide)
    have hreturn : byte '\r' ∉ (peer.envelope correlation payload domain).toJson.render :=
      not_mem_envelope (by decide)
    refine ⟨_, sealEnvelope_of_mem hpeer hne hlen, ?_, ?_, hnewline, hreturn, hfits, ?_, ?_⟩
    · rw [openEnvelope_envelope json hpeer hne hlen, if_pos (hcorrect _ _)]
    · intro hideal other hother
      rw [openEnvelope_envelope json hpeer hne hlen, if_neg]
      intro haccepted
      -- the tag would authenticate a text of the other domain
      exact hother (macInput_injective peer.validId peer.validId (hideal _ haccepted)).1
    · intro t r t' h
      obtain ⟨hr, rfl⟩ := outcome_writeFrame (envelope_ne_nil _ _ _ _) (Nat.le_of_succ_le hfits) h
      exact ⟨hr, rfl⟩
    · intro written r t' h
      exact outcome_readFrame_of_frame (envelope_ne_nil _ _ _ _) hfits hnewline hreturn h
  · intro S app request
    refine (fromService_verify crypto json app request).mono ?_
    intro result hresult
    obtain ⟨hne, hlen⟩ := length_result_le hresult
    exact ⟨List.length_pos_iff.2 hne, hlen⟩
  · intro c t t' r state' h
    obtain ⟨received, ⟨state₀, t₀⟩, hread, h⟩ := outcome_bind.1 h
    obtain ⟨hstate, hread⟩ := outcome_inr.1 hread
    refine ⟨received, t₀, hread, ?_⟩
    rintro frame authenticated rfl hopen
    obtain ⟨peer, hpeer, hid⟩ := Configuration.peer_of_openRequest hopen
    simp only at hstate h
    subst hstate
    obtain ⟨result, hanswer, hr, rfl⟩ :=
      Configuration.outcome_answerFrame hpeer hid hopen h
    obtain ⟨hne, hlen⟩ := length_result_le hanswer.fromService
    have hwritten := written_readLoop (hread.mono streamHandler_of_deliver)
    refine ⟨result, _, hanswer, ?_, ?_, hr, by rw [hwritten]⟩
    · rw [PeerCredentialSet.sealResponse, hid]
      exact sealEnvelope_of_mem hpeer hne hlen
    · rw [openEnvelope_envelope json hpeer hne hlen, if_pos (hcorrect _ _), hid]

end Connections

/-! ## One message -/

def messageInput : Bytes := macInput .request operator.id exchangeCorrelation (ascii "query")

theorem correct_operatorHmac : operatorHmac.Correct := fun _ _ => decide_eq_true rfl

/-- No other text has the tag of this one. -/
theorem idealTag_operatorHmac : operatorHmac.IdealTag operator.key messageInput := by
  have hfirst : ∀ entry ∈ operatorTags, entry.2 = operatorTag messageInput →
      entry.1 = (.request, ascii "query") := by
    decide +kernel
  have hother : (operatorTag messageInput).1 ≠ List.replicate 32 0 := by
    decide +kernel
  intro input haccepted
  have htag : operatorTag messageInput = operatorTag input :=
    Subtype.ext (of_decide_eq_true haccepted)
  generalize operatorTag messageInput = tag at *
  rw [operatorTag] at htag
  cases hlookup : (operatorTags.map fun entry => (macInput entry.1.1 (ascii "operator")
      exchangeCorrelation entry.1.2, entry.2)).lookup input with
  | none =>
    rw [hlookup] at htag
    exact absurd (congrArg Subtype.val htag) hother
  | some found =>
    rw [hlookup] at htag
    -- the text was found in the table, next to the tag of the first message
    obtain ⟨before, after, hsplit, -⟩ := List.lookup_eq_some_iff.1 hlookup
    have hmem := hsplit ▸ List.mem_append_right before List.mem_cons_self
    obtain ⟨entry, hentry, heq⟩ := List.mem_map.1 hmem
    obtain ⟨hinput, hfound⟩ := Prod.mk.inj heq
    rw [← hinput, hfirst entry hentry (hfound.trans htag.symm)]
    rfl

/-- A request of a peer is opened as a request and not as a response; a connection that reads it
answers with a response that the peer opens. -/
theorem envelope_roundTrip_message :
    ∃ frame, operators.sealEnvelope operator.id exchangeCorrelation (ascii "query") .request =
        .ok frame ∧
      operators.openEnvelope compactText frame .request =
        .ok ⟨operator.id, exchangeCorrelation, ascii "query"⟩ ∧
      operators.openEnvelope compactText frame .response = .error .unauthorizedPeer ∧
      ∃ t', Outcome (sumHandler (closedConfiguration operators).handler deliver)
          (handleConnection permissiveCrypto compactText operators closedApplication)
          ((), ⟨frame ++ [byte '\n'], []⟩) (.ok ()) ((), t') ∧
        ∃ sealed opened, t'.written = sealed ++ [byte '\n'] ∧
          operators.openEnvelope compactText sealed .response = .ok opened := by
  obtain ⟨hseal, -, hconnection⟩ := envelope_roundTrip permissiveCrypto compactText
    correct_operatorHmac
  obtain ⟨frame, hframe, hopen, hother, -, -, -, -, hread⟩ := hseal operators operator
    (List.mem_singleton_self _) exchangeCorrelation (ascii "query") .request (by decide) (by decide)
  refine ⟨frame, hframe, hopen, hother idealTag_operatorHmac .response (by decide), ?_⟩
  obtain ⟨received, t₀, hreceived⟩ := exists_delivery [] ⟨frame ++ [byte '\n'], []⟩
  have hframe' := hread _ _ _ hreceived
  subst hframe'
  have hpayload : (compactText.parse (ascii "query")).bind VerifierRequest.ofJson = none := rfl
  obtain ⟨t', hrun⟩ := Configuration.exists_connection (c := closedConfiguration operators) hopen
    hpayload hreceived
  obtain ⟨received, t₁, hreceived, hanswer⟩ :=
    hconnection (closedConfiguration operators) _ _ _ _ hrun
  obtain ⟨result, sealed, -, -, hopened, -, hwritten⟩ :=
    hanswer frame _ (hread _ _ _ hreceived) hopen
  exact ⟨t', hrun, sealed, _, hwritten, hopened⟩

end Keylix.Verifier

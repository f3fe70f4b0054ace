import Keylix.Dpop.Agreement
import Keylix.Verifier.Application
import Keylix.Verifier.IpcSession

/-!
# Connections of the reference host

One connection of the local transport: a frame is read up to a newline, opened, decoded, answered
and sealed. The stream is an operation of the environment. It may return any part of what it has,
accept any part of what it is given, or fail; a deadline that has passed is one of its failures.

`unauthenticated_inert`: a frame that is not opened is answered with one constant text, whatever the
peers and whatever the state of the service, which the connection does not touch. The service is
asked only for a request whose tag was accepted for exactly its payload.
-/

set_option autoImplicit false

namespace Keylix.Verifier

open Keylix.Lib Keylix.Core Keylix.Dpop Keylix.OAuth
open Keylix.Lib.Prog (Handler Outcome outcome_bind outcome_inr sumHandler)

/-! ## Requests and results as text -/

def verifierRequestFields : List Json.Field :=
  [⟨ascii "version", .required⟩, ⟨ascii "method", .required⟩, ⟨ascii "target", .required⟩,
    ⟨ascii "access_token", .required⟩, ⟨ascii "dpop_proof", .required⟩,
    ⟨ascii "confirmation_jkt", .optional⟩]

def VerifierRequest.ofJson (j : Json) : Option VerifierRequest :=
  match Json.recordFields true verifierRequestFields j with
  | some [some version, some method, some target, some accessToken, some dpopProof, jkt] => do
      let version ← version.asU16
      let method ← method.asString
      let target ← target.asString
      let accessToken ← accessToken.asString
      let dpopProof ← dpopProof.asString
      let jkt ← Json.asOptionalString jkt
      some ⟨version, method, target, accessToken, dpopProof, jkt⟩
  | _ => none

/-- The name of a failure class on the wire. -/
def FailureClass.wireName : FailureClass → Bytes
  | .unsupportedVersion => ascii "unsupported_version"
  | .malformedRequest => ascii "malformed_request"
  | .invalidProof => ascii "invalid_proof"
  | .methodMismatch => ascii "method_mismatch"
  | .targetMismatch => ascii "target_mismatch"
  | .staleProof => ascii "stale_proof"
  | .futureProof => ascii "future_proof"
  | .nonceRequired => ascii "nonce_required"
  | .nonceMismatch => ascii "nonce_mismatch"
  | .nonceStateUnavailable => ascii "nonce_state_unavailable"
  | .replay => ascii "replay"
  | .replayStoreUnavailable => ascii "replay_store_unavailable"
  | .tokenHashMismatch => ascii "token_hash_mismatch"
  | .tokenBindingMissing => ascii "token_binding_missing"
  | .tokenBindingMalformed => ascii "token_binding_malformed"
  | .confirmationKeyMismatch => ascii "confirmation_key_mismatch"
  | .tokenIdentityMismatch => ascii "token_identity_mismatch"
  | .clockUnavailable => ascii "clock_unavailable"
  | .internalFailure => ascii "internal_failure"

def VerifiedBinding.toJson (binding : VerifiedBinding) : Json :=
  .obj [(ascii "key_thumbprint", .str binding.keyThumbprint),
    (ascii "proof_issued_at_unix", .int binding.proofIssuedAtUnix.toInt),
    (ascii "nonce_enforced", .bool binding.nonceEnforced),
    (ascii "replay_checked", .bool binding.replayChecked)]

/-- A result with the tag of its variant; a nonce is written only if there is one. -/
def VerifierResult.toJson : VerifierResult → Json
  | .verified version binding =>
      .obj [(ascii "status", .str (ascii "verified")), (ascii "version", .int version),
        (ascii "binding", binding.toJson)]
  | .rejected version failure dpopNonce =>
      .obj ([(ascii "status", .str (ascii "rejected")), (ascii "version", .int version),
        (ascii "failure", .str failure.wireName)] ++
        dpopNonce.toList.map fun nonce => (ascii "dpop_nonce", .str nonce))

/-! ## Streams -/

def maxFrameBytes : Nat := maxVerifierPayloadBytes * 2

def readChunkBytes : Nat := 4096

inductive StreamOp where
  | read (limit : Nat)
  | write (bytes : Bytes)
  | flush

def streamOps : Signature where
  Op := StreamOp
  Res
    | .read limit => Except Unit {chunk : Bytes // chunk.length ≤ limit}
    | .write bytes => Except Unit {n : Nat // n ≤ bytes.length}
    | .flush => Except Unit Unit

/-- What a complete line gives: the newline ends the chunk, and a carriage return before it is
dropped. -/
def completeFrame (frame chunk : Bytes) : Except Unit Bytes :=
  let newline := chunk.idxOf (byte '\n')
  if newline + 1 ≠ chunk.length then .error ()
  else
    let frame := frame ++ chunk.take newline
    let frame := if frame.getLast? = some (byte '\r') then frame.dropLast else frame
    if frame.isEmpty then .error () else .ok frame

/-- The chunks up to a newline, within the budget of a frame. -/
def readLoop (frame : Bytes) : Prog streamOps (Except Unit Bytes) :=
  if _hbudget : maxFrameBytes ≤ frame.length then .ret (.error ())
  else
    .call (S := streamOps) (.read (min readChunkBytes (maxFrameBytes - frame.length))) fun
      | .error _ => .ret (.error ())
      | .ok chunk =>
          if _hread : chunk.1.length = 0 then .ret (.error ())
          else if chunk.1.contains (byte '\n') then .ret (completeFrame frame chunk.1)
          else readLoop (frame ++ chunk.1)
termination_by maxFrameBytes - frame.length
decreasing_by
  rw [List.length_append]
  omega

def readFrame : Prog streamOps (Except Unit Bytes) := readLoop []

def writeBeforeDeadline (bytes : Bytes) : Prog streamOps (Except Unit Unit) :=
  if _hempty : bytes = [] then .ret (.ok ())
  else
    .call (S := streamOps) (.write bytes) fun
      | .error _ => .ret (.error ())
      | .ok written =>
          if _hwritten : written.1 = 0 then .ret (.error ())
          else writeBeforeDeadline (bytes.drop written.1)
termination_by bytes.length
decreasing_by
  rw [List.length_drop]
  have := List.length_pos_iff.2 _hempty
  omega

def writeFrame (frame : Bytes) : Prog streamOps (Except Unit Unit) :=
  if frame.isEmpty || maxFrameBytes < frame.length then .ret (.error ())
  else do
    match ← writeBeforeDeadline frame with
    | .error e => pure (.error e)
    | .ok () =>
        match ← writeBeforeDeadline [byte '\n'] with
        | .error e => pure (.error e)
        | .ok () => Prog.perform (S := streamOps) .flush

def writeUnsealedRejection (failure : FailureClass) : Prog streamOps (Except Unit Unit) :=
  writeFrame (VerifierResult.reject failure).toJson.render

/-! ## The connection -/

section Connection

variable {S : Signature} {hmac : Hmac} (crypto : Crypto) (json : JsonText)

/-- The sealed response of an opened request. -/
def respond (peers : PeerCredentialSet hmac) (authenticated : AuthenticatedIpcRequest)
    (result : VerifierResult) : Prog streamOps (Except Unit Unit) :=
  match peers.sealResponse authenticated result.toJson.render with
  | .error _ => .ret (.error ())
  | .ok sealed => writeFrame sealed

/-- The answer to a frame. The request inside is decoded after the frame was opened. -/
def answerFrame (peers : PeerCredentialSet hmac) (app : VerifierApplication S) (frame : Bytes) :
    Prog (S.sum streamOps) (Except Unit Unit) :=
  match peers.openRequest json frame with
  | .error .unauthorizedPeer | .error .malformedEnvelope =>
      (writeUnsealedRejection .malformedRequest).inr
  | .error _ => (writeUnsealedRejection .internalFailure).inr
  | .ok authenticated =>
      match (json.parse authenticated.payload).bind VerifierRequest.ofJson with
      | none => (respond peers authenticated (.reject .malformedRequest)).inr
      | some request => do
          let result ← (app.verify crypto json request).inl
          (respond peers authenticated result).inr

def handleConnection (peers : PeerCredentialSet hmac) (app : VerifierApplication S) :
    Prog (S.sum streamOps) (Except Unit Unit) := do
  match ← readFrame.inr with
  | .error e => pure (.error e)
  | .ok frame => answerFrame crypto json peers app frame

/-! ## Frames that are not opened -/

variable {crypto json}

theorem decodeCanonical_error {encoded : Bytes} {e : IpcFailure}
    (h : decodeCanonical encoded = .error e) : e = .malformedEnvelope := by
  unfold decodeCanonical at h
  split at h
  · cases h
    rfl
  split at h
  · split at h <;> cases h
    rfl
  · cases h
    rfl

theorem decodePayload_error {encoded : Bytes} {e : IpcFailure}
    (h : decodePayload encoded = .error e) : e = .malformedEnvelope := by
  unfold decodePayload at h
  split at h
  · cases h
    rfl
  · split at h <;> cases h
    rfl

/-- A frame is refused as malformed or as of an unauthorized peer. -/
theorem openRequest_error {peers : PeerCredentialSet hmac} {frame : Bytes} {e : IpcFailure}
    (h : peers.openRequest json frame = .error e) : e = .unauthorizedPeer ∨
      e = .malformedEnvelope := by
  unfold PeerCredentialSet.openRequest PeerCredentialSet.openEnvelope at h
  rcases bind_eq_error_iff.1 h with h | ⟨d, -, h⟩
  · unfold PeerCredentialSet.decode at h
    split at h
    · cases h
      exact Or.inr rfl
    split at h
    · cases h
      exact Or.inr rfl
    split at h
    · cases h
      exact Or.inr rfl
    rcases bind_eq_error_iff.1 h with h | ⟨_, -, h⟩
    · exact Or.inr (decodeCanonical_error h)
    rcases bind_eq_error_iff.1 h with h | ⟨_, -, h⟩
    · exact Or.inr (decodePayload_error h)
    rcases bind_eq_error_iff.1 h with h | ⟨_, -, h⟩
    · exact Or.inr (decodeCanonical_error h)
    -- an unknown peer, or a code that does not match
    split at h <;> cases h
    exact Or.inl rfl
  · split at h <;> cases h
    exact Or.inl rfl

/-- The text that answers every frame that is not opened. -/
def unsealedRejection : Bytes := (VerifierResult.reject .malformedRequest).toJson.render

example : unsealedRejection =
    ascii "\x7b\"status\":\"rejected\",\"version\":1,\"failure\":\"malformed_request\"\x7d" := by
  decide +kernel

theorem unsealedRejection_ne_nil : unsealedRejection ≠ [] := by decide

theorem length_unsealedRejection_le : unsealedRejection.length ≤ maxFrameBytes := by
  decide

theorem answerFrame_of_error {peers : PeerCredentialSet hmac} {app : VerifierApplication S}
    {frame : Bytes} {e : IpcFailure} (h : peers.openRequest json frame = .error e) :
    answerFrame crypto json peers app frame = (writeFrame unsealedRejection).inr := by
  unfold answerFrame
  rw [h]
  rcases openRequest_error h with rfl | rfl
  · rfl
  · rfl

/-! ## Runs over a stream -/

/-- The bytes that have arrived or will arrive, and the bytes that were accepted. -/
structure StreamState where
  incoming : Bytes
  written : Bytes

/-- One operation of a stream. -/
def streamHandler : Handler streamOps StreamState
  | .read _, t, x, t' => (x = .error () ∧ t' = t) ∨
      ∃ chunk, x = .ok chunk ∧ t.incoming = chunk.1 ++ t'.incoming ∧ t'.written = t.written
  | .write bytes, t, x, t' => (x = .error () ∧ t' = t) ∨
      ∃ n, x = .ok n ∧ t' = ⟨t.incoming, t.written ++ bytes.take n.1⟩
  | .flush, t, _, t' => t' = t

/-- Reading writes nothing. -/
theorem written_readLoop {frame : Bytes} {t t' : StreamState} {r : Except Unit Bytes}
    (h : Outcome streamHandler (readLoop frame) t r t') : t'.written = t.written := by
  induction frame using readLoop.induct generalizing t with
  | case1 frame hbudget =>
    rw [readLoop, dif_pos hbudget] at h
    rw [h.2]
  | case2 frame hbudget ih =>
    rw [readLoop, dif_neg hbudget] at h
    obtain ⟨x, t₁, hread, h⟩ := h
    rcases hread with ⟨rfl, rfl⟩ | ⟨chunk, rfl, -, hwritten⟩
    · rw [h.2]
    rw [← hwritten]
    simp only at h
    split at h
    · rw [h.2]
    next hlen =>
    split at h
    · rw [h.2]
    · exact ih chunk hlen h

/-- A text that was written without a failure was written as a whole. -/
theorem written_writeBeforeDeadline {bytes : Bytes} {t t' : StreamState} {r : Except Unit Unit}
    (h : Outcome streamHandler (writeBeforeDeadline bytes) t r t') (hr : r = .ok ()) :
    t'.written = t.written ++ bytes := by
  induction bytes using writeBeforeDeadline.induct generalizing t with
  | case1 =>
    rw [writeBeforeDeadline, dif_pos rfl] at h
    rw [h.2, List.append_nil]
  | case2 bytes hempty ih =>
    rw [writeBeforeDeadline, dif_neg hempty] at h
    obtain ⟨x, t₁, hwrite, h⟩ := h
    rcases hwrite with ⟨rfl, rfl⟩ | ⟨n, rfl, rfl⟩
    · rw [hr] at h
      cases h.1
    simp only at h
    split at h
    · rw [hr] at h
      cases h.1
    next hn =>
    rw [ih n hn h, List.append_assoc, List.take_append_drop]

/-- A stream may accept a text at once. -/
structure MayAccept (H : Handler streamOps StreamState) : Prop where
  write : ∀ bytes t,
    H (.write bytes) t (.ok ⟨bytes.length, le_rfl⟩) ⟨t.incoming, t.written ++ bytes⟩
  flush : ∀ t, H .flush t (.ok ()) t

theorem mayAccept_streamHandler : MayAccept streamHandler where
  write bytes t := Or.inr ⟨⟨bytes.length, le_rfl⟩, rfl, by rw [List.take_length]⟩
  flush t := rfl

theorem exists_writeBeforeDeadline {H : Handler streamOps StreamState} (hH : MayAccept H)
    (bytes : Bytes) (t : StreamState) :
    Outcome H (writeBeforeDeadline bytes) t (.ok ()) ⟨t.incoming, t.written ++ bytes⟩ := by
  by_cases hempty : bytes = []
  · subst hempty
    rw [writeBeforeDeadline, dif_pos rfl, List.append_nil]
    exact ⟨rfl, rfl⟩
  · rw [writeBeforeDeadline, dif_neg hempty]
    refine ⟨.ok ⟨bytes.length, le_rfl⟩, ⟨t.incoming, t.written ++ bytes⟩, hH.write bytes t, ?_⟩
    have hlen : bytes.length ≠ 0 := fun h => hempty (List.length_eq_zero_iff.1 h)
    simp only [dif_neg hlen, List.drop_length]
    rw [writeBeforeDeadline, dif_pos rfl]
    exact ⟨rfl, rfl⟩

/-- A frame that was written without a failure is followed by a newline. -/
theorem written_writeFrame {frame : Bytes} {t t' : StreamState}
    (h : Outcome streamHandler (writeFrame frame) t (.ok ()) t') :
    t'.written = t.written ++ frame ++ [byte '\n'] := by
  unfold writeFrame at h
  split at h
  · cases h.1
  obtain ⟨r₁, t₁, h₁, h⟩ := outcome_bind.1 h
  cases r₁ with
  | error e => cases h.1
  | ok u =>
    obtain ⟨r₂, t₂, h₂, h⟩ := outcome_bind.1 h
    cases r₂ with
    | error e => cases h.1
    | ok u =>
      obtain ⟨x, t₃, hflush, -, rfl⟩ := h
      have hflush' : t' = t₂ := hflush
      rw [hflush', written_writeBeforeDeadline h₂ rfl, written_writeBeforeDeadline h₁ rfl]

theorem exists_writeFrame {H : Handler streamOps StreamState} (hH : MayAccept H) {frame : Bytes}
    (hne : frame ≠ []) (hlen : frame.length ≤ maxFrameBytes) (t : StreamState) :
    Outcome H (writeFrame frame) t (.ok ()) ⟨t.incoming, t.written ++ frame ++ [byte '\n']⟩ := by
  have hfits : ¬ (frame.isEmpty || decide (maxFrameBytes < frame.length)) = true := by
    simp [hne, hlen]
  rw [writeFrame, if_neg hfits]
  refine outcome_bind.2 ⟨.ok (), _, exists_writeBeforeDeadline hH frame t, ?_⟩
  refine outcome_bind.2 ⟨.ok (), _, exists_writeBeforeDeadline hH [byte '\n'] _, ?_⟩
  exact ⟨.ok (), _, hH.flush _, rfl, rfl⟩

/-! ## Configurations -/

/-- A verifier: its peers, and its service over any clock, replay state and nonce state. -/
structure Configuration (hmac : Hmac) where
  S : Signature
  σ : Type
  peers : PeerCredentialSet hmac
  app : VerifierApplication S
  handler : Handler S σ
  state : σ

namespace Configuration

variable (crypto json)

/-- A run of the connection that received a frame, or none. -/
def Connects (c : Configuration hmac) (t : StreamState) (received : Except Unit Bytes)
    (r : Except Unit Unit) (state' : c.σ) (t' : StreamState) : Prop :=
  ∃ t₀, Outcome streamHandler readFrame t received t₀ ∧
    match received with
    | .error e => r = .error e ∧ state' = c.state ∧ t' = t₀
    | .ok frame => Outcome (sumHandler c.handler streamHandler)
        (answerFrame crypto json c.peers c.app frame) (c.state, t₀) r (state', t')

/-- The request was decoded from a payload that carries the tag of an allowlisted peer, over the
identity of the peer, the correlation of the frame and the payload. -/
def Authenticated (c : Configuration hmac) (frame : Bytes) (request : VerifierRequest) : Prop :=
  ∃ d, c.peers.decode json frame = .ok d ∧ d.peer ∈ c.peers.peers ∧
    hmac.verify d.peer.key (macInput .request d.peer.id d.correlation d.payload) d.mac = true ∧
    (json.parse d.payload).bind VerifierRequest.ofJson = some request

variable {crypto json}

/-- Every run of the connection receives a frame or none. -/
theorem outcome_handleConnection_iff {c : Configuration hmac} {t t' : StreamState}
    {r : Except Unit Unit} {state' : c.σ} :
    Outcome (sumHandler c.handler streamHandler) (handleConnection crypto json c.peers c.app)
        (c.state, t) r (state', t') ↔
      ∃ received, c.Connects crypto json t received r state' t' := by
  unfold handleConnection Connects
  rw [outcome_bind]
  constructor
  · rintro ⟨received, ⟨state₀, t₀⟩, hread, h⟩
    obtain ⟨hstate, hread⟩ := outcome_inr.1 hread
    cases hstate
    refine ⟨received, t₀, hread, ?_⟩
    cases received with
    | error e =>
      obtain ⟨rfl, hs⟩ := h
      cases hs
      exact ⟨rfl, rfl, rfl⟩
    | ok frame => exact h
  · rintro ⟨received, t₀, hread, h⟩
    refine ⟨received, (c.state, t₀), outcome_inr.2 ⟨rfl, hread⟩, ?_⟩
    cases received with
    | error e =>
      obtain ⟨rfl, rfl, rfl⟩ := h
      exact ⟨rfl, rfl⟩
    | ok frame => exact h

/-- A frame that is not opened is answered with the constant text, and with nothing else. -/
theorem connects_of_error_iff {c : Configuration hmac} {frame : Bytes} {e : IpcFailure}
    (h : c.peers.openRequest json frame = .error e) {t t' : StreamState} {r : Except Unit Unit}
    {state' : c.σ} :
    c.Connects crypto json t (.ok frame) r state' t' ↔
      state' = c.state ∧ ∃ t₀, Outcome streamHandler readFrame t (.ok frame) t₀ ∧
        Outcome streamHandler (writeFrame unsealedRejection) t₀ r t' := by
  unfold Connects
  simp only [answerFrame_of_error h, outcome_inr]
  constructor
  · rintro ⟨t₀, hread, hstate, hwrite⟩
    exact ⟨hstate, t₀, hread, hwrite⟩
  · rintro ⟨hstate, t₀, hread, hwrite⟩
    exact ⟨t₀, hread, hstate, hwrite⟩

/-- The service is asked only for an authenticated request. -/
theorem answerFrame_cases (c : Configuration hmac) (frame : Bytes) :
    (∃ p : Prog streamOps (Except Unit Unit),
      answerFrame crypto json c.peers c.app frame = p.inr) ∨
    ∃ request, c.Authenticated json frame request ∧
      ∃ answer : VerifierResult → Prog streamOps (Except Unit Unit),
        answerFrame crypto json c.peers c.app frame =
          (c.app.verify crypto json request).inl >>= fun result => (answer result).inr := by
  cases hopen : c.peers.openRequest json frame with
  | error e => exact Or.inl ⟨_, answerFrame_of_error hopen⟩
  | ok authenticated =>
    unfold answerFrame
    rw [hopen]
    simp only
    cases hrequest : (json.parse authenticated.payload).bind VerifierRequest.ofJson with
    | none => exact Or.inl ⟨_, rfl⟩
    | some request =>
      obtain ⟨d, hdecode, hmac, rfl⟩ := openEnvelope_eq_ok json hopen
      exact Or.inr ⟨request, ⟨d, hdecode, decode_peer_mem json hdecode, hmac, hrequest⟩, _, rfl⟩

/-- **Frames that are not opened are inert and indistinguishable.** Two verifiers that both refuse a
frame answer it alike, with the constant text, and keep their state; and a verifier asks its service
only for an authenticated request. -/
theorem unauthenticated_inert (c c' : Configuration hmac) (frame : Bytes) {e e' : IpcFailure}
    (h : c.peers.openRequest json frame = .error e)
    (h' : c'.peers.openRequest json frame = .error e') :
    (∀ t r state' t', c.Connects crypto json t (.ok frame) r state' t' →
      state' = c.state ∧ c'.Connects crypto json t (.ok frame) r c'.state t' ∧
        (r = .ok () → t'.written = t.written ++ unsealedRejection ++ [byte '\n'])) ∧
    (∀ t t₀, Outcome streamHandler readFrame t (.ok frame) t₀ →
      c.Connects crypto json t (.ok frame) (.ok ()) c.state
        ⟨t₀.incoming, t.written ++ unsealedRejection ++ [byte '\n']⟩) ∧
    (∀ t r state' t', Outcome (sumHandler c.handler streamHandler)
      (handleConnection crypto json c.peers c.app) (c.state, t) r (state', t') ↔
        ∃ received, c.Connects crypto json t received r state' t') ∧
    ∀ received, (∃ p : Prog streamOps (Except Unit Unit),
        answerFrame crypto json c.peers c.app received = p.inr) ∨
      ∃ request, c.Authenticated json received request ∧
        ∃ answer : VerifierResult → Prog streamOps (Except Unit Unit),
          answerFrame crypto json c.peers c.app received =
            (c.app.verify crypto json request).inl >>= fun result => (answer result).inr := by
  refine ⟨?_, ?_, fun t r state' t' => outcome_handleConnection_iff, answerFrame_cases c⟩
  · intro t r state' t' hrun
    obtain ⟨hstate, t₀, hread, hwrite⟩ := (connects_of_error_iff h).1 hrun
    refine ⟨hstate, (connects_of_error_iff h').2 ⟨rfl, t₀, hread, hwrite⟩, ?_⟩
    rintro rfl
    rw [written_writeFrame hwrite, written_readLoop hread]
  · intro t t₀ hread
    refine (connects_of_error_iff h).2 ⟨rfl, t₀, hread, ?_⟩
    rw [← written_readLoop hread]
    exact exists_writeFrame mayAccept_streamHandler unsealedRejection_ne_nil
      length_unsealedRejection_le t₀

end Configuration

end Connection

/-! ## A frame for another domain -/

/-- A service without capabilities. -/
def closedApplication : VerifierApplication noOps where
  clock := ⟨.ret (.error .mk)⟩
  replayStore := ⟨fun _ _ => .ret (.error .mk)⟩
  nonceStore := ⟨fun _ => .ret (.error .mk), fun _ => .ret (.error .mk)⟩
  noncePolicy := .optional
  verificationPolicy := .default

def closedConfiguration (peers : PeerCredentialSet operatorHmac) : Configuration operatorHmac :=
  ⟨noOps, Unit, peers, closedApplication, fun op => op.elim, ()⟩

/-- A line that arrives in one chunk. -/
theorem readFrame_chunk {line frame : Bytes} (hfits : line.length ≤ readChunkBytes)
    (hnewline : line.contains (byte '\n') = true) (hframe : completeFrame [] line = .ok frame) :
    Outcome streamHandler readFrame ⟨line, []⟩ (.ok frame) ⟨[], []⟩ := by
  have hbudget : ¬ maxFrameBytes ≤ ([] : Bytes).length := by decide
  have hlimit : line.length ≤ min readChunkBytes (maxFrameBytes - ([] : Bytes).length) := by
    have hmin : min readChunkBytes (maxFrameBytes - ([] : Bytes).length) = readChunkBytes := by
      decide
    rwa [hmin]
  have hsome : line.length ≠ 0 := by
    rintro hzero
    rw [List.length_eq_zero_iff.1 hzero] at hnewline
    cases hnewline
  rw [readFrame, readLoop, dif_neg hbudget]
  refine ⟨.ok ⟨line, hlimit⟩, ⟨[], []⟩, Or.inr ⟨⟨line, hlimit⟩, rfl, by simp, rfl⟩, ?_⟩
  simp only [dif_neg hsome, hnewline, if_true, hframe]
  exact ⟨rfl, rfl⟩

/-- A response is no request of its peer. -/
theorem exists_refusedFrame :
    ∃ frame, operators.openEnvelope compactText frame .response = .ok openedResponse ∧
      operators.openRequest compactText frame = .error .unauthorizedPeer ∧
      (PeerCredentialSet.empty : PeerCredentialSet operatorHmac).openRequest compactText frame =
        .error .unauthorizedPeer ∧
      Outcome streamHandler readFrame ⟨frame ++ [byte '\n'], []⟩ (.ok frame) ⟨[], []⟩ := by
  have htag : operators.openRequest compactText
      (exchangeFrame openedResponse.payload .response) = .error .unauthorizedPeer := by
    decide +kernel
  have hpeer : (PeerCredentialSet.empty : PeerCredentialSet operatorHmac).openRequest compactText
      (exchangeFrame openedResponse.payload .response) = .error .unauthorizedPeer := by
    decide +kernel
  have hfits : (exchangeFrame openedResponse.payload .response ++ [byte '\n']).length ≤
      readChunkBytes := by
    decide +kernel
  have hframe : completeFrame [] (exchangeFrame openedResponse.payload .response ++ [byte '\n']) =
      .ok (exchangeFrame openedResponse.payload .response) := by
    decide +kernel
  have hopen := open_exchangeResponse
  generalize exchangeFrame openedResponse.payload .response = frame at *
  exact ⟨frame, hopen, htag, hpeer, readFrame_chunk hfits (by simp) hframe⟩

/-- The response that a peer opens comes back as a request: a verifier that knows the peer refuses
its tag, one without peers refuses the peer, and both answer alike. -/
theorem unauthenticated_inert_sample :
    ∃ frame t', operators.openEnvelope compactText frame .response = .ok openedResponse ∧
      (closedConfiguration operators).Connects permissiveCrypto compactText
        ⟨frame ++ [byte '\n'], []⟩ (.ok frame) (.ok ()) () t' ∧
      (closedConfiguration .empty).Connects permissiveCrypto compactText
        ⟨frame ++ [byte '\n'], []⟩ (.ok frame) (.ok ()) () t' ∧
      t'.written = unsealedRejection ++ [byte '\n'] := by
  obtain ⟨frame, hopen, htag, hpeer, hread⟩ := exists_refusedFrame
  obtain ⟨hsame, hlive, -, -⟩ := @Configuration.unauthenticated_inert operatorHmac permissiveCrypto
    compactText (closedConfiguration operators) (closedConfiguration .empty) frame _ _ htag hpeer
  have hrun := hlive _ _ hread
  obtain ⟨-, hother, hwritten⟩ := hsame _ _ _ _ hrun
  exact ⟨frame, _, hopen, hrun, hother, hwritten rfl⟩

end Keylix.Verifier

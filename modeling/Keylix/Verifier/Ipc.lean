import Keylix.Lib.Base64
import Keylix.Lib.Json
import Keylix.Lib.SelfDelimiting

/-!
# Authenticated local messages

The envelope of the local transport of `keylix-verifier`: a JSON object that carries the identity of
a peer, a correlation value, a payload and a tag under the key of the peer. Requests and responses
are separated by the domain that starts the input of the tag. The message authentication code
belongs to the cryptographic library and is a parameter (`Hmac`).

`macInput_injective`: the input of a tag determines the domain, the peer, the correlation and the
payload.
-/

set_option autoImplicit false

namespace Keylix.Verifier

open Keylix.Lib

/-- The message authentication code of the cryptographic library: the key of a secret, the tag of a
text, and the check of a tag. -/
structure Hmac where
  Key : Type
  newKey : Bytes → Key
  sign : Key → Bytes → ByteArr 32
  verify : Key → Bytes → Bytes → Bool

inductive IpcFailure where
  | malformedEnvelope
  | unauthorizedPeer
  | entropyUnavailable
  deriving DecidableEq

def maxVerifierPayloadBytes : Nat := 32 * 1024

abbrev ipcCorrelationBytes : Nat := 32

def ipcProtocolVersion : Nat := 1

/-- The domain of requests and the domain of responses. -/
inductive Domain where
  | request
  | response
  deriving DecidableEq

def Domain.text : Domain → Bytes
  | .request => ascii "keylix-verifier-request-v1" ++ [0]
  | .response => ascii "keylix-verifier-response-v1" ++ [0]

def isPeerIdByte (b : UInt8) : Bool := isAsciiAlphanumeric b || (ascii "-_.").contains b

def validPeerId (value : Bytes) : Bool :=
  !value.isEmpty && value.length ≤ 64 && value.all isPeerIdByte

/-- The text that a tag authenticates. -/
def macInput (domain : Domain) (peerId : Bytes) (correlation : ByteArr ipcCorrelationBytes)
    (payload : Bytes) : Bytes :=
  domain.text ++ (peerId ++ 0 :: (correlation.1 ++ payload))

/-! ## Envelopes -/

structure WireEnvelope where
  version : Nat
  peerId : Bytes
  correlationBase64url : Bytes
  payloadBase64url : Bytes
  macBase64url : Bytes

def envelopeFields : List Json.Field :=
  [⟨ascii "version", .required⟩, ⟨ascii "peer_id", .required⟩,
    ⟨ascii "correlation_base64url", .required⟩, ⟨ascii "payload_base64url", .required⟩,
    ⟨ascii "mac_base64url", .required⟩]

def WireEnvelope.ofJson (j : Json) : Option WireEnvelope :=
  match Json.recordFields true envelopeFields j with
  | some [some version, some peerId, some correlation, some payload, some mac] => do
      let version ← version.asU16
      let peerId ← peerId.asString
      let correlation ← correlation.asString
      let payload ← payload.asString
      let mac ← mac.asString
      some ⟨version, peerId, correlation, payload, mac⟩
  | _ => none

def WireEnvelope.toJson (e : WireEnvelope) : Json :=
  .obj [(ascii "version", .int e.version), (ascii "peer_id", .str e.peerId),
    (ascii "correlation_base64url", .str e.correlationBase64url),
    (ascii "payload_base64url", .str e.payloadBase64url),
    (ascii "mac_base64url", .str e.macBase64url)]

/-! ## Peers -/

section Peers

variable (hmac : Hmac)

structure PeerCredential where
  id : Bytes
  key : hmac.Key
  validId : validPeerId id = true

/-- The allowlisted peers. No two of them share an identity. -/
structure PeerCredentialSet where
  peers : List (PeerCredential hmac)
  nodup : (peers.map PeerCredential.id).Nodup

structure PeerConfig where
  id : Bytes
  secretBase64url : Bytes

def peerConfigFields : List Json.Field :=
  [⟨ascii "id", .required⟩, ⟨ascii "secret_base64url", .required⟩]

def PeerConfig.ofJson (j : Json) : Option PeerConfig :=
  match Json.recordFields true peerConfigFields j with
  | some [some id, some secret] => do
      let id ← id.asString
      let secret ← secret.asString
      some ⟨id, secret⟩
  | _ => none

structure PeerConfigDocument where
  schemaVersion : Nat
  peers : List PeerConfig

def peerConfigDocumentFields : List Json.Field :=
  [⟨ascii "schema_version", .required⟩, ⟨ascii "peers", .required⟩]

def PeerConfigDocument.ofJson (j : Json) : Option PeerConfigDocument :=
  match Json.recordFields true peerConfigDocumentFields j with
  | some [some version, some (.arr peers)] => do
      let version ← version.asU16
      let peers ← peers.mapM PeerConfig.ofJson
      some ⟨version, peers⟩
  | _ => none

def maxCredentialDocumentBytes : Nat := 16 * 1024

def maxPeers : Nat := 16

variable {hmac}

/-- Adds a configured peer: its identity is new and its secret is canonical text of 32 bytes. -/
def PeerCredentialSet.addPeer (set : PeerCredentialSet hmac) (peer : PeerConfig) :
    Except IpcFailure (PeerCredentialSet hmac) :=
  if hid : validPeerId peer.id = true then
    if hnew : peer.id ∈ set.peers.map PeerCredential.id then .error .malformedEnvelope
    else
      match Base64.decode peer.secretBase64url with
      | none => .error .malformedEnvelope
      | some secret =>
          if secret.length ≠ 32 ∨ Base64.encode secret ≠ peer.secretBase64url then
            .error .malformedEnvelope
          else
            .ok ⟨set.peers ++ [⟨peer.id, hmac.newKey secret, hid⟩], by
              rw [List.map_append, List.nodup_append]
              refine ⟨set.nodup, List.nodup_singleton _, ?_⟩
              intro a ha b hb he
              rw [List.map_singleton, List.mem_singleton] at hb
              rw [he, hb] at ha
              exact hnew ha⟩
  else .error .malformedEnvelope

def PeerCredentialSet.empty : PeerCredentialSet hmac := ⟨[], List.nodup_nil⟩

variable (hmac) (json : JsonText)

def PeerCredentialSet.fromJson (input : Bytes) : Except IpcFailure (PeerCredentialSet hmac) :=
  if input.isEmpty || maxCredentialDocumentBytes < input.length then .error .malformedEnvelope
  else
    match (json.parse input).bind PeerConfigDocument.ofJson with
    | none => .error .malformedEnvelope
    | some document =>
        if document.schemaVersion ≠ ipcProtocolVersion || document.peers.isEmpty ||
            maxPeers < document.peers.length then .error .malformedEnvelope
        else document.peers.foldlM PeerCredentialSet.addPeer .empty

variable {hmac}

def PeerCredentialSet.find (set : PeerCredentialSet hmac) (id : Bytes) :
    Option (PeerCredential hmac) :=
  set.peers.find? fun peer => peer.id = id

/-! ## Sealing and opening -/

/-- A sealed request, as the client keeps it until the response. -/
structure SealedIpcRequest where
  frame : Bytes
  peerId : Bytes
  correlation : ByteArr ipcCorrelationBytes
  deriving DecidableEq

/-- An opened message. -/
structure AuthenticatedIpcRequest where
  peerId : Bytes
  correlation : ByteArr ipcCorrelationBytes
  payload : Bytes
  deriving DecidableEq

/-- An envelope whose parts were decoded, with the peer it names. -/
structure DecodedEnvelope (hmac : Hmac) where
  peer : PeerCredential hmac
  correlation : ByteArr ipcCorrelationBytes
  payload : Bytes
  mac : Bytes

/-- Canonical text of 32 bytes. -/
def decodeCanonical (encoded : Bytes) : Except IpcFailure (ByteArr 32) :=
  match Base64.decode encoded with
  | none => .error .malformedEnvelope
  | some decoded =>
      if h : decoded.length = 32 then
        if Base64.encode decoded ≠ encoded then .error .malformedEnvelope else .ok ⟨decoded, h⟩
      else .error .malformedEnvelope

def decodePayload (encoded : Bytes) : Except IpcFailure Bytes :=
  match Base64.decode encoded with
  | none => .error .malformedEnvelope
  | some payload =>
      if payload.isEmpty || maxVerifierPayloadBytes < payload.length then .error .malformedEnvelope
      else .ok payload

namespace PeerCredentialSet

variable (set : PeerCredentialSet hmac)

/-- The checks of `open` before the tag. -/
def decode (input : Bytes) : Except IpcFailure (DecodedEnvelope hmac) :=
  if input.isEmpty || maxVerifierPayloadBytes * 2 < input.length then .error .malformedEnvelope
  else
    match (json.parse input).bind WireEnvelope.ofJson with
    | none => .error .malformedEnvelope
    | some envelope =>
        if envelope.version ≠ ipcProtocolVersion || !validPeerId envelope.peerId then
          .error .malformedEnvelope
        else do
          let correlation ← decodeCanonical envelope.correlationBase64url
          let payload ← decodePayload envelope.payloadBase64url
          let mac ← decodeCanonical envelope.macBase64url
          match set.find envelope.peerId with
          | none => .error .unauthorizedPeer
          | some peer => .ok ⟨peer, correlation, payload, mac.1⟩

/-- Opens a message of a domain. -/
def openEnvelope (input : Bytes) (domain : Domain) : Except IpcFailure AuthenticatedIpcRequest := do
  let decoded ← set.decode json input
  if hmac.verify decoded.peer.key
      (macInput domain decoded.peer.id decoded.correlation decoded.payload) decoded.mac then
    .ok ⟨decoded.peer.id, decoded.correlation, decoded.payload⟩
  else .error .unauthorizedPeer

/-- Seals a message of a domain. -/
def sealEnvelope (peerId : Bytes) (correlation : ByteArr ipcCorrelationBytes) (payload : Bytes)
    (domain : Domain) : Except IpcFailure Bytes :=
  if payload.isEmpty || maxVerifierPayloadBytes < payload.length then .error .malformedEnvelope
  else
    match set.find peerId with
    | none => .error .unauthorizedPeer
    | some peer =>
        let mac := hmac.sign peer.key (macInput domain peerId correlation payload)
        .ok (WireEnvelope.toJson {
          version := ipcProtocolVersion
          peerId := peerId
          correlationBase64url := Base64.encode correlation.1
          payloadBase64url := Base64.encode payload
          macBase64url := Base64.encode mac.1 }).render

def openRequest (input : Bytes) : Except IpcFailure AuthenticatedIpcRequest :=
  set.openEnvelope json input .request

def sealResponse (request : AuthenticatedIpcRequest) (payload : Bytes) : Except IpcFailure Bytes :=
  set.sealEnvelope request.peerId request.correlation payload .response

/-- The correlation is drawn by the random generator. -/
def sealRequest (peerId payload : Bytes) (random : Option (ByteArr ipcCorrelationBytes)) :
    Except IpcFailure SealedIpcRequest :=
  match random with
  | none => .error .entropyUnavailable
  | some correlation => do
      let frame ← set.sealEnvelope peerId correlation payload .request
      .ok ⟨frame, peerId, correlation⟩

def openResponseForRequest (request : SealedIpcRequest) (input : Bytes) :
    Except IpcFailure AuthenticatedIpcRequest := do
  let response ← set.openEnvelope json input .response
  if response.peerId ≠ request.peerId ∨ response.correlation ≠ request.correlation then
    .error .unauthorizedPeer
  else .ok response

end PeerCredentialSet

end Peers

/-! ## Inputs of tags -/

theorem zero_not_mem_of_validPeerId {id : Bytes} (h : validPeerId id = true) :
    (0 : UInt8) ∉ id := by
  intro hmem
  simp only [validPeerId, Bool.and_eq_true, List.all_eq_true] at h
  have hzero := h.2 0 hmem
  revert hzero
  decide

theorem selfDelimitingOn_domain : SelfDelimitingOn Domain.text Set.univ := by
  rw [selfDelimitingOn_iff_starts]
  intro d _ d' _ hprefix
  cases d <;> cases d' <;> first | rfl | exact absurd hprefix (by decide)

theorem selfDelimitingOn_peerId :
    SelfDelimitingOn (fun id : Bytes => id ++ [0]) {id | validPeerId id = true} :=
  (selfDelimitingOn_terminated 0).mono fun _ => zero_not_mem_of_validPeerId

theorem selfDelimitingOn_correlation :
    SelfDelimitingOn (fun correlation : ByteArr ipcCorrelationBytes => correlation.1) Set.univ :=
  selfDelimitingOn_of_length (fun correlation _ => correlation.2)
    fun _ _ _ _ he => Subtype.ext he

/-- The three fields before the payload show where they end: no domain is the start of the other
one, an identity ends at the first zero byte, and a correlation has 32 bytes. -/
theorem selfDelimitingOn_header :
    SelfDelimitingOn (fun header : (Domain × Bytes) × ByteArr ipcCorrelationBytes =>
        (header.1.1.text ++ (header.1.2 ++ [0])) ++ header.2.1)
      ((Set.univ ×ˢ {id | validPeerId id = true}) ×ˢ Set.univ) :=
  (selfDelimitingOn_domain.prod selfDelimitingOn_peerId).prod selfDelimitingOn_correlation

theorem macInput_eq (domain : Domain) (peerId : Bytes) (correlation : ByteArr ipcCorrelationBytes)
    (payload : Bytes) :
    macInput domain peerId correlation payload =
      ((domain.text ++ (peerId ++ [0])) ++ correlation.1) ++ payload := by
  simp only [macInput, List.append_assoc, List.cons_append, List.nil_append]

/-- **The input of a tag determines what it authenticates.** -/
theorem macInput_injective {d d' : Domain} {id id' : Bytes} (hid : validPeerId id = true)
    (hid' : validPeerId id' = true) {c c' : ByteArr ipcCorrelationBytes} {p p' : Bytes}
    (h : macInput d id c p = macInput d' id' c' p') : d = d' ∧ id = id' ∧ c = c' ∧ p = p' := by
  rw [macInput_eq, macInput_eq] at h
  obtain ⟨hheader, hpayload⟩ := selfDelimitingOn_header (a := ((d, id), c)) (b := ((d', id'), c'))
    ⟨⟨trivial, hid⟩, trivial⟩ ⟨⟨trivial, hid'⟩, trivial⟩ h
  cases hheader
  exact ⟨rfl, rfl, rfl, hpayload⟩

end Keylix.Verifier

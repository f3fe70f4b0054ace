import Keylix.Verifier.Envelope

/-!
# Tags and their inputs

The two ways in which a tag is computed. `calculateMac` feeds the fields of a message to a context
of the cryptographic library, one after another; `verifyMac` writes them into a buffer and checks
the tag of the buffer. The library is a parameter, so that the bytes that reach it can be read off:
they are what either function computes over a library that hands its input back.

`macInputs_unambiguous`: both functions use the same bytes, and those bytes belong to one domain,
one identity, one correlation and one payload only. Sealing and opening are these two functions
(`sealEnvelope_eq`, `openEnvelope_eq`).
-/

set_option autoImplicit false

namespace Keylix.Verifier

open Keylix.Lib Keylix.Core

/-! ## Contexts -/

section Contexts

variable {κ τ : Type}

/-- The contexts of the library. A context is made for a key, fed with bytes in any number of parts,
and signed. -/
structure MacContexts (κ τ : Type) where
  Context : Type
  withKey : κ → Context
  update : Context → Bytes → Context
  sign : Context → τ

/-- A signed context gives the tag of the bytes that it was fed with, in whatever parts. -/
def MacContexts.Implements (contexts : MacContexts κ τ) (tag : κ → Bytes → τ) : Prop :=
  ∀ key (parts : List Bytes), contexts.sign (parts.foldl contexts.update (contexts.withKey key)) =
    tag key parts.flatten

/-- Contexts that keep the bytes until they are signed. -/
def MacContexts.buffered (tag : κ → Bytes → τ) : MacContexts κ τ where
  Context := κ × Bytes
  withKey key := (key, [])
  update context data := (context.1, context.2 ++ data)
  sign context := tag context.1 context.2

theorem MacContexts.foldl_update_buffered (tag : κ → Bytes → τ) (key : κ) (fed : Bytes)
    (parts : List Bytes) :
    parts.foldl (MacContexts.buffered tag).update (key, fed) = (key, fed ++ parts.flatten) := by
  induction parts generalizing fed with
  | nil => exact Prod.ext rfl (List.append_nil fed).symm
  | cons part parts ih =>
    rw [List.flatten_cons, ← List.append_assoc]
    exact ih (fed ++ part)

theorem MacContexts.implements_buffered (tag : κ → Bytes → τ) :
    (MacContexts.buffered tag).Implements tag := by
  intro key parts
  have hfed := foldl_update_buffered tag key [] parts
  exact congrArg (MacContexts.buffered tag).sign hfed

end Contexts

/-! ## Calculation and verification -/

section Macs

variable {κ τ β : Type}

def calculateMac (contexts : MacContexts κ τ) (key : κ) (domain peerId : Bytes)
    (correlation : ByteArr ipcCorrelationBytes) (payload : Bytes) : τ :=
  let context := contexts.withKey key
  let context := contexts.update context domain
  let context := contexts.update context peerId
  let context := contexts.update context [0]
  let context := contexts.update context correlation.1
  let context := contexts.update context payload
  contexts.sign context

/-- `verify` is the check of a tag by the library. -/
def verifyMac (verify : κ → Bytes → Bytes → β) (key : κ) (domain peerId : Bytes)
    (correlation : ByteArr ipcCorrelationBytes) (payload mac : Bytes) : β :=
  let input : Bytes := []
  let input := input ++ domain
  let input := input ++ peerId
  let input := input ++ [0]
  let input := input ++ correlation.1
  let input := input ++ payload
  verify key input mac

/-- The bytes that `calculateMac` feeds to its context. -/
def calculatedInput (domain peerId : Bytes) (correlation : ByteArr ipcCorrelationBytes)
    (payload : Bytes) : Bytes :=
  calculateMac (MacContexts.buffered fun (_ : Unit) fed => fed) () domain peerId correlation payload

/-- The bytes whose tag `verifyMac` checks. -/
def verifiedInput (domain peerId : Bytes) (correlation : ByteArr ipcCorrelationBytes)
    (payload mac : Bytes) : Bytes :=
  verifyMac (fun (_ : Unit) input _ => input) () domain peerId correlation payload mac

/-- Whatever the library does with the bytes, the tag is one of the bytes that were fed. -/
theorem calculateMac_eq {contexts : MacContexts κ τ} {tag : κ → Bytes → τ}
    (hcontexts : contexts.Implements tag) (key : κ) (domain peerId : Bytes)
    (correlation : ByteArr ipcCorrelationBytes) (payload : Bytes) :
    calculateMac contexts key domain peerId correlation payload =
      tag key (calculatedInput domain peerId correlation payload) := by
  have hsame : ∀ {κ τ : Type} (contexts : MacContexts κ τ) (key : κ),
      calculateMac contexts key domain peerId correlation payload = contexts.sign
        ([domain, peerId, [0], correlation.1, payload].foldl contexts.update
          (contexts.withKey key)) := fun _ _ => rfl
  rw [hsame, hcontexts, calculatedInput, hsame, MacContexts.implements_buffered]

theorem verifyMac_eq (verify : κ → Bytes → Bytes → β) (key : κ) (domain peerId : Bytes)
    (correlation : ByteArr ipcCorrelationBytes) (payload mac : Bytes) :
    verifyMac verify key domain peerId correlation payload mac =
      verify key (verifiedInput domain peerId correlation payload mac) mac := rfl

theorem calculatedInput_eq (domain : Domain) (peerId : Bytes)
    (correlation : ByteArr ipcCorrelationBytes) (payload : Bytes) :
    calculatedInput domain.text peerId correlation payload =
      macInput domain peerId correlation payload := by
  rw [calculatedInput, calculateMac]
  simp only [MacContexts.buffered, List.nil_append]
  rw [macInput_eq]
  simp only [List.append_assoc]

theorem verifiedInput_eq (domain : Domain) (peerId : Bytes)
    (correlation : ByteArr ipcCorrelationBytes) (payload mac : Bytes) :
    verifiedInput domain.text peerId correlation payload mac =
      macInput domain peerId correlation payload := by
  rw [verifiedInput, verifyMac, macInput_eq]
  simp only [List.nil_append, List.append_assoc]

end Macs

/-! ## Sealing and opening -/

section Envelopes

variable {hmac : Hmac} {contexts : MacContexts hmac.Key (ByteArr 32)}

/-- Sealing calculates the tag of the message. -/
theorem sealEnvelope_eq (hcontexts : contexts.Implements hmac.sign) (set : PeerCredentialSet hmac)
    (peerId : Bytes) (correlation : ByteArr ipcCorrelationBytes) (payload : Bytes)
    (domain : Domain) :
    set.sealEnvelope peerId correlation payload domain =
      if payload.isEmpty || maxVerifierPayloadBytes < payload.length then .error .malformedEnvelope
      else
        match set.find peerId with
        | none => .error .unauthorizedPeer
        | some peer =>
            let mac := calculateMac contexts peer.key domain.text peerId correlation payload
            .ok (WireEnvelope.toJson {
              version := ipcProtocolVersion
              peerId := peerId
              correlationBase64url := Base64.encode correlation.1
              payloadBase64url := Base64.encode payload
              macBase64url := Base64.encode mac.1 }).render := by
  simp only [calculateMac_eq hcontexts, calculatedInput_eq]
  rfl

/-- Opening verifies the tag of what was decoded. -/
theorem openEnvelope_eq (json : JsonText) (set : PeerCredentialSet hmac) (input : Bytes)
    (domain : Domain) :
    set.openEnvelope json input domain = (do
      let decoded ← set.decode json input
      if verifyMac hmac.verify decoded.peer.key domain.text decoded.peer.id decoded.correlation
          decoded.payload decoded.mac then
        .ok ⟨decoded.peer.id, decoded.correlation, decoded.payload⟩
      else .error .unauthorizedPeer) := by
  simp only [verifyMac_eq, verifiedInput_eq]
  rfl

/-- **A tag is accepted for its own message only**, by a library that accepts the tag of a text for
that text and for no other one. -/
theorem verifyMac_calculateMac_iff (hcontexts : contexts.Implements hmac.sign)
    (hcorrect : hmac.Correct) {key : hmac.Key} {domain domain' : Domain} {peerId peerId' : Bytes}
    {correlation correlation' : ByteArr ipcCorrelationBytes} {payload payload' : Bytes}
    (hideal : hmac.IdealTag key (macInput domain peerId correlation payload))
    (hid : validPeerId peerId = true) (hid' : validPeerId peerId' = true) :
    verifyMac hmac.verify key domain'.text peerId' correlation' payload'
        (calculateMac contexts key domain.text peerId correlation payload).1 = true ↔
      domain' = domain ∧ peerId' = peerId ∧ correlation' = correlation ∧ payload' = payload := by
  rw [verifyMac_eq, verifiedInput_eq, calculateMac_eq hcontexts, calculatedInput_eq]
  constructor
  · intro haccepted
    exact macInput_injective hid' hid (hideal _ haccepted)
  · rintro ⟨rfl, rfl, rfl, rfl⟩
    exact hcorrect _ _

/-- **The input of a tag is unambiguous, and both sides build the same one.** The bytes that are fed
when a tag is calculated are the bytes that are checked when it is verified; and the inputs of two
messages are equal only if the messages are. -/
theorem macInputs_unambiguous (hcontexts : contexts.Implements hmac.sign) (domain : Domain)
    {peerId : Bytes} (hid : validPeerId peerId = true) (correlation : ByteArr ipcCorrelationBytes)
    (payload : Bytes) :
    (∀ key, calculateMac contexts key domain.text peerId correlation payload =
      hmac.sign key (calculatedInput domain.text peerId correlation payload)) ∧
    (∀ key mac, verifyMac hmac.verify key domain.text peerId correlation payload mac =
      hmac.verify key (verifiedInput domain.text peerId correlation payload mac) mac) ∧
    (∀ mac, calculatedInput domain.text peerId correlation payload =
      verifiedInput domain.text peerId correlation payload mac) ∧
    ∀ (domain' : Domain) (peerId' : Bytes) (correlation' : ByteArr ipcCorrelationBytes)
      (payload' : Bytes), validPeerId peerId' = true →
      calculatedInput domain.text peerId correlation payload =
        calculatedInput domain'.text peerId' correlation' payload' →
      domain = domain' ∧ peerId = peerId' ∧ correlation = correlation' ∧ payload = payload' := by
  refine ⟨?_, ?_, ?_, ?_⟩
  · intro key
    exact calculateMac_eq hcontexts key domain.text peerId correlation payload
  · intro key mac
    exact verifyMac_eq hmac.verify key domain.text peerId correlation payload mac
  · intro mac
    rw [calculatedInput_eq, verifiedInput_eq]
  · intro domain' peerId' correlation' payload' hid' he
    rw [calculatedInput_eq, calculatedInput_eq] at he
    exact macInput_injective hid hid' he

end Envelopes

/-- A request: its tag is accepted, and the response with the same payload has another input. -/
theorem macInputs_unambiguous_message :
    validPeerId operator.id = true ∧
      calculateMac (MacContexts.buffered operatorHmac.sign) operator.key Domain.request.text
        operator.id exchangeCorrelation (ascii "query") = operatorTag messageInput ∧
      verifyMac operatorHmac.verify operator.key Domain.request.text operator.id
        exchangeCorrelation (ascii "query") (operatorTag messageInput).1 = true ∧
      calculatedInput Domain.request.text operator.id exchangeCorrelation (ascii "query") ≠
        calculatedInput Domain.response.text operator.id exchangeCorrelation
          (ascii "query") := by
  obtain ⟨hcalculate, hverify, hsame, hinj⟩ := macInputs_unambiguous
    (MacContexts.implements_buffered operatorHmac.sign) .request operator.validId
    exchangeCorrelation (ascii "query")
  have hinput : calculatedInput Domain.request.text operator.id exchangeCorrelation
      (ascii "query") = messageInput := calculatedInput_eq _ _ _ _
  refine ⟨operator.validId, ?_, ?_, ?_⟩
  · rw [hcalculate, hinput]
    rfl
  · rw [hverify, ← hsame, hinput]
    exact correct_operatorHmac operator.key messageInput
  · intro he
    obtain ⟨hdomain, -⟩ := hinj .response operator.id exchangeCorrelation (ascii "query")
      operator.validId he
    cases hdomain

end Keylix.Verifier

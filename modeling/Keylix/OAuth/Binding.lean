import Keylix.Dpop.Proof

/-!
# Sender binding

The composition of `keylix-oauth`: a verified proof and the token that the host validated make a
sender binding when the proof was verified against that very token and the confirmation of the
token names the key of the proof.

`parseJkt_eq_ok_iff` says which confirmation texts are accepted, and
`composeSenderBinding_eq_ok_iff` when a binding is composed.
-/

set_option autoImplicit false

namespace Keylix.OAuth

open Keylix.Lib Keylix.Core Keylix.Dpop

/-- A failure category of the composition. -/
inductive OAuthDpopError where
  | tokenTypeNotDpop
  | tokenIdentityMismatch
  | tokenBindingMissing
  | tokenBindingMalformed
  | tokenBindingMismatch
  | proofNotAccessTokenBound
  | tokenInactive
  | proofKeyContinuityMismatch
  | nonceContextMismatch
  | nonceStateUnavailable
  | nonceRetryLimitExceeded
  | invalidCredential
  | dpop (error : DpopError)
  deriving DecidableEq

/-- The digest of the exact bytes of a token. -/
structure TokenFingerprint where
  bytes : ByteArr 32
  deriving DecidableEq

def TokenFingerprint.fromTokenBytes (crypto : Crypto) (token : Bytes) : TokenFingerprint :=
  ⟨crypto.sha256 token⟩

/-- How the host validated a token. -/
inductive TokenValidationSource where
  | validatedJwt
  | authenticatedIntrospection
  | equivalentHostValidator
  deriving DecidableEq

/-- A token as the host validated it. -/
structure HostValidatedToken where
  fingerprint : TokenFingerprint
  confirmation : Option (ByteArr 32)
  source : TokenValidationSource

def sha256Bytes : Nat := 32

/-- A confirmation: the canonical text of 32 bytes. -/
def parseJkt (value : Bytes) : Except OAuthDpopError (ByteArr 32) :=
  if value.length ≠ sha256Base64urlBytes ∨ byte '=' ∈ value then .error .tokenBindingMalformed
  else
    match Base64.decode value with
    | none => .error .tokenBindingMalformed
    | some decoded =>
        if h : decoded.length = sha256Bytes then
          if Base64.encode decoded ≠ value then .error .tokenBindingMalformed
          else .ok ⟨decoded, h⟩
        else .error .tokenBindingMalformed

namespace HostValidatedToken

variable (crypto : Crypto)

def new (exactToken : Bytes) (confirmationJkt : Option Bytes) (source : TokenValidationSource) :
    Except OAuthDpopError HostValidatedToken :=
  match confirmationJkt with
  | none => .ok ⟨.fromTokenBytes crypto exactToken, none, source⟩
  | some jkt =>
      (parseJkt jkt).map fun bytes => ⟨.fromTokenBytes crypto exactToken, some bytes, source⟩

def fromHostValidatedJwt (exactToken : Bytes) (confirmationJkt : Option Bytes) :
    Except OAuthDpopError HostValidatedToken :=
  new crypto exactToken confirmationJkt .validatedJwt

def fromHostAuthenticatedIntrospection (exactToken : Bytes) (active : Bool)
    (confirmationJkt : Option Bytes) : Except OAuthDpopError HostValidatedToken :=
  if !active then .error .tokenInactive
  else new crypto exactToken confirmationJkt .authenticatedIntrospection

def fromEquivalentHostValidator (exactToken : Bytes) (confirmationJkt : Option Bytes) :
    Except OAuthDpopError HostValidatedToken :=
  new crypto exactToken confirmationJkt .equivalentHostValidator

end HostValidatedToken

/-- A composed sender binding. -/
structure VerifiedSenderBinding where
  keyThumbprint : JwkThumbprint
  source : TokenValidationSource
  proofIssuedAtUnix : I64
  nonceEnforced : Bool
  replayChecked : Bool
  deriving DecidableEq

def composeSenderBinding (crypto : Crypto) (proof : VerifiedDpopProof)
    (exactPresentedToken : Bytes) (validated : HostValidatedToken) :
    Except OAuthDpopError VerifiedSenderBinding :=
  if !proof.accessTokenHashVerified then .error .proofNotAccessTokenBound
  else if TokenFingerprint.fromTokenBytes crypto exactPresentedToken ≠ validated.fingerprint then
    .error .tokenIdentityMismatch
  else
    match validated.confirmation with
    | none => .error .tokenBindingMissing
    | some confirmation =>
        if proof.keyThumbprint.bytes ≠ confirmation then .error .tokenBindingMismatch
        else
          .ok {
            keyThumbprint := proof.keyThumbprint
            source := validated.source
            proofIssuedAtUnix := proof.issuedAtUnix
            nonceEnforced := proof.nonceEnforced
            replayChecked := proof.replayChecked }

/-! ## What is accepted -/

/-- The accepted confirmations are the encodings of 32 bytes. -/
theorem parseJkt_eq_ok_iff {value : Bytes} {bytes : ByteArr 32} :
    parseJkt value = .ok bytes ↔ value = Base64.encode bytes.1 := by
  constructor
  · intro h
    unfold parseJkt at h
    split at h
    · cases h
    split at h
    · cases h
    split at h
    · split at h
      · cases h
      next hcanonical =>
      rw [not_not] at hcanonical
      cases h
      exact hcanonical.symm
    · cases h
  · rintro rfl
    -- the text of 32 bytes has 43 symbols, none of them the padding
    have hlen : (Base64.encode bytes.1).length = sha256Base64urlBytes := by
      rw [Base64.length_encode, bytes.2]
      rfl
    have hpad : byte '=' ∉ Base64.encode bytes.1 := Base64.not_mem_encode (by decide)
    have hchecks : ¬ ((Base64.encode bytes.1).length ≠ sha256Base64urlBytes ∨
        byte '=' ∈ Base64.encode bytes.1) := by
      rintro (h | h)
      · exact h hlen
      · exact hpad h
    have hdecoded : bytes.1.length = sha256Bytes := bytes.2
    rw [parseJkt, if_neg hchecks, Base64.decode_encode]
    simp [hdecoded]

/-- A validated token carries its fingerprint and the bytes of its confirmation. -/
theorem HostValidatedToken.new_eq_ok {crypto : Crypto} {token : Bytes} {jkt : Option Bytes}
    {source : TokenValidationSource} {validated : HostValidatedToken}
    (h : HostValidatedToken.new crypto token jkt source = .ok validated) :
    validated.fingerprint = .fromTokenBytes crypto token ∧
      jkt = validated.confirmation.map fun bytes => Base64.encode bytes.1 := by
  unfold HostValidatedToken.new at h
  cases jkt with
  | none =>
    cases h
    exact ⟨rfl, rfl⟩
  | some jkt =>
    cases hjkt : parseJkt jkt with
    | error e =>
      simp only [hjkt, Except.map] at h
      cases h
    | ok bytes =>
      simp only [hjkt, Except.map] at h
      cases h
      rw [parseJkt_eq_ok_iff.1 hjkt]
      exact ⟨rfl, rfl⟩

/-- A binding is composed if and only if the proof was verified against a token, the host validated
the same token, and its confirmation is the thumbprint of the proof's key. -/
theorem composeSenderBinding_eq_ok_iff {crypto : Crypto} {proof : VerifiedDpopProof}
    {token : Bytes} {validated : HostValidatedToken} {binding : VerifiedSenderBinding} :
    composeSenderBinding crypto proof token validated = .ok binding ↔
      proof.accessTokenHashVerified = true ∧
      TokenFingerprint.fromTokenBytes crypto token = validated.fingerprint ∧
      validated.confirmation = some proof.keyThumbprint.bytes ∧
      binding = ⟨proof.keyThumbprint, validated.source, proof.issuedAtUnix, proof.nonceEnforced,
        proof.replayChecked⟩ := by
  unfold composeSenderBinding
  constructor
  · intro h
    split at h
    · cases h
    next hverified =>
    split at h
    · cases h
    next hsame =>
    rw [not_not] at hsame
    split at h
    · cases h
    next confirmation hconf =>
    split at h
    · cases h
    next hkey =>
    rw [not_not] at hkey
    cases h
    exact ⟨by simpa using hverified, hsame, by rw [hconf, hkey], rfl⟩
  · rintro ⟨hverified, hsame, hconf, rfl⟩
    simp [hverified, hsame, hconf]

/-- A token is refused for its own reasons, never for a failure of a proof. -/
theorem HostValidatedToken.new_error {crypto : Crypto} {token : Bytes} {jkt : Option Bytes}
    {source : TokenValidationSource} {e : OAuthDpopError}
    (h : HostValidatedToken.new crypto token jkt source = .error e) (error : DpopError) :
    e ≠ .dpop error := by
  unfold HostValidatedToken.new at h
  split at h
  · cases h
  next jkt _ =>
  have hjkt := map_eq_error_iff.1 h
  rintro rfl
  unfold parseJkt at hjkt
  split at hjkt
  · cases hjkt
  split at hjkt
  · cases hjkt
  split at hjkt
  · split at hjkt <;> cases hjkt
  · cases hjkt

theorem composeSenderBinding_error {crypto : Crypto} {proof : VerifiedDpopProof}
    {token : Bytes} {validated : HostValidatedToken} {e : OAuthDpopError}
    (h : composeSenderBinding crypto proof token validated = .error e) (error : DpopError) :
    e ≠ .dpop error := by
  rintro rfl
  unfold composeSenderBinding at h
  split at h
  · cases h
  split at h
  · cases h
  split at h
  · cases h
  · split at h <;> cases h

end Keylix.OAuth

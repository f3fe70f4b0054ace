import Keylix.Core.Jwk
import Keylix.Dpop.Request

/-!
# Proofs

Parsing, construction and verification of compact proofs. A proof is parsed into its three segments,
the header and the claims, without any trust; the builder writes one; the verifier accepts one for
a request.

The builder and the verifier are programs over their capabilities. The verifier's checks are split
where it reads the clock and where it calls the replay store: `verifyBinding` comes before the
clock, `verifyClaims` between the clock and the store.
-/

set_option autoImplicit false

namespace Keylix.Dpop

open Keylix.Lib Keylix.Core

def maxProofBytes : Nat := 8192

def maxHeaderBytes : Nat := 2048

def maxPayloadBytes : Nat := 4096

def maxSignatureBytes : Nat := 128

def maxJtiBytes : Nat := 256

def maxHtmBytes : Nat := 64

def maxHtuBytes : Nat := 2048

def sha256Base64urlBytes : Nat := 43

def es256SignatureBytes : Nat := 64

/-! ## Wire formats -/

structure HeaderWire where
  typ : Bytes
  alg : Bytes
  jwk : Json

structure ClaimsWire where
  jti : Bytes
  htm : Bytes
  htu : Bytes
  iat : I64
  ath : Option Bytes
  nonce : Option Bytes

def headerFields : List Json.Field :=
  [⟨ascii "typ", .required⟩, ⟨ascii "alg", .required⟩, ⟨ascii "jwk", .required⟩]

/-- The key is kept as a stored JSON value. -/
def HeaderWire.ofJson (j : Json) : Option HeaderWire :=
  match Json.recordFields false headerFields j with
  | some [some typ, some alg, some jwk] => do
      let typ ← typ.asString
      let alg ← alg.asString
      some ⟨typ, alg, jwk.toValue⟩
  | _ => none

def claimsFields : List Json.Field :=
  [⟨ascii "jti", .required⟩, ⟨ascii "htm", .required⟩, ⟨ascii "htu", .required⟩,
    ⟨ascii "iat", .required⟩, ⟨ascii "ath", .defaulted⟩, ⟨ascii "nonce", .defaulted⟩]

def ClaimsWire.ofJson (j : Json) : Option ClaimsWire :=
  match Json.recordFields false claimsFields j with
  | some [some jti, some htm, some htu, some iat, ath, nonce] => do
      let jti ← jti.asString
      let htm ← htm.asString
      let htu ← htu.asString
      let iat ← iat.asI64
      let ath ← Json.asOptionalString ath
      let nonce ← Json.asOptionalString nonce
      some ⟨jti, htm, htu, iat, ath, nonce⟩
  | _ => none

/-- The header that the builder writes. -/
def headerBuild {crypto : Crypto} (jwk : PublicP256Jwk crypto) : Json :=
  .obj [(ascii "typ", .str (ascii "dpop+jwt")), (ascii "alg", .str (ascii "ES256")),
    (ascii "jwk", jwk.toJson)]

/-- The members that the builder writes: an absent hash or nonce is left out. -/
def ClaimsWire.members (claims : ClaimsWire) : List (Bytes × Json) :=
  [(ascii "jti", .str claims.jti), (ascii "htm", .str claims.htm), (ascii "htu", .str claims.htu),
      (ascii "iat", .int claims.iat.toInt)] ++
    (claims.ath.map fun ath => (ascii "ath", Json.str ath)).toList ++
    (claims.nonce.map fun nonce => (ascii "nonce", Json.str nonce)).toList

/-- The claims that the builder writes. -/
def ClaimsWire.build (claims : ClaimsWire) : Json := .obj claims.members

mutual

/-- No object of a value has two members of one name. -/
def uniqueJson : Json → Bool
  | .arr xs => uniqueItems xs
  | .obj ms => decide (ms.map Prod.fst).Nodup && uniqueMembers ms
  | _ => true
termination_by structural j => j

def uniqueItems : List Json → Bool
  | [] => true
  | x :: xs => uniqueJson x && uniqueItems xs
termination_by structural xs => xs

def uniqueMember : Bytes × Json → Bool
  | (_, v) => uniqueJson v
termination_by structural m => m

def uniqueMembers : List (Bytes × Json) → Bool
  | [] => true
  | m :: ms => uniqueMember m && uniqueMembers ms
termination_by structural ms => ms

end

def rejectDuplicateJsonMembers (json : JsonText) (input : Bytes) : Except DpopError Unit :=
  match json.parse input with
  | some j => if uniqueJson j then .ok () else .error .malformedProof
  | none => .error .malformedProof

def validateClaimShape (claims : ClaimsWire) : Except DpopError Unit :=
  if claims.jti.isEmpty || maxJtiBytes < claims.jti.length ||
      claims.htm.isEmpty || maxHtmBytes < claims.htm.length ||
      claims.htu.isEmpty || maxHtuBytes < claims.htu.length ||
      claims.iat.toInt ≤ 0 ||
      claims.ath.any (fun value => value.length ≠ sha256Base64urlBytes) ||
      claims.nonce.any (fun value => value.isEmpty || maxNonceBytes < value.length) then
    .error .malformedProof
  else .ok ()

def decodeSegment (encoded : Bytes) (maxDecodedBytes : Nat) : Except DpopError Bytes :=
  if encoded.contains (byte '=') || maxDecodedBytes * 2 < encoded.length then
    .error .malformedProof
  else
    match Base64.decode encoded with
    | none => .error .malformedProof
    | some decoded =>
        if maxDecodedBytes < decoded.length then .error .proofTooLarge else .ok decoded

/-! ## Parsing -/

/-- A parsed proof. -/
structure UnverifiedDpopProof (crypto : Crypto) where
  encodedHeader : Bytes
  encodedPayload : Bytes
  signature : Bytes
  header : HeaderWire
  claims : ClaimsWire
  publicJwk : PublicP256Jwk crypto

section Operations

variable (crypto : Crypto) (json : JsonText)

/-- The header and the claims of decoded segments. -/
def UnverifiedDpopProof.parseParts (encodedHeader encodedPayload headerBytes payloadBytes
    signature : Bytes) : Except DpopError (UnverifiedDpopProof crypto) := do
  rejectDuplicateJsonMembers json headerBytes
  rejectDuplicateJsonMembers json payloadBytes
  match (json.parse headerBytes).bind HeaderWire.ofJson,
      (json.parse payloadBytes).bind ClaimsWire.ofJson with
  | some header, some claims => do
      validateClaimShape claims
      match PublicP256Jwk.fromJson crypto json header.jwk.render with
      | .ok publicJwk =>
          .ok ⟨encodedHeader, encodedPayload, signature, header, claims, publicJwk⟩
      | .error _ => .error .unsupportedKey
  | _, _ => .error .malformedProof

def UnverifiedDpopProof.parse (input : Bytes) : Except DpopError (UnverifiedDpopProof crypto) :=
  if input.isEmpty then .error .malformedProof
  else if maxProofBytes < input.length then .error .proofTooLarge
  else
    match input.splitOn (byte '.') with
    | [encodedHeader, encodedPayload, encodedSignature] =>
        if encodedHeader.isEmpty || encodedPayload.isEmpty || encodedSignature.isEmpty then
          .error .malformedProof
        else do
          let headerBytes ← decodeSegment encodedHeader maxHeaderBytes
          let payloadBytes ← decodeSegment encodedPayload maxPayloadBytes
          let signature ← decodeSegment encodedSignature maxSignatureBytes
          parseParts crypto json encodedHeader encodedPayload headerBytes payloadBytes signature
    | _ => .error .malformedProof

/-- Exactly one header value, without a comma. -/
def parseDpopHeaderValues (values : List Bytes) : Except DpopError (UnverifiedDpopProof crypto) :=
  match values with
  | [value] =>
      if value.contains (byte ',') then .error .ambiguousProof
      else UnverifiedDpopProof.parse crypto json value
  | [] => .error .missingProof
  | _ => .error .ambiguousProof

/-! ## Hashes and signatures -/

def accessTokenHash (accessToken : Bytes) : Bytes :=
  Base64.encode (crypto.sha256 accessToken).1

variable {crypto}

def verifyEs256Signature (jwk : PublicP256Jwk crypto) (signingInput signature : Bytes) :
    Except DpopError Unit :=
  if signature.length ≠ es256SignatureBytes then .error .invalidSignature
  else
    match crypto.parsedPublicKey (uncompressedPoint jwk.x jwk.y) with
    | none => .error .unsupportedKey
    | some publicKey =>
        if crypto.verifySig publicKey signingInput signature then .ok ()
        else .error .invalidSignature

/-- The eight bytes of a length, most significant first. -/
def u64ToBeBytes (n : Nat) : Bytes :=
  (List.range 8).map fun i => UInt8.ofNat (n / 256 ^ (7 - i) % 256)

/-- The length-prefixed parts of a replay key, one after another. -/
def replayMaterial : List Bytes → Except DpopError Bytes
  | [] => .ok []
  | part :: parts =>
      if part.length < 2 ^ 64 then
        (replayMaterial parts).map (u64ToBeBytes part.length ++ part ++ ·)
      else .error .malformedProof

variable (crypto) in
def deriveReplayKey (thumbprint : JwkThumbprint) (method : Bytes) (target : EffectiveRequestTarget)
    (jti : Bytes) : Except DpopError ReplayKey :=
  (replayMaterial [thumbprint.bytes.1, method, target.asStr, jti]).map fun material =>
    ⟨crypto.sha256 material⟩

/-! ## Construction -/

/-- The signing capability of the builder. -/
structure DpopSigner (crypto : Crypto) (S : Signature) where
  publicJwk : PublicP256Jwk crypto
  sign : Bytes → Prog S (Except DpopPortError Bytes)

structure DpopProofBuilder (crypto : Crypto) (S : Signature) where
  signer : DpopSigner crypto S
  clock : Clock S
  proofIds : ProofIdGenerator S

/-- The claims of a proof for a request. -/
def requestClaims (crypto : Crypto) (request : DpopRequest) (issuedAt : I64) (proofId : ProofId) :
    ClaimsWire where
  jti := proofId.asStr
  htm := request.method
  htu := request.target.asStr
  iat := issuedAt
  ath := request.accessToken.map (accessTokenHash crypto)
  nonce := request.nonce.map DpopNonce.asStr

/-- The first two segments of a proof. -/
def signingInput (jwk : PublicP256Jwk crypto) (claims : ClaimsWire) : Bytes :=
  Base64.encode (headerBuild jwk).render ++ byte '.' :: Base64.encode claims.build.render

/-- The check of the signer's output, and the proof. -/
def sealProof (jwk : PublicP256Jwk crypto) (input signature : Bytes) : Except DpopError Bytes :=
  if signature.length ≠ es256SignatureBytes then .error .signerFailure
  else
    match verifyEs256Signature jwk input signature with
    | .error _ => .error .signerFailure
    | .ok () => .ok (input ++ byte '.' :: Base64.encode signature)

def DpopProofBuilder.build {S : Signature} (builder : DpopProofBuilder crypto S)
    (request : DpopRequest) : Prog S (Except DpopError Bytes) := do
  match ← builder.clock.unixSeconds with
  | .error _ => pure (.error .clockUnavailable)
  | .ok issuedAt =>
      if issuedAt.toInt ≤ 0 then pure (.error .clockUnavailable)
      else
        match ← builder.proofIds.generate with
        | .error _ => pure (.error .proofIdUnavailable)
        | .ok proofId =>
            let input := signingInput builder.signer.publicJwk
              (requestClaims crypto request issuedAt proofId)
            match ← builder.signer.sign input with
            | .error _ => pure (.error .signerFailure)
            | .ok signature => pure (sealProof builder.signer.publicJwk input signature)

/-! ## Verification -/

/-- A freshness policy: the two windows fit the signed type of the clock. -/
structure VerificationPolicy where
  maxProofAgeSeconds : Nat
  allowedFutureSkewSeconds : Nat
  age_lt : maxProofAgeSeconds < 2 ^ 63
  skew_lt : allowedFutureSkewSeconds < 2 ^ 63

def VerificationPolicy.new (maxProofAgeSeconds allowedFutureSkewSeconds : Nat) :
    Except DpopError VerificationPolicy :=
  if h : maxProofAgeSeconds < 2 ^ 63 ∧ allowedFutureSkewSeconds < 2 ^ 63 then
    .ok ⟨maxProofAgeSeconds, allowedFutureSkewSeconds, h.1, h.2⟩
  else .error .invalidPolicy

def VerificationPolicy.default : VerificationPolicy := ⟨300, 300, by norm_num, by norm_num⟩

structure VerifiedDpopProof where
  keyThumbprint : JwkThumbprint
  issuedAtUnix : I64
  nonceEnforced : Bool
  replayChecked : Bool
  accessTokenHashVerified : Bool
  deriving DecidableEq

def verifyFreshness (issuedAt now : I64) (policy : VerificationPolicy) : Except DpopError Unit :=
  if issuedAt.toInt ≤ 0 then .error .malformedProof
  else if (policy.maxProofAgeSeconds : Int) < now.toInt - issuedAt.toInt then .error .proofExpired
  else if (policy.allowedFutureSkewSeconds : Int) < issuedAt.toInt - now.toInt then
    .error .proofFromFuture
  else .ok ()

def verifyNonce (presented : Option Bytes) (required : Option DpopNonce) : Except DpopError Unit :=
  match required with
  | none => .ok ()
  | some required =>
      match presented with
      | none => .error .nonceRequired
      | some presented => if presented ≠ required.asStr then .error .nonceMismatch else .ok ()

variable (crypto) in
/-- Whether the hash of the presented token was verified. -/
def verifyAccessTokenHash (presented : Option Bytes) (accessToken : Option Bytes) :
    Except DpopError Bool :=
  match accessToken with
  | none => .ok false
  | some token =>
      match presented with
      | none => .error .accessTokenHashMissing
      | some presented =>
          if presented ≠ accessTokenHash crypto token then .error .accessTokenHashMismatch
          else .ok true

/-- The checks before the clock is read: algorithm, signature, method and target. -/
def verifyBinding (proof : UnverifiedDpopProof crypto) (request : DpopRequest) :
    Except DpopError Unit :=
  if proof.header.typ ≠ ascii "dpop+jwt" then .error .malformedProof
  else if proof.header.alg ≠ ascii "ES256" then .error .unsupportedAlgorithm
  else if proof.signature.length ≠ es256SignatureBytes then .error .invalidSignature
  else do
    verifyEs256Signature proof.publicJwk
      (proof.encodedHeader ++ byte '.' :: proof.encodedPayload) proof.signature
    if proof.claims.htm ≠ request.method then .error .methodMismatch
    else
      match EffectiveRequestTarget.parse proof.claims.htu with
      | .error _ => .error .targetMismatch
      | .ok proofTarget =>
          if proofTarget ≠ request.target then .error .targetMismatch else .ok ()

/-- What the replay store is asked: a key and its expiry. -/
structure ReplayRequest where
  key : ReplayKey
  expiresAtUnix : I64
  deriving DecidableEq

/-- The checks against the time that was read, with the flag of the token hash and the request to
the replay store. -/
def verifyClaims (policy : VerificationPolicy) (proof : UnverifiedDpopProof crypto)
    (request : DpopRequest) (now : I64) : Except DpopError (Bool × ReplayRequest) := do
  verifyFreshness proof.claims.iat now policy
  verifyNonce proof.claims.nonce request.nonce
  let hashVerified ← verifyAccessTokenHash crypto proof.claims.ath request.accessToken
  let key ← deriveReplayKey crypto proof.publicJwk.thumbprint request.method request.target
    proof.claims.jti
  match I64.ofInt? (proof.claims.iat.toInt + policy.maxProofAgeSeconds) with
  | none => .error .invalidPolicy
  | some expiresAtUnix => .ok (hashVerified, ⟨key, expiresAtUnix⟩)

/-- The result after the answer of the replay store. -/
def verifyReplay (proof : UnverifiedDpopProof crypto) (request : DpopRequest) (hashVerified : Bool)
    (answer : Except DpopPortError ReplayStatus) : Except DpopError VerifiedDpopProof :=
  match answer with
  | .error _ => .error .replayStoreUnavailable
  | .ok .replay => .error .replayDetected
  | .ok .fresh =>
      .ok {
        keyThumbprint := proof.publicJwk.thumbprint
        issuedAtUnix := proof.claims.iat
        nonceEnforced := request.nonce.isSome
        replayChecked := true
        accessTokenHashVerified := hashVerified }

/-- The verifier: a clock and a policy. -/
structure DpopVerifier (S : Signature) where
  clock : Clock S
  policy : VerificationPolicy

def DpopVerifier.verify {S : Signature} (verifier : DpopVerifier S)
    (proof : UnverifiedDpopProof crypto) (request : DpopRequest) (replayStore : ReplayStore S) :
    Prog S (Except DpopError VerifiedDpopProof) :=
  match verifyBinding proof request with
  | .error e => pure (.error e)
  | .ok () => do
      match ← verifier.clock.unixSeconds with
      | .error _ => pure (.error .clockUnavailable)
      | .ok now =>
          match verifyClaims verifier.policy proof request now with
          | .error e => pure (.error e)
          | .ok (hashVerified, asked) => do
              let answer ← replayStore.checkAndRecord asked.key asked.expiresAtUnix
              pure (verifyReplay proof request hashVerified answer)

end Operations

end Keylix.Dpop

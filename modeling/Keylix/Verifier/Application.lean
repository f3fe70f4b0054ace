import Keylix.Dpop.State
import Keylix.Dpop.Verification
import Keylix.OAuth.Binding

/-!
# The verifier application

The transport-neutral service of `keylix-verifier`: one request of an authenticated host, checked
against the clock, the nonce state and the replay state of the server. The service is a program over
these three capabilities.

`verify_verified_iff` is the acceptance condition: a request is verified if and only if every
condition of `Accepted` holds.
-/

set_option autoImplicit false

namespace Keylix.Verifier

open Keylix.Lib Keylix.Core Keylix.Dpop Keylix.OAuth
open Keylix.Lib.Prog (exec exec_bind exec_ret)

def verifierProtocolVersion : Nat := 1

/-- A stable failure class. -/
inductive FailureClass where
  | unsupportedVersion
  | malformedRequest
  | invalidProof
  | methodMismatch
  | targetMismatch
  | staleProof
  | futureProof
  | nonceRequired
  | nonceMismatch
  | nonceStateUnavailable
  | replay
  | replayStoreUnavailable
  | tokenHashMismatch
  | tokenBindingMissing
  | tokenBindingMalformed
  | confirmationKeyMismatch
  | tokenIdentityMismatch
  | clockUnavailable
  | internalFailure
  deriving DecidableEq

structure VerifierRequest where
  version : Nat
  method : Bytes
  target : Bytes
  accessToken : Bytes
  dpopProof : Bytes
  confirmationJkt : Option Bytes

structure VerifiedBinding where
  keyThumbprint : Bytes
  proofIssuedAtUnix : I64
  nonceEnforced : Bool
  replayChecked : Bool
  deriving DecidableEq

inductive VerifierResult where
  | verified (version : Nat) (binding : VerifiedBinding)
  | rejected (version : Nat) (failure : FailureClass) (dpopNonce : Option Bytes)
  deriving DecidableEq

namespace VerifierResult

def reject (failure : FailureClass) : VerifierResult :=
  .rejected verifierProtocolVersion failure none

def rejectedWithNonce (failure : FailureClass) (dpopNonce : Option Bytes) : VerifierResult :=
  .rejected verifierProtocolVersion failure dpopNonce

end VerifierResult

inductive NoncePolicy where
  | optional
  | required (context : NonceContext)

def mapDpopError : DpopError → FailureClass
  | .missingProof | .ambiguousProof | .malformedProof | .proofTooLarge | .unsupportedAlgorithm
  | .unsupportedKey | .invalidSignature => .invalidProof
  | .methodMismatch => .methodMismatch
  | .targetMismatch | .invalidRequestTarget => .targetMismatch
  | .proofExpired => .staleProof
  | .proofFromFuture => .futureProof
  | .accessTokenHashMissing | .accessTokenHashMismatch => .tokenHashMismatch
  | .nonceRequired => .nonceRequired
  | .nonceMismatch => .nonceMismatch
  | .replayDetected => .replay
  | .replayStoreUnavailable => .replayStoreUnavailable
  | .clockUnavailable => .clockUnavailable
  | .invalidMethod | .invalidPolicy => .malformedRequest
  | _ => .internalFailure

def mapOauthError : OAuthDpopError → FailureClass
  | .tokenIdentityMismatch => .tokenIdentityMismatch
  | .tokenBindingMissing => .tokenBindingMissing
  | .tokenBindingMalformed => .tokenBindingMalformed
  | .tokenBindingMismatch | .proofKeyContinuityMismatch => .confirmationKeyMismatch
  | .proofNotAccessTokenBound => .tokenHashMismatch
  | .dpop error => mapDpopError error
  | _ => .internalFailure

/-- The service and its capabilities. -/
structure VerifierApplication (S : Signature) where
  clock : Clock S
  replayStore : ReplayStore S
  nonceStore : ServerNonceStore S
  noncePolicy : NoncePolicy
  verificationPolicy : VerificationPolicy

namespace VerifierApplication

variable {S : Signature}

def requiredNonce (app : VerifierApplication S) : Prog S (Except FailureClass (Option DpopNonce)) :=
  match app.noncePolicy with
  | .optional => pure (.ok none)
  | .required context => do
      match ← app.nonceStore.expectedNonce context with
      | .error _ => pure (.error .nonceStateUnavailable)
      | .ok (some nonce) => pure (.ok (some nonce))
      | .ok none =>
          match ← app.nonceStore.issueNonce context with
          | .error _ => pure (.error .nonceStateUnavailable)
          | .ok nonce => pure (.ok (some nonce))

/-- The request that the proof is verified for. -/
def dpopRequest (request : DpopRequest) (accessToken : Bytes) (requiredNonce : Option DpopNonce) :
    DpopRequest :=
  match requiredNonce with
  | none => request.withAccessToken accessToken
  | some nonce => (request.withAccessToken accessToken).withNonce nonce

/-- The rejection of a proof: the nonce is disclosed to a client that has to use it. -/
def rejectProof (error : DpopError) (requiredNonce : Option DpopNonce) : VerifierResult :=
  let failure := mapDpopError error
  .rejectedWithNonce failure
    (if failure = .nonceRequired ∨ failure = .nonceMismatch then
      requiredNonce.map DpopNonce.asHeaderValue
    else none)

variable (crypto : Crypto)

/-- The composition of a verified proof with the token of the request. -/
def composeResult (request : VerifierRequest) (verifiedProof : VerifiedDpopProof) :
    VerifierResult :=
  match HostValidatedToken.fromEquivalentHostValidator crypto request.accessToken
      request.confirmationJkt with
  | .error e => .reject (mapOauthError e)
  | .ok validated =>
      match composeSenderBinding crypto verifiedProof request.accessToken validated with
      | .error e => .reject (mapOauthError e)
      | .ok binding =>
          .verified verifierProtocolVersion {
            keyThumbprint := binding.keyThumbprint.toBase64url
            proofIssuedAtUnix := binding.proofIssuedAtUnix
            nonceEnforced := binding.nonceEnforced
            replayChecked := binding.replayChecked }

variable (json : JsonText)

/-- The checks after the nonce of the server is known. -/
def verifyWithNonce (app : VerifierApplication S) (request : VerifierRequest)
    (target : EffectiveRequestTarget) (requiredNonce : Option DpopNonce) : Prog S VerifierResult :=
  match DpopRequest.new request.method target with
  | .error e => pure (.reject (mapDpopError e))
  | .ok value =>
      match parseDpopHeaderValues crypto json [request.dpopProof] with
      | .error e => pure (.reject (mapDpopError e))
      | .ok proof => do
          let dpopVerifier : DpopVerifier S := ⟨app.clock, app.verificationPolicy⟩
          match ← dpopVerifier.verify proof (dpopRequest value request.accessToken requiredNonce)
              app.replayStore with
          | .error e => pure (rejectProof e requiredNonce)
          | .ok verifiedProof => pure (composeResult crypto request verifiedProof)

def verify (app : VerifierApplication S) (request : VerifierRequest) : Prog S VerifierResult :=
  if request.version ≠ verifierProtocolVersion then pure (.reject .unsupportedVersion)
  else if request.accessToken.isEmpty || request.dpopProof.isEmpty then
    pure (.reject .malformedRequest)
  else
    match EffectiveRequestTarget.parse request.target with
    | .error e => pure (.reject (mapDpopError e))
    | .ok target => do
        match ← app.requiredNonce with
        | .error failure => pure (.reject failure)
        | .ok requiredNonce => verifyWithNonce crypto json app request target requiredNonce

/-! ## Acceptance -/

section Acceptance

variable {σ : Type} (h : (op : S.Op) → σ → S.Res op × σ)

/-- The nonce store supplies a nonce for a context: the expected one, or a new one when none is
expected. -/
def Supplies (store : ServerNonceStore S) (context : NonceContext) (s : σ) (nonce : DpopNonce) :
    Prop :=
  (exec h (store.expectedNonce context) s).1 = .ok (some nonce) ∨
    ((exec h (store.expectedNonce context) s).1 = .ok none ∧
      (exec h (store.issueNonce context) (exec h (store.expectedNonce context) s).2).1 = .ok nonce)

theorem exec_requiredNonce_eq_ok_iff (app : VerifierApplication S) (s : σ)
    (nonce : Option DpopNonce) :
    (exec h app.requiredNonce s).1 = .ok nonce ↔
      (app.noncePolicy = .optional ∧ nonce = none) ∨
        ∃ context value, app.noncePolicy = .required context ∧ nonce = some value ∧
          Supplies h app.nonceStore context s value := by
  unfold requiredNonce
  cases hpolicy : app.noncePolicy with
  | optional => simp [eq_comm]
  | required context =>
    simp only [reduceCtorEq, false_and, NoncePolicy.required.injEq, false_or, exec_bind, Supplies]
    cases hexpected : (exec h (app.nonceStore.expectedNonce context) s).1 with
    | error e => simp [hexpected]
    | ok found =>
      cases found with
      | some value => simp [hexpected, eq_comm]
      | none =>
        simp only [exec_bind]
        cases hissued : (exec h (app.nonceStore.issueNonce context)
            (exec h (app.nonceStore.expectedNonce context) s).2).1 with
        | error e => simp [hexpected, hissued]
        | ok value => simp [hexpected, hissued, eq_comm]

/-- A verified proof becomes a result if and only if its token hash was verified and the host
confirmed its key. -/
theorem composeResult_verified_iff (request : VerifierRequest) (v : VerifiedDpopProof) :
    (∃ version binding, composeResult crypto request v = .verified version binding) ↔
      v.accessTokenHashVerified = true ∧
        request.confirmationJkt = some v.keyThumbprint.toBase64url := by
  unfold composeResult
  constructor
  · rintro ⟨version, binding, hresult⟩
    split at hresult
    · cases hresult
    next validated hnew =>
    split at hresult
    · cases hresult
    next composed hcompose =>
    obtain ⟨-, hjkt⟩ := HostValidatedToken.new_eq_ok hnew
    obtain ⟨hverified, -, hconf, -⟩ := composeSenderBinding_eq_ok_iff.1 hcompose
    refine ⟨hverified, ?_⟩
    rw [hjkt, hconf]
    rfl
  · rintro ⟨hverified, hjkt⟩
    have hparse : parseJkt v.keyThumbprint.toBase64url = .ok v.keyThumbprint.bytes :=
      parseJkt_eq_ok_iff.2 rfl
    have hnew : HostValidatedToken.fromEquivalentHostValidator crypto request.accessToken
        request.confirmationJkt = .ok ⟨.fromTokenBytes crypto request.accessToken,
          some v.keyThumbprint.bytes, .equivalentHostValidator⟩ := by
      rw [hjkt, HostValidatedToken.fromEquivalentHostValidator, HostValidatedToken.new]
      simp only [hparse, Except.map]
    have hcompose : composeSenderBinding crypto v request.accessToken
        ⟨.fromTokenBytes crypto request.accessToken, some v.keyThumbprint.bytes,
          .equivalentHostValidator⟩ = .ok ⟨v.keyThumbprint, .equivalentHostValidator,
            v.issuedAtUnix, v.nonceEnforced, v.replayChecked⟩ :=
      composeSenderBinding_eq_ok_iff.2 ⟨hverified, rfl, rfl, rfl⟩
    simp only [hnew, hcompose]
    exact ⟨_, _, rfl⟩

theorem dpopRequest_eq {method : Bytes} {target : EffectiveRequestTarget} {value : DpopRequest}
    (accessToken : Bytes) (nonce : Option DpopNonce)
    (hnew : DpopRequest.new method target = .ok value) :
    (dpopRequest value accessToken nonce).method = method ∧
      (dpopRequest value accessToken nonce).target = target ∧
      (dpopRequest value accessToken nonce).accessToken = some accessToken ∧
      (dpopRequest value accessToken nonce).nonce = nonce := by
  unfold DpopRequest.new at hnew
  split at hnew
  · cases hnew
    cases nonce with
    | none => exact ⟨rfl, rfl, rfl, rfl⟩
    | some nonce => exact ⟨rfl, rfl, rfl, rfl⟩
  · cases hnew

theorem parseDpopHeaderValues_single_iff {input : Bytes} {proof : UnverifiedDpopProof crypto} :
    parseDpopHeaderValues crypto json [input] = .ok proof ↔
      byte ',' ∉ input ∧ UnverifiedDpopProof.parse crypto json input = .ok proof := by
  simp only [parseDpopHeaderValues]
  split
  · next hcomma =>
    rw [List.contains_iff_mem] at hcomma
    simp [hcomma]
  · next hcomma =>
    rw [List.contains_iff_mem] at hcomma
    simp [hcomma]

/-- After the nonce is known: the method and the proof are well formed, the proof is verified, and
the host confirmed its key. -/
theorem verifyWithNonce_verified_iff (app : VerifierApplication S) (request : VerifierRequest)
    (target : EffectiveRequestTarget) (nonce : Option DpopNonce) (s : σ) :
    (∃ version binding, (exec h (verifyWithNonce crypto json app request target nonce) s).1 =
        .verified version binding) ↔
      ∃ value proof v, DpopRequest.new request.method target = .ok value ∧
        byte ',' ∉ request.dpopProof ∧
        UnverifiedDpopProof.parse crypto json request.dpopProof = .ok proof ∧
        (exec h (DpopVerifier.verify ⟨app.clock, app.verificationPolicy⟩ proof
          (dpopRequest value request.accessToken nonce) app.replayStore) s).1 = .ok v ∧
        v.accessTokenHashVerified = true ∧
        request.confirmationJkt = some v.keyThumbprint.toBase64url := by
  unfold verifyWithNonce
  cases hnew : DpopRequest.new request.method target with
  | error e => simp [VerifierResult.reject]
  | ok value =>
    cases hproof : parseDpopHeaderValues crypto json [request.dpopProof] with
    | error e =>
      refine iff_of_false (by simp [VerifierResult.reject]) ?_
      rintro ⟨_, proof, _, _, hcomma, hparse, _⟩
      rw [parseDpopHeaderValues_single_iff crypto json |>.2 ⟨hcomma, hparse⟩] at hproof
      cases hproof
    | ok proof =>
      obtain ⟨hcomma, hparse⟩ := (parseDpopHeaderValues_single_iff crypto json).1 hproof
      simp only [exec_bind]
      cases hv : (exec h (DpopVerifier.verify ⟨app.clock, app.verificationPolicy⟩ proof
          (dpopRequest value request.accessToken nonce) app.replayStore) s).1 with
      | error e => simp [hparse, hv, rejectProof, VerifierResult.rejectedWithNonce]
      | ok v =>
        simp only [Prog.pure_eq, exec_ret, composeResult_verified_iff]
        simp [hcomma, hparse, hv]

variable {crypto} in
/-- Every condition under which a request is verified: `p` is its proof, `t` its target and `now`
the time that the verifier reads. -/
structure Accepted (app : VerifierApplication S) (request : VerifierRequest) (s : σ)
    (p : UnverifiedDpopProof crypto) (t : EffectiveRequestTarget) (now : I64) : Prop where
  version : request.version = 1
  accessToken : request.accessToken ≠ []
  dpopProof : request.dpopProof ≠ []
  noComma : byte ',' ∉ request.dpopProof
  parsed : UnverifiedDpopProof.parse crypto json request.dpopProof = .ok p
  typ : p.header.typ = ascii "dpop+jwt"
  alg : p.header.alg = ascii "ES256"
  /-- The first two segments are the literal text of the proof. -/
  segments : ∃ encodedSignature, request.dpopProof =
      p.encodedHeader ++ byte '.' :: (p.encodedPayload ++ byte '.' :: encodedSignature) ∧
    Base64.decode encodedSignature = some p.signature
  signature : SignatureValid p.publicJwk (p.encodedHeader ++ byte '.' :: p.encodedPayload)
    p.signature
  method : request.method ≠ [] ∧ request.method.length ≤ 64 ∧
    ∀ b ∈ request.method, isHttpTokenByte b = true
  htm : p.claims.htm = request.method
  target : EffectiveRequestTarget.parse request.target = .ok t
  htu : EffectiveRequestTarget.parse p.claims.htu = .ok t
  clock : (exec h app.clock.unixSeconds (exec h app.requiredNonce s).2).1 = .ok now
  notFuture : -(app.verificationPolicy.allowedFutureSkewSeconds : Int) ≤
    now.toInt - p.claims.iat.toInt
  notExpired : now.toInt - p.claims.iat.toInt ≤ app.verificationPolicy.maxProofAgeSeconds
  expiryFits : p.claims.iat.toInt + app.verificationPolicy.maxProofAgeSeconds < 2 ^ 63
  nonce : ∀ context, app.noncePolicy = .required context →
    ∃ value, Supplies h app.nonceStore context s value ∧ p.claims.nonce = some value.asStr
  ath : p.claims.ath = some (Base64.encode (crypto.sha256 request.accessToken).1)
  /-- The confirmation is the canonical text of the thumbprint of the proof's key. -/
  confirmation : request.confirmationJkt = some (Base64.encode p.publicJwk.thumbprint.bytes.1)
  fresh : ∀ key expires, deriveReplayKey crypto p.publicJwk.thumbprint request.method t
      p.claims.jti = .ok key →
    expires.toInt = p.claims.iat.toInt + app.verificationPolicy.maxProofAgeSeconds →
    (exec h (app.replayStore.checkAndRecord key expires)
      (exec h app.clock.unixSeconds (exec h app.requiredNonce s).2).2).1 = .ok .fresh

/-- The whole of `verify`: the checks of the request, the nonce of the server, the rest. -/
theorem exec_verify_verified_iff (app : VerifierApplication S) (request : VerifierRequest) (s : σ) :
    (∃ version binding, (exec h (app.verify crypto json request) s).1 =
        .verified version binding) ↔
      request.version = 1 ∧ request.accessToken ≠ [] ∧ request.dpopProof ≠ [] ∧
        ∃ target nonce, EffectiveRequestTarget.parse request.target = .ok target ∧
          (exec h app.requiredNonce s).1 = .ok nonce ∧
          ∃ version binding, (exec h (verifyWithNonce crypto json app request target nonce)
            (exec h app.requiredNonce s).2).1 = .verified version binding := by
  unfold verify
  -- the checks of the request, in the order of the code: each one that fails is a conjunct that
  -- fails
  split
  · next hversion =>
    refine iff_of_false (by simp [VerifierResult.reject]) ?_
    rintro ⟨h₁, -⟩
    exact hversion h₁
  next hversion =>
  rw [not_not] at hversion
  split
  · next hempty =>
    refine iff_of_false (by simp [VerifierResult.reject]) ?_
    rintro ⟨-, htoken, hproof, -⟩
    simp only [Bool.or_eq_true, List.isEmpty_iff] at hempty
    rcases hempty with he | he
    · exact htoken he
    · exact hproof he
  next hempty =>
  simp only [Bool.or_eq_true, List.isEmpty_iff, not_or] at hempty
  cases htarget : EffectiveRequestTarget.parse request.target with
  | error e => simp [VerifierResult.reject]
  | ok target =>
    -- the nonce may be issued here, so that the rest runs from the state after it
    simp only [exec_bind]
    cases hnonce : (exec h app.requiredNonce s).1 with
    | error e => simp [VerifierResult.reject]
    | ok nonce =>
      have hone : request.version = 1 := hversion
      simp [hone, hempty]

theorem exists_new {method : Bytes} (target : EffectiveRequestTarget)
    (hne : method ≠ []) (hlen : method.length ≤ maxMethodBytes)
    (hbytes : ∀ b ∈ method, isHttpTokenByte b = true) :
    ∃ value, DpopRequest.new method target = .ok value := by
  have hvalid : validateMethod method = .ok () := by
    rw [validateMethod, if_neg]
    simp only [Bool.or_eq_true, List.isEmpty_iff, decide_eq_true_eq, Bool.not_eq_true',
      not_or, not_lt, Bool.not_eq_false, List.all_eq_true]
    exact ⟨⟨hne, hlen⟩, hbytes⟩
  unfold DpopRequest.new
  split
  · exact ⟨_, rfl⟩
  · next e he =>
    rw [hvalid] at he
    cases he

theorem accepted_of_verified (app : VerifierApplication S) (request : VerifierRequest) (s : σ)
    (hv : ∃ version binding, (exec h (app.verify crypto json request) s).1 =
      .verified version binding) :
    ∃ (p : UnverifiedDpopProof crypto) (t : EffectiveRequestTarget) (now : I64),
      Accepted json h app request s p t now := by
  obtain ⟨hversion, htoken, hproof, t, nonce, htarget, hnonce, hverified⟩ :=
    (exec_verify_verified_iff crypto json h app request s).1 hv
  obtain ⟨value, p, v, hnew, hcomma, hparse, hv, -, hjkt⟩ :=
    (verifyWithNonce_verified_iff crypto json h app request t nonce _).1 hverified
  obtain ⟨hmethod, htarget', htoken', hnonce'⟩ := dpopRequest_eq request.accessToken nonce hnew
  obtain ⟨hbind, now, asked, hnow, hclaims, hfresh, rfl⟩ :=
    (exec_verify_eq_ok_iff h _ p _ app.replayStore _ v).1 hv
  -- the method and the target of the built request are those of the request that was received
  have hspec := method_spec (dpopRequest value request.accessToken nonce)
  rw [hmethod] at hspec
  refine ⟨p, t, now, ?_⟩
  exact {
    version := hversion
    accessToken := htoken
    dpopProof := hproof
    noComma := hcomma
    parsed := hparse
    typ := hbind.typ
    alg := hbind.alg
    segments := (parse_eq_ok hparse).segments
    signature := hbind.signature
    method := hspec
    htm := by rw [hbind.method, hmethod]
    target := htarget
    htu := by rw [hbind.target, htarget']
    clock := hnow
    notFuture := hclaims.notFuture
    notExpired := hclaims.notExpired
    expiryFits := hclaims.expires ▸ asked.expiresAtUnix.upper
    nonce := by
      intro context hcontext
      -- a nonce is required under the policy of the context alone
      rcases (exec_requiredNonce_eq_ok_iff h app s nonce).1 hnonce with
        ⟨hoptional, -⟩ | ⟨context', n, hpolicy, rfl, hsupplied⟩
      · rw [hoptional] at hcontext
        cases hcontext
      · rw [hpolicy] at hcontext
        cases hcontext
        exact ⟨n, hsupplied, hclaims.nonce n hnonce'⟩
    ath := hclaims.token request.accessToken htoken'
    confirmation := hjkt
    fresh := by
      intro key expires hkey hexpires
      have hkey' := hclaims.key
      rw [hmethod, htarget', hkey] at hkey'
      -- the key and the expiry that were asked for are the only ones
      have hexpires' : expires = asked.expiresAtUnix :=
        I64.ext_toInt (by rw [hexpires, hclaims.expires])
      rw [hexpires', Except.ok.inj hkey']
      exact hfresh }

theorem verified_of_accepted (app : VerifierApplication S) (request : VerifierRequest) (s : σ)
    {p : UnverifiedDpopProof crypto} {t : EffectiveRequestTarget} {now : I64}
    (ha : Accepted json h app request s p t now) :
    ∃ version binding, (exec h (app.verify crypto json request) s).1 =
      .verified version binding := by
  rw [exec_verify_verified_iff]
  -- the nonce that the verifier compares with: none, or the one the store supplies
  obtain ⟨nonce, hnonce, haccepted⟩ : ∃ nonce, (exec h app.requiredNonce s).1 = .ok nonce ∧
      NonceAccepted p.claims.nonce nonce := by
    cases hpolicy : app.noncePolicy with
    | optional =>
      refine ⟨none, (exec_requiredNonce_eq_ok_iff h app s none).2 (Or.inl ⟨hpolicy, rfl⟩), ?_⟩
      intro n hn
      cases hn
    | required context =>
      obtain ⟨n, hsupplied, hclaim⟩ := ha.nonce context hpolicy
      refine ⟨some n, (exec_requiredNonce_eq_ok_iff h app s _).2
        (Or.inr ⟨context, n, hpolicy, rfl, hsupplied⟩), ?_⟩
      intro n' hn'
      cases hn'
      exact hclaim
  obtain ⟨value, hnew⟩ := exists_new t ha.method.1 ha.method.2.1 ha.method.2.2
  obtain ⟨hmethod, htarget', htoken', hnonce'⟩ := dpopRequest_eq request.accessToken nonce hnew
  have hspec := parse_eq_ok ha.parsed
  obtain ⟨key, hkey⟩ := deriveReplayKey_ok p.publicJwk.thumbprint
    (dpopRequest value request.accessToken nonce)
    (Nat.lt_of_le_of_lt hspec.jti (by decide) : p.claims.jti.length < 2 ^ 64)
  have hpos := hspec.issuedAt
  have hlow : -2 ^ 63 ≤ p.claims.iat.toInt + (app.verificationPolicy.maxProofAgeSeconds : Int) := by
    omega
  have hkey' := hkey
  rw [hmethod, htarget'] at hkey'
  have hclaims : ClaimsAccepted app.verificationPolicy p
      (dpopRequest value request.accessToken nonce) now ⟨key, ⟨_, hlow, ha.expiryFits⟩⟩ := by
    refine ⟨hpos, ha.notFuture, ha.notExpired, ?_, ?_, hkey, rfl⟩
    · rw [hnonce']
      exact haccepted
    · intro token htoken
      rw [htoken'] at htoken
      cases htoken
      exact ha.ath
  have hbind : BindingAccepted p (dpopRequest value request.accessToken nonce) :=
    ⟨ha.typ, ha.alg, ha.signature, by rw [ha.htm, hmethod], by rw [ha.htu, htarget']⟩
  have hverify := (exec_verify_eq_ok_iff h ⟨app.clock, app.verificationPolicy⟩ p
    (dpopRequest value request.accessToken nonce) app.replayStore (exec h app.requiredNonce s).2
    _).2 ⟨hbind, now, _, ha.clock, hclaims, ha.fresh key _ hkey' rfl, rfl⟩
  refine ⟨ha.version, ha.accessToken, ha.dpopProof, t, nonce, ha.target, hnonce, ?_⟩
  refine (verifyWithNonce_verified_iff crypto json h app request t nonce _).2
    ⟨value, p, _, hnew, ha.noComma, ha.parsed, hverify, ?_, ha.confirmation⟩
  rw [htoken']
  rfl

/-- **A request is verified if and only if every condition holds.** -/
theorem verify_verified_iff (app : VerifierApplication S) (request : VerifierRequest) (s : σ) :
    (∃ version binding, (exec h (app.verify crypto json request) s).1 =
        .verified version binding) ↔
      ∃ (p : UnverifiedDpopProof crypto) (t : EffectiveRequestTarget) (now : I64),
        Accepted json h app request s p t now := by
  constructor
  · exact accepted_of_verified crypto json h app request s
  · rintro ⟨p, t, now, ha⟩
    exact verified_of_accepted crypto json h app request s ha

end Acceptance

end VerifierApplication

end Keylix.Verifier

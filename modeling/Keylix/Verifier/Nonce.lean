import Keylix.Dpop.Agreement
import Keylix.Verifier.Application

/-!
# Results and nonces

What the result of a request says about the nonce that the request was checked against, whatever the
capabilities of the service answer: a verified request carried the nonce, and a rejection discloses
no other one (`returns_verifyWithNonce`). Of all failures, only the comparison of the nonces is a
nonce mismatch.
-/

set_option autoImplicit false

namespace Keylix.Verifier

open Keylix.Lib Keylix.Core Keylix.Dpop Keylix.OAuth
open Keylix.Lib.Prog (Returns)

section Results

variable {crypto : Crypto}

/-- The claims fail with a nonce mismatch only if the nonce is not accepted. -/
theorem not_nonceAccepted_of_verifyClaims {policy : VerificationPolicy}
    {proof : UnverifiedDpopProof crypto} {request : DpopRequest} {now : I64}
    (h : verifyClaims policy proof request now = .error .nonceMismatch) :
    ¬ NonceAccepted proof.claims.nonce request.nonce := by
  rcases verifyClaims_error h with hstate | hnonce
  · cases hstate
  · intro haccepted
    rw [verifyNonce_eq_ok_iff.2 haccepted] at hnonce
    cases hnonce

/-- What the verifier decides about the nonce, whatever its capabilities answer. -/
theorem returns_verify {S : Signature} (verifier : DpopVerifier S)
    (proof : UnverifiedDpopProof crypto) (request : DpopRequest) (store : ReplayStore S) :
    Returns (fun r =>
      (∀ v, r = .ok v → v.nonceEnforced = request.nonce.isSome ∧
        NonceAccepted proof.claims.nonce request.nonce) ∧
      (r = .error .nonceMismatch → ¬ NonceAccepted proof.claims.nonce request.nonce))
      (verifier.verify proof request store) := by
  unfold DpopVerifier.verify
  cases hbind : verifyBinding proof request with
  | error e =>
    refine ⟨(fun v hv => nomatch hv), ?_⟩
    intro he
    cases he
    exact nomatch verifyBinding_error hbind
  | ok u =>
    refine Returns.bind (Prog.returns_true _) ?_
    intro time _
    cases time with
    | error e => exact ⟨(fun v hv => nomatch hv), (fun h => nomatch h)⟩
    | ok now =>
      simp only
      cases hclaims : verifyClaims verifier.policy proof request now with
      | error e =>
        refine ⟨(fun v hv => nomatch hv), ?_⟩
        intro he
        cases he
        exact not_nonceAccepted_of_verifyClaims hclaims
      | ok r =>
        obtain ⟨verified, asked⟩ := r
        have haccepted := (verifyClaims_eq_ok_iff.1 hclaims).1.nonce
        refine Returns.bind (Prog.returns_true _) ?_
        intro answer _
        refine ⟨?_, ?_⟩
        · intro v hv
          obtain ⟨-, rfl⟩ := verifyReplay_eq_ok_iff.1 hv
          exact ⟨rfl, haccepted⟩
        · intro h
          cases answer with
          | error e => cases h
          | ok status => cases status <;> cases h

variable (crypto) (json : JsonText)

/-- What a result says about the nonce that the request was checked against. -/
structure EnforcesNonce (request : VerifierRequest) (nonce : Option DpopNonce)
    (result : VerifierResult) : Prop where
  verified : ∀ version binding, result = .verified version binding →
    binding.nonceEnforced = nonce.isSome ∧
      ∃ proof, UnverifiedDpopProof.parse crypto json request.dpopProof = .ok proof ∧
        NonceAccepted proof.claims.nonce nonce
  disclosed : ∀ version failure value, result = .rejected version failure (some value) →
    (failure = .nonceRequired ∨ failure = .nonceMismatch) ∧
      nonce.map DpopNonce.asHeaderValue = some value
  mismatch : ∀ version value, result = .rejected version .nonceMismatch value →
    ∃ proof, UnverifiedDpopProof.parse crypto json request.dpopProof = .ok proof ∧
      ¬ NonceAccepted proof.claims.nonce nonce

variable {crypto json}

/-- A rejection that names no nonce and no mismatch. -/
theorem enforcesNonce_reject {request : VerifierRequest} {nonce : Option DpopNonce}
    {failure : FailureClass} (h : failure ≠ .nonceMismatch) :
    EnforcesNonce crypto json request nonce (.reject failure) where
  verified := fun version binding hr => nomatch hr
  disclosed := fun version failure value hr => nomatch hr
  mismatch := by
    intro version value hr
    cases hr
    exact absurd rfl h

theorem mapDpopError_eq_nonceMismatch {e : DpopError} :
    mapDpopError e = .nonceMismatch ↔ e = .nonceMismatch := by
  cases e <;> simp [mapDpopError]

theorem mapOauthError_eq_nonceMismatch {e : OAuthDpopError} :
    mapOauthError e = .nonceMismatch ↔ e = .dpop .nonceMismatch := by
  cases e <;> simp [mapOauthError, mapDpopError_eq_nonceMismatch]

/-- The composition with the token fails for other reasons. -/
theorem enforcesNonce_composeResult {request : VerifierRequest} {nonce : Option DpopNonce}
    {proof : UnverifiedDpopProof crypto} {v : VerifiedDpopProof}
    (hproof : UnverifiedDpopProof.parse crypto json request.dpopProof = .ok proof)
    (henforced : v.nonceEnforced = nonce.isSome)
    (haccepted : NonceAccepted proof.claims.nonce nonce) :
    EnforcesNonce crypto json request nonce
      (VerifierApplication.composeResult crypto request v) := by
  unfold VerifierApplication.composeResult
  split
  · next e he =>
    refine enforcesNonce_reject fun hmismatch => ?_
    exact HostValidatedToken.new_error he _ (mapOauthError_eq_nonceMismatch.1 hmismatch)
  · next validated hnew =>
    split
    · next e he =>
      refine enforcesNonce_reject fun hmismatch => ?_
      exact composeSenderBinding_error he _ (mapOauthError_eq_nonceMismatch.1 hmismatch)
    · next binding hcompose =>
      obtain ⟨-, -, -, rfl⟩ := composeSenderBinding_eq_ok_iff.1 hcompose
      refine ⟨?_, (fun version failure value hr => nomatch hr),
        (fun version value hr => nomatch hr)⟩
      intro version binding hr
      cases hr
      exact ⟨henforced, proof, hproof, haccepted⟩

/-- **Whatever the capabilities answer, the result enforces the nonce that the request was checked
against.** -/
theorem returns_verifyWithNonce {S : Signature} (app : VerifierApplication S)
    (request : VerifierRequest) (target : EffectiveRequestTarget) (nonce : Option DpopNonce) :
    Returns (EnforcesNonce crypto json request nonce)
      (VerifierApplication.verifyWithNonce crypto json app request target nonce) := by
  unfold VerifierApplication.verifyWithNonce
  cases hnew : DpopRequest.new request.method target with
  | error e =>
    refine enforcesNonce_reject fun he => ?_
    rw [mapDpopError_eq_nonceMismatch.1 he] at hnew
    exact nomatch new_error hnew
  | ok value =>
    simp only
    obtain ⟨-, -, -, hnonce⟩ := VerifierApplication.dpopRequest_eq request.accessToken nonce hnew
    cases hheader : parseDpopHeaderValues crypto json [request.dpopProof] with
    | error e =>
      refine enforcesNonce_reject fun he => ?_
      rw [mapDpopError_eq_nonceMismatch.1 he] at hheader
      exact nomatch parseDpopHeaderValues_error hheader
    | ok proof =>
      have hparse :=
        ((VerifierApplication.parseDpopHeaderValues_single_iff crypto json).1 hheader).2
      refine Returns.bind (returns_verify _ proof _ app.replayStore) ?_
      rw [hnonce]
      rintro r ⟨hok, hmismatch⟩
      cases r with
      | ok v =>
        obtain ⟨henforced, haccepted⟩ := hok v rfl
        exact enforcesNonce_composeResult hparse henforced haccepted
      | error e =>
        refine ⟨(fun version binding hr => nomatch hr), ?_, ?_⟩
        · intro version failure disclosed hr
          unfold VerifierApplication.rejectProof VerifierResult.rejectedWithNonce at hr
          simp only [VerifierResult.rejected.injEq] at hr
          obtain ⟨-, rfl, hr⟩ := hr
          split at hr
          · next hfailure => exact ⟨hfailure, hr⟩
          · cases hr
        · intro version disclosed hr
          unfold VerifierApplication.rejectProof VerifierResult.rejectedWithNonce at hr
          simp only [VerifierResult.rejected.injEq] at hr
          rw [mapDpopError_eq_nonceMismatch.1 hr.2.1] at hmismatch
          exact ⟨proof, hparse, hmismatch rfl⟩

end Results

/-! ## Concrete requests -/

section Concrete

/-- The request that the proof of `signedRequest` is made for. -/
def sampleDpopRequest (nonce : Option DpopNonce) : DpopRequest where
  method := ascii "GET"
  target := sampleTarget
  accessToken := some (ascii "token")
  nonce := nonce
  validMethod := sampleRequest.validMethod

section Signed

variable {crypto : Crypto} (jwk : PublicP256Jwk crypto) (signature : Bytes)

/-- The claims of a sample proof. -/
def signedClaims (crypto : Crypto) (nonce : Option DpopNonce) : ClaimsWire :=
  requestClaims crypto (sampleDpopRequest nonce) sampleTime sampleProofId

def signedProof (nonce : Option DpopNonce) : UnverifiedDpopProof crypto :=
  parsedProof jwk (signedClaims crypto nonce) signature

/-- A request with a proof that carries a nonce or none, confirmed by the host or not. -/
def signedRequest (nonce : Option DpopNonce) (jkt : Option Bytes) : VerifierRequest where
  version := 1
  method := ascii "GET"
  target := ascii "https://a/"
  accessToken := ascii "token"
  dpopProof := compactProof jwk (signedClaims crypto nonce) signature
  confirmationJkt := jkt

end Signed

def sampleParsed (nonce : Option DpopNonce) : UnverifiedDpopProof permissiveCrypto :=
  signedProof sampleJwk (List.replicate 64 0) nonce

def sampleVerifierRequest (nonce : Option DpopNonce) (jkt : Option Bytes) : VerifierRequest :=
  signedRequest sampleJwk (List.replicate 64 0) nonce jkt

/-- The confirmation of the key of the proof. -/
def sampleJkt : Bytes := sampleJwk.thumbprint.toBase64url

/-- The nonce fits the limits of the parser together with the other claims. -/
def ShortNonce (nonce : Option DpopNonce) : Prop :=
  (nonce.elim 0 fun nonce => Json.escapedLength nonce.asStr) ≤ 1024

theorem shortNonce_none : ShortNonce none := Nat.zero_le _

def sampleServerContext : NonceContext := sampleContext .resourceServer

def firstNonce : DpopNonce := sampleNonce

theorem shortNonce_first : ShortNonce (some firstNonce) := by
  unfold ShortNonce
  decide +kernel

theorem parse_sampleTarget : EffectiveRequestTarget.parse (ascii "https://a/") = .ok sampleTarget :=
  EffectiveRequestTarget.parse_eq_ok_iff.2 (by decide +kernel)

theorem length_sampleTarget : sampleTarget.asStr.length ≤ 2048 := by decide +kernel

theorem fits_sample {nonce : Option DpopNonce} (h : ShortNonce nonce) :
    FitsLimits (sampleDpopRequest nonce) sampleTime sampleProofId := by
  have hlen : 35 + Json.escapedLength sampleProofId.asStr + (ascii "GET").length +
      Json.escapedLength sampleTarget.asStr + (decimalInt sampleTime.toInt).length + 52 ≤ 1000 := by
    decide +kernel
  refine ⟨length_sampleTarget, ?_⟩
  show 35 + Json.escapedLength sampleProofId.asStr + (ascii "GET").length +
      Json.escapedLength sampleTarget.asStr + (decimalInt sampleTime.toInt).length + 52 +
      (nonce.elim 0 fun nonce => Json.escapedLength nonce.asStr + 11) ≤ 4096
  unfold ShortNonce at h
  cases nonce with
  | none =>
    simp only [Option.elim] at h ⊢
    omega
  | some nonce =>
    simp only [Option.elim] at h ⊢
    omega

section Signed

variable {crypto : Crypto} {jwk : PublicP256Jwk crypto} {signature : Bytes}

theorem header_signed (json : JsonText) (hsig : signature.length = es256SignatureBytes)
    {nonce : Option DpopNonce} (h : ShortNonce nonce) (jkt : Option Bytes) :
    parseDpopHeaderValues crypto json [(signedRequest jwk signature nonce jkt).dpopProof] =
      .ok (signedProof jwk signature nonce) := by
  have hcomma : byte ',' ∉ (signedRequest jwk signature nonce jkt).dpopProof := by
    have hnot : ∀ b, byte ',' ∉ Base64.encode b := fun b => Base64.not_mem_encode (by decide)
    have hdot : byte ',' ≠ byte '.' := by decide
    simp [signedRequest, compactProof, signingInput, hnot, hdot]
  refine (VerifierApplication.parseDpopHeaderValues_single_iff crypto json).2 ⟨hcomma, ?_⟩
  exact (parse_requestProof_iff json jwk (sampleDpopRequest nonce) sampleTime_pos
    sampleProofId hsig).2 ⟨fits_sample h, rfl⟩

theorem binding_signed {nonce : Option DpopNonce}
    (hsig : SignatureValid jwk (signingInput jwk (signedClaims crypto nonce)) signature)
    (required : Option DpopNonce) :
    verifyBinding (signedProof jwk signature nonce) (sampleDpopRequest required) = .ok () := by
  refine verifyBinding_eq_ok_iff.2 ⟨rfl, rfl, hsig, rfl, ?_⟩
  exact EffectiveRequestTarget.parse_asStr length_sampleTarget

end Signed

theorem header_sample (json : JsonText) {nonce : Option DpopNonce} (h : ShortNonce nonce)
    (jkt : Option Bytes) :
    parseDpopHeaderValues permissiveCrypto json [(sampleVerifierRequest nonce jkt).dpopProof] =
      .ok (sampleParsed nonce) :=
  header_signed json List.length_replicate h jkt

theorem binding_sample (nonce : Option DpopNonce) (required : Option DpopNonce) :
    verifyBinding (sampleParsed nonce) (sampleDpopRequest required) = .ok () :=
  binding_signed ⟨List.length_replicate, (), rfl, rfl⟩ required

theorem freshness_sample : verifyFreshness sampleTime sampleTime .default = .ok () := by
  decide +kernel

theorem claims_nonceRequired (required : DpopNonce) :
    verifyClaims .default (sampleParsed none) (sampleDpopRequest (some required)) sampleTime =
      .error .nonceRequired := by
  show (verifyFreshness sampleTime sampleTime .default >>= fun _ => _) = _
  rw [freshness_sample]
  rfl

theorem claims_nonceMismatch {nonce required : DpopNonce} (h : nonce.asStr ≠ required.asStr) :
    verifyClaims .default (sampleParsed (some nonce)) (sampleDpopRequest (some required))
      sampleTime = .error .nonceMismatch := by
  show (verifyFreshness sampleTime sampleTime .default >>= fun _ =>
    (if nonce.asStr ≠ required.asStr then .error .nonceMismatch else .ok () :
      Except DpopError Unit) >>= fun _ => _) = _
  rw [freshness_sample, if_pos h]
  rfl

/-- The claims are accepted with the nonce that they carry, or when none is required. -/
theorem claims_signed {crypto : Crypto} (jwk : PublicP256Jwk crypto) (signature : Bytes)
    {nonce required : Option DpopNonce} (h : NonceAccepted (nonce.map DpopNonce.asStr) required) :
    ∃ asked, verifyClaims .default (signedProof jwk signature nonce) (sampleDpopRequest required)
      sampleTime = .ok (true, asked) := by
  have hderived : ∃ key, deriveReplayKey crypto jwk.thumbprint
      (sampleDpopRequest required).method (sampleDpopRequest required).target sampleProofId.asStr =
        .ok key :=
    deriveReplayKey_ok jwk.thumbprint (sampleDpopRequest required) (by decide)
  obtain ⟨key, hkey⟩ := hderived
  have hclaims : ClaimsAccepted .default (signedProof jwk signature nonce)
      (sampleDpopRequest required) sampleTime
      ⟨key, ⟨1300, by norm_num, by norm_num⟩⟩ := by
    refine ⟨sampleTime_pos, show -(300 : Int) ≤ 1000 - 1000 by norm_num,
      show (1000 : Int) - 1000 ≤ 300 by norm_num, h, ?_, hkey, rfl⟩
    intro token htoken
    cases htoken
    rfl
  exact ⟨_, verifyClaims_eq_ok_iff.2 ⟨hclaims, rfl⟩⟩

theorem new_sample : DpopRequest.new (ascii "GET") sampleTarget = .ok sampleRequest := rfl

theorem dpopRequest_sample (required : Option DpopNonce) :
    VerifierApplication.dpopRequest sampleRequest (ascii "token") required =
      sampleDpopRequest required := by
  cases required with
  | none => rfl
  | some nonce => rfl

/-- The result of a confirmed request with the nonce `presented` when `required` is required. -/
def sampleResult (presented : Option DpopNonce) (required : DpopNonce) : VerifierResult :=
  match presented with
  | none => .rejected 1 .nonceRequired (some required.asHeaderValue)
  | some nonce =>
      if nonce.asStr = required.asStr then .verified 1 ⟨sampleJkt, sampleTime, true, true⟩
      else .rejected 1 .nonceMismatch (some required.asHeaderValue)

theorem composeResult_signed {crypto : Crypto} (jwk : PublicP256Jwk crypto) (signature : Bytes)
    (presented : Option DpopNonce) (enforced : Bool) :
    VerifierApplication.composeResult crypto
      (signedRequest jwk signature presented (some jwk.thumbprint.toBase64url))
      ⟨jwk.thumbprint, sampleTime, enforced, true, true⟩ =
        .verified 1 ⟨jwk.thumbprint.toBase64url, sampleTime, enforced, true⟩ := by
  have hjkt : parseJkt jwk.thumbprint.toBase64url = .ok jwk.thumbprint.bytes :=
    parseJkt_eq_ok_iff.2 rfl
  have hnew : HostValidatedToken.fromEquivalentHostValidator crypto (ascii "token")
      (some jwk.thumbprint.toBase64url) = .ok ⟨.fromTokenBytes crypto (ascii "token"),
        some jwk.thumbprint.bytes, .equivalentHostValidator⟩ := by
    simp only [HostValidatedToken.fromEquivalentHostValidator, HostValidatedToken.new, hjkt,
      Except.map]
  unfold VerifierApplication.composeResult
  simp only [signedRequest, hnew, composeSenderBinding, Bool.not_true, Bool.false_eq_true,
    if_false, ne_eq, not_true_eq_false]
  rfl

/-- A sample request passes the checks before the nonce. -/
theorem verify_signed (json : JsonText) {S : Signature} (app : VerifierApplication S)
    {crypto : Crypto} (jwk : PublicP256Jwk crypto) (signature : Bytes)
    (presented : Option DpopNonce) (jkt : Option Bytes) :
    app.verify crypto json (signedRequest jwk signature presented jkt) =
      app.requiredNonce >>= fun
        | .error failure => .ret (.reject failure)
        | .ok required => VerifierApplication.verifyWithNonce crypto json app
            (signedRequest jwk signature presented jkt) sampleTarget required := by
  have hversion : ¬ (signedRequest jwk signature presented jkt).version ≠ verifierProtocolVersion :=
    not_not.2 rfl
  have hproof : (signedRequest jwk signature presented jkt).dpopProof ≠ [] := by
    simp [signedRequest, compactProof]
  have hnonempty : ((signedRequest jwk signature presented jkt).accessToken.isEmpty ||
      (signedRequest jwk signature presented jkt).dpopProof.isEmpty) = false := by
    rw [Bool.or_eq_false_iff, List.isEmpty_eq_false_iff, List.isEmpty_eq_false_iff]
    exact ⟨show ascii "token" ≠ [] by decide, hproof⟩
  have htarget : EffectiveRequestTarget.parse (signedRequest jwk signature presented jkt).target =
      .ok sampleTarget := parse_sampleTarget
  unfold VerifierApplication.verify
  rw [if_neg hversion, hnonempty, if_neg Bool.false_ne_true, htarget]
  rfl

theorem verify_sample (json : JsonText) {S : Signature} (app : VerifierApplication S)
    (presented : Option DpopNonce) (jkt : Option Bytes) :
    app.verify permissiveCrypto json (sampleVerifierRequest presented jkt) =
      app.requiredNonce >>= fun
        | .error failure => .ret (.reject failure)
        | .ok required => VerifierApplication.verifyWithNonce permissiveCrypto json app
            (sampleVerifierRequest presented jkt) sampleTarget required :=
  verify_signed json app sampleJwk (List.replicate 64 0) presented jkt

/-- The service at the time of the proof, with a replay store that has not seen it. -/
structure SampleService {S : Signature} (app : VerifierApplication S) : Prop where
  clock : app.clock.unixSeconds = .ret (.ok sampleTime)
  fresh : ∀ key expires, app.replayStore.checkAndRecord key expires = .ret (.ok .fresh)
  policy : app.verificationPolicy = .default

theorem verifyWithNonce_sample (json : JsonText) {S : Signature} {app : VerifierApplication S}
    (happ : SampleService app) {presented : Option DpopNonce} (h : ShortNonce presented)
    (required : DpopNonce) :
    VerifierApplication.verifyWithNonce permissiveCrypto json app
      (sampleVerifierRequest presented (some sampleJkt)) sampleTarget (some required) =
        .ret (sampleResult presented required) := by
  have hnew : DpopRequest.new (sampleVerifierRequest presented (some sampleJkt)).method
      sampleTarget = .ok sampleRequest := new_sample
  have hrequest : VerifierApplication.dpopRequest sampleRequest
      (sampleVerifierRequest presented (some sampleJkt)).accessToken (some required) =
        sampleDpopRequest (some required) := dpopRequest_sample _
  unfold VerifierApplication.verifyWithNonce
  simp only [hnew, header_sample json h, hrequest, DpopVerifier.verify, binding_sample, happ.clock,
    happ.policy, Prog.bind_ret]
  cases presented with
  | none =>
    simp only [claims_nonceRequired]
    rfl
  | some nonce =>
    by_cases heq : nonce.asStr = required.asStr
    · have haccepted : NonceAccepted (Option.map DpopNonce.asStr (some nonce)) (some required) := by
        intro n hn
        cases hn
        exact congrArg some heq
      have haccepts : ∃ asked, verifyClaims .default (sampleParsed (some nonce))
          (sampleDpopRequest (some required)) sampleTime = .ok (true, asked) :=
        claims_signed sampleJwk (List.replicate 64 0) haccepted
      obtain ⟨asked, hclaims⟩ := haccepts
      simp only [hclaims, happ.fresh, Prog.bind_ret, sampleResult, if_pos heq]
      exact congrArg Prog.ret (composeResult_signed sampleJwk _ (some nonce) true)
    · simp only [claims_nonceMismatch heq, sampleResult, if_neg heq]
      rfl

end Concrete

end Keylix.Verifier

import Keylix.Dpop.Size
import Keylix.Dpop.Proof

/-!
# What verification checks

The conditions of each phase of `DpopVerifier.verify`, and the run of the whole: the verifier
accepts if and only if the binding checks pass, the clock gives a time at which the claims are
accepted, and the replay store answers that the key is fresh (`exec_verify_eq_ok_iff`).
-/

set_option autoImplicit false

namespace Keylix.Dpop

open Keylix.Lib Keylix.Core
open Keylix.Lib.Prog (exec exec_bind exec_ret)

section Conditions

variable {crypto : Crypto}

/-! ## Single checks -/

/-- The signature is a fixed-format signature of the text under the key. -/
def SignatureValid (jwk : PublicP256Jwk crypto) (signingInput signature : Bytes) : Prop :=
  signature.length = es256SignatureBytes ∧
    ∃ key, crypto.parsedPublicKey (uncompressedPoint jwk.x jwk.y) = some key ∧
      crypto.verifySig key signingInput signature = true

theorem verifyEs256Signature_eq_ok_iff {jwk : PublicP256Jwk crypto}
    {signingInput signature : Bytes} :
    verifyEs256Signature jwk signingInput signature = .ok () ↔
      SignatureValid jwk signingInput signature := by
  unfold verifyEs256Signature SignatureValid
  split
  · next hlen => simp [hlen]
  · next hlen =>
    rw [not_not] at hlen
    cases crypto.parsedPublicKey (uncompressedPoint jwk.x jwk.y) with
    | none => simp
    | some key => simp [hlen]

theorem verifyFreshness_eq_ok_iff {issuedAt now : I64} {policy : VerificationPolicy} :
    verifyFreshness issuedAt now policy = .ok () ↔
      0 < issuedAt.toInt ∧
        -(policy.allowedFutureSkewSeconds : Int) ≤ now.toInt - issuedAt.toInt ∧
        now.toInt - issuedAt.toInt ≤ policy.maxProofAgeSeconds := by
  unfold verifyFreshness
  split
  · simp only [reduceCtorEq, false_iff]
    omega
  split
  · simp only [reduceCtorEq, false_iff]
    omega
  split
  · simp only [reduceCtorEq, false_iff]
    omega
  · simp only [true_iff]
    omega

/-- The nonce the request requires is the one presented. -/
def NonceAccepted (presented : Option Bytes) (required : Option DpopNonce) : Prop :=
  ∀ nonce, required = some nonce → presented = some nonce.asStr

theorem verifyNonce_eq_ok_iff {presented : Option Bytes} {required : Option DpopNonce} :
    verifyNonce presented required = .ok () ↔ NonceAccepted presented required := by
  unfold verifyNonce NonceAccepted
  cases required with
  | none => simp
  | some nonce =>
    cases presented with
    | none => simp
    | some presented =>
      simp only [Option.some.injEq, forall_eq']
      split
      · next hne => simp [hne]
      · next heq => simpa using heq

/-- The hash of the token the request presents is the one of the proof. -/
def TokenAccepted (crypto : Crypto) (presented accessToken : Option Bytes) : Prop :=
  ∀ token, accessToken = some token → presented = some (accessTokenHash crypto token)

theorem verifyAccessTokenHash_eq_ok_iff {presented accessToken : Option Bytes} {verified : Bool} :
    verifyAccessTokenHash crypto presented accessToken = .ok verified ↔
      TokenAccepted crypto presented accessToken ∧ verified = accessToken.isSome := by
  unfold verifyAccessTokenHash TokenAccepted
  cases accessToken with
  | none => simp [eq_comm]
  | some token =>
    cases presented with
    | none => simp
    | some presented =>
      simp only [Option.some.injEq, forall_eq']
      split
      · next hne => simp [hne]
      · next heq =>
        rw [not_not] at heq
        simp [heq, eq_comm]

/-! ## Replay keys -/

theorem method_spec (request : DpopRequest) :
    request.method ≠ [] ∧ request.method.length ≤ maxMethodBytes ∧
      ∀ b ∈ request.method, isHttpTokenByte b = true := by
  have h := request.validMethod
  unfold validateMethod at h
  split at h
  · cases h
  next hchecks =>
  simp only [Bool.or_eq_true, List.isEmpty_iff, decide_eq_true_eq, Bool.not_eq_true',
    not_or, not_lt, Bool.not_eq_false, List.all_eq_true] at hchecks
  exact ⟨hchecks.1.1, hchecks.1.2, hchecks.2⟩

/-- Every part of a replay key is far below the bound of its length field. -/
theorem deriveReplayKey_ok (thumbprint : JwkThumbprint) (request : DpopRequest) {jti : Bytes}
    (hjti : jti.length < 2 ^ 64) :
    ∃ key, deriveReplayKey crypto thumbprint request.method request.target jti = .ok key := by
  have hthumb : thumbprint.bytes.1.length < 2 ^ 64 := by
    rw [thumbprint.bytes.2]
    norm_num
  have hmethod : request.method.length < 2 ^ 64 :=
    Nat.lt_of_le_of_lt (method_spec request).2.1 (by decide)
  have htarget : request.target.asStr.length < 2 ^ 64 :=
    Nat.lt_of_le_of_lt request.target.length_asStr_le (by decide)
  simp only [deriveReplayKey, replayMaterial, if_pos hthumb, if_pos hmethod, if_pos htarget,
    if_pos hjti, Except.map]
  exact ⟨_, rfl⟩

/-! ## Phases -/

/-- What holds when the binding checks pass. -/
structure BindingAccepted (proof : UnverifiedDpopProof crypto) (request : DpopRequest) : Prop where
  typ : proof.header.typ = ascii "dpop+jwt"
  alg : proof.header.alg = ascii "ES256"
  signature : SignatureValid proof.publicJwk
    (proof.encodedHeader ++ byte '.' :: proof.encodedPayload) proof.signature
  method : proof.claims.htm = request.method
  target : EffectiveRequestTarget.parse proof.claims.htu = .ok request.target

theorem verifyBinding_eq_ok_iff {proof : UnverifiedDpopProof crypto} {request : DpopRequest} :
    verifyBinding proof request = .ok () ↔ BindingAccepted proof request := by
  unfold verifyBinding
  split
  · next h => exact iff_of_false (by simp) fun ha => h ha.typ
  split
  · next h => exact iff_of_false (by simp) fun ha => h ha.alg
  split
  · next h => exact iff_of_false (by simp) fun ha => h ha.signature.1
  next htyp halg _ =>
  rw [not_not] at htyp halg
  rw [bind_eq_ok_iff]
  constructor
  · rintro ⟨u, hsig, h⟩
    split at h
    · cases h
    next hmethod =>
    rw [not_not] at hmethod
    cases htarget : EffectiveRequestTarget.parse proof.claims.htu with
    | error e =>
      rw [htarget] at h
      cases h
    | ok target =>
      rw [htarget] at h
      simp only at h
      split at h
      · cases h
      next heq =>
      rw [not_not] at heq
      exact ⟨htyp, halg, verifyEs256Signature_eq_ok_iff.1 hsig, hmethod, by rw [htarget, heq]⟩
  · intro ha
    refine ⟨(), verifyEs256Signature_eq_ok_iff.2 ha.signature, ?_⟩
    simp [ha.method, ha.target]

/-- What holds when the claims are accepted at a time, with the request to the replay store. -/
structure ClaimsAccepted (policy : VerificationPolicy) (proof : UnverifiedDpopProof crypto)
    (request : DpopRequest) (now : I64) (asked : ReplayRequest) : Prop where
  issuedAt : 0 < proof.claims.iat.toInt
  notFuture : -(policy.allowedFutureSkewSeconds : Int) ≤ now.toInt - proof.claims.iat.toInt
  notExpired : now.toInt - proof.claims.iat.toInt ≤ policy.maxProofAgeSeconds
  nonce : NonceAccepted proof.claims.nonce request.nonce
  token : TokenAccepted crypto proof.claims.ath request.accessToken
  key : deriveReplayKey crypto proof.publicJwk.thumbprint request.method request.target
    proof.claims.jti = .ok asked.key
  expires : asked.expiresAtUnix.toInt = proof.claims.iat.toInt + policy.maxProofAgeSeconds

theorem verifyClaims_eq_ok_iff {policy : VerificationPolicy} {proof : UnverifiedDpopProof crypto}
    {request : DpopRequest} {now : I64} {verified : Bool} {asked : ReplayRequest} :
    verifyClaims policy proof request now = .ok (verified, asked) ↔
      ClaimsAccepted policy proof request now asked ∧ verified = request.accessToken.isSome := by
  unfold verifyClaims
  simp only [bind_eq_ok_iff]
  constructor
  · rintro ⟨_, hfresh, _, hnonce, verified', htoken, key, hkey, h⟩
    obtain ⟨hiat, hfuture, hexpired⟩ := verifyFreshness_eq_ok_iff.1 hfresh
    obtain ⟨haccepted, rfl⟩ := verifyAccessTokenHash_eq_ok_iff.1 htoken
    split at h
    · cases h
    next expires hexp =>
    cases h
    exact ⟨⟨hiat, hfuture, hexpired, verifyNonce_eq_ok_iff.1 hnonce, haccepted, hkey,
      I64.ofInt?_eq_some_iff.1 hexp⟩, rfl⟩
  · rintro ⟨ha, rfl⟩
    refine ⟨(), verifyFreshness_eq_ok_iff.2 ⟨ha.issuedAt, ha.notFuture, ha.notExpired⟩, (),
      verifyNonce_eq_ok_iff.2 ha.nonce, _, verifyAccessTokenHash_eq_ok_iff.2 ⟨ha.token, rfl⟩, _,
      ha.key, ?_⟩
    rw [I64.ofInt?_eq_some_iff.2 ha.expires]

theorem verifyReplay_eq_ok_iff {proof : UnverifiedDpopProof crypto} {request : DpopRequest}
    {verified : Bool} {answer : Except DpopPortError ReplayStatus} {v : VerifiedDpopProof} :
    verifyReplay proof request verified answer = .ok v ↔
      answer = .ok .fresh ∧
        v = ⟨proof.publicJwk.thumbprint, proof.claims.iat, request.nonce.isSome, true,
          verified⟩ := by
  cases answer with
  | error e => simp [verifyReplay]
  | ok status =>
    cases status with
    | replay => simp [verifyReplay]
    | fresh => simp [verifyReplay, eq_comm]

/-! ## Parsed proofs -/

/-- What the parser guarantees: the text of the three segments and the bounds of the claims. -/
structure ParsedFrom (proof : UnverifiedDpopProof crypto) (input : Bytes) : Prop where
  segments : ∃ encodedSignature,
    input = proof.encodedHeader ++
      byte '.' :: (proof.encodedPayload ++ byte '.' :: encodedSignature) ∧
    Base64.decode encodedSignature = some proof.signature
  issuedAt : 0 < proof.claims.iat.toInt
  jti : proof.claims.jti.length ≤ maxJtiBytes

theorem decodeSegment_eq_ok {encoded decoded : Bytes} {maxDecodedBytes : Nat}
    (h : decodeSegment encoded maxDecodedBytes = .ok decoded) :
    Base64.decode encoded = some decoded := by
  unfold decodeSegment at h
  split at h
  · cases h
  split at h
  · cases h
  next bytes hbytes =>
  split at h
  · cases h
  · cases h
    exact hbytes

theorem parseParts_eq_ok {json : JsonText}
    {encodedHeader encodedPayload headerBytes payloadBytes signature : Bytes}
    {proof : UnverifiedDpopProof crypto}
    (h : UnverifiedDpopProof.parseParts crypto json encodedHeader encodedPayload headerBytes
      payloadBytes signature = .ok proof) :
    proof.encodedHeader = encodedHeader ∧ proof.encodedPayload = encodedPayload ∧
      proof.signature = signature ∧ validateClaimShape proof.claims = .ok () := by
  unfold UnverifiedDpopProof.parseParts at h
  obtain ⟨_, -, h⟩ := bind_eq_ok_iff.1 h
  obtain ⟨_, -, h⟩ := bind_eq_ok_iff.1 h
  split at h
  · obtain ⟨_, hshape, h⟩ := bind_eq_ok_iff.1 h
    split at h
    · cases h
      exact ⟨rfl, rfl, rfl, hshape⟩
    · cases h
  · cases h

theorem parse_eq_ok {json : JsonText} {input : Bytes} {proof : UnverifiedDpopProof crypto}
    (h : UnverifiedDpopProof.parse crypto json input = .ok proof) : ParsedFrom proof input := by
  unfold UnverifiedDpopProof.parse at h
  split at h
  · cases h
  split at h
  · cases h
  split at h
  · next encodedHeader encodedPayload encodedSignature hsplit =>
    split at h
    · cases h
    obtain ⟨headerBytes, -, h⟩ := bind_eq_ok_iff.1 h
    obtain ⟨payloadBytes, -, h⟩ := bind_eq_ok_iff.1 h
    obtain ⟨signature, hsig, h⟩ := bind_eq_ok_iff.1 h
    obtain ⟨rfl, rfl, rfl, hshape⟩ := parseParts_eq_ok h
    -- the segments joined again are the input
    have hjoin : [byte '.'].intercalate (input.splitOn (byte '.')) = input :=
      List.intercalate_splitOn (byte '.')
    rw [hsplit] at hjoin
    have hclaims : 0 < proof.claims.iat.toInt ∧ proof.claims.jti.length ≤ maxJtiBytes := by
      unfold validateClaimShape at hshape
      split at hshape
      · cases hshape
      next hchecks =>
      simp only [Bool.or_eq_true, decide_eq_true_eq, not_or, not_lt, not_le] at hchecks
      exact ⟨by tauto, by tauto⟩
    refine ⟨⟨encodedSignature, ?_, decodeSegment_eq_ok hsig⟩, hclaims.1, hclaims.2⟩
    rw [← hjoin]
    simp
  · cases h

/-! ## Failures -/

/-- The failures that depend on the state of the server, not on the proof and the request alone. -/
def DpopError.ofState : DpopError → Bool
  | .nonceRequired | .nonceMismatch | .replayDetected | .replayStoreUnavailable
  | .clockUnavailable => true
  | _ => false

theorem verifyBinding_error {proof : UnverifiedDpopProof crypto} {request : DpopRequest}
    {e : DpopError} (h : verifyBinding proof request = .error e) : e.ofState = false := by
  unfold verifyBinding at h
  split at h
  · cases h
    rfl
  split at h
  · cases h
    rfl
  split at h
  · cases h
    rfl
  rcases bind_eq_error_iff.1 h with hsignature | ⟨_, -, h⟩
  · unfold verifyEs256Signature at hsignature
    split at hsignature
    · cases hsignature
      rfl
    split at hsignature
    · cases hsignature
      rfl
    · split at hsignature <;> cases hsignature
      rfl
  · split at h
    · cases h
      rfl
    split at h
    · cases h
      rfl
    · split at h <;> cases h
      rfl

theorem replayMaterial_error {parts : List Bytes} {e : DpopError}
    (h : replayMaterial parts = .error e) : e.ofState = false := by
  induction parts with
  | nil => cases h
  | cons part parts ih =>
    unfold replayMaterial at h
    split at h
    · exact ih (map_eq_error_iff.1 h)
    · cases h
      rfl

/-- Of the claims, only the nonce is compared with the state of the server. -/
theorem verifyClaims_error {policy : VerificationPolicy} {proof : UnverifiedDpopProof crypto}
    {request : DpopRequest} {now : I64} {e : DpopError}
    (h : verifyClaims policy proof request now = .error e) :
    e.ofState = false ∨ verifyNonce proof.claims.nonce request.nonce = .error e := by
  unfold verifyClaims at h
  rcases bind_eq_error_iff.1 h with hfresh | ⟨_, -, h⟩
  · left
    unfold verifyFreshness at hfresh
    split at hfresh
    · cases hfresh
      rfl
    split at hfresh
    · cases hfresh
      rfl
    · split at hfresh <;> cases hfresh
      rfl
  rcases bind_eq_error_iff.1 h with hnonce | ⟨_, -, h⟩
  · exact Or.inr hnonce
  left
  rcases bind_eq_error_iff.1 h with htoken | ⟨_, -, h⟩
  · unfold verifyAccessTokenHash at htoken
    split at htoken
    · cases htoken
    split at htoken
    · cases htoken
      rfl
    · split at htoken <;> cases htoken
      rfl
  rcases bind_eq_error_iff.1 h with hkey | ⟨_, -, h⟩
  · exact replayMaterial_error (map_eq_error_iff.1 hkey)
  · split at h <;> cases h
    rfl

theorem verifyNonce_error {presented : Option Bytes} {required : Option DpopNonce} {e : DpopError}
    (h : verifyNonce presented required = .error e) :
    e = .nonceRequired ∨ e = .nonceMismatch := by
  unfold verifyNonce at h
  split at h
  · cases h
  split at h
  · cases h
    exact Or.inl rfl
  · split at h <;> cases h
    exact Or.inr rfl

theorem decodeSegment_error {encoded : Bytes} {maxDecodedBytes : Nat} {e : DpopError}
    (h : decodeSegment encoded maxDecodedBytes = .error e) : e.ofState = false := by
  unfold decodeSegment at h
  split at h
  · cases h
    rfl
  split at h
  · cases h
    rfl
  · split at h <;> cases h
    rfl

theorem rejectDuplicateJsonMembers_error {json : JsonText} {input : Bytes} {e : DpopError}
    (h : rejectDuplicateJsonMembers json input = .error e) : e.ofState = false := by
  unfold rejectDuplicateJsonMembers at h
  split at h
  · split at h <;> cases h
    rfl
  · cases h
    rfl

theorem parse_error {json : JsonText} {input : Bytes} {e : DpopError}
    (h : UnverifiedDpopProof.parse crypto json input = .error e) : e.ofState = false := by
  -- no check of the parser reads a state: each one names its own error
  unfold UnverifiedDpopProof.parse at h
  split at h
  · cases h
    rfl
  split at h
  · cases h
    rfl
  split at h
  · split at h
    · cases h
      rfl
    rcases bind_eq_error_iff.1 h with h | ⟨_, -, h⟩
    · exact decodeSegment_error h
    rcases bind_eq_error_iff.1 h with h | ⟨_, -, h⟩
    · exact decodeSegment_error h
    rcases bind_eq_error_iff.1 h with h | ⟨_, -, h⟩
    · exact decodeSegment_error h
    unfold UnverifiedDpopProof.parseParts at h
    rcases bind_eq_error_iff.1 h with h | ⟨_, -, h⟩
    · exact rejectDuplicateJsonMembers_error h
    rcases bind_eq_error_iff.1 h with h | ⟨_, -, h⟩
    · exact rejectDuplicateJsonMembers_error h
    split at h
    · rcases bind_eq_error_iff.1 h with h | ⟨_, -, h⟩
      · unfold validateClaimShape at h
        split at h <;> cases h
        rfl
      · split at h <;> cases h
        rfl
    · cases h
      rfl
  · cases h
    rfl

theorem parseDpopHeaderValues_error {json : JsonText} {values : List Bytes} {e : DpopError}
    (h : parseDpopHeaderValues crypto json values = .error e) : e.ofState = false := by
  unfold parseDpopHeaderValues at h
  split at h
  · split at h
    · cases h
      rfl
    · exact parse_error h
  · cases h
    rfl
  · cases h
    rfl

theorem new_error {method : Bytes} {target : EffectiveRequestTarget} {e : DpopError}
    (h : DpopRequest.new method target = .error e) : e.ofState = false := by
  unfold DpopRequest.new at h
  split at h
  · cases h
  · next e' he =>
    cases h
    unfold validateMethod at he
    split at he <;> cases he
    rfl

/-! ## Whole runs -/

/-- **The verifier accepts if and only if every phase does.** -/
theorem exec_verify_eq_ok_iff {S : Signature} {σ : Type} (h : (op : S.Op) → σ → S.Res op × σ)
    (verifier : DpopVerifier S) (proof : UnverifiedDpopProof crypto) (request : DpopRequest)
    (store : ReplayStore S) (s : σ) (v : VerifiedDpopProof) :
    (exec h (verifier.verify proof request store) s).1 = .ok v ↔
      BindingAccepted proof request ∧
      ∃ now asked, (exec h verifier.clock.unixSeconds s).1 = .ok now ∧
        ClaimsAccepted verifier.policy proof request now asked ∧
        (exec h (store.checkAndRecord asked.key asked.expiresAtUnix)
          (exec h verifier.clock.unixSeconds s).2).1 = .ok .fresh ∧
        v = ⟨proof.publicJwk.thumbprint, proof.claims.iat, request.nonce.isSome, true,
          request.accessToken.isSome⟩ := by
  unfold DpopVerifier.verify
  -- the phases in their order: a phase that fails is a conjunct that fails
  cases hbind : verifyBinding proof request with
  | error e =>
    refine iff_of_false (by simp) fun ha => ?_
    have := verifyBinding_eq_ok_iff.2 ha.1
    rw [hbind] at this
    cases this
  | ok u =>
    have hbinding := verifyBinding_eq_ok_iff.1 hbind
    -- the store is asked in the state that reading the clock has left
    rw [exec_bind]
    cases hclock : (exec h verifier.clock.unixSeconds s).1 with
    | error e => simp
    | ok now =>
      simp only
      cases hclaims : verifyClaims verifier.policy proof request now with
      | error e =>
        refine iff_of_false (by simp) ?_
        rintro ⟨-, now', asked, hnow, ha, -⟩
        cases hnow
        have := verifyClaims_eq_ok_iff.2 ⟨ha, rfl⟩
        rw [hclaims] at this
        cases this
      | ok r =>
        obtain ⟨verified, asked⟩ := r
        obtain ⟨haccepted, rfl⟩ := verifyClaims_eq_ok_iff.1 hclaims
        simp only
        rw [exec_bind, Prog.pure_eq, exec_ret, verifyReplay_eq_ok_iff]
        constructor
        · rintro ⟨hfresh, rfl⟩
          exact ⟨hbinding, now, asked, rfl, haccepted, hfresh, rfl⟩
        · rintro ⟨-, now', asked', hnow, ha, hfresh, rfl⟩
          cases hnow
          -- the claims of one reading ask for one entry
          have hsame := verifyClaims_eq_ok_iff.2 ⟨ha, rfl⟩
          rw [hclaims] at hsame
          cases hsame
          exact ⟨hfresh, rfl⟩

end Conditions

end Keylix.Dpop

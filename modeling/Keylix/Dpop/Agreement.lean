import Keylix.Dpop.RoundTrip

/-!
# Builder, parser and verifier agree

What the builder emits for a request, seen by the parser and by the verifier. The parser accepts an
emitted proof if and only if the target and the claims text keep to its limits (`parse_build_iff`),
which the builder does not check. When the parser accepts it, the claims are those of the request
and the verifier accepts it for that request within the window of the policy, and for no other
request (`build_parse_verify`).
-/

set_option autoImplicit false

namespace Keylix.Dpop

open Keylix.Lib Keylix.Core
open Keylix.Lib.Prog (exec exec_bind exec_ret)

section Agreement

variable {crypto : Crypto} (json : JsonText)

/-! ## The claims of a request -/

theorem httpTokenByte_bytes {b : UInt8} (h : isHttpTokenByte b = true) :
    b < 0x80 ∧ Json.escapedByteLength b = 1 := by
  revert b
  decide +kernel

/-- The text of a target is ASCII and not empty. -/
theorem target_spec (t : EffectiveRequestTarget) :
    t.asStr ≠ [] ∧ isAscii t.asStr = true := by
  obtain ⟨input, hinput⟩ := t.normalized
  obtain ⟨T, -, htext, hnormal⟩ := normalizeHttpUri_eq_text hinput
  have hbytes : ∀ b ∈ T.text, isTargetByte b = true := T.text_bytes hnormal
  unfold EffectiveRequestTarget.asStr
  rw [htext]
  constructor
  · rw [T.text_eq]
    simp
  · refine List.all_eq_true.2 fun b hb => ?_
    have := hbytes b hb
    simp only [isTargetByte, Bool.and_eq_true] at this
    exact this.1

theorem isUtf8_of_bytes {s : Bytes} (h : ∀ b ∈ s, b < 0x80) : IsUtf8 s :=
  isUtf8_of_isAscii (List.all_eq_true.2 fun b hb => decide_eq_true (h b hb))

theorem requestClaims_utf8 (request : DpopRequest) (issuedAt : I64) (proofId : ProofId) :
    (requestClaims crypto request issuedAt proofId).Utf8 where
  jti := proofId.value.utf8
  htm := isUtf8_of_bytes fun b hb => (httpTokenByte_bytes ((method_spec request).2.2 b hb)).1
  htu := isUtf8_of_isAscii (target_spec request.target).2
  ath := by
    intro ath h
    obtain ⟨token, -, rfl⟩ := Option.map_eq_some_iff.1 h
    exact isUtf8_of_isAscii (Base64.isAscii_encode _)
  nonce := by
    intro nonce h
    obtain ⟨n, -, rfl⟩ := Option.map_eq_some_iff.1 h
    exact n.value.utf8

theorem length_accessTokenHash (token : Bytes) :
    (accessTokenHash crypto token).length = sha256Base64urlBytes := by
  rw [accessTokenHash, Base64.length_encode, (crypto.sha256 token).2]
  rfl

theorem escapedLength_accessTokenHash (token : Bytes) :
    Json.escapedLength (accessTokenHash crypto token) = sha256Base64urlBytes := by
  rw [accessTokenHash, escapedLength_encode]
  exact length_accessTokenHash token

/-- The shape of the claims: only the target can be too long. -/
theorem validateClaimShape_requestClaims (request : DpopRequest) {issuedAt : I64}
    (hpos : 0 < issuedAt.toInt) (proofId : ProofId) :
    validateClaimShape (requestClaims crypto request issuedAt proofId) = .ok () ↔
      request.target.asStr.length ≤ maxHtuBytes := by
  obtain ⟨hm₁, hm₂, -⟩ := method_spec request
  have ht := (target_spec request.target).1
  -- every other check of the shape is passed by what the types of the request carry
  have hath : ((requestClaims crypto request issuedAt proofId).ath.any fun value =>
      value.length ≠ sha256Base64urlBytes) = false := by
    cases htoken : request.accessToken with
    | none => simp [requestClaims, htoken]
    | some token => simp [requestClaims, htoken, length_accessTokenHash]
  have hnonce : ((requestClaims crypto request issuedAt proofId).nonce.any fun value =>
      value.isEmpty || maxNonceBytes < value.length) = false := by
    cases hn : request.nonce with
    | none => simp [requestClaims, hn]
    | some nonce =>
      have h₁ := nonce.ne_nil
      have h₂ := nonce.length_le
      simp only [requestClaims, hn, Option.map_some, Option.any_some, DpopNonce.asStr,
        Bool.or_eq_false_iff, List.isEmpty_eq_false_iff, decide_eq_false_iff_not, not_lt]
      exact ⟨h₁, h₂⟩
  have hjti₁ : (requestClaims crypto request issuedAt proofId).jti.isEmpty = false :=
    List.isEmpty_eq_false_iff.2 proofId.ne_nil
  have hjti₂ : ¬ maxJtiBytes < (requestClaims crypto request issuedAt proofId).jti.length :=
    Nat.not_lt.2 proofId.length_le
  have hhtm₁ : (requestClaims crypto request issuedAt proofId).htm.isEmpty = false :=
    List.isEmpty_eq_false_iff.2 hm₁
  have hhtm₂ : ¬ maxHtmBytes < (requestClaims crypto request issuedAt proofId).htm.length :=
    Nat.not_lt.2 hm₂
  have hhtu : (requestClaims crypto request issuedAt proofId).htu.isEmpty = false :=
    List.isEmpty_eq_false_iff.2 ht
  have hiat : ¬ (requestClaims crypto request issuedAt proofId).iat.toInt ≤ 0 := by
    show ¬ issuedAt.toInt ≤ 0
    omega
  unfold validateClaimShape
  rw [hath, hnonce, hjti₁, hhtm₁, hhtu, decide_eq_false hjti₂, decide_eq_false hhtm₂,
    decide_eq_false hiat]
  -- the target is the one claim whose bound here is below the one of its type
  by_cases hlen : request.target.asStr.length ≤ maxHtuBytes
  · have hhtu₂ : ¬ maxHtuBytes < (requestClaims crypto request issuedAt proofId).htu.length :=
      Nat.not_lt.2 hlen
    simp [decide_eq_false hhtu₂, hlen]
  · have hhtu₂ : maxHtuBytes < (requestClaims crypto request issuedAt proofId).htu.length :=
      Nat.lt_of_not_le hlen
    simp [decide_eq_true hhtu₂, hlen]

/-- The limits of the parser that a request can exceed: the length of its target, and the length of
the claims text, in which a quotation mark, a backslash or a control character of the identifier,
the target or the nonce takes up to six bytes. -/
structure FitsLimits (request : DpopRequest) (issuedAt : I64) (proofId : ProofId) : Prop where
  target : request.target.asStr.length ≤ 2048
  claims : 35 + Json.escapedLength proofId.asStr + request.method.length +
    Json.escapedLength request.target.asStr + (decimalInt issuedAt.toInt).length +
    (if request.accessToken.isSome then 52 else 0) +
    (request.nonce.elim 0 fun nonce => Json.escapedLength nonce.asStr + 11) ≤ 4096

theorem claimsLength_requestClaims (request : DpopRequest) (issuedAt : I64) (proofId : ProofId) :
    claimsLength (requestClaims crypto request issuedAt proofId) =
      35 + Json.escapedLength proofId.asStr + request.method.length +
        Json.escapedLength request.target.asStr + (decimalInt issuedAt.toInt).length +
        (if request.accessToken.isSome then 52 else 0) +
        (request.nonce.elim 0 fun nonce => Json.escapedLength nonce.asStr + 11) := by
  have hmethod : Json.escapedLength request.method = request.method.length :=
    Json.escapedLength_eq_length fun b hb =>
      (httpTokenByte_bytes ((method_spec request).2.2 b hb)).2
  have htoken : ((request.accessToken.map (accessTokenHash crypto)).elim 0 fun ath =>
      Json.escapedLength ath + 9) = if request.accessToken.isSome then 52 else 0 := by
    cases request.accessToken with
    | none => rfl
    | some token =>
      simp only [Option.map_some, Option.elim, escapedLength_accessTokenHash, Option.isSome_some,
        if_true]
      rfl
  have hnonce : ((request.nonce.map DpopNonce.asStr).elim 0 fun nonce =>
      Json.escapedLength nonce + 11) =
        request.nonce.elim 0 fun nonce => Json.escapedLength nonce.asStr + 11 := by
    cases request.nonce <;> rfl
  simp only [claimsLength, requestClaims, hmethod, htoken, hnonce]

/-- The parse of the proof of a request. -/
theorem parse_requestProof_iff (jwk : PublicP256Jwk crypto) (request : DpopRequest) {issuedAt : I64}
    (hpos : 0 < issuedAt.toInt) (proofId : ProofId) {signature : Bytes}
    (hsig : signature.length = es256SignatureBytes) {p : UnverifiedDpopProof crypto} :
    UnverifiedDpopProof.parse crypto json
        (compactProof jwk (requestClaims crypto request issuedAt proofId) signature) = .ok p ↔
      FitsLimits request issuedAt proofId ∧
        p = parsedProof jwk (requestClaims crypto request issuedAt proofId) signature := by
  rw [parse_compact_eq_ok_iff json (requestClaims_utf8 request issuedAt proofId) hsig,
    claimsLength_requestClaims, validateClaimShape_requestClaims request hpos proofId]
  constructor
  · rintro ⟨h₁, h₂, rfl⟩
    exact ⟨⟨h₂, h₁⟩, rfl⟩
  · rintro ⟨⟨h₁, h₂⟩, rfl⟩
    exact ⟨h₂, h₁, rfl⟩

/-- Working capabilities give a proof. -/
theorem exec_build_ok {S : Signature} {σ : Type} (h : (op : S.Op) → σ → S.Res op × σ)
    (builder : DpopProofBuilder crypto S) {request : DpopRequest} {s s₁ s₂ s₃ : σ} {issuedAt : I64}
    {proofId : ProofId} {signature : Bytes}
    (hclock : exec h builder.clock.unixSeconds s = (.ok issuedAt, s₁)) (hpos : 0 < issuedAt.toInt)
    (hid : exec h builder.proofIds.generate s₁ = (.ok proofId, s₂))
    (hsign : exec h (builder.signer.sign (signingInput builder.signer.publicJwk
      (requestClaims crypto request issuedAt proofId))) s₂ = (.ok signature, s₃))
    (hsig : SignatureValid builder.signer.publicJwk (signingInput builder.signer.publicJwk
      (requestClaims crypto request issuedAt proofId)) signature) :
    (exec h (builder.build request) s).1 =
      .ok (compactProof builder.signer.publicJwk (requestClaims crypto request issuedAt proofId)
        signature) := by
  have hle : ¬ issuedAt.toInt ≤ 0 := by omega
  have hverify := verifyEs256Signature_eq_ok_iff.2 hsig
  unfold DpopProofBuilder.build
  rw [exec_bind, hclock]
  simp only [hle, if_false]
  rw [exec_bind, hid]
  simp only
  rw [exec_bind, hsign]
  simp only [Prog.pure_eq, exec_ret, sealProof, hsig.1, hverify, ne_eq, not_true_eq_false, if_false]
  rfl

/-! ## What an emitted proof shows -/

theorem asStr_injective : Function.Injective DpopNonce.asStr := by
  rintro ⟨⟨b, hb⟩, hne, hlen⟩ ⟨⟨b', hb'⟩, hne', hlen'⟩ h
  cases (show b = b' from h)
  rfl

/-- A proof of a request that a key signed. -/
def EmittedFor (jwk : PublicP256Jwk crypto) (request : DpopRequest) (proof : Bytes) : Prop :=
  ∃ issuedAt proofId signature,
    SignatureValid jwk
      (signingInput jwk (requestClaims crypto request issuedAt proofId)) signature ∧
      proof = compactProof jwk (requestClaims crypto request issuedAt proofId) signature

theorem emittedFor_of_build {S : Signature} {σ : Type} {h : (op : S.Op) → σ → S.Res op × σ}
    {builder : DpopProofBuilder crypto S} {request : DpopRequest} {s : σ} {proof : Bytes}
    (hbuild : (exec h (builder.build request) s).1 = .ok proof) :
    EmittedFor builder.signer.publicJwk request proof := by
  obtain ⟨issuedAt, proofId, signature, -, -, -, hsig, rfl⟩ := exec_build_eq_ok hbuild
  exact ⟨issuedAt, proofId, signature, hsig, rfl⟩

/-- A compact proof determines its key and its claims: the segments are read back. -/
theorem compactProof_inj {jwk jwk' : PublicP256Jwk crypto} {claims claims' : ClaimsWire}
    (hutf : claims.Utf8) (hutf' : claims'.Utf8) {signature signature' : Bytes}
    (h : compactProof jwk claims signature = compactProof jwk' claims' signature') :
    jwk = jwk' ∧ claims = claims' := by
  have hsplit := congrArg (List.splitOn (byte '.')) h
  simp only [splitOn_compactProof, List.cons.injEq, and_true] at hsplit
  obtain ⟨hheader, hpayload, -⟩ := hsplit
  constructor
  · have hread := compactText.parse_render _ (plain_headerBuild jwk).1 (plain_headerBuild jwk).2
    rw [Base64.encode_injective hheader, compactText.parse_render _ (plain_headerBuild jwk').1
      (plain_headerBuild jwk').2] at hread
    have hofJson := congrArg HeaderWire.ofJson (Option.some.inj hread)
    rw [ofJson_headerBuild, ofJson_headerBuild] at hofJson
    have hvalue := congrArg HeaderWire.jwk (Option.some.inj hofJson)
    have hkey := PublicP256Jwk.fromJson_toJson compactText jwk
    rw [← show jwk'.toJson.toValue = jwk.toJson.toValue from hvalue,
      PublicP256Jwk.fromJson_toJson] at hkey
    exact (Except.ok.inj hkey).symm
  · obtain ⟨hplain, hdepth, -⟩ := plain_build hutf
    obtain ⟨hplain', hdepth', -⟩ := plain_build hutf'
    have hread := compactText.parse_render _ hplain hdepth
    rw [Base64.encode_injective hpayload, compactText.parse_render _ hplain' hdepth'] at hread
    have hofJson := congrArg ClaimsWire.ofJson (Option.some.inj hread)
    rw [ofJson_build, ofJson_build] at hofJson
    exact (Option.some.inj hofJson).symm

/-- **A proof text shows one key, one method, one target and one nonce.** -/
theorem EmittedFor.unique {jwk jwk' : PublicP256Jwk crypto} {request request' : DpopRequest}
    {proof : Bytes} (h : EmittedFor jwk request proof) (h' : EmittedFor jwk' request' proof) :
    jwk = jwk' ∧ request.method = request'.method ∧ request.target = request'.target ∧
      request.nonce = request'.nonce := by
  obtain ⟨issuedAt, proofId, signature, -, hproof⟩ := h
  obtain ⟨issuedAt', proofId', signature', -, hproof'⟩ := h'
  rw [hproof] at hproof'
  obtain ⟨hjwk, hclaims⟩ := compactProof_inj (requestClaims_utf8 request issuedAt proofId)
    (requestClaims_utf8 request' issuedAt' proofId') hproof'
  have hnonce : request.nonce.map DpopNonce.asStr = request'.nonce.map DpopNonce.asStr :=
    congrArg ClaimsWire.nonce hclaims
  refine ⟨hjwk, congrArg ClaimsWire.htm hclaims,
    EffectiveRequestTarget.ext_value (congrArg ClaimsWire.htu hclaims), ?_⟩
  exact Option.map_injective asStr_injective hnonce

end Agreement

/-! ## A concrete builder -/

section Concrete

/-- A cryptographic library that accepts every key and every signature. Its hash is the last bytes
of the text. -/
def permissiveCrypto : Crypto where
  PublicKey := Unit
  sha256 := fun text => ⟨(text.reverse ++ List.replicate 32 0).take 32, by simp⟩
  parsedPublicKey := fun _ => some ()
  verifySig := fun _ _ _ => true

/-- Capabilities without operations. -/
def noOps : Signature := ⟨Empty, Empty.elim⟩

def noHandler : (op : noOps.Op) → Unit → noOps.Res op × Unit := fun op => op.elim

def sampleTime : I64 := ⟨1000, by norm_num, by norm_num⟩

theorem sampleTime_pos : 0 < sampleTime.toInt := by decide

def sampleProofId : ProofId where
  value := ⟨ascii "id", isUtf8_of_isAscii (by decide)⟩
  ne_nil := by decide
  length_le := by decide

def sampleJwk : PublicP256Jwk permissiveCrypto where
  x := ⟨List.replicate 32 1, List.length_replicate⟩
  y := ⟨List.replicate 32 2, List.length_replicate⟩
  isPoint := rfl

/-- A builder at a fixed time, with a fixed identifier and a signature of zeros. -/
def sampleBuilder : DpopProofBuilder permissiveCrypto noOps where
  signer := ⟨sampleJwk, fun _ => .ret (.ok (List.replicate 64 0))⟩
  clock := ⟨.ret (.ok sampleTime)⟩
  proofIds := ⟨.ret (.ok sampleProofId)⟩

def sampleTarget : EffectiveRequestTarget where
  value := ascii "https://a/"
  normalized := ⟨ascii "https://a/", by decide +kernel⟩

def sampleRequest : DpopRequest where
  method := ascii "GET"
  target := sampleTarget
  accessToken := none
  nonce := none
  validMethod := by decide +kernel

theorem exec_sampleBuilder (request : DpopRequest) :
    (exec noHandler (sampleBuilder.build request) ()).1 =
      .ok (compactProof sampleJwk
        (requestClaims permissiveCrypto request sampleTime sampleProofId) (List.replicate 64 0)) :=
  exec_build_ok noHandler sampleBuilder rfl (by decide) rfl rfl
    ⟨List.length_replicate, (), rfl, rfl⟩

theorem sampleRequest_fits : FitsLimits sampleRequest sampleTime sampleProofId :=
  ⟨by decide, by decide⟩

end Concrete

/-! ## Builder and parser -/

section Agreement

variable {crypto : Crypto} (json : JsonText)

/-- **The parser accepts an emitted proof if and only if the request keeps to its limits.** -/
theorem parse_build_iff {S : Signature} {σ : Type} (h : (op : S.Op) → σ → S.Res op × σ)
    (builder : DpopProofBuilder crypto S) (request : DpopRequest) (s : σ) {proof : Bytes}
    (hbuild : (exec h (builder.build request) s).1 = .ok proof) :
    ∃ issuedAt proofId, (exec h builder.clock.unixSeconds s).1 = .ok issuedAt ∧
      (exec h builder.proofIds.generate (exec h builder.clock.unixSeconds s).2).1 = .ok proofId ∧
      ((∃ p, UnverifiedDpopProof.parse crypto json proof = .ok p) ↔
        FitsLimits request issuedAt proofId) := by
  obtain ⟨issuedAt, proofId, signature, hclock, hpos, hid, hsig, rfl⟩ := exec_build_eq_ok hbuild
  refine ⟨issuedAt, proofId, hclock, hid, ?_⟩
  constructor
  · rintro ⟨p, hp⟩
    exact ((parse_requestProof_iff json _ request hpos proofId hsig.1).1 hp).1
  · intro hfits
    exact ⟨_, (parse_requestProof_iff json _ request hpos proofId hsig.1).2 ⟨hfits, rfl⟩⟩

/-- The proof of a short request is accepted. -/
theorem parse_build_iff_sample :
    ∃ proof p, (exec noHandler (sampleBuilder.build sampleRequest) ()).1 = .ok proof ∧
      UnverifiedDpopProof.parse permissiveCrypto compactText proof = .ok p := by
  obtain ⟨issuedAt, proofId, hclock, hid, hiff⟩ := parse_build_iff compactText noHandler
    sampleBuilder sampleRequest () (exec_sampleBuilder sampleRequest)
  cases hclock
  cases hid
  obtain ⟨p, hp⟩ := hiff.2 sampleRequest_fits
  exact ⟨_, p, exec_sampleBuilder sampleRequest, hp⟩

/-- A nonce of 1024 control characters: six bytes each in the claims text. -/
def controlNonce : DpopNonce where
  value := ⟨List.replicate 1024 1, isUtf8_of_bytes fun b hb => by
    rw [List.eq_of_mem_replicate hb]
    decide⟩
  ne_nil := fun h => by
    have := congrArg List.length h
    rw [List.length_replicate] at this
    cases this
  length_le := Nat.le_of_eq List.length_replicate

/-- The builder emits a proof with this nonce that the parser rejects. -/
theorem parse_build_controlNonce :
    ∃ proof, (exec noHandler (sampleBuilder.build (sampleRequest.withNonce controlNonce)) ()).1 =
        .ok proof ∧
      ¬ ∃ p, UnverifiedDpopProof.parse permissiveCrypto compactText proof = .ok p := by
  refine ⟨_, exec_sampleBuilder _, ?_⟩
  rintro ⟨p, hp⟩
  have hfits := ((parse_requestProof_iff compactText sampleJwk _ (by decide) sampleProofId
    List.length_replicate).1 hp).1.claims
  have hnonce : Json.escapedLength controlNonce.asStr = 6144 := by
    have hbyte : Json.escapedByteLength 1 = 6 := by decide
    show ((List.replicate 1024 (1 : UInt8)).map Json.escapedByteLength).sum = 6144
    rw [List.map_replicate, List.sum_replicate, hbyte]
    rfl
  simp only [DpopRequest.withNonce, Option.elim, hnonce] at hfits
  omega

/-! ## Builder, parser and verifier -/

theorem exists_error {ε α : Type} {x : Except ε α} (h : ∀ v, x ≠ .ok v) : ∃ e, x = .error e := by
  cases x with
  | error e => exact ⟨e, rfl⟩
  | ok v => exact absurd rfl (h v)

/-- The parsed proof of a request passes the binding checks for that request. -/
theorem bindingAccepted_parsedProof {jwk : PublicP256Jwk crypto} {request : DpopRequest}
    {issuedAt : I64} {proofId : ProofId} {signature : Bytes}
    (hsig : SignatureValid jwk (signingInput jwk (requestClaims crypto request issuedAt proofId))
      signature) (hlen : request.target.asStr.length ≤ maxTargetBytes) :
    BindingAccepted
      (parsedProof jwk (requestClaims crypto request issuedAt proofId) signature) request where
  typ := rfl
  alg := rfl
  signature := hsig
  method := rfl
  target := EffectiveRequestTarget.parse_asStr hlen

/-- The claims of a request are accepted for that request exactly within the window. -/
theorem claimsAccepted_parsedProof_iff (jwk : PublicP256Jwk crypto) (request : DpopRequest)
    {issuedAt : I64} (hpos : 0 < issuedAt.toInt) (proofId : ProofId) (signature : Bytes)
    {policy : VerificationPolicy}
    (hexp : issuedAt.toInt + policy.maxProofAgeSeconds < 2 ^ 63) (now : I64) :
    (∃ asked, ClaimsAccepted policy
      (parsedProof jwk (requestClaims crypto request issuedAt proofId) signature) request now
        asked) ↔
      -(policy.allowedFutureSkewSeconds : Int) ≤ now.toInt - issuedAt.toInt ∧
        now.toInt - issuedAt.toInt ≤ policy.maxProofAgeSeconds := by
  constructor
  · rintro ⟨asked, h⟩
    exact ⟨h.notFuture, h.notExpired⟩
  · rintro ⟨hfuture, hexpired⟩
    have hjti := proofId.length_le
    unfold maxProofIdBytes at hjti
    obtain ⟨key, hkey⟩ := deriveReplayKey_ok jwk.thumbprint request
      (show proofId.asStr.length < 2 ^ 64 from Nat.lt_of_le_of_lt hjti (by norm_num))
    have hlow : -2 ^ 63 ≤ issuedAt.toInt + (policy.maxProofAgeSeconds : Int) := by omega
    refine ⟨⟨key, ⟨issuedAt.toInt + policy.maxProofAgeSeconds, hlow, hexp⟩⟩, hpos,
      hfuture, hexpired, ?_, ?_, hkey, rfl⟩
    · intro nonce hnonce
      simp [parsedProof, requestClaims, hnonce]
    · intro token htoken
      simp [parsedProof, requestClaims, htoken]

/-- A request that differs in what the proof binds: the method, the target, the presented token or
the required nonce. -/
def Differs (crypto : Crypto) (request other : DpopRequest) : Prop :=
  other.method ≠ request.method ∨ other.target ≠ request.target ∨
    (∃ token', other.accessToken = some token' ∧
      ∀ token, request.accessToken = some token → crypto.sha256 token ≠ crypto.sha256 token') ∨
    ∃ nonce', other.nonce = some nonce' ∧
      ∀ nonce, request.nonce = some nonce → nonce.asStr ≠ nonce'.asStr

/-- No other request accepts the claims of a request. -/
theorem not_accepted_of_differs {jwk : PublicP256Jwk crypto} {request other : DpopRequest}
    (hdiff : Differs crypto request other) {issuedAt : I64} {proofId : ProofId} {signature : Bytes}
    (hlen : request.target.asStr.length ≤ maxTargetBytes) {policy : VerificationPolicy} {now : I64}
    {asked : ReplayRequest}
    (hbind : BindingAccepted
      (parsedProof jwk (requestClaims crypto request issuedAt proofId) signature) other)
    (hclaims : ClaimsAccepted policy
      (parsedProof jwk (requestClaims crypto request issuedAt proofId) signature) other now asked) :
    False := by
  rcases hdiff with hmethod | htarget | ⟨token', htoken', hhash⟩ | ⟨nonce', hnonce', hdistinct⟩
  · exact hmethod hbind.method.symm
  · have hparse := EffectiveRequestTarget.parse_asStr hlen
    have hother : EffectiveRequestTarget.parse request.target.asStr = .ok other.target :=
      hbind.target
    rw [hparse] at hother
    exact htarget (Except.ok.inj hother).symm
  · have hath : request.accessToken.map (accessTokenHash crypto) =
        some (accessTokenHash crypto token') := hclaims.token token' htoken'
    obtain ⟨token, htoken, he⟩ := Option.map_eq_some_iff.1 hath
    exact hhash token htoken (Subtype.ext (Base64.encode_injective he))
  · have hpresented : request.nonce.map DpopNonce.asStr = some nonce'.asStr :=
      hclaims.nonce nonce' hnonce'
    obtain ⟨nonce, hnonce, he⟩ := Option.map_eq_some_iff.1 hpresented
    exact hdistinct nonce hnonce he

/-- **What the builder emits and the parser accepts carries the claims of the request and the key
of the signer; the verifier accepts it for the request exactly within the window of the policy, and
for no request that differs.** -/
theorem build_parse_verify {S : Signature} {σ : Type} (h : (op : S.Op) → σ → S.Res op × σ)
    (builder : DpopProofBuilder crypto S) (request : DpopRequest) (s : σ) {proof : Bytes}
    {p : UnverifiedDpopProof crypto}
    (hbuild : (exec h (builder.build request) s).1 = .ok proof)
    (hparse : UnverifiedDpopProof.parse crypto json proof = .ok p) :
    ∃ issuedAt proofId, (exec h builder.clock.unixSeconds s).1 = .ok issuedAt ∧
      (exec h builder.proofIds.generate (exec h builder.clock.unixSeconds s).2).1 = .ok proofId ∧
      p.claims = ⟨proofId.asStr, request.method, request.target.asStr, issuedAt,
        request.accessToken.map (accessTokenHash crypto), request.nonce.map DpopNonce.asStr⟩ ∧
      p.publicJwk = builder.signer.publicJwk ∧
      (∀ {S' : Signature} {σ' : Type} (h' : (op : S'.Op) → σ' → S'.Res op × σ')
        (verifier : DpopVerifier S') (store : ReplayStore S') (s' : σ') (now : I64),
        (exec h' verifier.clock.unixSeconds s').1 = .ok now →
        (∀ key expires t, (exec h' (store.checkAndRecord key expires) t).1 = .ok .fresh) →
        issuedAt.toInt + verifier.policy.maxProofAgeSeconds < 2 ^ 63 →
        ((-(verifier.policy.allowedFutureSkewSeconds : Int) ≤ now.toInt - issuedAt.toInt ∧
            now.toInt - issuedAt.toInt ≤ verifier.policy.maxProofAgeSeconds →
          ∃ v, (exec h' (verifier.verify p request store) s').1 = .ok v ∧
            v.keyThumbprint = builder.signer.publicJwk.thumbprint ∧ v.issuedAtUnix = issuedAt) ∧
        (¬ (-(verifier.policy.allowedFutureSkewSeconds : Int) ≤ now.toInt - issuedAt.toInt ∧
            now.toInt - issuedAt.toInt ≤ verifier.policy.maxProofAgeSeconds) →
          ∃ e, (exec h' (verifier.verify p request store) s').1 = .error e))) ∧
      (∀ {S' : Signature} {σ' : Type} (h' : (op : S'.Op) → σ' → S'.Res op × σ')
        (verifier : DpopVerifier S') (store : ReplayStore S') (s' : σ') (other : DpopRequest),
        Differs crypto request other →
          ∃ e, (exec h' (verifier.verify p other store) s').1 = .error e) := by
  obtain ⟨issuedAt, proofId, signature, hclock, hpos, hid, hsig, rfl⟩ := exec_build_eq_ok hbuild
  -- what was parsed is what was sealed, so that only the verifier is left to run
  obtain ⟨hfits, rfl⟩ := (parse_requestProof_iff json _ request hpos proofId hsig.1).1 hparse
  have hlen : request.target.asStr.length ≤ maxTargetBytes := hfits.target
  refine ⟨issuedAt, proofId, hclock, hid, rfl, rfl, ?_, ?_⟩
  · intro S' σ' h' verifier store s' now hnow hfresh hexp
    have hwindow := claimsAccepted_parsedProof_iff builder.signer.publicJwk request hpos proofId
      signature hexp now
    constructor
    · intro hin
      obtain ⟨asked, hasked⟩ := hwindow.2 hin
      refine ⟨⟨builder.signer.publicJwk.thumbprint, issuedAt, request.nonce.isSome, true,
        request.accessToken.isSome⟩, ?_, rfl, rfl⟩
      exact (exec_verify_eq_ok_iff h' verifier _ request store s' _).2
        ⟨bindingAccepted_parsedProof hsig hlen, now, asked, hnow, hasked, hfresh _ _ _, rfl⟩
    · intro hout
      refine exists_error fun v hv => ?_
      -- an acceptance would put the proof into the window
      obtain ⟨-, now', asked, hnow', hasked, -⟩ :=
        (exec_verify_eq_ok_iff h' verifier _ request store s' v).1 hv
      rw [hnow] at hnow'
      cases hnow'
      exact hout (hwindow.1 ⟨asked, hasked⟩)
  · intro S' σ' h' verifier store s' other hdiff
    refine exists_error fun v hv => ?_
    obtain ⟨hbind, now, asked, -, hasked, -⟩ :=
      (exec_verify_eq_ok_iff h' verifier _ other store s' v).1 hv
    exact not_accepted_of_differs hdiff hlen hbind hasked

/-- The proof of a short request is verified a second later, and not a day later. -/
theorem build_parse_verify_sample :
    ∃ p : UnverifiedDpopProof permissiveCrypto,
      (∃ v, (exec noHandler (DpopVerifier.verify ⟨⟨.ret (.ok ⟨1001, by norm_num, by norm_num⟩)⟩,
        .default⟩ p sampleRequest ⟨fun _ _ => .ret (.ok .fresh)⟩) ()).1 = .ok v) ∧
      ∃ e, (exec noHandler (DpopVerifier.verify ⟨⟨.ret (.ok ⟨87400, by norm_num, by norm_num⟩)⟩,
        .default⟩ p sampleRequest ⟨fun _ _ => .ret (.ok .fresh)⟩) ()).1 = .error e := by
  have hsig : (List.replicate 64 (0 : UInt8)).length = es256SignatureBytes := List.length_replicate
  have hparse := (parse_requestProof_iff compactText sampleJwk sampleRequest sampleTime_pos
    sampleProofId hsig).2 ⟨sampleRequest_fits, rfl⟩
  obtain ⟨issuedAt, proofId, hclock, -, -, -, hverify, -⟩ :=
    build_parse_verify compactText noHandler
    sampleBuilder sampleRequest () (exec_sampleBuilder sampleRequest) hparse
  cases hclock
  have hsoon := hverify noHandler ⟨⟨.ret (.ok ⟨1001, by norm_num, by norm_num⟩)⟩, .default⟩
    ⟨fun _ _ => .ret (.ok .fresh)⟩ () _ rfl (fun _ _ _ => rfl) (by decide)
  have hlate := hverify noHandler ⟨⟨.ret (.ok ⟨87400, by norm_num, by norm_num⟩)⟩, .default⟩
    ⟨fun _ _ => .ret (.ok .fresh)⟩ () _ rfl (fun _ _ _ => rfl) (by decide)
  obtain ⟨v, hv, -⟩ := hsoon.1 (by decide)
  exact ⟨_, ⟨v, hv⟩, hlate.2 (by decide)⟩

end Agreement

end Keylix.Dpop

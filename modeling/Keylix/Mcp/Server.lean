import Keylix.Verifier.Nonce

/-!
# Servers of the Model Context Protocol

The verification of `keylix-mcp` before a request is dispatched: the header values of a request, its
proof, and the composition with the token that the host validated.

`entryPoints_agree`: this entry point and the one of the verifier application make the same
decision. They check the parts of a request in different orders, but perform the same operations on
the clock and on the replay store, so that they also leave the same state.
-/

set_option autoImplicit false

namespace Keylix.Mcp

open Keylix.Lib Keylix.Core Keylix.Dpop Keylix.OAuth Keylix.Verifier
open Keylix.Lib.Prog (exec exec_bind exec_ret)

/-- A request with the values of its proof header. -/
structure McpHttpRequest where
  method : Bytes
  target : EffectiveRequestTarget
  accessToken : Bytes
  dpopHeaderValues : List Bytes
  nonce : Option DpopNonce

namespace McpHttpRequest

def new (method : Bytes) (target : EffectiveRequestTarget) (accessToken : Bytes)
    (dpopHeaderValues : List Bytes) : McpHttpRequest :=
  ⟨method, target, accessToken, dpopHeaderValues, none⟩

def withNonce (request : McpHttpRequest) (nonce : DpopNonce) : McpHttpRequest :=
  { request with nonce := some nonce }

end McpHttpRequest

inductive McpDpopServerError where
  | proof (error : DpopError)
  | senderBinding (error : OAuthDpopError)
  deriving DecidableEq

structure McpDpopServer (S : Signature) where
  clock : Clock S
  policy : VerificationPolicy
  replayStore : ReplayStore S

section Server

variable {S : Signature} (crypto : Crypto) (json : JsonText)

/-- The header values are read before the method is checked. -/
def McpDpopServer.verify (server : McpDpopServer S) (request : McpHttpRequest)
    (validatedToken : HostValidatedToken) :
    Prog S (Except McpDpopServerError VerifiedSenderBinding) :=
  match parseDpopHeaderValues crypto json request.dpopHeaderValues with
  | .error e => pure (.error (.proof e))
  | .ok proof =>
      match DpopRequest.new request.method request.target with
      | .error e => pure (.error (.proof e))
      | .ok value => do
          let presented := value.withAccessToken request.accessToken
          let dpopRequest := match request.nonce with
            | some nonce => presented.withNonce nonce
            | none => presented
          let verifier : DpopVerifier S := ⟨server.clock, server.policy⟩
          match ← verifier.verify proof dpopRequest server.replayStore with
          | .error e => pure (.error (.proof e))
          | .ok verified =>
              pure ((composeSenderBinding crypto verified request.accessToken
                validatedToken).mapError .senderBinding)

/-! ## The two entry points -/

/-- The server over the capabilities of the application. -/
def serverOf (app : VerifierApplication S) : McpDpopServer S :=
  ⟨app.clock, app.verificationPolicy, app.replayStore⟩

/-- The request with its one proof header, and with the nonce that it has to carry. -/
def httpRequest (request : VerifierRequest) (target : EffectiveRequestTarget)
    (nonce : Option DpopNonce) : McpHttpRequest :=
  let http := McpHttpRequest.new request.method target request.accessToken [request.dpopProof]
  match nonce with
  | none => http
  | some nonce => http.withNonce nonce

/-- What the application reports of a binding. -/
def reported (binding : VerifiedSenderBinding) : VerifiedBinding where
  keyThumbprint := binding.keyThumbprint.toBase64url
  proofIssuedAtUnix := binding.proofIssuedAtUnix
  nonceEnforced := binding.nonceEnforced
  replayChecked := binding.replayChecked

theorem httpRequest_fields (request : VerifierRequest) (target : EffectiveRequestTarget)
    (nonce : Option DpopNonce) :
    (httpRequest request target nonce).method = request.method ∧
      (httpRequest request target nonce).target = target ∧
      (httpRequest request target nonce).accessToken = request.accessToken ∧
      (httpRequest request target nonce).dpopHeaderValues = [request.dpopProof] ∧
      (httpRequest request target nonce).nonce = nonce := by
  cases nonce with
  | none => exact ⟨rfl, rfl, rfl, rfl, rfl⟩
  | some nonce => exact ⟨rfl, rfl, rfl, rfl, rfl⟩

/-- Both entry points verify the proof for the same request. -/
theorem dpopRequest_agree (value : DpopRequest) (accessToken : Bytes) (nonce : Option DpopNonce) :
    (match nonce with
      | some nonce => (value.withAccessToken accessToken).withNonce nonce
      | none => value.withAccessToken accessToken) =
      VerifierApplication.dpopRequest value accessToken nonce := by
  cases nonce with
  | none => rfl
  | some nonce => rfl

/-- The application composes its result through the binding of the validated token. -/
theorem composeResult_eq_verified_iff {request : VerifierRequest} {v : VerifiedDpopProof}
    {version : Nat} {binding : VerifiedBinding} :
    VerifierApplication.composeResult crypto request v = .verified version binding ↔
      ∃ validated composed, HostValidatedToken.fromEquivalentHostValidator crypto
          request.accessToken request.confirmationJkt = .ok validated ∧
        composeSenderBinding crypto v request.accessToken validated = .ok composed ∧
        version = verifierProtocolVersion ∧ binding = reported composed := by
  unfold VerifierApplication.composeResult
  cases hnew : HostValidatedToken.fromEquivalentHostValidator crypto request.accessToken
      request.confirmationJkt with
  | error e => simp [VerifierResult.reject]
  | ok validated =>
    cases hcompose : composeSenderBinding crypto v request.accessToken validated with
    | error e => simp [VerifierResult.reject, hcompose]
    | ok composed => simp [hcompose, reported, eq_comm]

variable {σ : Type} (h : (op : S.Op) → σ → S.Res op × σ)

/-- After the nonce is known, the two entry points accept together. -/
theorem verifyWithNonce_agree (app : VerifierApplication S) (request : VerifierRequest)
    (target : EffectiveRequestTarget) (nonce : Option DpopNonce) (s : σ) (version : Nat)
    (binding : VerifiedBinding) :
    (exec h (VerifierApplication.verifyWithNonce crypto json app request target nonce) s).1 =
        .verified version binding ↔
      ∃ validated composed, HostValidatedToken.fromEquivalentHostValidator crypto
          request.accessToken request.confirmationJkt = .ok validated ∧
        (exec h ((serverOf app).verify crypto json (httpRequest request target nonce) validated)
          s).1 = .ok composed ∧
        version = verifierProtocolVersion ∧ binding = reported composed := by
  obtain ⟨hmethod, htarget, htoken, hvalues, hnonce⟩ := httpRequest_fields request target nonce
  unfold VerifierApplication.verifyWithNonce McpDpopServer.verify
  rw [hmethod, htarget, htoken, hvalues, hnonce]
  cases hnew : DpopRequest.new request.method target with
  | error e =>
    cases parseDpopHeaderValues crypto json [request.dpopProof] with
    | error e' => simp [VerifierResult.reject]
    | ok proof => simp [VerifierResult.reject]
  | ok value =>
    cases parseDpopHeaderValues crypto json [request.dpopProof] with
    | error e => simp [VerifierResult.reject]
    | ok proof =>
      simp only [dpopRequest_agree, exec_bind, serverOf]
      cases (exec h (DpopVerifier.verify ⟨app.clock, app.verificationPolicy⟩ proof
          (VerifierApplication.dpopRequest value request.accessToken nonce) app.replayStore)
            s).1 with
      | error e => simp [VerifierApplication.rejectProof, VerifierResult.rejectedWithNonce]
      | ok v =>
        simp only [Prog.pure_eq, exec_ret, composeResult_eq_verified_iff]
        -- a composition succeeds under its error wrapper as without it
        have hmap : ∀ (validated : HostValidatedToken) (composed : VerifiedSenderBinding),
            (composeSenderBinding crypto v request.accessToken validated).mapError
                McpDpopServerError.senderBinding = .ok composed ↔
              composeSenderBinding crypto v request.accessToken validated = .ok composed := by
          intro validated composed
          cases composeSenderBinding crypto v request.accessToken validated with
          | error e => simp [Except.mapError]
          | ok binding => simp [Except.mapError]
        simp only [hmap]

/-- Accepted or not, the two entry points leave the same state. -/
theorem verifyWithNonce_state (app : VerifierApplication S) (request : VerifierRequest)
    (target : EffectiveRequestTarget) (nonce : Option DpopNonce) (s : σ)
    (validated : HostValidatedToken) :
    (exec h (VerifierApplication.verifyWithNonce crypto json app request target nonce) s).2 =
      (exec h ((serverOf app).verify crypto json (httpRequest request target nonce) validated)
        s).2 := by
  obtain ⟨hmethod, htarget, htoken, hvalues, hnonce⟩ := httpRequest_fields request target nonce
  unfold VerifierApplication.verifyWithNonce McpDpopServer.verify
  rw [hmethod, htarget, htoken, hvalues, hnonce]
  cases hnew : DpopRequest.new request.method target with
  | error e =>
    cases parseDpopHeaderValues crypto json [request.dpopProof] with
    | error e' => rfl
    | ok proof => rfl
  | ok value =>
    cases parseDpopHeaderValues crypto json [request.dpopProof] with
    | error e => rfl
    | ok proof =>
      simp only [dpopRequest_agree, exec_bind, serverOf]
      cases (exec h (DpopVerifier.verify ⟨app.clock, app.verificationPolicy⟩ proof
          (VerifierApplication.dpopRequest value request.accessToken nonce) app.replayStore)
            s).1 with
      | error e => rfl
      | ok v => rfl

/-- The nonce that the application requires: none, or the one that its store holds. -/
def Requires (app : VerifierApplication S) (s : σ) : Option DpopNonce → Prop
  | none => app.noncePolicy = .optional
  | some nonce => ∃ context, app.noncePolicy = .required context ∧
      exec h (app.nonceStore.expectedNonce context) s = (.ok (some nonce), s)

theorem exec_requiredNonce_of_requires {app : VerifierApplication S} {s : σ}
    {nonce : Option DpopNonce} (hrequires : Requires h app s nonce) :
    exec h app.requiredNonce s = (.ok nonce, s) := by
  unfold VerifierApplication.requiredNonce
  cases nonce with
  | none =>
    have hpolicy : app.noncePolicy = .optional := hrequires
    rw [hpolicy]
    rfl
  | some nonce =>
    obtain ⟨context, hpolicy, hholds⟩ := hrequires
    rw [hpolicy]
    simp only [exec_bind, hholds]
    rfl

/-- A request that is well formed goes on to the checks after the nonce. -/
theorem exec_verify_of_requires {app : VerifierApplication S} {request : VerifierRequest}
    {target : EffectiveRequestTarget} {nonce : Option DpopNonce} {s : σ}
    (hversion : request.version = 1) (htoken : request.accessToken ≠ [])
    (hproof : request.dpopProof ≠ [])
    (htarget : EffectiveRequestTarget.parse request.target = .ok target)
    (hrequires : Requires h app s nonce) :
    exec h (app.verify crypto json request) s =
      exec h (VerifierApplication.verifyWithNonce crypto json app request target nonce) s := by
  have hversion' : ¬ request.version ≠ verifierProtocolVersion := not_not.2 hversion
  have hnonempty : (request.accessToken.isEmpty || request.dpopProof.isEmpty) = false := by
    rw [Bool.or_eq_false_iff, List.isEmpty_eq_false_iff, List.isEmpty_eq_false_iff]
    exact ⟨htoken, hproof⟩
  unfold VerifierApplication.verify
  rw [if_neg hversion', hnonempty, if_neg Bool.false_ne_true, htarget]
  simp only [exec_bind, exec_requiredNonce_of_requires h hrequires]

/-- **The two entry points agree**: the application verifies a request if and only if the host token
is accepted and the server verifies the same request; and then both report the same binding and
leave the same state. -/
theorem entryPoints_agree (app : VerifierApplication S) (request : VerifierRequest)
    (target : EffectiveRequestTarget) (nonce : Option DpopNonce) (s : σ)
    (hversion : request.version = 1) (htoken : request.accessToken ≠ [])
    (hproof : request.dpopProof ≠ [])
    (htarget : EffectiveRequestTarget.parse request.target = .ok target)
    (hrequires : Requires h app s nonce) :
    ((∃ version binding, (exec h (app.verify crypto json request) s).1 =
        .verified version binding) ↔
      ∃ validated composed, HostValidatedToken.fromEquivalentHostValidator crypto
          request.accessToken request.confirmationJkt = .ok validated ∧
        (exec h ((serverOf app).verify crypto json (httpRequest request target nonce) validated)
          s).1 = .ok composed) ∧
    ∀ version binding validated composed,
      (exec h (app.verify crypto json request) s).1 = .verified version binding →
      HostValidatedToken.fromEquivalentHostValidator crypto request.accessToken
        request.confirmationJkt = .ok validated →
      (exec h ((serverOf app).verify crypto json (httpRequest request target nonce) validated)
        s).1 = .ok composed →
      binding.keyThumbprint = composed.keyThumbprint.toBase64url ∧
        binding.proofIssuedAtUnix = composed.proofIssuedAtUnix ∧
        binding.nonceEnforced = composed.nonceEnforced ∧
        binding.replayChecked = composed.replayChecked ∧
        (exec h (app.verify crypto json request) s).2 =
          (exec h ((serverOf app).verify crypto json (httpRequest request target nonce) validated)
            s).2 := by
  -- both entry points are down to the same nonce
  rw [exec_verify_of_requires crypto json h hversion htoken hproof htarget hrequires]
  refine ⟨⟨?_, ?_⟩, ?_⟩
  · rintro ⟨version, binding, hv⟩
    obtain ⟨validated, composed, hvalidated, hcomposed, -, -⟩ :=
      (verifyWithNonce_agree crypto json h app request target nonce s version binding).1 hv
    exact ⟨validated, composed, hvalidated, hcomposed⟩
  · rintro ⟨validated, composed, hvalidated, hcomposed⟩
    exact ⟨_, _, (verifyWithNonce_agree crypto json h app request target nonce s _ _).2
      ⟨validated, composed, hvalidated, hcomposed, rfl, rfl⟩⟩
  · intro version binding validated composed hv hvalidated hcomposed
    obtain ⟨validated', composed', hvalidated', hcomposed', -, rfl⟩ :=
      (verifyWithNonce_agree crypto json h app request target nonce s version binding).1 hv
    rw [hvalidated] at hvalidated'
    cases hvalidated'
    rw [hcomposed] at hcomposed'
    cases hcomposed'
    exact ⟨rfl, rfl, rfl, rfl, verifyWithNonce_state crypto json h app request target nonce s _⟩

end Server

/-- A service that requires the nonce that it holds. -/
def sampleApplication : VerifierApplication noOps where
  clock := ⟨.ret (.ok sampleTime)⟩
  replayStore := ⟨fun _ _ => .ret (.ok .fresh)⟩
  nonceStore := ⟨fun _ => .ret (.ok (some firstNonce)), fun _ => .ret (.error .mk)⟩
  noncePolicy := .required sampleServerContext
  verificationPolicy := .default

/-- A confirmed request with the nonce is verified by the application, and so by the server. -/
theorem entryPoints_agree_sample :
    ∃ validated composed, HostValidatedToken.fromEquivalentHostValidator permissiveCrypto
        (ascii "token") (some sampleJkt) = .ok validated ∧
      (exec noHandler ((serverOf sampleApplication).verify permissiveCrypto compactText
        (httpRequest (sampleVerifierRequest (some firstNonce) (some sampleJkt)) sampleTarget
          (some firstNonce)) validated) ()).1 = .ok composed := by
  have hproof : (sampleVerifierRequest (some firstNonce) (some sampleJkt)).dpopProof ≠ [] := by
    simp [sampleVerifierRequest, signedRequest, compactProof]
  have hverified : (exec noHandler (sampleApplication.verify permissiveCrypto compactText
      (sampleVerifierRequest (some firstNonce) (some sampleJkt))) ()).1 =
        .verified 1 ⟨sampleJkt, sampleTime, true, true⟩ := by
    have hservice : SampleService sampleApplication := ⟨rfl, fun _ _ => rfl, rfl⟩
    have hnonce : sampleApplication.requiredNonce = .ret (.ok (some firstNonce)) := rfl
    rw [verify_sample, hnonce, Prog.bind_ret]
    simp only [verifyWithNonce_sample compactText hservice shortNonce_first firstNonce,
      sampleResult, if_true, exec_ret]
  exact (entryPoints_agree permissiveCrypto compactText noHandler sampleApplication
    (sampleVerifierRequest (some firstNonce) (some sampleJkt)) sampleTarget (some firstNonce) () rfl
    (show ascii "token" ≠ [] by decide) hproof parse_sampleTarget
    ⟨sampleServerContext, rfl, rfl⟩).1.1 ⟨_, _, hverified⟩

end Keylix.Mcp

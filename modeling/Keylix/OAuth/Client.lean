import Keylix.Dpop.Agreement
import Keylix.Dpop.State
import Keylix.OAuth.Binding

/-!
# The DPoP-required client

The client decorator of `keylix-oauth`: it emits a fresh proof for one attempt at a token endpoint
or at a protected resource, with the nonce that the server of that attempt asked for, and it records
the nonces that come back. A token that was accepted under a key is used with that key only.

The client is a program over its capabilities. The lemmas `exec_*` say what each call does to a
store that any number of clients share, and what an emitted proof carries.
-/

set_option autoImplicit false

namespace Keylix.OAuth

open Keylix.Lib Keylix.Core Keylix.Dpop
open Keylix.Lib.Prog (exec exec_bind exec_ret)

def maxCredentialBytes : Nat := 16384

/-! ## Retry budgets -/

/-- The nonce retries left to one logical request. -/
structure NonceRetryBudget where
  remaining : UInt8

namespace NonceRetryBudget

def singleRetry : NonceRetryBudget := ⟨1⟩

def canRetry (budget : NonceRetryBudget) : Bool := 0 < budget.remaining

def consume (budget : NonceRetryBudget) : Except OAuthDpopError Unit × NonceRetryBudget :=
  if budget.remaining = 0 then (.error .nonceRetryLimitExceeded, budget)
  else (.ok (), ⟨budget.remaining - 1⟩)

end NonceRetryBudget

/-! ## Bound credentials -/

/-- An access token that belongs to a proof key. -/
structure BoundAccessToken where
  value : Str
  proofKey : JwkThumbprint

/-- A refresh token that belongs to a proof key. -/
structure BoundRefreshToken where
  value : Str
  proofKey : JwkThumbprint

structure BoundTokenSet where
  accessToken : BoundAccessToken
  refreshToken : Option BoundRefreshToken

def isB64tokenByte (b : UInt8) : Bool := isAsciiAlphanumeric b || (ascii "-._~+/").contains b

def validateAccessToken (value : Bytes) : Except OAuthDpopError Unit :=
  if value.isEmpty || maxCredentialBytes < value.length || !isAscii value then
    .error .invalidCredential
  else
    let body := value.takeWhile (· ≠ byte '=')
    let padding := value.dropWhile (· ≠ byte '=')
    if body.isEmpty || !body.all isB64tokenByte || !padding.all (· = byte '=') then
      .error .invalidCredential
    else .ok ()

def validateRefreshToken (value : Bytes) : Except OAuthDpopError Unit :=
  if value.isEmpty || maxCredentialBytes < value.length || !isAscii value ||
      value.any (fun b => !(0x20 ≤ b && b ≤ 0x7e)) then .error .invalidCredential
  else .ok ()

/-- The proof for an attempt at a token endpoint. -/
structure TokenEndpointDpop where
  proof : Bytes

/-- The authorization and the proof for an attempt at a protected resource. -/
structure ProtectedResourceAuthorization where
  authorization : Bytes
  proof : Bytes

/-! ## The client -/

structure DpopRequiredClient (crypto : Crypto) (S : Signature) where
  signer : DpopSigner crypto S
  clock : Clock S
  proofIds : ProofIdGenerator S
  nonces : ClientNonceStore S

def requireNamespace (context : NonceContext) (expected : NonceNamespace) :
    Except OAuthDpopError Unit :=
  if context.serverSpace ≠ expected then .error .nonceContextMismatch else .ok ()

namespace DpopRequiredClient

variable {crypto : Crypto} {S : Signature} (client : DpopRequiredClient crypto S)

def requireKeyContinuity (expected : JwkThumbprint) : Except OAuthDpopError Unit :=
  if client.signer.publicJwk.thumbprint ≠ expected then .error .proofKeyContinuityMismatch
  else .ok ()

/-- A request with the nonce of its context, if there is one. -/
def withContextNonce (request : DpopRequest) : Option DpopNonce → DpopRequest
  | some nonce => request.withNonce nonce
  | none => request

/-- A fresh proof of a request. -/
def buildProof (request : DpopRequest) : Prog S (Except OAuthDpopError Bytes) := do
  let proof ← DpopProofBuilder.build ⟨client.signer, client.clock, client.proofIds⟩ request
  pure (proof.mapError .dpop)

def tokenRequest (context : NonceContext) (tokenEndpoint : EffectiveRequestTarget) :
    Prog S (Except OAuthDpopError TokenEndpointDpop) :=
  match requireNamespace context .authorizationServer with
  | .error e => pure (.error e)
  | .ok () => do
      match ← client.nonces.nonceFor context with
      | .error _ => pure (.error .nonceStateUnavailable)
      | .ok nonce =>
          match DpopRequest.new (ascii "POST") tokenEndpoint with
          | .error e => pure (.error (.dpop e))
          | .ok request => do
              let proof ← client.buildProof (withContextNonce request nonce)
              pure (proof.map TokenEndpointDpop.mk)

/-- Accepts a token response of the type DPoP and binds its tokens to the key of the signer. -/
def acceptTokenResponse (tokenType : Bytes) (accessToken : Str) (refreshToken : Option Str) :
    Except OAuthDpopError BoundTokenSet :=
  if !eqIgnoreAsciiCase tokenType (ascii "DPoP") then .error .tokenTypeNotDpop
  else do
    validateAccessToken accessToken.bytes
    match refreshToken with
    | some value => validateRefreshToken value.bytes
    | none => .ok ()
    let proofKey := client.signer.publicJwk.thumbprint
    .ok ⟨⟨accessToken, proofKey⟩, refreshToken.map fun value => ⟨value, proofKey⟩⟩

def protectedResource (context : NonceContext) (method : Bytes) (target : EffectiveRequestTarget)
    (token : BoundAccessToken) : Prog S (Except OAuthDpopError ProtectedResourceAuthorization) :=
  match requireNamespace context .resourceServer with
  | .error e => pure (.error e)
  | .ok () =>
      match client.requireKeyContinuity token.proofKey with
      | .error e => pure (.error e)
      | .ok () => do
          match ← client.nonces.nonceFor context with
          | .error _ => pure (.error .nonceStateUnavailable)
          | .ok nonce =>
              match DpopRequest.new method target with
              | .error e => pure (.error (.dpop e))
              | .ok request => do
                  let proof ← client.buildProof
                    (withContextNonce (request.withAccessToken token.value.bytes) nonce)
                  pure (proof.map fun proof => ⟨ascii "DPoP " ++ token.value.bytes, proof⟩)

def refreshTokenRequest (context : NonceContext) (tokenEndpoint : EffectiveRequestTarget)
    (refreshToken : BoundRefreshToken) : Prog S (Except OAuthDpopError TokenEndpointDpop) :=
  match client.requireKeyContinuity refreshToken.proofKey with
  | .error e => pure (.error e)
  | .ok () => client.tokenRequest context tokenEndpoint

/-- The budget is consumed before the nonce is recorded. -/
def recordNonceChallenge (context : NonceContext) (nonce : DpopNonce)
    (retryBudget : NonceRetryBudget) :
    Prog S (Except OAuthDpopError Unit × NonceRetryBudget) :=
  match retryBudget.consume with
  | (.error e, budget) => pure (.error e, budget)
  | (.ok (), budget) => do
      let answer ← client.nonces.recordChallenge context nonce
      pure (answer.mapError fun _ => .nonceStateUnavailable, budget)

def recordSuccessNonce (context : NonceContext) (nonce : Option DpopNonce) :
    Prog S (Except OAuthDpopError Unit) := do
  let answer ← client.nonces.recordSuccess context nonce
  pure (answer.mapError fun _ => .nonceStateUnavailable)

end DpopRequiredClient

/-! ## Clients of one store -/

section Shared

variable {crypto : Crypto} {E : Signature}

/-- A store next to the operations `E` of the environment. -/
def sharedStore (E : Signature) {capacity : Nat} (h : capacity ≠ 0) :
    InMemoryClientNonceStore (E.sum nonceOps) :=
  ⟨capacity, nonceMutex E, h⟩

/-- What a client brings besides the store: its key, a clock and a source of identifiers. -/
structure ClientCapabilities (crypto : Crypto) (E : Signature) where
  signer : DpopSigner crypto E
  clock : Clock E
  proofIds : ProofIdGenerator E

/-- The client with these capabilities and the store. -/
def ClientCapabilities.client (caps : ClientCapabilities crypto E) {capacity : Nat}
    (h : capacity ≠ 0) : DpopRequiredClient crypto (E.sum nonceOps) where
  signer := ⟨caps.signer.publicJwk, fun input => (caps.signer.sign input).inl⟩
  clock := ⟨caps.clock.unixSeconds.inl⟩
  proofIds := ⟨caps.proofIds.generate.inl⟩
  nonces := (sharedStore E h).clientNonceStore

/-- The builder of a client performs operations of the environment only. -/
theorem ClientCapabilities.build_inl (caps : ClientCapabilities crypto E) {capacity : Nat}
    (h : capacity ≠ 0) (request : DpopRequest) :
    DpopProofBuilder.build ⟨(caps.client h).signer, (caps.client h).clock,
        (caps.client h).proofIds⟩ request =
      (DpopProofBuilder.build ⟨caps.signer, caps.clock, caps.proofIds⟩ request).inl := by
  unfold DpopProofBuilder.build
  rw [Prog.inl_bind]
  congr 1
  funext time
  cases time with
  | error e => rfl
  | ok issuedAt =>
    simp only
    split
    · rfl
    rw [Prog.inl_bind]
    congr 1
    funext id
    cases id with
    | error e => rfl
    | ok proofId =>
      simp only
      rw [Prog.inl_bind]
      congr 1
      funext signature
      cases signature with
      | error e => rfl
      | ok signature => rfl

variable {ε : Type} (env : (op : E.Op) → ε → E.Res op × ε)

/-- The environment and the entries of the store. -/
abbrev clientExec : (op : (E.sum nonceOps).Op) → ε × NonceEntries →
    (E.sum nonceOps).Res op × (ε × NonceEntries) := Prog.sumExec env nonceExec

variable {capacity : Nat} (hcap : capacity ≠ 0) (caps : ClientCapabilities crypto E)

theorem exec_nonceFor (context : NonceContext) (s : ε × NonceEntries) :
    exec (clientExec env) ((caps.client hcap).nonces.nonceFor context) s =
      (.ok (s.2.lookup context), s) := rfl

theorem exec_recordChallenge (context : NonceContext) (nonce : DpopNonce) (s : ε × NonceEntries) :
    exec (clientExec env) ((caps.client hcap).nonces.recordChallenge context nonce) s =
      ((recordNonce capacity context nonce s.2).1.map fun _ => (),
        (s.1, (recordNonce capacity context nonce s.2).2)) := rfl

/-- An attempt leaves the store alone, and a proof is a proof of the request under the key of the
client. -/
theorem exec_buildProof (request : DpopRequest) (s : ε × NonceEntries) :
    (exec (clientExec env) ((caps.client hcap).buildProof request) s).2.2 = s.2 ∧
      ∀ proof, (exec (clientExec env) ((caps.client hcap).buildProof request) s).1 = .ok proof →
        EmittedFor caps.signer.publicJwk request proof := by
  unfold DpopRequiredClient.buildProof
  rw [exec_bind, caps.build_inl hcap, Prog.exec_inl]
  refine ⟨rfl, ?_⟩
  intro proof hproof
  simp only [Prog.pure_eq, exec_ret] at hproof
  cases hbuild : (exec env (DpopProofBuilder.build ⟨caps.signer, caps.clock, caps.proofIds⟩
      request) s.1).1 with
  | error e =>
    rw [hbuild] at hproof
    cases hproof
  | ok built =>
    rw [hbuild] at hproof
    cases hproof
    exact emittedFor_of_build hbuild

theorem nonce_withContextNonce {request : DpopRequest} (hnone : request.nonce = none)
    (nonce : Option DpopNonce) :
    (DpopRequiredClient.withContextNonce request nonce).nonce = nonce := by
  cases nonce with
  | none => exact hnone
  | some nonce => rfl

theorem accessToken_withContextNonce (request : DpopRequest) (nonce : Option DpopNonce) :
    (DpopRequiredClient.withContextNonce request nonce).accessToken = request.accessToken := by
  cases nonce with
  | none => rfl
  | some nonce => rfl

theorem methodTarget_withContextNonce (request : DpopRequest) (nonce : Option DpopNonce) :
    (DpopRequiredClient.withContextNonce request nonce).method = request.method ∧
      (DpopRequiredClient.withContextNonce request nonce).target = request.target := by
  cases nonce with
  | none => exact ⟨rfl, rfl⟩
  | some nonce => exact ⟨rfl, rfl⟩

theorem new_eq_ok {method : Bytes} {target : EffectiveRequestTarget} {request : DpopRequest}
    (h : DpopRequest.new method target = .ok request) :
    request.method = method ∧ request.target = target ∧ request.accessToken = none ∧
      request.nonce = none := by
  unfold DpopRequest.new at h
  split at h
  · cases h
    exact ⟨rfl, rfl, rfl, rfl⟩
  · cases h

theorem nonce_new {method : Bytes} {target : EffectiveRequestTarget} {request : DpopRequest}
    (h : DpopRequest.new method target = .ok request) : request.nonce = none :=
  (new_eq_ok h).2.2.2

theorem requireNamespace_eq_ok {context : NonceContext} {expected : NonceNamespace}
    (h : requireNamespace context expected = .ok ()) : context.serverSpace = expected := by
  unfold requireNamespace at h
  split at h
  · cases h
  next hspace => exact not_not.1 hspace

theorem requireKeyContinuity_eq_ok {S : Signature} {client : DpopRequiredClient crypto S}
    {expected : JwkThumbprint} (h : client.requireKeyContinuity expected = .ok ()) :
    client.signer.publicJwk.thumbprint = expected := by
  unfold DpopRequiredClient.requireKeyContinuity at h
  split at h
  · cases h
  next hkey => exact not_not.1 hkey

/-- A token request changes no nonce; its proof carries the nonce of its context, which is one of an
authorization server. -/
theorem exec_tokenRequest (context : NonceContext) (endpoint : EffectiveRequestTarget)
    (s : ε × NonceEntries) :
    (exec (clientExec env) ((caps.client hcap).tokenRequest context endpoint) s).2.2 = s.2 ∧
      ∀ v, (exec (clientExec env) ((caps.client hcap).tokenRequest context endpoint) s).1 = .ok v →
        context.serverSpace = .authorizationServer ∧
          ∃ request, EmittedFor caps.signer.publicJwk request v.proof ∧
            request.nonce = s.2.lookup context := by
  unfold DpopRequiredClient.tokenRequest
  cases hspace : requireNamespace context .authorizationServer with
  | error e =>
    refine ⟨rfl, ?_⟩
    intro v hv
    cases hv
  | ok u =>
    simp only
    rw [exec_bind, exec_nonceFor env hcap caps]
    simp only
    cases hnew : DpopRequest.new (ascii "POST") endpoint with
    | error e =>
      refine ⟨rfl, ?_⟩
      intro v hv
      cases hv
    | ok request =>
      obtain ⟨hentries, hproof⟩ := exec_buildProof env hcap caps
        (DpopRequiredClient.withContextNonce request (s.2.lookup context)) s
      simp only [exec_bind, Prog.pure_eq, exec_ret]
      refine ⟨hentries, ?_⟩
      intro v hv
      cases hbuilt : (exec (clientExec env) ((caps.client hcap).buildProof
          (DpopRequiredClient.withContextNonce request (s.2.lookup context))) s).1 with
      | error e =>
        rw [hbuilt] at hv
        cases hv
      | ok proof =>
        rw [hbuilt] at hv
        cases hv
        exact ⟨requireNamespace_eq_ok hspace, _, hproof proof hbuilt,
          nonce_withContextNonce (nonce_new hnew) _⟩

/-- A refresh request is a token request under the key of the refresh token. -/
theorem exec_refreshTokenRequest (context : NonceContext) (endpoint : EffectiveRequestTarget)
    (refreshToken : BoundRefreshToken) (s : ε × NonceEntries) :
    (exec (clientExec env) ((caps.client hcap).refreshTokenRequest context endpoint refreshToken)
        s).2.2 = s.2 ∧
      ∀ v, (exec (clientExec env)
          ((caps.client hcap).refreshTokenRequest context endpoint refreshToken) s).1 = .ok v →
        context.serverSpace = .authorizationServer ∧
          caps.signer.publicJwk.thumbprint = refreshToken.proofKey ∧
          ∃ request, EmittedFor caps.signer.publicJwk request v.proof ∧
            request.nonce = s.2.lookup context := by
  unfold DpopRequiredClient.refreshTokenRequest
  cases hkey : (caps.client hcap).requireKeyContinuity refreshToken.proofKey with
  | error e =>
    refine ⟨rfl, ?_⟩
    intro v hv
    cases hv
  | ok u =>
    simp only
    obtain ⟨hentries, hproof⟩ := exec_tokenRequest env hcap caps context endpoint s
    refine ⟨hentries, ?_⟩
    intro v hv
    obtain ⟨hspace, hemitted⟩ := hproof v hv
    have hthumb := requireKeyContinuity_eq_ok hkey
    exact ⟨hspace, hthumb, hemitted⟩

/-- A resource request changes no nonce; its proof is one for its method and target, and carries the
nonce of its context, which is one of a resource server, and the hash of the token, under the key of
the token. -/
theorem exec_protectedResource (context : NonceContext) (method : Bytes)
    (target : EffectiveRequestTarget) (token : BoundAccessToken) (s : ε × NonceEntries) :
    (exec (clientExec env) ((caps.client hcap).protectedResource context method target token)
        s).2.2 = s.2 ∧
      ∀ v, (exec (clientExec env)
          ((caps.client hcap).protectedResource context method target token) s).1 = .ok v →
        context.serverSpace = .resourceServer ∧
          caps.signer.publicJwk.thumbprint = token.proofKey ∧
          ∃ request, EmittedFor caps.signer.publicJwk request v.proof ∧
            request.nonce = s.2.lookup context ∧
            request.accessToken = some token.value.bytes ∧
            request.method = method ∧ request.target = target ∧
            v.authorization = ascii "DPoP " ++ token.value.bytes := by
  unfold DpopRequiredClient.protectedResource
  cases hspace : requireNamespace context .resourceServer with
  | error e =>
    refine ⟨rfl, ?_⟩
    intro v hv
    cases hv
  | ok u =>
    simp only
    cases hkey : (caps.client hcap).requireKeyContinuity token.proofKey with
    | error e =>
      refine ⟨rfl, ?_⟩
      intro v hv
      cases hv
    | ok u' =>
      simp only
      -- the nonce is read once, and the proof is built in the same state
      rw [exec_bind, exec_nonceFor env hcap caps]
      simp only
      cases hnew : DpopRequest.new method target with
      | error e =>
        refine ⟨rfl, ?_⟩
        intro v hv
        cases hv
      | ok request =>
        obtain ⟨hentries, hproof⟩ := exec_buildProof env hcap caps
          (DpopRequiredClient.withContextNonce (request.withAccessToken token.value.bytes)
            (s.2.lookup context)) s
        simp only [exec_bind, Prog.pure_eq, exec_ret]
        refine ⟨hentries, ?_⟩
        intro v hv
        cases hbuilt : (exec (clientExec env) ((caps.client hcap).buildProof
            (DpopRequiredClient.withContextNonce (request.withAccessToken token.value.bytes)
              (s.2.lookup context))) s).1 with
        | error e =>
          rw [hbuilt] at hv
          cases hv
        | ok proof =>
          rw [hbuilt] at hv
          cases hv
          -- a new request has no nonce, so that the one of the context is the one that is sent
          have hnone : (request.withAccessToken token.value.bytes).nonce = none :=
            show request.nonce = none from nonce_new hnew
          have hthumb := requireKeyContinuity_eq_ok hkey
          obtain ⟨hmethod, htarget, -, -⟩ := new_eq_ok hnew
          obtain ⟨hmethod', htarget'⟩ := methodTarget_withContextNonce
            (request.withAccessToken token.value.bytes) (s.2.lookup context)
          exact ⟨requireNamespace_eq_ok hspace, hthumb, _, hproof proof hbuilt,
            nonce_withContextNonce hnone _, accessToken_withContextNonce _ _,
            hmethod'.trans hmethod, htarget'.trans htarget, rfl⟩

/-- A challenge records its nonce, or fails and changes nothing. -/
theorem exec_recordNonceChallenge (context : NonceContext) (nonce : DpopNonce)
    (retryBudget : NonceRetryBudget) (s : ε × NonceEntries) :
    (∃ e budget, exec (clientExec env)
        ((caps.client hcap).recordNonceChallenge context nonce retryBudget) s =
          ((.error e, budget), s)) ∨
      ∃ budget, exec (clientExec env)
        ((caps.client hcap).recordNonceChallenge context nonce retryBudget) s =
          ((.ok (), budget), (s.1, s.2.insert context nonce)) ∧
        recordNonce capacity context nonce s.2 = (.ok nonce, s.2.insert context nonce) := by
  unfold DpopRequiredClient.recordNonceChallenge
  obtain ⟨answer, budget⟩ := retryBudget.consume
  cases answer with
  | error e => exact Or.inl ⟨e, budget, rfl⟩
  | ok u =>
    simp only [exec_bind, exec_recordChallenge, Prog.pure_eq, exec_ret]
    rcases recordNonce_cases capacity context nonce s.2 with h | h
    · rw [h]
      exact Or.inl ⟨_, budget, rfl⟩
    · rw [h]
      exact Or.inr ⟨budget, rfl, rfl⟩

/-- A success records its nonce, or fails and changes nothing; without a nonce it changes
nothing. -/
theorem exec_recordSuccessNonce (context : NonceContext) (nonce : Option DpopNonce)
    (s : ε × NonceEntries) :
    (∃ e, exec (clientExec env) ((caps.client hcap).recordSuccessNonce context nonce) s =
        (.error e, s)) ∨
      (nonce = none ∧
        exec (clientExec env) ((caps.client hcap).recordSuccessNonce context nonce) s =
          (.ok (), s)) ∨
      ∃ value, nonce = some value ∧
        exec (clientExec env) ((caps.client hcap).recordSuccessNonce context nonce) s =
          (.ok (), (s.1, s.2.insert context value)) ∧
        recordNonce capacity context value s.2 = (.ok value, s.2.insert context value) := by
  cases nonce with
  | none => exact Or.inr (Or.inl ⟨rfl, rfl⟩)
  | some value =>
    have hexec : exec (clientExec env) ((caps.client hcap).recordSuccessNonce context (some value))
        s = (((recordNonce capacity context value s.2).1.map fun _ => ()).mapError
          fun _ => .nonceStateUnavailable, (s.1, (recordNonce capacity context value s.2).2)) := rfl
    rw [hexec]
    rcases recordNonce_cases capacity context value s.2 with h | h
    · rw [h]
      exact Or.inl ⟨_, rfl⟩
    · rw [h]
      exact Or.inr (Or.inr ⟨value, rfl, rfl, h⟩)

end Shared

end Keylix.OAuth

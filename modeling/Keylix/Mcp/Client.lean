import Keylix.OAuth.Client

/-!
# Clients of the Model Context Protocol

The decorator of `keylix-mcp`: a client with one authorization server and one resource server, each
with its own nonce context. Every call is a call of the underlying client in one of the two
contexts.

A call is made by a client of either kind. `McpOp.program_eq_underlying`: a call through the Model
Context Protocol is the call of the underlying client in the context of its server.
-/

set_option autoImplicit false

namespace Keylix.Mcp

open Keylix.Lib Keylix.Core Keylix.Dpop Keylix.OAuth
open Keylix.Lib.Prog (exec exec_bind exec_ret)

inductive McpDpopError where
  | unsupportedProfile
  | oauth (error : OAuthDpopError)
  | existingAuthorization
  | existingDpopHeader
  | invalidHeaderValue
  deriving DecidableEq

/-- The authorization of one attempt. -/
structure McpHttpAuthorization where
  authorization : Bytes
  proof : Bytes

/-- The client: the two contexts are of different namespaces. -/
structure McpDpopClient (crypto : Crypto) (S : Signature) where
  signer : DpopSigner crypto S
  clock : Clock S
  proofIds : ProofIdGenerator S
  nonces : ClientNonceStore S
  authorizationServer : NonceContext
  resourceServer : NonceContext
  isAuthorizationServer : authorizationServer.serverSpace = .authorizationServer
  isResourceServer : resourceServer.serverSpace = .resourceServer

theorem serverSpace_new {serverSpace : NonceNamespace} {serverId : Str} {context : NonceContext}
    (h : NonceContext.new serverSpace serverId = .ok context) :
    context.serverSpace = serverSpace := by
  unfold NonceContext.new at h
  split at h
  · cases h
  · cases h
    rfl

namespace McpDpopClient

variable {crypto : Crypto} {S : Signature}

def new (signer : DpopSigner crypto S) (clock : Clock S) (proofIds : ProofIdGenerator S)
    (nonces : ClientNonceStore S) (authorizationServerId resourceServerId : Str) :
    Except McpDpopError (McpDpopClient crypto S) :=
  match ha : NonceContext.new .authorizationServer authorizationServerId with
  | .error e => .error (.oauth (.dpop e))
  | .ok authorizationServer =>
      match hr : NonceContext.new .resourceServer resourceServerId with
      | .error e => .error (.oauth (.dpop e))
      | .ok resourceServer =>
          .ok ⟨signer, clock, proofIds, nonces, authorizationServer, resourceServer,
            serverSpace_new ha, serverSpace_new hr⟩

variable (client : McpDpopClient crypto S)

def oauthClient : DpopRequiredClient crypto S :=
  ⟨client.signer, client.clock, client.proofIds, client.nonces⟩

def tokenEndpointAttempt (tokenEndpoint : EffectiveRequestTarget) :
    Prog S (Except McpDpopError TokenEndpointDpop) := do
  let answer ← client.oauthClient.tokenRequest client.authorizationServer tokenEndpoint
  pure (answer.mapError .oauth)

def resourceAttempt (method : Bytes) (target : EffectiveRequestTarget)
    (accessToken : BoundAccessToken) : Prog S (Except McpDpopError McpHttpAuthorization) := do
  let answer ← client.oauthClient.protectedResource client.resourceServer method target accessToken
  pure ((answer.map fun a => ⟨a.authorization, a.proof⟩).mapError .oauth)

def recordAuthorizationServerNonceChallenge (nonce : DpopNonce) (retryBudget : NonceRetryBudget) :
    Prog S (Except McpDpopError Unit × NonceRetryBudget) := do
  let (answer, budget) ←
    client.oauthClient.recordNonceChallenge client.authorizationServer nonce retryBudget
  pure (answer.mapError .oauth, budget)

def recordResourceServerNonceChallenge (nonce : DpopNonce) (retryBudget : NonceRetryBudget) :
    Prog S (Except McpDpopError Unit × NonceRetryBudget) := do
  let (answer, budget) ←
    client.oauthClient.recordNonceChallenge client.resourceServer nonce retryBudget
  pure (answer.mapError .oauth, budget)

def recordAuthorizationServerSuccessNonce (nonce : Option DpopNonce) :
    Prog S (Except McpDpopError Unit) := do
  let answer ← client.oauthClient.recordSuccessNonce client.authorizationServer nonce
  pure (answer.mapError .oauth)

def recordResourceServerSuccessNonce (nonce : Option DpopNonce) :
    Prog S (Except McpDpopError Unit) := do
  let answer ← client.oauthClient.recordSuccessNonce client.resourceServer nonce
  pure (answer.mapError .oauth)

end McpDpopClient

/-! ## Calls -/

section Calls

variable (crypto : Crypto) (E : Signature)

/-- A call of a client. -/
inductive ClientOp where
  | tokenRequest (context : NonceContext) (tokenEndpoint : EffectiveRequestTarget)
  | refreshTokenRequest (context : NonceContext) (tokenEndpoint : EffectiveRequestTarget)
      (refreshToken : BoundRefreshToken)
  | protectedResource (context : NonceContext) (method : Bytes) (target : EffectiveRequestTarget)
      (token : BoundAccessToken)
  | recordNonceChallenge (context : NonceContext) (nonce : DpopNonce)
      (retryBudget : NonceRetryBudget)
  | recordSuccessNonce (context : NonceContext) (nonce : Option DpopNonce)

/-- A call of a client of the Model Context Protocol. -/
inductive McpOp where
  | tokenEndpointAttempt (tokenEndpoint : EffectiveRequestTarget)
  | resourceAttempt (method : Bytes) (target : EffectiveRequestTarget)
      (accessToken : BoundAccessToken)
  | recordAuthorizationServerNonceChallenge (nonce : DpopNonce) (retryBudget : NonceRetryBudget)
  | recordResourceServerNonceChallenge (nonce : DpopNonce) (retryBudget : NonceRetryBudget)
  | recordAuthorizationServerSuccessNonce (nonce : Option DpopNonce)
  | recordResourceServerSuccessNonce (nonce : Option DpopNonce)

/-- The two scopes of a client of the Model Context Protocol. -/
structure McpScopes where
  authorizationServer : NonceContext
  resourceServer : NonceContext
  isAuthorizationServer : authorizationServer.serverSpace = .authorizationServer
  isResourceServer : resourceServer.serverSpace = .resourceServer

/-- A call by a client with the given capabilities, directly or through the Model Context Protocol.
Every call brings its own capabilities, so that clients with different keys may share the store. -/
inductive ClientCall where
  | direct (caps : ClientCapabilities crypto E) (op : ClientOp)
  | mcp (caps : ClientCapabilities crypto E) (scopes : McpScopes) (op : McpOp)

/-- What a call gives back. -/
inductive ClientAnswer where
  | emitted (proof : Bytes)
  | recorded
  | failed

end Calls

namespace ClientAnswer

def ofProof {ε : Type} : Except ε Bytes → ClientAnswer
  | .ok proof => .emitted proof
  | .error _ => .failed

def ofRecord {ε : Type} : Except ε Unit → ClientAnswer
  | .ok () => .recorded
  | .error _ => .failed

end ClientAnswer

section Programs

variable {crypto : Crypto} {S : Signature}

def ClientOp.program (client : DpopRequiredClient crypto S) : ClientOp → Prog S ClientAnswer
  | .tokenRequest context tokenEndpoint => do
      let answer ← client.tokenRequest context tokenEndpoint
      pure (.ofProof (answer.map TokenEndpointDpop.proof))
  | .refreshTokenRequest context tokenEndpoint refreshToken => do
      let answer ← client.refreshTokenRequest context tokenEndpoint refreshToken
      pure (.ofProof (answer.map TokenEndpointDpop.proof))
  | .protectedResource context method target token => do
      let answer ← client.protectedResource context method target token
      pure (.ofProof (answer.map ProtectedResourceAuthorization.proof))
  | .recordNonceChallenge context nonce retryBudget => do
      let answer ← client.recordNonceChallenge context nonce retryBudget
      pure (.ofRecord answer.1)
  | .recordSuccessNonce context nonce => do
      let answer ← client.recordSuccessNonce context nonce
      pure (.ofRecord answer)

def McpOp.program (client : McpDpopClient crypto S) : McpOp → Prog S ClientAnswer
  | .tokenEndpointAttempt tokenEndpoint => do
      let answer ← client.tokenEndpointAttempt tokenEndpoint
      pure (.ofProof (answer.map TokenEndpointDpop.proof))
  | .resourceAttempt method target accessToken => do
      let answer ← client.resourceAttempt method target accessToken
      pure (.ofProof (answer.map McpHttpAuthorization.proof))
  | .recordAuthorizationServerNonceChallenge nonce retryBudget => do
      let answer ← client.recordAuthorizationServerNonceChallenge nonce retryBudget
      pure (.ofRecord answer.1)
  | .recordResourceServerNonceChallenge nonce retryBudget => do
      let answer ← client.recordResourceServerNonceChallenge nonce retryBudget
      pure (.ofRecord answer.1)
  | .recordAuthorizationServerSuccessNonce nonce => do
      let answer ← client.recordAuthorizationServerSuccessNonce nonce
      pure (.ofRecord answer)
  | .recordResourceServerSuccessNonce nonce => do
      let answer ← client.recordResourceServerSuccessNonce nonce
      pure (.ofRecord answer)

/-- The call of the underlying client. -/
def McpOp.underlying (scopes : McpScopes) : McpOp → ClientOp
  | .tokenEndpointAttempt tokenEndpoint => .tokenRequest scopes.authorizationServer tokenEndpoint
  | .resourceAttempt method target accessToken =>
      .protectedResource scopes.resourceServer method target accessToken
  | .recordAuthorizationServerNonceChallenge nonce retryBudget =>
      .recordNonceChallenge scopes.authorizationServer nonce retryBudget
  | .recordResourceServerNonceChallenge nonce retryBudget =>
      .recordNonceChallenge scopes.resourceServer nonce retryBudget
  | .recordAuthorizationServerSuccessNonce nonce =>
      .recordSuccessNonce scopes.authorizationServer nonce
  | .recordResourceServerSuccessNonce nonce => .recordSuccessNonce scopes.resourceServer nonce

def McpScopes.client (scopes : McpScopes) (client : DpopRequiredClient crypto S) :
    McpDpopClient crypto S :=
  ⟨client.signer, client.clock, client.proofIds, client.nonces, scopes.authorizationServer,
    scopes.resourceServer, scopes.isAuthorizationServer, scopes.isResourceServer⟩

theorem ofRecord_mapError {ε ε' : Type} (f : ε → ε') (answer : Except ε Unit) :
    ClientAnswer.ofRecord (answer.mapError f) = .ofRecord answer := by
  cases answer with
  | error e => rfl
  | ok u => rfl

/-- **A client of the Model Context Protocol does what the underlying client does** in the context
of its authorization server or of its resource server. -/
theorem McpOp.program_eq_underlying (scopes : McpScopes) (client : DpopRequiredClient crypto S)
    (op : McpOp) : op.program (scopes.client client) = (op.underlying scopes).program client := by
  have hmap : ∀ {α : Type} (f : α → Bytes) (answer : Except OAuthDpopError α),
      ClientAnswer.ofProof ((answer.mapError McpDpopError.oauth).map f) =
        .ofProof (answer.map f) := by
    intro α f answer
    cases answer with
    | error e => rfl
    | ok a => rfl
  cases op with
  | tokenEndpointAttempt tokenEndpoint =>
    simp only [McpOp.program, McpDpopClient.tokenEndpointAttempt, Prog.bind_assoc_prog,
      Prog.pure_eq, Prog.bind_ret, hmap]
    rfl
  | resourceAttempt method target accessToken =>
    simp only [McpOp.program, McpDpopClient.resourceAttempt, Prog.bind_assoc_prog, Prog.pure_eq,
      Prog.bind_ret]
    simp only [McpOp.underlying, ClientOp.program, Prog.pure_eq]
    congr 1
    funext answer
    cases answer with
    | error e => rfl
    | ok a => rfl
  | recordAuthorizationServerNonceChallenge nonce retryBudget =>
    simp only [McpOp.program, McpDpopClient.recordAuthorizationServerNonceChallenge,
      Prog.bind_assoc_prog, Prog.pure_eq, Prog.bind_ret, ofRecord_mapError]
    rfl
  | recordResourceServerNonceChallenge nonce retryBudget =>
    simp only [McpOp.program, McpDpopClient.recordResourceServerNonceChallenge,
      Prog.bind_assoc_prog, Prog.pure_eq, Prog.bind_ret, ofRecord_mapError]
    rfl
  | recordAuthorizationServerSuccessNonce nonce =>
    simp only [McpOp.program, McpDpopClient.recordAuthorizationServerSuccessNonce,
      Prog.bind_assoc_prog, Prog.pure_eq, Prog.bind_ret, ofRecord_mapError]
    rfl
  | recordResourceServerSuccessNonce nonce =>
    simp only [McpOp.program, McpDpopClient.recordResourceServerSuccessNonce,
      Prog.bind_assoc_prog, Prog.pure_eq, Prog.bind_ret, ofRecord_mapError]
    rfl

end Programs

end Keylix.Mcp

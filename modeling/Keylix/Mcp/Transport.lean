import Keylix.Mcp.ClientRuns
import Keylix.Mcp.Server

/-!
# The HTTP client of the Model Context Protocol

`DpopStreamableHttpClient` wraps an HTTP client. It refuses a request of its host that has
credentials already, decorates every other request with a fresh proof, and hands it to the wrapped
client. The wrapped client, with all the servers behind it, answers from the requests that it was
handed so far.

`decorated_of_sessionRun`: whatever the host asks for, whatever is answered, and whatever else is
done with the nonce store, every request that is handed on is decorated, and a server verifies it
only as the request that it is, and only if its proof is within the limits of the parser.
-/

set_option autoImplicit false

namespace Keylix.Mcp

open Keylix.Lib Keylix.Core Keylix.Dpop Keylix.OAuth
open Keylix.Lib.Prog (exec exec_bind exec_ret)

/-! ## Requests -/

/-- Header values: a text of visible characters is one. -/
structure HeaderValues where
  Value : Type
  fromStr : Bytes → Option Value
  asBytes : Value → Bytes
  asBytes_fromStr : ∀ {text value}, fromStr text = some value → asBytes value = text
  exists_fromStr : ∀ text : Bytes, (∀ b ∈ text, 0x20 ≤ b ∧ b < 0x7f) →
    ∃ value, fromStr text = some value

/-- Headers under their lowercase names. -/
abbrev HeaderMap (H : HeaderValues) := FiniteMap Bytes H.Value

def dpopHeader : Bytes := ascii "dpop"

def authorizationHeader : Bytes := ascii "authorization"

/-- A request of the protocol over messages `M`. -/
inductive StreamableHttpRequest (M : Type) where
  | postMessage (message : M) (sessionId : Option Str)
  | postMessageWithMaxSseEventSize (message : M) (sessionId : Option Str) (maxSseEventSize : Nat)
  | deleteSession (sessionId : Str)
  | getStream (sessionId lastEventId : Option Str)
  | getStreamWithMaxSseEventSize (sessionId lastEventId : Option Str) (maxSseEventSize : Nat)

def StreamableHttpRequest.method {M : Type} : StreamableHttpRequest M → Bytes
  | .postMessage _ _ | .postMessageWithMaxSseEventSize _ _ _ => ascii "POST"
  | .deleteSession _ => ascii "DELETE"
  | .getStream _ _ | .getStreamWithMaxSseEventSize _ _ _ => ascii "GET"

/-- A call of an HTTP client. -/
structure HttpCall (H : HeaderValues) (M : Type) where
  request : StreamableHttpRequest M
  uri : Str
  authHeader : Option Bytes
  customHeaders : HeaderMap H

/-- The wrapped client: its responses are `R` and its errors `ι`. -/
def httpOps (H : HeaderValues) (M R ι : Type) : Signature := ⟨HttpCall H M, fun _ => Except ι R⟩

/-! ## The client -/

inductive DpopStreamableHttpClientError (ι : Type) where
  | keylix (error : McpDpopError)
  | inner (error : ι)

structure DpopStreamableHttpClient (crypto : Crypto) (S : Signature) where
  dpop : McpDpopClient crypto S
  accessToken : BoundAccessToken

section Client

variable {H : HeaderValues} {M R ι : Type}

def McpHttpAuthorization.intoRmcpParts (authorization : McpHttpAuthorization)
    (customHeaders : HeaderMap H) : Except McpDpopError (Option Bytes × HeaderMap H) :=
  match H.fromStr authorization.proof with
  | none => .error .invalidHeaderValue
  | some proof => .ok (some authorization.authorization, customHeaders.insert dpopHeader proof)

namespace DpopStreamableHttpClient

variable {crypto : Crypto} {S : Signature} (client : DpopStreamableHttpClient crypto S)

/-- Credentials of the host are refused, never replaced. -/
def decorate (method uri : Bytes) (authHeaderPresent : Bool) (customHeaders : HeaderMap H) :
    Prog S (Except McpDpopError (Option Bytes × HeaderMap H)) :=
  if authHeaderPresent || customHeaders.contains authorizationHeader then
    pure (.error .existingAuthorization)
  else if customHeaders.contains dpopHeader then pure (.error .existingDpopHeader)
  else match EffectiveRequestTarget.parse uri with
    | .error e => pure (.error (.oauth (.dpop e)))
    | .ok target => do
        let attempt ← client.dpop.resourceAttempt method target client.accessToken
        pure (attempt.bind fun authorization => authorization.intoRmcpParts customHeaders)

/-- Decorates a call for its method and hands it to the wrapped client. -/
def send (call : HttpCall H M) :
    Prog (S.sum (httpOps H M R ι)) (Except (DpopStreamableHttpClientError ι) R) := do
  match ← (client.decorate call.request.method call.uri.bytes call.authHeader.isSome
      call.customHeaders).inl with
  | .error e => pure (.error (.keylix e))
  | .ok (authHeader, customHeaders) => do
      let answer ← (@Prog.perform (httpOps H M R ι)
        ⟨call.request, call.uri, authHeader, customHeaders⟩).inr
      pure (answer.mapError .inner)

def postMessage (uri : Str) (message : M) (sessionId : Option Str) (authHeader : Option Bytes)
    (customHeaders : HeaderMap H) :
    Prog (S.sum (httpOps H M R ι)) (Except (DpopStreamableHttpClientError ι) R) :=
  client.send ⟨.postMessage message sessionId, uri, authHeader, customHeaders⟩

def postMessageWithMaxSseEventSize (uri : Str) (message : M) (sessionId : Option Str)
    (authHeader : Option Bytes) (customHeaders : HeaderMap H) (maxSseEventSize : Nat) :
    Prog (S.sum (httpOps H M R ι)) (Except (DpopStreamableHttpClientError ι) R) :=
  client.send ⟨.postMessageWithMaxSseEventSize message sessionId maxSseEventSize, uri, authHeader,
    customHeaders⟩

def deleteSession (uri sessionId : Str) (authHeader : Option Bytes) (customHeaders : HeaderMap H) :
    Prog (S.sum (httpOps H M R ι)) (Except (DpopStreamableHttpClientError ι) R) :=
  client.send ⟨.deleteSession sessionId, uri, authHeader, customHeaders⟩

def getStream (uri : Str) (sessionId lastEventId : Option Str) (authHeader : Option Bytes)
    (customHeaders : HeaderMap H) :
    Prog (S.sum (httpOps H M R ι)) (Except (DpopStreamableHttpClientError ι) R) :=
  client.send ⟨.getStream sessionId lastEventId, uri, authHeader, customHeaders⟩

def getStreamWithMaxSseEventSize (uri : Str) (sessionId lastEventId : Option Str)
    (authHeader : Option Bytes) (customHeaders : HeaderMap H) (maxSseEventSize : Nat) :
    Prog (S.sum (httpOps H M R ι)) (Except (DpopStreamableHttpClientError ι) R) :=
  client.send ⟨.getStreamWithMaxSseEventSize sessionId lastEventId maxSseEventSize, uri, authHeader,
    customHeaders⟩

/-- The method of the client that a call is for. -/
def call : HttpCall H M →
    Prog (S.sum (httpOps H M R ι)) (Except (DpopStreamableHttpClientError ι) R)
  | ⟨.postMessage message sessionId, uri, authHeader, customHeaders⟩ =>
      client.postMessage uri message sessionId authHeader customHeaders
  | ⟨.postMessageWithMaxSseEventSize message sessionId maxSseEventSize, uri, authHeader,
      customHeaders⟩ =>
      client.postMessageWithMaxSseEventSize uri message sessionId authHeader customHeaders
        maxSseEventSize
  | ⟨.deleteSession sessionId, uri, authHeader, customHeaders⟩ =>
      client.deleteSession uri sessionId authHeader customHeaders
  | ⟨.getStream sessionId lastEventId, uri, authHeader, customHeaders⟩ =>
      client.getStream uri sessionId lastEventId authHeader customHeaders
  | ⟨.getStreamWithMaxSseEventSize sessionId lastEventId maxSseEventSize, uri, authHeader,
      customHeaders⟩ =>
      client.getStreamWithMaxSseEventSize uri sessionId lastEventId authHeader customHeaders
        maxSseEventSize

theorem call_eq_send (host : HttpCall H M) :
    (client.call host : Prog (S.sum (httpOps H M R ι)) _) = client.send host := by
  obtain ⟨request, uri, authHeader, customHeaders⟩ := host
  cases request with
  | postMessage message sessionId => rfl
  | postMessageWithMaxSseEventSize message sessionId maxSseEventSize => rfl
  | deleteSession sessionId => rfl
  | getStream sessionId lastEventId => rfl
  | getStreamWithMaxSseEventSize sessionId lastEventId maxSseEventSize => rfl

end DpopStreamableHttpClient

end Client

/-! ## Servers -/

section Servers

variable {crypto : Crypto} (json : JsonText) {S : Signature} {σ : Type}
  (h : (op : S.Op) → σ → S.Res op × σ)

/-- A server in its state verifies the proof with these claims for what it received: the proof is
within the limits of the parser (a target of 2048 bytes and a claims text of 4096 bytes at most) and
issued at a positive time, what was received is the request of the proof, at a time within the
window, for the first time, with the token that the host validated for the key of the proof. -/
structure Verifies (server : McpDpopServer S) (s : σ) (jwk : PublicP256Jwk crypto)
    (request : DpopRequest) (issuedAt : I64) (proofId : ProofId) (received : McpHttpRequest)
    (validated : HostValidatedToken) : Prop where
  fits : FitsLimits request issuedAt proofId
  positive : 0 < issuedAt.toInt
  method : received.method = request.method
  target : received.target = request.target
  token : ∃ token, request.accessToken = some token ∧
    crypto.sha256 token = crypto.sha256 received.accessToken
  nonce : ∀ nonce, received.nonce = some nonce → request.nonce = some nonce
  fresh : ∃ now key expires, (exec h server.clock.unixSeconds s).1 = .ok now ∧
    -(server.policy.allowedFutureSkewSeconds : Int) ≤ now.toInt - issuedAt.toInt ∧
    now.toInt - issuedAt.toInt ≤ server.policy.maxProofAgeSeconds ∧
    deriveReplayKey crypto jwk.thumbprint request.method request.target proofId.asStr = .ok key ∧
    I64.toInt expires = issuedAt.toInt + server.policy.maxProofAgeSeconds ∧
    (exec h (server.replayStore.checkAndRecord key expires)
      (exec h server.clock.unixSeconds s).2).1 = .ok .fresh
  fingerprint : TokenFingerprint.fromTokenBytes crypto received.accessToken = validated.fingerprint
  confirmation : validated.confirmation = some jwk.thumbprint.bytes

/-- The request for which a server verifies a proof. -/
def presented (value : DpopRequest) (received : McpHttpRequest) : DpopRequest :=
  Verifier.VerifierApplication.dpopRequest value received.accessToken received.nonce

theorem presented_fields (value : DpopRequest) (received : McpHttpRequest)
    (hnone : value.nonce = none) :
    (presented value received).method = value.method ∧
      (presented value received).target = value.target ∧
      (presented value received).accessToken = some received.accessToken ∧
      (presented value received).nonce = received.nonce := by
  unfold presented Verifier.VerifierApplication.dpopRequest
  cases hnonce : received.nonce with
  | none => exact ⟨rfl, rfl, rfl, hnone⟩
  | some nonce => exact ⟨rfl, rfl, rfl, rfl⟩

/-- The server accepts if and only if each of its steps does. -/
theorem exec_serverVerify_eq_ok_iff {server : McpDpopServer S} {received : McpHttpRequest}
    {validated : HostValidatedToken} {s : σ} :
    (∃ binding, (exec h (server.verify crypto json received validated) s).1 = .ok binding) ↔
      ∃ proof value verified binding,
        parseDpopHeaderValues crypto json received.dpopHeaderValues = .ok proof ∧
        DpopRequest.new received.method received.target = .ok value ∧
        (exec h (DpopVerifier.verify ⟨server.clock, server.policy⟩ proof (presented value received)
          server.replayStore) s).1 = .ok verified ∧
        composeSenderBinding crypto verified received.accessToken validated = .ok binding := by
  unfold McpDpopServer.verify
  cases hparse : parseDpopHeaderValues crypto json received.dpopHeaderValues with
  | error e => simp
  | ok proof =>
    cases hnew : DpopRequest.new received.method received.target with
    | error e => simp
    | ok value =>
      have hpresented : Verifier.VerifierApplication.dpopRequest value received.accessToken
          received.nonce = presented value received := rfl
      simp only [dpopRequest_agree, hpresented, exec_bind]
      cases hverify : (exec h (DpopVerifier.verify ⟨server.clock, server.policy⟩ proof
          (presented value received) server.replayStore) s).1 with
      | error e => simp [hverify]
      | ok verified =>
        cases hcompose : composeSenderBinding crypto verified received.accessToken validated with
        | error e => simp [hverify, hcompose, Except.mapError]
        | ok binding => simp [hverify, hcompose, Except.mapError]

theorem not_mem_compactProof {b : UInt8} (hsymbol : Base64.isSymbol b = false)
    (hdot : b ≠ byte '.') (jwk : PublicP256Jwk crypto) (claims : ClaimsWire) (signature : Bytes) :
    b ∉ compactProof jwk claims signature := by
  have hencode : ∀ text, b ∉ Base64.encode text := fun text => Base64.not_mem_encode hsymbol
  simp only [compactProof, signingInput, List.mem_append, List.mem_cons, hencode, hdot, or_self,
    not_false_eq_true]

theorem new_of_request (request : DpopRequest) : ∃ value,
    DpopRequest.new request.method request.target = .ok value ∧ value.method = request.method ∧
      value.target = request.target ∧ value.nonce = none := by
  have hvalid := request.validMethod
  unfold DpopRequest.new
  split
  · exact ⟨_, rfl, rfl, rfl, rfl⟩
  next e he =>
    rw [hvalid] at he
    cases he

/-- **A server verifies a signed proof exactly for the request of the proof.** -/
theorem serverVerify_iff {jwk : PublicP256Jwk crypto} {request : DpopRequest} {issuedAt : I64}
    {proofId : ProofId} {signature : Bytes}
    (hsig : SignatureValid jwk (signingInput jwk (requestClaims crypto request issuedAt proofId))
      signature)
    {server : McpDpopServer S} {received : McpHttpRequest} {validated : HostValidatedToken} {s : σ}
    (hvalues : received.dpopHeaderValues =
      [compactProof jwk (requestClaims crypto request issuedAt proofId) signature]) :
    (∃ binding, (exec h (server.verify crypto json received validated) s).1 = .ok binding) ↔
      Verifies h server s jwk request issuedAt proofId received validated := by
  have hcomma :
      (compactProof jwk (requestClaims crypto request issuedAt proofId) signature).contains
      (byte ',') = false := by
    rw [← Bool.not_eq_true, List.contains_iff_mem]
    exact not_mem_compactProof (by decide) (by decide) _ _ _
  have hheader : ∀ proof, parseDpopHeaderValues crypto json received.dpopHeaderValues = .ok proof ↔
      UnverifiedDpopProof.parse crypto json
        (compactProof jwk (requestClaims crypto request issuedAt proofId) signature) =
          .ok proof := by
    intro proof
    rw [hvalues]
    simp only [parseDpopHeaderValues, hcomma, Bool.false_eq_true, if_false]
  rw [exec_serverVerify_eq_ok_iff]
  constructor
  · rintro ⟨proof, value, verified, binding, hparse, hnew, hverify, hcompose⟩
    obtain ⟨hmethod, htarget, -, hnone⟩ := new_eq_ok hnew
    obtain ⟨hmethod', htarget', htoken', hnonce'⟩ := presented_fields value received hnone
    obtain ⟨hbinding, now, asked, hnow, hclaims, hfresh, rfl⟩ :=
      (exec_verify_eq_ok_iff h _ _ _ _ _ _).1 hverify
    rw [hheader] at hparse
    -- a claim that was accepted has a positive time, so that the limits are the ones of the builder
    obtain rfl := ((parse_compact_eq_ok_iff json (requestClaims_utf8 request issuedAt proofId)
      hsig.1).1 hparse).2.2
    have hpos : 0 < issuedAt.toInt := hclaims.issuedAt
    have hfits := ((parse_requestProof_iff json jwk request hpos proofId hsig.1).1 hparse).1
    have hparsed : EffectiveRequestTarget.parse request.target.asStr =
        .ok (presented value received).target := hbinding.target
    rw [EffectiveRequestTarget.parse_asStr (show request.target.asStr.length ≤ maxTargetBytes from
      hfits.target)] at hparsed
    have hsame : (presented value received).target = request.target := (Except.ok.inj hparsed).symm
    have hmatch : request.method = (presented value received).method := hbinding.method
    obtain ⟨-, hfingerprint, hconfirmation, -⟩ := composeSenderBinding_eq_ok_iff.1 hcompose
    refine ⟨hfits, hpos, ?_, ?_, ?_, ?_, ?_, hfingerprint, hconfirmation⟩
    · rw [hmatch, hmethod', hmethod]
    · rw [← hsame, htarget', htarget]
    · have hpresented : request.accessToken.map (accessTokenHash crypto) =
          some (accessTokenHash crypto received.accessToken) := hclaims.token _ htoken'
      obtain ⟨token, hsome, hhash⟩ := Option.map_eq_some_iff.1 hpresented
      exact ⟨token, hsome, Subtype.ext (Base64.encode_injective hhash)⟩
    · intro nonce hrequired
      have hpresented : request.nonce.map DpopNonce.asStr = some nonce.asStr :=
        hclaims.nonce nonce (hnonce'.trans hrequired)
      obtain ⟨nonce', hsome, hequal⟩ := Option.map_eq_some_iff.1 hpresented
      rw [hsome, asStr_injective hequal]
    · have hkey := hclaims.key
      rw [hsame, ← hmatch] at hkey
      exact ⟨now, asked.key, asked.expiresAtUnix, hnow, hclaims.notFuture, hclaims.notExpired, hkey,
        hclaims.expires, hfresh⟩
  · intro hv
    obtain ⟨value, hnew, hmethod, htarget, hnone⟩ := new_of_request request
    obtain ⟨hmethod', htarget', htoken', hnonce'⟩ := presented_fields value received hnone
    obtain ⟨now, key, expires, hnow, hfuture, hexpired, hkey, hexpires, hfresh⟩ := hv.fresh
    obtain ⟨token, hsome, hhash⟩ := hv.token
    have hbinding : BindingAccepted (parsedProof jwk (requestClaims crypto request issuedAt proofId)
        signature) (presented value received) := by
      have h' := bindingAccepted_parsedProof hsig hv.fits.target
      exact ⟨h'.typ, h'.alg, h'.signature, h'.method.trans (hmethod'.trans hmethod).symm,
        h'.target.trans (by rw [htarget', htarget])⟩
    have hclaims : ClaimsAccepted server.policy
        (parsedProof jwk (requestClaims crypto request issuedAt proofId) signature)
        (presented value received) now ⟨key, expires⟩ := by
      refine ⟨hv.positive, hfuture, hexpired, ?_, ?_, ?_, hexpires⟩
      · intro nonce hrequired
        rw [hnonce'] at hrequired
        simp [parsedProof, requestClaims, hv.nonce nonce hrequired]
      · intro token' hrequired
        rw [htoken'] at hrequired
        cases hrequired
        simp [parsedProof, requestClaims, hsome, accessTokenHash, hhash]
      · rw [hmethod', htarget', hmethod, htarget]
        exact hkey
    have hverify := (exec_verify_eq_ok_iff h ⟨server.clock, server.policy⟩ _ _ server.replayStore s
      _).2 ⟨hbinding, now, _, hnow, hclaims, hfresh, rfl⟩
    have hparse := (hheader _).2 ((parse_requestProof_iff json jwk request hv.positive proofId
      hsig.1).2 ⟨hv.fits, rfl⟩)
    have hbound : (presented value received).accessToken.isSome = true := by
      rw [htoken']
      rfl
    exact ⟨_, value, _, _, hparse, by rw [hv.method, hv.target, hnew], hverify,
      composeSenderBinding_eq_ok_iff.2 ⟨hbound, hv.fingerprint, hv.confirmation, rfl⟩⟩

end Servers

/-! ## Decorated requests -/

/-- The proof headers of a call. -/
def HttpCall.dpopHeaderValues {H : HeaderValues} {M : Type} (sent : HttpCall H M) : List Bytes :=
  (sent.customHeaders.lookup dpopHeader).toList.map H.asBytes

section Decorated

variable {crypto : Crypto} {H : HeaderValues} {M : Type}

/-- What is handed on for a call of the host, which has no credentials: the same request, with the
token of the client and one proof for that request. -/
structure Decorated (jwk : PublicP256Jwk crypto) (accessToken : BoundAccessToken)
    (nonce : Option DpopNonce) (host sent : HttpCall H M) : Prop where
  request : sent.request = host.request
  uri : sent.uri = host.uri
  unauthorized : host.authHeader = none ∧ host.customHeaders.lookup authorizationHeader = none ∧
    host.customHeaders.lookup dpopHeader = none
  authorization : sent.authHeader = some (ascii "DPoP " ++ accessToken.value.bytes)
  headers : ∀ name, name ≠ dpopHeader →
    sent.customHeaders.lookup name = host.customHeaders.lookup name
  key : jwk.thumbprint = accessToken.proofKey
  proof : ∃ proof request, sent.dpopHeaderValues = [proof] ∧ EmittedFor jwk request proof ∧
    request.method = host.request.method ∧
    EffectiveRequestTarget.parse host.uri.bytes = .ok request.target ∧
    request.accessToken = some accessToken.value.bytes ∧ request.nonce = nonce

/-- Any server, in any state, verifies the proof of a call exactly as one for the request of the
host with the token and the nonce. -/
def VerifiedAs (json : JsonText) (jwk : PublicP256Jwk crypto) (accessToken : BoundAccessToken)
    (nonce : Option DpopNonce) (host sent : HttpCall H M) : Prop :=
  ∃ request issuedAt proofId, request.method = host.request.method ∧
    EffectiveRequestTarget.parse host.uri.bytes = .ok request.target ∧
    request.accessToken = some accessToken.value.bytes ∧ request.nonce = nonce ∧
    ∀ {S : Signature} {σ : Type} (h : (op : S.Op) → σ → S.Res op × σ) (server : McpDpopServer S)
      (s : σ) (received : McpHttpRequest) (validated : HostValidatedToken),
      received.dpopHeaderValues = sent.dpopHeaderValues →
        ((∃ binding, (exec h (server.verify crypto json received validated) s).1 = .ok binding) ↔
          Verifies h server s jwk request issuedAt proofId received validated)

theorem Decorated.verifiedAs (json : JsonText) {jwk : PublicP256Jwk crypto}
    {accessToken : BoundAccessToken} {nonce : Option DpopNonce} {host sent : HttpCall H M}
    (hd : Decorated jwk accessToken nonce host sent) :
    VerifiedAs json jwk accessToken nonce host sent := by
  obtain ⟨proof, request, hvalues, ⟨issuedAt, proofId, signature, hsig, rfl⟩, hmethod,
    htarget, htoken, hnonce⟩ := hd.proof
  refine ⟨request, issuedAt, proofId, hmethod, htarget, htoken, hnonce, ?_⟩
  intro S σ h server s received validated hreceived
  exact serverVerify_iff json h hsig (hreceived.trans hvalues)

theorem visible_of_mem_compactProof {jwk : PublicP256Jwk crypto} {claims : ClaimsWire}
    {signature : Bytes} : ∀ b ∈ compactProof jwk claims signature, 0x20 ≤ b ∧ b < 0x7f := by
  intro b hb
  have hcases : Base64.isSymbol b = true ∨ b = byte '.' := by
    by_contra hneither
    obtain ⟨hsymbol, hdot⟩ := not_or.1 hneither
    exact not_mem_compactProof (Bool.eq_false_of_not_eq_true hsymbol) hdot _ _ _ hb
  have hword : (byte '-').toNat = 45 ∧ (byte '_').toNat = 95 ∧ (byte '.').toNat = 46 ∧
      (byte '0').toNat = 48 ∧ (byte '9').toNat = 57 ∧ (byte 'A').toNat = 65 ∧
      (byte 'Z').toNat = 90 ∧ (byte 'a').toNat = 97 ∧ (byte 'z').toNat = 122 := by decide
  simp only [Base64.isSymbol, isAsciiAlphanumeric, isAsciiDigit, isAsciiUpper, isAsciiLower,
    Bool.or_eq_true, Bool.and_eq_true, decide_eq_true_eq, UInt8.le_iff_toNat_le,
    ← UInt8.toNat_inj, hword] at hcases
  rw [UInt8.le_iff_toNat_le, UInt8.lt_iff_toNat_lt]
  have hbounds : (0x20 : UInt8).toNat = 32 ∧ (0x7f : UInt8).toNat = 127 := by decide
  omega

/-- An emitted proof is a header value. -/
theorem EmittedFor.fromStr {jwk : PublicP256Jwk crypto} {request : DpopRequest} {proof : Bytes}
    (h : EmittedFor jwk request proof) : ∃ value, H.fromStr proof = some value := by
  obtain ⟨issuedAt, proofId, signature, -, rfl⟩ := h
  exact H.exists_fromStr _ visible_of_mem_compactProof

variable {E : Signature} {ε : Type} (env : (op : E.Op) → ε → E.Res op × ε) {capacity : Nat}
  (hcap : capacity ≠ 0) (caps : ClientCapabilities crypto E) (scopes : McpScopes)
  (accessToken : BoundAccessToken)

/-- The client over a store that is shared. -/
def streamableClient : DpopStreamableHttpClient crypto (E.sum nonceOps) :=
  ⟨scopes.client (caps.client hcap), accessToken⟩

/-- A call is decorated, or refused before a header is written. -/
def DecoratedOrRefused (jwk : PublicP256Jwk crypto) (accessToken : BoundAccessToken)
    (nonce : Option DpopNonce) (host : HttpCall H M) :
    Except McpDpopError (Option Bytes × HeaderMap H) → Prop
  | .error error => error ≠ .invalidHeaderValue
  | .ok (authHeader, customHeaders) =>
      Decorated jwk accessToken nonce host ⟨host.request, host.uri, authHeader, customHeaders⟩

/-- Decoration leaves the store alone. -/
theorem exec_decorate (host : HttpCall H M) (s : ε × NonceEntries) :
    (exec (clientExec env) ((streamableClient hcap caps scopes accessToken).decorate
        host.request.method host.uri.bytes host.authHeader.isSome host.customHeaders) s).2.2 = s.2 ∧
      DecoratedOrRefused caps.signer.publicJwk accessToken (s.2.lookup scopes.resourceServer) host
        (exec (clientExec env) ((streamableClient hcap caps scopes accessToken).decorate
          host.request.method host.uri.bytes host.authHeader.isSome host.customHeaders) s).1 := by
  have hrefused : ∀ e : McpDpopError, e ≠ .invalidHeaderValue →
      DecoratedOrRefused caps.signer.publicJwk accessToken (s.2.lookup scopes.resourceServer) host
        (.error e) := fun e he => he
  unfold DpopStreamableHttpClient.decorate
  split
  · exact ⟨rfl, hrefused _ (by decide)⟩
  next hauthorization =>
  split
  · exact ⟨rfl, hrefused _ (by decide)⟩
  next hdpop =>
  split
  · exact ⟨rfl, hrefused _ (by simp)⟩
  next target htarget =>
  obtain ⟨hentries, hattempt⟩ := exec_protectedResource env hcap caps scopes.resourceServer
    host.request.method target accessToken s
  have hclient : (streamableClient hcap caps scopes accessToken).dpop.resourceAttempt
      host.request.method target (streamableClient hcap caps scopes accessToken).accessToken =
      (caps.client hcap).protectedResource scopes.resourceServer host.request.method target
        accessToken >>= fun answer => pure ((answer.map fun a => McpHttpAuthorization.mk
          a.authorization a.proof).mapError .oauth) := rfl
  rw [exec_bind, hclient, exec_bind]
  simp only [Prog.pure_eq, exec_ret]
  refine ⟨hentries, ?_⟩
  cases hanswer : (exec (clientExec env) ((caps.client hcap).protectedResource
      scopes.resourceServer host.request.method target accessToken) s).1 with
  | error e => exact hrefused _ (by simp)
  | ok v =>
    obtain ⟨-, hkey, request, hemitted, hnonce, htoken, hmethod, htarget', hauth⟩ :=
      hattempt v hanswer
    obtain ⟨value, hvalue⟩ := @EmittedFor.fromStr crypto H _ _ _ hemitted
    rw [Bool.or_eq_true, not_or, Option.isSome_iff_ne_none, not_not] at hauthorization
    have hwritten : DecoratedOrRefused caps.signer.publicJwk accessToken
        (s.2.lookup scopes.resourceServer) host
        (.ok (some v.authorization, host.customHeaders.insert dpopHeader value)) := by
      refine ⟨rfl, rfl, ⟨hauthorization.1, ?_, ?_⟩, congrArg some hauth, ?_, hkey, v.proof,
        request, ?_, hemitted, hmethod, htarget.trans (by rw [htarget']), htoken, hnonce⟩
      · simpa [FiniteMap.contains] using hauthorization.2
      · simpa [FiniteMap.contains] using hdpop
      · intro name hname
        rw [FiniteMap.lookup_insert, if_neg hname]
      · simp [HttpCall.dpopHeaderValues, FiniteMap.lookup_insert, H.asBytes_fromStr hvalue]
    simpa [Except.bind, Except.map, Except.mapError, McpHttpAuthorization.intoRmcpParts, hvalue]
      using hwritten

end Decorated

/-! ## Sessions -/

section Sessions

variable (crypto : Crypto) (E : Signature) (H : HeaderValues) (M R ι : Type)

/-- A step of a session: a call of the host, or any call of a client of the store, the recordings of
this client among them. -/
inductive SessionStep where
  | request (host : HttpCall H M)
  | client (call : ClientCall crypto E)

inductive SessionAnswer where
  | response (answer : Except (DpopStreamableHttpClientError ι) R)
  | client (answer : ClientAnswer)

/-- A step that was taken: its answer, the entries of the store and the calls that were handed to
the wrapped client, before and after it. -/
structure SessionEvent where
  step : SessionStep crypto E H M
  answer : SessionAnswer R ι
  before : NonceEntries
  after : NonceEntries
  sentBefore : List (HttpCall H M)
  sentAfter : List (HttpCall H M)

variable {crypto E H M R ι}

/-- The event of the nonce store. -/
def SessionEvent.clientEvent : SessionEvent crypto E H M R ι → Option (ClientEvent crypto E)
  | ⟨.client call, .client answer, before, after, _, _⟩ => some ⟨call, answer, before, after⟩
  | _ => none

variable {ε : Type} (env : (op : E.Op) → ε → E.Res op × ε)
  (peer : List (HttpCall H M) → HttpCall H M → Except ι R) {capacity : Nat}
  (hcap : capacity ≠ 0) (caps : ClientCapabilities crypto E) (scopes : McpScopes)
  (accessToken : BoundAccessToken)

/-- The wrapped client answers from the calls so far. -/
def peerExec : (op : (httpOps H M R ι).Op) → List (HttpCall H M) →
    (httpOps H M R ι).Res op × List (HttpCall H M) :=
  fun (call : HttpCall H M) sent => (peer sent call, sent ++ [call])

abbrev sessionExec : (op : ((E.sum nonceOps).sum (httpOps H M R ι)).Op) →
    (ε × NonceEntries) × List (HttpCall H M) →
    ((E.sum nonceOps).sum (httpOps H M R ι)).Res op × ((ε × NonceEntries) × List (HttpCall H M)) :=
  Prog.sumExec (clientExec env) (peerExec peer)

def SessionStep.program : SessionStep crypto E H M →
    Prog ((E.sum nonceOps).sum (httpOps H M R ι)) (SessionAnswer R ι)
  | .request host => do
      let answer ← (streamableClient hcap caps scopes accessToken).call host
      pure (.response answer)
  | .client call => do
      let answer ← (call.program hcap).inl
      pure (.client answer)

/-- One step from a state. -/
def sessionEvent (step : SessionStep crypto E H M)
    (s : (ε × NonceEntries) × List (HttpCall H M)) : SessionEvent crypto E H M R ι :=
  let next := exec (sessionExec env peer) (step.program hcap caps scopes accessToken) s
  ⟨step, next.1, s.1.2, next.2.1.2, s.2, next.2.2⟩

/-- The events of a sequence of steps. -/
def sessionRun : List (SessionStep crypto E H M) → (ε × NonceEntries) × List (HttpCall H M) →
    List (SessionEvent crypto E H M R ι)
  | [], _ => []
  | step :: steps, s =>
      sessionEvent env peer hcap caps scopes accessToken step s ::
        sessionRun steps
          (exec (sessionExec env peer) (step.program hcap caps scopes accessToken) s).2

/-- What a step does, with the nonce of the resource server: a call of the host is refused, or it is
decorated and answered by the wrapped client. -/
inductive SessionSpec (nonce : Option DpopNonce) : SessionEvent crypto E H M R ι → Prop where
  | client {call : ClientCall crypto E} {answer : ClientAnswer} {before after : NonceEntries}
      {sent : List (HttpCall H M)} (h : CallSpec capacity ⟨call, answer, before, after⟩) :
      SessionSpec nonce ⟨.client call, .client answer, before, after, sent, sent⟩
  | refused {host : HttpCall H M} {error : McpDpopError} {entries : NonceEntries}
      {sent : List (HttpCall H M)} (h : error ≠ .invalidHeaderValue) :
      SessionSpec nonce ⟨.request host, .response (.error (.keylix error)), entries, entries, sent,
        sent⟩
  | decorated {host call : HttpCall H M} {entries : NonceEntries} {sent : List (HttpCall H M)}
      (h : Decorated caps.signer.publicJwk accessToken nonce host call) :
      SessionSpec nonce
        ⟨.request host, .response ((peer sent call).mapError .inner), entries, entries,
        sent, sent ++ [call]⟩

/-- A call is handed on once, as it was decorated, or not at all. -/
theorem exec_send (client : DpopStreamableHttpClient crypto (E.sum nonceOps)) (host : HttpCall H M)
    (s : ε × NonceEntries) (sent : List (HttpCall H M)) :
    exec (sessionExec env peer) (client.send host) (s, sent) =
      match exec (clientExec env) (client.decorate host.request.method host.uri.bytes
        host.authHeader.isSome host.customHeaders) s with
      | (.error e, s') => (.error (.keylix e), (s', sent))
      | (.ok (authHeader, customHeaders), s') =>
          ((peer sent ⟨host.request, host.uri, authHeader, customHeaders⟩).mapError .inner,
            (s', sent ++ [⟨host.request, host.uri, authHeader, customHeaders⟩])) := by
  unfold DpopStreamableHttpClient.send
  rw [exec_bind, Prog.exec_inl]
  cases exec (clientExec env) (client.decorate host.request.method host.uri.bytes
      host.authHeader.isSome host.customHeaders) s with
  | mk answer s' =>
    cases answer with
    | error e => rfl
    | ok decorated => rfl

/-- **What every step does.** -/
theorem sessionSpec_of_exec (step : SessionStep crypto E H M)
    (s : (ε × NonceEntries) × List (HttpCall H M)) :
    @SessionSpec crypto E H M R ι peer capacity caps accessToken
      (s.1.2.lookup scopes.resourceServer)
      (sessionEvent env peer hcap caps scopes accessToken step s) := by
  obtain ⟨s, sent⟩ := s
  cases step with
  | client call =>
    have hspec := callSpec_of_exec env hcap call s
    unfold sessionEvent SessionStep.program
    simp only [exec_bind]
    rw [Prog.exec_inl]
    exact .client hspec
  | request host =>
    obtain ⟨hentries, hdecorated⟩ := exec_decorate env hcap caps scopes accessToken host s
    unfold sessionEvent SessionStep.program
    simp only [DpopStreamableHttpClient.call_eq_send, exec_bind, exec_send]
    cases hanswer : exec (clientExec env) ((streamableClient hcap caps scopes accessToken).decorate
        host.request.method host.uri.bytes host.authHeader.isSome host.customHeaders) s with
    | mk answer s' =>
      obtain ⟨s', entries⟩ := s'
      rw [hanswer] at hentries hdecorated
      obtain rfl : entries = s.2 := hentries
      cases answer with
      | error e => exact .refused hdecorated
      | ok decorated => exact .decorated hdecorated

/-! ## Whole sessions -/

theorem SessionSpec.lookup {nonce : Option DpopNonce} {e : SessionEvent crypto E H M R ι}
    (h : @SessionSpec crypto E H M R ι peer capacity caps accessToken nonce e)
    (context : NonceContext) : e.after.lookup context =
      (lastRecorded context ([e].filterMap SessionEvent.clientEvent)).or
        (e.before.lookup context) := by
  cases h with
  | client h =>
    simp only [List.filterMap_cons, SessionEvent.clientEvent, List.filterMap_nil,
      lastRecorded_singleton]
    exact h.lookup context
  | refused h => rfl
  | decorated h => rfl

/-- A call is handed on by the step of a host's call. -/
theorem SessionSpec.sent {nonce : Option DpopNonce} {e : SessionEvent crypto E H M R ι}
    (h : @SessionSpec crypto E H M R ι peer capacity caps accessToken nonce e)
    {call : HttpCall H M} (hsent : call ∈ e.sentAfter) : call ∈ e.sentBefore ∨
      ∃ host, e.step = .request host ∧
        Decorated caps.signer.publicJwk accessToken nonce host call := by
  cases h with
  | client h => exact Or.inl hsent
  | refused h => exact Or.inl hsent
  | decorated h =>
    rcases List.mem_append.1 hsent with hsent | hsent
    · exact Or.inl hsent
    · rw [List.mem_singleton.1 hsent]
      exact Or.inr ⟨_, rfl, h⟩

/-- A call without credentials is handed on when there is a proof for it. -/
theorem exists_handedOn {host : HttpCall H M} {target : EffectiveRequestTarget}
    {authorization : McpHttpAuthorization} {s : ε × NonceEntries} (sent : List (HttpCall H M))
    (hheader : host.authHeader = none)
    (hauthorization : host.customHeaders.contains authorizationHeader = false)
    (hdpop : host.customHeaders.contains dpopHeader = false)
    (htarget : EffectiveRequestTarget.parse host.uri.bytes = .ok target)
    (hattempt : (exec (clientExec env) ((scopes.client (caps.client hcap)).resourceAttempt
      host.request.method target accessToken) s).1 = .ok authorization) :
    ∃ call, (sessionEvent env peer hcap caps scopes accessToken (.request host)
      (s, sent)).sentAfter = sent ++ [call] := by
  obtain ⟨-, hdecorated⟩ := exec_decorate env hcap caps scopes accessToken host s
  have hresult : (exec (clientExec env) ((streamableClient hcap caps scopes accessToken).decorate
      host.request.method host.uri.bytes host.authHeader.isSome host.customHeaders) s).1 =
        authorization.intoRmcpParts host.customHeaders := by
    unfold DpopStreamableHttpClient.decorate
    rw [hheader, hauthorization, hdpop, htarget]
    simp only [Option.isSome_none, Bool.or_self, Bool.false_eq_true, if_false]
    rw [exec_bind]
    show (Except.bind (exec (clientExec env) ((scopes.client (caps.client hcap)).resourceAttempt
      host.request.method target accessToken) s).1 _) = _
    rw [hattempt]
    rfl
  rw [hresult] at hdecorated
  unfold sessionEvent SessionStep.program
  simp only [DpopStreamableHttpClient.call_eq_send, exec_bind, exec_send]
  cases hanswer : exec (clientExec env) ((streamableClient hcap caps scopes accessToken).decorate
      host.request.method host.uri.bytes host.authHeader.isSome host.customHeaders) s with
  | mk answer s' =>
    rw [hanswer] at hresult
    obtain rfl : answer = authorization.intoRmcpParts host.customHeaders := hresult
    cases hparts : authorization.intoRmcpParts host.customHeaders with
    | error e =>
      -- the only failure is the one that no emitted proof has
      rw [hparts] at hdecorated
      unfold McpHttpAuthorization.intoRmcpParts at hparts
      split at hparts
      · cases hparts
        exact absurd rfl hdecorated
      · cases hparts
    | ok parts => exact ⟨_, rfl⟩

/-- Every event of a session does what steps do; before it, the entry of a context is the nonce of
the last recording, or the one of the start. -/
theorem lookup_sessionRun {steps : List (SessionStep crypto E H M)}
    {s : (ε × NonceEntries) × List (HttpCall H M)}
    {earlier later : List (SessionEvent crypto E H M R ι)} {e : SessionEvent crypto E H M R ι}
    (h : sessionRun env peer hcap caps scopes accessToken steps s = earlier ++ e :: later) :
    @SessionSpec crypto E H M R ι peer capacity caps accessToken
        (e.before.lookup scopes.resourceServer) e ∧
      ∀ context, e.before.lookup context =
        (lastRecorded context (earlier.filterMap SessionEvent.clientEvent)).or
          (s.1.2.lookup context) := by
  induction earlier generalizing steps s with
  | nil =>
    cases steps with
    | nil => cases h
    | cons step steps =>
      obtain ⟨rfl, -⟩ := List.cons.inj h
      exact ⟨sessionSpec_of_exec env peer hcap caps scopes accessToken step s, fun _ => rfl⟩
  | cons first earlier ih =>
    cases steps with
    | nil => cases h
    | cons step steps =>
      obtain ⟨rfl, hrest⟩ := List.cons.inj h
      have hfirst := sessionSpec_of_exec env peer hcap caps scopes accessToken step s
      obtain ⟨hspec, hlookup⟩ := ih hrest
      refine ⟨hspec, ?_⟩
      intro context
      rw [hlookup context, ← List.singleton_append, List.filterMap_append, lastRecorded_append,
        Option.or_assoc]
      congr 1
      exact SessionSpec.lookup peer caps accessToken hfirst context

/-- What was handed on before an event was handed on before the session, or by an earlier event for
a call of the host. -/
theorem sender_of_sessionRun {steps : List (SessionStep crypto E H M)}
    {s : (ε × NonceEntries) × List (HttpCall H M)}
    {earlier later : List (SessionEvent crypto E H M R ι)} {e : SessionEvent crypto E H M R ι}
    (h : sessionRun env peer hcap caps scopes accessToken steps s = earlier ++ e :: later)
    {call : HttpCall H M} (hsent : call ∈ e.sentBefore) : call ∈ s.2 ∨
      ∃ before f after host, earlier = before ++ f :: after ∧ f.step = .request host ∧
        Decorated caps.signer.publicJwk accessToken (f.before.lookup scopes.resourceServer) host
          call := by
  induction earlier generalizing steps s with
  | nil =>
    cases steps with
    | nil => cases h
    | cons step steps =>
      obtain ⟨rfl, -⟩ := List.cons.inj h
      exact Or.inl hsent
  | cons first earlier ih =>
    cases steps with
    | nil => cases h
    | cons step steps =>
      obtain ⟨rfl, hrest⟩ := List.cons.inj h
      have hfirst := sessionSpec_of_exec env peer hcap caps scopes accessToken step s
      rcases ih hrest with hbefore | ⟨before, f, after, host, rfl, hstep, hd⟩
      · rcases SessionSpec.sent peer caps accessToken hfirst hbefore with hstart | ⟨host, hstep, hd⟩
        · exact Or.inl hstart
        · exact Or.inr ⟨[], _, earlier, host, rfl, hstep, hd⟩
      · exact Or.inr ⟨_ :: before, f, after, host, rfl, hstep, hd⟩

/-- **Every call that is handed on in a session is decorated.** In a session over an empty store,
with any calls of the host, any answers of the wrapped client and any other use of the store, each
call of the host is refused or handed on once, with the nonce that was last recorded for the
resource server; nothing else is handed on; and a server verifies what was handed on if and only if
it `Verifies` it as the request of the host, with the token of the client, that nonce and its key. A
proof over the limits of the parser, which a builder may emit for a long target, is verified by no
server. -/
theorem decorated_of_sessionRun (json : JsonText)
    (steps : List (SessionStep crypto E H M)) (start : ε)
    {earlier later : List (SessionEvent crypto E H M R ι)} {e : SessionEvent crypto E H M R ι}
    (h : sessionRun env peer hcap caps scopes accessToken steps ((start, .empty), []) =
      earlier ++ e :: later) :
    @SessionSpec crypto E H M R ι peer capacity caps accessToken
        (lastRecorded scopes.resourceServer (earlier.filterMap SessionEvent.clientEvent)) e ∧
      ∀ sent ∈ e.sentAfter, ∃ before f after host, earlier ++ [e] = before ++ f :: after ∧
        f.step = .request host ∧
        Decorated caps.signer.publicJwk accessToken
          (lastRecorded scopes.resourceServer
            (before.filterMap SessionEvent.clientEvent)) host sent ∧
        VerifiedAs json caps.signer.publicJwk accessToken
          (lastRecorded scopes.resourceServer (before.filterMap SessionEvent.clientEvent)) host
          sent := by
  have hstored : ∀ {before after : List (SessionEvent crypto E H M R ι)}
      {f : SessionEvent crypto E H M R ι},
      sessionRun env peer hcap caps scopes accessToken steps ((start, .empty), []) =
        before ++ f :: after →
      f.before.lookup scopes.resourceServer =
        lastRecorded scopes.resourceServer (before.filterMap SessionEvent.clientEvent) := by
    intro before after f hrun
    rw [(lookup_sessionRun env peer hcap caps scopes accessToken hrun).2]
    exact Option.or_none
  have hspec := (lookup_sessionRun env peer hcap caps scopes accessToken h).1
  rw [hstored h] at hspec
  refine ⟨hspec, ?_⟩
  intro sent hsent
  rcases SessionSpec.sent peer caps accessToken hspec hsent with hbefore | ⟨host, hstep, hd⟩
  · rcases sender_of_sessionRun env peer hcap caps scopes accessToken h hbefore with hstart |
      ⟨before, f, after, host, rfl, hstep, hd⟩
    · cases hstart
    · rw [List.append_assoc, List.cons_append] at h
      rw [hstored h] at hd
      exact ⟨before, f, after ++ [e], host, by simp, hstep, hd, hd.verifiedAs json⟩
  · exact ⟨earlier, e, [], host, rfl, hstep, hd, hd.verifiedAs json⟩

end Sessions

/-! ## One session -/

/-- The header values of visible characters. -/
def visibleValues : HeaderValues where
  Value := { text : Bytes // ∀ b ∈ text, 0x20 ≤ b ∧ b < 0x7f }
  fromStr text := if h : ∀ b ∈ text, 0x20 ≤ b ∧ b < 0x7f then some ⟨text, h⟩ else none
  asBytes := Subtype.val
  asBytes_fromStr := by
    intro text value h
    split at h
    · cases h
      rfl
    · cases h
  exists_fromStr text h := ⟨⟨text, h⟩, dif_pos h⟩

def sampleScopes : McpScopes :=
  ⟨sampleContext .authorizationServer, sampleContext .resourceServer, rfl, rfl⟩

def sampleToken : BoundAccessToken :=
  ⟨⟨ascii "token", isUtf8_of_isAscii (by decide)⟩, sampleJwk.thumbprint⟩

def sampleStream : HttpCall visibleValues Unit where
  request := .getStream none none
  uri := ⟨ascii "https://a/", isUtf8_of_isAscii (by decide)⟩
  authHeader := none
  customHeaders := .empty

theorem exists_sampleAttempt : ∃ authorization, (exec (clientExec noHandler)
    ((sampleScopes.client (sampleCapabilities.client one_ne_zero)).resourceAttempt (ascii "GET")
      sampleTarget sampleToken) ((), .empty)).1 = .ok authorization := ⟨_, rfl⟩

/-- The one request of a session is handed on, and servers verify it as that request. -/
theorem decorated_of_sessionRun_sample :
    ∃ e sent, @sessionRun permissiveCrypto noOps visibleValues Unit Unit Unit Unit noHandler
        (fun _ _ => .ok ()) 1 one_ne_zero sampleCapabilities sampleScopes sampleToken
        [.request sampleStream] (((), .empty), []) = [e] ∧ e.sentAfter = [sent] ∧
      VerifiedAs compactText sampleJwk sampleToken none sampleStream sent := by
  obtain ⟨authorization, hattempt⟩ := exists_sampleAttempt
  obtain ⟨call, hsent⟩ := @exists_handedOn permissiveCrypto noOps visibleValues Unit Unit Unit Unit
    noHandler (fun _ _ => .ok ()) 1 one_ne_zero sampleCapabilities sampleScopes sampleToken
    sampleStream sampleTarget authorization ((), .empty) [] rfl rfl rfl
    Verifier.parse_sampleTarget hattempt
  obtain ⟨e, hrun, hevent, hstep⟩ : ∃ e, @sessionRun permissiveCrypto noOps visibleValues Unit Unit
      Unit Unit noHandler (fun _ _ => .ok ()) 1 one_ne_zero sampleCapabilities sampleScopes
      sampleToken [.request sampleStream] (((), .empty), []) = [] ++ e :: [] ∧
        e.sentAfter = [call] ∧ e.step = .request sampleStream := ⟨_, rfl, hsent, rfl⟩
  obtain ⟨-, hall⟩ := decorated_of_sessionRun noHandler (fun _ _ => .ok ()) one_ne_zero
    sampleCapabilities sampleScopes sampleToken compactText [.request sampleStream] () hrun
  obtain ⟨before, f, after, host, hsplit, hhost, -, hverified⟩ := hall call (by rw [hevent]; simp)
  -- the session has one event, before which nothing was recorded
  cases before with
  | nil =>
    obtain ⟨rfl, -⟩ := List.cons.inj hsplit
    rw [hstep] at hhost
    cases hhost
    exact ⟨e, call, hrun, hevent, hverified⟩
  | cons first before => simp at hsplit

end Keylix.Mcp

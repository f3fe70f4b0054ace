import Keylix.Dpop.Concurrent
import Keylix.Dpop.ReplayIdentity
import Keylix.Verifier.Nonce

/-!
# Replay state over runs of requests

Requests one after another over the process-local replay store of the service, from the empty store.
The marker of a proof is recorded when the proof is verified, before the confirmation of the token
is looked at.

`replay_of_verified`: when the host confirms the key of every proof that reaches the replay store, a
request is rejected as a replay only if an earlier one with the same identity was verified.
`replay_of_rejected` is the run in which the host gives no confirmation at first: the request is
rejected, and its proof is a replay from then on.
-/

set_option autoImplicit false

namespace Keylix.Verifier

open Keylix.Lib Keylix.Core Keylix.Dpop Keylix.OAuth
open Keylix.Lib.Prog (Handler Outcome Safe)

/-! ## The service over its replay store -/

/-- One operation: of the environment, or a section of the replay store. -/
def markerHandler {E : Signature} {ε : Type} (envHandler : Handler E ε) :
    Handler (E.sum replayOps) (ε × ReplayEntries)
  | .inl op, s, x, s' => envHandler op s.1 x s'.1 ∧ s'.2 = s.2
  | .inr (.update f), s, x, s' => x = s.2 ∧ s' = (s.1, f s.2)

/-- What the service runs on besides the markers: the clock of the service and the one of the replay
store, the nonces, and the policies. -/
structure ReplayCapabilities (E : Signature) where
  clock : Clock E
  storeClock : Clock E
  nonceStore : ServerNonceStore E
  noncePolicy : NoncePolicy
  verificationPolicy : VerificationPolicy

namespace ReplayCapabilities

variable {E : Signature} (caps : ReplayCapabilities E) {capacity : Nat} (hcap : capacity ≠ 0)

def replayStore : InMemoryReplayStore (E.sum replayOps) :=
  replayMemory caps.storeClock capacity hcap

def application : VerifierApplication (E.sum replayOps) where
  clock := ⟨caps.clock.unixSeconds.inl⟩
  replayStore := (caps.replayStore hcap).replayStore
  nonceStore := ⟨fun context => (caps.nonceStore.expectedNonce context).inl,
    fun context => (caps.nonceStore.issueNonce context).inl⟩
  noncePolicy := caps.noncePolicy
  verificationPolicy := caps.verificationPolicy

end ReplayCapabilities

/-- A request and its result. -/
structure Exchange where
  request : VerifierRequest
  result : VerifierResult

section Runs

variable {E : Signature} (caps : ReplayCapabilities E) {capacity : Nat} (hcap : capacity ≠ 0)
  (crypto : Crypto) (json : JsonText) {ε : Type} (envHandler : Handler E ε)

/-- The runs of requests one after another, from the empty store. -/
inductive SequentialRun : List Exchange → ε × ReplayEntries → Prop where
  | start (env : ε) : SequentialRun [] (env, .empty)
  | call {past : List Exchange} {s s' : ε × ReplayEntries} {request : VerifierRequest}
      {result : VerifierResult} (hrun : SequentialRun past s)
      (hcall : Outcome (markerHandler envHandler)
        ((caps.application hcap).verify crypto json request) s result s') :
      SequentialRun (past ++ [⟨request, result⟩]) s'

/-- The request is for the identity: the key and the identifier of its proof, its method and its
target. -/
def Identifies (request : VerifierRequest) (id : ReplayIdentity) : Prop :=
  ∃ proof : UnverifiedDpopProof crypto,
    UnverifiedDpopProof.parse crypto json request.dpopProof = .ok proof ∧
      id.thumbprint = proof.publicJwk.thumbprint ∧ id.method = request.method ∧
      EffectiveRequestTarget.parse request.target = .ok id.target ∧ id.jti = proof.claims.jti

/-- The marker of an identity. -/
def MarkerOf (id : ReplayIdentity) (key : ReplayKey) : Prop :=
  ∃ text, id.material = .ok text ∧ key = ⟨crypto.sha256 text⟩

/-- The digest does not collide on the texts that the requests are identified by. -/
def CollisionFree (requests : Set VerifierRequest) : Prop :=
  Set.InjOn crypto.sha256 {text | ∃ request ∈ requests, ∃ id, Identifies crypto json request id ∧
    id.material = .ok text}

/-- The request reaches the replay store with the proof: its target and its method are accepted, the
proof is signed for them, and the claims are accepted with the nonce that the service requires and
at the time that its clock reads. -/
def ReachesStore (request : VerifierRequest) (s : ε × ReplayEntries)
    (proof : UnverifiedDpopProof crypto) : Prop :=
  ∃ (target : EffectiveRequestTarget) (value : DpopRequest) (nonce : Option DpopNonce) (now : I64)
    (s₁ s₂ : ε × ReplayEntries) (accepted : Bool × ReplayRequest),
    EffectiveRequestTarget.parse request.target = .ok target ∧
    DpopRequest.new request.method target = .ok value ∧
    UnverifiedDpopProof.parse crypto json request.dpopProof = .ok proof ∧
    verifyBinding proof value = .ok () ∧
    Outcome (markerHandler envHandler) (caps.application hcap).requiredNonce s (.ok nonce) s₁ ∧
    Outcome (markerHandler envHandler) (caps.application hcap).clock.unixSeconds s₁ (.ok now) s₂ ∧
    verifyClaims caps.verificationPolicy proof
      (VerifierApplication.dpopRequest value request.accessToken nonce) now = .ok accepted

/-- The host confirms the key of the proof, if the request reaches the replay store. -/
def Confirmed (request : VerifierRequest) (s : ε × ReplayEntries) : Prop :=
  ∀ proof, ReachesStore caps hcap crypto json envHandler request s proof →
    request.confirmationJkt = some proof.publicJwk.thumbprint.toBase64url

/-- The runs of requests that are confirmed in the state before them. -/
inductive ConfirmedRun : List Exchange → ε × ReplayEntries → Prop where
  | start (env : ε) : ConfirmedRun [] (env, .empty)
  | call {past : List Exchange} {s s' : ε × ReplayEntries} {request : VerifierRequest}
      {result : VerifierResult} (hrun : ConfirmedRun past s)
      (hconf : Confirmed caps hcap crypto json envHandler request s)
      (hcall : Outcome (markerHandler envHandler)
        ((caps.application hcap).verify crypto json request) s result s') :
      ConfirmedRun (past ++ [⟨request, result⟩]) s'

/-! ## One request -/

/-- What a request does to the markers: it adds one only when it is verified, and is a replay only
if its marker was there. -/
structure CallEffect (request : VerifierRequest) (before : ReplayEntries) (result : VerifierResult)
    (after : ReplayEntries) : Prop where
  added : ∀ key e, after.lookup key = some e → before.lookup key = some e ∨
    (∃ version binding, result = .verified version binding) ∧
      ∃ id, Identifies crypto json request id ∧ MarkerOf crypto id key
  replay : ∀ version nonce, result = .rejected version .replay nonce →
    ∃ id key e, Identifies crypto json request id ∧ MarkerOf crypto id key ∧
      before.lookup key = some e

variable {crypto json envHandler}

/-- A rejection for another reason, with the markers as they were. -/
theorem callEffect_rejected {request : VerifierRequest} {entries : ReplayEntries}
    {version : Nat} {failure : FailureClass} {nonce : Option Bytes} (h : failure ≠ .replay) :
    CallEffect crypto json request entries (.rejected version failure nonce) entries where
  added := fun key e hkey => Or.inl hkey
  replay := by
    intro version' nonce' hr
    cases hr
    exact absurd rfl h

theorem mapDpopError_ne_replay {e : DpopError} (h : e.ofState = false) :
    mapDpopError e ≠ .replay := by
  cases e <;> simp_all [mapDpopError, DpopError.ofState]

/-- A program of the environment leaves the markers alone. -/
theorem safe_environment {α : Type} (p : Prog E α) (s : ε × ReplayEntries) :
    Safe (markerHandler envHandler) (fun _ => True) (fun _ s' => s'.2 = s.2) p.inl s := by
  have hp : Safe (fun (_ : E.Op) (s' : ε × ReplayEntries) _ s'' => s''.2 = s'.2)
      (fun s' => s'.2 = s.2)
      (fun _ _ => True) p s :=
    Safe.of_invariant (fun op s x s' hs hx => hx.trans hs) p rfl
  exact (hp.inl fun op s x s' hx => hx.2).mono (fun _ _ => trivial) (fun _ s' hs _ => hs)

theorem safe_requiredNonce_markers (s : ε × ReplayEntries) :
    Safe (markerHandler envHandler) (fun _ => True)
      (fun r s' => s'.2 = s.2 ∧ ∀ failure, r = .error failure → failure ≠ .replay)
      (caps.application hcap).requiredNonce s := by
  unfold VerifierApplication.requiredNonce
  split
  · refine ⟨trivial, rfl, ?_⟩
    intro failure h
    cases h
  next context _ =>
  refine Safe.bind (safe_environment (caps.nonceStore.expectedNonce context) s) ?_
  intro expected s₁ _ h₁
  cases expected with
  | error e => exact ⟨trivial, h₁, by rintro failure ⟨⟩; simp⟩
  | ok found =>
    cases found with
    | some nonce =>
      refine ⟨trivial, h₁, ?_⟩
      intro failure h
      cases h
    | none =>
      refine Safe.bind (safe_environment (caps.nonceStore.issueNonce context) s₁) ?_
      intro issued s₂ _ h₂
      cases issued with
      | error e => exact ⟨trivial, h₂.trans h₁, by rintro failure ⟨⟩; simp⟩
      | ok nonce =>
        refine ⟨trivial, h₂.trans h₁, ?_⟩
        intro failure h
        cases h

/-- The store adds the marker that it answers `fresh` for. -/
theorem safe_checkAndRecord_markers (key : ReplayKey) (expires : I64) (s : ε × ReplayEntries) :
    Safe (markerHandler envHandler) (fun _ => True)
      (fun r s' =>
        (∀ k e, s'.2.lookup k = some e → s.2.lookup k = some e ∨ k = key ∧ r = .ok .fresh) ∧
          (r = .ok .replay → ∃ e, s.2.lookup key = some e))
      ((caps.replayStore hcap).checkAndRecord key expires) s := by
  refine Safe.bind (safe_environment caps.storeClock.unixSeconds s) ?_
  intro time s₁ _ h₁
  cases time with
  | error e =>
    refine ⟨trivial, fun k e hk => Or.inl (h₁ ▸ hk), ?_⟩
    intro h
    cases h
  | ok now =>
    simp only
    split
    · refine ⟨trivial, fun k e hk => Or.inl (h₁ ▸ hk), ?_⟩
      intro h
      cases h
    · refine ⟨trivial, ?_⟩
      rintro found s₂ ⟨rfl, rfl⟩
      rw [← h₁]
      exact ⟨trivial, fun k e hk => lookup_of_recordEntry hk, fun hr => recordEntry_replay hr⟩

/-- The binding checks look at the method and the target of a request only. -/
theorem verifyBinding_dpopRequest (proof : UnverifiedDpopProof crypto) (value : DpopRequest)
    (accessToken : Bytes) (nonce : Option DpopNonce) :
    verifyBinding proof (VerifierApplication.dpopRequest value accessToken nonce) =
      verifyBinding proof value := by
  cases nonce with
  | none => rfl
  | some nonce => rfl

/-- The result after the answer of the replay store. -/
theorem callEffect_answer {request : VerifierRequest} {target : EffectiveRequestTarget}
    {value : DpopRequest} {proof : UnverifiedDpopProof crypto} (nonce : Option DpopNonce)
    {policy : VerificationPolicy} {now : I64} {asked : ReplayRequest} {hashVerified : Bool}
    {before after : ReplayEntries} {answer : Except DpopPortError ReplayStatus}
    (hjkt : request.confirmationJkt = some proof.publicJwk.thumbprint.toBase64url)
    (htarget : EffectiveRequestTarget.parse request.target = .ok target)
    (hnew : DpopRequest.new request.method target = .ok value)
    (hparse : UnverifiedDpopProof.parse crypto json request.dpopProof = .ok proof)
    (hclaims : verifyClaims policy proof
      (VerifierApplication.dpopRequest value request.accessToken nonce) now =
        .ok (hashVerified, asked))
    (hadded : ∀ k e, after.lookup k = some e →
      before.lookup k = some e ∨ k = asked.key ∧ answer = .ok .fresh)
    (hreplay : answer = .ok .replay → ∃ e, before.lookup asked.key = some e) :
    CallEffect crypto json request before
      (match verifyReplay proof (VerifierApplication.dpopRequest value request.accessToken nonce)
          hashVerified answer with
        | .error e => VerifierApplication.rejectProof e nonce
        | .ok verifiedProof => VerifierApplication.composeResult crypto request verifiedProof)
      after := by
  obtain ⟨hmethod, htarget', htoken, -⟩ :=
    VerifierApplication.dpopRequest_eq request.accessToken nonce hnew
  obtain ⟨haccepted, rfl⟩ := verifyClaims_eq_ok_iff.1 hclaims
  have hkey := haccepted.key
  rw [hmethod, htarget'] at hkey
  have hid : Identifies crypto json request
      ⟨proof.publicJwk.thumbprint, request.method, target, proof.claims.jti⟩ :=
    ⟨proof, hparse, rfl, rfl, htarget, rfl⟩
  have hmarker : MarkerOf crypto ⟨proof.publicJwk.thumbprint, request.method, target,
      proof.claims.jti⟩ asked.key := by
    obtain ⟨text, htext, hdigest⟩ := map_eq_ok_iff.1 hkey
    exact ⟨text, htext, hdigest.symm⟩
  cases answer with
  | error e =>
    refine ⟨?_, ?_⟩
    · intro key e hk
      refine Or.inl ((hadded key e hk).resolve_right ?_)
      rintro ⟨-, hfresh⟩
      cases hfresh
    · intro version nonce hr
      cases hr
  | ok status =>
    cases status with
    | replay =>
      refine ⟨?_, ?_⟩
      · intro key e hk
        refine Or.inl ((hadded key e hk).resolve_right ?_)
        rintro ⟨-, hreplayed⟩
        cases hreplayed
      · intro version nonce _
        obtain ⟨e, he⟩ := hreplay rfl
        exact ⟨_, _, e, hid, hmarker, he⟩
    | fresh =>
      -- the marker is recorded, and the confirmed key makes the request verified
      have hverified : ∃ version binding, VerifierApplication.composeResult crypto request
          ⟨proof.publicJwk.thumbprint, proof.claims.iat,
            (VerifierApplication.dpopRequest value request.accessToken nonce).nonce.isSome, true,
            (VerifierApplication.dpopRequest value request.accessToken nonce).accessToken.isSome⟩ =
              .verified version binding := by
        rw [VerifierApplication.composeResult_verified_iff, htoken]
        exact ⟨rfl, hjkt⟩
      refine ⟨?_, ?_⟩
      · intro key e hk
        rcases hadded key e hk with hbefore | ⟨rfl, -⟩
        · exact Or.inl hbefore
        · exact Or.inr ⟨hverified, _, hid, hmarker⟩
      · intro version disclosed hr
        obtain ⟨version', binding, hv⟩ := hverified
        simp only [verifyReplay, hv, reduceCtorEq] at hr

/-- The checks after the nonce of the server is known. -/
theorem safe_verifyWithNonce_markers {request : VerifierRequest} {target : EffectiveRequestTarget}
    {nonce : Option DpopNonce} {s₀ s : ε × ReplayEntries}
    (hconf : Confirmed caps hcap crypto json envHandler request s₀)
    (htarget : EffectiveRequestTarget.parse request.target = .ok target)
    (hnonce : Outcome (markerHandler envHandler) (caps.application hcap).requiredNonce s₀
      (.ok nonce) s) :
    Safe (markerHandler envHandler) (fun _ => True)
      (fun result s' => CallEffect crypto json request s.2 result s'.2)
      (VerifierApplication.verifyWithNonce crypto json (caps.application hcap) request target nonce)
      s := by
  unfold VerifierApplication.verifyWithNonce
  -- every rejection before the store is asked leaves the markers alone, and is not a replay
  cases hnew : DpopRequest.new request.method target with
  | error e => exact ⟨trivial, callEffect_rejected (mapDpopError_ne_replay (new_error hnew))⟩
  | ok value =>
    cases hheader : parseDpopHeaderValues crypto json [request.dpopProof] with
    | error e =>
      exact ⟨trivial, callEffect_rejected
        (mapDpopError_ne_replay (parseDpopHeaderValues_error hheader))⟩
    | ok proof =>
      have hparse :=
        ((VerifierApplication.parseDpopHeaderValues_single_iff crypto json).1 hheader).2
      simp only [DpopVerifier.verify, verifyBinding_dpopRequest]
      cases hbind : verifyBinding proof value with
      | error e =>
        exact ⟨trivial, callEffect_rejected (mapDpopError_ne_replay (verifyBinding_error hbind))⟩
      | ok u =>
        simp only [Prog.bind_assoc_prog]
        -- the clock is part of the environment: it does not reach the markers
        refine Safe.bind (safe_environment caps.clock.unixSeconds s).and_outcome ?_
        rintro time s₁ - ⟨h₁, hclock⟩
        rw [← h₁]
        cases time with
        | error e => exact ⟨trivial, callEffect_rejected (by simp [mapDpopError])⟩
        | ok now =>
          simp only
          cases hclaims : verifyClaims (caps.application hcap).verificationPolicy proof
              (VerifierApplication.dpopRequest value request.accessToken nonce) now with
          | error e =>
            refine ⟨trivial, callEffect_rejected ?_⟩
            rcases verifyClaims_error hclaims with hstate | hnonce
            · exact mapDpopError_ne_replay hstate
            · rcases verifyNonce_error hnonce with rfl | rfl
              · simp [mapDpopError]
              · simp [mapDpopError]
          | ok r =>
            obtain ⟨hashVerified, asked⟩ := r
            simp only [Prog.bind_assoc_prog]
            -- from here on the store has answered, and the answer decides the effect
            refine Safe.bind
              (safe_checkAndRecord_markers caps hcap asked.key asked.expiresAtUnix s₁) ?_
            rintro answer s₂ - ⟨hadded, hreplay⟩
            have hjkt := hconf proof ⟨target, value, nonce, now, s, s₁, _, htarget, hnew, hparse,
              hbind, hnonce, hclock, hclaims⟩
            have heffect := callEffect_answer nonce hjkt htarget hnew hparse hclaims hadded hreplay
            simp only [Prog.pure_eq, Prog.bind_ret]
            split
            · next e he =>
              rw [he] at heffect
              exact ⟨trivial, heffect⟩
            · next v hv =>
              rw [hv] at heffect
              exact ⟨trivial, heffect⟩

/-- The effect of a whole request. -/
theorem callEffect_of_outcome {request : VerifierRequest} {result : VerifierResult}
    {s s' : ε × ReplayEntries} (hconf : Confirmed caps hcap crypto json envHandler request s)
    (h : Outcome (markerHandler envHandler)
      ((caps.application hcap).verify crypto json request) s result s') :
    CallEffect crypto json request s.2 result s'.2 := by
  have hsafe : Safe (markerHandler envHandler) (fun _ => True)
      (fun result s' => CallEffect crypto json request s.2 result s'.2)
      ((caps.application hcap).verify crypto json request) s := by
    unfold VerifierApplication.verify
    split
    · exact ⟨trivial, callEffect_rejected (by simp)⟩
    split
    · exact ⟨trivial, callEffect_rejected (by simp)⟩
    split
    · next e he =>
      rw [EffectiveRequestTarget.parse_eq_error he]
      exact ⟨trivial, callEffect_rejected (by simp [mapDpopError])⟩
    next target htarget =>
    refine Safe.bind (safe_requiredNonce_markers caps hcap s).and_outcome ?_
    rintro required s₁ - ⟨⟨h₁, hfailure⟩, hrequired⟩
    rw [← h₁]
    cases required with
    | error failure => exact ⟨trivial, callEffect_rejected (hfailure failure rfl)⟩
    | ok nonce => exact safe_verifyWithNonce_markers caps hcap hconf htarget hrequired
  exact (hsafe.outcome h).2

/-! ## Whole runs -/

variable (crypto json) in
/-- Every marker was left by a verified request. -/
def MarkersVerified (past : List Exchange) (entries : ReplayEntries) : Prop :=
  ∀ key e, entries.lookup key = some e → ∃ earlier ∈ past,
    (∃ version binding, earlier.result = .verified version binding) ∧
      ∃ id, Identifies crypto json earlier.request id ∧ MarkerOf crypto id key

theorem MarkersVerified.call {past : List Exchange} {request : VerifierRequest}
    {result : VerifierResult} {before after : ReplayEntries}
    (hpast : MarkersVerified crypto json past before)
    (heffect : CallEffect crypto json request before result after) :
    MarkersVerified crypto json (past ++ [⟨request, result⟩]) after := by
  intro key e hk
  rcases heffect.added key e hk with hbefore | ⟨hverified, hid⟩
  · obtain ⟨earlier, hmem, h⟩ := hpast key e hbefore
    exact ⟨earlier, List.mem_append_left _ hmem, h⟩
  · exact ⟨⟨request, result⟩, List.mem_append_right _ List.mem_cons_self, hverified, hid⟩

variable {caps hcap}

theorem ConfirmedRun.markersVerified {past : List Exchange} {s : ε × ReplayEntries}
    (hrun : ConfirmedRun caps hcap crypto json envHandler past s) :
    MarkersVerified crypto json past s.2 := by
  induction hrun with
  | start env =>
    intro key e hk
    cases hk
  | call hrun hconf hcall ih => exact ih.call (callEffect_of_outcome caps hcap hconf hcall)

/-- A run is confirmed if its requests are confirmed in every state. -/
theorem SequentialRun.confirmed {past : List Exchange} {s : ε × ReplayEntries}
    (hrun : SequentialRun caps hcap crypto json envHandler past s)
    (hconf : ∀ x ∈ past, ∀ s, Confirmed caps hcap crypto json envHandler x.request s) :
    ConfirmedRun caps hcap crypto json envHandler past s := by
  induction hrun with
  | start env => exact .start env
  | call hrun hcall ih =>
    have hpast := ih fun x hx => hconf x (List.mem_append_left _ hx)
    have hlast := hconf _ (List.mem_append_right _ List.mem_cons_self)
    exact .call hpast (hlast _) hcall

/-- Every beginning of a run is a run, and the next request starts where it ends. -/
theorem ConfirmedRun.split {before after : List Exchange} {call : Exchange} {s : ε × ReplayEntries}
    (hrun : ConfirmedRun caps hcap crypto json envHandler (before ++ call :: after) s) :
    ∃ s₁ s₂, ConfirmedRun caps hcap crypto json envHandler before s₁ ∧
      Confirmed caps hcap crypto json envHandler call.request s₁ ∧
      Outcome (markerHandler envHandler)
        ((caps.application hcap).verify crypto json call.request) s₁
        call.result s₂ := by
  generalize hall : before ++ call :: after = all at hrun
  induction hrun generalizing after with
  | start env => simp at hall
  | @call past s s' request result hrun hconf hcall ih =>
    rcases List.eq_nil_or_concat after with rfl | ⟨rest, last, rfl⟩
    · obtain ⟨rfl, hlast⟩ := List.append_inj' hall rfl
      cases hlast
      exact ⟨s, s', hrun, hconf, hcall⟩
    · have hall' : (before ++ call :: rest) ++ [last] = past ++ [⟨request, result⟩] := by
        simpa using hall
      exact ih (List.append_inj' hall' rfl).1

/-- An identity is determined by its marker, among the requests of a run without collisions. -/
theorem CollisionFree.eq {requests : Set VerifierRequest} {a b : VerifierRequest}
    {id id' : ReplayIdentity} {key : ReplayKey} (hfree : CollisionFree crypto json requests)
    (ha : a ∈ requests) (hb : b ∈ requests) (hid : Identifies crypto json a id)
    (hid' : Identifies crypto json b id') (hkey : MarkerOf crypto id key)
    (hkey' : MarkerOf crypto id' key) : id = id' := by
  obtain ⟨text, htext, rfl⟩ := hkey
  obtain ⟨text', htext', heq⟩ := hkey'
  have hsame : text = text' := hfree ⟨a, ha, id, hid, htext⟩ ⟨b, hb, id', hid', htext'⟩
    (ReplayKey.mk.inj heq)
  exact ReplayIdentity.material_inj htext (hsame ▸ htext')

/-- **When the host confirms the keys, a replay was verified before**: a request is rejected as a
replay only if an earlier request of the run with the same identity was verified, and a rejected
request adds no marker. -/
theorem replay_of_verified {run : List Exchange} {s : ε × ReplayEntries}
    (hrun : ConfirmedRun caps hcap crypto json envHandler run s)
    (hfree : CollisionFree crypto json {request | ∃ x ∈ run, x.request = request}) :
    (∀ before call after version nonce, run = before ++ call :: after →
      call.result = .rejected version .replay nonce →
        ∃ id, Identifies crypto json call.request id ∧ ∃ earlier ∈ before,
          (∃ version binding, earlier.result = .verified version binding) ∧
            Identifies crypto json earlier.request id) ∧
    ∀ request version failure nonce s', Confirmed caps hcap crypto json envHandler request s →
      Outcome (markerHandler envHandler) ((caps.application hcap).verify crypto json request) s
        (.rejected version failure nonce) s' →
          ∀ key e, s'.2.lookup key = some e → s.2.lookup key = some e := by
  refine ⟨?_, ?_⟩
  · intro before call after version nonce hsplit hreplay
    subst hsplit
    obtain ⟨s₁, s₂, hbefore, hconf, hcall⟩ := hrun.split
    have heffect := callEffect_of_outcome caps hcap hconf hcall
    have hmem : call ∈ before ++ call :: after := List.mem_append_right _ List.mem_cons_self
    obtain ⟨id, key, e, hid, hkey, hlookup⟩ := heffect.replay version nonce hreplay
    obtain ⟨earlier, hearlier, hverified, id', hid', hkey'⟩ := hbefore.markersVerified key e hlookup
    have hsame : id = id' := hfree.eq ⟨call, hmem, rfl⟩
      ⟨earlier, List.mem_append_left _ hearlier, rfl⟩ hid hid' hkey hkey'
    exact ⟨id, hid, earlier, hearlier, hverified, hsame ▸ hid'⟩
  · intro request version failure nonce s' hconf hcall key e hk
    have heffect := callEffect_of_outcome caps hcap hconf hcall
    refine (heffect.added key e hk).resolve_right ?_
    rintro ⟨⟨version', binding, hr⟩, -⟩
    cases hr

end Runs

/-! ## A confirmed and an unconfirmed run -/

/-- The service without operations of its own, at the time of the sample proof. -/
def sampleReplayServer : ReplayCapabilities noOps where
  clock := ⟨.ret (.ok sampleTime)⟩
  storeClock := ⟨.ret (.ok sampleTime)⟩
  nonceStore := ⟨fun _ => .ret (.ok none), fun _ => .ret (.error .mk)⟩
  noncePolicy := .optional
  verificationPolicy := .default

def noRelation : Handler noOps Unit := fun op => op.elim

section Signed

variable {crypto : Crypto} {jwk : PublicP256Jwk crypto} {signature : Bytes}

/-- A sample request asks the store once; its result is the answer of the store, or the composition
with the token. -/
theorem exists_signedProgram
    (hsig : SignatureValid jwk (signingInput jwk (signedClaims crypto none)) signature) :
    ∃ asked : ReplayRequest, sampleTime.toInt ≤ asked.expiresAtUnix.toInt ∧
    ∀ jkt, (sampleReplayServer.application one_ne_zero).verify crypto compactText
        (signedRequest jwk signature none jkt) =
      .call (S := noOps.sum replayOps) (.inr (.update fun entries =>
          (recordEntry 1 sampleTime asked.key asked.expiresAtUnix entries).2)) fun found =>
        match (recordEntry 1 sampleTime asked.key asked.expiresAtUnix found).1 with
        | .error _ => .ret (.rejected 1 .replayStoreUnavailable none)
        | .ok .replay => .ret (.rejected 1 .replay none)
        | .ok .fresh => .ret (VerifierApplication.composeResult crypto
            (signedRequest jwk signature none jkt)
              ⟨jwk.thumbprint, sampleTime, false, true, true⟩) := by
  have haccepted : NonceAccepted (Option.map DpopNonce.asStr none) none := fun n hn => nomatch hn
  obtain ⟨asked, hclaims⟩ := claims_signed jwk signature haccepted
  have hexpires : asked.expiresAtUnix.toInt = 1000 + 300 :=
    (verifyClaims_eq_ok_iff.1 hclaims).1.expires
  have htime : sampleTime.toInt = 1000 := rfl
  -- the store refuses a marker that has expired already; the window of the proof is open
  have hfits : ¬ asked.expiresAtUnix.toInt < sampleTime.toInt := by omega
  refine ⟨asked, by omega, ?_⟩
  intro jkt
  rw [verify_signed]
  have hnew : DpopRequest.new (signedRequest jwk signature none jkt).method sampleTarget =
      .ok sampleRequest := new_sample
  have hrequest : VerifierApplication.dpopRequest sampleRequest
      (signedRequest jwk signature none jkt).accessToken none = sampleDpopRequest none :=
    dpopRequest_sample none
  have hnonce : (sampleReplayServer.application one_ne_zero).requiredNonce = .ret (.ok none) := rfl
  have hclock : (sampleReplayServer.application one_ne_zero).clock.unixSeconds =
      .ret (.ok sampleTime) := rfl
  have hpolicy : (sampleReplayServer.application one_ne_zero).verificationPolicy = .default := rfl
  have hstore : (sampleReplayServer.application one_ne_zero).replayStore.checkAndRecord asked.key
      asked.expiresAtUnix = .call (S := noOps.sum replayOps) (.inr (.update fun entries =>
        (recordEntry 1 sampleTime asked.key asked.expiresAtUnix entries).2)) fun found =>
          .ret (recordEntry 1 sampleTime asked.key asked.expiresAtUnix found).1 := by
    show (if asked.expiresAtUnix.toInt < sampleTime.toInt then _ else _) = _
    rw [if_neg hfits]
    rfl
  simp only [hnonce, Prog.bind_ret, VerifierApplication.verifyWithNonce, hnew,
    header_signed compactText hsig.1 shortNonce_none, hrequest, DpopVerifier.verify,
    binding_signed hsig, hclock, hpolicy, hclaims, hstore, Prog.pure_eq]
  -- the program is its one call and what follows each answer
  refine congrArg (Prog.call (S := noOps.sum replayOps) _) (funext fun found => ?_)
  show (match verifyReplay (signedProof jwk signature none) (sampleDpopRequest none) true
      (recordEntry 1 sampleTime asked.key asked.expiresAtUnix found).1 with
    | .error e => Prog.ret (VerifierApplication.rejectProof e none)
    | .ok v => Prog.ret (VerifierApplication.composeResult crypto
        (signedRequest jwk signature none jkt) v)) = _
  cases (recordEntry 1 sampleTime asked.key asked.expiresAtUnix found).1 with
  | error e => rfl
  | ok status =>
    cases status with
    | fresh => rfl
    | replay => rfl

/-- Two requests with the sample proof: the first finds no marker, the second the one of the
first. -/
theorem sequentialRun_signed
    (hsig : SignatureValid jwk (signingInput jwk (signedClaims crypto none)) signature)
    (first second : Option Bytes) :
    ∃ s, SequentialRun sampleReplayServer one_ne_zero crypto compactText noRelation
      [⟨signedRequest jwk signature none first, VerifierApplication.composeResult crypto
          (signedRequest jwk signature none first)
          ⟨jwk.thumbprint, sampleTime, false, true, true⟩⟩,
        ⟨signedRequest jwk signature none second, .rejected 1 .replay none⟩] s := by
  obtain ⟨asked, hexpires, hprogram⟩ := exists_signedProgram hsig
  have hreplay : (recordEntry 1 sampleTime asked.key asked.expiresAtUnix
      (.insert .empty asked.key asked.expiresAtUnix)).1 = .ok .replay := by
    have hcontains : FiniteMap.contains ((FiniteMap.insert .empty asked.key
        asked.expiresAtUnix : ReplayEntries).retain fun _ expiry =>
          sampleTime.toInt ≤ expiry.toInt) asked.key = true := by
      rw [FiniteMap.contains, FiniteMap.lookup_retain, FiniteMap.lookup_insert, if_pos rfl]
      simp [hexpires]
    unfold recordEntry
    simp only [if_pos hcontains]
  have hfirst : SequentialRun sampleReplayServer one_ne_zero crypto compactText noRelation
      [⟨signedRequest jwk signature none first, VerifierApplication.composeResult crypto
        (signedRequest jwk signature none first)
        ⟨jwk.thumbprint, sampleTime, false, true, true⟩⟩]
      ((), .insert .empty asked.key asked.expiresAtUnix) := by
    refine SequentialRun.call (SequentialRun.start ()) ?_
    rw [hprogram]
    exact ⟨_, ((), _), ⟨rfl, rfl⟩, rfl, rfl⟩
  refine ⟨((), (recordEntry 1 sampleTime asked.key asked.expiresAtUnix
    (.insert .empty asked.key asked.expiresAtUnix)).2), SequentialRun.call hfirst ?_⟩
  rw [hprogram]
  refine ⟨_, ((), _), ⟨rfl, rfl⟩, ?_⟩
  simp only [hreplay]
  exact ⟨rfl, rfl⟩

end Signed

theorem Identifies.unique {crypto : Crypto} {json : JsonText} {request : VerifierRequest}
    {id id' : ReplayIdentity} (h : Identifies crypto json request id)
    (h' : Identifies crypto json request id') : id = id' := by
  obtain ⟨proof, hparse, hthumbprint, hmethod, htarget, hjti⟩ := h
  obtain ⟨proof', hparse', hthumbprint', hmethod', htarget', hjti'⟩ := h'
  rw [hparse] at hparse'
  cases hparse'
  rw [htarget] at htarget'
  cases id
  cases id'
  simp_all

/-- The coordinates of a point of the curve. -/
def vectorX : ByteArr 32 :=
  ⟨[127, 205, 206, 39, 112, 246, 196, 93, 65, 131, 203, 238, 111, 219, 75, 123, 88, 7, 51, 53, 123,
    233, 239, 19, 186, 207, 110, 60, 123, 209, 84, 69], rfl⟩

def vectorY : ByteArr 32 :=
  ⟨[199, 241, 68, 205, 27, 189, 155, 126, 135, 44, 223, 237, 185, 238, 185, 244, 179, 105, 93, 110,
    169, 11, 36, 173, 138, 70, 35, 40, 133, 136, 229, 173], rfl⟩

/-- The signed text of the sample proof of the key at this point. -/
def vectorInput : Bytes :=
  ascii "eyJ0eXAiOiJkcG9wK2p3dCIsImFsZyI6IkVTMjU2IiwiandrIjp7Imt0eSI6IkVDIiwiY3J2IjoiUC0yNTYi" ++
    ascii "LCJ4IjoiZjgzT0ozRDJ4RjFCZzh2dWI5dExlMWdITXpWNzZlOFR1czl1UEh2UlZFVSIsInkiOiJ4X0ZFelJ1" ++
    ascii "OW0zNkhMTl90dWU2NTlMTnBYVzZwQ3lTdGlrWWpLSVdJNWEwIn19.eyJqdGkiOiJpZCIsImh0bSI6IkdFVCIs" ++
    ascii "Imh0dSI6Imh0dHBzOi8vYS8iLCJpYXQiOjEwMDAsImF0aCI6IlBFYWVuV3hZZGRONlFfTlQxUGlPWWZ6NEVz" ++
    ascii "WnU3alJYUmxwQXNOcEJVLUEifQ"

/-- The ES256 signature of `vectorInput`. -/
def vectorSignature : Bytes :=
  [20, 35, 152, 162, 123, 20, 173, 8, 54, 111, 142, 97, 216, 171, 100, 132, 116, 255, 62, 63, 147,
    158, 57, 69, 25, 180, 123, 142, 27, 208, 124, 215, 60, 113, 233, 220, 158, 249, 117, 2, 201, 87,
    132, 46, 155, 14, 63, 83, 161, 33, 48, 35, 130, 86, 90, 87, 235, 12, 25, 96, 2, 145, 200, 116]

/-- The SHA-256 digest of the canonical form of the key. -/
def vectorThumbprint : ByteArr 32 :=
  ⟨[160, 162, 50, 194, 241, 148, 165, 53, 83, 203, 19, 16, 221, 188, 8, 33, 228, 20, 185, 215, 235,
    252, 41, 11, 50, 48, 132, 215, 209, 2, 15, 229], rfl⟩

/-- The texts that are hashed for a request with the sample proof, with their SHA-256 digests: the
canonical form of the key, the token, and the identity of the proof. -/
def vectorDigests : List (Bytes × ByteArr 32) :=
  [(ascii "\x7b\"crv\":\"P-256\",\"kty\":\"EC\",\"x\":\"" ++
      ascii "f83OJ3D2xF1Bg8vub9tLe1gHMzV76e8Tus9uPHvRVEU" ++
      ascii "\",\"y\":\"x_FEzRu9m36HLN_tue659LNpXW6pCyStikYjKIWI5a0\"\x7d", vectorThumbprint),
    (ascii "token",
      ⟨[60, 70, 158, 157, 108, 88, 117, 211, 122, 67, 243, 83, 212, 248, 142, 97, 252, 248, 18, 198,
        110, 238, 52, 87, 70, 90, 64, 176, 218, 65, 83, 224], rfl⟩),
    ([0, 0, 0, 0, 0, 0, 0, 32] ++ vectorThumbprint.1 ++ [0, 0, 0, 0, 0, 0, 0, 3] ++ ascii "GET" ++
        [0, 0, 0, 0, 0, 0, 0, 10] ++ ascii "https://a/" ++ [0, 0, 0, 0, 0, 0, 0, 2] ++ ascii "id",
      ⟨[169, 231, 124, 175, 252, 195, 136, 67, 222, 241, 226, 13, 243, 137, 255, 92, 173, 17, 187,
        165, 162, 168, 243, 170, 57, 184, 195, 11, 233, 63, 110, 252], rfl⟩)]

/-- A cryptographic library that knows these texts and this key. -/
def vectorCrypto : Crypto where
  PublicKey := Unit
  sha256 := fun text => (vectorDigests.lookup text).getD ⟨List.replicate 32 255, rfl⟩
  parsedPublicKey := fun point =>
    if point = uncompressedPoint vectorX vectorY then some () else none
  verifySig := fun _ input signature => input = vectorInput && signature = vectorSignature

def vectorJwk : PublicP256Jwk vectorCrypto := ⟨vectorX, vectorY, rfl⟩

theorem signatureValid_vector :
    SignatureValid vectorJwk (signingInput vectorJwk (signedClaims vectorCrypto none))
      vectorSignature := by
  have hinput : signingInput vectorJwk (signedClaims vectorCrypto none) = vectorInput := by
    decide +kernel
  rw [hinput]
  exact ⟨rfl, (), rfl, by simp [vectorCrypto]⟩

/-- The confirmation of the key. -/
def vectorJkt : Bytes := ascii "oKIywvGUpTVTyxMQ3bwIIeQUudfr_CkLMjCE19ECD-U"

theorem thumbprint_vector : vectorJwk.thumbprint.toBase64url = vectorJkt := by
  decide +kernel

/-- A confirmed proof that is presented twice. -/
theorem replay_of_verified_sample :
    ∃ s, SequentialRun sampleReplayServer one_ne_zero vectorCrypto compactText noRelation
        [⟨signedRequest vectorJwk vectorSignature none (some vectorJkt),
          .verified 1 ⟨vectorJkt, sampleTime, false, true⟩⟩,
          ⟨signedRequest vectorJwk vectorSignature none (some vectorJkt),
            .rejected 1 .replay none⟩] s ∧
      ∃ id, Identifies vectorCrypto compactText
        (signedRequest vectorJwk vectorSignature none (some vectorJkt)) id := by
  generalize hrequest : signedRequest vectorJwk vectorSignature none (some vectorJkt) = request
  have hresult := composeResult_signed vectorJwk vectorSignature none false
  obtain ⟨s, hrun⟩ := sequentialRun_signed signatureValid_vector (some vectorJkt) (some vectorJkt)
  rw [thumbprint_vector, hrequest] at hresult
  rw [hrequest, hresult] at hrun
  refine ⟨s, hrun, ?_⟩
  have hfree : CollisionFree vectorCrypto compactText {other | ∃ x ∈
      [(⟨request, .verified 1 ⟨vectorJkt, sampleTime, false, true⟩⟩ : Exchange),
        ⟨request, .rejected 1 .replay none⟩], x.request = other} := by
    -- both requests are the same, and so are their texts
    have hsame : ∀ x ∈ [(⟨request, .verified 1 ⟨vectorJkt, sampleTime, false, true⟩⟩ : Exchange),
        ⟨request, .rejected 1 .replay none⟩], x.request = request := by
      simp
    rintro text ⟨_, ⟨x, hx, rfl⟩, id, hid, htext⟩ text' ⟨_, ⟨x', hx', rfl⟩, id', hid', htext'⟩ -
    rw [hsame x hx] at hid
    rw [hsame x' hx'] at hid'
    cases hid.unique hid'
    rw [htext] at htext'
    exact Except.ok.inj htext'
  have hconf : ∀ s, Confirmed sampleReplayServer one_ne_zero vectorCrypto compactText noRelation
      request s := by
    rintro s proof ⟨target, value, nonce, now, s₁, s₂, asked, -, -, hparse, -⟩
    have hheader := @header_signed vectorCrypto vectorJwk vectorSignature compactText
      signatureValid_vector.1 none shortNonce_none (some vectorJkt)
    rw [hrequest] at hheader
    rw [((VerifierApplication.parseDpopHeaderValues_single_iff vectorCrypto compactText).1
      hheader).2] at hparse
    cases hparse
    rw [← hrequest]
    exact congrArg some thumbprint_vector.symm
  have hconfirmed := hrun.confirmed fun x hx => by
    rcases List.mem_cons.1 hx with rfl | hx
    · exact hconf
    · rw [List.mem_singleton.1 hx]
      exact hconf
  obtain ⟨id, hid, -⟩ := (replay_of_verified hconfirmed hfree).1 [_] _ [] 1 none rfl rfl
  exact ⟨id, hid⟩

/-- The host gives no confirmation at first: the request is rejected, no request was verified, and
the same proof with its confirmation is a replay. -/
theorem replay_of_rejected :
    (∃ s, SequentialRun sampleReplayServer one_ne_zero permissiveCrypto compactText noRelation
      [⟨sampleVerifierRequest none none, .rejected 1 .tokenBindingMissing none⟩,
        ⟨sampleVerifierRequest none (some sampleJkt), .rejected 1 .replay none⟩] s) ∧
      ∀ earlier ∈ [(⟨sampleVerifierRequest none none,
          .rejected 1 .tokenBindingMissing none⟩ : Exchange)],
        ¬ ∃ version binding, earlier.result = .verified version binding := by
  have hresult : VerifierApplication.composeResult permissiveCrypto
      (sampleVerifierRequest none none)
      ⟨sampleJwk.thumbprint, sampleTime, false, true, true⟩ =
        .rejected 1 .tokenBindingMissing none := by
    simp [VerifierApplication.composeResult, sampleVerifierRequest, signedRequest,
      HostValidatedToken.fromEquivalentHostValidator, HostValidatedToken.new, composeSenderBinding,
      mapOauthError, VerifierResult.reject, verifierProtocolVersion]
  have hsig : SignatureValid sampleJwk
      (signingInput sampleJwk (signedClaims permissiveCrypto none)) (List.replicate 64 0) :=
    ⟨List.length_replicate, (), rfl, rfl⟩
  have hrun : ∃ s, SequentialRun sampleReplayServer one_ne_zero permissiveCrypto compactText
      noRelation [⟨sampleVerifierRequest none none, VerifierApplication.composeResult
          permissiveCrypto (sampleVerifierRequest none none)
            ⟨sampleJwk.thumbprint, sampleTime, false, true, true⟩⟩,
        ⟨sampleVerifierRequest none (some sampleJkt), .rejected 1 .replay none⟩] s :=
    sequentialRun_signed hsig none (some sampleJkt)
  rw [hresult] at hrun
  exact ⟨hrun, by simp⟩

end Keylix.Verifier

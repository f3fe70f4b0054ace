import Keylix.Mcp.Client

/-!
# Runs of clients over one nonce store

A run is any sequence of calls of any number of clients, direct or of the Model Context Protocol,
over one nonce store that starts empty. Each call leaves an event: the call, its answer, and the
entries of the store before and after it.

One call either records its nonce for its context or changes nothing (`callSpec_of_exec`). Over a
run, the entry of a context is then the nonce of the last successful recording for it
(`lookup_clientRun`), and `scopedEvent_of_clientRun` says what every proof of the run carries.
-/

set_option autoImplicit false

namespace Keylix.Mcp

open Keylix.Lib Keylix.Core Keylix.Dpop Keylix.OAuth
open Keylix.Lib.Prog (exec exec_bind exec_ret)

/-! ## What a call is about -/

namespace ClientOp

def context : ClientOp → NonceContext
  | .tokenRequest context _ => context
  | .refreshTokenRequest context _ _ => context
  | .protectedResource context _ _ _ => context
  | .recordNonceChallenge context _ _ => context
  | .recordSuccessNonce context _ => context

/-- The nonce that a successful call records. -/
def recording : ClientOp → Option DpopNonce
  | .recordNonceChallenge _ nonce _ => some nonce
  | .recordSuccessNonce _ nonce => nonce
  | _ => none

/-- The namespace of the servers that a call may address with a proof. -/
def scope : ClientOp → Option NonceNamespace
  | .tokenRequest _ _ | .refreshTokenRequest _ _ _ => some .authorizationServer
  | .protectedResource _ _ _ _ => some .resourceServer
  | _ => none

/-- The key of the bound token that a call uses. -/
def boundKey : ClientOp → Option JwkThumbprint
  | .refreshTokenRequest _ _ refreshToken => some refreshToken.proofKey
  | .protectedResource _ _ _ token => some token.proofKey
  | _ => none

end ClientOp

section Runs

variable {crypto : Crypto} {E : Signature}

namespace ClientCall

def caps : ClientCall crypto E → ClientCapabilities crypto E
  | .direct caps _ => caps
  | .mcp caps _ _ => caps

/-- The call of the underlying client. -/
def op : ClientCall crypto E → ClientOp
  | .direct _ op => op
  | .mcp _ scopes op => op.underlying scopes

def program {capacity : Nat} (hcap : capacity ≠ 0) :
    ClientCall crypto E → Prog (E.sum nonceOps) ClientAnswer
  | .direct caps op => op.program (caps.client hcap)
  | .mcp caps scopes op => op.program (scopes.client (caps.client hcap))

theorem program_eq {capacity : Nat} (hcap : capacity ≠ 0) (call : ClientCall crypto E) :
    call.program hcap = call.op.program (call.caps.client hcap) := by
  cases call with
  | direct caps op => rfl
  | mcp caps scopes op => exact op.program_eq_underlying scopes (caps.client hcap)

end ClientCall

/-- A call in a run: its answer, and the entries of the store before and after it. -/
structure ClientEvent (crypto : Crypto) (E : Signature) where
  call : ClientCall crypto E
  answer : ClientAnswer
  before : NonceEntries
  after : NonceEntries

variable {ε : Type} (env : (op : E.Op) → ε → E.Res op × ε) {capacity : Nat} (hcap : capacity ≠ 0)

/-- The events of a sequence of calls. -/
def clientRun : List (ClientCall crypto E) → ε × NonceEntries → List (ClientEvent crypto E)
  | [], _ => []
  | call :: calls, s =>
      ⟨call, (exec (clientExec env) (call.program hcap) s).1, s.2,
        (exec (clientExec env) (call.program hcap) s).2.2⟩ ::
        clientRun calls (exec (clientExec env) (call.program hcap) s).2

/-- The nonce that an event records for a context. -/
def ClientEvent.recordedFor (e : ClientEvent crypto E) (context : NonceContext) :
    Option DpopNonce :=
  match e.answer with
  | .recorded => if e.call.op.context = context then e.call.op.recording else none
  | _ => none

/-- The nonce of the last successful recording for a context. -/
def lastRecorded (context : NonceContext) (events : List (ClientEvent crypto E)) :
    Option DpopNonce :=
  events.reverse.findSome? fun e => e.recordedFor context

/-! ## One call -/

/-- What one call does: a successful recording sets the nonce of its context, any other call changes
nothing; a proof is emitted within the scope of the call, under the key of its token, with the nonce
of its context. -/
structure CallSpec (capacity : Nat) (e : ClientEvent crypto E) : Prop where
  lookup : ∀ context, e.after.lookup context =
    (e.recordedFor context).or (e.before.lookup context)
  unchanged : e.call.op.recording = none ∨ e.answer = .failed → e.after = e.before
  size : e.before.size ≤ capacity → e.after.size ≤ capacity
  scope : ∀ proof, e.answer = .emitted proof →
    e.call.op.scope = some e.call.op.context.serverSpace
  key : ∀ proof, e.answer = .emitted proof → ∀ key, e.call.op.boundKey = some key →
    e.call.caps.signer.publicJwk.thumbprint = key
  proof : ∀ proof, e.answer = .emitted proof →
    ∃ request, EmittedFor e.call.caps.signer.publicJwk request proof ∧
      request.nonce = e.before.lookup e.call.op.context

/-- A call that records nothing and emits nothing. -/
theorem callSpec_quiet {call : ClientCall crypto E} {answer : ClientAnswer} {entries : NonceEntries}
    (hrecorded : call.op.recording = none ∨ answer = .failed)
    (hemitted : ∀ proof, answer ≠ .emitted proof) :
    CallSpec capacity ⟨call, answer, entries, entries⟩ where
  lookup := by
    intro context
    have hnone : (ClientEvent.mk call answer entries entries).recordedFor context = none := by
      unfold ClientEvent.recordedFor
      cases answer with
      | emitted proof => rfl
      | failed => rfl
      | recorded =>
        obtain hnothing := hrecorded.resolve_right (by simp)
        simp [hnothing]
    rw [hnone, Option.none_or]
  unchanged := fun _ => rfl
  size := id
  scope := fun proof h => absurd h (hemitted proof)
  key := fun proof h => absurd h (hemitted proof)
  proof := fun proof h => absurd h (hemitted proof)

/-- A call that records its nonce. -/
theorem callSpec_recorded {call : ClientCall crypto E} {nonce : DpopNonce} {entries : NonceEntries}
    (hnonce : call.op.recording = some nonce)
    (hrecord : recordNonce capacity call.op.context nonce entries =
      (.ok nonce, entries.insert call.op.context nonce)) :
    CallSpec capacity ⟨call, .recorded, entries, entries.insert call.op.context nonce⟩ where
  lookup := by
    intro context
    rw [FiniteMap.lookup_insert]
    by_cases hcontext : call.op.context = context
    · simp [ClientEvent.recordedFor, hcontext, hnonce]
    · simp [ClientEvent.recordedFor, hcontext, Ne.symm hcontext]
  unchanged := by
    rintro (h | h)
    · rw [hnonce] at h
      cases h
    · cases h
  size := by
    intro hsize
    have hle : (recordNonce capacity call.op.context nonce entries).2.size ≤ capacity :=
      size_recordNonce_le hsize
    rw [hrecord] at hle
    exact hle
  scope := by
    intro proof h
    cases h
  key := by
    intro proof h
    cases h
  proof := by
    intro proof h
    cases h

/-- An attempt: it leaves the store alone, and emits a proof or fails. -/
theorem callSpec_attempt {α : Type} {call : ClientCall crypto E} {answer : Except OAuthDpopError α}
    (proofOf : α → Bytes) {entries : NonceEntries} (hnothing : call.op.recording = none)
    (hemitted : ∀ v, answer = .ok v →
      call.op.scope = some call.op.context.serverSpace ∧
      (∀ key, call.op.boundKey = some key → call.caps.signer.publicJwk.thumbprint = key) ∧
      ∃ request, EmittedFor call.caps.signer.publicJwk request (proofOf v) ∧
        request.nonce = entries.lookup call.op.context) :
    CallSpec capacity ⟨call, .ofProof (answer.map proofOf), entries, entries⟩ := by
  cases answer with
  | error e =>
    refine callSpec_quiet (Or.inl hnothing) ?_
    intro proof h
    cases h
  | ok v =>
    obtain ⟨hscope, hkey, hproof⟩ := hemitted v rfl
    refine ⟨?_, fun _ => rfl, id, fun _ _ => hscope, fun _ _ => hkey, ?_⟩
    -- an emitted proof is not a recording: the last nonce stays the earlier one
    · intro context
      show entries.lookup context = (none : Option DpopNonce).or (entries.lookup context)
      rw [Option.none_or]
    · intro proof h
      cases h
      exact hproof

/-- **What every call does.** -/
theorem callSpec_of_exec (call : ClientCall crypto E) (s : ε × NonceEntries) :
    CallSpec capacity ⟨call, (exec (clientExec env) (call.program hcap) s).1, s.2,
      (exec (clientExec env) (call.program hcap) s).2.2⟩ := by
  rw [call.program_eq hcap]
  -- the three attempts read the store and emit at most one proof; the two recordings write it and
  -- emit none
  cases hop : call.op with
  | tokenRequest context tokenEndpoint =>
    obtain ⟨hentries, hemitted⟩ := exec_tokenRequest env hcap call.caps context tokenEndpoint s
    simp only [ClientOp.program, exec_bind, Prog.pure_eq, exec_ret, hentries]
    refine callSpec_attempt _ (by rw [hop]; rfl) ?_
    intro v hv
    obtain ⟨hspace, hrequest⟩ := hemitted v hv
    rw [hop]
    refine ⟨congrArg some hspace.symm, ?_, hrequest⟩
    intro key hkey
    cases hkey
  | refreshTokenRequest context tokenEndpoint refreshToken =>
    obtain ⟨hentries, hemitted⟩ := exec_refreshTokenRequest env hcap call.caps context
      tokenEndpoint refreshToken s
    simp only [ClientOp.program, exec_bind, Prog.pure_eq, exec_ret, hentries]
    refine callSpec_attempt _ (by rw [hop]; rfl) ?_
    intro v hv
    obtain ⟨hspace, hthumb, hrequest⟩ := hemitted v hv
    rw [hop]
    refine ⟨congrArg some hspace.symm, ?_, hrequest⟩
    intro key hkey
    cases hkey
    exact hthumb
  | protectedResource context method target token =>
    obtain ⟨hentries, hemitted⟩ := exec_protectedResource env hcap call.caps context method target
      token s
    simp only [ClientOp.program, exec_bind, Prog.pure_eq, exec_ret, hentries]
    refine callSpec_attempt _ (by rw [hop]; rfl) ?_
    intro v hv
    obtain ⟨hspace, hthumb, request, hrequest, hnonce, -⟩ := hemitted v hv
    rw [hop]
    refine ⟨congrArg some hspace.symm, ?_, request, hrequest, hnonce⟩
    intro key hkey
    cases hkey
    exact hthumb
  | recordNonceChallenge context nonce retryBudget =>
    simp only [ClientOp.program, exec_bind, Prog.pure_eq, exec_ret]
    rcases exec_recordNonceChallenge env hcap call.caps context nonce retryBudget s with
      ⟨e, budget, h⟩ | ⟨budget, h, hrecord⟩
    -- a spent budget, a foreign context or a full store
    · rw [h]
      refine callSpec_quiet (Or.inr rfl) ?_
      intro proof hp
      cases hp
    · rw [h]
      have hcontext : context = call.op.context := by rw [hop]; rfl
      rw [hcontext] at hrecord ⊢
      exact callSpec_recorded (by rw [hop]; rfl) hrecord
  | recordSuccessNonce context nonce =>
    simp only [ClientOp.program, exec_bind, Prog.pure_eq, exec_ret]
    rcases exec_recordSuccessNonce env hcap call.caps context nonce s with
      ⟨e, h⟩ | ⟨rfl, h⟩ | ⟨value, rfl, h, hrecord⟩
    · rw [h]
      refine callSpec_quiet (Or.inr rfl) ?_
      intro proof hp
      cases hp
    -- a response without a nonce
    · rw [h]
      refine callSpec_quiet (Or.inl (by rw [hop]; rfl)) ?_
      intro proof hp
      cases hp
    · rw [h]
      have hcontext : context = call.op.context := by rw [hop]; rfl
      rw [hcontext] at hrecord ⊢
      exact callSpec_recorded (by rw [hop]; rfl) hrecord

/-! ## Whole runs -/

theorem lastRecorded_append (context : NonceContext) (earlier later : List (ClientEvent crypto E)) :
    lastRecorded context (earlier ++ later) =
      (lastRecorded context later).or (lastRecorded context earlier) := by
  unfold lastRecorded
  rw [List.reverse_append, List.findSome?_append]

theorem lastRecorded_singleton (context : NonceContext) (e : ClientEvent crypto E) :
    lastRecorded context [e] = e.recordedFor context := by
  unfold lastRecorded
  cases h : e.recordedFor context <;> simp [h]

theorem recordedFor_of_ne {e : ClientEvent crypto E} {context : NonceContext}
    (h : context ≠ e.call.op.context) : e.recordedFor context = none := by
  unfold ClientEvent.recordedFor
  split
  · rw [if_neg (Ne.symm h)]
  · rfl

/-- Every event of a run is a call that does what calls do; before it, the entry of a context is the
nonce of the last recording, or the one of the start. -/
theorem lookup_clientRun {calls : List (ClientCall crypto E)} {s : ε × NonceEntries}
    {earlier later : List (ClientEvent crypto E)} {e : ClientEvent crypto E}
    (h : clientRun env hcap calls s = earlier ++ e :: later) :
    CallSpec capacity e ∧
      (∀ context, e.before.lookup context =
        (lastRecorded context earlier).or (s.2.lookup context)) ∧
      (s.2.size ≤ capacity → e.before.size ≤ capacity) := by
  induction earlier generalizing calls s with
  | nil =>
    cases calls with
    | nil => cases h
    | cons call calls =>
      obtain ⟨rfl, -⟩ := List.cons.inj h
      exact ⟨callSpec_of_exec env hcap call s, fun _ => rfl, id⟩
  | cons first earlier ih =>
    cases calls with
    | nil => cases h
    | cons call calls =>
      obtain ⟨rfl, hrest⟩ := List.cons.inj h
      -- the first call sets up the state from which the rest of the run starts
      have hfirst := callSpec_of_exec env hcap call s
      obtain ⟨hspec, hlookup, hsize⟩ := ih hrest
      refine ⟨hspec, ?_, fun hstart => hsize (hfirst.size hstart)⟩
      intro context
      rw [hlookup context, ← List.singleton_append, lastRecorded_append, lastRecorded_singleton,
        Option.or_assoc]
      congr 1
      exact hfirst.lookup context

/-- What holds of an event after the events `earlier`. -/
structure ScopedEvent (capacity : Nat) (earlier : List (ClientEvent crypto E))
    (e : ClientEvent crypto E) : Prop where
  /-- A proof is signed by the key of its client and carries the nonce that was last recorded for
  its context. -/
  nonce : ∀ proof, e.answer = .emitted proof →
    ∃ request, EmittedFor e.call.caps.signer.publicJwk request proof ∧
      request.nonce = lastRecorded e.call.op.context earlier
  stored : ∀ context, e.before.lookup context = lastRecorded context earlier
  /-- The nonces of the other contexts stay, and what later proofs for them carry does not depend on
  the event. -/
  otherContexts : ∀ context, context ≠ e.call.op.context →
    e.after.lookup context = e.before.lookup context ∧
      ∀ later, lastRecorded context (earlier ++ e :: later) =
        lastRecorded context (earlier ++ later)
  /-- A success without a nonce clears nothing. -/
  success : ∀ context, e.call.op = .recordSuccessNonce context none → e.after = e.before
  failure : e.answer = .failed → e.after = e.before
  size : e.before.size ≤ capacity ∧ e.after.size ≤ capacity
  /-- Proofs for token endpoints name an authorization server, proofs for resources a resource
  server. -/
  scope : ∀ proof, e.answer = .emitted proof →
    e.call.op.scope = some e.call.op.context.serverSpace
  key : ∀ proof, e.answer = .emitted proof → ∀ key, e.call.op.boundKey = some key →
    e.call.caps.signer.publicJwk.thumbprint = key

/-- **Nonces are scoped and keys continuous in every run.** -/
theorem scopedEvent_of_clientRun (calls : List (ClientCall crypto E)) (start : ε)
    {earlier later : List (ClientEvent crypto E)} {e : ClientEvent crypto E}
    (h : clientRun env hcap calls (start, .empty) = earlier ++ e :: later) :
    ScopedEvent capacity earlier e := by
  obtain ⟨hspec, hlookup, hsize⟩ := lookup_clientRun env hcap h
  have hstored : ∀ context, e.before.lookup context = lastRecorded context earlier := by
    intro context
    rw [hlookup context]
    exact Option.or_none
  have hbefore : e.before.size ≤ capacity := hsize (Nat.zero_le _)
  refine ⟨?_, hstored, ?_, ?_, fun hf => hspec.unchanged (Or.inr hf),
    ⟨hbefore, hspec.size hbefore⟩, hspec.scope, hspec.key⟩
  · intro proof hproof
    obtain ⟨request, hemitted, hnonce⟩ := hspec.proof proof hproof
    exact ⟨request, hemitted, by rw [hnonce, hstored]⟩
  · intro context hne
    have hnone := recordedFor_of_ne hne
    refine ⟨?_, ?_⟩
    · rw [hspec.lookup context, hnone, Option.none_or]
    · intro later
      rw [← List.singleton_append, lastRecorded_append, lastRecorded_append, lastRecorded_append,
        lastRecorded_singleton, hnone, Option.or_none]
  · intro context hop
    exact hspec.unchanged (Or.inl (by rw [hop]; rfl))

end Runs

/-! ## A challenge and a retry -/

def sampleCapabilities : ClientCapabilities permissiveCrypto noOps :=
  ⟨sampleBuilder.signer, sampleBuilder.clock, sampleBuilder.proofIds⟩

/-- A challenge of the authorization server, and the retry of the token request. -/
def challengeCalls : List (ClientCall permissiveCrypto noOps) :=
  [.direct sampleCapabilities (.recordNonceChallenge (sampleContext .authorizationServer)
      sampleNonce .singleRetry),
    .direct sampleCapabilities (.tokenRequest (sampleContext .authorizationServer) sampleTarget)]

/-- The retry emits a proof with the nonce of the challenge. -/
theorem scopedEvent_of_clientRun_challenge :
    ∃ first retry proof request,
      clientRun noHandler one_ne_zero challengeCalls ((), .empty) = [first, retry] ∧
        retry.answer = .emitted proof ∧ EmittedFor sampleJwk request proof ∧
        request.nonce = some sampleNonce ∧ ScopedEvent 1 [first] retry := by
  obtain ⟨first, retry, hrun, hcall, hfirst, proof, hproof⟩ : ∃ first retry,
      clientRun noHandler one_ne_zero challengeCalls ((), .empty) = [first] ++ retry :: [] ∧
        retry.call = .direct sampleCapabilities
          (.tokenRequest (sampleContext .authorizationServer) sampleTarget) ∧
        lastRecorded (sampleContext .authorizationServer) [first] = some sampleNonce ∧
        ∃ proof, retry.answer = .emitted proof := ⟨_, _, rfl, rfl, rfl, _, rfl⟩
  have hscoped := scopedEvent_of_clientRun noHandler one_ne_zero challengeCalls () hrun
  obtain ⟨request, hemitted, hnonce⟩ := hscoped.nonce proof hproof
  rw [hcall] at hemitted hnonce
  exact ⟨first, retry, proof, request, hrun, hproof, hemitted, hnonce.trans hfirst, hscoped⟩

end Keylix.Mcp

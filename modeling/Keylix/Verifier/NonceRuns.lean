import Keylix.Verifier.Nonce

/-!
# Nonce enforcement in every interleaving

Requests under a required nonce, interleaved at the granularity of store operations with each other
and with any calls that issue or forget nonces. The nonce that a request is checked against is the
one that the store held when the request read it, or that the request issued itself.

`nonceSafe_of_reachable`: a request is verified only with that nonce, and no other nonce is ever
disclosed. `challenge_stays_usable`: when no nonce is issued over another one, a disclosed nonce is
the one that the store expects from then on; `challenge_overwritten` is the race in which two first
requests each issue one.
-/

set_option autoImplicit false

namespace Keylix.Verifier

open Keylix.Lib Keylix.Core Keylix.Dpop Keylix.OAuth
open Keylix.Lib.Prog (Handler Outcome Performs Pool PoolStep Returns Safe)

/-! ## Interleaved calls -/

section Server

variable {E : Signature}

/-- What the service runs on besides the nonce store. -/
structure ServerCapabilities (E : Signature) where
  clock : Clock E
  replayStore : ReplayStore E
  generator : NonceGenerator E
  verificationPolicy : VerificationPolicy

variable (caps : ServerCapabilities E) {capacity : Nat} (hcap : capacity ≠ 0)

def ServerCapabilities.nonceStore : InMemoryServerNonceStore (E.sum nonceOps) :=
  ⟨⟨caps.generator.generate.inl⟩, capacity, nonceMutex E, hcap⟩

/-- The service that requires the nonce of a context. -/
def ServerCapabilities.application (context : NonceContext) :
    VerifierApplication (E.sum nonceOps) where
  clock := ⟨caps.clock.unixSeconds.inl⟩
  replayStore := ⟨fun key expires => (caps.replayStore.checkAndRecord key expires).inl⟩
  nonceStore := (caps.nonceStore hcap).serverNonceStore
  noncePolicy := .required context
  verificationPolicy := caps.verificationPolicy

/-- A call: a request, or the issue or the removal of a nonce for any context. -/
inductive ServerCall where
  | verify (request : VerifierRequest)
  | issueNonce (context : NonceContext)
  | forget (context : NonceContext)

/-- The answer of a call. -/
inductive ServerAnswer where
  | result (result : VerifierResult)
  | issued (nonce : Except DpopPortError DpopNonce)
  | forgotten (answer : Except DpopPortError Unit)

variable (crypto : Crypto) (json : JsonText)

def ServerCall.program (context : NonceContext) :
    ServerCall → Prog (E.sum nonceOps) ServerAnswer
  | .verify request => do
      let result ← (caps.application hcap context).verify crypto json request
      pure (.result result)
  | .issueNonce other => do
      let nonce ← (caps.nonceStore hcap).issueNonce other
      pure (.issued nonce)
  | .forget other => do
      let answer ← (caps.nonceStore hcap).forget other
      pure (.forgotten answer)

/-- The state that the calls share: the environment, the entries of the nonce store, and what the
entries were after each section of a call, the latest first. -/
structure ServerState (ι ε : Type) where
  env : ε
  entries : NonceEntries
  sections : List (ι × NonceEntries)

variable {ι ε : Type} [DecidableEq ι]

/-- What the store held for a context after the latest section of a call: the nonce that the call
read, or the one that it issued. -/
def ServerState.heldBy (context : NonceContext) (i : ι) (s : ServerState ι ε) : Option DpopNonce :=
  (s.sections.find? fun e => e.1 = i).bind fun e => e.2.lookup context

/-- One operation of a call: of the environment, or a section of the nonce store. -/
def serverHandler (envHandler : ι → Handler E ε) (i : ι) :
    Handler (E.sum nonceOps) (ServerState ι ε)
  | .inl op, s, x, s' => ∃ env', envHandler i op s.env x env' ∧ s' = { s with env := env' }
  | .inr (.update f), s, found, s' => found = s.entries ∧
      s' = ⟨s.env, f s.entries, (i, f s.entries) :: s.sections⟩

/-- The calls before their first operation, over any environment and any nonces. -/
def serverStart (context : NonceContext) (calls : ι → ServerCall) (env : ε)
    (entries : NonceEntries) : Pool ι (E.sum nonceOps) ServerAnswer (ServerState ι ε) :=
  ⟨fun i => some ((calls i).program caps hcap crypto json context), ⟨env, entries, []⟩⟩

/-! ## The view of a call -/

/-- What a call sees: the nonce that the store held after its latest section. The other calls may
have put anything into the store that it finds. -/
def heldHandler (context : NonceContext) : Handler (E.sum nonceOps) (Option DpopNonce)
  | .inl _, held, _, held' => held' = held
  | .inr (.update f), _, found, held' => held' = (f found).lookup context

theorem heldBy_own {envHandler : ι → Handler E ε} (context : NonceContext) (i : ι)
    (op : (E.sum nonceOps).Op) (s : ServerState ι ε) (x : (E.sum nonceOps).Res op)
    (s' : ServerState ι ε) (h : serverHandler envHandler i op s x s') :
    heldHandler context op (s.heldBy context i) x (s'.heldBy context i) := by
  cases op with
  | inl op =>
    obtain ⟨env', -, rfl⟩ := h
    rfl
  | inr op =>
    cases op with
    | update f =>
      obtain ⟨rfl, rfl⟩ := h
      simp [ServerState.heldBy, heldHandler]

theorem heldBy_other {envHandler : ι → Handler E ε} (context : NonceContext) (i j : ι)
    (op : (E.sum nonceOps).Op) (s : ServerState ι ε) (x : (E.sum nonceOps).Res op)
    (s' : ServerState ι ε) (hne : j ≠ i) (h : serverHandler envHandler i op s x s') :
    s'.heldBy context j = s.heldBy context j := by
  cases op with
  | inl op =>
    obtain ⟨env', -, rfl⟩ := h
    rfl
  | inr op =>
    obtain ⟨rfl, rfl⟩ := h
    simp [ServerState.heldBy, Ne.symm hne]

/-- A program of the environment keeps what a call sees. -/
theorem safe_inl {α : Type} (context : NonceContext) (held : Option DpopNonce) (p : Prog E α) :
    Safe (heldHandler (E := E) context) (· = held) (fun _ _ => True) p.inl held := by
  have hp : Safe (fun (_ : E.Op) (s : Option DpopNonce) _ s' => s' = s) (· = held)
      (fun _ _ => True) p held :=
    Safe.of_invariant (fun op s x s' hs hx => hx.trans hs) p rfl
  exact hp.inl fun op s x s' hx => hx

/-- A read answers what the call then sees. -/
theorem safe_expectedNonce (context : NonceContext) (held : Option DpopNonce) :
    Safe (heldHandler (E := E) context) (fun _ => True) (fun r held' => r = .ok held')
      ((caps.nonceStore hcap).expectedNonce context) held := by
  refine ⟨trivial, ?_⟩
  rintro found held' rfl
  exact ⟨trivial, rfl⟩

/-- A nonce that was issued is what the call then sees. -/
theorem safe_issueNonce (context : NonceContext) (held : Option DpopNonce) :
    Safe (heldHandler (E := E) context) (fun _ => True)
      (fun r held' => ∀ nonce, r = .ok nonce → held' = some nonce)
      ((caps.nonceStore hcap).issueNonce context) held := by
  have hgenerate : Safe (heldHandler (E := E) context) (fun _ => True) (fun _ _ => True)
      caps.generator.generate.inl held :=
    (safe_inl context held caps.generator.generate).mono (fun _ _ => trivial)
      (fun _ _ _ _ => trivial)
  refine Safe.bind hgenerate ?_
  rintro answer held₁ - -
  cases answer with
  | error e => exact ⟨trivial, fun nonce h => nomatch h⟩
  | ok nonce =>
    refine ⟨trivial, ?_⟩
    rintro found held₂ rfl
    refine ⟨trivial, ?_⟩
    intro nonce' h
    exact lookup_recordNonce_of_ok h

/-- The nonce that a request is checked against is the one that the store held. -/
theorem safe_requiredNonce (context : NonceContext) (held : Option DpopNonce) :
    Safe (heldHandler (E := E) context) (fun _ => True)
      (fun r held' => ∀ nonce, r = .ok nonce → nonce = held' ∧ held'.isSome = true)
      (caps.application hcap context).requiredNonce held := by
  refine Safe.bind (safe_expectedNonce caps hcap context held) ?_
  rintro answer held₁ - rfl
  cases held₁ with
  | some nonce =>
    refine ⟨trivial, ?_⟩
    intro nonce' h
    cases h
    exact ⟨rfl, rfl⟩
  | none =>
    refine Safe.bind (safe_issueNonce caps hcap context none) ?_
    intro answer held₂ _ hissued
    cases answer with
    | error e => exact ⟨trivial, fun nonce h => nomatch h⟩
    | ok nonce =>
      refine ⟨trivial, ?_⟩
      intro nonce' h
      cases h
      rw [hissued nonce rfl]
      exact ⟨rfl, rfl⟩

/-- After the nonce is known, a request performs operations of the environment only. -/
theorem safe_verifyWithNonce (context : NonceContext) (request : VerifierRequest)
    (target : EffectiveRequestTarget) (nonce held : Option DpopNonce) :
    Safe (heldHandler (E := E) context) (· = held) (fun _ _ => True)
      (VerifierApplication.verifyWithNonce crypto json (caps.application hcap context) request
        target nonce) held := by
  -- after the nonce is known only the clock and the replay store are asked
  unfold VerifierApplication.verifyWithNonce
  split
  · exact ⟨rfl, trivial⟩
  split
  · exact ⟨rfl, trivial⟩
  refine Safe.bind ?_ (Q := fun _ _ => True) ?_
  · unfold DpopVerifier.verify
    split
    · exact ⟨rfl, trivial⟩
    refine Safe.bind (safe_inl context held caps.clock.unixSeconds) ?_
    rintro time seen rfl -
    cases time with
    | error e => exact ⟨rfl, trivial⟩
    | ok now =>
      simp only
      split
      · exact ⟨rfl, trivial⟩
      next hashVerified asked _ =>
      refine Safe.bind (safe_inl context seen
        (caps.replayStore.checkAndRecord asked.key asked.expiresAtUnix)) ?_
      rintro answer _ rfl -
      exact ⟨rfl, trivial⟩
  · rintro r _ rfl -
    split
    · exact ⟨rfl, trivial⟩
    · exact ⟨rfl, trivial⟩

/-! ## Enforcement -/

/-- What a finished request guarantees about the nonce that the store held for it. -/
structure NonceSafe (request : VerifierRequest) (held : Option DpopNonce)
    (result : VerifierResult) : Prop where
  verified : ∀ version binding, result = .verified version binding →
    binding.nonceEnforced = true ∧ ∃ proof nonce,
      UnverifiedDpopProof.parse crypto json request.dpopProof = .ok proof ∧ held = some nonce ∧
        proof.claims.nonce = some nonce.asStr
  disclosed : ∀ version failure value, result = .rejected version failure (some value) →
    (failure = .nonceRequired ∨ failure = .nonceMismatch) ∧
      ∃ nonce, held = some nonce ∧ value = nonce.asHeaderValue
  mismatch : ∀ version value, result = .rejected version .nonceMismatch value →
    ∃ proof nonce, UnverifiedDpopProof.parse crypto json request.dpopProof = .ok proof ∧
      held = some nonce ∧ proof.claims.nonce ≠ some nonce.asStr

variable {crypto json} in
theorem EnforcesNonce.nonceSafe {request : VerifierRequest} {nonce : DpopNonce}
    {result : VerifierResult} (h : EnforcesNonce crypto json request (some nonce) result) :
    NonceSafe crypto json request (some nonce) result where
  verified := by
    intro version binding hr
    obtain ⟨henforced, proof, hparse, haccepted⟩ := h.verified version binding hr
    exact ⟨henforced, proof, nonce, hparse, rfl, haccepted nonce rfl⟩
  disclosed := by
    intro version failure value hr
    obtain ⟨hfailure, hvalue⟩ := h.disclosed version failure value hr
    exact ⟨hfailure, nonce, rfl, (Option.some.inj hvalue).symm⟩
  mismatch := by
    intro version value hr
    obtain ⟨proof, hparse, hnot⟩ := h.mismatch version value hr
    refine ⟨proof, nonce, hparse, rfl, fun heq => hnot ?_⟩
    intro n hn
    cases hn
    exact heq

/-- A rejection before the nonce is known. -/
theorem nonceSafe_reject {request : VerifierRequest} {held : Option DpopNonce}
    {failure : FailureClass} (h : failure ≠ .nonceMismatch) :
    NonceSafe crypto json request held (.reject failure) where
  verified := fun version binding hr => nomatch hr
  disclosed := fun version failure value hr => nomatch hr
  mismatch := by
    intro version value hr
    cases hr
    exact absurd rfl h

/-- Without a nonce to check against, a request fails on the nonce state. -/
theorem returns_requiredNonce {S : Signature} (app : VerifierApplication S) {context : NonceContext}
    (h : app.noncePolicy = .required context) :
    Returns (fun r => (∃ nonce, r = .ok (some nonce)) ∨ r = .error .nonceStateUnavailable)
      app.requiredNonce := by
  unfold VerifierApplication.requiredNonce
  rw [h]
  refine Returns.bind (Prog.returns_true _) ?_
  intro found _
  cases found with
  | error e => exact Or.inr rfl
  | ok found =>
    cases found with
    | some nonce => exact Or.inl ⟨nonce, rfl⟩
    | none =>
      refine Returns.bind (Prog.returns_true _) ?_
      intro issued _
      cases issued with
      | error e => exact Or.inr rfl
      | ok nonce => exact Or.inl ⟨nonce, rfl⟩

/-- Whatever the nonce store answers, a request is checked against some nonce. -/
theorem returns_verify_required {S : Signature} (app : VerifierApplication S)
    {context : NonceContext} (h : app.noncePolicy = .required context)
    (request : VerifierRequest) :
    Returns (fun r => ∃ held, NonceSafe crypto json request held r)
      (app.verify crypto json request) := by
  have hreject : ∀ failure, failure ≠ FailureClass.nonceMismatch →
      Returns (fun r => ∃ held, NonceSafe crypto json request held r)
        (pure (.reject failure) : Prog S VerifierResult) :=
    fun failure hne => ⟨none, nonceSafe_reject crypto json hne⟩
  unfold VerifierApplication.verify
  split
  · exact hreject _ (by simp)
  split
  · exact hreject _ (by simp)
  split
  · next e he =>
    rw [EffectiveRequestTarget.parse_eq_error he]
    exact hreject _ (by simp [mapDpopError])
  next target _ =>
  refine Returns.bind (returns_requiredNonce app h) ?_
  rintro r (⟨nonce, rfl⟩ | rfl)
  · exact (returns_verifyWithNonce app request target (some nonce)).mono
      fun r hr => ⟨some nonce, hr.nonceSafe⟩
  · exact hreject _ (by simp)

/-- A request guarantees what it says about the nonce that the store held for it. -/
theorem safe_verify (context : NonceContext) (request : VerifierRequest) (held : Option DpopNonce) :
    Safe (heldHandler (E := E) context) (fun _ => True)
      (fun r held' => NonceSafe crypto json request held' r)
      ((caps.application hcap context).verify crypto json request) held := by
  unfold VerifierApplication.verify
  split
  · exact ⟨trivial, nonceSafe_reject crypto json (by simp)⟩
  split
  · exact ⟨trivial, nonceSafe_reject crypto json (by simp)⟩
  split
  · next e he =>
    rw [EffectiveRequestTarget.parse_eq_error he]
    exact ⟨trivial, nonceSafe_reject crypto json (by simp [mapDpopError])⟩
  next target _ =>
  refine Safe.bind ((safe_requiredNonce caps hcap context held).and_returns
    (returns_requiredNonce _ rfl)) ?_
  rintro r seen - ⟨hheld, ⟨nonce, rfl⟩ | rfl⟩
  · -- the checks with a nonce keep what the call sees, and their result enforces the nonce
    obtain ⟨rfl, -⟩ := hheld (some nonce) rfl
    refine ((safe_verifyWithNonce caps hcap crypto json context request target (some nonce)
      (some nonce)).and_returns (returns_verifyWithNonce _ request target (some nonce))).mono
        (fun _ _ => trivial) ?_
    rintro r _ rfl ⟨-, hr⟩
    exact hr.nonceSafe
  · exact ⟨trivial, nonceSafe_reject crypto json (by simp)⟩

/-- Every call is safe in its own view, in every reachable state. -/
theorem safe_of_reachable {envHandler : ι → Handler E ε} {H : ι → Handler (E.sum nonceOps)
      (ServerState ι ε)} (hH : ∀ i op s x s', H i op s x s' → serverHandler envHandler i op s x s')
    (context : NonceContext) (calls : ι → ServerCall) (env : ε) (entries : NonceEntries)
    {c : Pool ι (E.sum nonceOps) ServerAnswer (ServerState ι ε)}
    (hc : Relation.ReflTransGen (PoolStep H)
      (serverStart caps hcap crypto json context calls env entries) c) :
    ∀ i p, c.thread i = some p → Safe (heldHandler (E := E) context) (fun _ => True)
      (fun answer held => ∀ request result, calls i = .verify request →
        answer = .result result → NonceSafe crypto json request held result)
      p (c.shared.heldBy context i) := by
  induction hc with
  | refl =>
    intro i p hp
    cases hp
    cases hcall : calls i with
    | verify request =>
      refine Safe.bind (safe_verify caps hcap crypto json context request _) ?_
      intro result held _ hsafe
      refine ⟨trivial, ?_⟩
      intro request' result' hrequest hresult
      cases hrequest
      cases hresult
      exact hsafe
    | issueNonce other =>
      refine (Safe.of_invariant (fun _ _ _ _ _ _ => trivial) _ trivial).mono (fun _ h => h) ?_
      intro answer held _ _ request result hrequest
      cases hrequest
    | forget other =>
      refine (Safe.of_invariant (fun _ _ _ _ _ _ => trivial) _ trivial).mono (fun _ h => h) ?_
      intro answer held _ _ request result hrequest
      cases hrequest
  | tail _ hstep ih =>
    -- a step of another call is not seen by this one
    exact hstep.safe_view
      (fun i op s x s' h => heldBy_own context i op s x s' (hH i op s x s' h))
      (fun i j op s x s' hne h => heldBy_other context i j op s x s' hne (hH i op s x s' h)) ih

end Server

/-! ## A concrete service -/

section Concrete

/-- The nonces of the generator are the operations of the environment. -/
def generatorOps : Signature := ⟨Unit, fun _ => DpopNonce⟩

/-- Any nonce may be generated. -/
def generatorHandler (ι : Type) : ι → Handler generatorOps Unit := fun _ _ _ _ _ => True

def sampleServer : ServerCapabilities generatorOps where
  clock := ⟨.ret (.ok sampleTime)⟩
  replayStore := ⟨fun _ _ => .ret (.ok .fresh)⟩
  generator := ⟨.call (S := generatorOps) () fun nonce => .ret (.ok nonce)⟩
  verificationPolicy := .default

def secondNonce : DpopNonce where
  value := ⟨ascii "n-2", isUtf8_of_isAscii (by decide)⟩
  ne_nil := by decide
  length_le := by decide

/-- A call with a confirmed request. -/
def sampleCall (presented : Option DpopNonce) : ServerCall :=
  .verify (sampleVerifierRequest presented (some sampleJkt))

/-- The state after the section `f` of a call. -/
def ServerState.section {ι ε : Type} (s : ServerState ι ε) (i : ι)
    (f : NonceEntries → NonceEntries) : ServerState ι ε :=
  ⟨s.env, f s.entries, (i, f s.entries) :: s.sections⟩

/-- A call that found no nonce: it asks the generator and records the answer. -/
def issueStage (presented : Option DpopNonce) : Prog (generatorOps.sum nonceOps) ServerAnswer :=
  .call (S := generatorOps.sum nonceOps) (.inl ()) fun nonce =>
    .call (S := generatorOps.sum nonceOps)
      (.inr (.update fun entries => (recordNonce 1 sampleServerContext nonce entries).2))
      fun entries => .ret (.result
        (match (recordNonce 1 sampleServerContext nonce entries).1 with
          | .error _ => .reject .nonceStateUnavailable
          | .ok nonce => sampleResult presented nonce))

/-- The operations of a call: the read, and the issue of a nonce when there is none. -/
theorem program_sampleCall {presented : Option DpopNonce} (h : ShortNonce presented) :
    (sampleCall presented).program sampleServer one_ne_zero permissiveCrypto compactText
      sampleServerContext =
        .call (S := generatorOps.sum nonceOps) (.inr (.update fun entries => entries)) fun found =>
          match FiniteMap.lookup found sampleServerContext with
          | some nonce => .ret (.result (sampleResult presented nonce))
          | none => issueStage presented := by
  have happ : SampleService (sampleServer.application one_ne_zero sampleServerContext) :=
    ⟨rfl, fun _ _ => rfl, rfl⟩
  have hresult := verifyWithNonce_sample compactText happ h
  refine (congrArg (· >>= fun result => Prog.ret (ServerAnswer.result result))
    (verify_sample compactText (sampleServer.application one_ne_zero sampleServerContext) presented
      (some sampleJkt))).trans ?_
  show Prog.call _ _ = Prog.call _ _
  congr 1
  funext found
  simp only [Prog.pure_eq, Prog.bind]
  generalize FiniteMap.lookup found sampleServerContext = entry
  cases entry with
  | some nonce =>
    show (VerifierApplication.verifyWithNonce permissiveCrypto compactText
      (sampleServer.application one_ne_zero sampleServerContext)
      (sampleVerifierRequest presented (some sampleJkt)) sampleTarget (some nonce)) >>= _ = _
    rw [hresult]
    rfl
  | none =>
    show Prog.call _ _ = Prog.call _ _
    congr 1
    funext nonce
    show Prog.call _ _ = Prog.call _ _
    congr 1
    funext entries
    show ((match (recordNonce 1 sampleServerContext nonce entries).1 with
        | .error _ => Prog.ret (.error .nonceStateUnavailable)
        | .ok issued => .ret (.ok (some issued)) :
          Prog (generatorOps.sum nonceOps) (Except FailureClass (Option DpopNonce))) >>= _) >>= _ =
      Prog.ret (ServerAnswer.result (match (recordNonce 1 sampleServerContext nonce entries).1 with
        | .error _ => _
        | .ok issued => _))
    cases (recordNonce 1 sampleServerContext nonce entries).1 with
    | error e => rfl
    | ok issued =>
      show VerifierApplication.verifyWithNonce permissiveCrypto compactText
        (sampleServer.application one_ne_zero sampleServerContext)
        (sampleVerifierRequest presented (some sampleJkt)) sampleTarget (some issued) >>= _ = _
      rw [hresult]
      rfl

variable {ι : Type} [DecidableEq ι]
  (H : ι → Handler (generatorOps.sum nonceOps) (ServerState ι Unit))
  (c : Pool ι (generatorOps.sum nonceOps) ServerAnswer (ServerState ι Unit)) (i : ι)
  {presented : Option DpopNonce}

/-- A call can read the nonce of its context. -/
theorem exists_read (h : ShortNonce presented)
    (hi : c.thread i = some ((sampleCall presented).program sampleServer one_ne_zero
      permissiveCrypto compactText sampleServerContext))
    (hH : H i (.inr (.update fun entries => entries)) c.shared c.shared.entries
      (c.shared.section i fun entries => entries)) :
    ∃ d, PoolStep H c d ∧
      d.thread i = some (match c.shared.entries.lookup sampleServerContext with
        | some nonce => .ret (.result (sampleResult presented nonce))
        | none => issueStage presented) ∧
      (∀ j, j ≠ i → d.thread j = c.thread j) ∧
      d.shared = c.shared.section i fun entries => entries := by
  rw [program_sampleCall h] at hi
  refine ⟨_, .call i hi hH, Pool.set_thread_self _ i _ _, ?_, rfl⟩
  intro j hj
  exact Pool.set_thread_of_ne hj _ _ _

/-- A call that found no nonce can issue one, whatever the generator answers. -/
theorem exists_issue (hi : c.thread i = some (issueStage presented)) (nonce : DpopNonce)
    (hgenerate : H i (.inl ()) c.shared nonce c.shared)
    (hH : H i (.inr (.update fun entries => (recordNonce 1 sampleServerContext nonce entries).2))
      c.shared c.shared.entries (c.shared.section i fun entries =>
        (recordNonce 1 sampleServerContext nonce entries).2)) :
    ∃ d, Relation.ReflTransGen (PoolStep H) c d ∧
      d.thread i = some (.ret (.result
        (match (recordNonce 1 sampleServerContext nonce c.shared.entries).1 with
          | .error _ => .reject .nonceStateUnavailable
          | .ok nonce => sampleResult presented nonce))) ∧
      (∀ j, j ≠ i → d.thread j = c.thread j) ∧
      d.shared = c.shared.section i fun entries =>
        (recordNonce 1 sampleServerContext nonce entries).2 := by
  refine ⟨_, (Relation.ReflTransGen.single (.call i hi hgenerate)).tail
    (.call i (Pool.set_thread_self _ i _ _) hH), Pool.set_thread_self _ i _ _, ?_, rfl⟩
  intro j hj
  rw [Pool.set_thread_of_ne hj, Pool.set_thread_of_ne hj]

/-- Two first requests, and the retry of the first one with the nonce that it was challenged
with. -/
def raceRequests : Fin 3 → VerifierRequest
  | 0 => sampleVerifierRequest none (some sampleJkt)
  | 1 => sampleVerifierRequest none (some sampleJkt)
  | 2 => sampleVerifierRequest (some firstNonce) (some sampleJkt)

/-- The requests of the race before they start. -/
def raceStart : Pool (Fin 3) (generatorOps.sum nonceOps) ServerAnswer (ServerState (Fin 3) Unit) :=
  serverStart sampleServer one_ne_zero permissiveCrypto compactText sampleServerContext
    (fun i => .verify (raceRequests i)) () .empty

/-- Both first requests find no nonce, and the first of them issues one. -/
theorem exists_challenged
    (H : Fin 3 → Handler (generatorOps.sum nonceOps) (ServerState (Fin 3) Unit))
    (hread : ∀ i s, H i (.inr (.update fun entries => entries)) s s.entries
      (s.section i fun entries => entries))
    (hgenerate : ∀ i s nonce, H i (.inl ()) s nonce s)
    (hissue : ∀ i s nonce, s.entries.lookup sampleServerContext = none →
      H i (.inr (.update fun entries => (recordNonce 1 sampleServerContext nonce entries).2)) s
        s.entries (s.section i fun entries =>
          (recordNonce 1 sampleServerContext nonce entries).2)) :
    ∃ c, Relation.ReflTransGen (PoolStep H) raceStart c ∧
      c.thread 0 = some (.ret (.result (.rejected 1 .nonceRequired
        (some firstNonce.asHeaderValue)))) ∧
      c.thread 1 = some (issueStage none) ∧
      c.thread 2 = some ((sampleCall (some firstNonce)).program sampleServer one_ne_zero
        permissiveCrypto compactText sampleServerContext) ∧
      c.shared.entries = (recordNonce 1 sampleServerContext firstNonce .empty).2 := by
  obtain ⟨c₁, h₁, ht₁, ho₁, hs₁⟩ := exists_read H raceStart 0 shortNonce_none rfl (hread 0 _)
  obtain ⟨c₂, h₂, ht₂, ho₂, hs₂⟩ := exists_read H c₁ 1 shortNonce_none
    ((ho₁ 1 (by decide)).trans rfl) (hread 1 _)
  rw [hs₁] at ht₂ hs₂
  obtain ⟨c₃, h₃, ht₃, ho₃, hs₃⟩ := exists_issue H c₂ 0 ((ho₂ 0 (by decide)).trans ht₁) firstNonce
    (hgenerate 0 _ _) (hissue 0 _ _ (by rw [hs₂]; rfl))
  rw [hs₂] at ht₃ hs₃
  refine ⟨c₃, ((Relation.ReflTransGen.single h₁).tail h₂).trans h₃, ht₃,
    (ho₃ 1 (by decide)).trans ht₂, ?_, ?_⟩
  · rw [ho₃ 2 (by decide), ho₂ 2 (by decide), ho₁ 2 (by decide)]
    rfl
  · rw [hs₃]
    rfl

end Concrete

section Server

variable {E : Signature} (caps : ServerCapabilities E) {capacity : Nat} (hcap : capacity ≠ 0)
  (crypto : Crypto) (json : JsonText) {ι ε : Type} [DecidableEq ι]

/-- **No nonce downgrade.** In every interleaving, a request is verified only with the nonce that
the store held for it, and only that nonce is disclosed; whatever a nonce store answers, a proof
without a nonce is never verified. -/
theorem nonceSafe_of_reachable (envHandler : ι → Handler E ε) (context : NonceContext)
    (calls : ι → ServerCall) (env : ε) (entries : NonceEntries) :
    (∀ c, Relation.ReflTransGen (PoolStep (serverHandler envHandler))
        (serverStart caps hcap crypto json context calls env entries) c →
      ∀ i request result, calls i = .verify request →
        c.thread i = some (.ret (.result result)) →
          NonceSafe crypto json request (c.shared.heldBy context i) result) ∧
    (∀ {S : Signature} {σ : Type} (H : Handler S σ) (app : VerifierApplication S)
        (request : VerifierRequest) (s s' : σ) (version : Nat) (binding : VerifiedBinding),
      app.noncePolicy = .required context →
        Outcome H (app.verify crypto json request) s (.verified version binding) s' →
          binding.nonceEnforced = true ∧ ∃ proof value,
            UnverifiedDpopProof.parse crypto json request.dpopProof = .ok proof ∧
              proof.claims.nonce = some value) := by
  refine ⟨?_, ?_⟩
  · intro c hc i request result hcall hthread
    have hsafe := safe_of_reachable caps hcap crypto json (fun _ _ _ _ _ h => h) context calls env
      entries hc i _ hthread
    exact hsafe.2 request result hcall rfl
  · intro S σ H app request s s' version binding hpolicy hr
    obtain ⟨held, hsafe⟩ := (returns_verify_required crypto json app hpolicy request).outcome hr
    obtain ⟨henforced, proof, nonce, hparse, -, hnonce⟩ := hsafe.verified version binding rfl
    exact ⟨henforced, proof, nonce.asStr, hparse, hnonce⟩

end Server

/-- The retry of a challenged request is verified while another first request is about to replace
the nonce. It is safe for the nonce that it was checked against, which the store holds no more. -/
theorem nonceSafe_of_reachable_sample :
    ∃ c, Relation.ReflTransGen (PoolStep (serverHandler (generatorHandler (Fin 3)))) raceStart c ∧
      c.thread 2 = some (.ret (.result (.verified 1 ⟨sampleJkt, sampleTime, true, true⟩))) ∧
      c.shared.entries.lookup sampleServerContext = some secondNonce ∧
      NonceSafe permissiveCrypto compactText (raceRequests 2)
        (c.shared.heldBy sampleServerContext 2)
        (.verified 1 ⟨sampleJkt, sampleTime, true, true⟩) := by
  have hown : ∀ (i : Fin 3) (s : ServerState (Fin 3) Unit) (f : NonceEntries → NonceEntries),
      serverHandler (generatorHandler (Fin 3)) i (.inr (.update f)) s s.entries (s.section i f) :=
    fun i s f => ⟨rfl, rfl⟩
  obtain ⟨c₁, h₁, -, ht₁, hretry, hs₁⟩ := exists_challenged _ (fun i s => hown i s _)
    (fun _ _ _ => ⟨(), trivial, rfl⟩) (fun i s _ _ => hown i s _)
  -- the retry reads the nonce before the second request replaces it
  obtain ⟨c₂, h₂, ht₂, ho₂, hs₂⟩ := exists_read _ c₁ 2 shortNonce_first hretry (hown 2 _ _)
  rw [hs₁] at ht₂
  obtain ⟨c₃, h₃, -, ho₃, hs₃⟩ := exists_issue _ c₂ 1 ((ho₂ 1 (by decide)).trans ht₁) secondNonce
    ⟨(), trivial, rfl⟩ (hown 1 _ _)
  have hthread := (ho₃ 2 (by decide)).trans ht₂
  have hreach := (h₁.tail h₂).trans h₃
  refine ⟨c₃, hreach, hthread, ?_, ?_⟩
  · rw [hs₃, hs₂]
    show ((recordNonce 1 sampleServerContext secondNonce c₁.shared.entries).2).lookup _ = _
    rw [hs₁]
    rfl
  · exact (nonceSafe_of_reachable sampleServer one_ne_zero permissiveCrypto compactText
      (generatorHandler (Fin 3)) sampleServerContext _ () _).1 c₃ hreach 2 _ _ rfl hthread

section Server

variable {E : Signature} (caps : ServerCapabilities E) {capacity : Nat} (hcap : capacity ≠ 0)
  (crypto : Crypto) (json : JsonText) {ι ε : Type} [DecidableEq ι]

/-! ## Challenges -/

/-- A section of a request: it leaves the entries alone or sets the nonce of the context. -/
def SetsOnly (context : NonceContext) : (E.sum nonceOps).Op → Prop
  | .inl _ => True
  | .inr (.update f) => ∀ entries, f entries = entries ∨ ∃ nonce, f entries =
      entries.insert context nonce

theorem performs_verify (context : NonceContext) (request : VerifierRequest) :
    Performs (SetsOnly (E := E) context)
      ((caps.application hcap context).verify crypto json request) := by
  have henv : ∀ {α : Type} (p : Prog E α), Performs (SetsOnly (E := E) context) p.inl :=
    fun p => Prog.performs_inl (fun _ => trivial) p
  have hread : Performs (SetsOnly (E := E) context)
      ((caps.nonceStore hcap).expectedNonce context) :=
    ⟨fun entries => Or.inl rfl, fun _ => trivial⟩
  have hissue : Performs (SetsOnly (E := E) context)
      ((caps.nonceStore hcap).issueNonce context) := by
    refine Performs.bind (henv _) ?_
    intro answer
    cases answer with
    | error e => trivial
    | ok nonce =>
      refine ⟨?_, fun _ => trivial⟩
      intro entries
      -- a full store refuses the nonce and leaves its entries alone
      rcases recordNonce_cases capacity context nonce entries with h | h
      · exact Or.inl (congrArg Prod.snd h)
      · exact Or.inr ⟨nonce, congrArg Prod.snd h⟩
  unfold VerifierApplication.verify
  split
  · trivial
  split
  · trivial
  split
  · trivial
  next target _ =>
  refine Performs.bind (Performs.bind hread ?_) ?_
  · intro found
    cases found with
    | error e => trivial
    | ok found =>
      cases found with
      | some nonce => trivial
      | none =>
        refine Performs.bind hissue ?_
        intro issued
        cases issued with
        | error e => trivial
        | ok nonce => trivial
  · intro required
    cases required with
    | error failure => trivial
    | ok nonce =>
      simp only [VerifierApplication.verifyWithNonce]
      split
      · trivial
      split
      · trivial
      refine Performs.bind ?_ ?_
      · unfold DpopVerifier.verify
        split
        · trivial
        refine Performs.bind (henv _) ?_
        intro time
        cases time with
        | error e => trivial
        | ok now =>
          simp only
          split
          · trivial
          · exact Performs.bind (henv _) fun answer => trivial
      · intro r
        cases r with
        | error e => trivial
        | ok v => trivial

/-- The steps in which no nonce is issued over another one: a section that changes the entries finds
no nonce for the context. -/
def settledHandler (context : NonceContext) (envHandler : ι → Handler E ε) (i : ι) :
    Handler (E.sum nonceOps) (ServerState ι ε) := fun op s x s' =>
  serverHandler envHandler i op s x s' ∧
    match op with
    | .inl _ => True
    | .inr (.update f) => f s.entries ≠ s.entries → s.entries.lookup context = none

/-- What a call was given for the context is what the store holds. -/
def HeldAgrees (context : NonceContext) (s : ServerState ι ε) : Prop :=
  ∀ i nonce, s.heldBy context i = some nonce → s.entries.lookup context = some nonce

theorem HeldAgrees.step {context : NonceContext} {envHandler : ι → Handler E ε} {i : ι}
    {op : (E.sum nonceOps).Op} {s s' : ServerState ι ε} {x : (E.sum nonceOps).Res op}
    (hs : HeldAgrees context s) (hop : SetsOnly context op)
    (h : settledHandler context envHandler i op s x s') : HeldAgrees context s' := by
  cases op with
  | inl op =>
    obtain ⟨⟨env', -, rfl⟩, -⟩ := h
    exact hs
  | inr op =>
    cases op with
    | update f =>
      obtain ⟨⟨-, rfl⟩, hsettled⟩ := h
      intro j nonce hj
      by_cases hij : j = i
      · -- the call of the section sees the entries it leaves behind
        subst hij
        simpa [ServerState.heldBy] using hj
      · have hheld : s.heldBy context j = some nonce := by
          simpa [ServerState.heldBy, Ne.symm hij] using hj
        have hlookup := hs j nonce hheld
        rcases hop s.entries with hf | ⟨issued, hf⟩
        · simpa [hf] using hlookup
        · -- a section that issues a nonce finds none, so that no other call was given one
          by_cases hchange : f s.entries = s.entries
          · simpa [hchange] using hlookup
          · rw [hsettled hchange] at hlookup
            cases hlookup

/-- **A challenge stays usable as long as no nonce is issued over another one**: every disclosed
nonce is the one that the store expects, and no request that carries it is rejected for a
mismatch. -/
theorem challenge_stays_usable (envHandler : ι → Handler E ε) (context : NonceContext)
    (requests : ι → VerifierRequest) (env : ε) (entries : NonceEntries)
    {c : Pool ι (E.sum nonceOps) ServerAnswer (ServerState ι ε)}
    (hc : Relation.ReflTransGen (PoolStep (settledHandler context envHandler))
      (serverStart caps hcap crypto json context (fun i => .verify (requests i)) env entries) c)
    {i : ι} {version : Nat} {failure : FailureClass} {value : Bytes}
    (hi : c.thread i = some (.ret (.result (.rejected version failure (some value))))) :
    (∃ nonce, c.shared.entries.lookup context = some nonce ∧ nonce.asHeaderValue = value) ∧
      ∀ j version' value' proof,
        c.thread j = some (.ret (.result (.rejected version' .nonceMismatch value'))) →
        UnverifiedDpopProof.parse crypto json (requests j).dpopProof = .ok proof →
          proof.claims.nonce ≠ some value := by
  have hsafe := safe_of_reachable caps hcap crypto json
    (fun _ _ _ _ _ h => h.1) context (fun i => .verify (requests i)) env entries hc
  have hagrees : HeldAgrees context c.shared := by
    have hinv : HeldAgrees context c.shared ∧
        ∀ i p, c.thread i = some p → Performs (SetsOnly context) p := by
      -- the remaining programs go along: a later section still only sets this context
      clear hsafe hi
      induction hc with
      | refl =>
        refine ⟨?_, ?_⟩
        · intro i nonce h
          cases h
        · intro i p hp
          cases hp
          exact Performs.bind (performs_verify caps hcap crypto json context (requests i))
            fun _ => trivial
      | tail _ hstep ih =>
        obtain ⟨hagrees, hperforms⟩ := ih
        refine ⟨?_, hstep.performs hperforms⟩
        cases hstep with
        | call i hi h => exact hagrees.step (hperforms i _ hi).1 h
    exact hinv.1
  obtain ⟨-, nonce, hheld, rfl⟩ :=
    ((hsafe i _ hi).2 _ _ rfl rfl).disclosed version failure value rfl
  have hstored := hagrees i nonce hheld
  refine ⟨⟨nonce, hstored, rfl⟩, ?_⟩
  -- both calls were given the nonce of the one entry, so the compared claim is the disclosed one
  intro j version' value' proof hj hparse hclaim
  obtain ⟨proof', nonce', hparse', hheld', hne⟩ :=
    ((hsafe j _ hj).2 _ _ rfl rfl).mismatch version' value' rfl
  have hstored' := hagrees j nonce' hheld'
  rw [hstored] at hstored'
  cases hstored'
  rw [hparse] at hparse'
  cases hparse'
  exact hne hclaim

end Server

/-- A first request issues the nonce that it discloses, next to another one that found none; the
retry is verified, and the store expects the nonce. -/
theorem challenge_stays_usable_sample :
    ∃ c, Relation.ReflTransGen
        (PoolStep (settledHandler sampleServerContext (generatorHandler (Fin 3)))) raceStart c ∧
      c.thread 0 = some (.ret (.result (.rejected 1 .nonceRequired
        (some firstNonce.asHeaderValue)))) ∧
      c.thread 1 = some (issueStage none) ∧
      c.thread 2 = some (.ret (.result (.verified 1 ⟨sampleJkt, sampleTime, true, true⟩))) ∧
      ∃ nonce, c.shared.entries.lookup sampleServerContext = some nonce ∧
        nonce.asHeaderValue = firstNonce.asHeaderValue := by
  have hread : ∀ (i : Fin 3) (s : ServerState (Fin 3) Unit),
      settledHandler sampleServerContext (generatorHandler (Fin 3)) i
        (.inr (.update fun entries => entries)) s s.entries (s.section i fun entries => entries) :=
    fun i s => ⟨⟨rfl, rfl⟩, fun h => absurd rfl h⟩
  obtain ⟨c₁, h₁, ht₁, hwaits, hretry, hs₁⟩ := exists_challenged _ hread
    (fun _ _ _ => ⟨⟨(), trivial, rfl⟩, trivial⟩) (fun _ _ _ hnone => ⟨⟨rfl, rfl⟩, fun _ => hnone⟩)
  obtain ⟨c₂, h₂, ht₂, ho₂, -⟩ := exists_read _ c₁ 2 shortNonce_first hretry (hread 2 _)
  rw [hs₁] at ht₂
  have hfirst := (ho₂ 0 (by decide)).trans ht₁
  have hreach := h₁.tail h₂
  exact ⟨c₂, hreach, hfirst, (ho₂ 1 (by decide)).trans hwaits, ht₂,
    (challenge_stays_usable sampleServer one_ne_zero permissiveCrypto compactText
      (generatorHandler (Fin 3)) sampleServerContext raceRequests () .empty hreach hfirst).1⟩

/-- Both first requests find no nonce, and each issues one. The second nonce replaces the first,
which was disclosed: the retry is rejected for a mismatch. -/
theorem challenge_overwritten :
    FiniteMap.lookup (FiniteMap.empty : NonceEntries) sampleServerContext = none ∧
    ∃ c, Relation.ReflTransGen (PoolStep (serverHandler (generatorHandler (Fin 3))))
        (serverStart sampleServer one_ne_zero permissiveCrypto compactText sampleServerContext
          (fun i => .verify (raceRequests i)) () .empty) c ∧
      c.thread 0 = some (.ret (.result (.rejected 1 .nonceRequired
        (some firstNonce.asHeaderValue)))) ∧
      c.shared.entries.lookup sampleServerContext = some secondNonce ∧
      secondNonce.asHeaderValue ≠ firstNonce.asHeaderValue ∧
      c.thread 2 = some (.ret (.result (.rejected 1 .nonceMismatch
        (some secondNonce.asHeaderValue)))) := by
  have hown : ∀ (i : Fin 3) (s : ServerState (Fin 3) Unit) (f : NonceEntries → NonceEntries),
      serverHandler (generatorHandler (Fin 3)) i (.inr (.update f)) s s.entries (s.section i f) :=
    fun i s f => ⟨rfl, rfl⟩
  obtain ⟨c₁, h₁, hfirst, ht₁, hretry, hs₁⟩ := exists_challenged _ (fun i s => hown i s _)
    (fun _ _ _ => ⟨(), trivial, rfl⟩) (fun i s _ _ => hown i s _)
  obtain ⟨c₂, h₂, -, ho₂, hs₂⟩ :=
    exists_issue _ c₁ 1 ht₁ secondNonce ⟨(), trivial, rfl⟩ (hown 1 _ _)
  have hentries : c₂.shared.entries = (recordNonce 1 sampleServerContext secondNonce
      (recordNonce 1 sampleServerContext firstNonce .empty).2).2 := by
    rw [hs₂, ← hs₁]
    rfl
  -- the retry reads the second nonce
  obtain ⟨c₃, h₃, ht₃, ho₃, hs₃⟩ := exists_read _ c₂ 2 shortNonce_first
    ((ho₂ 2 (by decide)).trans hretry) (hown 2 _ _)
  rw [hentries] at ht₃
  refine ⟨rfl, c₃, (h₁.trans h₂).tail h₃, ?_, ?_, by decide, ht₃⟩
  · exact (ho₃ 0 (by decide)).trans ((ho₂ 0 (by decide)).trans hfirst)
  · rw [hs₃]
    show c₂.shared.entries.lookup _ = _
    rw [hentries]
    rfl

end Keylix.Verifier

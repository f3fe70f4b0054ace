import Keylix.Dpop.Agreement
import Keylix.Dpop.ReplayMemory

/-!
# When the replay store is consulted

A verification that fails a check returns before the replay store is asked: its result is the same
for every store (`unconsulted_of_not_checksPassed`). A verification that passes the checks asks the
store once (`exec_verify_of_claims`). With the process-local store this says what a verification
does to the markers (`verify_replayMemory`): a rejected proof leaves the active ones as they were,
and an accepted proof adds its own.

Between the checks and the store stands one more condition: the expiry of the marker is a time of
the clock's type. A policy whose window is accepted by `VerificationPolicy.new` may still push it
past the end of that type, and the verifier then returns `invalidPolicy` (`verify_expiry`).
-/

set_option autoImplicit false

namespace Keylix.Dpop

open Keylix.Lib Keylix.Core
open Keylix.Lib.Prog (exec exec_bind exec_ret sumExec)

section Checks

variable {crypto : Crypto}

/-- The checks that precede the replay store: the type, the algorithm, the signature, the method and
the target, the freshness at the time that was read, the nonce and the token hash. -/
structure ChecksPassed (policy : VerificationPolicy) (proof : UnverifiedDpopProof crypto)
    (request : DpopRequest) (reading : Except DpopPortError I64) : Prop where
  binding : BindingAccepted proof request
  fresh : ∃ now, reading = .ok now ∧ verifyFreshness proof.claims.iat now policy = .ok ()
  nonce : NonceAccepted proof.claims.nonce request.nonce
  token : TokenAccepted crypto proof.claims.ath request.accessToken

/-- Accepted claims come from passed checks. -/
theorem checksPassed_of_claimsAccepted {policy : VerificationPolicy}
    {proof : UnverifiedDpopProof crypto} {request : DpopRequest} {now : I64} {asked : ReplayRequest}
    (hbind : BindingAccepted proof request)
    (hclaims : ClaimsAccepted policy proof request now asked) :
    ChecksPassed policy proof request (.ok now) where
  binding := hbind
  fresh := ⟨now, rfl, verifyFreshness_eq_ok_iff.2
    ⟨hclaims.issuedAt, hclaims.notFuture, hclaims.notExpired⟩⟩
  nonce := hclaims.nonce
  token := hclaims.token

/-! ## The failure of the policy

Only the expiry of the marker is refused as a matter of the policy. -/

theorem verifyBinding_ne_invalidPolicy (proof : UnverifiedDpopProof crypto)
    (request : DpopRequest) :
    verifyBinding proof request ≠ .error .invalidPolicy := by
  intro h
  unfold verifyBinding at h
  split at h
  · cases h
  split at h
  · cases h
  split at h
  · cases h
  rcases bind_eq_error_iff.1 h with hsignature | ⟨_, -, h⟩
  · unfold verifyEs256Signature at hsignature
    split at hsignature
    · cases hsignature
    split at hsignature
    · cases hsignature
    · split at hsignature <;> cases hsignature
  · split at h
    · cases h
    split at h
    · cases h
    · split at h <;> cases h

theorem verifyFreshness_ne_invalidPolicy (issuedAt now : I64) (policy : VerificationPolicy) :
    verifyFreshness issuedAt now policy ≠ .error .invalidPolicy := by
  intro h
  unfold verifyFreshness at h
  split at h
  · cases h
  split at h
  · cases h
  · split at h <;> cases h

theorem verifyAccessTokenHash_ne_invalidPolicy (presented accessToken : Option Bytes) :
    verifyAccessTokenHash crypto presented accessToken ≠ .error .invalidPolicy := by
  intro h
  unfold verifyAccessTokenHash at h
  split at h
  · cases h
  split at h
  · cases h
  · split at h <;> cases h

theorem replayMaterial_ne_invalidPolicy (parts : List Bytes) :
    replayMaterial parts ≠ .error .invalidPolicy := by
  induction parts with
  | nil => simp [replayMaterial]
  | cons part parts ih =>
    intro h
    rw [replayMaterial] at h
    split at h
    · exact ih (map_eq_error_iff.1 h)
    · cases h

/-- The claims are refused as a matter of the policy exactly when all checks pass and the expiry is
out of range. -/
theorem verifyClaims_eq_invalidPolicy_iff {policy : VerificationPolicy}
    {proof : UnverifiedDpopProof crypto} {request : DpopRequest} {now : I64} :
    verifyClaims policy proof request now = .error .invalidPolicy ↔
      verifyFreshness proof.claims.iat now policy = .ok () ∧
      NonceAccepted proof.claims.nonce request.nonce ∧
      TokenAccepted crypto proof.claims.ath request.accessToken ∧
      (∃ key, deriveReplayKey crypto proof.publicJwk.thumbprint request.method request.target
        proof.claims.jti = .ok key) ∧
      2 ^ 63 ≤ proof.claims.iat.toInt + policy.maxProofAgeSeconds := by
  unfold verifyClaims
  constructor
  · intro h
    -- the checks one after another: none of their failures is this one
    rcases bind_eq_error_iff.1 h with h | ⟨_, hfresh, h⟩
    · exact absurd h (verifyFreshness_ne_invalidPolicy _ _ _)
    rcases bind_eq_error_iff.1 h with h | ⟨_, hnonce, h⟩
    · rcases verifyNonce_error h with he | he <;> cases he
    rcases bind_eq_error_iff.1 h with h | ⟨verified, htoken, h⟩
    · exact absurd h (verifyAccessTokenHash_ne_invalidPolicy _ _)
    rcases bind_eq_error_iff.1 h with h | ⟨key, hkey, h⟩
    · exact absurd (map_eq_error_iff.1 h) (replayMaterial_ne_invalidPolicy _)
    refine ⟨hfresh, verifyNonce_eq_ok_iff.1 hnonce, (verifyAccessTokenHash_eq_ok_iff.1 htoken).1,
      ⟨key, hkey⟩, ?_⟩
    have hissued := (verifyFreshness_eq_ok_iff.1 hfresh).1
    split at h
    · next hnone =>
      rw [I64.ofInt?_eq_none_iff] at hnone
      omega
    · cases h
  · rintro ⟨hfresh, hnonce, htoken, ⟨key, hkey⟩, hexp⟩
    have hnone : I64.ofInt? (proof.claims.iat.toInt + policy.maxProofAgeSeconds) = none :=
      I64.ofInt?_eq_none_iff.2 (Or.inr hexp)
    rw [hfresh, verifyNonce_eq_ok_iff.2 hnonce, verifyAccessTokenHash_eq_ok_iff.2 ⟨htoken, rfl⟩,
      hkey]
    simp only [bind, Except.bind, hnone]

theorem verifyReplay_ne_invalidPolicy (proof : UnverifiedDpopProof crypto) (request : DpopRequest)
    (verified : Bool) (answer : Except DpopPortError ReplayStatus) :
    verifyReplay proof request verified answer ≠ .error .invalidPolicy := by
  rcases answer with e | status
  · simp [verifyReplay]
  · cases status <;> simp [verifyReplay]

/-- The replay store rejects a proof for two reasons. -/
theorem answer_of_verifyReplay_error {proof : UnverifiedDpopProof crypto} {request : DpopRequest}
    {verified : Bool} {answer : Except DpopPortError ReplayStatus} {e : DpopError}
    (h : verifyReplay proof request verified answer = .error e) :
    answer ≠ .ok .fresh ∧ (e = .replayDetected ∨ e = .replayStoreUnavailable) := by
  rcases answer with e' | status
  · cases h
    exact ⟨by simp, Or.inr rfl⟩
  · cases status with
    | fresh => cases h
    | replay =>
      cases h
      exact ⟨by simp, Or.inl rfl⟩

/-- An accepted policy is the one of its two windows. -/
theorem new_eq_ok {maxAge skew : Nat} {policy : VerificationPolicy}
    (h : VerificationPolicy.new maxAge skew = .ok policy) :
    policy.maxProofAgeSeconds = maxAge ∧ policy.allowedFutureSkewSeconds = skew := by
  unfold VerificationPolicy.new at h
  split at h <;> cases h
  exact ⟨rfl, rfl⟩

/-! ## Runs that do not reach the store -/

section Runs

variable {S : Signature} {σ : Type} (h : (op : S.Op) → σ → S.Res op × σ)
  (verifier : DpopVerifier S) (proof : UnverifiedDpopProof crypto) (request : DpopRequest) (s : σ)

/-- A verification that does not ask the replay store: whatever the store, it fails for the same
reason and has at most read the clock. -/
def Unconsulted : Prop :=
  ∃ e t, e ≠ DpopError.replayDetected ∧ e ≠ DpopError.replayStoreUnavailable ∧
    (t = s ∨ t = (exec h verifier.clock.unixSeconds s).2) ∧
    ∀ store : ReplayStore S, exec h (verifier.verify proof request store) s = (.error e, t)

variable {verifier proof request s}

/-- A failure of the binding checks precedes even the clock. -/
theorem exec_verify_of_binding {e : DpopError} (hbind : verifyBinding proof request = .error e)
    (store : ReplayStore S) : exec h (verifier.verify proof request store) s = (.error e, s) := by
  unfold DpopVerifier.verify
  rw [hbind]
  rfl

/-- A clock that cannot be read ends the verification. -/
theorem exec_verify_of_clock {e : DpopPortError} (hbind : BindingAccepted proof request)
    (hclock : (exec h verifier.clock.unixSeconds s).1 = .error e) (store : ReplayStore S) :
    exec h (verifier.verify proof request store) s =
      (.error .clockUnavailable, (exec h verifier.clock.unixSeconds s).2) := by
  unfold DpopVerifier.verify
  rw [verifyBinding_eq_ok_iff.2 hbind, exec_bind, hclock]
  rfl

/-- A failure of the claims ends the verification. -/
theorem exec_verify_of_refused {now : I64} {e : DpopError} (hbind : BindingAccepted proof request)
    (hclock : (exec h verifier.clock.unixSeconds s).1 = .ok now)
    (hclaims : verifyClaims verifier.policy proof request now = .error e) (store : ReplayStore S) :
    exec h (verifier.verify proof request store) s =
      (.error e, (exec h verifier.clock.unixSeconds s).2) := by
  unfold DpopVerifier.verify
  rw [verifyBinding_eq_ok_iff.2 hbind, exec_bind, hclock]
  simp only [hclaims]
  rfl

/-- Accepted claims are handed to the store, and its answer decides. -/
theorem exec_verify_of_claims {now : I64} {asked : ReplayRequest}
    (hbind : BindingAccepted proof request)
    (hclock : (exec h verifier.clock.unixSeconds s).1 = .ok now)
    (hclaims : ClaimsAccepted verifier.policy proof request now asked) (store : ReplayStore S) :
    exec h (verifier.verify proof request store) s =
      (verifyReplay proof request request.accessToken.isSome
        (exec h (store.checkAndRecord asked.key asked.expiresAtUnix)
          (exec h verifier.clock.unixSeconds s).2).1,
        (exec h (store.checkAndRecord asked.key asked.expiresAtUnix)
          (exec h verifier.clock.unixSeconds s).2).2) := by
  unfold DpopVerifier.verify
  rw [verifyBinding_eq_ok_iff.2 hbind, exec_bind, hclock]
  simp only [verifyClaims_eq_ok_iff.2 ⟨hclaims, rfl⟩]
  rw [exec_bind]
  rfl

/-- The checks of the claims do not fail for the reasons of the replay store. -/
theorem not_replay_of_verifyClaims_error {policy : VerificationPolicy} {now : I64} {e : DpopError}
    (h : verifyClaims policy proof request now = .error e) :
    e ≠ .replayDetected ∧ e ≠ .replayStoreUnavailable := by
  rcases verifyClaims_error h with hstate | hnonce
  · constructor <;> rintro rfl <;> cases hstate
  · rcases verifyNonce_error hnonce with rfl | rfl <;> decide

/-- A verification asks the store exactly when the claims are accepted. -/
theorem unconsulted_or_claimsAccepted :
    Unconsulted h verifier proof request s ∨
      BindingAccepted proof request ∧ ∃ now asked,
        (exec h verifier.clock.unixSeconds s).1 = .ok now ∧
        ClaimsAccepted verifier.policy proof request now asked := by
  cases hbind : verifyBinding proof request with
  | error e =>
    have hstate := verifyBinding_error hbind
    refine Or.inl ⟨e, s, ?_, ?_, Or.inl rfl, exec_verify_of_binding h hbind⟩
    · rintro rfl
      cases hstate
    · rintro rfl
      cases hstate
  | ok u =>
    have hbinding := verifyBinding_eq_ok_iff.1 hbind
    cases hclock : (exec h verifier.clock.unixSeconds s).1 with
    | error e =>
      exact Or.inl ⟨_, _, by decide, by decide, Or.inr rfl, exec_verify_of_clock h hbinding hclock⟩
    | ok now =>
      cases hclaims : verifyClaims verifier.policy proof request now with
      | ok r =>
        exact Or.inr ⟨hbinding, now, r.2, rfl, (verifyClaims_eq_ok_iff.1 hclaims).1⟩
      | error e =>
        obtain ⟨hreplay, hstore⟩ := not_replay_of_verifyClaims_error hclaims
        exact Or.inl ⟨e, _, hreplay, hstore, Or.inr rfl,
          exec_verify_of_refused h hbinding hclock hclaims⟩

/-- A verification that fails a check does not ask the store. -/
theorem unconsulted_of_not_checksPassed
    (hchecks : ¬ ChecksPassed verifier.policy proof request
      (exec h verifier.clock.unixSeconds s).1) :
    Unconsulted h verifier proof request s := by
  apply (unconsulted_or_claimsAccepted h).resolve_right
  rintro ⟨hbind, now, asked, hclock, hclaims⟩
  apply hchecks
  rw [hclock]
  exact checksPassed_of_claimsAccepted hbind hclaims

/-- The verifier refuses a proof as a matter of the policy exactly when all checks pass and the
expiry is out of range. -/
theorem exec_verify_eq_invalidPolicy_iff (store : ReplayStore S) :
    (exec h (verifier.verify proof request store) s).1 = .error .invalidPolicy ↔
      ChecksPassed verifier.policy proof request (exec h verifier.clock.unixSeconds s).1 ∧
      (∃ key, deriveReplayKey crypto proof.publicJwk.thumbprint request.method request.target
        proof.claims.jti = .ok key) ∧
      2 ^ 63 ≤ proof.claims.iat.toInt + verifier.policy.maxProofAgeSeconds := by
  constructor
  · intro hrun
    -- the phases in their order; only the claims can blame the policy
    cases hbind : verifyBinding proof request with
    | error e =>
      rw [exec_verify_of_binding h hbind] at hrun
      cases hrun
      exact absurd hbind (verifyBinding_ne_invalidPolicy _ _)
    | ok u =>
      have hbinding := verifyBinding_eq_ok_iff.1 hbind
      cases hclock : (exec h verifier.clock.unixSeconds s).1 with
      | error e =>
        rw [exec_verify_of_clock h hbinding hclock] at hrun
        cases hrun
      | ok now =>
        cases hclaims : verifyClaims verifier.policy proof request now with
        | error e =>
          rw [exec_verify_of_refused h hbinding hclock hclaims] at hrun
          cases hrun
          obtain ⟨hfresh, hnonce, htoken, hkey, hexp⟩ := verifyClaims_eq_invalidPolicy_iff.1 hclaims
          exact ⟨⟨hbinding, ⟨now, rfl, hfresh⟩, hnonce, htoken⟩, hkey, hexp⟩
        | ok r =>
          rw [exec_verify_of_claims h hbinding hclock (verifyClaims_eq_ok_iff.1 hclaims).1] at hrun
          exact absurd hrun (verifyReplay_ne_invalidPolicy _ _ _ _)
  · rintro ⟨⟨hbind, ⟨now, hclock, hfresh⟩, hnonce, htoken⟩, hkey, hexp⟩
    have hclaims := verifyClaims_eq_invalidPolicy_iff.2 ⟨hfresh, hnonce, htoken, hkey, hexp⟩
    rw [exec_verify_of_refused h hbind hclock hclaims]

/-- **The expiry of a proof that is fresh under an accepted policy.** In the range of the clock the
verifier does not blame the policy; out of it the proof is rejected without asking the store, as a
matter of the policy once it passes the checks. A clock that leaves room for both windows stays in
the range. -/
theorem verify_expiry {maxAge skew : Nat} {now : I64}
    (hpolicy : VerificationPolicy.new maxAge skew = .ok verifier.policy)
    (hclock : (exec h verifier.clock.unixSeconds s).1 = .ok now)
    (hfresh : verifyFreshness proof.claims.iat now verifier.policy = .ok ()) :
    (proof.claims.iat.toInt + maxAge < 2 ^ 63 →
      (∃ expires, I64.ofInt? (proof.claims.iat.toInt + maxAge) = some expires) ∧
      ∀ store, (exec h (verifier.verify proof request store) s).1 ≠ .error .invalidPolicy) ∧
    (2 ^ 63 ≤ proof.claims.iat.toInt + maxAge →
      I64.ofInt? (proof.claims.iat.toInt + maxAge) = none ∧
      Unconsulted h verifier proof request s ∧
      ∀ store, (exec h (verifier.verify proof request store) s).1 = .error .invalidPolicy ↔
        ChecksPassed verifier.policy proof request (.ok now) ∧
        ∃ key, deriveReplayKey crypto proof.publicJwk.thumbprint request.method request.target
          proof.claims.jti = .ok key) ∧
    (now.toInt + skew + maxAge < 2 ^ 63 → proof.claims.iat.toInt + maxAge < 2 ^ 63) := by
  -- the policy holds the two numbers that it was made of
  obtain ⟨hage, hskew⟩ := new_eq_ok hpolicy
  obtain ⟨hissued, hfuture, -⟩ := verifyFreshness_eq_ok_iff.1 hfresh
  refine ⟨fun hrange => ⟨?_, fun store hrun => ?_⟩, fun hpast => ⟨?_, ?_, fun store => ?_⟩, ?_⟩
  · cases hexp : I64.ofInt? (proof.claims.iat.toInt + maxAge) with
    | some expires => exact ⟨expires, rfl⟩
    | none =>
      rw [I64.ofInt?_eq_none_iff] at hexp
      omega
  · have hpast := ((exec_verify_eq_invalidPolicy_iff h store).1 hrun).2.2
    rw [hage] at hpast
    omega
  · exact I64.ofInt?_eq_none_iff.2 (Or.inr hpast)
  -- an accepted claim would carry an expiry out of the range of its own type
  · apply (unconsulted_or_claimsAccepted h).resolve_right
    rintro ⟨-, now', asked, -, hclaims⟩
    have hvalue := hclaims.expires
    have hbound := asked.expiresAtUnix.upper
    rw [hage] at hvalue
    omega
  · rw [exec_verify_eq_invalidPolicy_iff, hclock, hage]
    exact ⟨fun hall => ⟨hall.1, hall.2.1⟩, fun hall => ⟨hall.1, hall.2, hpast⟩⟩
  -- a fresh proof is at most the allowed skew ahead of the clock
  · intro hroom
    rw [hskew] at hfuture
    omega

end Runs

end Checks

/-- The proof of a short request, issued at the sample time. -/
def sampleProof : UnverifiedDpopProof permissiveCrypto :=
  parsedProof sampleJwk (requestClaims permissiveCrypto sampleRequest sampleTime sampleProofId)
    (List.replicate 64 0)

/-- A verifier at the sample time. -/
def sampleVerifier (policy : VerificationPolicy) : DpopVerifier noOps :=
  ⟨⟨.ret (.ok sampleTime)⟩, policy⟩

theorem bindingAccepted_sampleProof : BindingAccepted sampleProof sampleRequest :=
  bindingAccepted_parsedProof ⟨List.length_replicate, (), rfl, rfl⟩ (by decide)

/-- Under the default policy the proof has an expiry, and the policy is not blamed. -/
theorem verify_expiry_default :
    (∃ expires, I64.ofInt? (sampleProof.claims.iat.toInt + 300) = some expires) ∧
      (exec noHandler ((sampleVerifier .default).verify sampleProof sampleRequest
        ⟨fun _ _ => .ret (.ok .fresh)⟩) ()).1 ≠ .error .invalidPolicy := by
  have hpolicy : VerificationPolicy.new 300 300 = .ok (sampleVerifier .default).policy := rfl
  have hclock : (exec noHandler (sampleVerifier .default).clock.unixSeconds ()).1 =
      .ok sampleTime := rfl
  have hfresh : verifyFreshness sampleProof.claims.iat sampleTime (sampleVerifier .default).policy =
      .ok () := by decide
  obtain ⟨hexpiry, hrun⟩ := (verify_expiry noHandler hpolicy hclock hfresh).1 (by decide)
  exact ⟨hexpiry, hrun ⟨fun _ _ => .ret (.ok .fresh)⟩⟩

/-- The widest window that is accepted at construction: a proof issued at this second is fresh, and
the verifier blames the policy. -/
theorem verify_expiry_widest :
    ∃ policy, VerificationPolicy.new (2 ^ 63 - 1) 0 = .ok policy ∧
      verifyFreshness sampleProof.claims.iat sampleTime policy = .ok () ∧
      I64.ofInt? (sampleProof.claims.iat.toInt + policy.maxProofAgeSeconds) = none ∧
      (exec noHandler ((sampleVerifier policy).verify sampleProof sampleRequest
        ⟨fun _ _ => .ret (.ok .fresh)⟩) ()).1 = .error .invalidPolicy := by
  refine ⟨⟨2 ^ 63 - 1, 0, by norm_num, by norm_num⟩, rfl, by decide, by decide, ?_⟩
  rw [exec_verify_eq_invalidPolicy_iff]
  refine ⟨⟨bindingAccepted_sampleProof, ⟨sampleTime, rfl, by decide⟩, ?_, ?_⟩, ?_, by decide⟩
  · intro nonce hnonce
    cases hnonce
  · intro token htoken
    cases htoken
  · exact deriveReplayKey_ok _ sampleRequest (by decide)

/-! ## The process-local store -/

/-- The markers that are active at the store's reading are the same; without a reading, all are. -/
def SameActive (reading : Except DpopPortError I64) (before after : ReplayEntries) : Prop :=
  match reading with
  | .error _ => after = before
  | .ok now => ∀ k e, now.toInt ≤ e.toInt → (after.lookup k = some e ↔ before.lookup k = some e)

/-- One marker was added, and nothing else but markers past their expiry was touched. -/
structure MarkerAdded (now : I64) (key : ReplayKey) (expires : I64)
    (before after : ReplayEntries) : Prop where
  recorded : after.lookup key = some expires
  active : now.toInt ≤ expires.toInt
  /-- The key had no active marker. -/
  absent : ∀ e, before.lookup key = some e → e.toInt < now.toInt
  only : ∀ k e, after.lookup k = some e → before.lookup k = some e ∨ k = key ∧ e = expires
  kept : ∀ k e, before.lookup k = some e → now.toInt ≤ e.toInt → after.lookup k = some e

theorem sameActive_refl (reading : Except DpopPortError I64) (entries : ReplayEntries) :
    SameActive reading entries entries := by
  cases reading with
  | error e => rfl
  | ok now => exact fun k e _ => Iff.rfl

/-- A call that does not answer `fresh` keeps the active markers. -/
theorem sameActive_recordCall {capacity : Nat} {reading : Except DpopPortError I64}
    {key : ReplayKey} {expires : I64} {entries : ReplayEntries}
    (hanswer : (recordCall capacity reading key expires entries).1 ≠ .ok .fresh) :
    SameActive reading entries (recordCall capacity reading key expires entries).2 := by
  have hlaws := memoryLaws_recordCall capacity ⟨reading, key, expires⟩ entries
  cases reading with
  | error e => rfl
  | ok now =>
    intro k e hactive
    constructor
    · intro hafter
      by_contra hbefore
      exact hanswer (hlaws.added k e hafter hbefore).1
    · exact fun hbefore => hlaws.kept now k e rfl hbefore hactive

/-- A call that answers `fresh` adds the marker it was asked for. -/
theorem markerAdded_recordCall {capacity : Nat} {reading : Except DpopPortError I64}
    {key : ReplayKey} {expires : I64} {entries : ReplayEntries}
    (hanswer : (recordCall capacity reading key expires entries).1 = .ok .fresh) :
    ∃ now, reading = .ok now ∧
      MarkerAdded now key expires entries (recordCall capacity reading key expires entries).2 := by
  have hlaws := memoryLaws_recordCall capacity ⟨reading, key, expires⟩ entries
  obtain ⟨now, hreading, hactive, habsent, -⟩ := hlaws.fresh.1 hanswer
  refine ⟨now, hreading, hlaws.recorded hanswer, hactive, habsent, ?_, ?_⟩
  · intro k e hafter
    by_cases hbefore : entries.lookup k = some e
    · exact Or.inl hbefore
    · exact Or.inr (hlaws.added k e hafter hbefore).2
  · exact fun k e hbefore hle => hlaws.kept now k e hreading hbefore hle

section Store

variable {crypto : Crypto} {E : Signature} {σ : Type} (h : (op : E.Op) → σ → E.Res op × σ)
  (verifierClock storeClock : Clock E) (policy : VerificationPolicy)
  (capacity : Nat) (hcap : capacity ≠ 0)

/-- The verifier of an environment with a replay store. -/
def memoryVerifier : DpopVerifier (E.sum replayOps) := ⟨⟨verifierClock.unixSeconds.inl⟩, policy⟩

/-- A verification with the process-local store. -/
def verifyWithMemory (proof : UnverifiedDpopProof crypto) (request : DpopRequest) (s : σ)
    (entries : ReplayEntries) : Except DpopError VerifiedDpopProof × (σ × ReplayEntries) :=
  exec (sumExec h replayExec)
    ((memoryVerifier verifierClock policy).verify proof request
      (replayMemory storeClock capacity hcap).replayStore) (s, entries)

/-- What the store's clock reads after the verifier's. -/
def storeReading (s : σ) : Except DpopPortError I64 :=
  (exec h storeClock.unixSeconds (exec h verifierClock.unixSeconds s).2).1

variable {h verifierClock storeClock policy capacity hcap}

theorem exec_memoryVerifier_clock (s : σ) (entries : ReplayEntries) :
    exec (sumExec h replayExec) (memoryVerifier verifierClock policy).clock.unixSeconds
        (s, entries) =
      ((exec h verifierClock.unixSeconds s).1, (exec h verifierClock.unixSeconds s).2, entries) :=
  Prog.exec_inl h replayExec verifierClock.unixSeconds (s, entries)

variable (storeClock hcap) in
/-- A verification that asks the store: the answer decides, and the markers are those of the
call. -/
theorem verifyWithMemory_of_claims {proof : UnverifiedDpopProof crypto} {request : DpopRequest}
    {s : σ} (entries : ReplayEntries) {now : I64} {asked : ReplayRequest}
    (hbind : BindingAccepted proof request)
    (hclock : (exec h verifierClock.unixSeconds s).1 = .ok now)
    (hclaims : ClaimsAccepted policy proof request now asked) :
    (verifyWithMemory h verifierClock storeClock policy capacity hcap proof request s entries).1 =
        verifyReplay proof request request.accessToken.isSome
          (recordCall capacity (storeReading h verifierClock storeClock s) asked.key
            asked.expiresAtUnix entries).1 ∧
      (verifyWithMemory h verifierClock storeClock policy capacity hcap proof request s
          entries).2.2 =
        (recordCall capacity (storeReading h verifierClock storeClock s) asked.key
          asked.expiresAtUnix entries).2 := by
  have hreading : (exec (sumExec h replayExec)
      (memoryVerifier verifierClock policy).clock.unixSeconds (s, entries)).1 = .ok now := by
    rw [exec_memoryVerifier_clock]
    exact hclock
  have hrun := exec_verify_of_claims (sumExec h replayExec) hbind hreading hclaims
    (replayMemory storeClock capacity hcap).replayStore
  rw [exec_memoryVerifier_clock] at hrun
  have hcall := exec_checkAndRecord h storeClock capacity hcap asked.key asked.expiresAtUnix
    (exec h verifierClock.unixSeconds s).2 entries
  unfold verifyWithMemory
  rw [hrun, InMemoryReplayStore.replayStore, hcall]
  exact ⟨rfl, rfl⟩

variable (h verifierClock storeClock policy capacity hcap) in
/-- **A rejected proof leaves replay protection as it was; an accepted one adds its marker.** The
store is not consulted before every check has passed. -/
theorem verify_replayMemory (proof : UnverifiedDpopProof crypto) (request : DpopRequest) (s : σ)
    (entries : ReplayEntries) :
    (¬ ChecksPassed policy proof request (exec h verifierClock.unixSeconds s).1 →
      Unconsulted (sumExec h replayExec) (memoryVerifier verifierClock policy) proof request
        (s, entries)) ∧
    (∀ e, (verifyWithMemory h verifierClock storeClock policy capacity hcap proof request s
        entries).1 = .error e →
      SameActive (storeReading h verifierClock storeClock s) entries
        (verifyWithMemory h verifierClock storeClock policy capacity hcap proof request s
          entries).2.2 ∧
      (e ≠ .replayDetected → e ≠ .replayStoreUnavailable →
        (verifyWithMemory h verifierClock storeClock policy capacity hcap proof request s
          entries).2.2 = entries)) ∧
    (∀ v, (verifyWithMemory h verifierClock storeClock policy capacity hcap proof request s
        entries).1 = .ok v →
      ∃ now key expires, storeReading h verifierClock storeClock s = .ok now ∧
        deriveReplayKey crypto proof.publicJwk.thumbprint request.method request.target
          proof.claims.jti = .ok key ∧
        expires.toInt = proof.claims.iat.toInt + policy.maxProofAgeSeconds ∧
        MarkerAdded now key expires entries
          (verifyWithMemory h verifierClock storeClock policy capacity hcap proof request s
            entries).2.2) := by
  constructor
  · intro hchecks
    apply unconsulted_of_not_checksPassed
    rw [exec_memoryVerifier_clock]
    exact hchecks
  rcases unconsulted_or_claimsAccepted (sumExec h replayExec) with
    ⟨e, t, hreplay, hunavailable, ht, hrun⟩ | ⟨hbind, now, asked, hclock, hclaims⟩
  -- not consulted: the run only read the verifier's clock
  · have hmemory : verifyWithMemory h verifierClock storeClock policy capacity hcap proof request s
        entries = (.error e, t) := hrun _
    have hentries : t.2 = entries := by
      rcases ht with rfl | rfl
      · rfl
      · rw [exec_memoryVerifier_clock]
    rw [hmemory]
    refine ⟨?_, ?_⟩
    · intro e' _
      rw [hentries]
      exact ⟨sameActive_refl _ _, fun _ _ => rfl⟩
    · intro v hv
      cases hv
  -- consulted: the answer of the call decides
  · rw [exec_memoryVerifier_clock] at hclock
    have haccepted : ClaimsAccepted policy proof request now asked := hclaims
    obtain ⟨hresult, hafter⟩ :=
      verifyWithMemory_of_claims storeClock hcap entries hbind hclock haccepted
    rw [hresult, hafter]
    refine ⟨?_, ?_⟩
    · intro e he
      have hanswer := answer_of_verifyReplay_error he
      refine ⟨sameActive_recordCall hanswer.1, fun hreplay hunavailable => ?_⟩
      exact absurd hanswer.2 (not_or.2 ⟨hreplay, hunavailable⟩)
    · intro v hv
      obtain ⟨hfresh, -⟩ := verifyReplay_eq_ok_iff.1 hv
      obtain ⟨storeNow, hreading, hadded⟩ := markerAdded_recordCall hfresh
      exact ⟨storeNow, asked.key, asked.expiresAtUnix, hreading, hclaims.key, hclaims.expires,
        hadded⟩

end Store

/-- A verification of the sample proof at the sample time, with a store for one marker. -/
def verifySample (entries : ReplayEntries) :
    Except DpopError VerifiedDpopProof × (Unit × ReplayEntries) :=
  verifyWithMemory noHandler (sampleVerifier .default).clock (sampleVerifier .default).clock
    .default 1 Nat.one_ne_zero sampleProof sampleRequest () entries

theorem verifySample_empty : ∃ v, (verifySample .empty).1 = .ok v := by
  have hexp : sampleTime.toInt + VerificationPolicy.default.maxProofAgeSeconds < 2 ^ 63 := by decide
  obtain ⟨asked, hclaims⟩ := (claimsAccepted_parsedProof_iff sampleJwk sampleRequest sampleTime_pos
    sampleProofId (List.replicate 64 0) hexp sampleTime).2 (by decide)
  have hclock : (exec noHandler (sampleVerifier .default).clock.unixSeconds ()).1 =
      .ok sampleTime := rfl
  have hrun := (verifyWithMemory_of_claims (sampleVerifier .default).clock Nat.one_ne_zero
    .empty bindingAccepted_sampleProof hclock hclaims).1
  have hreading : storeReading noHandler (sampleVerifier .default).clock
      (sampleVerifier .default).clock () = .ok sampleTime := rfl
  have hactive : ¬ asked.expiresAtUnix.toInt < sampleTime.toInt := by
    rw [hclaims.expires]
    exact fun hlt => absurd hlt (by decide)
  have hcall : (recordCall 1 (.ok sampleTime) asked.key asked.expiresAtUnix .empty).1 =
      .ok .fresh := by
    rw [recordCall, if_neg hactive]
    rfl
  rw [hreading, hcall] at hrun
  exact ⟨_, hrun⟩

theorem verifySample_eq (entries : ReplayEntries) :
    verifySample entries = verifyWithMemory noHandler (sampleVerifier .default).clock
      (sampleVerifier .default).clock .default 1 Nat.one_ne_zero sampleProof sampleRequest ()
      entries := rfl

theorem storeReading_sample : storeReading noHandler (sampleVerifier .default).clock
    (sampleVerifier .default).clock () = .ok sampleTime := rfl

/-- The first presentation of a proof is accepted and leaves its marker; the second is rejected and
leaves it as it was. -/
theorem verify_replayMemory_sample :
    (∃ key expires, MarkerAdded sampleTime key expires .empty (verifySample .empty).2.2) ∧
    (∃ e, (verifySample (verifySample .empty).2.2).1 = .error e) ∧
    SameActive (.ok sampleTime) (verifySample .empty).2.2
      (verifySample (verifySample .empty).2.2).2.2 := by
  obtain ⟨v, hv⟩ := verifySample_empty
  have hlaws := verify_replayMemory noHandler (sampleVerifier .default).clock
    (sampleVerifier .default).clock .default 1 Nat.one_ne_zero sampleProof sampleRequest ()
  simp only [← verifySample_eq, storeReading_sample] at hlaws
  obtain ⟨-, -, hfirst⟩ := hlaws .empty
  obtain ⟨now, key, expires, hreading, hkey, -, hadded⟩ := hfirst v hv
  obtain rfl := Except.ok.inj hreading
  obtain ⟨-, hrejected, haccepted⟩ := hlaws (verifySample .empty).2.2
  have herror : ∃ e, (verifySample (verifySample .empty).2.2).1 = .error e := by
    refine exists_error fun v' hv' => ?_
    obtain ⟨now', key', expires', hreading', hkey', -, hadded'⟩ := haccepted v' hv'
    obtain rfl := Except.ok.inj hreading'
    obtain rfl := Except.ok.inj (hkey.symm.trans hkey')
    exact absurd (hadded'.absent expires hadded.recorded) (Int.not_lt.2 hadded.active)
  obtain ⟨e, he⟩ := herror
  exact ⟨⟨key, expires, hadded⟩, ⟨e, he⟩, (hrejected e he).1⟩

end Keylix.Dpop

import Keylix.Verifier.Application
import Keylix.Verifier.Replay.Concurrent

/-!
# The process of the reference host

The capabilities that `serve` gives the service: the durable replay store, the process-local nonces
and one clock. A request is a program over the operations of the process; a directory operation may
fail with all of its effect, a part of it or none, the lock and the generator of nonces may fail,
and readings of the clock never decrease.

`safe_hostVerify` is the contract of one request: every state of it keeps the markers that were
published, and a request that is verified leaves the marker of its proof on disk, which was not
there in its lifetime before.
-/

set_option autoImplicit false

namespace Keylix.Verifier

open Keylix.Lib Keylix.Core Keylix.Dpop Keylix.OAuth
open Keylix.Lib.Prog (Safe Outcome)

/-! ## Capabilities -/

/-- The operations of the process beside those of its replay directory. -/
inductive HostOp where
  | unixSeconds
  | lock
  | unlock
  | generate
  | nonces (f : NonceEntries → NonceEntries)

def hostOps : Signature where
  Op := HostOp
  Res
    | .unixSeconds => Except DpopPortError I64
    | .lock => Except DpopPortError Unit
    | .unlock => Unit
    | .generate => Except DpopPortError DpopNonce
    | .nonces _ => NonceEntries

abbrev processOps : Signature := fileOps.sum hostOps

def hostClock : Clock processOps := ⟨Prog.perform (S := processOps) (.inr .unixSeconds)⟩

def hostLock : OperationLock processOps where
  lock := Prog.perform (S := processOps) (.inr .lock)
  unlock := Prog.perform (S := processOps) (.inr .unlock)

def hostGenerator : NonceGenerator processOps := ⟨Prog.perform (S := processOps) (.inr .generate)⟩

def hostNonces : Mutex processOps NonceEntries :=
  ⟨fun f => Prog.perform (S := processOps) (.inr (.nonces f))⟩

/-- What the process was started with. -/
structure HostConfig where
  host : FsHost
  replayDir : Path
  trustedUid : Nat
  replayCapacity : Nat
  nonceCapacity : Nat
  nonceCapacity_ne : nonceCapacity ≠ 0
  noncePolicy : NoncePolicy

namespace HostConfig

variable (cfg : HostConfig)

def openReplay : Prog fileOps (Except DpopPortError (FileReplayStore hostOps)) :=
  FileReplayStore.new hostClock hostLock cfg.replayDir cfg.trustedUid cfg.replayCapacity

def nonces : InMemoryServerNonceStore processOps :=
  ⟨hostGenerator, cfg.nonceCapacity, hostNonces, cfg.nonceCapacity_ne⟩

/-- The service of `serve`, over an open replay store. -/
def application (replay : FileReplayStore hostOps) : VerifierApplication processOps where
  clock := hostClock
  replayStore := replay.replayStore
  nonceStore := cfg.nonces.serverNonceStore
  noncePolicy := cfg.noncePolicy
  verificationPolicy := .default

end HostConfig

/-! ## The state of the process -/

structure HostState where
  fs : Fs
  nonces : NonceEntries
  /-- The last reading of the clock. -/
  clock : I64

/-- One operation. The process answers one connection at a time, so that the lock is free or
poisoned. -/
def hostHandler (host : FsHost) : Prog.Handler processOps HostState
  | .inl op, s, x, s' => ∃ fs', fsHandler host True op s.fs x fs' ∧ s' = { s with fs := fs' }
  | .inr .unixSeconds, s, x, s' =>
      (∃ e, x = .error e ∧ s' = s) ∨
        ∃ t : I64, s.clock.toInt ≤ t.toInt ∧ x = .ok t ∧ s' = { s with clock := t }
  | .inr .lock, s, _, s' => s' = s
  | .inr .unlock, s, _, s' => s' = s
  | .inr .generate, s, _, s' => s' = s
  | .inr (.nonces f), s, x, s' => x = s.nonces ∧ s' = { s with nonces := f s.nonces }

/-- The markers of `K` are on disk or past their expiry. -/
def HostState.Keeps (K : Markers) (s : HostState) : Prop := Kept anyEntry K s.clock s.fs

/-- Everything of a state that a nonce operation leaves alone. -/
structure HostState.SameFiles (s s' : HostState) : Prop where
  fs : s'.fs = s.fs
  clock : s'.clock = s.clock

namespace HostState

variable {K : Markers} {s s' : HostState}

theorem SameFiles.keeps (h : s.SameFiles s') (hs : s.Keeps K) : s'.Keeps K := by
  unfold Keeps
  rw [h.fs, h.clock]
  exact hs

theorem Keeps.read (hs : s.Keeps K) {t : I64} (ht : s.clock.toInt ≤ t.toInt) :
    ({ s with clock := t } : HostState).Keeps K :=
  Kept.mono hs ht fun _ _ h => h

end HostState

section Requests

variable {host : FsHost} {K : Markers} {s : HostState} {store : FileReplayStore hostOps}

/-! ## One call of the store -/

/-- What the answer `fresh` says: the marker is on disk, it is not past its expiry, and every
published marker of its key is. -/
structure FreshMarker (K : Markers) (key : ReplayKey) (expires : I64) (s : HostState) : Prop where
  durable : s.fs.Durable (nameFor key) (markerText expires)
  expired : ∀ e, K key e → e.toInt < s.clock.toInt
  intime : s.clock.toInt ≤ expires.toInt

/-- A reading that does not fail is not below the readings before. -/
theorem safe_hostClock {Q : Except DpopPortError I64 → HostState → Prop} (hs : s.Keeps K)
    (herr : ∀ e, Q (.error e) s)
    (hok : ∀ t : I64, s.clock.toInt ≤ t.toInt → Q (.ok t) { s with clock := t }) :
    Safe (hostHandler host) (HostState.Keeps K) Q hostClock.unixSeconds s := by
  apply Safe.perform hs
  rintro x s' (⟨e, rfl, rfl⟩ | ⟨t, ht, rfl, rfl⟩)
  · exact ⟨hs, herr e⟩
  · exact ⟨hs.read ht, hok t ht⟩

/-- A section of the directory, at the reading it was started with. -/
theorem safe_section (hK : ∀ k e, K k e → 0 ≤ e.toInt) {key : ReplayKey} {expires : I64}
    (hexpires : 0 ≤ expires.toInt) (hs : s.Keeps K) :
    Safe (hostHandler host) (HostState.Keeps K)
      (fun r s' => s.clock.toInt ≤ s'.clock.toInt ∧ (r = .ok .fresh → FreshMarker K key expires s'))
      (store.directory.recordMarker store.capacity s.clock key expires).inl s := by
  by_cases hlt : expires.toInt < s.clock.toInt
  · -- an expiry in the past is an error
    rw [SecureDir.recordMarker, if_pos hlt]
    exact ⟨hs, le_rfl, fun h => by cases h⟩
  · have hsection : KeepsAnswer host True anyEntry K s.clock key expires
        (store.directory.recordMarker store.capacity s.clock key expires) s.fs :=
      safe_recordMarker (format_true host) hK hexpires store.capacity hs
    -- the operations of the directory leave the clock alone
    have hview : Safe (hostHandler host)
        (fun t => Kept anyEntry K s.clock t.fs ∧ t.clock = s.clock)
        (fun r t => Answered K s.clock key expires r t.fs)
        (store.directory.recordMarker store.capacity s.clock key expires).inl s := by
      refine Safe.inl_view hsection rfl ?_
      rintro op t x t' ht ⟨fs', hop, rfl⟩
      exact ⟨hop, ht⟩
    refine hview.mono ?_ ?_
    · rintro t ⟨hkept, hclock⟩
      unfold HostState.Keeps
      rw [hclock]
      exact hkept
    · rintro r t ⟨-, hclock⟩ hanswered
      refine ⟨(congrArg I64.toInt hclock).ge, fun hfresh => ?_⟩
      obtain ⟨hdurable, hexpired⟩ := hanswered hfresh
      refine ⟨hdurable, ?_, ?_⟩
      · rw [hclock]
        exact hexpired
      · rw [hclock]
        exact Int.not_lt.1 hlt

theorem safe_checkAndRecord_host (hclock : store.clock = hostClock)
    (hlock : store.operationLock = hostLock) (hK : ∀ k e, K k e → 0 ≤ e.toInt) {key : ReplayKey}
    {expires : I64} (hexpires : 0 ≤ expires.toInt) (hs : s.Keeps K) :
    Safe (hostHandler host) (HostState.Keeps K)
      (fun r s' => s.clock.toInt ≤ s'.clock.toInt ∧ (r = .ok .fresh → FreshMarker K key expires s'))
      (store.checkAndRecord key expires) s := by
  -- the end of every branch: the lock is given back and the answer stays
  have hrest : ∀ (r : Except DpopPortError ReplayStatus) (t : HostState), t.Keeps K →
      s.clock.toInt ≤ t.clock.toInt → (r = .ok .fresh → FreshMarker K key expires t) →
      Safe (hostHandler host) (HostState.Keeps K)
        (fun r s' => s.clock.toInt ≤ s'.clock.toInt ∧
          (r = .ok .fresh → FreshMarker K key expires s'))
        (hostLock.unlock >>= fun _ => pure r) t := by
    intro r t ht hle hfresh
    refine ⟨ht, ?_⟩
    rintro x t' rfl
    exact ⟨ht, hle, hfresh⟩
  unfold FileReplayStore.checkAndRecord
  rw [hlock, hclock]
  refine ⟨hs, ?_⟩
  rintro (x : Except DpopPortError Unit) s' rfl
  cases x with
  | error e => exact ⟨hs, le_rfl, fun h => by cases h⟩
  | ok u =>
    refine ⟨hs, ?_⟩
    rintro x t (⟨e, rfl, rfl⟩ | ⟨now, hle, rfl, rfl⟩)
    · exact hrest (.error e) _ hs le_rfl fun h => by cases h
    · have hread := hs.read hle
      apply (safe_section (s := { s' with clock := now }) hK hexpires hread).bind
      rintro r t ht ⟨hle', hfresh⟩
      exact hrest r t ht (hle.trans hle') hfresh

/-! ## The nonce of the server -/

/-- The operations of the nonces. -/
def ofNonces : processOps.Op → Prop
  | .inr .generate => True
  | .inr (.nonces _) => True
  | _ => False

theorem performs_hostNonce (cfg : HostConfig) (replay : FileReplayStore hostOps) :
    Prog.Performs ofNonces (cfg.application replay).requiredNonce := by
  have hlocked : ∀ {α β : Type} (f : NonceEntries → α × NonceEntries) (g : α → Prog processOps β),
      (∀ a, Prog.Performs ofNonces (g a)) →
        Prog.Performs ofNonces (hostNonces.locked f >>= g) := by
    intro α β f g hg
    exact ⟨trivial, fun found => hg _⟩
  unfold VerifierApplication.requiredNonce
  cases hpolicy : (cfg.application replay).noncePolicy with
  | optional => trivial
  | required context =>
    refine hlocked _ _ fun expected => ?_
    cases expected with
    | error e => trivial
    | ok found =>
      cases found with
      | some nonce => trivial
      | none =>
        -- a new nonce is generated outside of the lock and recorded under it
        apply Prog.Performs.bind
        · refine ⟨trivial, fun x => ?_⟩
          cases x with
          | error e => trivial
          | ok nonce => exact ⟨trivial, fun found => trivial⟩
        · intro issued
          cases issued with
          | error e => trivial
          | ok nonce => trivial

/-- A required nonce is there or the request is rejected. -/
theorem returns_hostNonce (cfg : HostConfig) (replay : FileReplayStore hostOps) :
    Prog.Returns (fun r => ∀ context, cfg.noncePolicy = .required context → r ≠ .ok none)
      (cfg.application replay).requiredNonce := by
  unfold VerifierApplication.requiredNonce
  cases hpolicy : (cfg.application replay).noncePolicy with
  | optional =>
    intro context h
    cases h.symm.trans hpolicy
  | required context =>
    apply Prog.Returns.bind (Prog.returns_true _)
    intro expected _
    cases expected with
    | error e => exact fun _ _ h => by cases h
    | ok found =>
      cases found with
      | some nonce => exact fun _ _ h => by cases h
      | none =>
        apply Prog.Returns.bind (Prog.returns_true _)
        intro issued _
        cases issued with
        | error e => exact fun _ _ h => by cases h
        | ok nonce => exact fun _ _ h => by cases h

theorem safe_hostNonce (cfg : HostConfig) (replay : FileReplayStore hostOps) (hs : s.Keeps K) :
    Safe (hostHandler host) (HostState.Keeps K)
      (fun r s' => s.SameFiles s' ∧ ∀ context, cfg.noncePolicy = .required context → r ≠ .ok none)
      (cfg.application replay).requiredNonce s := by
  have hsame : Safe (hostHandler host) (HostState.SameFiles s) (fun _ _ => True)
      (cfg.application replay).requiredNonce s := by
    refine Safe.of_performs ?_ (performs_hostNonce cfg replay) ⟨rfl, rfl⟩
    intro op t x t' hop ht hx
    cases op with
    | inl op => exact hop.elim
    | inr op =>
      cases op with
      | unixSeconds => exact hop.elim
      | lock => exact hop.elim
      | unlock => exact hop.elim
      | generate =>
        cases hx
        exact ht
      | nonces f =>
        obtain ⟨-, rfl⟩ := hx
        exact ⟨ht.fs, ht.clock⟩
  refine (hsame.and_returns (returns_hostNonce cfg replay)).mono
    (fun _ h => h.keeps hs) ?_
  rintro r t ht ⟨-, hreturns⟩
  exact ⟨ht, hreturns⟩

/-! ## One request -/

variable {crypto : Crypto} {json : JsonText}

/-- What a verified request was checked for: its proof, the request that the proof was verified for,
the time, and what the replay store was asked. -/
structure VerifiedFor (json : JsonText) (request : VerifierRequest)
    (proof : UnverifiedDpopProof crypto) (value : DpopRequest) (now : I64) (asked : ReplayRequest) :
    Prop where
  parsed : UnverifiedDpopProof.parse crypto json request.dpopProof = .ok proof
  method : value.method = request.method
  target : EffectiveRequestTarget.parse request.target = .ok value.target
  token : value.accessToken = some request.accessToken
  binding : BindingAccepted proof value
  claims : ClaimsAccepted .default proof value now asked
  confirmation : request.confirmationJkt = some proof.publicJwk.thumbprint.toBase64url

theorem VerifiedFor.nonneg {request : VerifierRequest} {proof : UnverifiedDpopProof crypto}
    {value : DpopRequest} {now : I64} {asked : ReplayRequest}
    (h : VerifiedFor json request proof value now asked) : 0 ≤ asked.expiresAtUnix.toInt := by
  have hpos := h.claims.issuedAt
  have hexpires := h.claims.expires
  omega

variable (crypto json) in
/-- What a verified result says in the state after the request. -/
def VerifiedIn (cfg : HostConfig) (K : Markers) (request : VerifierRequest)
    (result : VerifierResult) (s : HostState) : Prop :=
  (∃ version binding, result = .verified version binding) →
    ∃ (proof : UnverifiedDpopProof crypto) (value : DpopRequest) (now : I64)
      (asked : ReplayRequest), VerifiedFor json request proof value now asked ∧
        (∀ context, cfg.noncePolicy = .required context → value.nonce ≠ none) ∧
        now.toInt ≤ s.clock.toInt ∧ FreshMarker K asked.key asked.expiresAtUnix s

variable {cfg : HostConfig} {request : VerifierRequest}

theorem verifiedIn_rejected {version : Nat} {failure : FailureClass} {nonce : Option Bytes} :
    VerifiedIn crypto json cfg K request (.rejected version failure nonce) s := by
  rintro ⟨version, binding, h⟩
  cases h

/-- The proof is verified against the request, the clock and the store. -/
theorem safe_dpopVerify (hclock : store.clock = hostClock) (hlock : store.operationLock = hostLock)
    (hK : ∀ k e, K k e → 0 ≤ e.toInt) (proof : UnverifiedDpopProof crypto) (value : DpopRequest)
    (hs : s.Keeps K) :
    Safe (hostHandler host) (HostState.Keeps K)
      (fun r s' => ∀ v, r = .ok v →
        ∃ now asked, BindingAccepted proof value ∧ ClaimsAccepted .default proof value now asked ∧
          v.keyThumbprint = proof.publicJwk.thumbprint ∧ now.toInt ≤ s'.clock.toInt ∧
            FreshMarker K asked.key asked.expiresAtUnix s')
      (DpopVerifier.verify
        ⟨(cfg.application store).clock, (cfg.application store).verificationPolicy⟩
        proof value (cfg.application store).replayStore) s := by
  unfold DpopVerifier.verify
  cases hbind : verifyBinding proof value with
  | error e => exact ⟨hs, fun v h => by cases h⟩
  | ok u =>
    apply Safe.of_bind
    apply safe_hostClock hs
    · exact fun e => ⟨hs, fun v h => by cases h⟩
    · intro now hle
      have hread := hs.read hle
      cases hclaims : verifyClaims (cfg.application store).verificationPolicy proof value now with
      | error e =>
        simp only [hclaims]
        exact ⟨hread, fun v h => by cases h⟩
      | ok r =>
        obtain ⟨hashVerified, asked⟩ := r
        obtain ⟨haccepted, -⟩ := verifyClaims_eq_ok_iff.1 hclaims
        have hexpires : 0 ≤ asked.expiresAtUnix.toInt := by
          have hpos := haccepted.issuedAt
          rw [haccepted.expires]
          omega
        simp only [hclaims]
        apply (safe_checkAndRecord_host hclock hlock hK hexpires hread).bind
        rintro answer t ht ⟨hle', hfresh⟩
        refine ⟨ht, fun v hv => ?_⟩
        obtain ⟨hanswer, rfl⟩ := verifyReplay_eq_ok_iff.1 hv
        exact ⟨now, asked, verifyBinding_eq_ok_iff.1 hbind, haccepted, rfl, hle', hfresh hanswer⟩

/-- The checks after the nonce of the server is known. -/
theorem safe_hostVerifyWithNonce (hclock : store.clock = hostClock)
    (hlock : store.operationLock = hostLock) (hK : ∀ k e, K k e → 0 ≤ e.toInt)
    {target : EffectiveRequestTarget}
    (htarget : EffectiveRequestTarget.parse request.target = .ok target) {nonce : Option DpopNonce}
    (hnonce : ∀ context, cfg.noncePolicy = .required context → nonce ≠ none) (hs : s.Keeps K) :
    Safe (hostHandler host) (HostState.Keeps K) (VerifiedIn crypto json cfg K request)
      (VerifierApplication.verifyWithNonce crypto json (cfg.application store) request target nonce)
      s := by
  unfold VerifierApplication.verifyWithNonce
  cases hnew : DpopRequest.new request.method target with
  | error e => exact ⟨hs, verifiedIn_rejected⟩
  | ok base =>
    cases hheader : parseDpopHeaderValues crypto json [request.dpopProof] with
    | error e => exact ⟨hs, verifiedIn_rejected⟩
    | ok proof =>
      obtain ⟨-, hparse⟩ :=
        (VerifierApplication.parseDpopHeaderValues_single_iff crypto json).1 hheader
      obtain ⟨hmethod, htarget', htoken, hvalue⟩ :=
        VerifierApplication.dpopRequest_eq request.accessToken nonce hnew
      apply (safe_dpopVerify hclock hlock hK proof _ hs).bind
      intro r t ht hr
      cases r with
      | error e => exact ⟨ht, verifiedIn_rejected⟩
      | ok v =>
        obtain ⟨now, asked, hbind, hclaims, hkey, hle, hfresh⟩ := hr v rfl
        refine ⟨ht, fun hverified => ?_⟩
        obtain ⟨-, hconf⟩ :=
          (VerifierApplication.composeResult_verified_iff crypto request v).1 hverified
        refine ⟨proof, VerifierApplication.dpopRequest base request.accessToken nonce, now,
          asked, ?_, ?_, hle, hfresh⟩
        · exact ⟨hparse, hmethod, htarget' ▸ htarget, htoken, hbind, hclaims, hkey ▸ hconf⟩
        · rw [hvalue]
          exact hnonce

/-- **Every state of a request keeps the markers, and a verified request leaves a new one.** -/
theorem safe_hostVerify (hclock : store.clock = hostClock) (hlock : store.operationLock = hostLock)
    (hK : ∀ k e, K k e → 0 ≤ e.toInt) (hs : s.Keeps K) :
    Safe (hostHandler host) (HostState.Keeps K) (VerifiedIn crypto json cfg K request)
      ((cfg.application store).verify crypto json request) s := by
  unfold VerifierApplication.verify
  split
  · exact ⟨hs, verifiedIn_rejected⟩
  split
  · exact ⟨hs, verifiedIn_rejected⟩
  cases htarget : EffectiveRequestTarget.parse request.target with
  | error e => exact ⟨hs, verifiedIn_rejected⟩
  | ok target =>
    apply (safe_hostNonce cfg store hs).bind
    rintro r t ht ⟨-, hnonce⟩
    cases r with
    | error failure => exact ⟨ht, verifiedIn_rejected⟩
    | ok nonce =>
      refine safe_hostVerifyWithNonce hclock hlock hK htarget ?_ ht
      rintro context hpolicy rfl
      exact hnonce context hpolicy rfl

end Requests

end Keylix.Verifier

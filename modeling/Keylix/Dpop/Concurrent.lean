import Keylix.Dpop.Agreement
import Keylix.Dpop.ReplayMemory

/-!
# Concurrent verification over the process-local store

Any number of verifications share one policy and one `InMemoryReplayStore`. A step is one clock
reading or one section under the lock of the store, of one call; the readings never decrease. The
shared state keeps, beside the markers, what a run did: the last reading of each call and the
readings that sections swept the markers with.

The store reads its clock before it takes the lock, so a section can run after another section
swept the markers with a later reading. `atMostOnce_of_timely` is at-most-once acceptance for the
runs in which no section runs after its expiry was swept past.
-/

set_option autoImplicit false

namespace Keylix.Dpop

open Keylix.Lib Keylix.Core
open Keylix.Lib.Prog (PoolStep Pool)

/-! ## The system -/

/-- The operation of the clock of the process. -/
inductive ClockOp where
  | unixSeconds

def clockOps : Signature := ⟨ClockOp, fun _ => Except DpopPortError I64⟩

/-- The operations of the process: the clock, and the lock of the markers. -/
abbrev memOps : Signature := clockOps.sum replayOps

def memClock : Clock memOps := ⟨Prog.perform (S := memOps) (.inl .unixSeconds)⟩

/-- The store of the process. -/
def memStore (capacity : Nat) (h : capacity ≠ 0) : InMemoryReplayStore memOps where
  clock := memClock
  capacity := capacity
  entries := ⟨fun f => Prog.perform (S := memOps) (.inr (.update f))⟩
  capacity_ne := h

/-- The shared state of a run of the calls `ι`. -/
structure MemState (ι : Type) where
  entries : ReplayEntries
  /-- The last reading of any call. -/
  clock : I64
  /-- The last reading of each call. -/
  lastRead : ι → Option I64
  /-- The readings that sections swept the markers with. -/
  swept : List I64

section System

variable {ι : Type} [DecidableEq ι]

/-- The state after a reading. -/
def MemState.read (s : MemState ι) (i : ι) (t : I64) : MemState ι :=
  { s with clock := t, lastRead := Function.update s.lastRead i (some t) }

omit [DecidableEq ι] in
/-- The state after a section, which sweeps with the last reading of its call. -/
def MemState.section (s : MemState ι) (i : ι) (f : ReplayEntries → ReplayEntries) : MemState ι :=
  { s with entries := f s.entries, swept := (s.lastRead i).toList ++ s.swept }

/-- One operation of the call `i`. A reading is not below any earlier one, or fails. -/
def memHandler (i : ι) : Prog.Handler memOps (MemState ι)
  | .inl .unixSeconds, s, x, s' =>
      (∃ e, x = .error e ∧ s' = s) ∨
        ∃ t : I64, s.clock.toInt ≤ t.toInt ∧ x = .ok t ∧ s' = s.read i t
  | .inr (.update f), s, x, s' => x = s.entries ∧ s' = s.section i f

variable {crypto : Crypto}

/-- A call: the proof and the request it is verified for. -/
structure VerifyCall (crypto : Crypto) where
  proof : UnverifiedDpopProof crypto
  request : DpopRequest

namespace VerifyCall

/-- The same proof in the same replay scope. -/
structure SameProof (a b : VerifyCall crypto) : Prop where
  thumbprint : a.proof.publicJwk.thumbprint = b.proof.publicJwk.thumbprint
  method : a.request.method = b.request.method
  target : a.request.target = b.request.target
  jti : a.proof.claims.jti = b.proof.claims.jti
  iat : a.proof.claims.iat = b.proof.claims.iat

theorem SameProof.symm {a b : VerifyCall crypto} (h : a.SameProof b) : b.SameProof a :=
  ⟨h.thumbprint.symm, h.method.symm, h.target.symm, h.jti.symm, h.iat.symm⟩

/-- The expiry of the marker of a call. -/
def expiry (policy : VerificationPolicy) (call : VerifyCall crypto) : Int :=
  call.proof.claims.iat.toInt + policy.maxProofAgeSeconds

/-- What the replay store is asked by a call. -/
structure Asks (policy : VerificationPolicy) (call : VerifyCall crypto) (asked : ReplayRequest) :
    Prop where
  key : deriveReplayKey crypto call.proof.publicJwk.thumbprint call.request.method
    call.request.target call.proof.claims.jti = .ok asked.key
  expires : asked.expiresAtUnix.toInt = call.expiry policy

end VerifyCall

/-- A section of a call runs before its expiry was swept past. -/
def timelyHandler (policy : VerificationPolicy) (calls : ι → VerifyCall crypto) (i : ι) :
    Prog.Handler memOps (MemState ι)
  | .inl .unixSeconds, s, x, s' => memHandler i (.inl .unixSeconds) s x s'
  | .inr (.update f), s, x, s' =>
      memHandler i (.inr (.update f)) s x s' ∧ ∀ t ∈ s.swept, t.toInt ≤ (calls i).expiry policy

/-- The program of a call. -/
def callProgram (policy : VerificationPolicy) {capacity : Nat} (hcap : capacity ≠ 0)
    (call : VerifyCall crypto) : Prog memOps (Except DpopError VerifiedDpopProof) :=
  DpopVerifier.verify ⟨memClock, policy⟩ call.proof call.request
    (memStore capacity hcap).replayStore

/-- Every call at its start, the store empty. -/
def initial (policy : VerificationPolicy) {capacity : Nat} (hcap : capacity ≠ 0)
    (calls : ι → VerifyCall crypto) (start : I64) :
    Pool ι memOps (Except DpopError VerifiedDpopProof) (MemState ι) where
  thread i := some (callProgram policy hcap (calls i))
  shared := ⟨.empty, start, fun _ => none, []⟩

/-- In every state that a run reaches, no two calls have accepted the same proof. -/
def AtMostOnce (H : ι → Prog.Handler memOps (MemState ι)) (policy : VerificationPolicy)
    {capacity : Nat} (hcap : capacity ≠ 0) (calls : ι → VerifyCall crypto) (start : I64) : Prop :=
  ∀ c, Relation.ReflTransGen (PoolStep H) (initial policy hcap calls start) c →
    ∀ i j v w, i ≠ j → (calls i).SameProof (calls j) →
      c.thread i = some (.ret (.ok v)) → c.thread j = some (.ret (.ok w)) → False

/-! ## Where a call stands -/

section Stages

variable (policy : VerificationPolicy) (capacity : Nat) (call : VerifyCall crypto)

/-- The rest of a call after the store read its clock. -/
def recordStage (hashVerified : Bool) (asked : ReplayRequest) :
    Except DpopPortError I64 → Prog memOps (Except DpopError VerifiedDpopProof)
  | .error e => .ret (verifyReplay call.proof call.request hashVerified (.error e))
  | .ok now =>
      if asked.expiresAtUnix.toInt < now.toInt then
        .ret (verifyReplay call.proof call.request hashVerified (.error .mk))
      else
        .call (S := memOps)
          (.inr (.update fun m => (recordEntry capacity now asked.key asked.expiresAtUnix m).2))
          fun m => .ret (verifyReplay call.proof call.request hashVerified
            (recordEntry capacity now asked.key asked.expiresAtUnix m).1)

/-- The rest of a call after the verifier read its clock. -/
def claimsStage : Except DpopPortError I64 → Prog memOps (Except DpopError VerifiedDpopProof)
  | .error _ => .ret (.error .clockUnavailable)
  | .ok now =>
      match verifyClaims policy call.proof call.request now with
      | .error e => .ret (.error e)
      | .ok (hashVerified, asked) =>
          .call (S := memOps) (.inl .unixSeconds) (recordStage capacity call hashVerified asked)

theorem callProgram_eq {capacity : Nat} (hcap : capacity ≠ 0) :
    callProgram policy hcap call =
      match verifyBinding call.proof call.request with
      | .error e => .ret (.error e)
      | .ok () => .call (S := memOps) (.inl .unixSeconds) (claimsStage policy capacity call) := by
  unfold callProgram DpopVerifier.verify
  cases verifyBinding call.proof call.request with
  | error e => rfl
  | ok u =>
    refine congrArg (Prog.call (S := memOps) (.inl .unixSeconds)) (funext fun x => ?_)
    cases x with
    | error e => rfl
    | ok now =>
      simp only [claimsStage, Prog.bind]
      cases verifyClaims policy call.proof call.request now with
      | error e => rfl
      | ok r =>
        obtain ⟨hashVerified, asked⟩ := r
        refine congrArg (Prog.call (S := memOps) (.inl .unixSeconds)) (funext fun x => ?_)
        cases x with
        | error e => rfl
        | ok now =>
          simp only [recordStage, memStore, Prog.bind]
          split
          · rfl
          · rfl

/-- A call between two of its operations, with its last reading. -/
inductive Stage : Option I64 → Prog memOps (Except DpopError VerifiedDpopProof) → Prop where
  | clock (r : Option I64) :
      Stage r (.call (S := memOps) (.inl .unixSeconds) (claimsStage policy capacity call))
  | store (r : Option I64) {hashVerified : Bool} {asked : ReplayRequest}
      (h : call.Asks policy asked) :
      Stage r (.call (S := memOps) (.inl .unixSeconds)
        (recordStage capacity call hashVerified asked))
  | record {now : I64} {hashVerified : Bool} {asked : ReplayRequest} (h : call.Asks policy asked)
      (hle : now.toInt ≤ asked.expiresAtUnix.toInt) :
      Stage (some now) (.call (S := memOps)
        (.inr (.update fun m => (recordEntry capacity now asked.key asked.expiresAtUnix m).2))
        fun m => .ret (verifyReplay call.proof call.request hashVerified
          (recordEntry capacity now asked.key asked.expiresAtUnix m).1))
  | rejected (r : Option I64) (e : DpopError) : Stage r (.ret (.error e))
  | accepted (r : Option I64) (v : VerifiedDpopProof) : Stage r (.ret (.ok v))

variable {policy capacity call}

theorem stage_callProgram {capacity : Nat} (hcap : capacity ≠ 0) :
    Stage policy capacity call none (callProgram policy hcap call) := by
  rw [callProgram_eq]
  split
  · exact .rejected none _
  · exact .clock none

/-- After the clock of the verifier, a call is rejected or asks the store. -/
theorem stage_claimsStage (policy : VerificationPolicy) (capacity : Nat) (call : VerifyCall crypto)
    (r : Option I64) (x : Except DpopPortError I64) :
    Stage policy capacity call r (claimsStage policy capacity call x) ∧
      ∀ v, claimsStage policy capacity call x ≠ .ret (.ok v) := by
  cases x with
  | error e => exact ⟨.rejected r _, by simp [claimsStage]⟩
  | ok now =>
    simp only [claimsStage]
    split
    · exact ⟨.rejected r _, by simp⟩
    · next hashVerified asked hclaims =>
      obtain ⟨haccepted, -⟩ := verifyClaims_eq_ok_iff.1 hclaims
      exact ⟨.store r ⟨haccepted.key, haccepted.expires⟩, by simp⟩

/-- After the clock of the store, a call is rejected or enters its section. -/
theorem stage_recordStage (capacity : Nat) {asked : ReplayRequest} (h : call.Asks policy asked)
    (hashVerified : Bool) (r : Option I64) (x : Except DpopPortError I64)
    (hr : ∀ t, x = .ok t → r = some t) :
    Stage policy capacity call r (recordStage capacity call hashVerified asked x) ∧
      ∀ v, recordStage capacity call hashVerified asked x ≠ .ret (.ok v) := by
  cases x with
  | error e => exact ⟨.rejected r _, by simp [recordStage, verifyReplay]⟩
  | ok now =>
    simp only [recordStage]
    split
    · exact ⟨.rejected r _, by simp [verifyReplay]⟩
    · next hle =>
      rw [hr now rfl]
      exact ⟨.record h (by omega), by simp⟩

end Stages

/-! ## Runs -/

section Runs

variable {policy : VerificationPolicy} {capacity : Nat} {calls : ι → VerifyCall crypto}

/-- The two calls ask the store the same. -/
theorem VerifyCall.SameProof.asks_eq {a b : VerifyCall crypto} (h : a.SameProof b)
    {asked asked' : ReplayRequest} (ha : a.Asks policy asked) (hb : b.Asks policy asked') :
    asked = asked' := by
  have hkey := ha.key
  rw [h.thumbprint, h.method, h.target, h.jti, hb.key] at hkey
  have hexpires : asked.expiresAtUnix = asked'.expiresAtUnix := by
    apply I64.ext_toInt
    rw [ha.expires, hb.expires, VerifyCall.expiry, VerifyCall.expiry, h.iat]
  cases asked
  cases asked'
  cases hkey
  cases hexpires
  rfl

/-- The marker of an accepted call is in the store, or its expiry was swept past. -/
def Marked (s : MemState ι) (asked : ReplayRequest) : Prop :=
  s.entries.lookup asked.key = some asked.expiresAtUnix ∨
    ∃ t ∈ s.swept, asked.expiresAtUnix.toInt < t.toInt

/-- What holds in every state of a run. -/
structure RunInv (policy : VerificationPolicy) (capacity : Nat) (calls : ι → VerifyCall crypto)
    (c : Pool ι memOps (Except DpopError VerifiedDpopProof) (MemState ι)) : Prop where
  stage : ∀ i, ∃ p, c.thread i = some p ∧
    Stage policy capacity (calls i) (c.shared.lastRead i) p
  marked : ∀ i v, c.thread i = some (.ret (.ok v)) →
    ∃ asked, (calls i).Asks policy asked ∧ Marked c.shared asked
  once : ∀ i j v w, i ≠ j → (calls i).SameProof (calls j) →
    c.thread i = some (.ret (.ok v)) → c.thread j = some (.ret (.ok w)) → False

omit [DecidableEq ι] in
theorem runInv_initial {hcap : capacity ≠ 0} {start : I64} :
    RunInv policy capacity calls (initial policy hcap calls start) := by
  -- no call starts accepted
  have hstart : ∀ i v, (initial policy hcap calls start).thread i ≠ some (.ret (.ok v)) := by
    intro i v h
    have hprogram := Option.some.inj h
    rw [callProgram_eq] at hprogram
    split at hprogram
    · cases hprogram
    · cases hprogram
  refine ⟨?_, ?_, ?_⟩
  · intro i
    exact ⟨_, rfl, stage_callProgram hcap⟩
  · intro i v h
    exact absurd h (hstart i v)
  · intro i j v w _ _ h _
    exact hstart i v h

variable {c : Pool ι memOps (Except DpopError VerifiedDpopProof) (MemState ι)} {i : ι}
  {s' : MemState ι}

/-- The stages after a step of the call `i`. -/
theorem RunInv.stage_set (hc : RunInv policy capacity calls c)
    {p : Prog memOps (Except DpopError VerifiedDpopProof)}
    (hp : Stage policy capacity (calls i) (s'.lastRead i) p)
    (hlast : ∀ j, j ≠ i → s'.lastRead j = c.shared.lastRead j) (j : ι) :
    ∃ q, (c.set i p s').thread j = some q ∧
      Stage policy capacity (calls j) (s'.lastRead j) q := by
  by_cases hj : j = i
  · subst hj
    exact ⟨p, c.set_thread_self j p s', hp⟩
  · obtain ⟨q, hq, hstage⟩ := hc.stage j
    rw [Pool.set_thread_of_ne hj, hlast j hj]
    exact ⟨q, hq, hstage⟩

/-- A step that neither accepts nor touches the markers. -/
theorem RunInv.quiet (hc : RunInv policy capacity calls c)
    {p : Prog memOps (Except DpopError VerifiedDpopProof)}
    (hp : Stage policy capacity (calls i) (s'.lastRead i) p) (hno : ∀ v, p ≠ .ret (.ok v))
    (hlast : ∀ j, j ≠ i → s'.lastRead j = c.shared.lastRead j)
    (hentries : s'.entries = c.shared.entries) (hswept : s'.swept = c.shared.swept) :
    RunInv policy capacity calls (c.set i p s') := by
  have hother : ∀ j v, (c.set i p s').thread j = some (.ret (.ok v)) →
      c.thread j = some (.ret (.ok v)) := by
    intro j v h
    by_cases hj : j = i
    · subst hj
      rw [Pool.set_thread_self] at h
      exact absurd (Option.some.inj h) (hno v)
    · rwa [Pool.set_thread_of_ne hj] at h
  refine ⟨hc.stage_set hp hlast, ?_, ?_⟩
  · intro j v h
    obtain ⟨asked, hasked, hmarked⟩ := hc.marked j v (hother j v h)
    refine ⟨asked, hasked, ?_⟩
    rw [Pool.set_shared, Marked, hentries, hswept]
    exact hmarked
  · intro j j' v w hne hsame h h'
    exact hc.once j j' v w hne hsame (hother j v h) (hother j' w h')

omit [DecidableEq ι] in
/-- Every marker of a call survives a section or is swept past by it. -/
theorem Marked.section {s : MemState ι} {now : I64} {key : ReplayKey} {expires : I64}
    (hentries : s'.entries = (recordEntry capacity now key expires s.entries).2)
    (hswept : s'.swept = now :: s.swept) {asked : ReplayRequest} (h : Marked s asked) :
    Marked s' asked := by
  unfold Marked
  rw [hentries, hswept]
  rcases h with hlookup | ⟨t, ht, hlt⟩
  · by_cases hle : now.toInt ≤ asked.expiresAtUnix.toInt
    · exact Or.inl (lookup_recordEntry hlookup hle)
    · exact Or.inr ⟨now, List.mem_cons_self, by omega⟩
  · exact Or.inr ⟨t, List.mem_cons_of_mem _ ht, hlt⟩

/-- A section that runs before its expiry was swept past. -/
theorem RunInv.record (hc : RunInv policy capacity calls c) {now : I64} {asked : ReplayRequest}
    (hasked : (calls i).Asks policy asked) (hle : now.toInt ≤ asked.expiresAtUnix.toInt)
    (htimely : ∀ t ∈ c.shared.swept, t.toInt ≤ (calls i).expiry policy)
    (hlast : s'.lastRead = c.shared.lastRead)
    (hentries : s'.entries =
      (recordEntry capacity now asked.key asked.expiresAtUnix c.shared.entries).2)
    (hswept : s'.swept = now :: c.shared.swept) {r : Except DpopError VerifiedDpopProof}
    (hfresh : ∀ v, r = .ok v →
      (recordEntry capacity now asked.key asked.expiresAtUnix c.shared.entries).1 = .ok .fresh) :
    RunInv policy capacity calls (c.set i (.ret r) s') := by
  -- no other call has accepted the same proof before
  have hfirst : ∀ j w v, (calls i).SameProof (calls j) → c.thread j = some (.ret (.ok w)) →
      r = .ok v → False := by
    intro j w v hsame hj hv
    obtain ⟨asked', hasked', hmarked⟩ := hc.marked j w hj
    obtain rfl := hsame.asks_eq hasked hasked'
    rcases hmarked with hlookup | ⟨t, ht, hlt⟩
    · have := (recordEntry_fresh (hfresh v hv)).1 _ hlookup
      omega
    · have := htimely t ht
      rw [← hasked.expires] at this
      omega
  have hstage : Stage policy capacity (calls i) (s'.lastRead i) (.ret r) := by
    cases r with
    | error e => exact .rejected _ e
    | ok v => exact .accepted _ v
  refine ⟨hc.stage_set hstage fun j _ => by rw [hlast], ?_, ?_⟩
  · intro j v h
    by_cases hj : j = i
    · subst hj
      rw [Pool.set_thread_self] at h
      have hanswer := hfresh v (Prog.ret.inj (Option.some.inj h))
      refine ⟨asked, hasked, Or.inl ?_⟩
      rw [Pool.set_shared, hentries]
      exact (recordEntry_fresh hanswer).2
    · rw [Pool.set_thread_of_ne hj] at h
      obtain ⟨asked', hasked', hmarked⟩ := hc.marked j v h
      exact ⟨asked', hasked', hmarked.section hentries hswept⟩
  · intro j j' v w hne hsame h h'
    by_cases hj : j = i
    · subst hj
      rw [Pool.set_thread_self] at h
      rw [Pool.set_thread_of_ne hne.symm] at h'
      exact hfirst j' w v hsame h' (Prog.ret.inj (Option.some.inj h))
    · rw [Pool.set_thread_of_ne hj] at h
      by_cases hj' : j' = i
      · subst hj'
        rw [Pool.set_thread_self] at h'
        exact hfirst j v w hsame.symm h (Prog.ret.inj (Option.some.inj h'))
      · rw [Pool.set_thread_of_ne hj'] at h'
        exact hc.once j j' v w hne hsame h h'

/-- A reading touches the clock of its call and nothing else. -/
theorem memHandler_reading {s : MemState ι} {x : Except DpopPortError I64}
    (h : memHandler i (.inl .unixSeconds) s x s') :
    (∀ t, x = .ok t → s'.lastRead i = some t) ∧ (∀ j, j ≠ i → s'.lastRead j = s.lastRead j) ∧
      s'.entries = s.entries ∧ s'.swept = s.swept := by
  rcases h with ⟨e, rfl, rfl⟩ | ⟨t, -, rfl, rfl⟩
  · refine ⟨?_, fun j _ => rfl, rfl, rfl⟩
    intro t ht
    cases ht
  · refine ⟨?_, ?_, rfl, rfl⟩
    · intro t' ht
      cases ht
      exact Function.update_self _ _ _
    · intro j hj
      exact Function.update_of_ne hj _ _

/-- One operation of a run keeps the invariant. -/
theorem RunInv.step {d : Pool ι memOps (Except DpopError VerifiedDpopProof) (MemState ι)}
    (hc : RunInv policy capacity calls c)
    (hstep : PoolStep (timelyHandler policy calls) c d) : RunInv policy capacity calls d := by
  cases hstep with
  | @call s' i op k x hi hop =>
    obtain ⟨p, hp, hstage⟩ := hc.stage i
    rw [hi] at hp
    generalize hr : c.shared.lastRead i = r at hstage
    cases hstage with
    | clock r =>
      cases hp
      obtain ⟨-, hlast, hentries, hswept⟩ := memHandler_reading hop
      obtain ⟨hnext, hno⟩ := stage_claimsStage policy capacity (calls i) (s'.lastRead i) x
      exact hc.quiet hnext hno hlast hentries hswept
    | store r hasked =>
      cases hp
      obtain ⟨hread, hlast, hentries, hswept⟩ := memHandler_reading hop
      obtain ⟨hnext, hno⟩ := stage_recordStage capacity hasked _ (s'.lastRead i) x hread
      exact hc.quiet hnext hno hlast hentries hswept
    | @record now _ asked hasked hle =>
      cases hp
      obtain ⟨⟨rfl, hs⟩, htimely⟩ := hop
      refine hc.record hasked hle htimely (by rw [hs]; rfl) (by rw [hs]; rfl) ?_ ?_
      · rw [hs, MemState.section, hr]
        rfl
      · intro v hv
        exact (verifyReplay_eq_ok_iff.1 hv).1
    | rejected r e => cases hp
    | accepted r v => cases hp

/-- **At most one call accepts a proof, in every run in which no section runs after its expiry was
swept past.** -/
theorem atMostOnce_of_timely (policy : VerificationPolicy) {capacity : Nat} (hcap : capacity ≠ 0)
    (calls : ι → VerifyCall crypto) (start : I64) :
    AtMostOnce (timelyHandler policy calls) policy hcap calls start := by
  intro c hrun
  have hinv : RunInv policy capacity calls c := by
    induction hrun with
    | refl => exact runInv_initial
    | tail _ hstep ih => exact ih.step hstep
  exact hinv.once

end Runs

end System

/-! ## Schedules -/

section Schedules

variable {ι : Type} [DecidableEq ι] {crypto : Crypto} {policy : VerificationPolicy} {capacity : Nat}
  {calls : ι → VerifyCall crypto} {H : ι → Prog.Handler memOps (MemState ι)}
  {c : Pool ι memOps (Except DpopError VerifiedDpopProof) (MemState ι)} {i : ι}

/-- A call can read both clocks at one time and stand before its section. -/
theorem exists_reads
    (hread : ∀ s x s', memHandler i (.inl .unixSeconds) s x s' → H i (.inl .unixSeconds) s x s')
    {t : I64} {hashVerified : Bool} {asked : ReplayRequest}
    (hi : c.thread i =
      some (.call (S := memOps) (.inl .unixSeconds) (claimsStage policy capacity (calls i))))
    (ht : c.shared.clock.toInt ≤ t.toInt)
    (hclaims : verifyClaims policy (calls i).proof (calls i).request t =
      .ok (hashVerified, asked)) :
    ∃ d, Relation.ReflTransGen (PoolStep H) c d ∧
      d.thread i = some (recordStage capacity (calls i) hashVerified asked (.ok t)) ∧
      (∀ j, j ≠ i → d.thread j = c.thread j) ∧ d.shared = (c.shared.read i t).read i t := by
  have hfirst : PoolStep H c (c.set i (claimsStage policy capacity (calls i) (.ok t))
      (c.shared.read i t)) :=
    .call i hi (hread _ _ _ (Or.inr ⟨t, ht, rfl, rfl⟩))
  simp only [claimsStage, hclaims] at hfirst
  have hsecond : memHandler i (.inl .unixSeconds) (c.shared.read i t) (.ok t)
      ((c.shared.read i t).read i t) := Or.inr ⟨t, Int.le_refl _, rfl, rfl⟩
  refine ⟨_, (Relation.ReflTransGen.single hfirst).tail
    (.call i (Pool.set_thread_self _ i _ _) (hread _ _ _ hsecond)), ?_, ?_, rfl⟩
  · exact Pool.set_thread_self _ i _ _
  · intro j hj
    rw [Pool.set_thread_of_ne hj, Pool.set_thread_of_ne hj]

/-- A call that stands before its section can run it. -/
theorem exists_section {now : I64} {hashVerified : Bool} {asked : ReplayRequest}
    (hi : c.thread i = some (recordStage capacity (calls i) hashVerified asked (.ok now)))
    (hle : now.toInt ≤ asked.expiresAtUnix.toInt)
    (hop : ∀ f, H i (.inr (.update f)) c.shared c.shared.entries (c.shared.section i f)) :
    ∃ d, Relation.ReflTransGen (PoolStep H) c d ∧
      d.thread i = some (.ret (verifyReplay (calls i).proof (calls i).request hashVerified
        (recordEntry capacity now asked.key asked.expiresAtUnix c.shared.entries).1)) ∧
      (∀ j, j ≠ i → d.thread j = c.thread j) ∧
      d.shared = c.shared.section i fun m =>
        (recordEntry capacity now asked.key asked.expiresAtUnix m).2 := by
  rw [recordStage, if_neg (by omega)] at hi
  refine ⟨_, .single (.call i hi (hop _)), Pool.set_thread_self _ i _ _, ?_, rfl⟩
  intro j hj
  exact Pool.set_thread_of_ne hj _ _ _

end Schedules

/-! ## A race at the expiry -/

section Race

/-- The proof of a request without token and nonce. -/
def proofAt (proofId : ProofId) (issuedAt : I64) : UnverifiedDpopProof permissiveCrypto :=
  parsedProof sampleJwk (requestClaims permissiveCrypto sampleRequest issuedAt proofId)
    (List.replicate 64 0)

def otherProofId : ProofId where
  value := ⟨ascii "other", isUtf8_of_isAscii (by decide)⟩
  ne_nil := by decide
  length_le := by decide

/-- The last second of the first proof under the default policy. -/
def lastSecond : I64 := ⟨1300, by norm_num, by norm_num⟩

/-- The second after it. -/
def nextSecond : I64 := ⟨1301, by norm_num, by norm_num⟩

/-- The last second of a proof made at `lastSecond`. -/
def laterSecond : I64 := ⟨1600, by norm_num, by norm_num⟩

/-- Two calls with the same proof, and one with a later proof. -/
def raceCalls : Fin 3 → VerifyCall permissiveCrypto
  | 0 => ⟨proofAt sampleProofId sampleTime, sampleRequest⟩
  | 1 => ⟨proofAt sampleProofId sampleTime, sampleRequest⟩
  | 2 => ⟨proofAt otherProofId lastSecond, sampleRequest⟩

def raceKey (proofId : ProofId) : ReplayKey :=
  ⟨permissiveCrypto.sha256 ((replayMaterial [sampleJwk.thumbprint.bytes.1, sampleRequest.method,
    sampleRequest.target.asStr, proofId.asStr]).toOption.getD [])⟩

/-- What the three calls ask the store. -/
def raceAsked : Fin 3 → ReplayRequest
  | 0 => ⟨raceKey sampleProofId, lastSecond⟩
  | 1 => ⟨raceKey sampleProofId, lastSecond⟩
  | 2 => ⟨raceKey otherProofId, laterSecond⟩

def raceReading : Fin 3 → I64
  | 0 => lastSecond
  | 1 => lastSecond
  | 2 => nextSecond

theorem verifyClaims_race : ∀ i, verifyClaims .default (raceCalls i).proof (raceCalls i).request
    (raceReading i) = .ok (false, raceAsked i) := by
  decide +kernel

theorem thread_initial_race (i : Fin 3) :
    (initial .default (by decide : 4 ≠ 0) raceCalls lastSecond).thread i =
      some (.call (S := memOps) (.inl .unixSeconds) (claimsStage .default 4 (raceCalls i))) := by
  have hbind : ∀ i, verifyBinding (raceCalls i).proof (raceCalls i).request = .ok () := by
    decide +kernel
  show some (callProgram .default _ (raceCalls i)) = _
  rw [callProgram_eq, hbind]

/-- Without a later sweep, the first call accepts and no other call accepts its proof. -/
theorem atMostOnce_of_timely_race :
    (∃ c v, Relation.ReflTransGen (PoolStep (timelyHandler .default raceCalls))
      (initial .default (by decide : 4 ≠ 0) raceCalls lastSecond) c ∧
        c.thread 0 = some (.ret (.ok v))) ∧
      AtMostOnce (timelyHandler .default raceCalls) .default (by decide : 4 ≠ 0) raceCalls
        lastSecond := by
  refine ⟨?_, atMostOnce_of_timely .default (by decide) raceCalls lastSecond⟩
  obtain ⟨c, hrun, hthread, -, hs⟩ := exists_reads (H := timelyHandler .default raceCalls)
    (fun _ _ _ h => h) (thread_initial_race 0) (t := raceReading 0) (Int.le_refl _)
    (verifyClaims_race 0)
  have hempty : c.shared.entries = .empty ∧ c.shared.swept = [] := by
    rw [hs]
    exact ⟨rfl, rfl⟩
  obtain ⟨d, hrun', hthread', -, -⟩ := exists_section (H := timelyHandler .default raceCalls)
    hthread (by decide) fun f => ⟨⟨rfl, rfl⟩, by rw [hempty.2]; simp⟩
  have hfresh : (recordEntry 4 (raceReading 0) (raceAsked 0).key (raceAsked 0).expiresAtUnix
      c.shared.entries).1 = .ok .fresh := by
    rw [hempty.1]
    decide +kernel
  rw [hfresh] at hthread'
  exact ⟨d, _, hrun.trans hrun', hthread'⟩

/-- Both calls read 1300, the first records its marker, the third reads 1301 and sweeps it, and the
second records the marker again. -/
theorem not_atMostOnce_race :
    ¬ AtMostOnce memHandler .default (by decide : 4 ≠ 0) raceCalls lastSecond := by
  intro honce
  have hread : ∀ i : Fin 3, ∀ s x s', memHandler i (.inl .unixSeconds) s x s' →
      memHandler i (.inl .unixSeconds) s x s' := fun _ _ _ _ h => h
  have hsection : ∀ (i : Fin 3) (s : MemState (Fin 3)) f,
      memHandler i (.inr (.update f)) s s.entries (s.section i f) := fun _ _ _ => ⟨rfl, rfl⟩
  -- the six steps of the race, each with the threads and the state that it leaves
  obtain ⟨c₁, hrun₁, h₁0, h₁, hs₁⟩ := exists_reads (hread 0) (thread_initial_race 0)
    (t := raceReading 0) (Int.le_refl _) (verifyClaims_race 0)
  obtain ⟨c₂, hrun₂, h₂1, h₂, hs₂⟩ := exists_reads (hread 1)
    ((h₁ 1 (by decide)).trans (thread_initial_race 1)) (t := raceReading 1)
    (by rw [hs₁]; exact Int.le_refl _) (verifyClaims_race 1)
  obtain ⟨c₃, hrun₃, h₃0, h₃, hs₃⟩ := exists_section ((h₂ 0 (by decide)).trans h₁0) (by decide)
    (hsection 0 c₂.shared)
  obtain ⟨c₄, hrun₄, h₄2, h₄, hs₄⟩ := exists_reads (hread 2)
    ((h₃ 2 (by decide)).trans ((h₂ 2 (by decide)).trans ((h₁ 2 (by decide)).trans
      (thread_initial_race 2)))) (t := raceReading 2)
    (by rw [hs₃, hs₂]; show (1300 : Int) ≤ 1301; decide) (verifyClaims_race 2)
  obtain ⟨c₅, hrun₅, -, h₅, hs₅⟩ := exists_section h₄2 (by decide) (hsection 2 c₄.shared)
  obtain ⟨c₆, hrun₆, h₆1, h₆, -⟩ := exists_section ((h₅ 1 (by decide)).trans
    ((h₄ 1 (by decide)).trans ((h₃ 1 (by decide)).trans h₂1))) (by decide) (hsection 1 c₅.shared)
  -- the first call has returned long before
  have h₆0 := (h₆ 0 (by decide)).trans ((h₅ 0 (by decide)).trans ((h₄ 0 (by decide)).trans h₃0))
  have hempty : c₂.shared.entries = .empty := by
    rw [hs₂, hs₁]
    rfl
  -- the sweep of the third call has dropped the marker of the first
  have hswept : c₅.shared.entries = (recordEntry 4 nextSecond (raceAsked 2).key
      (raceAsked 2).expiresAtUnix (recordEntry 4 lastSecond (raceAsked 0).key
        (raceAsked 0).expiresAtUnix .empty).2).2 := by
    rw [hs₅, MemState.section, hs₄, hs₃, ← hempty]
    rfl
  have hfirst : (recordEntry 4 (raceReading 0) (raceAsked 0).key (raceAsked 0).expiresAtUnix
      c₂.shared.entries).1 = .ok .fresh := by
    rw [hempty]
    decide +kernel
  have hsecond : (recordEntry 4 (raceReading 1) (raceAsked 1).key (raceAsked 1).expiresAtUnix
      c₅.shared.entries).1 = .ok .fresh := by
    rw [hswept]
    decide +kernel
  rw [hfirst] at h₆0
  rw [hsecond] at h₆1
  have hrun := ((((hrun₁.trans hrun₂).trans hrun₃).trans hrun₄).trans hrun₅).trans hrun₆
  exact honce c₆ hrun 0 1 _ _ (by decide) ⟨rfl, rfl, rfl, rfl, rfl⟩ h₆0 h₆1

end Race

end Keylix.Dpop

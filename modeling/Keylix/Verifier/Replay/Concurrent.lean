import Keylix.Verifier.Replay.Refinement

/-!
# Concurrent verification over the durable store

Any number of verifications share one policy and one `FileReplayStore`. A step is one operation of
one call: a clock reading, the operation lock, or a directory operation, which may fail with all of
its effect, a part of it or none. The process may crash at any step; the directory is then opened
again, and opening may fail and crash as well. Clock readings never decrease.

`atMostOnce_of_reachable` is at-most-once acceptance: of two accepted calls in one replay scope, the
later one read its clock, under the lock, after the marker of the earlier one expired.
-/

set_option autoImplicit false

namespace Keylix.Verifier

open Keylix.Lib Keylix.Core Keylix.Dpop
open Keylix.Lib.Prog (Safe)

/-! ## The system -/

/-- The state that the calls share. -/
structure Shared (ι : Type) where
  fs : Fs
  /-- The call that holds the operation lock. -/
  holder : Option ι
  /-- The last reading of any call. -/
  clock : I64
  /-- The readings under the lock, the latest first. -/
  sections : List (ι × I64)

/-- A call before it starts, while it runs or after it returned, or lost in a crash. -/
inductive CallState where
  | waiting
  | running (p : Prog storeOps (Except DpopError VerifiedDpopProof))
  | lost

/-- What a crash leaves of a call: a result that was returned stays returned. -/
def CallState.crash : CallState → CallState
  | .waiting => .waiting
  | .running (.ret r) => .running (.ret r)
  | .running (.call _ _) => .lost
  | .lost => .lost

/-- The store while it is opened, and while it serves. -/
inductive Phase where
  | opening (p : Prog fileOps (Except DpopPortError (FileReplayStore ctrlOps)))
  | serving (store : FileReplayStore ctrlOps)

structure System (ι : Type) where
  calls : ι → CallState
  phase : Phase
  shared : Shared ι

/-- What is fixed in a run. -/
structure Config (ι : Type) (crypto : Crypto) where
  host : FsHost
  path : Path
  uid : Nat
  capacity : Nat
  policy : VerificationPolicy
  requests : ι → VerifyCall crypto

section System

variable {ι : Type} [DecidableEq ι] {crypto : Crypto}

/-- The state after a reading of the call `i`. -/
def Shared.read (s : Shared ι) (i : ι) (t : I64) : Shared ι :=
  { s with
    clock := t
    sections := if s.holder = some i then (i, t) :: s.sections else s.sections }

/-- One operation of the call `i`. -/
def sharedHandler (host : FsHost) (i : ι) : Prog.Handler storeOps (Shared ι)
  | .inl op, s, x, s' => ∃ fs', fsHandler host True op s.fs x fs' ∧ s' = { s with fs := fs' }
  | .inr .unixSeconds, s, x, s' =>
      (∃ e, x = .error e ∧ s' = s) ∨
        ∃ t : I64, s.clock.toInt ≤ t.toInt ∧ x = .ok t ∧ s' = s.read i t
  | .inr .lock, s, x, s' =>
      (∃ e, x = .error e ∧ s' = s) ∨
        s.holder = none ∧ x = .ok () ∧ s' = { s with holder := some i }
  | .inr .unlock, s, _, s' => s' = { s with holder := none }

/-- The program of a call. -/
def durableCall (policy : VerificationPolicy) (store : FileReplayStore ctrlOps)
    (call : VerifyCall crypto) : Prog storeOps (Except DpopError VerifiedDpopProof) :=
  DpopVerifier.verify ⟨ctrlClock, policy⟩ call.proof call.request store.replayStore

/-- The program that opens the store of a run. -/
def Config.openProgram (cfg : Config ι crypto) :
    Prog fileOps (Except DpopPortError (FileReplayStore ctrlOps)) :=
  openStore cfg.path cfg.uid cfg.capacity

def System.setCall (c : System ι) (i : ι) (p : Prog storeOps (Except DpopError VerifiedDpopProof))
    (s : Shared ι) : System ι :=
  { c with calls := Function.update c.calls i (.running p), shared := s }

omit [DecidableEq ι] in
/-- The system after a crash that left the files `fs`: the directory is to be opened again. -/
def System.crash (c : System ι) (cfg : Config ι crypto) (fs : Fs) : System ι where
  calls := fun i => (c.calls i).crash
  phase := .opening cfg.openProgram
  shared := { c.shared with fs := fs, holder := none }

inductive SystemStep (cfg : Config ι crypto) : System ι → System ι → Prop where
  /-- A call starts. -/
  | start {c : System ι} {store : FileReplayStore ctrlOps} (i : ι)
      (hphase : c.phase = .serving store) (hi : c.calls i = .waiting) :
      SystemStep cfg c (c.setCall i (durableCall cfg.policy store (cfg.requests i)) c.shared)
  /-- One operation of a call. -/
  | call {c : System ι} {store : FileReplayStore ctrlOps} {s' : Shared ι} (i : ι) {op : storeOps.Op}
      {k : storeOps.Res op → Prog storeOps (Except DpopError VerifiedDpopProof)}
      {x : storeOps.Res op} (hphase : c.phase = .serving store)
      (hi : c.calls i = .running (.call op k)) (hop : sharedHandler cfg.host i op c.shared x s') :
      SystemStep cfg c (c.setCall i (k x) s')
  /-- One operation of the program that opens the store. -/
  | opening {c : System ι} {fs' : Fs} {op : FileOp}
      {k : Except IoError op.Val → Prog fileOps (Except DpopPortError (FileReplayStore ctrlOps))}
      {x : Except IoError op.Val} (hphase : c.phase = .opening (.call (S := fileOps) op k))
      (hop : fsHandler cfg.host True op c.shared.fs x fs') :
      SystemStep cfg c { c with phase := .opening (k x), shared := { c.shared with fs := fs' } }
  /-- The store is open. -/
  | opened {c : System ι} {store : FileReplayStore ctrlOps}
      (hphase : c.phase = .opening (.ret (.ok store))) :
      SystemStep cfg c { c with phase := .serving store }
  /-- Opening failed and is tried again. -/
  | reopen {c : System ι} {e : DpopPortError} (hphase : c.phase = .opening (.ret (.error e))) :
      SystemStep cfg c { c with phase := .opening cfg.openProgram }
  /-- The process crashes, at any point. -/
  | crash {c : System ι} {fs' : Fs} (hcrash : c.shared.fs.Crash fs') :
      SystemStep cfg c (c.crash cfg fs')

/-- No call has started and the store is about to be opened, on any directory. -/
def System.initial (cfg : Config ι crypto) (fs : Fs) (start : I64) : System ι :=
  ⟨fun _ => .waiting, .opening cfg.openProgram, ⟨fs, none, start, []⟩⟩

/-! ## At-most-once acceptance -/

/-- The call returned a verified proof. -/
def System.Accepted (c : System ι) (i : ι) : Prop := ∃ v, c.calls i = .running (.ret (.ok v))

/-- The same replay scope and identifier. -/
structure SameScope (a b : VerifyCall crypto) : Prop where
  thumbprint : a.proof.publicJwk.thumbprint = b.proof.publicJwk.thumbprint
  method : a.request.method = b.request.method
  target : a.request.target = b.request.target
  jti : a.proof.claims.jti = b.proof.claims.jti

/-- The call `j` read `t` under the lock, after the call `i` read its clock there. -/
def ReadAfter (sections : List (ι × I64)) (i j : ι) (t : I64) : Prop :=
  ∃ later earlier t', sections = later ++ (j, t) :: earlier ∧ (i, t') ∈ earlier

/-- What two accepted calls of one replay scope have to do with each other. -/
structure AcceptedOnce (cfg : Config ι crypto) (c : System ι) : Prop where
  /-- An accepted call read its clock under the lock, once. -/
  reads : ∀ i, c.Accepted i → ∃! t, (i, t) ∈ c.shared.sections
  /-- The later call read its clock after the expiry of the earlier proof. -/
  expired : ∀ i j t, c.Accepted i → c.Accepted j → SameScope (cfg.requests i) (cfg.requests j) →
    ReadAfter c.shared.sections i j t → (cfg.requests i).expiry cfg.policy < t.toInt
  /-- One proof is not accepted twice. -/
  once : ∀ i j, c.Accepted i → c.Accepted j → (cfg.requests i).SameProof (cfg.requests j) → i = j

end System

/-! ## Where a call stands -/

section Calls

variable {ι : Type} {crypto : Crypto}

/-- What the store is asked by a call, with an expiry that can be written. -/
structure AsksStore (policy : VerificationPolicy) (call : VerifyCall crypto)
    (asked : ReplayRequest) : Prop where
  asks : call.Asks policy asked
  nonneg : 0 ≤ asked.expiresAtUnix.toInt

namespace AsksStore

variable {policy : VerificationPolicy} {a b : VerifyCall crypto} {asked asked' : ReplayRequest}

/-- Calls of one scope ask for one key. -/
theorem key_eq (ha : AsksStore policy a asked) (hb : AsksStore policy b asked')
    (h : SameScope a b) : asked.key = asked'.key := by
  have hkey := ha.asks.key
  rw [h.thumbprint, h.method, h.target, h.jti, hb.asks.key] at hkey
  exact (Except.ok.inj hkey).symm

theorem unique (ha : AsksStore policy a asked) (hb : AsksStore policy a asked') :
    asked = asked' := by
  have hkey := ha.key_eq hb ⟨rfl, rfl, rfl, rfl⟩
  have hexpires : asked.expiresAtUnix = asked'.expiresAtUnix :=
    I64.ext_toInt (ha.asks.expires.trans hb.asks.expires.symm)
  cases asked
  cases asked'
  cases hkey
  cases hexpires
  rfl

end AsksStore

namespace DurableCall

variable (policy : VerificationPolicy) (store : FileReplayStore ctrlOps) (call : VerifyCall crypto)

/-- The rest of a call after its section answered. -/
def finish (hashVerified : Bool) (r : Except DpopPortError ReplayStatus) :
    Prog storeOps (Except DpopError VerifiedDpopProof) :=
  .call (S := storeOps) (.inr .unlock) fun _ =>
    .ret (verifyReplay call.proof call.request hashVerified r)

/-- The rest of a call after the store read its clock. -/
def record (hashVerified : Bool) (asked : ReplayRequest) :
    Except DpopPortError I64 → Prog storeOps (Except DpopError VerifiedDpopProof)
  | .error e => finish call hashVerified (.error e)
  | .ok now =>
      (store.directory.recordMarker store.capacity now asked.key asked.expiresAtUnix).inl >>=
        finish call hashVerified

/-- The rest of a call after it asked for the lock. -/
def locked (hashVerified : Bool) (asked : ReplayRequest) :
    Except DpopPortError Unit → Prog storeOps (Except DpopError VerifiedDpopProof)
  | .error e => .ret (verifyReplay call.proof call.request hashVerified (.error e))
  | .ok () => .call (S := storeOps) (.inr .unixSeconds) (record store call hashVerified asked)

/-- The rest of a call after the verifier read its clock. -/
def claims : Except DpopPortError I64 → Prog storeOps (Except DpopError VerifiedDpopProof)
  | .error _ => .ret (.error .clockUnavailable)
  | .ok now =>
      match verifyClaims policy call.proof call.request now with
      | .error e => .ret (.error e)
      | .ok (hashVerified, asked) =>
          .call (S := storeOps) (.inr .lock) (locked store call hashVerified asked)

/-- A section is followed by the release of the lock. -/
theorem inl_bind_finish_ne (hashVerified : Bool)
    (rest : Prog fileOps (Except DpopPortError ReplayStatus)) (v : VerifiedDpopProof) :
    (rest.inl >>= finish call hashVerified) ≠ .ret (.ok v) := by
  cases rest with
  | ret r =>
    intro h
    cases h
  | call op k =>
    intro h
    cases h

end DurableCall

open DurableCall

theorem durableCall_eq (policy : VerificationPolicy) {store : FileReplayStore ctrlOps}
    (hclock : store.clock = ctrlClock) (hlock : store.operationLock = ctrlLock)
    (call : VerifyCall crypto) :
    durableCall policy store call =
      match verifyBinding call.proof call.request with
      | .error e => .ret (.error e)
      | .ok () => .call (S := storeOps) (.inr .unixSeconds) (claims policy store call) := by
  obtain ⟨clock, directory, capacity, file, operationLock, hcap⟩ := store
  cases hclock
  cases hlock
  unfold durableCall DpopVerifier.verify
  cases verifyBinding call.proof call.request with
  | error e => rfl
  | ok u =>
    refine congrArg (Prog.call (S := storeOps) (.inr .unixSeconds)) (funext fun x => ?_)
    cases x with
    | error e => rfl
    | ok now =>
      simp only [claims, Prog.bind]
      cases verifyClaims policy call.proof call.request now with
      | error e => rfl
      | ok r =>
        obtain ⟨hashVerified, asked⟩ := r
        refine congrArg (Prog.call (S := storeOps) (.inr .lock)) (funext fun x => ?_)
        cases x with
        | error e => rfl
        | ok u =>
          refine congrArg (Prog.call (S := storeOps) (.inr .unixSeconds)) (funext fun x => ?_)
          cases x with
          | error e => rfl
          | ok now =>
            show ((directory.recordMarker capacity now asked.key asked.expiresAtUnix).inl >>=
              fun answer => ctrlLock.unlock >>= fun _ => pure answer) >>= _ = _
            rw [Prog.bind_assoc_prog]
            rfl

/-- Any property of entries: the directory may hold anything when the run starts. -/
abbrev anyEntry : FileName → Inode → Prop := fun _ _ => True

/-- What a section of a call guarantees when it answers `fresh`. -/
def SectionPost (K : Markers) (t : I64) (asked : ReplayRequest) (read : Prop)
    (r : Except DpopPortError ReplayStatus) (fs : Fs) : Prop :=
  r = .ok .fresh → fs.Durable (nameFor asked.key) (markerText asked.expiresAtUnix) ∧
    (∀ e, K asked.key e → e.toInt < t.toInt) ∧ t.toInt ≤ asked.expiresAtUnix.toInt ∧ read

/-- A call between two of its operations. -/
inductive Stage (host : FsHost) (policy : VerificationPolicy) (call : VerifyCall crypto)
    (K : Markers) (i : ι) (s : Shared ι) :
    Prog storeOps (Except DpopError VerifiedDpopProof) → Prop where
  /-- Before the clock of the verifier. -/
  | clock {store : FileReplayStore ctrlOps} (hout : s.holder ≠ some i)
      (hnew : ∀ t, (i, t) ∉ s.sections) :
      Stage host policy call K i s
        (.call (S := storeOps) (.inr .unixSeconds) (claims policy store call))
  /-- Before the lock. -/
  | lock {store : FileReplayStore ctrlOps} {hashVerified : Bool} {asked : ReplayRequest}
      (hout : s.holder ≠ some i) (hnew : ∀ t, (i, t) ∉ s.sections)
      (hasked : AsksStore policy call asked) :
      Stage host policy call K i s
        (.call (S := storeOps) (.inr .lock) (locked store call hashVerified asked))
  /-- Before the clock of the store. -/
  | entered {store : FileReplayStore ctrlOps} {hashVerified : Bool} {asked : ReplayRequest}
      (hin : s.holder = some i) (hnew : ∀ t, (i, t) ∉ s.sections)
      (hasked : AsksStore policy call asked) :
      Stage host policy call K i s
        (.call (S := storeOps) (.inr .unixSeconds) (record store call hashVerified asked))
  /-- In the section that started with the reading `t`. -/
  | inside {hashVerified : Bool} {asked : ReplayRequest} {t : I64}
      {rest : Prog fileOps (Except DpopPortError ReplayStatus)} (hin : s.holder = some i)
      (hasked : AsksStore policy call asked) (ht : t.toInt ≤ s.clock.toInt)
      (hsafe : Safe (fsHandler host True) (Kept anyEntry K t)
        (SectionPost K t asked (s.sections.head? = some (i, t))) rest s.fs) :
      Stage host policy call K i s (rest.inl >>= finish call hashVerified)
  | rejected (hout : s.holder ≠ some i) (e : DpopError) :
      Stage host policy call K i s (.ret (.error e))
  | accepted (hout : s.holder ≠ some i) (v : VerifiedDpopProof) :
      Stage host policy call K i s (.ret (.ok v))

section Stages

variable {host : FsHost} {policy : VerificationPolicy} {call : VerifyCall crypto} {K : Markers}
  {i j : ι} {s s' : Shared ι}

/-- What a step of the call `i` leaves as it was for the others. -/
structure Frame (i : ι) (s s' : Shared ι) : Prop where
  clock : s.clock.toInt ≤ s'.clock.toInt
  holder : ∀ j, j ≠ i → (s'.holder = some j ↔ s.holder = some j)
  mem : ∀ j, j ≠ i → ∀ t, (j, t) ∈ s'.sections ↔ (j, t) ∈ s.sections
  inside : ∀ j, j ≠ i → s.holder = some j → s'.fs = s.fs ∧ s'.sections = s.sections

theorem Stage.frame {p : Prog storeOps (Except DpopError VerifiedDpopProof)}
    (h : Stage host policy call K j s p) (hf : Frame i s s') (hne : j ≠ i) :
    Stage host policy call K j s' p := by
  have hout : s.holder ≠ some j → s'.holder ≠ some j := fun h => mt (hf.holder j hne).1 h
  have hnew : (∀ t, (j, t) ∉ s.sections) → ∀ t, (j, t) ∉ s'.sections :=
    fun h t => mt (hf.mem j hne t).1 (h t)
  cases h with
  | clock ho hn => exact .clock (hout ho) (hnew hn)
  | lock ho hn hasked => exact .lock (hout ho) (hnew hn) hasked
  | entered hin hn hasked => exact .entered ((hf.holder j hne).2 hin) (hnew hn) hasked
  | inside hin hasked ht hsafe =>
    obtain ⟨hfs, hsections⟩ := hf.inside j hne hin
    rw [← hfs, ← hsections] at hsafe
    exact .inside ((hf.holder j hne).2 hin) hasked (ht.trans hf.clock) hsafe
  | rejected ho e => exact .rejected (hout ho) e
  | accepted ho v => exact .accepted (hout ho) v

/-- A call at its start. -/
theorem stage_durableCall (host : FsHost) (policy : VerificationPolicy) (call : VerifyCall crypto)
    (K : Markers) {store : FileReplayStore ctrlOps} (hclock : store.clock = ctrlClock)
    (hlock : store.operationLock = ctrlLock) (hout : s.holder ≠ some i)
    (hnew : ∀ t, (i, t) ∉ s.sections) :
    Stage host policy call K i s (durableCall policy store call) ∧
      ∀ v, durableCall policy store call ≠ .ret (.ok v) := by
  rw [durableCall_eq policy hclock hlock]
  split
  · exact ⟨.rejected hout _, by simp⟩
  · exact ⟨.clock hout hnew, by simp⟩

/-- After the clock of the verifier, a call is rejected or asks for the lock. -/
theorem stage_claims (host : FsHost) (policy : VerificationPolicy) (call : VerifyCall crypto)
    (K : Markers) {store : FileReplayStore ctrlOps} (x : Except DpopPortError I64)
    (hout : s.holder ≠ some i) (hnew : ∀ t, (i, t) ∉ s.sections) :
    Stage host policy call K i s (claims policy store call x) ∧
      ∀ v, claims policy store call x ≠ .ret (.ok v) := by
  cases x with
  | error e => exact ⟨.rejected hout _, by simp [claims]⟩
  | ok now =>
    simp only [claims]
    split
    · exact ⟨.rejected hout _, by simp⟩
    · next hashVerified asked hclaims =>
      obtain ⟨haccepted, -⟩ := verifyClaims_eq_ok_iff.1 hclaims
      have hpos := haccepted.issuedAt
      have hnonneg : 0 ≤ asked.expiresAtUnix.toInt := by
        rw [haccepted.expires]
        omega
      exact ⟨.lock hout hnew ⟨⟨haccepted.key, haccepted.expires⟩, hnonneg⟩, by simp⟩

end Stages

end Calls

/-! ## Runs -/

section Runs

open DurableCall

variable {ι : Type} {crypto : Crypto} {cfg : Config ι crypto}

/-- The markers of the calls that were accepted. -/
def acceptedMarkers (cfg : Config ι crypto) (c : System ι) : Markers := fun key expires =>
  ∃ i asked, c.Accepted i ∧ AsksStore cfg.policy (cfg.requests i) asked ∧ asked.key = key ∧
    asked.expiresAtUnix = expires

theorem acceptedMarkers_nonneg {c : System ι} {key : ReplayKey} {expires : I64}
    (h : acceptedMarkers cfg c key expires) : 0 ≤ expires.toInt := by
  obtain ⟨i, asked, -, hasked, -, rfl⟩ := h
  exact hasked.nonneg

theorem acceptedMarkers_congr {c d : System ι} (h : ∀ j, d.Accepted j ↔ c.Accepted j) :
    acceptedMarkers cfg d = acceptedMarkers cfg c := by
  funext key expires
  simp only [acceptedMarkers, h]

/-- A call is where its state says. -/
def CallOk (cfg : Config ι crypto) (K : Markers) (i : ι) (s : Shared ι) : CallState → Prop
  | .waiting => s.holder ≠ some i ∧ ∀ t, (i, t) ∉ s.sections
  | .lost => s.holder ≠ some i
  | .running p => Stage cfg.host cfg.policy (cfg.requests i) K i s p

/-- The store is where its phase says. -/
def PhaseOk (cfg : Config ι crypto) (K : Markers) (c : System ι) : Prop :=
  match c.phase with
  | .serving store => store.clock = ctrlClock ∧ store.operationLock = ctrlLock
  | .opening p =>
      c.shared.holder = none ∧
        (∀ i q, c.calls i = .running q → ∃ r, q = .ret r) ∧
        Safe (fsHandler cfg.host True) (Kept anyEntry K c.shared.clock)
          (fun r _ => ∀ store, r = .ok store →
            store.clock = ctrlClock ∧ store.operationLock = ctrlLock) p c.shared.fs

/-- What holds in every state of a run. -/
structure SystemInv (cfg : Config ι crypto) (c : System ι) : Prop where
  kept : Kept anyEntry (acceptedMarkers cfg c) c.shared.clock c.shared.fs
  calls : ∀ i, CallOk cfg (acceptedMarkers cfg c) i c.shared (c.calls i)
  phase : PhaseOk cfg (acceptedMarkers cfg c) c
  nodup : (c.shared.sections.map Prod.fst).Nodup
  accepted : ∀ i, c.Accepted i → ∃ asked t, AsksStore cfg.policy (cfg.requests i) asked ∧
    (i, t) ∈ c.shared.sections ∧ t.toInt ≤ asked.expiresAtUnix.toInt
  expired : ∀ i j t, c.Accepted i → c.Accepted j → SameScope (cfg.requests i) (cfg.requests j) →
    ReadAfter c.shared.sections i j t → (cfg.requests i).expiry cfg.policy < t.toInt

theorem ReadAfter.of_cons {sections : List (ι × I64)} {i j k : ι} {t t' : I64} (hne : j ≠ k)
    (h : ReadAfter ((k, t') :: sections) i j t) : ReadAfter sections i j t := by
  obtain ⟨later, earlier, t'', heq, hmem⟩ := h
  cases later with
  | nil => exact absurd (Prod.mk.inj (List.cons.inj heq).1).1.symm hne
  | cons entry later => exact ⟨later, earlier, t'', (List.cons.inj heq).2, hmem⟩

/-- The latest reader did not read before anyone. -/
theorem not_readAfter_of_head {sections : List (ι × I64)} {i j : ι} {t t' : I64}
    (hnodup : (sections.map Prod.fst).Nodup) (hhead : sections.head? = some (i, t'))
    (h : ReadAfter sections i j t) : False := by
  obtain ⟨later, earlier, t'', rfl, hmem⟩ := h
  have hi : i ∈ earlier.map Prod.fst := List.mem_map.2 ⟨_, hmem, rfl⟩
  cases later with
  | nil =>
    cases hhead
    rw [List.nil_append, List.map_cons, List.nodup_cons] at hnodup
    exact hnodup.1 hi
  | cons entry later =>
    cases hhead
    rw [List.cons_append, List.map_cons, List.nodup_cons, List.map_append, List.map_cons] at hnodup
    exact hnodup.1 (List.mem_append.2 (Or.inr (List.mem_cons_of_mem _ hi)))

/-- Of two readings one is the later. -/
theorem exists_readAfter {sections : List (ι × I64)} {i j : ι} {t t' : I64} (hne : i ≠ j)
    (hi : (i, t) ∈ sections) (hj : (j, t') ∈ sections) :
    ReadAfter sections i j t' ∨ ReadAfter sections j i t := by
  induction sections with
  | nil => cases hi
  | cons entry sections ih =>
    rcases List.mem_cons.1 hi with rfl | hitail
    · rcases List.mem_cons.1 hj with heq | hjtail
      · exact absurd (Prod.mk.inj heq).1.symm hne
      · exact Or.inr ⟨[], sections, t', rfl, hjtail⟩
    · rcases List.mem_cons.1 hj with rfl | hjtail
      · exact Or.inl ⟨[], sections, t, rfl, hitail⟩
      · rcases ih hitail hjtail with ⟨later, earlier, u, rfl, hmem⟩ | ⟨later, earlier, u, rfl, hmem⟩
        · exact Or.inl ⟨entry :: later, earlier, u, rfl, hmem⟩
        · exact Or.inr ⟨entry :: later, earlier, u, rfl, hmem⟩

/-- The reading of a call is unique. -/
theorem reading_unique {sections : List (ι × I64)} (hnodup : (sections.map Prod.fst).Nodup) {i : ι}
    {t t' : I64} (h : (i, t) ∈ sections) (h' : (i, t') ∈ sections) : t = t' := by
  induction sections with
  | nil => cases h
  | cons entry sections ih =>
    rw [List.map_cons, List.nodup_cons] at hnodup
    have hfst : ∀ u, (i, u) ∈ sections → i ∈ sections.map Prod.fst :=
      fun u hu => List.mem_map.2 ⟨_, hu, rfl⟩
    rcases List.mem_cons.1 h with rfl | hmem
    · rcases List.mem_cons.1 h' with heq | hmem'
      · cases heq
        rfl
      · exact absurd (hfst t' hmem') hnodup.1
    · rcases List.mem_cons.1 h' with rfl | hmem'
      · exact absurd (hfst t hmem) hnodup.1
      · exact ih hnodup.2 hmem hmem'

section Frames

variable {c : System ι} {i : ι} {s' : Shared ι}

/-- A step of a call that holds nothing and reads its clock or is refused the lock. -/
theorem frame_of_outside (hclock : c.shared.clock.toInt ≤ s'.clock.toInt)
    (hholder : s'.holder = c.shared.holder) (hsections : s'.sections = c.shared.sections)
    (hfs : s'.fs = c.shared.fs) :
    Frame i c.shared s' where
  clock := hclock
  holder := fun j _ => by rw [hholder]
  mem := fun j _ t => by rw [hsections]
  inside := fun j _ _ => ⟨hfs, hsections⟩

/-- A step of the call that holds the lock. -/
theorem frame_of_inside (hin : c.shared.holder = some i)
    (hclock : c.shared.clock.toInt ≤ s'.clock.toInt)
    (hholder : s'.holder = some i ∨ s'.holder = none)
    (hsections : s'.sections = c.shared.sections ∨
      ∃ t, s'.sections = (i, t) :: c.shared.sections) : Frame i c.shared s' where
  -- the clock only advances; the lock is kept or given back; one section at most is added
  clock := hclock
  holder := by
    intro j hj
    rw [hin]
    rcases hholder with h | h
    · rw [h]
    · rw [h]
      refine iff_of_false (by simp) ?_
      intro h
      exact hj (Option.some.inj h).symm
  mem := by
    intro j hj t
    rcases hsections with heq | ⟨t', heq⟩
    · rw [heq]
    · rw [heq, List.mem_cons]
      refine or_iff_right ?_
      rintro heq
      exact hj (Prod.mk.inj heq).1
  inside := by
    intro j hj hholder
    rw [hin] at hholder
    exact absurd (Option.some.inj hholder).symm hj

/-- A call that has not returned is not accepted. -/
theorem not_accepted_of_call {op : storeOps.Op}
    {k : storeOps.Res op → Prog storeOps (Except DpopError VerifiedDpopProof)}
    (hi : c.calls i = .running (.call op k)) : ¬ c.Accepted i := by
  rintro ⟨v, hv⟩
  rw [hi] at hv
  cases hv

end Frames

section Step

variable [DecidableEq ι] {c : System ι} {i : ι} {s' : Shared ι}
  {p : Prog storeOps (Except DpopError VerifiedDpopProof)}

@[simp] theorem setCall_self (c : System ι) (i : ι)
    (p : Prog storeOps (Except DpopError VerifiedDpopProof)) (s : Shared ι) :
    (c.setCall i p s).calls i = .running p := Function.update_self _ _ _

theorem setCall_of_ne {j : ι} (h : j ≠ i) (c : System ι)
    (p : Prog storeOps (Except DpopError VerifiedDpopProof)) (s : Shared ι) :
    (c.setCall i p s).calls j = c.calls j := Function.update_of_ne h _ _

theorem accepted_setCall_of_ne {j : ι} (h : j ≠ i) :
    (c.setCall i p s').Accepted j ↔ c.Accepted j := by
  unfold System.Accepted
  rw [setCall_of_ne h]

/-- A step that accepts nothing leaves the accepted calls as they were. -/
theorem accepted_setCall_iff (hbefore : ¬ c.Accepted i) (hp : ∀ v, p ≠ .ret (.ok v)) (j : ι) :
    (c.setCall i p s').Accepted j ↔ c.Accepted j := by
  by_cases hj : j = i
  · subst hj
    refine iff_of_false ?_ hbefore
    rintro ⟨v, hv⟩
    rw [setCall_self] at hv
    cases hv
    exact hp v rfl
  · exact accepted_setCall_of_ne hj

/-- A step of the call `i` that accepts nothing. -/
theorem SystemInv.quiet (hc : SystemInv cfg c) {store : FileReplayStore ctrlOps}
    (hphase : c.phase = .serving store) (hbefore : ¬ c.Accepted i)
    (hp : ∀ v, p ≠ .ret (.ok v)) (hframe : Frame i c.shared s')
    (hkept : Kept anyEntry (acceptedMarkers cfg c) s'.clock s'.fs)
    (hstage : Stage cfg.host cfg.policy (cfg.requests i) (acceptedMarkers cfg c) i s' p)
    (hsections : s'.sections = c.shared.sections ∨
      ∃ t, (∀ t, (i, t) ∉ c.shared.sections) ∧ s'.sections = (i, t) :: c.shared.sections) :
    SystemInv cfg (c.setCall i p s') := by
  -- the call does not return an acceptance, so that the accepted markers are the same
  have haccepted : ∀ j, (c.setCall i p s').Accepted j ↔ c.Accepted j :=
    accepted_setCall_iff hbefore hp
  have hmarkers : acceptedMarkers cfg (c.setCall i p s') = acceptedMarkers cfg c :=
    acceptedMarkers_congr haccepted
  have hmono : ∀ entry ∈ c.shared.sections, entry ∈ s'.sections := by
    intro entry hentry
    rcases hsections with heq | ⟨t, -, heq⟩
    · rwa [heq]
    · rw [heq]
      exact List.mem_cons_of_mem _ hentry
  refine ⟨?_, ?_, ?_, ?_, ?_, ?_⟩
  · rw [hmarkers]
    exact hkept
  · intro j
    rw [hmarkers]
    by_cases hj : j = i
    · subst hj
      rw [setCall_self]
      exact hstage
    · rw [setCall_of_ne hj]
      have hcall := hc.calls j
      cases hstate : c.calls j with
      | waiting =>
        rw [hstate] at hcall
        exact ⟨mt (hframe.holder j hj).1 hcall.1, fun t => mt (hframe.mem j hj t).1 (hcall.2 t)⟩
      | lost =>
        rw [hstate] at hcall
        exact mt (hframe.holder j hj).1 hcall
      | running q =>
        rw [hstate] at hcall
        exact Stage.frame hcall hframe hj
  · rw [hmarkers]
    have hok := hc.phase
    unfold PhaseOk at hok ⊢
    show match c.phase with | .serving store => _ | .opening p => _
    rw [hphase] at hok ⊢
    exact hok
  -- a section is entered once by each call
  · show (s'.sections.map Prod.fst).Nodup
    rcases hsections with heq | ⟨t, hnew, heq⟩
    · rw [heq]
      exact hc.nodup
    · rw [heq, List.map_cons, List.nodup_cons]
      refine ⟨?_, hc.nodup⟩
      intro hmem
      obtain ⟨⟨j, t'⟩, hentry, rfl⟩ := List.mem_map.1 hmem
      exact hnew t' hentry
  · intro j hj
    obtain ⟨asked, t, hasked, hmem, hle⟩ := hc.accepted j ((haccepted j).1 hj)
    exact ⟨asked, t, hasked, hmono _ hmem, hle⟩
  -- a reading that the step added belongs to a call that is not accepted
  · intro j k t hj hk hscope hread
    have hk' := (haccepted k).1 hk
    refine hc.expired j k t ((haccepted j).1 hj) hk' hscope ?_
    rcases hsections with heq | ⟨t', -, heq⟩
    · exact heq ▸ hread
    · have hread' : ReadAfter ((i, t') :: c.shared.sections) j k t := heq ▸ hread
      refine hread'.of_cons ?_
      rintro rfl
      exact hbefore hk'

/-- The step that accepts the call `i`: its section answered `fresh` and it holds the lock. -/
theorem SystemInv.accept (hc : SystemInv cfg c) {store : FileReplayStore ctrlOps}
    (hphase : c.phase = .serving store) (v : VerifiedDpopProof)
    {asked : ReplayRequest} {t : I64} (hin : c.shared.holder = some i)
    (hasked : AsksStore cfg.policy (cfg.requests i) asked)
    (hkept : Kept anyEntry (acceptedMarkers cfg c) t c.shared.fs)
    (hpost : SectionPost (acceptedMarkers cfg c) t asked (c.shared.sections.head? = some (i, t))
      (.ok .fresh) c.shared.fs) :
    SystemInv cfg (c.setCall i (.ret (.ok v)) { c.shared with holder := none }) := by
  obtain ⟨hdurable, hearlier, hle, hhead⟩ := hpost rfl
  have hfree : ∀ j : ι, (none : Option ι) ≠ some j := by
    intro j h
    cases h
  have haccepted : ∀ j, (c.setCall i (.ret (.ok v)) { c.shared with holder := none }).Accepted j →
      j = i ∨ c.Accepted j := by
    intro j hj
    by_cases hji : j = i
    · exact Or.inl hji
    · exact Or.inr ((accepted_setCall_of_ne hji).1 hj)
  have hmem : (i, t) ∈ c.shared.sections := List.mem_of_head? hhead
  refine ⟨⟨hkept.holds, ?_⟩, ?_, ?_, hc.nodup, ?_, ?_⟩
  · rintro key expires ⟨j, asked', hj, hasked', rfl, rfl⟩
    rcases haccepted j hj with rfl | hj
    · rw [hasked'.unique hasked]
      exact Or.inl hdurable
    · exact hc.kept.marker _ _ ⟨j, asked', hj, hasked', rfl, rfl⟩
  · intro j
    by_cases hji : j = i
    · subst hji
      rw [setCall_self]
      exact .accepted (hfree _) v
    · rw [setCall_of_ne hji]
      have hcall := hc.calls j
      have hholder : c.shared.holder ≠ some j := by
        rw [hin]
        rintro h
        exact hji (Option.some.inj h).symm
      -- nobody else is inside, so the stages do not depend on the markers
      cases hstate : c.calls j with
      | waiting =>
        rw [hstate] at hcall
        exact ⟨hfree j, hcall.2⟩
      | lost => exact hfree j
      | running q =>
        rw [hstate] at hcall
        cases hcall with
        | clock ho hn => exact .clock (hfree _) hn
        | lock ho hn ha => exact .lock (hfree _) hn ha
        | entered hi => exact absurd hi hholder
        | inside hi => exact absurd hi hholder
        | rejected ho e => exact .rejected (hfree _) e
        | accepted ho v => exact .accepted (hfree _) v
  · have hok := hc.phase
    unfold PhaseOk at hok ⊢
    show match c.phase with | .serving store => _ | .opening p => _
    rw [hphase] at hok ⊢
    exact hok
  · intro j hj
    rcases haccepted j hj with rfl | hj
    · exact ⟨asked, t, hasked, hmem, hle⟩
    · exact hc.accepted j hj
  -- the new section is the last one, so that no call reads after it
  · intro j k t' hj hk hscope hread
    have hread' : ReadAfter c.shared.sections j k t' := hread
    rcases haccepted j hj with rfl | hjc
    · exact (not_readAfter_of_head hc.nodup hhead hread').elim
    rcases haccepted k hk with rfl | hkc
    · -- the new call against an earlier one of its scope
      obtain ⟨asked', -, hasked', -, -⟩ := hc.accepted j hjc
      have hkey := hasked'.key_eq hasked hscope
      have hlt := hearlier asked'.expiresAtUnix ⟨j, asked', hjc, hasked', hkey, rfl⟩
      obtain ⟨later, earlier, t'', heq, -⟩ := hread'
      have ht' : t' = t := reading_unique hc.nodup (by rw [heq]; simp) hmem
      rw [ht', ← hasked'.asks.expires]
      exact hlt
    · exact hc.expired j k t' hjc hkc hscope hread'

/-- A reading outside of the lock. -/
theorem read_outside {x : Except DpopPortError I64} (hout : c.shared.holder ≠ some i)
    (hop : sharedHandler cfg.host i (.inr .unixSeconds) c.shared x s') :
    Frame i c.shared s' ∧ s'.holder = c.shared.holder ∧ s'.sections = c.shared.sections ∧
      s'.fs = c.shared.fs ∧ c.shared.clock.toInt ≤ s'.clock.toInt := by
  rcases hop with ⟨e, -, rfl⟩ | ⟨t, hle, -, rfl⟩
  · exact ⟨frame_of_outside (Int.le_refl _) rfl rfl rfl, rfl, rfl, rfl, Int.le_refl _⟩
  · have hsections : (c.shared.read i t).sections = c.shared.sections := if_neg hout
    exact ⟨frame_of_outside hle rfl hsections rfl, rfl, hsections, rfl, hle⟩

/-- The reading that starts a section. -/
theorem SystemInv.enter (hc : SystemInv cfg c) {store : FileReplayStore ctrlOps}
    {hashVerified : Bool} {asked : ReplayRequest} {x : Except DpopPortError I64}
    (hphase : c.phase = .serving store) (hbefore : ¬ c.Accepted i)
    (hin : c.shared.holder = some i) (hnew : ∀ t, (i, t) ∉ c.shared.sections)
    (hasked : AsksStore cfg.policy (cfg.requests i) asked) {store' : FileReplayStore ctrlOps}
    (hop : sharedHandler cfg.host i (.inr .unixSeconds) c.shared x s') :
    SystemInv cfg (c.setCall i (record store' (cfg.requests i) hashVerified asked x) s') := by
  have hnot : ∀ v, record store' (cfg.requests i) hashVerified asked x ≠ .ret (.ok v) := by
    intro v
    cases x with
    | error e => simp [record, finish]
    | ok now =>
      exact inl_bind_finish_ne _ _ _ v
  rcases hop with ⟨e, rfl, rfl⟩ | ⟨t, hle, rfl, rfl⟩
  · -- the clock failed: the section answers at once
    refine hc.quiet hphase hbefore hnot
      (frame_of_inside hin (Int.le_refl _) (Or.inl hin) (Or.inl rfl)) hc.kept ?_ (Or.inl rfl)
    have hsafe : Safe (fsHandler cfg.host True)
        (Kept anyEntry (acceptedMarkers cfg c) c.shared.clock)
        (SectionPost (acceptedMarkers cfg c) c.shared.clock asked
          (c.shared.sections.head? = some (i, c.shared.clock)))
        (.ret (.error e)) c.shared.fs := by
      refine ⟨hc.kept, ?_⟩
      intro h
      cases h
    exact Stage.inside hin hasked (Int.le_refl _) hsafe
  · have hsections : (c.shared.read i t).sections = (i, t) :: c.shared.sections := if_pos hin
    have hkept : Kept anyEntry (acceptedMarkers cfg c) t c.shared.fs :=
      hc.kept.mono hle fun _ _ h => h
    refine hc.quiet hphase hbefore hnot
      (frame_of_inside hin hle (Or.inl hin) (Or.inr ⟨t, hsections⟩)) hkept ?_
      (Or.inr ⟨t, hnew, hsections⟩)
    refine Stage.inside (t := t) hin hasked (Int.le_refl _) ?_
    rw [hsections]
    by_cases hlt : asked.expiresAtUnix.toInt < t.toInt
    · rw [SecureDir.recordMarker, if_pos hlt]
      refine ⟨hkept, ?_⟩
      intro h
      cases h
    · refine (safe_recordMarker (format_true cfg.host) (fun _ _ h => acceptedMarkers_nonneg h)
        hasked.nonneg store'.capacity hkept).mono (fun _ h => h) ?_
      intro r fs _ hanswered hfresh
      exact ⟨(hanswered hfresh).1, (hanswered hfresh).2, Int.not_lt.1 hlt, rfl⟩

/-- One operation of a call keeps the invariant. -/
theorem SystemInv.call (hc : SystemInv cfg c) {store : FileReplayStore ctrlOps} {op : storeOps.Op}
    {k : storeOps.Res op → Prog storeOps (Except DpopError VerifiedDpopProof)}
    {x : storeOps.Res op} (hphase : c.phase = .serving store)
    (hi : c.calls i = .running (.call op k)) (hop : sharedHandler cfg.host i op c.shared x s') :
    SystemInv cfg (c.setCall i (k x) s') := by
  have hbefore := not_accepted_of_call hi
  have hcall := hc.calls i
  rw [hi] at hcall
  have hstage : Stage cfg.host cfg.policy (cfg.requests i) (acceptedMarkers cfg c) i c.shared
      (.call op k) := hcall
  generalize hprogram : Prog.call op k = program at hstage
  cases hstage with
  | clock hout hnew =>
    cases hprogram
    obtain ⟨hframe, hholder, hsections, hfs, hle⟩ := read_outside hout hop
    obtain ⟨hnext, hno⟩ := stage_claims cfg.host cfg.policy (cfg.requests i)
      (acceptedMarkers cfg c) x (hholder ▸ hout) (hsections ▸ hnew)
    refine hc.quiet hphase hbefore hno hframe ?_ hnext (Or.inl hsections)
    rw [hfs]
    exact hc.kept.mono hle fun _ _ h => h
  | lock hout hnew hasked =>
    cases hprogram
    rcases hop with ⟨e, rfl, rfl⟩ | ⟨hnone, rfl, rfl⟩
    · refine hc.quiet hphase hbefore ?_
        (frame_of_outside (Int.le_refl _) rfl rfl rfl) hc.kept (.rejected hout _)
        (Or.inl rfl)
      intro v
      simp [locked, verifyReplay]
    · have hframe : Frame i c.shared { c.shared with holder := some i } := by
        refine ⟨Int.le_refl _, ?_, fun j _ t => Iff.rfl, fun j _ _ => ⟨rfl, rfl⟩⟩
        intro j hj
        rw [hnone]
        refine iff_of_false ?_ (by simp)
        intro h
        exact hj (Option.some.inj h).symm
      refine hc.quiet hphase hbefore ?_ hframe hc.kept (.entered rfl hnew hasked) (Or.inl rfl)
      intro v
      simp [locked]
  | entered hin hnew hasked =>
    cases hprogram
    exact hc.enter hphase hbefore hin hnew hasked hop
  | @inside hashVerified asked t rest hin hasked ht hsafe =>
    cases rest with
    | ret r =>
      cases hprogram
      cases hop
      by_cases hfresh : r = .ok .fresh
      · subst hfresh
        exact hc.accept hphase _ hin hasked hsafe.1 hsafe.2
      · refine hc.quiet hphase hbefore ?_
          (frame_of_inside hin (Int.le_refl _) (Or.inr rfl) (Or.inl rfl)) hc.kept ?_ (Or.inl rfl)
        · intro v hv
          exact hfresh (verifyReplay_eq_ok_iff.1 (Prog.ret.inj hv)).1
        · cases hresult : verifyReplay (cfg.requests i).proof (cfg.requests i).request
              hashVerified r with
          | ok v => exact absurd (verifyReplay_eq_ok_iff.1 hresult).1 hfresh
          | error e =>
            refine .rejected ?_ e
            intro h
            cases h
    | call op' k' =>
      cases hprogram
      obtain ⟨fs', hfs, rfl⟩ := hop
      have hnext := hsafe.2 x fs' hfs
      refine hc.quiet hphase hbefore ?_
        (frame_of_inside hin (Int.le_refl _) (Or.inl hin) (Or.inl rfl))
        (hnext.inv.mono ht fun _ _ h => h) (.inside hin hasked ht hnext) (Or.inl rfl)
      intro v
      exact inl_bind_finish_ne _ _ _ v
  | rejected hout e => cases hprogram
  | accepted hout v => cases hprogram

/-- The start of a call keeps the invariant. -/
theorem SystemInv.start (hc : SystemInv cfg c) {store : FileReplayStore ctrlOps}
    (hphase : c.phase = .serving store) (hi : c.calls i = .waiting) :
    SystemInv cfg (c.setCall i (durableCall cfg.policy store (cfg.requests i)) c.shared) := by
  have hcall := hc.calls i
  rw [hi] at hcall
  obtain ⟨hout, hnew⟩ := hcall
  have hstore : store.clock = ctrlClock ∧ store.operationLock = ctrlLock := by
    have hok := hc.phase
    unfold PhaseOk at hok
    rw [hphase] at hok
    exact hok
  have hbefore : ¬ c.Accepted i := by
    rintro ⟨v, hv⟩
    rw [hi] at hv
    cases hv
  obtain ⟨hstage, hno⟩ := stage_durableCall cfg.host cfg.policy (cfg.requests i)
    (acceptedMarkers cfg c) hstore.1 hstore.2 hout hnew
  exact hc.quiet hphase hbefore hno (frame_of_outside (Int.le_refl _) rfl rfl rfl) hc.kept hstage
    (Or.inl rfl)

end Step

section Opening

variable {c : System ι}

/-- The calls do not depend on the phase. -/
theorem SystemInv.setPhase (hc : SystemInv cfg c) {phase : Phase}
    (hphase : PhaseOk cfg (acceptedMarkers cfg c) { c with phase := phase }) :
    SystemInv cfg { c with phase := phase } :=
  ⟨hc.kept, hc.calls, hphase, hc.nodup, hc.accepted, hc.expired⟩

/-- A call that returned or did not start stands where it stood. -/
theorem callOk_of_returned {K K' : Markers} {i : ι} {s s' : Shared ι} {state : CallState}
    (h : CallOk cfg K i s state) (hreturned : ∀ q, state = .running q → ∃ r, q = .ret r)
    (hholder : s'.holder = none) (hsections : s'.sections = s.sections) :
    CallOk cfg K' i s' state := by
  have hfree : s'.holder ≠ some i := by
    rw [hholder]
    intro h
    cases h
  cases state with
  | waiting => exact ⟨hfree, hsections ▸ h.2⟩
  | lost => exact hfree
  | running q =>
    obtain ⟨r, rfl⟩ := hreturned q rfl
    cases r with
    | ok v => exact .accepted hfree v
    | error e => exact .rejected hfree e

/-- One operation of the opening program keeps the invariant. -/
theorem SystemInv.opening (hc : SystemInv cfg c) {fs' : Fs} {op : FileOp}
    {k : Except IoError op.Val → Prog fileOps (Except DpopPortError (FileReplayStore ctrlOps))}
    {x : Except IoError op.Val} (hphase : c.phase = .opening (.call (S := fileOps) op k))
    (hop : fsHandler cfg.host True op c.shared.fs x fs') :
    SystemInv cfg { c with phase := .opening (k x), shared := { c.shared with fs := fs' } } := by
  have hok := hc.phase
  unfold PhaseOk at hok
  rw [hphase] at hok
  obtain ⟨hholder, hreturned, hsafe⟩ := hok
  have hnext := hsafe.2 x fs' hop
  refine ⟨hnext.inv, ?_, ⟨hholder, hreturned, hnext⟩, hc.nodup, hc.accepted, hc.expired⟩
  intro i
  exact callOk_of_returned (hc.calls i) (hreturned i) hholder rfl

theorem accepted_crash_iff (cfg : Config ι crypto) (c : System ι) (fs' : Fs) (j : ι) :
    (c.crash cfg fs').Accepted j ↔ c.Accepted j := by
  unfold System.Accepted
  show (∃ v, (c.calls j).crash = _) ↔ _
  cases hstate : c.calls j with
  | waiting => simp [CallState.crash]
  | lost => simp [CallState.crash]
  | running q =>
    cases q with
    | ret r => rfl
    | call op k => simp [CallState.crash]

/-- A crash keeps the invariant: what was accepted stays accepted and on disk. -/
theorem SystemInv.crash (hc : SystemInv cfg c) {fs' : Fs} (hcrash : c.shared.fs.Crash fs') :
    SystemInv cfg (c.crash cfg fs') := by
  have haccepted := accepted_crash_iff cfg c fs'
  have hmarkers : acceptedMarkers cfg (c.crash cfg fs') = acceptedMarkers cfg c :=
    acceptedMarkers_congr haccepted
  have hkept : Kept anyEntry (acceptedMarkers cfg c) c.shared.clock fs' :=
    hc.kept.crash (format_true cfg.host) hcrash
  -- only a call that has returned survives the crash
  have hreturned : ∀ i q, (c.calls i).crash = .running q → ∃ r, q = .ret r := by
    intro i q hq
    cases hstate : c.calls i with
    | waiting =>
      rw [hstate] at hq
      cases hq
    | lost =>
      rw [hstate] at hq
      cases hq
    | running p =>
      rw [hstate] at hq
      cases p with
      | ret r =>
        cases hq
        exact ⟨r, rfl⟩
      | call op k => cases hq
  refine ⟨?_, ?_, ?_, hc.nodup, ?_, ?_⟩
  · rw [hmarkers]
    exact hkept
  · intro i
    have hfree : (none : Option ι) ≠ some i := by
      intro h
      cases h
    have hcall := hc.calls i
    show CallOk cfg _ i _ (c.calls i).crash
    cases hstate : c.calls i with
    | waiting =>
      rw [hstate] at hcall
      exact ⟨hfree, hcall.2⟩
    | lost => exact hfree
    | running p =>
      rw [hstate] at hcall
      cases p with
      | ret r =>
        have hcall' : CallOk cfg (acceptedMarkers cfg c) i c.shared (.running (.ret r)) := hcall
        exact callOk_of_returned hcall'
          (fun q hq => ⟨r, (CallState.running.inj hq).symm⟩) rfl rfl
      | call op k => exact hfree
  · rw [hmarkers]
    exact ⟨rfl, hreturned, keeps_new (format_true cfg.host) _ _ _ _ _ hkept⟩
  · intro i hi
    exact hc.accepted i ((haccepted i).1 hi)
  · intro i j t hi hj
    exact hc.expired i j t ((haccepted i).1 hi) ((haccepted j).1 hj)

end Opening

/-- A proof that was accepted does not outlive the reading of a second acceptance. -/
theorem SystemInv.not_twice {c : System ι} (hc : SystemInv cfg c) {i j : ι} (hi : c.Accepted i)
    (hj : c.Accepted j) (h : (cfg.requests i).SameProof (cfg.requests j)) {t : I64}
    (hread : ReadAfter c.shared.sections i j t) : False := by
  have hlt := hc.expired i j t hi hj ⟨h.thumbprint, h.method, h.target, h.jti⟩ hread
  obtain ⟨asked, t', hasked, hmem, hle⟩ := hc.accepted j hj
  obtain ⟨later, earlier, u, heq, -⟩ := hread
  have ht : t = t' := reading_unique hc.nodup (by rw [heq]; simp) hmem
  rw [hasked.asks.expires, ← ht] at hle
  rw [VerifyCall.expiry, h.iat] at hlt
  rw [VerifyCall.expiry] at hle
  omega

theorem systemInv_initial (cfg : Config ι crypto) {fs : Fs} (hfs : fs.Holds anyEntry)
    (start : I64) :
    SystemInv cfg (System.initial cfg fs start) := by
  have hnone : ∀ i, ¬ (System.initial cfg fs start).Accepted i := by
    rintro i ⟨v, hv⟩
    cases hv
  have hkept : Kept anyEntry (acceptedMarkers cfg (System.initial cfg fs start)) start fs := by
    refine ⟨hfs, ?_⟩
    rintro key expires ⟨i, asked, hi, -⟩
    exact absurd hi (hnone i)
  refine ⟨hkept, ?_, ?_, List.nodup_nil, ?_, ?_⟩
  · intro i
    refine ⟨?_, fun t h => by cases h⟩
    intro h
    cases h
  · refine ⟨rfl, ?_, keeps_new (format_true cfg.host) _ _ _ _ _ hkept⟩
    intro i q hq
    cases hq
  · intro i hi
    exact absurd hi (hnone i)
  · intro i j t hi
    exact absurd hi (hnone i)

section Main

variable [DecidableEq ι]

/-- One step of a run keeps the invariant. -/
theorem SystemInv.step {c d : System ι} (hc : SystemInv cfg c) (hstep : SystemStep cfg c d) :
    SystemInv cfg d := by
  cases hstep with
  | start i hphase hi => exact hc.start hphase hi
  | call i hphase hi hop => exact hc.call hphase hi hop
  | opening hphase hop => exact hc.opening hphase hop
  | opened hphase =>
    have hok := hc.phase
    unfold PhaseOk at hok
    rw [hphase] at hok
    exact hc.setPhase (hok.2.2.2 _ rfl)
  | reopen hphase =>
    have hok := hc.phase
    unfold PhaseOk at hok
    rw [hphase] at hok
    exact hc.setPhase ⟨hok.1, hok.2.1, keeps_new (format_true cfg.host) _ _ _ _ _ hc.kept⟩
  | crash hcrash => exact hc.crash hcrash

/-- **At-most-once acceptance over the durable store.** In every state that a run reaches, from any
directory, through any interleaving, failures of directory operations and crashes. -/
theorem atMostOnce_of_reachable (cfg : Config ι crypto) {fs : Fs} (hfs : fs.Holds anyEntry)
    (start : I64) {c : System ι}
    (hrun : Relation.ReflTransGen (SystemStep cfg) (System.initial cfg fs start) c) :
    AcceptedOnce cfg c := by
  have hinv : SystemInv cfg c := by
    induction hrun with
    | refl => exact systemInv_initial cfg hfs start
    | tail _ hstep ih => exact ih.step hstep
  refine ⟨?_, hinv.expired, ?_⟩
  · intro i hi
    obtain ⟨asked, t, -, hmem, -⟩ := hinv.accepted i hi
    exact ⟨t, hmem, fun t' ht' => reading_unique hinv.nodup ht' hmem⟩
  · intro i j hi hj hsame
    by_contra hne
    obtain ⟨asked, t, -, hmem, -⟩ := hinv.accepted i hi
    obtain ⟨asked', t', -, hmem', -⟩ := hinv.accepted j hj
    rcases exists_readAfter hne hmem hmem' with hread | hread
    · exact hinv.not_twice hi hj hsame hread
    · exact hinv.not_twice hj hi hsame.symm hread

end Main

/-! ## Two calls with one proof -/

section Sample

variable [DecidableEq ι] {c : System ι} {i : ι}

/-- The opening program can run without faults. -/
theorem exists_opening {p : Prog fileOps (Except DpopPortError (FileReplayStore ctrlOps))}
    {r : Except DpopPortError (FileReplayStore ctrlOps)} {fs fs' : Fs}
    (h : Prog.Outcome (okHandler cfg.host) p fs r fs') (hphase : c.phase = .opening p)
    (hfs : c.shared.fs = fs) :
    ∃ d, Relation.ReflTransGen (SystemStep cfg) c d ∧ d.phase = .opening (.ret r) ∧
      d.calls = c.calls ∧ d.shared = { c.shared with fs := fs' } := by
  induction p generalizing c fs with
  | ret a =>
    obtain ⟨rfl, rfl⟩ := h
    exact ⟨c, .refl, hphase, rfl, by rw [← hfs]⟩
  | call op k ih =>
    obtain ⟨x, fs₁, hx, hrest⟩ := h
    subst hfs
    have hstep : SystemStep cfg c
        { c with phase := .opening (k x), shared := { c.shared with fs := fs₁ } } :=
      .opening hphase (Or.inl hx)
    have hphase' : ({ c with
        phase := .opening (k x), shared := { c.shared with fs := fs₁ } } : System ι).phase =
          .opening (k x) := rfl
    obtain ⟨d, hrun, hd, hcalls, hshared⟩ := ih x hrest hphase' rfl
    exact ⟨d, hrun.head hstep, hd, hcalls, hshared⟩

/-- The system gets to a state in which the call `i` stands at `p` and the others stand where they
stood. -/
def RunsTo (cfg : Config ι crypto) (store : FileReplayStore ctrlOps) (i : ι) (c : System ι)
    (p : Prog storeOps (Except DpopError VerifiedDpopProof)) (s : Shared ι) : Prop :=
  ∃ d, Relation.ReflTransGen (SystemStep cfg) c d ∧ d.phase = .serving store ∧
    d.calls i = .running p ∧ (∀ j, j ≠ i → d.calls j = c.calls j) ∧ d.shared = s

variable {store : FileReplayStore ctrlOps}
  {p q : Prog storeOps (Except DpopError VerifiedDpopProof)} {s s' : Shared ι}

theorem RunsTo.trans (h : RunsTo cfg store i c p s)
    (hnext : ∀ d : System ι, d.phase = .serving store → d.calls i = .running p → d.shared = s →
      RunsTo cfg store i d q s') : RunsTo cfg store i c q s' := by
  obtain ⟨d, hrun, hphase, hi, hothers, hs⟩ := h
  obtain ⟨e, hrun', hphase', hi', hothers', hs'⟩ := hnext d hphase hi hs
  exact ⟨e, hrun.trans hrun', hphase', hi', fun j hj => (hothers' j hj).trans (hothers j hj), hs'⟩

/-- One operation of a call. -/
theorem runsTo_operation {op : storeOps.Op}
    {k : storeOps.Res op → Prog storeOps (Except DpopError VerifiedDpopProof)}
    {x : storeOps.Res op} (hphase : c.phase = .serving store)
    (hi : c.calls i = .running (.call op k)) (hop : sharedHandler cfg.host i op c.shared x s') :
    RunsTo cfg store i c (k x) s' :=
  ⟨c.setCall i (k x) s', .single (.call i hphase hi hop), hphase, setCall_self c i (k x) s',
    fun _ hj => setCall_of_ne hj c (k x) s', rfl⟩

/-- A section can run without faults. -/
theorem runsTo_section {rest : Prog fileOps (Except DpopPortError ReplayStatus)}
    {f : Except DpopPortError ReplayStatus → Prog storeOps (Except DpopError VerifiedDpopProof)}
    {r : Except DpopPortError ReplayStatus} {fs' : Fs}
    (h : Prog.Outcome (okHandler cfg.host) rest c.shared.fs r fs')
    (hphase : c.phase = .serving store) (hi : c.calls i = .running (rest.inl >>= f)) :
    RunsTo cfg store i c (f r) { c.shared with fs := fs' } := by
  induction rest generalizing c with
  | ret a =>
    obtain ⟨rfl, rfl⟩ := h
    exact ⟨c, .refl, hphase, hi, fun _ _ => rfl, rfl⟩
  | call op k ih =>
    obtain ⟨x, fs₁, hx, hrest⟩ := h
    have hnext : c.calls i =
        .running (.call (S := storeOps) (.inl op) fun x => (k x).inl >>= f) := hi
    have hop : sharedHandler cfg.host i (.inl op) c.shared x { c.shared with fs := fs₁ } :=
      ⟨fs₁, Or.inl hx, rfl⟩
    refine (runsTo_operation hphase hnext hop).trans ?_
    intro d hphase hi hs
    have hrun := @ih x d (by rw [hs]; exact hrest) hphase hi
    rwa [hs] at hrun

variable {t : I64} {hashVerified : Bool} {asked : ReplayRequest}

/-- A call starts, reads the clock of the verifier, and asks for the lock. -/
theorem runsTo_lock (hclock : store.clock = ctrlClock) (hlock : store.operationLock = ctrlLock)
    (hphase : c.phase = .serving store) (hi : c.calls i = .waiting)
    (ht : c.shared.clock.toInt ≤ t.toInt)
    (hbinding : verifyBinding (cfg.requests i).proof (cfg.requests i).request = .ok ())
    (hclaims : verifyClaims cfg.policy (cfg.requests i).proof (cfg.requests i).request t =
      .ok (hashVerified, asked)) :
    RunsTo cfg store i c (.call (S := storeOps) (.inr .lock)
      (locked store (cfg.requests i) hashVerified asked)) (c.shared.read i t) := by
  have hstart : RunsTo cfg store i c (durableCall cfg.policy store (cfg.requests i)) c.shared :=
    ⟨_, .single (.start i hphase hi), hphase, setCall_self c i _ _,
      fun _ hj => setCall_of_ne hj c _ _, rfl⟩
  rw [durableCall_eq cfg.policy hclock hlock, hbinding] at hstart
  refine hstart.trans ?_
  intro d hphase hi hs
  have hread : sharedHandler cfg.host i (.inr .unixSeconds) d.shared (.ok t)
      (c.shared.read i t) := Or.inr ⟨t, by rw [hs]; exact ht, rfl, by rw [hs]⟩
  have hrun := runsTo_operation hphase hi hread
  simp only [claims, hclaims] at hrun
  exact hrun

/-- A call that asks for the lock takes it, and its section answers. -/
theorem runsTo_answer {r : Except DpopPortError ReplayStatus} {fs' : Fs}
    (hphase : c.phase = .serving store)
    (hi : c.calls i = .running (.call (S := storeOps) (.inr .lock)
      (locked store (cfg.requests i) hashVerified asked)))
    (hfree : c.shared.holder = none) (ht : c.shared.clock.toInt ≤ t.toInt)
    (hsection : Prog.Outcome (okHandler cfg.host)
      (store.directory.recordMarker store.capacity t asked.key asked.expiresAtUnix) c.shared.fs
      r fs') :
    RunsTo cfg store i c
      (.ret (verifyReplay (cfg.requests i).proof (cfg.requests i).request hashVerified r))
      ⟨fs', none, t, (i, t) :: c.shared.sections⟩ := by
  have hlocked : sharedHandler cfg.host i (.inr .lock) c.shared (.ok ())
      { c.shared with holder := some i } := Or.inr ⟨hfree, rfl, rfl⟩
  refine (runsTo_operation hphase hi hlocked).trans ?_
  intro d hphase hi hs
  have hread : sharedHandler cfg.host i (.inr .unixSeconds) d.shared (.ok t)
      ⟨c.shared.fs, some i, t, (i, t) :: c.shared.sections⟩ := by
    refine Or.inr ⟨t, by rw [hs]; exact ht, rfl, ?_⟩
    rw [hs, Shared.read, if_pos rfl]
  refine (runsTo_operation hphase hi hread).trans ?_
  intro d hphase hi hs
  refine (runsTo_section (by rw [hs]; exact hsection) hphase hi).trans ?_
  intro e hphase hi hs'
  have hunlock : sharedHandler cfg.host i (.inr .unlock) e.shared ()
      ⟨fs', none, t, (i, t) :: c.shared.sections⟩ := by
    rw [hs', hs]
    rfl
  exact runsTo_operation hphase hi hunlock

end Sample

end Runs

section Race

open DurableCall

/-- Two calls with the same proof, and one with a later proof. -/
def raceConfig : Config (Fin 3) permissiveCrypto where
  host := sampleHost
  path := samplePath
  uid := 1000
  capacity := 8
  policy := .default
  requests := raceCalls

/-- Two calls with one proof both read the clock before the first of them takes the lock. The first
is accepted and the second is refused as a replay. -/
theorem atMostOnce_of_reachable_race : ∃ c,
    Relation.ReflTransGen (SystemStep raceConfig)
      (System.initial raceConfig emptyDirectory lastSecond) c ∧ c.Accepted 0 ∧
      c.calls 1 = .running (.ret (.error .replayDetected)) ∧ AcceptedOnce raceConfig c := by
  have hempty := isEmpty_emptyDirectory
  obtain ⟨⟨store, fs₁, hopen⟩, -⟩ := openStore_succeeds (hempty.holds (EntryOk sampleHost.uid))
    (by decide : 8 ≠ 0) rfl serviceOwned_sample
  obtain ⟨hopened, hfs₁, hrecovered⟩ := openStore_outcome (hempty.holds _) hopen
  obtain ⟨c₁, hrun₁, hphase₁, hcalls₁, hshared₁⟩ :
      ∃ d, Relation.ReflTransGen (SystemStep raceConfig)
        (System.initial raceConfig emptyDirectory lastSecond) d ∧
        d.phase = .opening (.ret (.ok store)) ∧ d.calls = (fun _ => .waiting) ∧
        d.shared = ⟨fs₁, none, lastSecond, []⟩ := exists_opening hopen rfl rfl
  have hopen₂ : SystemStep raceConfig c₁ { c₁ with phase := .serving store } := .opened hphase₁
  have hbinding : ∀ i, verifyBinding (raceConfig.requests i).proof (raceConfig.requests i).request =
      .ok () := by decide +kernel
  -- both calls read the clock and ask for the lock
  obtain ⟨c₂, hrun₂, hphase₂, h₂0, h₂, hs₂⟩ : RunsTo raceConfig store 0
      { c₁ with phase := .serving store } _ _ :=
    runsTo_lock hopened.clock hopened.operationLock rfl (by rw [hcalls₁])
      (by rw [hshared₁]; exact Int.le_refl lastSecond.toInt) (hbinding 0) (verifyClaims_race 0)
  obtain ⟨c₃, hrun₃, hphase₃, h₃1, h₃, hs₃⟩ : RunsTo raceConfig store 1 c₂ _ _ :=
    runsTo_lock hopened.clock hopened.operationLock hphase₂
      (by rw [h₂ 1 (by decide), hcalls₁])
      (by rw [hs₂]; exact Int.le_refl lastSecond.toInt) (hbinding 1) (verifyClaims_race 1)
  have hshared₃ : c₃.shared = ⟨fs₁, none, lastSecond, []⟩ := by
    rw [hs₃, hs₂, hshared₁]
    rfl
  have hdir : store.directory.ownerUid = sampleHost.uid := by rw [hopened.directory]
  have hnonneg : 0 ≤ (raceAsked 0).expiresAtUnix.toInt := by decide
  have hlast : lastSecond.toInt ≤ (raceAsked 0).expiresAtUnix.toInt := by decide
  obtain ⟨fs₂, hsection, hencodes⟩ := @exists_section_encodes sampleHost lastSecond .empty fs₁
    store.directory (raceAsked 0).key _ hdir hnonneg store.capacity
    (encodes_empty hempty hfs₁ hrecovered) hlast
  obtain ⟨fs₃, hsection', -⟩ := @exists_section_encodes sampleHost lastSecond _ fs₂
    store.directory (raceAsked 0).key _ hdir hnonneg store.capacity hencodes hlast
  obtain ⟨hfresh, hreplay⟩ : (recordEntry store.capacity lastSecond (raceAsked 0).key
      (raceAsked 0).expiresAtUnix .empty).1 = .ok .fresh ∧
      (recordEntry store.capacity lastSecond (raceAsked 0).key (raceAsked 0).expiresAtUnix
        (recordEntry store.capacity lastSecond (raceAsked 0).key
          (raceAsked 0).expiresAtUnix .empty).2).1 = .ok .replay := by
    rw [hopened.capacity_eq]
    decide +kernel
  rw [hfresh] at hsection
  rw [hreplay] at hsection'
  obtain ⟨c₄, hrun₄, hphase₄, h₄0, h₄, hs₄⟩ : RunsTo raceConfig store 0 c₃ _ _ :=
    runsTo_answer hphase₃ ((h₃ 0 (by decide)).trans h₂0) (by rw [hshared₃])
      (by rw [hshared₃]) (by rw [hshared₃]; exact hsection)
  obtain ⟨c₅, hrun₅, -, h₅1, h₅, -⟩ : RunsTo raceConfig store 1 c₄ _ _ :=
    runsTo_answer hphase₄ ((h₄ 1 (by decide)).trans h₃1) (by rw [hs₄])
      (by rw [hs₄]) (by rw [hs₄]; exact hsection')
  have hrun := ((((hrun₁.tail hopen₂).trans hrun₂).trans hrun₃).trans hrun₄).trans hrun₅
  exact ⟨c₅, hrun, ⟨_, (h₅ 0 (by decide)).trans h₄0⟩, h₅1,
    atMostOnce_of_reachable raceConfig (hempty.holds _) lastSecond hrun⟩

end Race

end Keylix.Verifier

import Keylix.Verifier.Replay.Refinement

/-!
# Crash recovery

A store that answered some calls crashes in the middle of another one. Whatever the crash leaves of
the changes that were not on disk, the directory is well formed, opening it again succeeds and
removes the pending files and no marker, and every marker that was promised and is not past its
expiry is there (`crash_recovery`). The store then follows the in-memory store from the map that the
directory encodes.
-/

set_option autoImplicit false

namespace Keylix.Verifier

open Keylix.Lib Keylix.Dpop
open Keylix.Lib.Prog (Safe Outcome Reach)

/-! ## What a recovered directory encodes -/

/-- A well-formed directory without pending files is the encoding of a map. -/
theorem exists_encodes {uid : Nat} {s : Fs} (hs : s.Holds (EntryOk uid))
    (hlock : s.dir.lookup instanceLockName ≠ none)
    (hpending : ∀ n : FileName, isPendingName n.bytes = true → s.dir.lookup n = none) :
    ∃ m, Encodes uid m s := by
  have hread : ∀ key ino, s.dir.lookup (nameFor key) = some ino →
      ∃ expires : I64, 0 ≤ expires.toInt ∧ (s.inodes ino).content = markerText expires ∧
        readExpiryAt uid s (nameFor key) = .ok expires := by
    intro key ino hino
    obtain ⟨expires, hexpires, howned, hcontent⟩ := (hs.lookup hino).2.of_nameFor
    exact ⟨expires, hexpires, hcontent, readExpiryAt_of_lookup hino howned hcontent hexpires⟩
  have : Nonempty ReplayKey := ⟨⟨List.replicate 32 0, rfl⟩⟩
  -- the keys of the map are the preimages of the names of the directory
  obtain ⟨m, hm⟩ := FiniteMap.exists_lookup_eq (s.dir.keys.map (Function.invFun nameFor))
    (fun key => (readExpiryAt uid s (nameFor key)).toOption) (by
      intro key hkey
      cases hino : s.dir.lookup (nameFor key) with
      | none =>
        rw [readExpiryAt, hino] at hkey
        exact absurd rfl hkey
      | some ino =>
        exact List.mem_map.2 ⟨nameFor key, FiniteMap.mem_keys_iff.2 ⟨ino, hino⟩,
          Function.leftInverse_invFun nameFor_injective key⟩)
  refine ⟨m, hs, hlock, hpending, ?_⟩
  intro key expires
  rw [hm key]
  cases hino : s.dir.lookup (nameFor key) with
  | none =>
    rw [readExpiryAt, hino]
    simp [Except.toOption]
  | some ino =>
    obtain ⟨expires', hexpires', hcontent', hread'⟩ := hread key ino hino
    rw [hread']
    simp only [Except.toOption, Option.some.injEq, exists_eq_left']
    constructor
    · rintro rfl
      exact hcontent'
    · intro hcontent
      exact markerText_inj hexpires' (hcontent'.symm.trans hcontent)

/-! ## Calls with a crash -/

section Crash

variable {host : FsHost} {path : Path} {uid capacity : Nat} {store : FileReplayStore ctrlOps}
  {s : Fs}

/-- The entries are well formed and the markers of `K` are on disk. -/
def Promised (host : FsHost) (K : Markers) (s : Fs) : Prop :=
  s.Holds (EntryOk host.uid) ∧ ∀ key expires, K key expires →
    s.Durable (nameFor key) (markerText expires)

theorem promised_of_kept {K : Markers} {now : I64}
    (hlive : ∀ k e, K k e → now.toInt ≤ e.toInt) (h : Kept (EntryOk host.uid) K now s) :
    Promised host K s := by
  refine ⟨h.holds, ?_⟩
  intro key expires hK
  rcases h.marker key expires hK with hdurable | hlt
  · exact hdurable
  · have := hlive key expires hK
    omega

/-- A call keeps the markers that its reading does not expire, in every state of it, and the answer
`fresh` promises one more. -/
theorem safe_call (hopened : OpenedStore host path uid capacity store) {K : Markers}
    (hK : ∀ k e, K k e → 0 ≤ e.toInt) (call : StoreCall)
    (hlive : ∀ now, call.reading = .ok now → ∀ k e, K k e → now.toInt ≤ e.toInt)
    (hs : Promised host K s) :
    Safe (callHandler host call.reading) (Promised host K)
      (fun r s' => r = .ok .fresh → s'.Durable (nameFor call.key) (markerText call.expires))
      (store.checkAndRecord call.key call.expires) s := by
  apply safe_checkAndRecord (fun _ _ _ _ h => h) hopened.clock hopened.operationLock _ _ hs
  · intro e _ h
    cases h
  · intro now hreading
    have hkept : Kept (EntryOk host.uid) K now s :=
      ⟨hs.1, fun key expires hk => Or.inl (hs.2 key expires hk)⟩
    have hsafe : KeepsAnswer host False (EntryOk host.uid) K now call.key call.expires
        (store.directory.recordMarker store.capacity now call.key call.expires) s :=
      safe_recordMarker (format_entryOk host) hK call.nonneg store.capacity hkept
    refine (hsafe.handler_mono (okHandler_le_fsHandler host False)).mono ?_ ?_
    · intro s hs
      exact promised_of_kept (hlive now hreading) hs
    · intro r s _ hanswered hfresh
      exact (hanswered hfresh).1

/-- The marker of one key with its expiry. -/
def oneMarker (key : ReplayKey) (expires : I64) : Markers := fun k e => k = key ∧ e = expires

theorem promised_oneMarker {key : ReplayKey} {expires : I64} (hs : s.Holds (EntryOk host.uid))
    (h : s.Durable (nameFor key) (markerText expires)) :
    Promised host (oneMarker key expires) s := by
  refine ⟨hs, ?_⟩
  rintro k e ⟨rfl, rfl⟩
  exact h

/-- The reading of a call does not expire a marker. -/
def Spares (expires : I64) (call : StoreCall) : Prop :=
  ∀ now, call.reading = .ok now → now.toInt ≤ expires.toInt

/-- A promised marker is kept by every call whose reading spares it. -/
theorem promised_fileRun (hopened : OpenedStore host path uid capacity store) {K : Markers}
    (hK : ∀ k e, K k e → 0 ≤ e.toInt) {calls : List StoreCall}
    {results : List (Except DpopPortError ReplayStatus)} {s' : Fs}
    (hspares : ∀ call ∈ calls, ∀ k e, K k e → Spares e call) (hs : Promised host K s)
    (hrun : FileRun host store calls s results s') : Promised host K s' := by
  induction calls generalizing s results with
  | nil =>
    obtain ⟨-, rfl⟩ := hrun
    exact hs
  | cons call calls ih =>
    obtain ⟨r, s₁, rest, hcall, hrest, -⟩ := hrun
    have hlive : ∀ now, call.reading = .ok now → ∀ k e, K k e → now.toInt ≤ e.toInt :=
      fun now hnow k e hk => hspares call List.mem_cons_self k e hk now hnow
    have hs₁ := ((safe_call hopened hK call hlive hs).outcome hcall).1
    exact ih (fun c hc => hspares c (List.mem_cons_of_mem _ hc)) hs₁ hrest

/-- No marker is asked for. -/
theorem promised_none (hs : s.Holds (EntryOk host.uid)) : Promised host (fun _ _ => False) s :=
  ⟨hs, fun _ _ hfalse => hfalse.elim⟩

/-- A call of the run answered `fresh` for the marker, and no later reading expires it. -/
def Remembered (log : List (StoreCall × Except DpopPortError ReplayStatus)) (key : ReplayKey)
    (expires : I64) : Prop :=
  ∃ before call after, log = before ++ (call, .ok .fresh) :: after ∧ call.key = key ∧
    call.expires = expires ∧ ∀ later ∈ after, Spares expires later.1

theorem length_eq_of_fileRun {calls : List StoreCall}
    {results : List (Except DpopPortError ReplayStatus)} {s' : Fs}
    (hrun : FileRun host store calls s results s') : calls.length = results.length := by
  induction calls generalizing s results with
  | nil =>
    obtain ⟨rfl, -⟩ := hrun
    rfl
  | cons call calls ih =>
    obtain ⟨r, s₁, rest, -, hrest, rfl⟩ := hrun
    rw [List.length_cons, List.length_cons, ih hrest]

/-- The marker of every call that is remembered is on disk. -/
theorem durable_of_remembered (hopened : OpenedStore host path uid capacity store)
    {calls : List StoreCall} {results : List (Except DpopPortError ReplayStatus)} {s' : Fs}
    {key : ReplayKey} {expires : I64} (hs : s.Holds (EntryOk host.uid))
    (hrun : FileRun host store calls s results s')
    (hremembered : Remembered (calls.zip results) key expires) :
    0 ≤ expires.toInt ∧ s'.Durable (nameFor key) (markerText expires) := by
  induction calls generalizing s results with
  | nil =>
    obtain ⟨before, call, after, hlog, -⟩ := hremembered
    simp at hlog
  | cons call calls ih =>
    obtain ⟨r, s₁, rest, hcall, hrest, rfl⟩ := hrun
    have hsafe := safe_call hopened (fun _ _ hfalse => hfalse.elim) call
      (fun _ _ _ _ hfalse => hfalse.elim) (promised_none hs)
    obtain ⟨hs₁, hfresh⟩ := hsafe.outcome hcall
    obtain ⟨before, call', after, hlog, hkey, hexpires, hspares⟩ := hremembered
    rw [List.zip_cons_cons] at hlog
    cases before with
    | nil =>
      -- the call is the first one, and the rest of the run keeps its marker
      obtain ⟨hhead, rfl⟩ := List.cons.inj hlog
      cases hhead
      subst hkey hexpires
      have hone := promised_oneMarker hs₁.1 (hfresh rfl)
      refine ⟨call.nonneg, ?_⟩
      have hkept := promised_fileRun hopened (K := oneMarker call.key call.expires)
        (by rintro k e ⟨-, rfl⟩; exact call.nonneg) ?_ hone hrest
      · exact hkept.2 _ _ ⟨rfl, rfl⟩
      · rintro later hlater k e ⟨-, rfl⟩
        -- every later call has an answer, so it stands in the log
        rw [← List.map_fst_zip (length_eq_of_fileRun hrest).le] at hlater
        obtain ⟨entry, hentry, rfl⟩ := List.mem_map.1 hlater
        exact hspares entry hentry
    | cons entry before =>
      obtain ⟨-, htail⟩ := List.cons.inj hlog
      exact ih hs₁.1 hrest ⟨before, call', after, htail, hkey, hexpires, hspares⟩

/-- What holds after a crash. -/
structure CrashSurvived (host : FsHost) (path : Path) (uid capacity : Nat) (K : Markers)
    (s : Fs) : Prop where
  /-- The directory holds the lock file, pending files and complete markers only. -/
  entries : ∀ n ino, s.dir.lookup n = some ino → EntryOk uid n (s.inodes ino)
  /-- The store can be opened again. -/
  opens : ∃ store s', Outcome (okHandler host) (openStore path uid capacity) s (.ok store) s'
  /-- Every attempt to open it succeeds; it removes the pending files and no marker, and the
  markers of `K` are there. Every later call answers as an in-memory store that holds what the
  directory encodes. -/
  recovers : ∀ r s', Outcome (okHandler host) (openStore path uid capacity) s r s' →
    ∃ store m, r = .ok store ∧ Recovered s s' ∧ Encodes uid m s' ∧
      (∀ key expires, K key expires → m.lookup key = some expires) ∧
      ∀ calls results s'', FileRun host store calls s' results s'' →
        results = (memRun store.capacity store.capacity_ne calls m).1 ∧
          Encodes uid (memRun store.capacity store.capacity_ne calls m).2 s''

/-- A directory with promised markers survives every crash. -/
theorem crashSurvived_of_promised {K : Markers} {s' : Fs} (hcap : capacity ≠ 0)
    (huid : uid = host.uid) (howned : SecureDir.ServiceOwned host path uid)
    (hs : Promised host K s) (hcrash : s.Crash s') :
    CrashSurvived host path uid capacity K s' := by
  subst huid
  have hs' : s'.Holds (EntryOk host.uid) := hs.1.crash (format_entryOk host).crash hcrash
  obtain ⟨hopens, hall⟩ := openStore_succeeds hs' hcap rfl howned
  refine ⟨fun n ino hino => (hs'.lookup hino).2, hopens, ?_⟩
  intro r s₁ hopen
  obtain ⟨store, rfl⟩ := hall r s₁ hopen
  obtain ⟨hopened, hs₁, hrecovered⟩ := openStore_outcome hs' hopen
  obtain ⟨m, hm⟩ := exists_encodes hs₁ hrecovered.lock hrecovered.noPending
  refine ⟨store, m, rfl, hrecovered, hm, ?_, ?_⟩
  · intro key expires hK
    obtain ⟨ino, hino, hcontent⟩ := ((hs.2 key expires hK).crash hcrash).lookup
    have hlt := (hs'.lookup hino).1
    refine (hm.marker key expires).2 ⟨ino, ?_, ?_⟩
    · rw [hrecovered.others _ (not_isPendingName_nameFor key) (nameFor_ne_lock key)]
      exact hino
    · rw [hrecovered.inodes ino hlt]
      exact hcontent
  · intro calls results s₂ hrun
    exact fileRun_eq_memRun hopened.clock hopened.operationLock hopened.directory calls hm hrun

/-- **Crash recovery.** A store that was opened on an empty directory answers some calls, and the
process crashes at any point of a further one. -/
theorem crash_recovery (host : FsHost) (path : Path) (uid capacity : Nat) {s₀ s₁ s₂ s₃ s₄ : Fs}
    {store : FileReplayStore ctrlOps} (hempty : s₀.IsEmpty)
    (hopen : Outcome (okHandler host) (openStore path uid capacity) s₀ (.ok store) s₁)
    (calls : List StoreCall) {results : List (Except DpopPortError ReplayStatus)}
    (hrun : FileRun host store calls s₁ results s₂) (call : StoreCall)
    {rest : Prog storeOps (Except DpopPortError ReplayStatus)}
    (hreach : Reach (callHandler host call.reading)
      (store.checkAndRecord call.key call.expires, s₂) (rest, s₃))
    (hcrash : s₃.Crash s₄) :
    CrashSurvived host path uid capacity
      (fun key expires => Remembered (calls.zip results) key expires ∧ Spares expires call) s₄ := by
  obtain ⟨hopened, hs₁, -⟩ := openStore_outcome (hempty.holds _) hopen
  have hs₂ := promised_fileRun hopened (fun _ _ hfalse => hfalse.elim)
    (fun _ _ _ _ hfalse => hfalse.elim) (promised_none hs₁) hrun
  have hpromised : Promised host
      (fun key expires => Remembered (calls.zip results) key expires ∧ Spares expires call) s₂ := by
    refine ⟨hs₂.1, ?_⟩
    intro key expires hK
    exact (durable_of_remembered hopened hs₁ hrun hK.1).2
  have hsafe := safe_call hopened
    (fun key expires hK => (durable_of_remembered hopened hs₁ hrun hK.1).1) call
    (fun now hnow key expires hK => hK.2 now hnow) hpromised
  exact crashSurvived_of_promised (hopened.capacity_eq ▸ store.capacity_ne) hopened.uid_eq
    hopened.owned (hsafe.reach hreach).inv hcrash

/-! ## A crash before the directory is synced -/

/-- A call that binds a name runs through a state in which a crash loses the name. -/
theorem exists_crash_of_outcome {α : Type} {reading : Except DpopPortError I64}
    {p : Prog storeOps α} {s' : Fs} {r : α} {n : FileName}
    (h : Outcome (callHandler host reading) p s r s') (hn : s.dir.lookup n = none)
    (hn' : s'.dir.lookup n ≠ none) : ∃ rest s₁ s₂,
      Reach (callHandler host reading) (p, s) (rest, s₁) ∧ s₁.dir.lookup n ≠ none ∧
        s₁.Crash s₂ ∧ s₂.dir.lookup n = none := by
  induction p generalizing s with
  | ret a =>
    obtain ⟨-, rfl⟩ := h
    exact absurd hn hn'
  | call op k ih =>
    obtain ⟨x, s₁, hop, h⟩ := h
    by_cases hbound : s₁.dir.lookup n = none
    · obtain ⟨rest, s₂, s₃, hreach, hlater⟩ := ih x h hbound
      exact ⟨rest, s₂, s₃, hreach.head (.call hop), hlater⟩
    · -- this operation binds the name
      rcases op with op | op
      · obtain ⟨s₂, hcrash, hlost⟩ := exists_crash_of_bound host hop hn hbound
        exact ⟨k x, s₁, s₂, .single (.call hop), hbound, hcrash, hlost⟩
      · have hsame : s₁ = s := by
          cases op with
          | unixSeconds => exact hop.2
          | lock => exact hop.2
          | unlock => exact hop
        exact absurd (hsame ▸ hn) hbound

def otherKey : ReplayKey := ⟨List.replicate 32 8, rfl⟩

/-- A call with another key. -/
def otherCall : StoreCall :=
  ⟨.ok sampleTime, otherKey, lastSecond, firstCall.nonneg⟩

/-- A process that answers one call and crashes in the next after it published its marker. The crash
loses that marker and keeps the one of the first call. -/
theorem crash_recovery_sample : ∃ store s₁ s₂ results rest s₃ s₄,
    Outcome (okHandler sampleHost) (openStore samplePath 1000 8) emptyDirectory (.ok store) s₁ ∧
      FileRun sampleHost store [firstCall] s₁ results s₂ ∧
      Reach (callHandler sampleHost otherCall.reading)
        (store.checkAndRecord otherCall.key otherCall.expires, s₂) (rest, s₃) ∧ s₃.Crash s₄ ∧
      s₃.dir.lookup (nameFor otherKey) ≠ none ∧ s₄.dir.lookup (nameFor otherKey) = none ∧
      Remembered ([firstCall].zip results) sampleKey firstCall.expires ∧
      CrashSurvived sampleHost samplePath 1000 8 (fun key expires =>
        Remembered ([firstCall].zip results) key expires ∧ Spares expires otherCall) s₄ := by
  obtain ⟨⟨store, s₁, hopen⟩, -⟩ := openStore_succeeds
    (isEmpty_emptyDirectory.holds (EntryOk sampleHost.uid)) (by decide : 8 ≠ 0) rfl
    serviceOwned_sample
  obtain ⟨results, s₂, hrun⟩ := exists_fileRun sampleHost store [firstCall] s₁
  obtain ⟨rest', s', hrun'⟩ := exists_fileRun sampleHost store [otherCall] s₂
  obtain ⟨⟨-, -, hclock, hlock, hdir, hcap⟩, hs₁, hrecovered⟩ :=
    openStore_outcome (isEmpty_emptyDirectory.holds _) hopen
  obtain ⟨hresults, hs₂⟩ := fileRun_eq_memRun hclock hlock hdir [firstCall]
    (encodes_empty isEmpty_emptyDirectory hs₁ hrecovered) hrun
  obtain ⟨-, hs'⟩ := fileRun_eq_memRun hclock hlock hdir [otherCall] hs₂ hrun'
  -- the answers, and what the maps hold for the other key
  have hmaps : ∀ hne, (memRun 8 hne [firstCall] .empty).1 = [.ok .fresh] ∧
      (memRun 8 hne [firstCall] .empty).2.lookup otherKey = none ∧
      (memRun 8 hne [otherCall] (memRun 8 hne [firstCall] .empty).2).2.lookup otherKey =
        some lastSecond := by
    decide +kernel
  obtain ⟨clock, directory, capacity, file, lock, hne⟩ := store
  cases hcap
  obtain ⟨hfresh, hbefore, hafter⟩ := hmaps hne
  have hremembered : Remembered ([firstCall].zip results) sampleKey firstCall.expires := by
    rw [hresults, hfresh]
    exact ⟨[], firstCall, [], rfl, rfl, rfl, by simp⟩
  have hbound : s'.dir.lookup (nameFor otherKey) ≠ none := by
    obtain ⟨ino, hino, -⟩ := (hs'.marker otherKey lastSecond).1 hafter
    rw [hino]
    exact Option.some_ne_none ino
  obtain ⟨r, s₅, -, hcall, ⟨-, rfl⟩, -⟩ := hrun'
  obtain ⟨rest, s₃, s₄, hreach, hlinked, hcrash, hlost⟩ :=
    exists_crash_of_outcome hcall (hs₂.lookup_eq_none hbefore) hbound
  exact ⟨_, s₁, s₂, results, rest, s₃, s₄, hopen, hrun, hreach, hcrash, hlinked, hlost, hremembered,
    crash_recovery sampleHost samplePath 1000 8 isEmpty_emptyDirectory hopen [firstCall] hrun
      otherCall hreach hcrash⟩

end Crash

end Keylix.Verifier

import Keylix.Verifier.Replay.Safety

/-!
# Opening a directory

`FileReplayStore.new` on a directory whose entries are well formed, without I/O errors: it succeeds
when the directory belongs to the process, and then the lock file is there, every pending file is
gone and every other entry is as it was (`runs_new`).
-/

set_option autoImplicit false

namespace Keylix.Verifier

open Keylix.Lib Keylix.Dpop
open Keylix.Lib.Prog (Safe)

/-- The guarantee about runs without faults. -/
abbrev Runs (host : FsHost) (now : I64) {α : Type} (Q : α → Fs → Prop) (p : Prog fileOps α)
    (s : Fs) : Prop :=
  Safe (fsHandler host False) (Kept (EntryOk host.uid) (fun _ _ => False) now) Q p s

theorem kept_of_holds {E : FileName → Inode → Prop} {s : Fs} (h : s.Holds E) (now : I64) :
    Kept E (fun _ _ => False) now s :=
  ⟨h, fun _ _ hfalse => hfalse.elim⟩

theorem uid_eq_of_ownedFile {uid uid' : Nat} {stat : Stat} (h : ownedFile uid stat = true)
    (h' : ownedFile uid' stat = true) : uid = uid' := by
  simp only [ownedFile, Bool.and_eq_true, decide_eq_true_eq] at h h'
  exact h.1.2.symm.trans h'.1.2

theorem uid_eq_of_validLock {uid uid' : Nat} {stat : Stat} (h : validLock uid stat = true)
    (h' : ownedFile uid' stat = true) : uid = uid' := by
  rw [validLock, Bool.and_eq_true] at h
  exact uid_eq_of_ownedFile h.1 h'

section Lock

variable {host : FsHost} {now : I64} {s : Fs} {directory : SecureDir}

theorem ownedFile_of_lock {uid : Nat} {i : Inode} (h : EntryOk uid instanceLockName i) :
    ownedFile uid i.stat = true := by
  have hvalid := h.of_lock
  rw [validLock, Bool.and_eq_true] at hvalid
  exact hvalid.1

/-- The lock file is created or opened, and it must belong to the expected user. -/
theorem runs_acquireInstanceLock {Q : Except DpopPortError Nat → Fs → Prop}
    (hs : Kept (EntryOk host.uid) (fun _ _ => False) now s)
    (hnew : directory.ownerUid = host.uid → s.dir.lookup instanceLockName = none →
      Q (.ok s.next) (s.create instanceLockName (host.file 0o600 [] false)))
    (hold : directory.ownerUid = host.uid → ∀ ino, s.dir.lookup instanceLockName = some ino →
      Q (.ok ino) s)
    (herr : directory.ownerUid ≠ host.uid → ∀ s', Q (.error .mk) s') :
    Runs host now Q directory.acquireInstanceLock s := by
  apply Safe.of_bind
  refine safe_newFile hs ?_ ?_ fun hfalse => hfalse.elim
  · intro hfree
    -- the created file has the owner and the mode of the process, so that only another expected
    -- owner can refuse it
    have hcreated := hs.create hfree (format_entryOk host).lock
    have hino : (s.create instanceLockName (host.file 0o600 [] false)).inodes s.next =
        host.file 0o600 [] false := Function.update_self _ _ _
    refine ⟨hcreated, ?_, fun hfalse => hfalse.elim⟩
    apply safe_lockFile hcreated
    · intro hvalid
      rw [hino] at hvalid
      exact hnew (uid_eq_of_validLock hvalid (ownedFile_file host [] false)) hfree
    · rintro (hvalid | hfalse)
      · apply herr
        intro huid
        apply hvalid
        rw [hino, huid]
        exact EntryOk.of_lock (format_entryOk host).lock
      · exact hfalse.elim
  · intro hbound
    -- an existing entry is checked by name, opened, and checked again through its handle
    obtain ⟨ino, hino⟩ := Option.ne_none_iff_exists'.1 hbound
    have hentry := (hs.holds.lookup hino).2
    apply Safe.propagate
    apply safe_validateInstanceLock hs
    · apply Safe.propagate
      refine safe_openFile hs ?_ fun hfalse => hfalse.elim
      simp only [Fs.find, hino]
      apply safe_lockFile hs
      · intro hvalid
        exact hold (uid_eq_of_validLock hvalid (ownedFile_of_lock hentry)) ino hino
      · rintro (hvalid | hfalse)
        · apply herr
          intro huid
          exact hvalid (huid ▸ hentry.of_lock)
        · exact hfalse.elim
    · rintro (hlock | hfalse)
      · apply herr
        intro huid
        exact hlock ⟨ino, hino, huid ▸ hentry.of_lock⟩
      · exact hfalse.elim

end Lock

/-! ## Pending files -/

/-- The directory without the pending files among the names. -/
structure Scavenged (names : List FileName) (s s' : Fs) : Prop where
  lookup : ∀ n, s'.dir.lookup n =
    if isPendingName n.bytes = true ∧ n ∈ names then none else s.dir.lookup n
  inodes : s'.inodes = s.inodes
  next : s'.next = s.next

namespace Scavenged

variable {name : FileName} {names : List FileName} {s s' : Fs}

theorem nil (s : Fs) : Scavenged [] s s := ⟨fun n => by simp, rfl, rfl⟩

/-- A pending file comes first. -/
theorem cons (hpending : isPendingName name.bytes = true)
    (h : Scavenged names (s.change (.unlink name)) s') : Scavenged (name :: names) s s' := by
  refine ⟨?_, h.inodes, h.next⟩
  intro n
  rw [h.lookup n, Fs.lookup_unlink]
  by_cases hn : n = name
  · subst hn
    simp [hpending]
  · simp [hn]

/-- Another file comes first. -/
theorem skip (hpending : ¬ isPendingName name.bytes = true) (h : Scavenged names s s') :
    Scavenged (name :: names) s s' := by
  refine ⟨?_, h.inodes, h.next⟩
  intro n
  rw [h.lookup n]
  by_cases hn : n = name
  · subst hn
    simp [hpending]
  · simp [hn]

end Scavenged

section Pending

variable {host : FsHost} {now : I64} {s : Fs} {directory : SecureDir}

theorem runs_scavenge (hdir : directory.ownerUid = host.uid) (names : List FileName)
    (hnodup : names.Nodup) (hbound : ∀ n ∈ names, s.dir.lookup n ≠ none)
    (hs : Kept (EntryOk host.uid) (fun _ _ => False) now s) (removedAny : Bool) :
    Runs host now (fun r s' => (∃ removed, r = .ok removed) ∧ Scavenged names s s')
      (directory.scavenge removedAny names) s := by
  -- the names are those of one listing: each is still bound when its turn comes
  induction names generalizing s removedAny with
  | nil => exact ⟨hs, ⟨removedAny, rfl⟩, .nil s⟩
  | cons name names ih =>
    obtain ⟨hname, htail⟩ := List.nodup_cons.1 hnodup
    have hrest : ∀ n ∈ names, s.dir.lookup n ≠ none :=
      fun n hn => hbound n (List.mem_cons_of_mem _ hn)
    obtain ⟨ino, hino⟩ := Option.ne_none_iff_exists'.1 (hbound name List.mem_cons_self)
    have hentry := (hs.holds.lookup hino).2
    simp only [SecureDir.scavenge]
    rw [if_pos hentry.isUtf8]
    split
    · next hpending =>
      have hremoved := hs.unlink_pending hpending
      -- a removal unbinds its own name alone
      have hrest' : ∀ n ∈ names, (s.change (.unlink name)).dir.lookup n ≠ none := by
        intro n hn
        rw [Fs.lookup_unlink, if_neg]
        · exact hrest n hn
        · rintro rfl
          exact hname hn
      apply Safe.propagate
      apply Safe.propagate
      refine safe_metadata hs ?_ fun hfalse => hfalse.elim
      simp only [Fs.metadata, Fs.find, hino, Except.map, hdir, hentry.of_pending hpending, if_true]
      apply Safe.propagate
      refine safe_removeFile hs ?_ ?_ fun hfalse => hfalse.elim
      · intro _
        refine ⟨hremoved, ⟨hremoved, ?_⟩, fun hfalse => hfalse.elim⟩
        refine (ih htail hrest' hremoved true).mono (fun _ hk => hk) ?_
        rintro r s' - ⟨hr, hs'⟩
        exact ⟨hr, hs'.cons hpending⟩
      -- the file was there a moment ago, and nobody else removes it
      · intro hnone
        rw [hino] at hnone
        cases hnone
    · next hpending =>
      refine (ih htail hrest hs removedAny).mono (fun _ hk => hk) ?_
      rintro r s' - ⟨hr, hs'⟩
      exact ⟨hr, hs'.skip hpending⟩

/-- Every pending file of the directory is removed. -/
theorem runs_cleanupStartupPending (hdir : directory.ownerUid = host.uid)
    (hs : Kept (EntryOk host.uid) (fun _ _ => False) now s) :
    Runs host now (fun r s' => r = .ok () ∧ Scavenged s.dir.keys s s')
      directory.cleanupStartupPending s := by
  apply Safe.propagate
  refine safe_listNames hs ?_ fun hfalse => hfalse.elim
  intro names hperm
  have hbound : ∀ n ∈ names, s.dir.lookup n ≠ none := by
    intro n hn hnone
    exact FiniteMap.lookup_eq_none_iff.1 hnone (hperm.mem_iff.1 hn)
  apply Safe.propagate
  refine (runs_scavenge hdir names (hperm.nodup_iff.2 s.dir.nodup) hbound hs false).mono
    (fun _ hk => hk) ?_
  rintro r s' hs' ⟨⟨removed, rfl⟩, hscavenged⟩
  have hall : Scavenged s.dir.keys s s' := by
    refine ⟨?_, hscavenged.inodes, hscavenged.next⟩
    intro n
    rw [hscavenged.lookup n]
    simp only [hperm.mem_iff]
  simp only
  split
  · apply Safe.propagate
    exact safe_syncAll hs' ⟨hs'.commit, hs'.commit, rfl, hall.lookup, hall.inodes, hall.next⟩
      fun hfalse => hfalse.elim
  · exact ⟨hs', rfl, hall⟩

end Pending

/-! ## The store -/

/-- The directory after the store was opened, compared with the one before. -/
structure Recovered (s s' : Fs) : Prop where
  lock : s'.dir.lookup instanceLockName ≠ none
  noPending : ∀ n : FileName, isPendingName n.bytes = true → s'.dir.lookup n = none
  others : ∀ n : FileName, isPendingName n.bytes = false → n ≠ instanceLockName →
    s'.dir.lookup n = s.dir.lookup n
  inodes : ∀ ino, ino < s.next → s'.inodes ino = s.inodes ino

theorem recovered_of_scavenged {s s₁ s' : Fs} (hlock : s₁.dir.lookup instanceLockName ≠ none)
    (hothers : ∀ n, n ≠ instanceLockName → s₁.dir.lookup n = s.dir.lookup n)
    (hinodes : ∀ ino, ino < s.next → s₁.inodes ino = s.inodes ino)
    (h : Scavenged s₁.dir.keys s₁ s') : Recovered s s' where
  lock := by
    rw [h.lookup, if_neg]
    · exact hlock
    · rintro ⟨hpending, -⟩
      rw [not_isPendingName_lock] at hpending
      cases hpending
  noPending := by
    intro n hn
    rw [h.lookup]
    by_cases hmem : n ∈ s₁.dir.keys
    · rw [if_pos ⟨hn, hmem⟩]
    · rw [if_neg fun hboth => hmem hboth.2]
      exact FiniteMap.lookup_eq_none_iff.2 hmem
  others := by
    intro n hn hne
    rw [h.lookup, if_neg]
    · exact hothers n hne
    · rintro ⟨hpending, -⟩
      rw [hn] at hpending
      cases hpending
  inodes := by
    intro ino hlt
    rw [h.inodes]
    exact hinodes ino hlt

section New

variable {host : FsHost} {now : I64} {s : Fs} {T : Signature}

/-- What opening the store answers. -/
def Opened (host : FsHost) (clock : Clock (fileOps.sum T))
    (operationLock : OperationLock (fileOps.sum T)) (path : Path) (uid capacity : Nat) (s : Fs) :
    Except DpopPortError (FileReplayStore T) → Fs → Prop
  | .ok store, s' =>
      (∃ file h, store = ⟨clock, ⟨uid⟩, capacity, file, operationLock, h⟩) ∧ uid = host.uid ∧
        SecureDir.ServiceOwned host path uid ∧ s'.Holds (EntryOk host.uid) ∧ Recovered s s'
  | .error _, _ =>
      ¬ (capacity ≠ 0 ∧ uid = host.uid ∧ SecureDir.ServiceOwned host path uid)

/-- **Opening a well-formed directory of the process succeeds and recovers it.** -/
theorem runs_new (clock : Clock (fileOps.sum T)) (operationLock : OperationLock (fileOps.sum T))
    (path : Path) (uid capacity : Nat) (hs : s.Holds (EntryOk host.uid)) :
    Runs host now (Opened host clock operationLock path uid capacity s)
      (FileReplayStore.new clock operationLock path uid capacity) s := by
  have hkept := kept_of_holds hs now
  unfold FileReplayStore.new
  split
  · next hzero => exact ⟨hkept, fun h => h.1 hzero⟩
  next hcap =>
  apply Safe.propagate
  apply safe_openServiceOwned hkept
  · intro howned
    apply Safe.propagate
    -- what follows the lock, in a directory that differs from `s` in the lock file at most
    have hrest : uid = host.uid → ∀ (file : Nat) (s₁ : Fs),
        Kept (EntryOk host.uid) (fun _ _ => False) now s₁ →
        s₁.dir.lookup instanceLockName ≠ none →
        (∀ n, n ≠ instanceLockName → s₁.dir.lookup n = s.dir.lookup n) →
        (∀ ino, ino < s.next → s₁.inodes ino = s.inodes ino) →
        Runs host now (Opened host clock operationLock path uid capacity s)
          (Prog.propagate .mk (SecureDir.cleanupStartupPending ⟨uid⟩) fun _ =>
            .ret (.ok ⟨clock, ⟨uid⟩, capacity, file, operationLock, hcap⟩)) s₁ := by
      intro huid file s₁ hs₁ hlock hothers hinodes
      apply Safe.propagate
      refine (runs_cleanupStartupPending huid hs₁).mono (fun _ hk => hk) ?_
      rintro r s' hs' ⟨rfl, hscavenged⟩
      exact ⟨hs', ⟨file, hcap, rfl⟩, huid, howned, hs'.holds,
        recovered_of_scavenged hlock hothers hinodes hscavenged⟩
    apply runs_acquireInstanceLock hkept
    · intro huid hfree
      have hcreated := hkept.create hfree (format_entryOk host).lock
      refine hrest huid s.next _ hcreated ?_ ?_ ?_
      · rw [Fs.lookup_create, if_pos rfl]
        simp
      · intro n hn
        rw [Fs.lookup_create, if_neg hn]
      · intro ino hlt
        exact Function.update_of_ne (Nat.ne_of_lt hlt) _ _
    · intro huid ino hino
      refine hrest huid ino s hkept ?_ (fun n _ => rfl) fun ino _ => rfl
      rw [hino]
      simp
    · intro hne s' h
      exact hne h.2.1
  · rintro (hnot | hfalse) e
    · exact fun h => hnot h.2.2
    · exact hfalse.elim

end New

end Keylix.Verifier

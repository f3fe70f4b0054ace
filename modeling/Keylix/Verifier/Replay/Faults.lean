import Keylix.Verifier.Replay.Refinement

/-!
# I/O errors and the answer `replay`

A call of `FileReplayStore.checkAndRecord` for a key without a marker, with operations that may fail
at any point. Such a call should answer `fresh` or fail. It answers `replay` when the publication
fails after its marker is in the directory: the marker is found again, taken for a competitor's, and
the second attempt reads it.

`Watch` follows the errors that the operations return, and `checkAndRecord_ne_replay_iff` says which
patterns of errors lead to the answer `replay`: those in which the retry sees no error.
-/

set_option autoImplicit false

namespace Keylix.Verifier

open Keylix.Lib Keylix.Dpop
open Keylix.Lib.Prog (Safe Outcome Performs Returns watched)

/-! ## Patterns of errors -/

/-- What the errors of a call amount to so far. -/
inductive Watch where
  /-- No step of a publication has failed. -/
  | calm
  /-- The last operation was a step of a publication, and it failed. -/
  | failed
  /-- After the failure, the name of the marker was found. -/
  | found
  /-- The second attempt has started, and no operation of it has failed. -/
  | retried
  /-- An error after the failure of a publication. -/
  | noticed
  deriving DecidableEq

/-- The steps of a publication, after the pending file was created. -/
def publishes : FileOp → Bool
  | .write _ _ | .syncFile _ | .hardLink _ _ | .syncAll | .removeFile _ => true
  | _ => false

/-- One more operation with its answer. The errors of the operations that clean up after a failed
publication are ignored, as the call ignores them. -/
def Watch.step (name : FileName) : Watch → (op : FileOp) → Except IoError op.Val → Watch
  | .calm, op, x => if publishes op && !x.isOk then .failed else .calm
  | .failed, .metadata n, .ok _ => if n = name then .found else .noticed
  | .failed, _, _ => .noticed
  | .found, .removeFile _, _ => .found
  | .found, .syncAll, _ => .found
  | .found, .listNames, x => if x.isOk then .retried else .noticed
  | .found, _, _ => .noticed
  | .retried, _, x => if x.isOk then .retried else .noticed
  | .noticed, _, _ => .noticed

section Rules

variable {name : FileName}

theorem step_calm_of_reads {op : FileOp} (h : publishes op = false) (x : Except IoError op.Val) :
    Watch.step name .calm op x = .calm := by
  simp [Watch.step, h]

theorem step_calm_error {op : FileOp} (h : publishes op = true) (e : IoError) :
    Watch.step name .calm op (.error e) = .failed := by
  rw [Watch.step, h]
  rfl

end Rules

/-! ## The directory between two attempts -/

/-- What a sweep passes over: pending files, the lock, and markers that are not past their
expiry. -/
inductive Passes (uid : Nat) (now : I64) (n : FileName) (i : Inode) : Prop where
  | pending (hname : isPendingName n.bytes = true)
  | lock (hname : n = instanceLockName) (hvalid : validLock uid i.stat = true)
  | marker (hname : isMarkerName n.bytes = true) (hvalid : validMarker uid i.stat = true)
      (expiry : I64) (hparse : parseExpiry i.content = .ok expiry)
      (hactive : now.toInt ≤ expiry.toInt)

/-- Every name but `name` is one that a sweep passes over. -/
def OthersPass (uid : Nat) (now : I64) (name : FileName) (s : Fs) : Prop :=
  ∀ n ino, n ≠ name → s.dir.lookup n = some ino → Passes uid now n (s.inodes ino)

/-- The marker of a call is in the directory, complete, and a sweep passes over everything else. -/
structure Ready (host : FsHost) (uid : Nat) (now : I64) (key : ReplayKey) (expires : I64)
    (s : Fs) : Prop where
  others : OthersPass uid now (nameFor key) s
  marker : ∃ ino, s.dir.lookup (nameFor key) = some ino ∧
    s.inodes ino = host.file 0o600 (markerText expires) true

/-- The store can read the markers that it writes: the directory belongs to the account of the
process, and the expiry is not negative. -/
def Readable (host : FsHost) (uid : Nat) (expires : I64) : Prop :=
  0 ≤ expires.toInt ∧ uid = host.uid

section Directory

variable {host : FsHost} {uid : Nat} {now : I64} {key : ReplayKey} {expires : I64} {s : Fs}
  {name pending : FileName}

theorem OthersPass.unlink (h : OthersPass uid now name s) (n : FileName) :
    OthersPass uid now name (s.change (.unlink n)) := by
  intro m ino hm hlookup
  rw [Fs.lookup_unlink] at hlookup
  split at hlookup
  · cases hlookup
  · exact h m ino hm hlookup

theorem OthersPass.commit (h : OthersPass uid now name s) : OthersPass uid now name s.commit := h

theorem OthersPass.link (h : OthersPass uid now name s) (file : Nat) :
    OthersPass uid now name (s.change (.link name file)) := by
  intro m ino hm hlookup
  rw [Fs.lookup_link, if_neg hm] at hlookup
  exact h m ino hm hlookup

/-- A pending file is created next to what is there. -/
theorem OthersPass.create (h : OthersPass uid now name s) (hs : s.Holds fun _ _ => True)
    (hpending : isPendingName pending.bytes = true) (i : Inode) :
    OthersPass uid now name (s.create pending i) := by
  intro m ino hm hlookup
  rw [Fs.lookup_create] at hlookup
  split at hlookup
  · next hname => exact .pending (hname ▸ hpending)
  · have hne : ino ≠ s.next := Nat.ne_of_lt (hs.lookup hlookup).1
    have hsame : (s.create pending i).inodes ino = s.inodes ino := Function.update_of_ne hne _ _
    rw [hsame]
    exact h m ino hm hlookup

/-- While the pending file is written, the files of the other names are as they were. -/
theorem OthersPass.writing {file : Nat} {content : Bytes} {synced : Bool} {s₀ : Fs}
    (h : OthersPass uid now name s₀) (hw : Writing host pending file content synced s₀ s) :
    OthersPass uid now name s := by
  intro m ino hm hlookup
  by_cases hfile : ino = file
  · have hname := hw.only m (hfile ▸ Fs.binds_of_lookup hlookup)
    exact .pending (hname ▸ hw.name)
  · rw [hw.others ino hfile]
    rw [hw.dir] at hlookup
    exact h m ino hm hlookup

theorem Ready.commit (h : Ready host uid now key expires s) :
    Ready host uid now key expires s.commit := ⟨h.others, h.marker⟩

theorem Ready.unlink (h : Ready host uid now key expires s)
    (hpending : isPendingName pending.bytes = true) :
    Ready host uid now key expires (s.change (.unlink pending)) := by
  obtain ⟨ino, hlookup, hinode⟩ := h.marker
  refine ⟨h.others.unlink pending, ino, ?_, hinode⟩
  rw [Fs.lookup_unlink, if_neg (nameFor_ne_pending hpending key).symm]
  exact hlookup

/-- The link of a complete pending file. -/
theorem ready_of_link {file : Nat} {s₀ : Fs} (h : OthersPass uid now (nameFor key) s₀)
    (hw : Writing host pending file (markerText expires) true s₀ s) :
    Ready host uid now key expires (s.change (.link (nameFor key) file)) := by
  refine ⟨(h.writing hw).link file, file, ?_, hw.inode⟩
  rw [Fs.lookup_link, if_pos rfl]

/-- The text of a negative expiry has a sign. -/
theorem parseExpiry_of_neg (h : expires.toInt < 0) :
    parseExpiry (markerText expires) = .error .mk := by
  have htext : markerText expires = byte '-' :: (decimal expires.toInt.natAbs ++ [byte '\n']) := by
    rw [markerText, decimalInt, if_pos h]
    rfl
  have hlast : (markerText expires).getLast? = some (byte '\n') := by
    rw [markerText, List.getLast?_append, List.getLast?_singleton, Option.some_or]
  have hdrop : (markerText expires).dropLast = byte '-' :: decimal expires.toInt.natAbs := by
    rw [htext, ← List.cons_append, List.dropLast_concat]
  have hsign : isAsciiDigit (byte '-') = false := by decide
  unfold parseExpiry
  split
  · simp [hdrop, hsign]
  · rfl

/-- Under the name of the marker the store reads its expiry, or nothing. -/
theorem Ready.readExpiryAt_eq (h : Ready host uid now key expires s) :
    Readable host uid expires ∧ readExpiryAt uid s (nameFor key) = .ok expires ∨
      ¬ Readable host uid expires ∧ readExpiryAt uid s (nameFor key) = .error .mk := by
  obtain ⟨ino, hlookup, hinode⟩ := h.marker
  by_cases hreadable : Readable host uid expires
  · obtain ⟨hexpires, rfl⟩ := hreadable
    refine Or.inl ⟨⟨hexpires, rfl⟩, readExpiryAt_of_lookup hlookup ?_ ?_ hexpires⟩
    · rw [hinode]
      exact ownedFile_file host _ true
    · rw [hinode]
      rfl
  · refine Or.inr ⟨hreadable, ?_⟩
    simp only [readExpiryAt, hlookup, hinode]
    split
    · next hvalid =>
      by_cases hexpires : 0 ≤ expires.toInt
      · -- the checks of the marker fix the account
        simp only [validMarker, ownedFile, Bool.and_eq_true, decide_eq_true_eq] at hvalid
        exact absurd ⟨hexpires, hvalid.1.1.1.2.symm⟩ hreadable
      · exact parseExpiry_of_neg (Int.not_le.1 hexpires)
    · rfl

end Directory

/-! ## Reading -/

section Reading

variable {host : FsHost} {uid : Nat} {now : I64} {key : ReplayKey} {expires : I64} {s : Fs}
  {name n : FileName} {directory : SecureDir}

/-- The operations of a call with the pattern of their errors. -/
abbrev Observed (host : FsHost) (name : FileName) {α : Type} (Q : α → Fs × Watch → Prop)
    (p : Prog fileOps α) (t : Fs × Watch) : Prop :=
  Safe (watched (fsHandler host True) (Watch.step name)) (fun _ => True) Q p t

theorem performs_fileOp {P : FileOp → Prop} {op : FileOp} (h : P op) :
    Performs P (fileOp op) := ⟨h, fun _ => trivial⟩

theorem performs_propagate {P : FileOp → Prop} {α β ε ε' : Type} {e : ε'}
    {p : Prog fileOps (Except ε α)} {f : α → Prog fileOps (Except ε' β)} (hp : Performs P p)
    (hf : ∀ a, Performs P (f a)) : Performs P (Prog.propagate e p f) := by
  apply hp.bind
  rintro (e | a)
  · trivial
  · exact hf a

theorem performs_readExpiry (directory : SecureDir) (n : FileName) :
    Performs (fun op => publishes op = false) (directory.readExpiry n) := by
  refine performs_propagate (performs_fileOp rfl) fun stat => ?_
  split
  · refine performs_propagate (performs_fileOp rfl) fun file => ?_
    refine performs_propagate (performs_fileOp rfl) fun stat => ?_
    split
    · exact performs_propagate (performs_fileOp rfl) fun value => trivial
    · trivial
  · trivial

theorem performs_validateInstanceLock (directory : SecureDir) :
    Performs (fun op => publishes op = false) directory.validateInstanceLock :=
  performs_propagate (performs_fileOp rfl) fun _ => trivial

/-- Before a publication fails, reading leaves the pattern as it is. -/
theorem observed_readExpiry_calm :
    Observed host name (fun r t => t = (s, .calm) ∧
        ∀ e, r = .ok e → readExpiryAt directory.ownerUid s n = .ok e)
      (directory.readExpiry n) (s, .calm) := by
  have hsafe : Safe (fsHandler host True) (fun _ => True)
      (fun r s' => s' = s ∧ ∀ e, r = .ok e → readExpiryAt directory.ownerUid s n = .ok e)
      (directory.readExpiry n) s :=
    safe_readExpiry trivial ⟨rfl, fun e he => he⟩ fun _ => ⟨rfl, fun e he => by cases he⟩
  refine (hsafe.watched_of_performs (fun op x h => step_calm_of_reads h x)
    (performs_readExpiry directory n)).mono (fun _ h => h) ?_
  rintro r ⟨s', w⟩ - ⟨⟨rfl, hread⟩, rfl⟩
  exact ⟨rfl, hread⟩

theorem observed_validateInstanceLock_calm :
    Observed host name (fun r t => t = (s, .calm) ∧ (r = .ok () → LockOk directory.ownerUid s))
      directory.validateInstanceLock (s, .calm) := by
  have hsafe : Safe (fsHandler host True) (fun _ => True)
      (fun r s' => s' = s ∧ (r = .ok () → LockOk directory.ownerUid s))
      directory.validateInstanceLock s := by
    apply Safe.propagate
    refine safe_metadata trivial ?_ fun _ e => ⟨rfl, fun h => by cases h⟩
    unfold Fs.metadata Fs.find
    cases hname : s.dir.lookup instanceLockName with
    | none => exact ⟨rfl, fun h => by cases h⟩
    | some ino =>
      refine ⟨trivial, rfl, ?_⟩
      intro h
      split at h
      · next hvalid => exact ⟨ino, hname, hvalid⟩
      · cases h
  refine (hsafe.watched_of_performs (fun op x h => step_calm_of_reads h x)
    (performs_validateInstanceLock directory)).mono (fun _ h => h) ?_
  rintro r ⟨s', w⟩ - ⟨⟨rfl, hlock⟩, rfl⟩
  exact ⟨rfl, hlock⟩

/-- In the second attempt, an error of a read is noticed, and without one the read is right. -/
theorem observed_readExpiry_retried :
    Observed host name (fun r t => t = (s, .noticed) ∧ r = .error .mk ∨
        t = (s, .retried) ∧ r = readExpiryAt directory.ownerUid s n)
      (directory.readExpiry n) (s, .retried) := by
  have herror : ∀ {α : Type} (e : DpopPortError), (s, Watch.noticed) = (s, Watch.noticed) ∧
      (Except.error e : Except DpopPortError α) = .error .mk := fun e => ⟨rfl, rfl⟩
  unfold readExpiryAt
  apply Safe.propagate
  apply Safe.watched_perform
  refine safe_metadata trivial ?_ fun _ e => Or.inl (herror .mk)
  unfold Fs.metadata Fs.find
  cases hname : s.dir.lookup n with
  | none => exact Or.inl (herror .mk)
  | some ino =>
    show Observed host name _ (if validMarker directory.ownerUid (s.inodes ino).stat then _
      else _) (s, .retried)
    simp only
    split
    · next hvalid =>
      apply Safe.propagate
      apply Safe.watched_perform
      refine safe_openFile trivial ?_ fun _ e => Or.inl (herror .mk)
      simp only [Fs.find, hname]
      apply Safe.propagate
      apply Safe.watched_perform
      refine safe_fileMetadata trivial ?_ fun _ e => Or.inl (herror .mk)
      simp only [hvalid, if_true]
      apply Safe.propagate
      apply Safe.watched_perform
      refine safe_readFile trivial ?_ fun _ e => Or.inl (herror .mk)
      -- the limit of the read is above the size that was checked
      have hlen : (s.inodes ino).content.length ≤ 33 := by
        simp only [validMarker, Bool.and_eq_true, decide_eq_true_eq] at hvalid
        exact Nat.le_succ_of_le hvalid.2
      simp only [List.take_of_length_le hlen]
      exact ⟨trivial, Or.inr ⟨rfl, rfl⟩⟩
    · exact ⟨trivial, Or.inr ⟨rfl, rfl⟩⟩

theorem observed_validateInstanceLock_retried (hlock : LockOk directory.ownerUid s) :
    Observed host name (fun r t => t = (s, .noticed) ∧ r = .error .mk ∨
        t = (s, .retried) ∧ r = .ok ())
      directory.validateInstanceLock (s, .retried) := by
  obtain ⟨ino, hname, hvalid⟩ := hlock
  apply Safe.propagate
  apply Safe.watched_perform
  refine safe_metadata trivial ?_ fun _ e => Or.inl ⟨rfl, rfl⟩
  simp only [Fs.metadata, Fs.find, hname, Except.map, hvalid, if_true]
  exact ⟨trivial, Or.inr ⟨rfl, rfl⟩⟩

/-- A marker that was read and is not past its expiry passes. -/
theorem passes_of_readExpiryAt {ino : Nat} {expiry : I64} (hname : isMarkerName n.bytes = true)
    (hlookup : s.dir.lookup n = some ino) (hread : readExpiryAt uid s n = .ok expiry)
    (hactive : now.toInt ≤ expiry.toInt) : Passes uid now n (s.inodes ino) := by
  simp only [readExpiryAt, hlookup] at hread
  split at hread
  · next hvalid => exact .marker hname hvalid expiry hread hactive
  · cases hread

/-- A directory without the marker of the call, before a publication. -/
structure Absent (name : FileName) (s : Fs) : Prop where
  holds : s.Holds fun _ _ => True
  lookup : s.dir.lookup name = none

theorem Absent.unlink (h : Absent name s) (n : FileName) : Absent name (s.change (.unlink n)) := by
  refine ⟨h.holds.unlink, ?_⟩
  rw [Fs.lookup_unlink]
  split
  · rfl
  · exact h.lookup

/-- What a sweep leaves when no publication has failed. -/
def SweptCalm (uid : Nat) (now : I64) (name : FileName) (r : Except DpopPortError Nat)
    (t : Fs × Watch) : Prop :=
  t.2 ≠ .retried ∧
    ∀ a, r = .ok a → t.2 = .calm ∧ Absent name t.1 ∧ OthersPass uid now name t.1

theorem sweptCalm_error {w : Watch} {e : DpopPortError} (hw : w ≠ .retried) :
    SweptCalm uid now name (.error e) (s, w) := by
  refine ⟨hw, ?_⟩
  intro a h
  cases h

/-- A sweep of the first attempt: what it does not remove, it can pass over again. -/
theorem observed_sweep_calm (names : List FileName) (active : Nat) (hs : Absent name s)
    (hseen : ∀ n ino, s.dir.lookup n = some ino → n ∉ names →
      Passes directory.ownerUid now n (s.inodes ino)) :
    Observed host name (SweptCalm directory.ownerUid now name) (directory.sweep now active names)
      (s, .calm) := by
  induction names generalizing active s with
  | nil =>
    refine ⟨trivial, by simp, ?_⟩
    intro a _
    exact ⟨rfl, hs, fun n ino _ hlookup => hseen n ino hlookup List.not_mem_nil⟩
  | cons m names ih =>
    -- the names that are left, once `m` is known to pass
    have hnext : (∀ ino, s.dir.lookup m = some ino →
        Passes directory.ownerUid now m (s.inodes ino)) →
        ∀ n ino, s.dir.lookup n = some ino → n ∉ names →
          Passes directory.ownerUid now n (s.inodes ino) := by
      intro hm n ino hlookup hn
      by_cases hnm : n = m
      · subst hnm
        exact hm ino hlookup
      · exact hseen n ino hlookup (fun hmem => (List.mem_cons.1 hmem).elim hnm hn)
    simp only [SecureDir.sweep]
    split
    · next hpending => exact ih active hs (hnext fun ino _ => .pending hpending)
    split
    · next hlock =>
      apply Safe.propagate
      refine observed_validateInstanceLock_calm.mono (fun _ h => h) ?_
      rintro r t - ⟨rfl, hr⟩
      cases r with
      | error e => exact sweptCalm_error (by simp)
      | ok u =>
        obtain ⟨ino', hlookup', hvalid⟩ := hr rfl
        refine ih active hs (hnext fun ino hlookup => ?_)
        rw [hlock, hlookup'] at hlookup
        cases hlookup
        exact .lock hlock hvalid
    split
    · next hmarker =>
      apply Safe.propagate
      refine observed_readExpiry_calm.mono (fun _ h => h) ?_
      rintro r t - ⟨rfl, hr⟩
      cases r with
      | error e => exact sweptCalm_error (by simp)
      | ok expiry =>
        have hread := hr expiry rfl
        show Observed host name _ (if expiry.toInt < now.toInt then _ else _) (s, .calm)
        split
        · -- an expired marker is removed
          apply Safe.propagate
          apply Safe.watched_perform
          have hfailed : ∀ (s' : Fs) (e : IoError), SweptCalm directory.ownerUid now name
              (.error .mk) (s', Watch.step name .calm (.removeFile m) (.error e)) :=
            fun s' e => sweptCalm_error (by rw [step_calm_error rfl]; simp)
          refine safe_removeFile trivial ?_ (fun _ => hfailed s _) fun _ e => hfailed s e
          intro _
          refine ⟨trivial, ?_, fun _ e => hfailed _ e⟩
          refine ih active (hs.unlink m) ?_
          intro n ino hlookup hn
          rw [Fs.lookup_unlink] at hlookup
          split at hlookup
          · cases hlookup
          · next hnm => exact hseen n ino hlookup (fun hmem => (List.mem_cons.1 hmem).elim hnm hn)
        · next hactive =>
          refine ih (active + 1) hs (hnext fun ino hlookup => ?_)
          exact passes_of_readExpiryAt hmarker hlookup hread (Int.not_lt.1 hactive)
    · exact ⟨trivial, sweptCalm_error (by simp)⟩

/-- What a sweep of the second attempt leaves: it changes nothing, and fails only for an error that
is noticed or for a marker that the store cannot read. -/
def SweptRetried (readable : Prop) (s : Fs) (r : Except DpopPortError Nat) (t : Fs × Watch) :
    Prop :=
  t = (s, .noticed) ∧ r = .error .mk ∨ t = (s, .retried) ∧ (readable → ∃ a, r = .ok a)

theorem observed_sweep_retried (hs : Ready host directory.ownerUid now key expires s)
    (hactive : now.toInt ≤ expires.toInt) (names : List FileName) (active : Nat)
    (hbound : ∀ n ∈ names, s.dir.lookup n ≠ none) :
    Observed host (nameFor key) (SweptRetried (Readable host directory.ownerUid expires) s)
      (directory.sweep now active names) (s, .retried) := by
  induction names generalizing active with
  | nil => exact ⟨trivial, Or.inr ⟨rfl, fun _ => ⟨active, rfl⟩⟩⟩
  | cons m names ih =>
    have hrest : ∀ active, Observed host (nameFor key)
        (SweptRetried (Readable host directory.ownerUid expires) s)
        (directory.sweep now active names) (s, .retried) := by
      intro active
      exact ih active fun n hn => hbound n (List.mem_cons_of_mem _ hn)
    obtain ⟨ino, hlookup⟩ := Option.ne_none_iff_exists'.1 (hbound m List.mem_cons_self)
    simp only [SecureDir.sweep]
    split
    · exact hrest active
    split
    · next hpending hlock =>
      have hpasses := hs.others m ino (hlock ▸ (nameFor_ne_lock key).symm) hlookup
      have hvalid : LockOk directory.ownerUid s := by
        refine ⟨ino, hlock ▸ hlookup, ?_⟩
        cases hpasses with
        | pending hname => exact absurd hname hpending
        | lock _ hvalid => exact hvalid
        | marker hname => exact absurd (hlock ▸ hname) (by decide)
      apply Safe.propagate
      refine (observed_validateInstanceLock_retried hvalid).mono (fun _ h => h) ?_
      rintro r t - (⟨rfl, rfl⟩ | ⟨rfl, rfl⟩)
      · exact Or.inl ⟨rfl, rfl⟩
      · exact hrest active
    · next hpending hlock =>
      -- what is left is a marker, of the call or another
      have hmarker : isMarkerName m.bytes = true ∧
          (Readable host directory.ownerUid expires →
            ∃ e, readExpiryAt directory.ownerUid s m = .ok e ∧ now.toInt ≤ e.toInt) ∧
          (readExpiryAt directory.ownerUid s m = .error .mk ∨
            ∃ e, readExpiryAt directory.ownerUid s m = .ok e ∧ now.toInt ≤ e.toInt) := by
        by_cases hkey : m = nameFor key
        · subst hkey
          refine ⟨isMarkerName_nameFor key, ?_⟩
          rcases hs.readExpiryAt_eq with ⟨_, hread⟩ | ⟨hnot, hread⟩
          · exact ⟨fun _ => ⟨expires, hread, hactive⟩, Or.inr ⟨expires, hread, hactive⟩⟩
          · exact ⟨fun hreadable => absurd hreadable hnot, Or.inl hread⟩
        · cases hs.others m ino hkey hlookup with
          | pending hname => exact absurd hname hpending
          | lock hname => exact absurd hname hlock
          | marker hname hvalid e hparse hle =>
            have hread : readExpiryAt directory.ownerUid s m = .ok e := by
              simp only [readExpiryAt, hlookup, hvalid, if_true, hparse]
            exact ⟨hname, fun _ => ⟨e, hread, hle⟩, Or.inr ⟨e, hread, hle⟩⟩
      rw [if_pos hmarker.1]
      apply Safe.propagate
      refine observed_readExpiry_retried.mono (fun _ h => h) ?_
      rintro r t - (⟨rfl, rfl⟩ | ⟨rfl, rfl⟩)
      · exact Or.inl ⟨rfl, rfl⟩
      · rcases hmarker.2.2 with hread | ⟨e, hread, hle⟩
        · rw [hread]
          refine Or.inr ⟨rfl, fun hreadable => ?_⟩
          obtain ⟨e, hread', -⟩ := hmarker.2.1 hreadable
          rw [hread] at hread'
          cases hread'
        · rw [hread]
          show Observed host (nameFor key) _ (if e.toInt < now.toInt then _ else _) (s, .retried)
          rw [if_neg (Int.not_lt.2 hle)]
          exact hrest (active + 1)

end Reading

/-! ## Publication -/

/-- What the answer of a call says about the pattern of its errors. -/
def Reported (readable : Prop) (r : Except DpopPortError ReplayStatus) (t : Fs × Watch) : Prop :=
  r = .ok .replay ↔ t.2 = .retried ∧ readable

theorem reported_of_ne {readable : Prop} {r : Except DpopPortError ReplayStatus}
    {s : Fs} {w : Watch} (hr : r ≠ .ok .replay) (hw : w ≠ .retried) : Reported readable r (s, w) :=
  iff_of_false hr fun h => hw h.1

theorem reported_error {readable : Prop} {e : DpopPortError} {s : Fs} {w : Watch}
    (hw : w ≠ .retried) : Reported readable (.error e) (s, w) :=
  reported_of_ne (by simp) hw

section Publication

variable {host : FsHost} {uid : Nat} {now : I64} {key : ReplayKey} {expires : I64} {s s₀ : Fs}
  {name pending : FileName} {file : Nat} {content : Bytes} {readable : Prop} {attempt : Nat}
  {next : Prog fileOps (Except DpopPortError ReplayStatus)}

/-- A write that fails leaves a part of the text in the pending file. -/
theorem observed_writeAll {pieces : List Bytes}
    (hw : Writing host pending file content false s₀ s) :
    Observed host name
      (fun r t => r = .ok () ∧ t.2 = .calm ∧
          Writing host pending file (content ++ pieces.flatten) false s₀ t.1 ∨
        r = .error .mk ∧ t.2 = .failed ∧ ∃ part, Writing host pending file part false s₀ t.1)
      (SecureDir.writeAll file pieces) (s, .calm) := by
  induction pieces generalizing s content with
  | nil =>
    refine ⟨trivial, Or.inl ⟨rfl, rfl, ?_⟩⟩
    simpa using hw
  | cons piece pieces ih =>
    apply Safe.propagate
    apply Safe.watched_perform
    refine safe_write trivial (fun _ => trivial) ?_ ?_
    · rw [List.flatten_cons, ← List.append_assoc]
      exact ih (hw.append piece)
    · intro _ e
      refine ⟨Or.inr ⟨rfl, rfl, content, hw⟩, ?_⟩
      intro count
      exact Or.inr ⟨rfl, rfl, _, hw.append (piece.take count)⟩

/-- A publication that fails leaves no marker, or the complete one. -/
theorem observed_initializeMarker (hw : Writing host pending file [] false s₀ s)
    (habsent : s₀.dir.lookup (nameFor key) = none)
    (hothers : OthersPass uid now (nameFor key) s₀) :
    Observed host (nameFor key)
      (fun r t => r = .ok () ∧ t.2 = .calm ∨
        r = .error .mk ∧ t.2 = .failed ∧
          (t.1.dir.lookup (nameFor key) = none ∨ Ready host uid now key expires t.1))
      (SecureDir.initializeMarker file pending (nameFor key) expires) (s, .calm) := by
  apply Safe.propagate
  refine (observed_writeAll hw).mono (fun _ h => h) ?_
  rintro r ⟨s₁, w⟩ - (⟨rfl, rfl, hw₁⟩ | ⟨rfl, rfl, part, hw₁⟩)
  rotate_left
  · exact Or.inr ⟨rfl, rfl, Or.inl (hw₁.dir ▸ habsent)⟩
  rw [List.nil_append, flatten_writelnPieces] at hw₁
  have hw₂ := hw₁.flush
  apply Safe.propagate
  apply Safe.watched_perform
  refine safe_syncFile trivial ⟨trivial, ?_⟩ fun _ e =>
    ⟨Or.inr ⟨rfl, rfl, Or.inl (hw₁.dir ▸ habsent)⟩, Or.inr ⟨rfl, rfl, Or.inl (hw₂.dir ▸ habsent)⟩⟩
  apply Safe.propagate
  apply Safe.watched_perform
  refine safe_hardLink trivial ?_ (fun _ e => Or.inr ⟨rfl, rfl, Or.inl (hw₂.dir ▸ habsent)⟩)
    fun _ e => Or.inr ⟨rfl, rfl, Or.inl (hw₂.dir ▸ habsent)⟩
  intro ino hino _
  -- the pending name is bound to the file that was written
  rw [hw₂.lookup] at hino
  cases hino
  have hready : Ready host uid now key expires _ := ready_of_link hothers hw₂
  refine ⟨trivial, ?_, fun _ e => Or.inr ⟨rfl, rfl, Or.inr hready⟩⟩
  apply Safe.propagate
  apply Safe.watched_perform
  refine safe_syncAll trivial ⟨trivial, ?_⟩ fun _ e =>
    ⟨Or.inr ⟨rfl, rfl, Or.inr hready⟩, Or.inr ⟨rfl, rfl, Or.inr hready.commit⟩⟩
  have hremoved := hready.commit.unlink hw.name
  apply Safe.propagate
  apply Safe.watched_perform
  refine safe_removeFile trivial ?_ (fun _ => Or.inr ⟨rfl, rfl, Or.inr hready.commit⟩)
    fun _ e => Or.inr ⟨rfl, rfl, Or.inr hready.commit⟩
  intro _
  refine ⟨trivial, ?_, fun _ e => Or.inr ⟨rfl, rfl, Or.inr hremoved⟩⟩
  apply Safe.propagate
  apply Safe.watched_perform
  refine safe_syncAll trivial ⟨trivial, ?_⟩ fun _ e =>
    ⟨Or.inr ⟨rfl, rfl, Or.inr hremoved⟩, Or.inr ⟨rfl, rfl, Or.inr hremoved.commit⟩⟩
  exact ⟨trivial, Or.inl ⟨rfl, rfl⟩⟩

/-- The two operations that clean up: their errors are not looked at. -/
theorem observed_cleanup {P : Fs → Prop} {w : Watch} {again : Bool}
    {Q : Except DpopPortError ReplayStatus → Fs × Watch → Prop} (hw : w = .found ∨ w = .noticed)
    (hunlink : ∀ s, P s → P (s.change (.unlink pending))) (hcommit : ∀ s, P s → P s.commit)
    (hnext : ∀ s, P s → Observed host name Q (SecureDir.continueIf again next) (s, w)) (hs : P s) :
    Observed host name Q (fileOp (.removeFile pending) >>= fun _ => fileOp .syncAll >>= fun _ =>
      SecureDir.continueIf again next) (s, w) := by
  have hstep : ∀ x, Watch.step name w (.removeFile pending) x = w := by
    rcases hw with rfl | rfl <;> exact fun _ => rfl
  have hsync : ∀ s, P s → Observed host name Q
      (fileOp .syncAll >>= fun _ => SecureDir.continueIf again next) (s, w) := by
    intro s hs
    have hstep : ∀ x, Watch.step name w .syncAll x = w := by
      rcases hw with rfl | rfl <;> exact fun _ => rfl
    apply Safe.of_bind
    apply Safe.watched_perform_of hstep
    exact safe_syncAll trivial ⟨trivial, hnext _ (hcommit s hs)⟩ fun _ _ =>
      ⟨hnext s hs, hnext _ (hcommit s hs)⟩
  apply Safe.of_bind
  apply Safe.watched_perform_of hstep
  exact safe_removeFile trivial
    (fun _ => ⟨trivial, hsync _ (hunlink s hs), fun _ _ => hsync _ (hunlink s hs)⟩)
    (fun _ => hsync s hs) fun _ _ => hsync s hs

/-- A failed publication is retried only when its marker is in the directory. -/
theorem observed_abandon
    (hretry : attempt = 0 → ∀ s, Ready host uid now key expires s →
      Observed host (nameFor key) (Reported readable) next (s, .found))
    (hpending : isPendingName pending.bytes = true)
    (hs : s.dir.lookup (nameFor key) = none ∨ Ready host uid now key expires s) :
    Observed host (nameFor key) (Reported readable)
      (SecureDir.abandon pending (nameFor key) attempt next) (s, .failed) := by
  have herror : ∀ e : IoError, Observed host (nameFor key) (Reported readable)
      (fileOp (.removeFile pending) >>= fun _ => fileOp .syncAll >>= fun _ =>
        SecureDir.continueIf ((Except.error e : Except IoError Stat).isOk && attempt = 0) next)
      (s, .noticed) := by
    intro e
    refine observed_cleanup (P := fun _ => True) (Or.inr rfl) (fun _ _ => trivial)
      (fun _ _ => trivial) (fun s _ => ?_) trivial
    exact ⟨trivial, reported_error (by simp)⟩
  apply Safe.of_bind
  apply Safe.watched_perform
  refine safe_metadata trivial ?_ fun _ e => herror e
  rcases hs with hnone | hready
  · simp only [Fs.metadata, Fs.find, hnone, Except.map]
    exact herror .notFound
  · obtain ⟨ino, hlookup, -⟩ := hready.marker
    simp only [Fs.metadata, Fs.find, hlookup, Except.map]
    show Observed host (nameFor key) (Reported readable) _
      (s, if nameFor key = nameFor key then Watch.found else Watch.noticed)
    rw [if_pos rfl]
    refine observed_cleanup (Or.inl rfl) (fun s hs => hs.unlink hpending) (fun s hs => hs.commit)
      (fun s hs => ?_) hready
    unfold SecureDir.continueIf
    split
    · next hagain => exact hretry (by simpa [Except.isOk, Except.toBool] using hagain) s hs
    · exact ⟨trivial, reported_error (by simp)⟩

end Publication

/-! ## Attempts -/

section Attempts

variable {host : FsHost} {now : I64} {key : ReplayKey} {expires : I64} {s : Fs} {name : FileName}
  {directory : SecureDir} {readable : Prop} {attempt : Nat}
  {next claim : Prog fileOps (Except DpopPortError ReplayStatus)}

/-- After an error that is noticed, or without readable markers, only the answer matters. -/
theorem observed_settled {p : Prog fileOps (Except DpopPortError ReplayStatus)} {w : Watch}
    (hp : Returns (fun r => r ≠ .ok .replay) p) (hw : w = .noticed ∨ ¬ readable) :
    Observed host name (Reported readable) p (s, w) := by
  induction p generalizing s w with
  | ret a =>
    refine ⟨trivial, iff_of_false hp ?_⟩
    rintro ⟨hretried, hreadable⟩
    rcases hw with rfl | hnot
    · cases hretried
    · exact hnot hreadable
  | call op k ih =>
    refine ⟨trivial, ?_⟩
    rintro x ⟨s', w'⟩ ⟨-, hw'⟩
    refine ih x (hp x) ?_
    rcases hw with rfl | hnot
    · exact Or.inl hw'
    · exact Or.inr hnot

theorem returns_continueIf {again : Bool} (hnext : Returns (fun r => r ≠ .ok .replay) next) :
    Returns (fun r => r ≠ .ok .replay) (SecureDir.continueIf again next) := by
  unfold SecureDir.continueIf
  split
  · exact hnext
  · exact fun h => by cases h

/-- The part of an attempt that publishes never answers `replay` itself. -/
theorem returns_claimName (capacity active : Nat)
    (hnext : Returns (fun r => r ≠ .ok .replay) next) :
    Returns (fun r => r ≠ .ok .replay)
      (SecureDir.claimName capacity name expires attempt active next) := by
  unfold SecureDir.claimName
  split
  · exact fun h => by cases h
  apply (Prog.returns_true _).bind
  rintro (e | pending) -
  · exact fun h => by cases h
  apply (Prog.returns_true _).bind
  rintro (e | file) -
  · exact returns_continueIf hnext
  apply (Prog.returns_true _).bind
  rintro (e | u) -
  · intro final x y
    exact returns_continueIf hnext
  · exact fun h => by cases h

theorem returns_ifAbsent (hclaim : Returns (fun r => r ≠ .ok .replay) claim) :
    Returns (fun r => r ≠ .ok .replay) (SecureDir.ifAbsent name claim) := by
  rintro (e | stat)
  · show Returns _ (if e = .notFound then claim else pure (.error .mk))
    split
    · exact hclaim
    · exact fun h => by cases h
  · exact fun h => by cases h

/-- The second attempt after a failed publication: it reads the marker of the first. -/
theorem observed_retry (hs : Ready host directory.ownerUid now key expires s)
    (hactive : now.toInt ≤ expires.toInt) (capacity : Nat) :
    Observed host (nameFor key) (Reported (Readable host directory.ownerUid expires))
      (directory.attempts capacity now (nameFor key) expires [1]) (s, .found) := by
  have hclaim : ∀ active, Returns (fun r => r ≠ .ok .replay)
      (SecureDir.claimName capacity (nameFor key) expires 1 active (.ret (.error .mk))) :=
    fun active => returns_claimName capacity active fun h => by cases h
  apply Safe.propagate
  apply Safe.propagate
  apply Safe.watched_perform
  refine safe_listNames trivial ?_ fun _ e => reported_error (w := .noticed) (by simp)
  intro names hperm
  have hbound : ∀ n ∈ names, s.dir.lookup n ≠ none := by
    intro n hn
    obtain ⟨ino, hino⟩ := FiniteMap.mem_keys_iff.1 (hperm.subset hn)
    rw [hino]
    simp
  -- the sweep meets the marker of the first attempt: an error there is noticed, a reading leaves it
  -- in place
  refine (observed_sweep_retried hs hactive names 0 hbound).mono (fun _ h => h) ?_
  rintro r t - (⟨rfl, rfl⟩ | ⟨rfl, hr⟩)
  · exact reported_error (by simp)
  cases r with
  | error e =>
    refine iff_of_false (by simp) fun hretried => ?_
    obtain ⟨a, ha⟩ := hr hretried.2
    cases ha
  | ok active =>
    apply Safe.of_bind
    refine observed_readExpiry_retried.mono (fun _ h => h) ?_
    rintro r t - (⟨rfl, rfl⟩ | ⟨rfl, rfl⟩)
    · exact observed_settled (returns_ifAbsent (hclaim active)) (Or.inl rfl)
    -- without an error the marker is read back, if its owner and its mode are the expected ones
    · rcases hs.readExpiryAt_eq with ⟨hreadable, hread⟩ | ⟨hnot, hread⟩
      · rw [hread]
        show Observed host (nameFor key) _ (if now.toInt ≤ expires.toInt then _ else _)
          (s, .retried)
        rw [if_pos hactive]
        exact ⟨trivial, iff_of_true rfl ⟨rfl, hreadable⟩⟩
      · rw [hread]
        exact observed_settled (returns_ifAbsent (hclaim active)) (Or.inr hnot)

/-- A publication from a directory without the marker. -/
theorem observed_claimName (hs : Absent (nameFor key) s)
    (hothers : OthersPass directory.ownerUid now (nameFor key) s)
    (hnext : ∀ s, Absent (nameFor key) s →
      Observed host (nameFor key) (Reported readable) next (s, .calm))
    (hretry : attempt = 0 → ∀ s, Ready host directory.ownerUid now key expires s →
      Observed host (nameFor key) (Reported readable) next (s, .found))
    (capacity active : Nat) :
    Observed host (nameFor key) (Reported readable)
      (SecureDir.claimName capacity (nameFor key) expires attempt active next) (s, .calm) := by
  -- an error before the publication leaves no marker, so that the next attempt is as calm as this
  -- one
  have hcontinue : ∀ (again : Bool) (s : Fs), Absent (nameFor key) s →
      Observed host (nameFor key) (Reported readable) (SecureDir.continueIf again next)
        (s, .calm) := by
    intro again s hs
    unfold SecureDir.continueIf
    split
    · exact hnext s hs
    · exact ⟨trivial, reported_error (by simp)⟩
  unfold SecureDir.claimName
  split
  · exact ⟨trivial, reported_error (by simp)⟩
  apply Safe.propagate
  apply Safe.propagate
  apply Safe.watched_perform
  refine safe_fill trivial ?_ fun _ e => reported_error (by simp [Watch.step, publishes])
  intro random
  have hpending := isPendingName_pendingNameOf random
  refine ⟨trivial, ?_⟩
  apply Safe.of_bind
  apply Safe.watched_perform_of fun x => step_calm_of_reads rfl x
  refine safe_newFile trivial ?_ (fun _ => hcontinue _ s hs) fun _ e => hcontinue _ s hs
  intro _
  -- the pending name is not the name of the marker
  have hcreated : Absent (nameFor key)
      (s.create (pendingNameOf random) (host.file 0o600 [] false)) := by
    refine ⟨hs.holds.create trivial, ?_⟩
    rw [Fs.lookup_create, if_neg (nameFor_ne_pending hpending key).symm]
    exact hs.lookup
  refine ⟨trivial, ?_, fun _ e => hcontinue _ _ hcreated⟩
  apply Safe.of_bind
  refine (observed_initializeMarker (writing_create hs.holds hpending) hcreated.lookup
    (hothers.create hs.holds hpending _)).mono (fun _ h => h) ?_
  rintro r ⟨s', w⟩ - (⟨rfl, rfl⟩ | ⟨rfl, rfl, hleft⟩)
  · exact ⟨trivial, reported_of_ne (by simp) (by simp)⟩
  · exact observed_abandon hretry hpending hleft

/-- An attempt from a directory without the marker. -/
theorem observed_attempt (hs : Absent (nameFor key) s) (capacity : Nat) (rest : List Nat)
    (hnext : ∀ s, Absent (nameFor key) s → Observed host (nameFor key) (Reported readable)
      (directory.attempts capacity now (nameFor key) expires rest) (s, .calm))
    (hretry : attempt = 0 → ∀ s, Ready host directory.ownerUid now key expires s →
      Observed host (nameFor key) (Reported readable)
        (directory.attempts capacity now (nameFor key) expires rest) (s, .found)) :
    Observed host (nameFor key) (Reported readable)
      (directory.attempts capacity now (nameFor key) expires (attempt :: rest)) (s, .calm) := by
  apply Safe.propagate
  apply Safe.propagate
  apply Safe.watched_perform
  refine safe_listNames trivial ?_ fun _ e => reported_error (by simp [Watch.step, publishes])
  intro names hperm
  have hall : ∀ n ino, s.dir.lookup n = some ino → n ∉ names →
      Passes directory.ownerUid now n (s.inodes ino) := by
    intro n ino hlookup hn
    exact absurd (hperm.symm.subset (FiniteMap.mem_keys_iff.2 ⟨ino, hlookup⟩)) hn
  refine (observed_sweep_calm names 0 hs hall).mono (fun _ h => h) ?_
  rintro r ⟨s', w⟩ - ⟨hw, hr⟩
  cases r with
  | error e => exact reported_error hw
  | ok active =>
    obtain ⟨rfl, hs', hothers⟩ := hr active rfl
    have hclaim := observed_claimName hs' hothers hnext hretry capacity active
    apply Safe.of_bind
    refine observed_readExpiry_calm.mono (fun _ h => h) ?_
    rintro r t - ⟨rfl, hread⟩
    cases r with
    | ok expiry =>
      -- nothing is read under a free name
      have hnone := hread expiry rfl
      simp only [readExpiryAt, hs'.lookup] at hnone
      cases hnone
    | error e =>
      apply Safe.of_bind
      apply Safe.watched_perform_of fun x => step_calm_of_reads rfl x
      have herror : ∀ e : IoError, Observed host (nameFor key) (Reported readable)
          (if e = .notFound then SecureDir.claimName capacity (nameFor key) expires attempt active
            (directory.attempts capacity now (nameFor key) expires rest)
          else pure (.error .mk)) (s', .calm) := by
        intro e
        split
        · exact hclaim
        · exact ⟨trivial, reported_error (by simp)⟩
      refine safe_metadata trivial ?_ fun _ e => herror e
      simp only [Fs.metadata, Fs.find, hs'.lookup, Except.map]
      exact herror .notFound

/-- The section of a call for a key without a marker. -/
theorem observed_recordMarker (hs : Absent (nameFor key) s) (capacity : Nat) :
    Observed host (nameFor key) (Reported (Readable host directory.ownerUid expires))
      (directory.recordMarker capacity now key expires) (s, .calm) := by
  unfold SecureDir.recordMarker
  split
  · exact ⟨trivial, reported_error (by simp)⟩
  · next hactive =>
    have hlast : ∀ s, Absent (nameFor key) s → Observed host (nameFor key)
        (Reported (Readable host directory.ownerUid expires))
        (directory.attempts capacity now (nameFor key) expires [1]) (s, .calm) := by
      intro s hs
      refine observed_attempt hs capacity [] (fun s _ => ?_) fun h => by cases h
      exact ⟨trivial, reported_error (by simp)⟩
    exact observed_attempt hs capacity [1] hlast fun _ s hready =>
      observed_retry hready (Int.not_lt.1 hactive) capacity

end Attempts

/-! ## Calls -/

/-- The meaning of the operations in a call that runs alone, with I/O errors: the clock and the lock
may answer anything. -/
def faultyCall (host : FsHost) : Prog.Handler storeOps Fs
  | .inl op, s, x, s' => fsHandler host True op s x s'
  | .inr _, s, _, s' => s' = s

/-- The pattern of errors sees the operations on the directory. -/
def callStep (name : FileName) : Watch → (op : storeOps.Op) → storeOps.Res op → Watch
  | w, .inl op, x => Watch.step name w op x
  | w, .inr _, _ => w

section Calls

variable {host : FsHost} {key : ReplayKey} {expires : I64} {s s' : Fs}

/-- A section keeps what is known of it between the lock and the unlock. -/
theorem Observed.inl {α : Type} {name : FileName} {Q : α → Fs × Watch → Prop} {p : Prog fileOps α}
    {t : Fs × Watch} (h : Observed host name Q p t) :
    Safe (watched (faultyCall host) (callStep name)) (fun _ => True) Q
      (p.inl : Prog storeOps α) t :=
  Safe.inl h fun _ _ _ _ hx => hx

/-- The clock and the lock change neither the directory nor the pattern of errors. -/
theorem eq_of_ctrl {name : FileName} {op : CtrlOp} {t t' : Fs × Watch} {x : ctrlOps.Res op}
    (h : watched (faultyCall host) (callStep name) (.inr op) t x t') : t' = t :=
  Prod.ext h.1 h.2

/-- **A call for a key without a marker answers `fresh` or fails, if and only if its errors are not
those of a publication that failed with its marker in place and was retried without an error.** -/
theorem checkAndRecord_ne_replay_iff {store : FileReplayStore ctrlOps}
    (hclock : store.clock = ctrlClock) (hlock : store.operationLock = ctrlLock)
    (hs : s.Holds fun _ _ => True) (habsent : s.dir.lookup (nameFor key) = none)
    {r : Except DpopPortError ReplayStatus} {w : Watch}
    (hrun : Outcome (watched (faultyCall host) (callStep (nameFor key)))
      (store.checkAndRecord key expires) (s, .calm) r (s', w)) :
    r ≠ .ok .replay ↔ ¬ (w = .retried ∧ Readable host store.directory.ownerUid expires) := by
  have hsafe : Safe (watched (faultyCall host) (callStep (nameFor key))) (fun _ => True)
      (Reported (Readable host store.directory.ownerUid expires))
      (store.checkAndRecord key expires) (s, .calm) := by
    -- releasing the lock changes neither the directory nor the answer
    have hunlock : ∀ (r : Except DpopPortError ReplayStatus) (t : Fs × Watch),
        Reported (Readable host store.directory.ownerUid expires) r t →
        Safe (watched (faultyCall host) (callStep (nameFor key))) (fun _ => True)
          (Reported (Readable host store.directory.ownerUid expires))
          (store.operationLock.unlock >>= fun _ => pure r) t := by
      intro r t hr
      rw [hlock]
      refine ⟨trivial, ?_⟩
      intro x t' hx
      cases eq_of_ctrl hx
      exact ⟨trivial, hr⟩
    unfold FileReplayStore.checkAndRecord
    rw [hlock, hclock]
    refine ⟨trivial, ?_⟩
    intro x t hx
    cases eq_of_ctrl hx
    cases x with
    | error e => exact ⟨trivial, reported_error (by simp)⟩
    | ok u =>
      refine ⟨trivial, ?_⟩
      intro x t hx
      cases eq_of_ctrl hx
      cases x with
      | error e => exact hlock ▸ hunlock (.error e) _ (reported_error (by simp))
      | ok now =>
        apply Safe.bind (observed_recordMarker ⟨hs, habsent⟩ store.capacity).inl
        intro r t _ hr
        exact hlock ▸ hunlock r t hr
  exact not_congr (hsafe.outcome hrun).2

end Calls

/-! ## A directory that cannot be flushed -/

section Sample

/-- A file system on which the flush of a directory fails and every other operation succeeds. -/
def noDirSync : (op : storeOps.Op) → Fs → storeOps.Res op × Fs
  | .inl .syncAll, s => (.error .other, s)
  | .inl op, s => okExec sampleHost op s
  | .inr .unixSeconds, s => (.ok sampleTime, s)
  | .inr .lock, s => (.ok (), s)
  | .inr .unlock, s => ((), s)

theorem faultyCall_noDirSync (op : storeOps.Op) (s : Fs) :
    faultyCall sampleHost op s (noDirSync op s).1 (noDirSync op s).2 := by
  rcases op with op | op
  · by_cases hsync : op = .syncAll
    · subst hsync
      exact Or.inr ⟨trivial, ⟨.other, rfl⟩, Or.inl rfl⟩
    · have hsame : noDirSync (.inl op) s = okExec sampleHost op s := by
        cases op <;> first | rfl | exact absurd rfl hsync
      rw [hsame]
      exact Or.inl (okHandler_okExec sampleHost op s)
  · cases op <;> rfl

/-- A store of the sample directory. -/
def sampleStore : FileReplayStore ctrlOps :=
  ⟨ctrlClock, ⟨1000⟩, 8, 0, ctrlLock, by decide⟩

/-- The directory of a new store: the lock file only. -/
def newDirectory : Fs :=
  emptyDirectory.create instanceLockName (sampleHost.file 0o600 [] false)

def sampleExpiry : I64 := lastSecond

theorem holds_newDirectory : newDirectory.Holds fun _ _ => True :=
  Fs.Holds.create (isEmpty_emptyDirectory.holds _) trivial

theorem exec_noDirSync :
    (Prog.exec noDirSync (sampleStore.checkAndRecord sampleKey sampleExpiry) newDirectory).1 =
      .ok .replay := by
  decide +kernel

/-- The first call of a new store answers `replay`, on a file system that cannot flush a
directory. -/
theorem checkAndRecord_noDirSync :
    newDirectory.Holds (fun _ _ => True) ∧ newDirectory.dir.lookup (nameFor sampleKey) = none ∧
      ∃ s', Outcome (faultyCall sampleHost) (sampleStore.checkAndRecord sampleKey sampleExpiry)
        newDirectory (.ok .replay) s' := by
  have hrun := Prog.outcome_exec faultyCall_noDirSync
    (sampleStore.checkAndRecord sampleKey sampleExpiry) newDirectory
  rw [exec_noDirSync] at hrun
  exact ⟨holds_newDirectory, by decide +kernel, _, hrun⟩

/-- The errors of that call are a failed publication and a retry without errors. -/
theorem checkAndRecord_ne_replay_iff_sample :
    ∃ s' w, Outcome (watched (faultyCall sampleHost) (callStep (nameFor sampleKey)))
      (sampleStore.checkAndRecord sampleKey sampleExpiry) (newDirectory, .calm) (.ok .replay)
      (s', w) ∧ w = .retried := by
  have hrun := Prog.outcome_exec faultyCall_noDirSync
    (sampleStore.checkAndRecord sampleKey sampleExpiry) newDirectory
  rw [exec_noDirSync] at hrun
  obtain ⟨w, hwatched⟩ := Prog.exists_outcome_watched hrun Watch.calm
  refine ⟨_, w, hwatched, ?_⟩
  have habsent : newDirectory.dir.lookup (nameFor sampleKey) = none := by decide +kernel
  by_contra hw
  exact (checkAndRecord_ne_replay_iff rfl rfl holds_newDirectory habsent hwatched).2
    (fun h => hw h.1) rfl

end Sample

end Keylix.Verifier

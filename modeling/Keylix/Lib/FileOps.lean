import Keylix.Lib.FileSystem

/-!
# Operations on a directory

The system calls of a process that holds one directory, as a signature, with their meaning on
`Fs`. `okHandler` is the meaning without failures: an operation fails only where the directory says
so (`notFound`, `alreadyExists`). `fsHandler faults` adds, when `faults` holds, a failure of any
operation, after all of its effect, a part of it or none.

Each operation has one rule for `Safe` under `fsHandler`. A program over these operations is proved
about with the rules alone.
-/

set_option autoImplicit false

namespace Keylix.Lib

inductive FileOp where
  /-- Opens the directories from the root along the names and reads the metadata of each. -/
  | openPath (path : List FileName)
  | listNames
  /-- The metadata of an entry, without following a link. -/
  | metadata (name : FileName)
  | openFile (name : FileName)
  /-- A new file that nothing was bound to. -/
  | newFile (name : FileName) (mode : Nat)
  | removeFile (name : FileName)
  | hardLink (existing new : FileName)
  /-- Flushes the names of the directory. -/
  | syncAll
  | fileMetadata (file : Nat)
  /-- The content of a file, up to a number of bytes. -/
  | readFile (file limit : Nat)
  | write (file : Nat) (data : Bytes)
  /-- Flushes the content of a file. -/
  | syncFile (file : Nat)
  /-- Takes the advisory lock of a file, or fails at once. -/
  | tryLockExclusive (file : Nat)
  /-- Random bytes. -/
  | fill (count : Nat)

/-- The value of a successful operation. -/
def FileOp.Val : FileOp → Type
  | .openPath _ => List Stat
  | .listNames => List FileName
  | .metadata _ => Stat
  | .openFile _ => Nat
  | .newFile _ _ => Nat
  | .removeFile _ => Unit
  | .hardLink _ _ => Unit
  | .syncAll => Unit
  | .fileMetadata _ => Stat
  | .readFile _ _ => Bytes
  | .write _ _ => Unit
  | .syncFile _ => Unit
  | .tryLockExclusive _ => Unit
  | .fill count => ByteArr count

def fileOps : Signature := ⟨FileOp, fun op => Except IoError op.Val⟩

/-- One operation. -/
abbrev fileOp (op : FileOp) : Prog fileOps (Except IoError op.Val) := Prog.perform (S := fileOps) op

/-- The account of the process, its file creation mask, and the directories outside. -/
structure FsHost where
  uid : Nat
  umask : Nat
  path : List FileName → Except IoError (List Stat)

/-- A file of the process. -/
def FsHost.file (host : FsHost) (mode : Nat) (content : Bytes) (synced : Bool) : Inode :=
  ⟨true, host.uid, Nat.ldiff mode host.umask, content, synced⟩

namespace Fs

/-- The file of a name. -/
def find (s : Fs) (name : FileName) : Except IoError Nat :=
  match s.dir.lookup name with
  | some ino => .ok ino
  | none => .error .notFound

def metadata (s : Fs) (name : FileName) : Except IoError Stat :=
  (s.find name).map fun ino => (s.inodes ino).stat

end Fs

variable (host : FsHost)

/-- The meaning of the operations without failures. -/
def okHandler : Prog.Handler fileOps Fs
  | .openPath path, s, x, s' => x = host.path path ∧ s' = s
  -- the order of a listing is not specified
  | .listNames, s, x, s' => (∃ names, names.Perm s.dir.keys ∧ x = .ok names) ∧ s' = s
  | .metadata name, s, x, s' => x = s.metadata name ∧ s' = s
  | .openFile name, s, x, s' => x = s.find name ∧ s' = s
  | .newFile name mode, s, x, s' =>
      match s.dir.lookup name with
      | none => x = .ok s.next ∧ s' = s.create name (host.file mode [] false)
      | some _ => x = .error .alreadyExists ∧ s' = s
  | .removeFile name, s, x, s' =>
      match s.dir.lookup name with
      | none => x = .error .notFound ∧ s' = s
      | some _ => x = .ok () ∧ s' = s.change (.unlink name)
  | .hardLink existing new, s, x, s' =>
      -- a link does not replace an existing name
      match s.dir.lookup existing, s.dir.lookup new with
      | none, _ => x = .error .notFound ∧ s' = s
      | some _, some _ => x = .error .alreadyExists ∧ s' = s
      | some ino, none => x = .ok () ∧ s' = s.change (.link new ino)
  | .syncAll, s, x, s' => x = .ok () ∧ s' = s.commit
  | .fileMetadata file, s, x, s' => x = .ok (s.inodes file).stat ∧ s' = s
  | .readFile file limit, s, x, s' => x = .ok ((s.inodes file).content.take limit) ∧ s' = s
  | .write file data, s, x, s' => x = .ok () ∧ s' = s.append file data
  | .syncFile file, s, x, s' => x = .ok () ∧ s' = s.flush file
  | .tryLockExclusive _, s, x, s' => x = .ok () ∧ s' = s
  | .fill _, s, x, s' => (∃ bytes, x = .ok bytes) ∧ s' = s

/-- What a failed operation may leave. -/
def Failed (op : FileOp) (s s' : Fs) : Prop :=
  s' = s ∨ (∃ y, okHandler host op s y s') ∨
    ∃ file data count, op = .write file data ∧ s' = s.append file (data.take count)

/-- The meaning of the operations with failures. -/
def fsHandler (faults : Prop) : Prog.Handler fileOps Fs := fun op s x s' =>
  okHandler host op s x s' ∨ faults ∧ (∃ e, x = .error e) ∧ Failed host op s s'

theorem okHandler_le_fsHandler (faults : Prop) (op : FileOp) (s : Fs)
    (x : Except IoError op.Val) (s' : Fs) (h : okHandler host op s x s') :
    fsHandler host faults op s x s' :=
  Or.inl h

/-- The answers as a function: the names in the order of the directory, and zeros for random
bytes. -/
def okExec : (op : FileOp) → Fs → Except IoError op.Val × Fs
  | .openPath path, s => (host.path path, s)
  | .listNames, s => (.ok s.dir.keys, s)
  | .metadata name, s => (s.metadata name, s)
  | .openFile name, s => (s.find name, s)
  | .newFile name mode, s =>
      match s.dir.lookup name with
      | none => (.ok s.next, s.create name (host.file mode [] false))
      | some _ => (.error .alreadyExists, s)
  | .removeFile name, s =>
      match s.dir.lookup name with
      | none => (.error .notFound, s)
      | some _ => (.ok (), s.change (.unlink name))
  | .hardLink existing new, s =>
      match s.dir.lookup existing, s.dir.lookup new with
      | none, _ => (.error .notFound, s)
      | some _, some _ => (.error .alreadyExists, s)
      | some ino, none => (.ok (), s.change (.link new ino))
  | .syncAll, s => (.ok (), s.commit)
  | .fileMetadata file, s => (.ok (s.inodes file).stat, s)
  | .readFile file limit, s => (.ok ((s.inodes file).content.take limit), s)
  | .write file data, s => (.ok (), s.append file data)
  | .syncFile file, s => (.ok (), s.flush file)
  | .tryLockExclusive _, s => (.ok (), s)
  | .fill count, s => (.ok ⟨List.replicate count 0, List.length_replicate⟩, s)

theorem okHandler_okExec (op : FileOp) (s : Fs) :
    okHandler host op s (okExec host op s).1 (okExec host op s).2 := by
  cases op with
  | openPath path => exact ⟨rfl, rfl⟩
  | listNames => exact ⟨⟨_, List.Perm.refl _, rfl⟩, rfl⟩
  | metadata name => exact ⟨rfl, rfl⟩
  | openFile name => exact ⟨rfl, rfl⟩
  | newFile name mode =>
    simp only [okHandler, okExec]
    cases s.dir.lookup name with
    | none => exact ⟨rfl, rfl⟩
    | some ino => exact ⟨rfl, rfl⟩
  | removeFile name =>
    simp only [okHandler, okExec]
    cases s.dir.lookup name with
    | none => exact ⟨rfl, rfl⟩
    | some ino => exact ⟨rfl, rfl⟩
  | hardLink existing new =>
    simp only [okHandler, okExec]
    cases s.dir.lookup existing with
    | none => exact ⟨rfl, rfl⟩
    | some ino =>
      cases s.dir.lookup new with
      | none => exact ⟨rfl, rfl⟩
      | some ino' => exact ⟨rfl, rfl⟩
  | syncAll => exact ⟨rfl, rfl⟩
  | fileMetadata file => exact ⟨rfl, rfl⟩
  | readFile file limit => exact ⟨rfl, rfl⟩
  | write file data => exact ⟨rfl, rfl⟩
  | syncFile file => exact ⟨rfl, rfl⟩
  | tryLockExclusive file => exact ⟨rfl, rfl⟩
  | fill count => exact ⟨⟨_, rfl⟩, rfl⟩

theorem okHandler_total : Prog.Handler.Total (okHandler host) :=
  fun op s => ⟨_, _, okHandler_okExec host op s⟩

/-- A crash right after an operation that binds a name may lose the name. -/
theorem exists_crash_of_bound {op : FileOp} {s s' : Fs} {x : Except IoError op.Val} {n : FileName}
    (h : okHandler host op s x s') (hn : s.dir.lookup n = none) (hn' : s'.dir.lookup n ≠ none) :
    ∃ s₁, s'.Crash s₁ ∧ s₁.dir.lookup n = none := by
  cases op with
  | newFile name mode =>
    simp only [okHandler] at h
    cases hname : s.dir.lookup name with
    | none =>
      rw [hname] at h
      obtain ⟨-, rfl⟩ := h
      exact ⟨{ s.create name (host.file mode [] false) with journal := s.journal },
        ⟨rfl, rfl, List.sublist_append_left _ _, fun _ => Or.inl rfl⟩, hn⟩
    | some ino =>
      rw [hname] at h
      obtain ⟨-, rfl⟩ := h
      exact absurd hn hn'
  | hardLink existing new =>
    simp only [okHandler] at h
    split at h
    · obtain ⟨-, rfl⟩ := h
      exact absurd hn hn'
    · obtain ⟨-, rfl⟩ := h
      exact absurd hn hn'
    next ino _ _ =>
      obtain ⟨-, rfl⟩ := h
      exact ⟨s, ⟨rfl, rfl, List.sublist_append_left _ _, fun _ => Or.inl rfl⟩, hn⟩
  | removeFile name =>
    -- a removal binds nothing
    simp only [okHandler] at h
    split at h
    · obtain ⟨-, rfl⟩ := h
      exact absurd hn hn'
    · obtain ⟨-, rfl⟩ := h
      rw [Fs.lookup_unlink, hn, ite_self] at hn'
      exact absurd rfl hn'
  | _ =>
    obtain ⟨-, rfl⟩ := h
    exact absurd hn hn'

/-! ## Rules -/

section Rules

open Prog (Safe)

variable {host} {faults : Prop} {I : Fs → Prop} {s : Fs} {name : FileName}

/-- An operation that changes nothing. -/
theorem safe_reads {op : FileOp} {Q : Except IoError op.Val → Fs → Prop} (hI : I s)
    (hsame : ∀ x s', okHandler host op s x s' → s' = s)
    (hwrite : ∀ file data, op ≠ .write file data)
    (hok : ∀ x s', okHandler host op s x s' → Q x s)
    (herr : faults → ∀ e, Q (.error e) s) :
    Safe (fsHandler host faults) I Q (fileOp op) s := by
  apply Safe.perform hI
  rintro x s' (h | ⟨hfaults, ⟨e, rfl⟩, rfl | ⟨y, hy⟩ | ⟨file, data, count, rfl, -⟩⟩)
  · cases hsame x s' h
    exact ⟨hI, hok x s h⟩
  · exact ⟨hI, herr hfaults e⟩
  · cases hsame y s' hy
    exact ⟨hI, herr hfaults e⟩
  · exact absurd rfl (hwrite file data)

theorem safe_openPath {path : List FileName} {Q : Except IoError (List Stat) → Fs → Prop}
    (hI : I s) (hok : Q (host.path path) s) (herr : faults → ∀ e, Q (.error e) s) :
    Safe (fsHandler host faults) I Q (fileOp (.openPath path)) s := by
  refine safe_reads hI (fun x s' h => h.2) (fun _ _ h => by cases h) ?_ herr
  rintro x s' ⟨rfl, -⟩
  exact hok

theorem safe_listNames {Q : Except IoError (List FileName) → Fs → Prop} (hI : I s)
    (hok : ∀ names, names.Perm s.dir.keys → Q (.ok names) s)
    (herr : faults → ∀ e, Q (.error e) s) :
    Safe (fsHandler host faults) I Q (fileOp .listNames) s := by
  refine safe_reads hI (fun x s' h => h.2) (fun _ _ h => by cases h) ?_ herr
  rintro x s' ⟨⟨names, hperm, rfl⟩, -⟩
  exact hok names hperm

theorem safe_metadata {Q : Except IoError Stat → Fs → Prop} (hI : I s)
    (hok : Q (s.metadata name) s) (herr : faults → ∀ e, Q (.error e) s) :
    Safe (fsHandler host faults) I Q (fileOp (.metadata name)) s := by
  refine safe_reads hI (fun x s' h => h.2) (fun _ _ h => by cases h) ?_ herr
  rintro x s' ⟨rfl, -⟩
  exact hok

theorem safe_openFile {Q : Except IoError Nat → Fs → Prop} (hI : I s)
    (hok : Q (s.find name) s) (herr : faults → ∀ e, Q (.error e) s) :
    Safe (fsHandler host faults) I Q (fileOp (.openFile name)) s := by
  refine safe_reads hI (fun x s' h => h.2) (fun _ _ h => by cases h) ?_ herr
  rintro x s' ⟨rfl, -⟩
  exact hok

theorem safe_fileMetadata {file : Nat} {Q : Except IoError Stat → Fs → Prop} (hI : I s)
    (hok : Q (.ok (s.inodes file).stat) s) (herr : faults → ∀ e, Q (.error e) s) :
    Safe (fsHandler host faults) I Q (fileOp (.fileMetadata file)) s := by
  refine safe_reads hI (fun x s' h => h.2) (fun _ _ h => by cases h) ?_ herr
  rintro x s' ⟨rfl, -⟩
  exact hok

theorem safe_readFile {file limit : Nat} {Q : Except IoError Bytes → Fs → Prop} (hI : I s)
    (hok : Q (.ok ((s.inodes file).content.take limit)) s)
    (herr : faults → ∀ e, Q (.error e) s) :
    Safe (fsHandler host faults) I Q (fileOp (.readFile file limit)) s := by
  refine safe_reads hI (fun x s' h => h.2) (fun _ _ h => by cases h) ?_ herr
  rintro x s' ⟨rfl, -⟩
  exact hok

theorem safe_tryLockExclusive {file : Nat} {Q : Except IoError Unit → Fs → Prop} (hI : I s)
    (hok : Q (.ok ()) s) (herr : faults → ∀ e, Q (.error e) s) :
    Safe (fsHandler host faults) I Q (fileOp (.tryLockExclusive file)) s := by
  refine safe_reads hI (fun x s' h => h.2) (fun _ _ h => by cases h) ?_ herr
  rintro x s' ⟨rfl, -⟩
  exact hok

theorem safe_fill {count : Nat} {Q : Except IoError (ByteArr count) → Fs → Prop} (hI : I s)
    (hok : ∀ bytes, Q (.ok bytes) s) (herr : faults → ∀ e, Q (.error e) s) :
    Safe (fsHandler host faults) I Q (fileOp (.fill count)) s := by
  refine safe_reads hI (fun x s' h => h.2) (fun _ _ h => by cases h) ?_ herr
  rintro x s' ⟨⟨bytes, rfl⟩, -⟩
  exact hok bytes

theorem safe_newFile {mode : Nat} {Q : Except IoError Nat → Fs → Prop} (hI : I s)
    (hfree : s.dir.lookup name = none →
      I (s.create name (host.file mode [] false)) ∧
        Q (.ok s.next) (s.create name (host.file mode [] false)) ∧
        (faults → ∀ e, Q (.error e) (s.create name (host.file mode [] false))))
    (hbound : s.dir.lookup name ≠ none → Q (.error .alreadyExists) s)
    (herr : faults → ∀ e, Q (.error e) s) :
    Safe (fsHandler host faults) I Q (fileOp (.newFile name mode)) s := by
  have hcases : ∀ x s', okHandler host (.newFile name mode) s x s' →
      s.dir.lookup name = none ∧ x = .ok s.next ∧ s' = s.create name (host.file mode [] false) ∨
        s.dir.lookup name ≠ none ∧ x = .error .alreadyExists ∧ s' = s := by
    intro x s' h
    simp only [okHandler] at h
    cases hname : s.dir.lookup name with
    | none => rw [hname] at h; exact Or.inl ⟨rfl, h⟩
    | some ino => rw [hname] at h; exact Or.inr ⟨by simp, h⟩
  apply Safe.perform hI
  rintro x s' (h | ⟨hfaults, ⟨e, rfl⟩, rfl | ⟨y, hy⟩ | ⟨file, data, count, hop, -⟩⟩)
  · obtain ⟨hname, rfl, rfl⟩ | ⟨hname, rfl, rfl⟩ := hcases x s' h
    · exact ⟨(hfree hname).1, (hfree hname).2.1⟩
    · exact ⟨hI, hbound hname⟩
  · exact ⟨hI, herr hfaults e⟩
  · obtain ⟨hname, -, rfl⟩ | ⟨hname, -, rfl⟩ := hcases y s' hy
    · exact ⟨(hfree hname).1, (hfree hname).2.2 hfaults e⟩
    · exact ⟨hI, herr hfaults e⟩
  · cases hop

theorem safe_removeFile {Q : Except IoError Unit → Fs → Prop} (hI : I s)
    (hbound : s.dir.lookup name ≠ none →
      I (s.change (.unlink name)) ∧ Q (.ok ()) (s.change (.unlink name)) ∧
        (faults → ∀ e, Q (.error e) (s.change (.unlink name))))
    (hfree : s.dir.lookup name = none → Q (.error .notFound) s)
    (herr : faults → ∀ e, Q (.error e) s) :
    Safe (fsHandler host faults) I Q (fileOp (.removeFile name)) s := by
  have hcases : ∀ x s', okHandler host (.removeFile name) s x s' →
      s.dir.lookup name ≠ none ∧ x = .ok () ∧ s' = s.change (.unlink name) ∨
        s.dir.lookup name = none ∧ x = .error .notFound ∧ s' = s := by
    intro x s' h
    simp only [okHandler] at h
    cases hname : s.dir.lookup name with
    | none => rw [hname] at h; exact Or.inr ⟨rfl, h⟩
    | some ino => rw [hname] at h; exact Or.inl ⟨by simp, h⟩
  apply Safe.perform hI
  rintro x s' (h | ⟨hfaults, ⟨e, rfl⟩, rfl | ⟨y, hy⟩ | ⟨file, data, count, hop, -⟩⟩)
  · obtain ⟨hname, rfl, rfl⟩ | ⟨hname, rfl, rfl⟩ := hcases x s' h
    · exact ⟨(hbound hname).1, (hbound hname).2.1⟩
    · exact ⟨hI, hfree hname⟩
  · exact ⟨hI, herr hfaults e⟩
  · obtain ⟨hname, -, rfl⟩ | ⟨hname, -, rfl⟩ := hcases y s' hy
    · exact ⟨(hbound hname).1, (hbound hname).2.2 hfaults e⟩
    · exact ⟨hI, herr hfaults e⟩
  · cases hop

theorem safe_hardLink {existing new : FileName} {Q : Except IoError Unit → Fs → Prop} (hI : I s)
    (hlink : ∀ ino, s.dir.lookup existing = some ino → s.dir.lookup new = none →
      I (s.change (.link new ino)) ∧ Q (.ok ()) (s.change (.link new ino)) ∧
        (faults → ∀ e, Q (.error e) (s.change (.link new ino))))
    (hrefused : s.dir.lookup existing = none ∨ s.dir.lookup new ≠ none → ∀ e, Q (.error e) s)
    (herr : faults → ∀ e, Q (.error e) s) :
    Safe (fsHandler host faults) I Q (fileOp (.hardLink existing new)) s := by
  have hcases : ∀ x s', okHandler host (.hardLink existing new) s x s' →
      (∃ ino, s.dir.lookup existing = some ino ∧ s.dir.lookup new = none ∧ x = .ok () ∧
          s' = s.change (.link new ino)) ∨
        (s.dir.lookup existing = none ∨ s.dir.lookup new ≠ none) ∧ (∃ e, x = .error e) ∧
          s' = s := by
    intro x s' h
    simp only [okHandler] at h
    cases hexisting : s.dir.lookup existing with
    | none =>
      rw [hexisting] at h
      exact Or.inr ⟨Or.inl rfl, ⟨_, h.1⟩, h.2⟩
    | some ino =>
      rw [hexisting] at h
      cases hnew : s.dir.lookup new with
      | none => rw [hnew] at h; exact Or.inl ⟨ino, rfl, rfl, h⟩
      | some ino' => rw [hnew] at h; exact Or.inr ⟨Or.inr (by simp), ⟨_, h.1⟩, h.2⟩
  apply Safe.perform hI
  rintro x s' (h | ⟨hfaults, ⟨e, rfl⟩, rfl | ⟨y, hy⟩ | ⟨file, data, count, hop, -⟩⟩)
  · obtain ⟨ino, hexisting, hnew, rfl, rfl⟩ | ⟨hno, ⟨e, rfl⟩, rfl⟩ := hcases x s' h
    · exact ⟨(hlink ino hexisting hnew).1, (hlink ino hexisting hnew).2.1⟩
    · exact ⟨hI, hrefused hno e⟩
  · exact ⟨hI, herr hfaults e⟩
  · obtain ⟨ino, hexisting, hnew, -, rfl⟩ | ⟨-, -, rfl⟩ := hcases y s' hy
    · exact ⟨(hlink ino hexisting hnew).1, (hlink ino hexisting hnew).2.2 hfaults e⟩
    · exact ⟨hI, herr hfaults e⟩
  · cases hop

theorem safe_syncAll {Q : Except IoError Unit → Fs → Prop} (hI : I s)
    (hok : I s.commit ∧ Q (.ok ()) s.commit)
    (herr : faults → ∀ e, Q (.error e) s ∧ Q (.error e) s.commit) :
    Safe (fsHandler host faults) I Q (fileOp .syncAll) s := by
  apply Safe.perform hI
  rintro x s' (⟨rfl, rfl⟩ | ⟨hfaults, ⟨e, rfl⟩, rfl | ⟨y, -, rfl⟩ | ⟨file, data, count, hop, -⟩⟩)
  · exact hok
  · exact ⟨hI, (herr hfaults e).1⟩
  · exact ⟨hok.1, (herr hfaults e).2⟩
  · cases hop

theorem safe_syncFile {file : Nat} {Q : Except IoError Unit → Fs → Prop} (hI : I s)
    (hok : I (s.flush file) ∧ Q (.ok ()) (s.flush file))
    (herr : faults → ∀ e, Q (.error e) s ∧ Q (.error e) (s.flush file)) :
    Safe (fsHandler host faults) I Q (fileOp (.syncFile file)) s := by
  apply Safe.perform hI
  rintro x s' (⟨rfl, rfl⟩ | ⟨hfaults, ⟨e, rfl⟩, rfl | ⟨y, -, rfl⟩ | ⟨file, data, count, hop, -⟩⟩)
  · exact hok
  · exact ⟨hI, (herr hfaults e).1⟩
  · exact ⟨hok.1, (herr hfaults e).2⟩
  · cases hop

theorem safe_write {file : Nat} {data : Bytes} {Q : Except IoError Unit → Fs → Prop} (hI : I s)
    (hpart : ∀ count, I (s.append file (data.take count)))
    (hok : Q (.ok ()) (s.append file data))
    (herr : faults → ∀ e, Q (.error e) s ∧ ∀ count,
      Q (.error e) (s.append file (data.take count))) :
    Safe (fsHandler host faults) I Q (fileOp (.write file data)) s := by
  have hwhole : data.take data.length = data := List.take_length
  apply Safe.perform hI
  rintro x s' (⟨rfl, rfl⟩ | ⟨hfaults, ⟨e, rfl⟩, rfl | ⟨y, -, rfl⟩ | ⟨file, data, count, hop, rfl⟩⟩)
  · exact ⟨hwhole ▸ hpart data.length, hok⟩
  · exact ⟨hI, (herr hfaults e).1⟩
  · exact ⟨hwhole ▸ hpart data.length, hwhole ▸ (herr hfaults e).2 data.length⟩
  · cases hop
    exact ⟨hpart count, (herr hfaults e).2 count⟩

end Rules

end Keylix.Lib

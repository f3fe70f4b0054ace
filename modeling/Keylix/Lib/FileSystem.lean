import Keylix.Lib.Bytes
import Keylix.Lib.FiniteMap
import Keylix.Lib.Program

/-!
# One directory of a file system

The files of one directory as a process sees them through descriptor-relative calls, and what of
them is on disk. A directory is the state of its last `syncAll` and the changes made since
(`journal`); a file knows whether its content reached the disk (`synced`). A crash keeps any of the
changes and any content of a file that was not synced (`Crash`).

`okHandler` answers every operation as the directory stands. `fsHandler faults` may also let an
operation fail, with all of its effect, a part of it, or none.

Two properties are carried through operations and crashes: `Holds E`, that every name that is bound
now or may be bound after a crash satisfies `E`, and `Durable`, that a name keeps its content until
it is removed.
-/

set_option autoImplicit false

namespace Keylix.Lib

/-! ## Files and changes -/

/-- The texts that name an entry of a directory: one component of a path, and neither the directory
itself nor its parent. -/
def isFileName (b : Bytes) : Bool :=
  b ≠ [] && b ≠ ascii "." && b ≠ ascii ".." && b.all fun c => c ≠ byte '/' && c ≠ 0

/-- The name of an entry of a directory. -/
structure FileName where
  bytes : Bytes
  valid : isFileName bytes = true
  deriving DecidableEq

/-- A file. -/
structure Inode where
  regular : Bool
  uid : Nat
  mode : Nat
  content : Bytes
  /-- The content is on disk. -/
  synced : Bool

/-- The metadata of a file. -/
structure Stat where
  regular : Bool
  uid : Nat
  mode : Nat
  size : Nat

def Inode.stat (i : Inode) : Stat := ⟨i.regular, i.uid, i.mode, i.content.length⟩

/-- The file after more bytes are written to it. -/
def Inode.append (i : Inode) (data : Bytes) : Inode :=
  { i with content := i.content ++ data, synced := false }

/-- The file after its content reached the disk. -/
def Inode.flush (i : Inode) : Inode := { i with synced := true }

/-- What a crash leaves of a file: a content that was not synced may be anything of at most its
length. -/
def Inode.Crash (i i' : Inode) : Prop :=
  i' = i ∨ i.synced = false ∧
    ∃ content : Bytes, content.length ≤ i.content.length ∧ i' = { i with content := content }

/-- The kinds of failure that callers tell apart. -/
inductive IoError where
  | notFound
  | alreadyExists
  | other
  deriving DecidableEq

/-- A change of a directory. -/
inductive DirChange where
  | link (name : FileName) (ino : Nat)
  | unlink (name : FileName)

def DirChange.name : DirChange → FileName
  | .link name _ => name
  | .unlink name => name

def DirChange.apply (dir : FiniteMap FileName Nat) : DirChange → FiniteMap FileName Nat
  | .link name ino => dir.insert name ino
  | .unlink name => dir.erase name

/-- A directory with its files. -/
structure Fs where
  inodes : Nat → Inode
  /-- The next file gets this number. -/
  next : Nat
  /-- The names on disk. -/
  base : FiniteMap FileName Nat
  /-- The changes since, the oldest first. -/
  journal : List DirChange

namespace Fs

/-- The names as the process sees them. -/
def dir (s : Fs) : FiniteMap FileName Nat := s.journal.foldl DirChange.apply s.base

/-- The directory with one more change. -/
def change (s : Fs) (c : DirChange) : Fs := { s with journal := s.journal ++ [c] }

/-- The directory with one file replaced. -/
def setInode (s : Fs) (ino : Nat) (i : Inode) : Fs :=
  { s with inodes := Function.update s.inodes ino i }

/-- A new file under a name. -/
def create (s : Fs) (name : FileName) (i : Inode) : Fs :=
  { (s.setInode s.next i).change (.link name s.next) with next := s.next + 1 }

/-- More bytes in a file. -/
def append (s : Fs) (ino : Nat) (data : Bytes) : Fs :=
  s.setInode ino ((s.inodes ino).append data)

/-- The content of a file on disk. -/
def flush (s : Fs) (ino : Nat) : Fs := s.setInode ino (s.inodes ino).flush

/-- The names on disk. -/
def commit (s : Fs) : Fs := { s with base := s.dir, journal := [] }

/-- What a crash leaves: any of the changes, and of each file what `Inode.Crash` allows. A change
that survived stays at risk until the next `syncAll`. -/
structure Crash (s s' : Fs) : Prop where
  base : s'.base = s.base
  next : s'.next = s.next
  journal : s'.journal.Sublist s.journal
  inodes : ∀ ino, (s.inodes ino).Crash (s'.inodes ino)

/-- The process stops and nothing is lost. -/
theorem Crash.refl (s : Fs) : s.Crash s := ⟨rfl, rfl, List.Sublist.refl _, fun _ => Or.inl rfl⟩

/-! ## The names -/

section Names

variable (s : Fs) (n name : FileName) (ino : Nat) (i : Inode) (data : Bytes)

@[simp] theorem dir_change (c : DirChange) : (s.change c).dir = c.apply s.dir := by
  simp [dir, change]

@[simp] theorem dir_setInode : (s.setInode ino i).dir = s.dir := rfl

@[simp] theorem dir_create : (s.create name i).dir = s.dir.insert name s.next := by
  show ((s.setInode s.next i).change (.link name s.next)).dir = _
  rw [dir_change]
  rfl

@[simp] theorem dir_append : (s.append ino data).dir = s.dir := rfl

@[simp] theorem dir_flush : (s.flush ino).dir = s.dir := rfl

@[simp] theorem dir_commit : s.commit.dir = s.dir := rfl

theorem lookup_link : (s.change (.link name ino)).dir.lookup n =
    if n = name then some ino else s.dir.lookup n := by
  rw [dir_change]
  exact FiniteMap.lookup_insert _ _ _ _

theorem lookup_unlink : (s.change (.unlink name)).dir.lookup n =
    if n = name then none else s.dir.lookup n := by
  rw [dir_change]
  exact FiniteMap.lookup_erase _ _ _

theorem lookup_create : (s.create name i).dir.lookup n =
    if n = name then some s.next else s.dir.lookup n := by
  rw [dir_create]
  exact FiniteMap.lookup_insert _ _ _ _

end Names

/-- A name that no change mentions is bound as on disk. -/
theorem lookup_dir_of_untouched {s : Fs} {n : FileName} (h : ∀ c ∈ s.journal, c.name ≠ n) :
    s.dir.lookup n = s.base.lookup n := by
  obtain ⟨inodes, next, base, journal⟩ := s
  simp only [dir] at h ⊢
  induction journal generalizing base with
  | nil => rfl
  | cons c journal ih =>
    rw [List.foldl_cons, ih (c.apply base) fun d hd => h d (List.mem_cons_of_mem _ hd)]
    have hc : n ≠ c.name := (h c List.mem_cons_self).symm
    cases c with
    | link name ino => exact (FiniteMap.lookup_insert _ _ _ _).trans (if_neg hc)
    | unlink name => exact (FiniteMap.lookup_erase _ _ _).trans (if_neg hc)

/-- The name is bound to the file, on disk or by a change: after a crash it may be. -/
def Binds (s : Fs) (n : FileName) (ino : Nat) : Prop :=
  s.base.lookup n = some ino ∨ .link n ino ∈ s.journal

/-- A directory without entries. -/
structure IsEmpty (s : Fs) : Prop where
  base : s.base = .empty
  journal : s.journal = []

theorem IsEmpty.not_binds {s : Fs} (h : s.IsEmpty) (n : FileName) (ino : Nat) :
    ¬ s.Binds n ino := by
  rintro (hbase | hlink)
  · rw [h.base] at hbase
    cases hbase
  · rw [h.journal] at hlink
    cases hlink

theorem binds_of_lookup {s : Fs} {n : FileName} {ino : Nat} (h : s.dir.lookup n = some ino) :
    s.Binds n ino := by
  obtain ⟨inodes, next, base, journal⟩ := s
  simp only [dir, Binds] at h ⊢
  induction journal generalizing base with
  | nil => exact Or.inl h
  | cons c journal ih =>
    rcases ih (c.apply base) h with hbase | hmem
    · cases c with
      | link name ino' =>
        rw [DirChange.apply, FiniteMap.lookup_insert] at hbase
        split at hbase
        · next hn =>
          cases hbase
          exact Or.inr (hn ▸ List.mem_cons_self)
        · exact Or.inl hbase
      | unlink name =>
        rw [DirChange.apply, FiniteMap.lookup_erase] at hbase
        split at hbase
        · cases hbase
        · exact Or.inl hbase
    · exact Or.inr (List.mem_cons_of_mem _ hmem)

theorem binds_change {s : Fs} {c : DirChange} {n : FileName} {ino : Nat}
    (h : (s.change c).Binds n ino) : s.Binds n ino ∨ c = .link n ino := by
  rcases h with hbase | hmem
  · exact Or.inl (Or.inl hbase)
  · rcases List.mem_append.1 hmem with hmem | hmem
    · exact Or.inl (Or.inr hmem)
    · exact Or.inr (List.mem_singleton.1 hmem).symm

theorem binds_commit {s : Fs} {n : FileName} {ino : Nat} (h : s.commit.Binds n ino) :
    s.Binds n ino := by
  rcases h with hbase | hmem
  · exact binds_of_lookup hbase
  · cases hmem

theorem Crash.binds {s s' : Fs} (h : s.Crash s') {n : FileName} {ino : Nat} (hb : s'.Binds n ino) :
    s.Binds n ino := by
  rcases hb with hbase | hmem
  · exact Or.inl (h.base ▸ hbase)
  · exact Or.inr (h.journal.subset hmem)

/-! ## What holds of every file -/

/-- Every name that is bound, or may be after a crash, is the name of an allocated file that
satisfies `E`. -/
def Holds (E : FileName → Inode → Prop) (s : Fs) : Prop :=
  ∀ n ino, s.Binds n ino → ino < s.next ∧ E n (s.inodes ino)

section Holds

variable {E : FileName → Inode → Prop} {s s' : Fs} {name : FileName} {ino : Nat} {i : Inode}

theorem Holds.lookup (h : s.Holds E) (hn : s.dir.lookup name = some ino) :
    ino < s.next ∧ E name (s.inodes ino) :=
  h name ino (binds_of_lookup hn)

theorem IsEmpty.holds (h : s.IsEmpty) (E : FileName → Inode → Prop) : s.Holds E :=
  fun n ino hb => absurd hb (h.not_binds n ino)

theorem Holds.create (h : s.Holds E) (hi : E name i) : (s.create name i).Holds E := by
  intro n ino hb
  rcases binds_change (s := s.setInode s.next i) hb with hold | hnew
  · obtain ⟨hlt, hE⟩ := h n ino hold
    refine ⟨Nat.lt_succ_of_lt hlt, ?_⟩
    have hne : ino ≠ s.next := Nat.ne_of_lt hlt
    show E n (Function.update s.inodes s.next i ino)
    rwa [Function.update_of_ne hne]
  · cases hnew
    refine ⟨Nat.lt_succ_self _, ?_⟩
    show E name (Function.update s.inodes s.next i s.next)
    rwa [Function.update_self]

/-- A file is replaced by one that satisfies `E` under every name of it. -/
theorem Holds.setInode (h : s.Holds E) (hi : ∀ n, s.Binds n ino → E n i) :
    (s.setInode ino i).Holds E := by
  intro n ino' hb
  obtain ⟨hlt, hE⟩ := h n ino' hb
  refine ⟨hlt, ?_⟩
  show E n (Function.update s.inodes ino i ino')
  by_cases hino : ino' = ino
  · subst hino
    rw [Function.update_self]
    exact hi n hb
  · rwa [Function.update_of_ne hino]

theorem Holds.link (h : s.Holds E) (hlt : ino < s.next) (hi : E name (s.inodes ino)) :
    (s.change (.link name ino)).Holds E := by
  intro n ino' hb
  rcases binds_change hb with hold | hnew
  · exact h n ino' hold
  · cases hnew
    exact ⟨hlt, hi⟩

theorem Holds.unlink (h : s.Holds E) : (s.change (.unlink name)).Holds E := by
  intro n ino' hb
  rcases binds_change hb with hold | hnew
  · exact h n ino' hold
  · cases hnew

theorem Holds.commit (h : s.Holds E) : s.commit.Holds E :=
  fun n ino hb => h n ino (binds_commit hb)

theorem Holds.crash (h : s.Holds E) (hE : ∀ n i i', E n i → i.Crash i' → E n i')
    (hc : s.Crash s') : s'.Holds E := by
  intro n ino hb
  obtain ⟨hlt, hi⟩ := h n ino (hc.binds hb)
  exact ⟨hc.next ▸ hlt, hE n _ _ hi (hc.inodes ino)⟩

end Holds

/-! ## What is on disk -/

/-- The name is on disk with a content that is on disk, and no change since mentions it. -/
def Durable (s : Fs) (name : FileName) (content : Bytes) : Prop :=
  ∃ ino, s.base.lookup name = some ino ∧ ino < s.next ∧ (s.inodes ino).content = content ∧
    (s.inodes ino).synced = true ∧ ∀ c ∈ s.journal, c.name ≠ name

section Durable

variable {s s' : Fs} {name n : FileName} {content : Bytes} {ino : Nat} {i : Inode}

theorem Durable.lookup (h : s.Durable name content) :
    ∃ ino, s.dir.lookup name = some ino ∧ (s.inodes ino).content = content := by
  obtain ⟨ino, hbase, -, hcontent, -, hjournal⟩ := h
  exact ⟨ino, (lookup_dir_of_untouched hjournal).trans hbase, hcontent⟩

/-- A change of another name. -/
theorem Durable.change (h : s.Durable name content) {c : DirChange} (hc : c.name ≠ name) :
    (s.change c).Durable name content := by
  obtain ⟨ino, hbase, hlt, hcontent, hsynced, hjournal⟩ := h
  refine ⟨ino, hbase, hlt, hcontent, hsynced, ?_⟩
  intro d hd
  rcases List.mem_append.1 hd with hd | hd
  · exact hjournal d hd
  · rwa [List.mem_singleton.1 hd]

/-- A replacement of a file that no durable name is bound to. -/
theorem Durable.setInode (h : s.Durable name content) (hi : ¬ s.Binds name ino) :
    (s.setInode ino i).Durable name content := by
  obtain ⟨ino', hbase, hlt, hcontent, hsynced, hjournal⟩ := h
  have hne : ino' ≠ ino := by
    rintro rfl
    exact hi (Or.inl hbase)
  have hsame : (s.setInode ino i).inodes ino' = s.inodes ino' := Function.update_of_ne hne _ _
  exact ⟨ino', hbase, hlt, hsame ▸ hcontent, hsame ▸ hsynced, hjournal⟩

theorem Durable.flush (h : s.Durable name content) : (s.flush ino).Durable name content := by
  obtain ⟨ino', hbase, hlt, hcontent, hsynced, hjournal⟩ := h
  have hsame : (s.flush ino).inodes ino' = s.inodes ino' ∨
      (s.flush ino).inodes ino' = (s.inodes ino').flush := by
    by_cases hino : ino' = ino
    · subst hino
      exact Or.inr (Function.update_self _ _ _)
    · exact Or.inl (Function.update_of_ne hino _ _)
  refine ⟨ino', hbase, hlt, ?_, ?_, hjournal⟩
  · rcases hsame with hsame | hsame
    · rwa [hsame]
    · rwa [hsame]
  · rcases hsame with hsame | hsame
    · rwa [hsame]
    · rw [hsame]
      rfl

theorem Durable.create (h : s.Durable name content) (hn : n ≠ name) :
    (s.create n i).Durable name content := by
  obtain ⟨ino', hbase, hlt, hcontent, hsynced, hjournal⟩ := h
  have hsame : (s.create n i).inodes ino' = s.inodes ino' :=
    Function.update_of_ne (Nat.ne_of_lt hlt) _ _
  refine ⟨ino', hbase, Nat.lt_succ_of_lt hlt, hsame ▸ hcontent, hsame ▸ hsynced, ?_⟩
  intro c hc
  rcases List.mem_append.1 hc with hc | hc
  · exact hjournal c hc
  · rwa [List.mem_singleton.1 hc]

/-- A synced file under a name becomes durable with the names. -/
theorem durable_commit (hn : s.dir.lookup name = some ino) (hlt : ino < s.next)
    (hcontent : (s.inodes ino).content = content) (hsynced : (s.inodes ino).synced = true) :
    s.commit.Durable name content := by
  refine ⟨ino, hn, hlt, hcontent, hsynced, ?_⟩
  intro c hc
  cases hc

theorem Durable.commit (h : s.Durable name content) : s.commit.Durable name content := by
  obtain ⟨ino, hbase, hlt, hcontent, hsynced, hjournal⟩ := h
  exact durable_commit ((lookup_dir_of_untouched hjournal).trans hbase) hlt hcontent hsynced

theorem Durable.crash (h : s.Durable name content) (hc : s.Crash s') :
    s'.Durable name content := by
  obtain ⟨ino, hbase, hlt, hcontent, hsynced, hjournal⟩ := h
  have hsame : s'.inodes ino = s.inodes ino := by
    rcases hc.inodes ino with heq | ⟨hnot, -⟩
    · exact heq
    · rw [hsynced] at hnot
      cases hnot
  refine ⟨ino, hc.base ▸ hbase, hc.next ▸ hlt, hsame ▸ hcontent, hsame ▸ hsynced, ?_⟩
  intro c hmem
  exact hjournal c (hc.journal.subset hmem)

end Durable

end Fs

end Keylix.Lib

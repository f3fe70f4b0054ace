import Keylix.Verifier.Replay.Marker

/-!
# What a section keeps

A section of the store, between lock and unlock, with operations that may fail at any point. Given
markers that earlier sections published (`K`), every state of the section satisfies `Kept`: the
entries of the directory are well formed and each of the markers is on disk or past its expiry
(`safe_recordMarker`). A section that answers `fresh` leaves its own marker on disk, and every
earlier marker of its key was past its expiry.

Opening the store keeps the same (`keeps_new`).
-/

set_option autoImplicit false

namespace Keylix.Verifier

open Keylix.Lib Keylix.Dpop
open Keylix.Lib.Prog (Safe)

/-- Markers that were published: keys with their expiries. -/
abbrev Markers := ReplayKey → I64 → Prop

/-- The entries are well formed and every marker of `K` is on disk or past its expiry at `now`. -/
structure Kept (E : FileName → Inode → Prop) (K : Markers) (now : I64) (s : Fs) : Prop where
  holds : s.Holds E
  marker : ∀ key expires, K key expires →
    s.Durable (nameFor key) (markerText expires) ∨ expires.toInt < now.toInt

namespace Kept

variable {host : FsHost} {E : FileName → Inode → Prop} {K : Markers} {now : I64} {s s' : Fs}
  {name : FileName} {ino : Nat} {i : Inode}

/-- A name of the markers that is free belongs to an expired one. -/
theorem expired_of_free (h : Kept E K now s) {key : ReplayKey} {expires : I64}
    (hK : K key expires) (hfree : s.dir.lookup (nameFor key) = none) :
    expires.toInt < now.toInt := by
  rcases h.marker key expires hK with hdurable | hlt
  · obtain ⟨ino, hlookup, -⟩ := hdurable.lookup
    rw [hfree] at hlookup
    cases hlookup
  · exact hlt

theorem create (h : Kept E K now s) (hfree : s.dir.lookup name = none) (hi : E name i) :
    Kept E K now (s.create name i) := by
  refine ⟨h.holds.create hi, ?_⟩
  intro key expires hK
  by_cases hname : name = nameFor key
  · exact Or.inr (h.expired_of_free hK (hname ▸ hfree))
  · exact (h.marker key expires hK).imp_left fun hdurable => hdurable.create hname

theorem link (h : Kept E K now s) (hfree : s.dir.lookup name = none) (hlt : ino < s.next)
    (hi : E name (s.inodes ino)) : Kept E K now (s.change (.link name ino)) := by
  refine ⟨h.holds.link hlt hi, ?_⟩
  intro key expires hK
  by_cases hname : name = nameFor key
  · exact Or.inr (h.expired_of_free hK (hname ▸ hfree))
  · exact (h.marker key expires hK).imp_left fun hdurable => hdurable.change hname

theorem unlink (h : Kept E K now s)
    (hname : ∀ key expires, K key expires → name = nameFor key → expires.toInt < now.toInt) :
    Kept E K now (s.change (.unlink name)) := by
  refine ⟨h.holds.unlink, ?_⟩
  intro key expires hK
  by_cases hkey : name = nameFor key
  · exact Or.inr (hname key expires hK hkey)
  · exact (h.marker key expires hK).imp_left fun hdurable => hdurable.change hkey

/-- A pending file is no marker. -/
theorem unlink_pending (h : Kept E K now s) (hname : isPendingName name.bytes = true) :
    Kept E K now (s.change (.unlink name)) := by
  apply h.unlink
  intro key expires _ hkey
  exact absurd hkey (nameFor_ne_pending hname key)

/-- A marker is removed when its text says that it is expired, and then it is. -/
theorem unlink_expired (h : Kept E K now s) (hK : ∀ k e, K k e → 0 ≤ e.toInt) {uid : Nat}
    {expiry : I64} (hread : readExpiryAt uid s name = .ok expiry)
    (hlt : expiry.toInt < now.toInt) : Kept E K now (s.change (.unlink name)) := by
  apply h.unlink
  rintro key expires hkey rfl
  rcases h.marker key expires hkey with hdurable | hpast
  · obtain ⟨ino, hlookup, hcontent⟩ := hdurable.lookup
    have hparse := parseExpiry_of_readExpiryAt hlookup hread
    rw [hcontent, parseExpiry_markerText (hK key expires hkey)] at hparse
    cases hparse
    exact hlt
  · exact hpast

theorem flush (h : Kept E K now s) (format : Format host E) : Kept E K now (s.flush ino) := by
  refine ⟨h.holds.setInode fun n hn => format.flush n _ (h.holds n ino hn).2, ?_⟩
  intro key expires hK
  exact (h.marker key expires hK).imp_left fun hdurable => hdurable.flush

theorem commit (h : Kept E K now s) : Kept E K now s.commit := by
  refine ⟨h.holds.commit, ?_⟩
  intro key expires hK
  exact (h.marker key expires hK).imp_left fun hdurable => hdurable.commit

theorem crash (h : Kept E K now s) (format : Format host E) (hc : s.Crash s') :
    Kept E K now s' := by
  refine ⟨h.holds.crash format.crash hc, ?_⟩
  intro key expires hK
  exact (h.marker key expires hK).imp_left fun hdurable => hdurable.crash hc

/-- Later readings and fewer markers. -/
theorem mono {K' : Markers} {now' : I64} (h : Kept E K now s) (hnow : now.toInt ≤ now'.toInt)
    (hK : ∀ k e, K' k e → K k e) : Kept E K' now' s := by
  refine ⟨h.holds, ?_⟩
  intro key expires hkey
  exact (h.marker key expires (hK key expires hkey)).imp_right fun hlt =>
    Int.lt_of_lt_of_le hlt hnow

end Kept

/-! ## The pending file -/

/-- A pending file while it is written: it has no other name, and nothing else of the directory
changed since `s₀`. -/
structure Writing (host : FsHost) (pending : FileName) (file : Nat) (content : Bytes)
    (synced : Bool) (s₀ s : Fs) : Prop where
  name : isPendingName pending.bytes = true
  dir : s.dir = s₀.dir
  lookup : s.dir.lookup pending = some file
  next : s.next = s₀.next
  allocated : file < s.next
  inode : s.inodes file = host.file 0o600 content synced
  only : ∀ n, s.Binds n file → n = pending
  others : ∀ ino, ino ≠ file → s.inodes ino = s₀.inodes ino

section Pending

variable {host : FsHost} {E : FileName → Inode → Prop} {K : Markers} {now : I64} {s₀ s : Fs}
  {pending : FileName} {file : Nat} {content data : Bytes} {synced : Bool}

theorem writing_create (hs : s.Holds E) (hname : isPendingName pending.bytes = true) :
    Writing host pending s.next [] false (s.create pending (host.file 0o600 [] false))
      (s.create pending (host.file 0o600 [] false)) where
  name := hname
  dir := rfl
  lookup := by rw [Fs.lookup_create, if_pos rfl]
  next := rfl
  allocated := Nat.lt_succ_self _
  inode := Function.update_self _ _ _
  only := by
    intro n hn
    rcases Fs.binds_change (s := s.setInode s.next _) hn with hold | hnew
    · exact absurd (hs n s.next hold).1 (Nat.lt_irrefl _)
    · cases hnew
      rfl
  others := fun _ _ => rfl

theorem Writing.append (hw : Writing host pending file content synced s₀ s) (data : Bytes) :
    Writing host pending file (content ++ data) false s₀ (s.append file data) where
  name := hw.name
  dir := hw.dir
  lookup := hw.lookup
  next := hw.next
  allocated := hw.allocated
  inode := by
    show Function.update s.inodes file ((s.inodes file).append data) file = _
    rw [Function.update_self, hw.inode]
    rfl
  only := hw.only
  others := by
    intro ino hino
    exact (Function.update_of_ne hino _ _).trans (hw.others ino hino)

theorem Writing.flush (hw : Writing host pending file content synced s₀ s) :
    Writing host pending file content true s₀ (s.flush file) where
  name := hw.name
  dir := hw.dir
  lookup := hw.lookup
  next := hw.next
  allocated := hw.allocated
  inode := by
    show Function.update s.inodes file (s.inodes file).flush file = _
    rw [Function.update_self, hw.inode]
    rfl
  only := hw.only
  others := by
    intro ino hino
    exact (Function.update_of_ne hino _ _).trans (hw.others ino hino)

/-- Writing to the pending file touches no marker. -/
theorem Kept.append (h : Kept E K now s) (format : Format host E)
    (hw : Writing host pending file content synced s₀ s)
    (hlen : (content ++ data).length ≤ 32) : Kept E K now (s.append file data) := by
  refine ⟨h.holds.setInode ?_, ?_⟩
  · intro n hn
    rw [hw.only n hn, hw.inode]
    exact format.pending pending (content ++ data) false hw.name hlen
  · intro key expires hK
    refine (h.marker key expires hK).imp_left fun hdurable => hdurable.setInode ?_
    intro hbinds
    exact nameFor_ne_pending hw.name key (hw.only _ hbinds).symm

variable {faults : Prop}

theorem safe_writeAll (format : Format host E) {pieces : List Bytes}
    {Q : Except DpopPortError Unit → Fs → Prop} (hs : Kept E K now s)
    (hw : Writing host pending file content false s₀ s)
    (hlen : (content ++ pieces.flatten).length ≤ 32)
    (hok : ∀ s', Kept E K now s' →
      Writing host pending file (content ++ pieces.flatten) false s₀ s' → Q (.ok ()) s')
    (herr : faults → ∀ s', Kept E K now s' → Q (.error .mk) s') :
    Safe (fsHandler host faults) (Kept E K now) Q (SecureDir.writeAll file pieces) s := by
  induction pieces generalizing s content with
  | nil =>
    refine ⟨hs, hok s hs ?_⟩
    simpa using hw
  | cons piece pieces ih =>
    -- a part of the piece is as long as the whole at most
    have hpart : ∀ count, (content ++ piece.take count).length ≤ 32 := by
      intro count
      simp only [List.flatten_cons, List.length_append, List.length_take] at hlen ⊢
      omega
    have hwhole : (content ++ piece).length ≤ 32 := by
      simp only [List.flatten_cons, List.length_append] at hlen ⊢
      omega
    apply Safe.propagate
    apply safe_write hs
    · intro count
      exact hs.append format hw (hpart count)
    · rw [List.flatten_cons, ← List.append_assoc] at hlen hok
      exact ih (hs.append format hw hwhole) (hw.append piece) hlen hok
    · intro hfaults e
      refine ⟨herr hfaults s hs, ?_⟩
      intro count
      exact herr hfaults _ (hs.append format hw (hpart count))

/-! ## Publication -/

/-- The directory after a marker was published, compared with the one in which its pending file
was created. -/
structure Published (host : FsHost) (pending : FileName) (file : Nat) (key : ReplayKey)
    (expires : I64) (s₀ s : Fs) : Prop where
  durable : s.Durable (nameFor key) (markerText expires)
  free : s₀.dir.lookup (nameFor key) = none
  lookup : ∀ n, s.dir.lookup n =
    if n = pending then none else if n = nameFor key then some file else s₀.dir.lookup n
  inode : s.inodes file = host.file 0o600 (markerText expires) true
  others : ∀ ino, ino ≠ file → s.inodes ino = s₀.inodes ino

variable {key : ReplayKey} {expires : I64}

/-- The marker of a complete pending file is on disk once the directory is flushed. -/
theorem durable_of_link (hw : Writing host pending file (markerText expires) true s₀ s) :
    (s.change (.link (nameFor key) file)).commit.Durable (nameFor key) (markerText expires) := by
  refine Fs.durable_commit ?_ (hw.allocated : file < s.next) ?_ ?_
  · rw [Fs.lookup_link, if_pos rfl]
  · show (s.inodes file).content = _
    rw [hw.inode]
    rfl
  · show (s.inodes file).synced = _
    rw [hw.inode]
    rfl

theorem published_of_link (hw : Writing host pending file (markerText expires) true s₀ s)
    (hfree : s.dir.lookup (nameFor key) = none) :
    Published host pending file key expires s₀
      ((s.change (.link (nameFor key) file)).commit.change (.unlink pending)).commit where
  durable :=
    ((durable_of_link hw).change (c := .unlink pending) (nameFor_ne_pending hw.name key)).commit
  free := hw.dir ▸ hfree
  lookup := by
    intro n
    rw [Fs.dir_commit, Fs.lookup_unlink, Fs.dir_commit, Fs.lookup_link, hw.dir]
  inode := hw.inode
  others := hw.others

/-- The section that publishes a marker. Without faults it fails only on a name that is bound. -/
theorem safe_initializeMarker (format : Format host E)
    {Q : Except DpopPortError Unit → Fs → Prop} (hexpires : 0 ≤ expires.toInt)
    (hs : Kept E K now s) (hw : Writing host pending file [] false s₀ s)
    (hok : ∀ s', Kept E K now s' → (∀ e, K key e → e.toInt < now.toInt) →
      Published host pending file key expires s₀ s' → Q (.ok ()) s')
    (herr : faults ∨ s₀.dir.lookup (nameFor key) ≠ none → ∀ s', Kept E K now s' →
      Q (.error .mk) s') :
    Safe (fsHandler host faults) (Kept E K now) Q
      (SecureDir.initializeMarker file pending (nameFor key) expires) s := by
  have htext := flatten_writelnPieces expires
  have hlen : ([] ++ (writelnPieces expires.toInt).flatten : Bytes).length ≤ 32 := by
    rw [List.nil_append, htext]
    exact (length_markerText hexpires).2.trans (by norm_num)
  apply Safe.propagate
  refine safe_writeAll format hs hw hlen ?_ fun hfaults s' hs' => herr (Or.inl hfaults) s' hs'
  intro s₁ hs₁ hw₁
  rw [List.nil_append, htext] at hw₁
  apply Safe.propagate
  refine safe_syncFile hs₁ ⟨hs₁.flush format, ?_⟩ ?_
  rotate_left
  · intro hfaults e
    exact ⟨herr (Or.inl hfaults) _ hs₁, herr (Or.inl hfaults) _ (hs₁.flush format)⟩
  have hs₂ : Kept E K now (s₁.flush file) := hs₁.flush format
  have hw₂ := hw₁.flush
  apply Safe.propagate
  refine safe_hardLink hs₂ ?_ ?_ fun hfaults e => herr (Or.inl hfaults) _ hs₂
  · intro ino hino hfree
    -- the pending name is bound to the file that was written
    rw [hw₂.lookup] at hino
    cases hino
    have hentry : E (nameFor key) ((s₁.flush file).inodes file) := by
      rw [hw₂.inode]
      exact format.marker key expires hexpires
    have hs₃ := hs₂.link hfree hw₂.allocated hentry
    have hexpired : ∀ e, K key e → e.toInt < now.toInt := fun e he => hs₂.expired_of_free he hfree
    refine ⟨hs₃, ?_, fun hfaults e => herr (Or.inl hfaults) _ hs₃⟩
    apply Safe.propagate
    refine safe_syncAll hs₃ ⟨hs₃.commit, ?_⟩ fun hfaults e =>
      ⟨herr (Or.inl hfaults) _ hs₃, herr (Or.inl hfaults) _ hs₃.commit⟩
    have hs₄ := hs₃.commit
    have hpending : ((s₁.flush file).change (.link (nameFor key) file)).commit.dir.lookup pending
        ≠ none := by
      rw [Fs.dir_commit, Fs.lookup_link, if_neg (nameFor_ne_pending hw.name key), hw₂.lookup]
      simp
    apply Safe.propagate
    refine safe_removeFile hs₄ ?_ (fun hnone => absurd hnone hpending) fun hfaults e =>
      herr (Or.inl hfaults) _ hs₄
    intro _
    have hs₅ := hs₄.unlink_pending hw.name
    refine ⟨hs₅, ?_, fun hfaults e => herr (Or.inl hfaults) _ hs₅⟩
    apply Safe.propagate
    refine safe_syncAll hs₅ ⟨hs₅.commit, ?_⟩ fun hfaults e =>
      ⟨herr (Or.inl hfaults) _ hs₅, herr (Or.inl hfaults) _ hs₅.commit⟩
    exact ⟨hs₅.commit, hok _ hs₅.commit hexpired (published_of_link hw₂ hfree)⟩
  · intro hbound e
    refine herr (Or.inr ?_) _ hs₂
    rcases hbound with hnone | hbound
    · rw [hw₂.lookup] at hnone
      cases hnone
    · rwa [hw₂.dir] at hbound

end Pending

/-! ## A section -/

section Record

variable {host : FsHost} {E : FileName → Inode → Prop} {K : Markers} {now : I64} {s : Fs}
  {faults : Prop} {directory : SecureDir} {key : ReplayKey} {expires : I64}

/-- A sweep removes expired markers only. -/
theorem safe_sweep (hK : ∀ k e, K k e → 0 ≤ e.toInt) (names : List FileName) (active : Nat)
    (hs : Kept E K now s) :
    Safe (fsHandler host faults) (Kept E K now) (fun _ => Kept E K now)
      (directory.sweep now active names) s := by
  induction names generalizing active s with
  | nil => exact ⟨hs, hs⟩
  | cons name names ih =>
    simp only [SecureDir.sweep]
    split
    -- a pending file is left for the next start
    · exact ih active hs
    split
    · apply Safe.propagate
      exact safe_validateInstanceLock hs (ih active hs) fun _ => hs
    split
    · apply Safe.propagate
      refine safe_readExpiry hs ?_ fun _ => hs
      cases hread : readExpiryAt directory.ownerUid s name with
      | error e => exact hs
      | ok expiry =>
        show Safe _ _ _ (if expiry.toInt < now.toInt then _ else _) s
        split
        -- an expired marker may go, whether its removal succeeds or fails halfway
        · next hlt =>
          have hremoved := hs.unlink_expired hK hread hlt
          apply Safe.propagate
          exact safe_removeFile hs (fun _ => ⟨hremoved, ih active hremoved, fun _ _ => hremoved⟩)
            (fun _ => hs) fun _ _ => hs
        · exact ih (active + 1) hs
    -- a file of any other name stops the sweep with an error
    · exact ⟨hs, hs⟩

theorem safe_cleanupAndCount (hK : ∀ k e, K k e → 0 ≤ e.toInt) (hs : Kept E K now s) :
    Safe (fsHandler host faults) (Kept E K now) (fun _ => Kept E K now)
      (directory.cleanupAndCount now) s := by
  apply Safe.propagate
  refine safe_listNames hs ?_ fun _ _ => hs
  intro names _
  exact safe_sweep hK names 0 hs

/-- What the answer of a section says. -/
def Answered (K : Markers) (now : I64) (key : ReplayKey) (expires : I64)
    (r : Except DpopPortError ReplayStatus) (s : Fs) : Prop :=
  r = .ok .fresh →
    s.Durable (nameFor key) (markerText expires) ∧ ∀ e, K key e → e.toInt < now.toInt

theorem answered_error {e : DpopPortError} : Answered K now key expires (.error e) s := by
  intro h
  cases h

theorem answered_replay : Answered K now key expires (.ok .replay) s := by
  intro h
  cases h

/-- The postcondition of the parts of a section. -/
abbrev KeepsAnswer (host : FsHost) (faults : Prop) (E : FileName → Inode → Prop) (K : Markers)
    (now : I64) (key : ReplayKey) (expires : I64)
    (p : Prog fileOps (Except DpopPortError ReplayStatus)) (s : Fs) : Prop :=
  Safe (fsHandler host faults) (Kept E K now) (Answered K now key expires) p s

variable {next : Prog fileOps (Except DpopPortError ReplayStatus)} {pending : FileName}
  {attempt : Nat}

theorem safe_continueIf
    (hnext : ∀ s, Kept E K now s → KeepsAnswer host faults E K now key expires next s)
    (again : Bool) (hs : Kept E K now s) :
    KeepsAnswer host faults E K now key expires (SecureDir.continueIf again next) s := by
  unfold SecureDir.continueIf
  split
  · exact hnext s hs
  · exact ⟨hs, answered_error⟩

/-- Whatever the operations of the clean-up answer, they remove a pending file only. -/
theorem safe_abandon
    (hnext : ∀ s, Kept E K now s → KeepsAnswer host faults E K now key expires next s)
    (hpending : isPendingName pending.bytes = true) (hs : Kept E K now s) :
    KeepsAnswer host faults E K now key expires
      (SecureDir.abandon pending (nameFor key) attempt next) s := by
  have hsync : ∀ (again : Bool) (s : Fs), Kept E K now s →
      KeepsAnswer host faults E K now key expires
        (fileOp .syncAll >>= fun _ => SecureDir.continueIf again next) s := by
    intro again s hs
    apply Safe.of_bind
    exact safe_syncAll hs ⟨hs.commit, safe_continueIf hnext again hs.commit⟩ fun _ _ =>
      ⟨safe_continueIf hnext again hs, safe_continueIf hnext again hs.commit⟩
  have hremove : ∀ again : Bool, KeepsAnswer host faults E K now key expires
      (fileOp (.removeFile pending) >>= fun _ => fileOp .syncAll >>= fun _ =>
        SecureDir.continueIf again next) s := by
    intro again
    have hremoved := hs.unlink_pending hpending
    apply Safe.of_bind
    exact safe_removeFile hs
      (fun _ => ⟨hremoved, hsync again _ hremoved, fun _ _ => hsync again _ hremoved⟩)
      (fun _ => hsync again s hs) fun _ _ => hsync again s hs
  apply Safe.of_bind
  exact safe_metadata hs (hremove _) fun _ _ => hremove _

theorem safe_publish (format : Format host E) (hexpires : 0 ≤ expires.toInt)
    (hnext : ∀ s, Kept E K now s → KeepsAnswer host faults E K now key expires next s)
    {file : Nat} {s₀ : Fs} (hs : Kept E K now s) (hw : Writing host pending file [] false s₀ s) :
    KeepsAnswer host faults E K now key expires
      (SecureDir.publish file pending (nameFor key) expires attempt next) s := by
  apply Safe.of_bind
  refine safe_initializeMarker format hexpires hs hw ?_ ?_
  · intro s' hs' hexpired hpublished
    exact ⟨hs', fun _ => ⟨hpublished.durable, hexpired⟩⟩
  · intro _ s' hs'
    exact safe_abandon hnext hw.name hs'

theorem safe_pendingName {Q : Except DpopPortError FileName → Fs → Prop} {I : Fs → Prop}
    (hI : I s) (hok : ∀ pending, isPendingName pending.bytes = true → Q (.ok pending) s)
    (herr : faults → Q (.error .mk) s) :
    Safe (fsHandler host faults) I Q SecureDir.pendingName s := by
  apply Safe.propagate
  refine safe_fill hI ?_ fun hfaults _ => herr hfaults
  intro random
  exact ⟨hI, hok _ (isPendingName_pendingNameOf random)⟩

theorem safe_claimName (format : Format host E) (hexpires : 0 ≤ expires.toInt)
    (hnext : ∀ s, Kept E K now s → KeepsAnswer host faults E K now key expires next s)
    (capacity active : Nat) (hs : Kept E K now s) :
    KeepsAnswer host faults E K now key expires
      (SecureDir.claimName capacity (nameFor key) expires attempt active next) s := by
  unfold SecureDir.claimName
  split
  · exact ⟨hs, answered_error⟩
  apply Safe.propagate
  refine safe_pendingName hs ?_ fun _ => answered_error
  intro pending hpending
  apply Safe.of_bind
  refine safe_newFile hs ?_ (fun _ => safe_continueIf hnext _ hs) fun _ e =>
    safe_continueIf hnext _ hs
  intro hfree
  have hcreated := hs.create hfree (format.pending pending [] false hpending (by simp))
  refine ⟨hcreated, ?_, fun _ e => safe_continueIf hnext _ hcreated⟩
  exact safe_publish format hexpires hnext hcreated (writing_create hs.holds hpending)

variable {claim : Prog fileOps (Except DpopPortError ReplayStatus)}

theorem safe_ifAbsent (hclaim : KeepsAnswer host faults E K now key expires claim s)
    {name : FileName} (hs : Kept E K now s) :
    KeepsAnswer host faults E K now key expires (SecureDir.ifAbsent name claim) s := by
  have herror : ∀ e : IoError, KeepsAnswer host faults E K now key expires
      (if e = .notFound then claim else pure (.error .mk)) s := by
    intro e
    split
    · exact hclaim
    · exact ⟨hs, answered_error⟩
  apply Safe.of_bind
  apply safe_metadata hs
  · cases s.metadata name with
    | ok stat => exact ⟨hs, answered_error⟩
    | error e => exact herror e
  · intro _ e
    exact herror e

/-- The marker of the key is removed when it is expired. -/
theorem safe_checkName (hK : ∀ k e, K k e → 0 ≤ e.toInt)
    (hclaim : ∀ s, Kept E K now s → KeepsAnswer host faults E K now key expires claim s)
    {name : FileName} (hs : Kept E K now s) :
    KeepsAnswer host faults E K now key expires (directory.checkName now name claim) s := by
  apply Safe.of_bind
  refine safe_readExpiry hs ?_ fun _ => safe_ifAbsent (hclaim s hs) hs
  cases hread : readExpiryAt directory.ownerUid s name with
  | error e => exact safe_ifAbsent (hclaim s hs) hs
  | ok expiry =>
    show KeepsAnswer host faults E K now key expires (if now.toInt ≤ expiry.toInt then _ else _) s
    split
    · exact ⟨hs, answered_replay⟩
    · next hlt =>
      have hremoved := hs.unlink_expired hK hread (by omega)
      apply Safe.propagate
      exact safe_removeFile hs (fun _ => ⟨hremoved, hclaim _ hremoved, fun _ _ => answered_error⟩)
        (fun _ => answered_error) fun _ _ => answered_error

theorem safe_attempts (format : Format host E) (hK : ∀ k e, K k e → 0 ≤ e.toInt)
    (hexpires : 0 ≤ expires.toInt) (capacity : Nat) (list : List Nat) (hs : Kept E K now s) :
    KeepsAnswer host faults E K now key expires
      (directory.attempts capacity now (nameFor key) expires list) s := by
  induction list generalizing s with
  | nil => exact ⟨hs, answered_error⟩
  | cons attempt rest ih =>
    apply Safe.propagate
    refine (safe_cleanupAndCount hK hs).mono (fun _ h => h) ?_
    intro r s hs _
    cases r with
    | error e => exact answered_error
    | ok active =>
      refine safe_checkName hK ?_ hs
      intro s hs
      exact safe_claimName format hexpires (fun s hs => ih hs) capacity active hs

/-- **Every state of a section keeps the markers, and the answer `fresh` publishes a new one.** -/
theorem safe_recordMarker (format : Format host E) (hK : ∀ k e, K k e → 0 ≤ e.toInt)
    (hexpires : 0 ≤ expires.toInt) (capacity : Nat) (hs : Kept E K now s) :
    Safe (fsHandler host faults) (Kept E K now) (Answered K now key expires)
      (directory.recordMarker capacity now key expires) s := by
  unfold SecureDir.recordMarker
  split
  · exact ⟨hs, answered_error⟩
  · exact safe_attempts format hK hexpires capacity [0, 1] hs

end Record

/-! ## Opening the store -/

section Opening

variable {host : FsHost} {E : FileName → Inode → Prop} {K : Markers} {now : I64} {s : Fs}
  {faults : Prop} {directory : SecureDir}

/-- The postcondition of the parts of `FileReplayStore.new`. -/
abbrev Keeps (host : FsHost) (faults : Prop) (E : FileName → Inode → Prop) (K : Markers) (now : I64)
    {α : Type} (p : Prog fileOps α) (s : Fs) : Prop :=
  Safe (fsHandler host faults) (Kept E K now) (fun _ => Kept E K now) p s

theorem keeps_lockFile (file : Nat) (hs : Kept E K now s) :
    Keeps host faults E K now (directory.lockFile file) s :=
  safe_lockFile hs (fun _ => hs) fun _ => hs

theorem keeps_reopenLock (hs : Kept E K now s) :
    Keeps host faults E K now directory.reopenLock s := by
  apply Safe.propagate
  refine safe_validateInstanceLock hs ?_ fun _ => hs
  apply Safe.propagate
  refine safe_openFile hs ?_ fun _ _ => hs
  cases s.find instanceLockName with
  | error e => exact hs
  | ok file => exact keeps_lockFile file hs

theorem keeps_acquireInstanceLock (format : Format host E) (hs : Kept E K now s) :
    Keeps host faults E K now directory.acquireInstanceLock s := by
  have hfailed : ∀ (e : IoError) (s : Fs), Kept E K now s → Keeps host faults E K now
      (if e = .alreadyExists then directory.reopenLock else pure (.error .mk)) s := by
    intro e s hs
    split
    · exact keeps_reopenLock hs
    · exact ⟨hs, hs⟩
  apply Safe.of_bind
  refine safe_newFile hs ?_ (fun _ => hfailed _ s hs) fun _ e => hfailed e s hs
  intro hfree
  have hcreated := hs.create hfree format.lock
  exact ⟨hcreated, keeps_lockFile s.next hcreated, fun _ e => hfailed e _ hcreated⟩

/-- Only files with a pending name are removed. -/
theorem keeps_scavenge (names : List FileName) (removedAny : Bool) (hs : Kept E K now s) :
    Keeps host faults E K now (directory.scavenge removedAny names) s := by
  induction names generalizing removedAny s with
  | nil => exact ⟨hs, hs⟩
  | cons name names ih =>
    simp only [SecureDir.scavenge]
    split
    · split
      · next hpending =>
        have hremoved := hs.unlink_pending hpending
        apply Safe.propagate
        apply Safe.propagate
        refine safe_metadata hs ?_ fun _ _ => hs
        cases s.metadata name with
        | error e => exact hs
        | ok stat =>
          simp only
          split
          · apply Safe.propagate
            exact safe_removeFile hs
              (fun _ => ⟨hremoved, ⟨hremoved, ih true hremoved⟩, fun _ _ => hremoved⟩)
              (fun _ => hs) fun _ _ => hs
          · exact ⟨hs, hs⟩
      · exact ih removedAny hs
    · exact ⟨hs, hs⟩

theorem keeps_cleanupStartupPending (hs : Kept E K now s) :
    Keeps host faults E K now directory.cleanupStartupPending s := by
  apply Safe.propagate
  refine safe_listNames hs ?_ fun _ _ => hs
  intro names _
  apply Safe.propagate
  refine (keeps_scavenge names false hs).mono (fun _ h => h) ?_
  intro r s hs _
  cases r with
  | error e => exact hs
  | ok removedAny =>
    simp only
    split
    · apply Safe.propagate
      exact safe_syncAll hs ⟨hs.commit, ⟨hs.commit, hs.commit⟩⟩ fun _ _ => ⟨hs, hs.commit⟩
    · exact ⟨hs, hs⟩

/-- **Opening the store keeps the markers.** -/
theorem keeps_new (format : Format host E) {T : Signature} (clock : Clock (fileOps.sum T))
    (operationLock : OperationLock (fileOps.sum T)) (path : Path) (uid capacity : Nat)
    (hs : Kept E K now s) :
    Safe (fsHandler host faults) (Kept E K now)
      (fun r _ => ∀ store, r = .ok store →
        store.clock = clock ∧ store.operationLock = operationLock)
      (FileReplayStore.new clock operationLock path uid capacity) s := by
  -- a failed start returns no store
  have herror : ∀ (e : DpopPortError) (store : FileReplayStore T), .error e = Except.ok store →
      store.clock = clock ∧ store.operationLock = operationLock := by
    intro e store h
    cases h
  unfold FileReplayStore.new
  split
  · exact ⟨hs, herror _⟩
  apply Safe.propagate
  refine safe_openServiceOwned hs (fun _ => ?_) fun _ _ => herror _
  apply Safe.propagate
  refine (keeps_acquireInstanceLock format hs).mono (fun _ h => h) ?_
  intro r s hs _
  cases r with
  | error e => exact herror _
  | ok file =>
    apply Safe.propagate
    refine (keeps_cleanupStartupPending hs).mono (fun _ h => h) ?_
    intro r s hs _
    cases r with
    | error e => exact herror _
    | ok u =>
      refine ⟨hs, ?_⟩
      intro store h
      cases h
      exact ⟨rfl, rfl⟩

end Opening

end Keylix.Verifier

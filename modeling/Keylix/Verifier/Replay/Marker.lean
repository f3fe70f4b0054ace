import Keylix.Verifier.Replay

/-!
# Markers on disk

The names and texts of the replay directory: markers, pending files and the lock have different
names, a name determines its key, and the text of a marker reads back as its expiry.

`EntryOk` is what a well-formed directory may contain. `Format` is what a property of entries needs
so that every step of the publish protocol and every crash keeps it; `EntryOk` has it.
-/

set_option autoImplicit false

namespace Keylix.Verifier

open Keylix.Lib Keylix.Dpop
open Keylix.Lib.Prog (Safe)

/-! ## Names -/

theorem nameFor_injective : Function.Injective nameFor := by
  intro a b h
  have hbytes : a.bytes = b.bytes := Subtype.ext (hexText_injective (congrArg FileName.bytes h))
  cases a
  cases b
  cases hbytes
  rfl

theorem isMarkerName_nameFor (key : ReplayKey) : isMarkerName (nameFor key).bytes = true := by
  have hlen : (nameFor key).bytes.length = 64 := by
    rw [nameFor, length_hexText, key.bytes.2]
  have hall : (nameFor key).bytes.all isLowerHex = true :=
    List.all_eq_true.2 fun c hc => isLowerHex_of_mem_hexText hc
  simp [isMarkerName, hlen, hall]

theorem isPendingName_pendingNameOf (random : ByteArr pendingRandomBytes) :
    isPendingName (pendingNameOf random).bytes = true := by
  have hdrop : (pendingNameOf random).bytes.dropPrefix? pendingPrefix = some (hexText random.1) :=
    List.dropPrefix?_append_of_beq _ (beq_self_eq_true _)
  have hall : (hexText random.1).all isLowerHex = true :=
    List.all_eq_true.2 fun c hc => isLowerHex_of_mem_hexText hc
  have hlen : (hexText random.1).length = pendingRandomBytes * 2 := by
    rw [length_hexText, random.2, Nat.mul_comm]
  simp [isPendingName, hdrop, hall, hlen]

/-- A pending name starts with a dot. -/
theorem head?_of_isPendingName {b : Bytes} (h : isPendingName b = true) :
    b.head? = some (byte '.') := by
  unfold isPendingName at h
  split at h
  · cases h
  · next suffix hdrop =>
    obtain ⟨start, hb, hstart⟩ := List.dropPrefix?_eq_some_iff.1 hdrop
    rw [hb, show start = pendingPrefix by simpa using hstart]
    rfl

theorem not_isPendingName_nameFor (key : ReplayKey) :
    isPendingName (nameFor key).bytes = false := by
  rw [Bool.eq_false_iff]
  intro h
  have hhead := head?_of_isPendingName h
  have hex := isLowerHex_of_mem_hexText (List.mem_of_head? hhead)
  exact absurd hex (by decide)

theorem nameFor_ne_lock (key : ReplayKey) : nameFor key ≠ instanceLockName := by
  intro h
  have hlen := congrArg (fun n => n.bytes.length) h
  simp only [nameFor, length_hexText, key.bytes.2] at hlen
  exact absurd hlen (by decide)

theorem nameFor_ne_pending {name : FileName} (h : isPendingName name.bytes = true)
    (key : ReplayKey) : name ≠ nameFor key := by
  rintro rfl
  rw [not_isPendingName_nameFor] at h
  cases h

theorem not_isPendingName_lock : isPendingName instanceLockName.bytes = false := by
  decide

/-! ## Texts -/

/-- The text of a marker. -/
def markerText (expires : I64) : Bytes := decimalInt expires.toInt ++ [byte '\n']

theorem flatten_writelnPieces (expires : I64) :
    (writelnPieces expires.toInt).flatten = markerText expires := by
  unfold writelnPieces markerText decimalInt
  split
  · simp
  · simp

section Text

variable {expires : I64}

theorem markerText_of_nonneg (h : 0 ≤ expires.toInt) :
    markerText expires = decimal expires.toInt.natAbs ++ [byte '\n'] := by
  rw [markerText, decimalInt, if_neg (by omega)]

theorem isAscii_markerText (h : 0 ≤ expires.toInt) : isAscii (markerText expires) = true := by
  have hdigit : ∀ b : UInt8, isAsciiDigit b = true → b < 0x80 := by decide +kernel
  rw [markerText_of_nonneg h]
  simp only [isAscii, List.all_append, Bool.and_eq_true, List.all_eq_true, decide_eq_true_eq,
    List.mem_singleton]
  refine ⟨?_, ?_⟩
  · intro b hb
    exact hdigit b (isAsciiDigit_of_mem_decimal hb)
  · rintro b rfl
    decide

/-- The text of a marker reads back. -/
theorem parseExpiry_markerText (h : 0 ≤ expires.toInt) :
    parseExpiry (markerText expires) = .ok expires := by
  have hne : (decimal expires.toInt.natAbs).isEmpty = false := by simp [numeral_ne_nil]
  have hdigits : (decimal expires.toInt.natAbs).all isAsciiDigit = true :=
    List.all_eq_true.2 fun c hc => isAsciiDigit_of_mem_decimal hc
  have hvalue : (parseNumeral 10 (decimal expires.toInt.natAbs)).bind
      (fun n => I64.ofInt? n) = some expires := by
    rw [parseNumeral_numeral (by norm_num) (by norm_num), Option.bind_some,
      Int.natAbs_of_nonneg h, I64.ofInt?_toInt]
  unfold parseExpiry
  rw [if_pos (isUtf8_of_isAscii (isAscii_markerText h)), markerText_of_nonneg h]
  simp only [List.getLast?_append, List.getLast?_singleton, Option.some_or, if_true,
    List.dropLast_concat, hne, hdigits, hvalue, Bool.not_true, Bool.or_self, Bool.false_eq_true,
    if_false]

theorem length_decimal_le (h : 0 ≤ expires.toInt) :
    (decimal expires.toInt.natAbs).length ≤ 19 := by
  have hupper := expires.upper
  exact length_numeral_le (by norm_num) (by norm_num) (by omega)

theorem length_markerText (h : 0 ≤ expires.toInt) :
    0 < (markerText expires).length ∧ (markerText expires).length ≤ 20 := by
  have hlen := length_decimal_le h
  rw [markerText_of_nonneg h, List.length_append]
  simp only [List.length_singleton]
  omega

end Text

/-! ## Entries -/

/-- The entries of a replay directory. -/
inductive EntryOk (uid : Nat) : FileName → Inode → Prop where
  /-- The empty lock file. -/
  | lock {i : Inode} (howned : ownedFile uid i.stat = true) (hcontent : i.content = []) :
      EntryOk uid instanceLockName i
  /-- A pending file, which may be cut anywhere. -/
  | pending {name : FileName} {i : Inode} (hname : isPendingName name.bytes = true)
      (howned : ownedFile uid i.stat = true) (hlen : i.content.length ≤ 32) : EntryOk uid name i
  /-- A marker with its complete text, which is on disk. -/
  | marker {i : Inode} (key : ReplayKey) (expires : I64) (hexpires : 0 ≤ expires.toInt)
      (howned : ownedFile uid i.stat = true) (hcontent : i.content = markerText expires)
      (hsynced : i.synced = true) : EntryOk uid (nameFor key) i

/-- What is under the name of the lock. -/
theorem EntryOk.of_lock {uid : Nat} {i : Inode} (h : EntryOk uid instanceLockName i) :
    validLock uid i.stat = true := by
  generalize hname : instanceLockName = name at h
  cases h with
  | lock howned hcontent =>
    have hsize : i.stat.size = 0 := by
      show i.content.length = 0
      rw [hcontent]
      rfl
    simp [validLock, howned, hsize]
  | pending hpending howned hlen =>
    rw [← hname, not_isPendingName_lock] at hpending
    cases hpending
  | marker key expires => exact absurd hname.symm (nameFor_ne_lock key)

/-- What is under a pending name. -/
theorem EntryOk.of_pending {uid : Nat} {name : FileName} {i : Inode} (h : EntryOk uid name i)
    (hpending : isPendingName name.bytes = true) : validPending uid i.stat = true := by
  cases h with
  | lock howned hcontent =>
    rw [not_isPendingName_lock] at hpending
    cases hpending
  | pending hname howned hlen =>
    have hsize : i.stat.size ≤ 32 := hlen
    simp [validPending, howned, hsize]
  | marker key expires =>
    rw [not_isPendingName_nameFor] at hpending
    cases hpending

/-- What is under the name of a marker. -/
theorem EntryOk.of_nameFor {uid : Nat} {key : ReplayKey} {i : Inode}
    (h : EntryOk uid (nameFor key) i) :
    ∃ expires : I64, 0 ≤ expires.toInt ∧ ownedFile uid i.stat = true ∧
      i.content = markerText expires := by
  generalize hname : nameFor key = name at h
  cases h with
  | lock howned hcontent => exact absurd hname (nameFor_ne_lock key)
  | pending hpending howned hlen => exact absurd hname.symm (nameFor_ne_pending hpending key)
  | marker key' expires hexpires howned hcontent hsynced =>
    exact ⟨expires, hexpires, howned, hcontent⟩

theorem isAscii_of_isLowerHex {b : Bytes} (h : ∀ c ∈ b, isLowerHex c = true) :
    isAscii b = true := by
  have hhex : ∀ c : UInt8, isLowerHex c = true → c < 0x80 := by decide +kernel
  simp only [isAscii, List.all_eq_true, decide_eq_true_eq]
  intro c hc
  exact hhex c (h c hc)

/-- Every name of the directory is a text. -/
theorem EntryOk.isUtf8 {uid : Nat} {name : FileName} {i : Inode} (h : EntryOk uid name i) :
    IsUtf8 name.bytes := by
  cases h with
  | lock howned hcontent => exact isUtf8_of_isAscii (by decide)
  | marker key expires =>
    exact isUtf8_of_isAscii (isAscii_of_isLowerHex fun c hc => isLowerHex_of_mem_hexText hc)
  | pending hpending howned hlen =>
    unfold isPendingName at hpending
    split at hpending
    · cases hpending
    · next suffix hdrop =>
      obtain ⟨start, hb, hstart⟩ := List.dropPrefix?_eq_some_iff.1 hdrop
      rw [Bool.and_eq_true, List.all_eq_true] at hpending
      rw [hb, show start = pendingPrefix by simpa using hstart]
      exact (isUtf8_of_isAscii (by decide)).append
        (isUtf8_of_isAscii (isAscii_of_isLowerHex hpending.2))

/-- What the publish protocol needs of a property of entries to keep it. -/
structure Format (host : FsHost) (E : FileName → Inode → Prop) : Prop where
  flush : ∀ n i, E n i → E n i.flush
  crash : ∀ n i i', E n i → i.Crash i' → E n i'
  lock : E instanceLockName (host.file 0o600 [] false)
  pending : ∀ (n : FileName) (content : Bytes) (synced : Bool), isPendingName n.bytes = true →
    content.length ≤ 32 → E n (host.file 0o600 content synced)
  marker : ∀ (key : ReplayKey) (expires : I64), 0 ≤ expires.toInt →
    E (nameFor key) (host.file 0o600 (markerText expires) true)

theorem format_true (host : FsHost) : Format host fun _ _ => True := by
  refine ⟨?_, ?_, ?_, ?_, ?_⟩ <;> simp

/-- The mask takes bits away: what the process creates with mode `0o600` is private. -/
theorem ownedFile_file (host : FsHost) (content : Bytes) (synced : Bool) :
    ownedFile host.uid (host.file 0o600 content synced).stat = true := by
  have hmode : Nat.ldiff 0o600 host.umask &&& 0o077 = 0 := by
    apply Nat.eq_of_testBit_eq
    intro n
    have hbits : ((0o600 : Nat) &&& 0o077).testBit n = false := by
      rw [show (0o600 : Nat) &&& 0o077 = 0 from rfl, Nat.zero_testBit]
    rw [Nat.testBit_land] at hbits
    rw [Nat.testBit_land, Nat.testBit_ldiff, Nat.zero_testBit]
    cases ha : Nat.testBit 0o600 n with
    | false => rfl
    | true =>
      rw [ha, Bool.true_and] at hbits
      rw [hbits, Bool.and_false]
  simp [ownedFile, FsHost.file, Inode.stat, hmode]

theorem ownedFile_stat_of_crash {uid : Nat} {i i' : Inode} (h : i.Crash i') :
    ownedFile uid i'.stat = ownedFile uid i.stat := by
  rcases h with rfl | ⟨-, content, -, rfl⟩
  · rfl
  · rfl

theorem length_content_of_crash {i i' : Inode} (h : i.Crash i') :
    i'.content.length ≤ i.content.length := by
  rcases h with rfl | ⟨-, content, hlen, rfl⟩
  · exact Nat.le_refl _
  · exact hlen

theorem format_entryOk (host : FsHost) : Format host (EntryOk host.uid) where
  flush := by
    intro n i h
    cases h with
    | lock howned hcontent => exact .lock howned hcontent
    | pending hname howned hlen => exact .pending hname howned hlen
    | marker key expires hexpires howned hcontent hsynced =>
      exact .marker key expires hexpires howned hcontent rfl
  crash := by
    intro n i i' h hc
    have howned' : ownedFile host.uid i'.stat = ownedFile host.uid i.stat :=
      ownedFile_stat_of_crash hc
    have hlen' := length_content_of_crash hc
    cases h with
    | lock howned hcontent =>
      rw [hcontent] at hlen'
      exact .lock (howned'.trans howned) (List.length_eq_zero_iff.1 (Nat.le_zero.1 hlen'))
    | pending hname howned hlen => exact .pending hname (howned'.trans howned) (hlen'.trans hlen)
    | marker key expires hexpires howned hcontent hsynced =>
      -- a synced file is as it was
      rcases hc with rfl | ⟨hnot, -⟩
      · exact .marker key expires hexpires howned hcontent hsynced
      · rw [hsynced] at hnot
        cases hnot
  lock := .lock (ownedFile_file host [] false) rfl
  pending := fun _ content synced hname hlen =>
    .pending hname (ownedFile_file host content synced) hlen
  marker := fun key expires hexpires =>
    .marker key expires hexpires (ownedFile_file host _ true) rfl rfl

/-! ## Reading a marker -/

/-- What `SecureDir.readExpiry` finds under a name. -/
def readExpiryAt (uid : Nat) (s : Fs) (name : FileName) : Except DpopPortError I64 :=
  match s.dir.lookup name with
  | none => .error .mk
  | some ino =>
      if validMarker uid (s.inodes ino).stat then parseExpiry (s.inodes ino).content
      else .error .mk

theorem readExpiryAt_of_lookup {uid : Nat} {s : Fs} {name : FileName} {ino : Nat} {expires : I64}
    (hname : s.dir.lookup name = some ino) (howned : ownedFile uid (s.inodes ino).stat = true)
    (hcontent : (s.inodes ino).content = markerText expires) (h : 0 ≤ expires.toInt) :
    readExpiryAt uid s name = .ok expires := by
  have hlen := length_markerText h
  have hvalid : validMarker uid (s.inodes ino).stat = true := by
    have hsize : (s.inodes ino).stat.size = (markerText expires).length := by
      rw [← hcontent]
      rfl
    simp only [validMarker, howned, hsize, Bool.true_and, Bool.and_eq_true, decide_eq_true_eq]
    omega
  simp only [readExpiryAt, hname, hvalid, if_true, hcontent]
  exact parseExpiry_markerText h

/-- A value that was read is the content's. -/
theorem parseExpiry_of_readExpiryAt {uid : Nat} {s : Fs} {name : FileName} {ino : Nat}
    {expires : I64} (hname : s.dir.lookup name = some ino)
    (h : readExpiryAt uid s name = .ok expires) :
    parseExpiry (s.inodes ino).content = .ok expires := by
  simp only [readExpiryAt, hname] at h
  split at h
  · exact h
  · cases h

section Rules

variable {host : FsHost} {faults : Prop} {I : Fs → Prop} {s : Fs} {directory : SecureDir}

theorem safe_readExpiry {name : FileName} {Q : Except DpopPortError I64 → Fs → Prop} (hI : I s)
    (hok : Q (readExpiryAt directory.ownerUid s name) s) (herr : faults → Q (.error .mk) s) :
    Safe (fsHandler host faults) I Q (directory.readExpiry name) s := by
  unfold readExpiryAt at hok
  apply Safe.propagate
  apply safe_metadata hI _ fun hfaults e => herr hfaults
  unfold Fs.metadata Fs.find
  cases hname : s.dir.lookup name with
  | none =>
    rw [hname] at hok
    exact hok
  | some ino =>
    simp only [hname] at hok
    show Safe (fsHandler host faults) I Q
      (if validMarker directory.ownerUid (s.inodes ino).stat then _
      else _) s
    split
    · next hvalid =>
      rw [if_pos hvalid] at hok
      apply Safe.propagate
      apply safe_openFile hI _ fun hfaults e => herr hfaults
      simp only [Fs.find, hname]
      apply Safe.propagate
      apply safe_fileMetadata hI _ fun hfaults e => herr hfaults
      simp only [hvalid, if_true]
      apply Safe.propagate
      apply safe_readFile hI _ fun hfaults e => herr hfaults
      -- the limit of the read is above the size that was checked
      have hlen : (s.inodes ino).content.length ≤ 33 := by
        simp only [validMarker, Bool.and_eq_true, decide_eq_true_eq] at hvalid
        exact Nat.le_succ_of_le hvalid.2
      simp only [List.take_of_length_le hlen]
      exact ⟨hI, hok⟩
    · next hvalid =>
      rw [if_neg hvalid] at hok
      exact ⟨hI, hok⟩

/-- The lock file is as the store created it. -/
def LockOk (uid : Nat) (s : Fs) : Prop :=
  ∃ ino, s.dir.lookup instanceLockName = some ino ∧ validLock uid (s.inodes ino).stat = true

theorem safe_validateInstanceLock {Q : Except DpopPortError Unit → Fs → Prop} (hI : I s)
    (hok : Q (.ok ()) s) (herr : ¬ LockOk directory.ownerUid s ∨ faults → Q (.error .mk) s) :
    Safe (fsHandler host faults) I Q directory.validateInstanceLock s := by
  apply Safe.propagate
  apply safe_metadata hI _ fun hfaults e => herr (Or.inr hfaults)
  unfold Fs.metadata Fs.find
  cases hname : s.dir.lookup instanceLockName with
  | none =>
    apply herr
    left
    rintro ⟨ino, h, -⟩
    rw [hname] at h
    cases h
  | some ino =>
    refine ⟨hI, ?_⟩
    split
    · exact hok
    · next hvalid =>
      apply herr
      left
      rintro ⟨ino', h, hlock⟩
      rw [hname] at h
      cases h
      exact hvalid hlock

theorem safe_lockFile {file : Nat} {Q : Except DpopPortError Nat → Fs → Prop} (hI : I s)
    (hok : validLock directory.ownerUid (s.inodes file).stat = true → Q (.ok file) s)
    (herr : ¬ validLock directory.ownerUid (s.inodes file).stat = true ∨ faults →
      Q (.error .mk) s) :
    Safe (fsHandler host faults) I Q (directory.lockFile file) s := by
  apply Safe.propagate
  refine safe_fileMetadata hI ?_ fun hfaults _ => herr (Or.inr hfaults)
  show Safe _ _ _ (if _ then _ else _) s
  split
  · next hvalid =>
    apply Safe.propagate
    exact safe_tryLockExclusive hI ⟨hI, hok hvalid⟩ fun hfaults _ => herr (Or.inr hfaults)
  · next hvalid => exact ⟨hI, herr (Or.inl hvalid)⟩

end Rules

end Keylix.Verifier

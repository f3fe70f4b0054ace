import Keylix.Dpop.Concurrent
import Keylix.Verifier.Replay.Opening

/-!
# The file store refines the in-memory store

Without I/O errors a section of the file store does to the markers of the directory what
`recordEntry` does to the map of the in-memory store. The two are related by `Encodes`: the
directory holds the lock file and, under the name of each key of the map, the text of its expiry.

`fileRun_refines` is the statement over whole sequences of calls, from an empty directory and an
empty map, for any readings of the clock.
-/

set_option autoImplicit false

namespace Keylix.Verifier

open Keylix.Lib Keylix.Dpop
open Keylix.Lib.Prog (Safe Outcome)

/-! ## Encodings -/

/-- The directory is the encoding of the map. -/
structure Encodes (uid : Nat) (m : ReplayEntries) (s : Fs) : Prop where
  holds : s.Holds (EntryOk uid)
  lock : s.dir.lookup instanceLockName ≠ none
  noPending : ∀ n : FileName, isPendingName n.bytes = true → s.dir.lookup n = none
  marker : ∀ key expires, m.lookup key = some expires ↔
    ∃ ino, s.dir.lookup (nameFor key) = some ino ∧ (s.inodes ino).content = markerText expires

/-- A text belongs to one expiry. -/
theorem markerText_inj {a b : I64} (ha : 0 ≤ a.toInt) (h : markerText a = markerText b) :
    a = b := by
  by_cases hb : 0 ≤ b.toInt
  · have hparse := parseExpiry_markerText ha
    rw [h, parseExpiry_markerText hb] at hparse
    cases hparse
    rfl
  · -- a negative expiry starts with a sign
    exfalso
    have hsign : byte '-' ∈ markerText a := by
      rw [h, markerText, decimalInt, if_pos (by omega)]
      exact List.mem_cons_self
    rw [markerText_of_nonneg ha] at hsign
    rcases List.mem_append.1 hsign with hdigit | hnewline
    · exact absurd (isAsciiDigit_of_mem_decimal hdigit) (by decide)
    · exact absurd hnewline (by decide)

namespace Encodes

variable {uid : Nat} {m m' : ReplayEntries} {s : Fs} {key : ReplayKey} {expires : I64} {ino : Nat}

theorem congr (h : Encodes uid m s) (hm : ∀ k, m.lookup k = m'.lookup k) : Encodes uid m' s := by
  refine ⟨h.holds, h.lock, h.noPending, ?_⟩
  intro key expires
  rw [← hm key]
  exact h.marker key expires

/-- A name that is bound belongs to the map. -/
theorem exists_lookup (h : Encodes uid m s) (hino : s.dir.lookup (nameFor key) = some ino) :
    ∃ expires : I64, 0 ≤ expires.toInt ∧ ownedFile uid (s.inodes ino).stat = true ∧
      (s.inodes ino).content = markerText expires ∧ m.lookup key = some expires := by
  obtain ⟨expires, hexpires, howned, hcontent⟩ := (h.holds.lookup hino).2.of_nameFor
  exact ⟨expires, hexpires, howned, hcontent, (h.marker key expires).2 ⟨ino, hino, hcontent⟩⟩

theorem lookup_eq_none (h : Encodes uid m s) (hkey : m.lookup key = none) :
    s.dir.lookup (nameFor key) = none := by
  cases hino : s.dir.lookup (nameFor key) with
  | none => rfl
  | some ino =>
    obtain ⟨expires, -, -, -, hsome⟩ := h.exists_lookup hino
    rw [hkey] at hsome
    cases hsome

/-- The text of each marker of the map reads back. -/
theorem readExpiryAt_eq (h : Encodes uid m s) (hkey : m.lookup key = some expires) :
    readExpiryAt uid s (nameFor key) = .ok expires := by
  obtain ⟨ino, hino, -⟩ := (h.marker key expires).1 hkey
  obtain ⟨expires', hexpires, howned, hcontent, hsome⟩ := h.exists_lookup hino
  rw [hkey] at hsome
  cases hsome
  exact readExpiryAt_of_lookup hino howned hcontent hexpires

theorem lockOk (h : Encodes uid m s) : LockOk uid s := by
  obtain ⟨ino, hino⟩ := Option.ne_none_iff_exists'.1 h.lock
  exact ⟨ino, hino, (h.holds.lookup hino).2.of_lock⟩

/-- Removing the file of a key is removing the key. -/
theorem unlink (h : Encodes uid m s) (key : ReplayKey) :
    Encodes uid (m.erase key) (s.change (.unlink (nameFor key))) := by
  refine ⟨h.holds.unlink, ?_, ?_, ?_⟩
  · rw [Fs.lookup_unlink, if_neg (nameFor_ne_lock key).symm]
    exact h.lock
  · intro n hn
    rw [Fs.lookup_unlink, if_neg (nameFor_ne_pending hn key)]
    exact h.noPending n hn
  · intro key' expires
    rw [FiniteMap.lookup_erase, Fs.lookup_unlink]
    by_cases hkey : key' = key
    · rw [if_pos hkey, if_pos (congrArg nameFor hkey)]
      simp
    · rw [if_neg hkey, if_neg (nameFor_injective.ne hkey)]
      exact h.marker key' expires

/-- A published marker is the new entry of its key. -/
theorem published {host : FsHost} {pending : FileName} {s' : Fs} (h : Encodes uid m s)
    (hpending : isPendingName pending.bytes = true) (hexpires : 0 ≤ expires.toInt)
    (hs' : s'.Holds (EntryOk uid))
    (hp : Published host pending s.next key expires
      (s.create pending (host.file 0o600 [] false)) s') :
    Encodes uid (m.insert key expires) s' := by
  -- the pending name is gone, and the name of the key is bound to the new inode
  have hlookup : ∀ n, s'.dir.lookup n =
      if n = pending then none else if n = nameFor key then some s.next else s.dir.lookup n := by
    intro n
    rw [hp.lookup n]
    split
    · rfl
    · next hn => rw [Fs.lookup_create, if_neg hn]
  refine ⟨hs', ?_, ?_, ?_⟩
  · rw [hlookup, if_neg, if_neg (nameFor_ne_lock key).symm]
    · exact h.lock
    · rintro rfl
      rw [not_isPendingName_lock] at hpending
      cases hpending
  · intro n hn
    rw [hlookup]
    split
    · rfl
    · rw [if_neg (nameFor_ne_pending hn key)]
      exact h.noPending n hn
  · intro key' expires'
    rw [FiniteMap.lookup_insert, hlookup, if_neg (nameFor_ne_pending hpending key').symm]
    by_cases hkey : key' = key
    · -- the new marker
      rw [if_pos hkey, if_pos (congrArg nameFor hkey), Option.some.injEq]
      constructor
      · rintro rfl
        exact ⟨s.next, rfl, by rw [hp.inode]; rfl⟩
      · rintro ⟨ino, hino, hcontent⟩
        cases hino
        rw [hp.inode] at hcontent
        exact markerText_inj hexpires hcontent
    · -- the files of the others are as they were
      rw [if_neg hkey, if_neg (nameFor_injective.ne hkey), h.marker key' expires']
      have hsame : ∀ ino, s.dir.lookup (nameFor key') = some ino →
          s'.inodes ino = s.inodes ino := by
        intro ino hino
        have hne : ino ≠ s.next := Nat.ne_of_lt (h.holds.lookup hino).1
        exact (hp.others ino hne).trans (Function.update_of_ne hne _ _)
      constructor
      · rintro ⟨ino, hino, hcontent⟩
        exact ⟨ino, hino, hsame ino hino ▸ hcontent⟩
      · rintro ⟨ino, hino, hcontent⟩
        exact ⟨ino, hino, hsame ino hino ▸ hcontent⟩

end Encodes

/-! ## Sections without faults -/

theorem Encodes.kept {uid : Nat} {m : ReplayEntries} {s : Fs} (h : Encodes uid m s) (now : I64) :
    Kept (EntryOk uid) (fun _ _ => False) now s :=
  ⟨h.holds, fun _ _ hfalse => hfalse.elim⟩

/-- The name of a marker that is not past its expiry. -/
def liveName (m : ReplayEntries) (now : I64) (n : FileName) : Bool :=
  m.entries.any fun entry => nameFor entry.1 = n && now.toInt ≤ entry.2.toInt

theorem liveName_iff {m : ReplayEntries} {now : I64} {n : FileName} :
    liveName m now n = true ↔
      ∃ key expires, m.lookup key = some expires ∧ nameFor key = n ∧ now.toInt ≤ expires.toInt := by
  simp only [liveName, List.any_eq_true, Bool.and_eq_true, decide_eq_true_eq, Prod.exists,
    FiniteMap.lookup_eq_some_iff]

theorem liveName_nameFor {m : ReplayEntries} {now expires : I64} {key : ReplayKey}
    (h : m.lookup key = some expires) :
    liveName m now (nameFor key) = true ↔ now.toInt ≤ expires.toInt := by
  rw [liveName_iff]
  constructor
  · rintro ⟨key', expires', hkey, hname, hle⟩
    rw [nameFor_injective hname, h] at hkey
    cases hkey
    exact hle
  · intro hle
    exact ⟨key, expires, h, rfl, hle⟩

section Sections

variable {host : FsHost} {now : I64} {m : ReplayEntries} {s : Fs} {directory : SecureDir}
  {key : ReplayKey} {expires : I64}

/-- The map after a sweep of some of the names. -/
def sweptOf (m : ReplayEntries) (now : I64) (names : List FileName) : ReplayEntries :=
  m.retain fun key expires => decide (nameFor key ∉ names) || decide (now.toInt ≤ expires.toInt)

theorem lookup_sweptOf (names : List FileName) :
    (sweptOf m now names).lookup key = some expires ↔
      m.lookup key = some expires ∧ (nameFor key ∈ names → now.toInt ≤ expires.toInt) := by
  rw [sweptOf, FiniteMap.lookup_retain, Option.filter_eq_some_iff]
  simp [imp_iff_not_or]

/-- A sweep of a name that is no marker of the map, or one that is not past its expiry. -/
theorem sweptOf_cons_of_kept {name : FileName} (names : List FileName)
    (h : ∀ k e, m.lookup k = some e → nameFor k = name → now.toInt ≤ e.toInt) (k : ReplayKey) :
    (sweptOf m now names).lookup k = (sweptOf m now (name :: names)).lookup k := by
  apply Option.ext
  intro e
  rw [lookup_sweptOf, lookup_sweptOf]
  constructor
  · rintro ⟨hk, hlive⟩
    refine ⟨hk, fun hmem => ?_⟩
    rcases List.mem_cons.1 hmem with hname | hmem
    · exact h k e hk hname
    · exact hlive hmem
  · rintro ⟨hk, hlive⟩
    exact ⟨hk, fun hmem => hlive (List.mem_cons_of_mem _ hmem)⟩

/-- A sweep of an expired marker. -/
theorem sweptOf_cons_of_expired (names : List FileName) (h : m.lookup key = some expires)
    (hlt : expires.toInt < now.toInt) (k : ReplayKey) :
    (sweptOf (m.erase key) now names).lookup k =
      (sweptOf m now (nameFor key :: names)).lookup k := by
  apply Option.ext
  intro e
  rw [lookup_sweptOf, lookup_sweptOf, FiniteMap.lookup_erase, List.mem_cons,
    nameFor_injective.eq_iff]
  by_cases hk : k = key
  · subst hk
    rw [if_pos rfl, h]
    constructor
    · rintro ⟨hnone, -⟩
      cases hnone
    · rintro ⟨hsome, hlive⟩
      cases hsome
      have := hlive (Or.inl rfl)
      omega
  · simp [hk]

theorem filter_liveName_erase (names : List FileName)
    (hnames : nameFor key ∉ names) :
    names.filter (liveName (m.erase key) now) = names.filter (liveName m now) := by
  apply List.filter_congr
  intro n hn
  rw [Bool.eq_iff_iff, liveName_iff, liveName_iff]
  constructor
  · rintro ⟨k, e, hk, hname, hle⟩
    rw [FiniteMap.lookup_erase] at hk
    split at hk
    · cases hk
    · exact ⟨k, e, hk, hname, hle⟩
  · rintro ⟨k, e, hk, hname, hle⟩
    refine ⟨k, e, ?_, hname, hle⟩
    rw [FiniteMap.lookup_erase, if_neg]
    · exact hk
    · rintro rfl
      exact hnames (hname ▸ hn)

/-- The loop of a sweep, over names of the directory. -/
theorem runs_sweep (hdir : directory.ownerUid = host.uid) (names : List FileName)
    (hnodup : names.Nodup) (hbound : ∀ n ∈ names, s.dir.lookup n ≠ none)
    (h : Encodes host.uid m s) (active : Nat) :
    Runs host now (fun r s' =>
        r = .ok (active + (names.filter (liveName m now)).length) ∧
          Encodes host.uid (sweptOf m now names) s')
      (directory.sweep now active names) s := by
  -- induction on the names that are left; the map, the directory and the count vary
  induction names generalizing m s active with
  | nil =>
    refine ⟨h.kept now, rfl, h.congr ?_⟩
    intro k
    apply Option.ext
    intro e
    rw [lookup_sweptOf]
    simp
  | cons name names ih =>
    obtain ⟨hname, htail⟩ := List.nodup_cons.1 hnodup
    have hrest : ∀ n ∈ names, s.dir.lookup n ≠ none :=
      fun n hn => hbound n (List.mem_cons_of_mem _ hn)
    obtain ⟨ino, hino⟩ := Option.ne_none_iff_exists'.1 (hbound name List.mem_cons_self)
    have hentry := (h.holds.lookup hino).2
    simp only [SecureDir.sweep]
    cases hentry with
    -- between two calls no file is pending
    | pending hpending howned hlen =>
      rw [h.noPending name hpending] at hino
      cases hino
    -- the lock is no marker of the map, and its check succeeds
    | lock howned hcontent =>
      rw [if_neg (by rw [not_isPendingName_lock]; exact Bool.false_ne_true), if_pos rfl]
      have hnone : ∀ k e, m.lookup k = some e → nameFor k = instanceLockName →
          now.toInt ≤ e.toInt := fun k e _ heq => absurd heq (nameFor_ne_lock k)
      have hdead : liveName m now instanceLockName = false := by
        rw [Bool.eq_false_iff]
        intro hlive
        obtain ⟨k, e, -, heq, -⟩ := liveName_iff.1 hlive
        exact nameFor_ne_lock k heq
      apply Safe.propagate
      apply safe_validateInstanceLock (h.kept now)
      · refine (ih htail hrest h active).mono (fun _ hk => hk) ?_
        rintro r s' - ⟨hr, hs'⟩
        rw [List.filter_cons_of_neg (by rw [hdead]; exact Bool.false_ne_true)]
        exact ⟨hr, hs'.congr (sweptOf_cons_of_kept names hnone)⟩
      · rintro (hnot | hfalse)
        · exact absurd (hdir ▸ h.lockOk) hnot
        · exact hfalse.elim
    -- the content of a marker is its expiry in the map
    | marker key expires hexpires howned hcontent hsynced =>
      have hkey : m.lookup key = some expires := (h.marker key expires).2 ⟨ino, hino, hcontent⟩
      rw [if_neg (by rw [not_isPendingName_nameFor]; exact Bool.false_ne_true),
        if_neg (nameFor_ne_lock key), if_pos (isMarkerName_nameFor key)]
      apply Safe.propagate
      refine safe_readExpiry (h.kept now) ?_ fun hfalse => hfalse.elim
      rw [hdir, h.readExpiryAt_eq hkey]
      by_cases hlt : expires.toInt < now.toInt
      · -- an expired marker is removed
        have hdead : ¬ liveName m now (nameFor key) = true := by
          rw [liveName_nameFor hkey]
          omega
        have herased := h.unlink key
        simp only [if_pos hlt]
        apply Safe.propagate
        refine safe_removeFile (h.kept now) ?_ ?_ fun hfalse => hfalse.elim
        · intro _
          refine ⟨herased.kept now, ?_, fun hfalse => hfalse.elim⟩
          -- the other names of the list are still bound after the removal
          have hrest' : ∀ n ∈ names, (s.change (.unlink (nameFor key))).dir.lookup n ≠ none := by
            intro n hn
            rw [Fs.lookup_unlink, if_neg]
            · exact hrest n hn
            · rintro rfl
              exact hname hn
          refine (ih htail hrest' herased active).mono (fun _ hk => hk) ?_
          rintro r s' - ⟨hr, hs'⟩
          rw [List.filter_cons_of_neg hdead, hr, filter_liveName_erase names hname]
          exact ⟨rfl, hs'.congr (sweptOf_cons_of_expired names hkey hlt)⟩
        · intro hnone
          exact absurd hnone (hbound _ List.mem_cons_self)
      · -- any other marker is counted
        have hlive : liveName m now (nameFor key) = true := by
          rw [liveName_nameFor hkey]
          omega
        have hkept : ∀ k e, m.lookup k = some e → nameFor k = nameFor key →
            now.toInt ≤ e.toInt := by
          intro k e hk heq
          rw [nameFor_injective heq, hkey] at hk
          cases hk
          omega
        simp only [if_neg hlt]
        refine (ih htail hrest h (active + 1)).mono (fun _ hk => hk) ?_
        rintro r s' - ⟨hr, hs'⟩
        rw [List.filter_cons_of_pos hlive, List.length_cons, hr]
        refine ⟨?_, hs'.congr (sweptOf_cons_of_kept names hkept)⟩
        congr 1
        omega

/-- The markers that are not past their expiry. -/
abbrev liveEntries (m : ReplayEntries) (now : I64) : ReplayEntries :=
  m.retain fun _ expiry => now.toInt ≤ expiry.toInt

theorem lookup_liveEntries {k : ReplayKey} {e : I64} :
    (liveEntries m now).lookup k = some e ↔ m.lookup k = some e ∧ now.toInt ≤ e.toInt := by
  rw [FiniteMap.lookup_retain, Option.filter_eq_some_iff, decide_eq_true_eq]

/-- Every marker of the map has its name in the directory. -/
theorem Encodes.mem_keys (h : Encodes host.uid m s) (hkey : m.lookup key = some expires) :
    nameFor key ∈ s.dir.keys := by
  obtain ⟨ino, hino, -⟩ := (h.marker key expires).1 hkey
  exact FiniteMap.mem_keys_iff.2 ⟨ino, hino⟩

/-- The count of a sweep is the number of the markers that it leaves. -/
theorem length_filter_liveName (h : Encodes host.uid m s) {names : List FileName}
    (hperm : names.Perm s.dir.keys) :
    (names.filter (liveName m now)).length = (liveEntries m now).size := by
  have hnodup : names.Nodup := hperm.nodup_iff.2 s.dir.nodup
  have hkeys : ((liveEntries m now).keys.map nameFor).Nodup :=
    (liveEntries m now).nodup.map nameFor_injective
  -- both lists have no repetition and the same members
  have hsame : (names.filter (liveName m now)).Perm ((liveEntries m now).keys.map nameFor) := by
    rw [List.perm_ext_iff_of_nodup (hnodup.filter _) hkeys]
    intro n
    rw [List.mem_filter, List.mem_map, liveName_iff]
    constructor
    · rintro ⟨-, k, e, hk, hname, hle⟩
      exact ⟨k, FiniteMap.mem_keys_iff.2 ⟨e, lookup_liveEntries.2 ⟨hk, hle⟩⟩, hname⟩
    · rintro ⟨k, hk, rfl⟩
      obtain ⟨e, he⟩ := FiniteMap.mem_keys_iff.1 hk
      obtain ⟨hk, hle⟩ := lookup_liveEntries.1 he
      exact ⟨hperm.mem_iff.2 (h.mem_keys hk), k, e, hk, rfl, hle⟩
  rw [hsame.length_eq, List.length_map, FiniteMap.keys, List.length_map, FiniteMap.size]

theorem runs_cleanupAndCount (hdir : directory.ownerUid = host.uid) (h : Encodes host.uid m s) :
    Runs host now (fun r s' =>
        r = .ok (liveEntries m now).size ∧ Encodes host.uid (liveEntries m now) s')
      (directory.cleanupAndCount now) s := by
  apply Safe.propagate
  refine safe_listNames (h.kept now) ?_ fun hfalse => hfalse.elim
  intro names hperm
  have hbound : ∀ n ∈ names, s.dir.lookup n ≠ none := by
    intro n hn hnone
    exact FiniteMap.lookup_eq_none_iff.1 hnone (hperm.mem_iff.1 hn)
  -- the list names every entry, so that the sweep reaches every marker of the map
  have hswept : ∀ k, (sweptOf m now names).lookup k = (liveEntries m now).lookup k := by
    intro k
    apply Option.ext
    intro e
    rw [lookup_sweptOf, lookup_liveEntries]
    constructor
    · rintro ⟨hk, hlive⟩
      exact ⟨hk, hlive (hperm.mem_iff.2 (h.mem_keys hk))⟩
    · rintro ⟨hk, hle⟩
      exact ⟨hk, fun _ => hle⟩
  refine (runs_sweep hdir names (hperm.nodup_iff.2 s.dir.nodup) hbound h 0).mono
    (fun _ hk => hk) ?_
  rintro r s' - ⟨hr, hs'⟩
  rw [hr, length_filter_liveName h hperm, Nat.zero_add]
  exact ⟨rfl, hs'.congr hswept⟩

/-- A free name is claimed when there is room. -/
theorem runs_claimName (hexpires : 0 ≤ expires.toInt) (h : Encodes host.uid m s)
    (hkey : m.lookup key = none) (capacity attempt active : Nat)
    (next : Prog fileOps (Except DpopPortError ReplayStatus)) :
    Runs host now (fun r s' =>
        r = (if capacity ≤ active then .error .mk else .ok .fresh) ∧
          Encodes host.uid (if capacity ≤ active then m else m.insert key expires) s')
      (SecureDir.claimName capacity (nameFor key) expires attempt active next) s := by
  unfold SecureDir.claimName
  split
  · next hfull => exact ⟨h.kept now, rfl, h⟩
  next hroom =>
  have hkept := h.kept now
  apply Safe.propagate
  refine safe_pendingName hkept ?_ fun hfalse => hfalse.elim
  intro pending hpending
  -- a new pending file, which is free because no file is pending
  have hfree := h.noPending pending hpending
  have hcreated := hkept.create hfree
    ((format_entryOk host).pending pending [] false hpending (by simp))
  apply Safe.of_bind
  refine safe_newFile hkept ?_ (fun hbound => absurd hfree hbound) fun hfalse => hfalse.elim
  intro _
  refine ⟨hcreated, ?_, fun hfalse => hfalse.elim⟩
  apply Safe.of_bind
  refine safe_initializeMarker (format_entryOk host) hexpires hcreated
    (writing_create h.holds hpending) ?_ ?_
  · intro s' hs' _ hpublished
    exact ⟨hs', rfl, h.published hpending hexpires hs'.holds hpublished⟩
  · -- the name of the marker is free, so nothing can fail
    rintro (hfalse | hbound)
    · exact hfalse.elim
    · rw [Fs.lookup_create, if_neg (nameFor_ne_pending hpending key).symm,
        h.lookup_eq_none hkey] at hbound
      exact absurd rfl hbound

/-- **A section does to the directory what `recordEntry` does to the map.** -/
theorem runs_recordMarker (hdir : directory.ownerUid = host.uid) (hexpires : 0 ≤ expires.toInt)
    (capacity : Nat) (h : Encodes host.uid m s) (hnow : now.toInt ≤ expires.toInt) :
    Runs host now (fun r s' =>
        r = (recordEntry capacity now key expires m).1 ∧
          Encodes host.uid (recordEntry capacity now key expires m).2 s')
      (directory.recordMarker capacity now key expires) s := by
  unfold SecureDir.recordMarker
  rw [if_neg (by omega)]
  -- the sweep leaves the live entries, and then the marker of the key is read
  apply Safe.propagate
  refine (runs_cleanupAndCount hdir h).mono (fun _ hk => hk) ?_
  rintro r s' - ⟨rfl, hs'⟩
  apply Safe.of_bind
  refine safe_readExpiry (hs'.kept now) ?_ fun hfalse => hfalse.elim
  rw [hdir]
  cases hkey : (liveEntries m now).lookup key with
  -- a live marker: the call is a replay and nothing is written
  | some expiry =>
    have hle := (lookup_liveEntries.1 hkey).2
    have hcontains : (liveEntries m now).contains key = true := by
      rw [FiniteMap.contains, hkey]
      rfl
    rw [hs'.readExpiryAt_eq hkey]
    simp only [if_pos hle, recordEntry, hcontains, if_true]
    exact ⟨hs'.kept now, rfl, hs'⟩
  -- no live marker: the file of the key is missing, and its name can be claimed
  | none =>
    have hcontains : (liveEntries m now).contains key = false := by
      rw [FiniteMap.contains, hkey]
      rfl
    have hfree := hs'.lookup_eq_none hkey
    have hread : readExpiryAt host.uid s' (nameFor key) = .error .mk := by
      rw [readExpiryAt, hfree]
    have hmissing : s'.metadata (nameFor key) = .error .notFound := by
      rw [Fs.metadata, Fs.find, hfree]
      rfl
    rw [hread]
    apply Safe.of_bind
    refine safe_metadata (hs'.kept now) ?_ fun hfalse => hfalse.elim
    rw [hmissing]
    simp only [if_true]
    refine (runs_claimName hexpires hs' hkey capacity 0 _ _).mono (fun _ hk => hk) ?_
    rintro r s'' - ⟨hr, hs''⟩
    simp only [recordEntry, hcontains, Bool.false_eq_true, if_false]
    split
    · next hfull =>
      rw [if_pos hfull] at hr hs''
      exact ⟨hr, hs''⟩
    · next hroom =>
      rw [if_neg hroom] at hr hs''
      exact ⟨hr, hs''⟩

/-- Without I/O errors a section ends, and its answer is that of `recordEntry`. -/
theorem exists_section_encodes (hdir : directory.ownerUid = host.uid)
    (hexpires : 0 ≤ expires.toInt) (capacity : Nat) (h : Encodes host.uid m s)
    (hnow : now.toInt ≤ expires.toInt) :
    ∃ s', Prog.Outcome (okHandler host) (directory.recordMarker capacity now key expires) s
        (recordEntry capacity now key expires m).1 s' ∧
      Encodes host.uid (recordEntry capacity now key expires m).2 s' := by
  obtain ⟨r, s', hsection⟩ := Prog.exists_outcome (okHandler_total host)
    (directory.recordMarker capacity now key expires) s
  have hruns : Runs host now _ (directory.recordMarker capacity now key expires) s :=
    runs_recordMarker hdir hexpires capacity h hnow
  obtain ⟨-, rfl, hs'⟩ := (hruns.handler_mono (okHandler_le_fsHandler host False)).outcome hsection
  exact ⟨s', hsection, hs'⟩

end Sections

/-! ## Calls -/

/-- The operations of the process beside those of the directory. -/
inductive CtrlOp where
  | unixSeconds
  | lock
  | unlock

def ctrlOps : Signature where
  Op := CtrlOp
  Res
    | .unixSeconds => Except DpopPortError I64
    | .lock => Except DpopPortError Unit
    | .unlock => Unit

abbrev storeOps : Signature := fileOps.sum ctrlOps

def ctrlClock : Clock storeOps := ⟨Prog.perform (S := storeOps) (.inr .unixSeconds)⟩

def ctrlLock : OperationLock storeOps where
  lock := Prog.perform (S := storeOps) (.inr .lock)
  unlock := Prog.perform (S := storeOps) (.inr .unlock)

/-- `FileReplayStore.new` with the clock and the lock of the process. -/
def openStore (path : Path) (uid capacity : Nat) :
    Prog fileOps (Except DpopPortError (FileReplayStore ctrlOps)) :=
  FileReplayStore.new ctrlClock ctrlLock path uid capacity

/-- A call of `checkAndRecord` with what its clock reads. -/
structure StoreCall where
  reading : Except DpopPortError I64
  key : ReplayKey
  expires : I64
  nonneg : 0 ≤ expires.toInt

/-- The meaning of the operations in a call that runs alone and without I/O errors. -/
def callHandler (host : FsHost) (reading : Except DpopPortError I64) : Prog.Handler storeOps Fs
  | .inl op, s, x, s' => okHandler host op s x s'
  | .inr .unixSeconds, s, x, s' => x = reading ∧ s' = s
  | .inr .lock, s, x, s' => x = .ok () ∧ s' = s
  | .inr .unlock, s, _, s' => s' = s

theorem callHandler_total (host : FsHost) (reading : Except DpopPortError I64) :
    Prog.Handler.Total (callHandler host reading) := by
  rintro (op | op) s
  · exact okHandler_total host op s
  · cases op with
    | unixSeconds => exact ⟨_, _, rfl, rfl⟩
    | lock => exact ⟨_, _, rfl, rfl⟩
    | unlock => exact ⟨(), _, rfl⟩

/-- The meaning of the operations of the in-memory store in the same call. -/
def memCall (reading : Except DpopPortError I64) :
    (op : memOps.Op) → ReplayEntries → memOps.Res op × ReplayEntries
  | .inl .unixSeconds, m => (reading, m)
  | .inr (.update f), m => (m, f m)

/-- One call of the in-memory store. -/
def memStep (capacity : Nat) (hcap : capacity ≠ 0) (call : StoreCall) (m : ReplayEntries) :
    Except DpopPortError ReplayStatus × ReplayEntries :=
  Prog.exec (S := memOps) (memCall call.reading)
    ((memStore capacity hcap).checkAndRecord call.key call.expires) m

/-- A sequence of calls of the in-memory store: the answers and the last map. -/
def memRun (capacity : Nat) (hcap : capacity ≠ 0) :
    List StoreCall → ReplayEntries → List (Except DpopPortError ReplayStatus) × ReplayEntries
  | [], m => ([], m)
  | call :: calls, m =>
      let step := memStep capacity hcap call m
      let rest := memRun capacity hcap calls step.2
      (step.1 :: rest.1, rest.2)

/-- A sequence of calls of the file store: the answers and the last directory. -/
def FileRun (host : FsHost) (store : FileReplayStore ctrlOps) :
    List StoreCall → Fs → List (Except DpopPortError ReplayStatus) → Fs → Prop
  | [], s, results, s' => results = [] ∧ s' = s
  | call :: calls, s, results, s' =>
      ∃ r s₁ rest,
        Outcome (callHandler host call.reading)
          (store.checkAndRecord call.key call.expires) s r s₁ ∧
          FileRun host store calls s₁ rest s' ∧ results = r :: rest

/-- Without I/O errors every sequence of calls runs to its end. -/
theorem exists_fileRun (host : FsHost) (store : FileReplayStore ctrlOps) (calls : List StoreCall)
    (s : Fs) : ∃ results s', FileRun host store calls s results s' := by
  induction calls generalizing s with
  | nil => exact ⟨[], s, rfl, rfl⟩
  | cons call calls ih =>
    obtain ⟨r, s₁, hr⟩ := Prog.exists_outcome (callHandler_total host call.reading)
      (store.checkAndRecord call.key call.expires) s
    obtain ⟨rest, s', hrest⟩ := ih s₁
    exact ⟨r :: rest, s', r, s₁, rest, hr, hrest, rfl⟩

section Calls

variable {host : FsHost} {m : ReplayEntries} {s : Fs} {capacity : Nat}

/-- The answer of the in-memory store and its map. -/
theorem memStep_eq (hcap : capacity ≠ 0) (call : StoreCall) (m : ReplayEntries) :
    memStep capacity hcap call m =
      match call.reading with
      | .error e => (.error e, m)
      | .ok now =>
          if call.expires.toInt < now.toInt then (.error .mk, m)
          else recordEntry capacity now call.key call.expires m := by
  obtain ⟨reading, key, expires, hexpires⟩ := call
  cases reading with
  | error e => rfl
  | ok now =>
    show Prog.exec (S := memOps) (memCall (.ok now))
      (if expires.toInt < now.toInt then _ else _) m = _
    simp only
    split
    · rfl
    · rfl

/-- The rule of a call: the lock, the clock, the section, and the lock again. -/
theorem safe_checkAndRecord {H : Prog.Handler storeOps Fs} {I : Fs → Prop}
    {Q : Except DpopPortError ReplayStatus → Fs → Prop} {reading : Except DpopPortError I64}
    (hH : ∀ op s x s', H op s x s' → callHandler host reading op s x s')
    {store : FileReplayStore ctrlOps} (hclock : store.clock = ctrlClock)
    (hlock : store.operationLock = ctrlLock) (key : ReplayKey) (expires : I64) (hI : I s)
    (herr : ∀ e, reading = .error e → Q (.error e) s)
    (hok : ∀ now, reading = .ok now → Safe (okHandler host) I Q
      (store.directory.recordMarker store.capacity now key expires) s) :
    Safe H I Q (store.checkAndRecord key expires) s := by
  -- the end of every branch: the lock is given back and the answer stays
  have hrest : ∀ (r : Except DpopPortError ReplayStatus) (s : Fs), I s → Q r s →
      Safe H I Q (store.operationLock.unlock >>= fun _ => pure r) s := by
    intro r s hI hQ
    rw [hlock]
    refine ⟨hI, ?_⟩
    intro x s' hx
    cases hH _ _ _ _ hx
    exact ⟨hI, hQ⟩
  unfold FileReplayStore.checkAndRecord
  rw [hlock, hclock]
  -- the lock is free, and the clock answers the given reading
  refine ⟨hI, ?_⟩
  intro x s' hx
  obtain ⟨rfl, rfl⟩ := hH _ _ _ _ hx
  refine ⟨hI, ?_⟩
  intro x s' hx
  obtain ⟨rfl, rfl⟩ := hH _ _ _ _ hx
  cases x with
  | error e => exact hlock ▸ hrest (.error e) s' hI (herr e rfl)
  | ok now =>
    have hsection :
        Safe H I Q (store.directory.recordMarker store.capacity now key expires).inl s' :=
      (hok now rfl).inl fun op s x s' h => hH (.inl op) s x s' h
    apply Safe.bind hsection
    intro r s hI hQ
    exact hlock ▸ hrest r s hI hQ

/-- One call of the file store answers as the in-memory store and leaves the encoding of its
map. -/
theorem runs_checkAndRecord {store : FileReplayStore ctrlOps} (hclock : store.clock = ctrlClock)
    (hlock : store.operationLock = ctrlLock) (hdir : store.directory = ⟨host.uid⟩)
    (call : StoreCall) (h : Encodes host.uid m s) :
    Safe (callHandler host call.reading) (fun _ => True)
      (fun r s' => r = (memStep store.capacity store.capacity_ne call m).1 ∧
        Encodes host.uid (memStep store.capacity store.capacity_ne call m).2 s')
      (store.checkAndRecord call.key call.expires) s := by
  rw [memStep_eq]
  apply safe_checkAndRecord (fun _ _ _ _ h => h) hclock hlock _ _ trivial
  · intro e hreading
    rw [hreading]
    exact ⟨rfl, h⟩
  · intro now hreading
    simp only [hreading]
    -- an expiry that is already past is an error of the section and of the map alike
    split
    · next hlt =>
      rw [SecureDir.recordMarker, if_pos hlt]
      exact ⟨trivial, rfl, h⟩
    · next hge =>
      have huid : store.directory.ownerUid = host.uid := by rw [hdir]
      have hruns : Runs host now _
          (store.directory.recordMarker store.capacity now call.key call.expires) s :=
        runs_recordMarker huid call.nonneg store.capacity h (Int.not_lt.1 hge)
      exact (hruns.handler_mono (okHandler_le_fsHandler host False)).mono (fun _ _ => trivial)
        fun _ _ _ hq => hq

/-- Every run of the file store from the encoding of a map follows the in-memory store. -/
theorem fileRun_eq_memRun {store : FileReplayStore ctrlOps} (hclock : store.clock = ctrlClock)
    (hlock : store.operationLock = ctrlLock) (hdir : store.directory = ⟨host.uid⟩)
    (calls : List StoreCall) {results : List (Except DpopPortError ReplayStatus)} {s' : Fs}
    (h : Encodes host.uid m s) (hrun : FileRun host store calls s results s') :
    results = (memRun store.capacity store.capacity_ne calls m).1 ∧
      Encodes host.uid (memRun store.capacity store.capacity_ne calls m).2 s' := by
  induction calls generalizing m s results with
  | nil =>
    obtain ⟨rfl, rfl⟩ := hrun
    exact ⟨rfl, h⟩
  | cons call calls ih =>
    obtain ⟨r, s₁, rest, hcall, hrest, rfl⟩ := hrun
    obtain ⟨-, rfl, hs₁⟩ := (runs_checkAndRecord hclock hlock hdir call h).outcome hcall
    obtain ⟨rfl, hs'⟩ := ih hs₁ hrest
    exact ⟨rfl, hs'⟩

end Calls

/-! ## From an empty directory -/

/-- A store that was opened on an empty directory encodes the empty map. -/
theorem encodes_empty {host : FsHost} {s s' : Fs} (hempty : Fs.IsEmpty s)
    (hs' : s'.Holds (EntryOk host.uid)) (h : Recovered s s') : Encodes host.uid .empty s' := by
  refine ⟨hs', h.lock, h.noPending, ?_⟩
  intro key expires
  rw [FiniteMap.lookup_empty]
  constructor
  · intro hnone
    cases hnone
  · rintro ⟨ino, hino, -⟩
    rw [h.others _ (not_isPendingName_nameFor key) (nameFor_ne_lock key)] at hino
    exact absurd (Fs.binds_of_lookup hino) (hempty.not_binds _ ino)

/-- What is known of a store that was opened. -/
structure OpenedStore (host : FsHost) (path : Path) (uid capacity : Nat)
    (store : FileReplayStore ctrlOps) : Prop where
  uid_eq : uid = host.uid
  owned : SecureDir.ServiceOwned host path uid
  clock : store.clock = ctrlClock
  operationLock : store.operationLock = ctrlLock
  directory : store.directory = ⟨host.uid⟩
  capacity_eq : store.capacity = capacity

/-- Opening a well-formed directory, without faults. -/
theorem safe_openStore {host : FsHost} {s : Fs} (path : Path) (uid capacity : Nat)
    (hs : s.Holds (EntryOk host.uid)) :
    Safe (okHandler host) (fun _ => True)
      (Opened host ctrlClock ctrlLock path uid capacity s) (openStore path uid capacity) s := by
  have hruns : Runs host ⟨0, by norm_num, by norm_num⟩
      (Opened host ctrlClock ctrlLock path uid capacity s) (openStore path uid capacity) s :=
    runs_new ctrlClock ctrlLock path uid capacity hs
  exact (hruns.handler_mono (okHandler_le_fsHandler host False)).mono (fun _ _ => trivial)
    fun _ _ _ hq => hq

theorem openStore_outcome {host : FsHost} {path : Path} {uid capacity : Nat} {s s' : Fs}
    {store : FileReplayStore ctrlOps} (hs : s.Holds (EntryOk host.uid))
    (h : Outcome (okHandler host) (openStore path uid capacity) s (.ok store) s') :
    OpenedStore host path uid capacity store ∧ s'.Holds (EntryOk host.uid) ∧ Recovered s s' := by
  have hsafe := safe_openStore path uid capacity hs
  obtain ⟨-, ⟨file, hcap, rfl⟩, huid, howned, hs', hrecovered⟩ := hsafe.outcome h
  exact ⟨⟨huid, howned, rfl, rfl, by rw [huid], rfl⟩, hs', hrecovered⟩

/-- A well-formed directory of the process can be opened, and every attempt succeeds. -/
theorem openStore_succeeds {host : FsHost} {path : Path} {uid capacity : Nat} {s : Fs}
    (hs : s.Holds (EntryOk host.uid)) (hcap : capacity ≠ 0) (huid : uid = host.uid)
    (howned : SecureDir.ServiceOwned host path uid) :
    (∃ store s', Outcome (okHandler host) (openStore path uid capacity) s (.ok store) s') ∧
      ∀ r s', Outcome (okHandler host) (openStore path uid capacity) s r s' →
        ∃ store, r = .ok store := by
  have hsafe := safe_openStore path uid capacity hs
  have hall : ∀ r s', Outcome (okHandler host) (openStore path uid capacity) s r s' →
      ∃ store, r = .ok store := by
    intro r s' h
    obtain ⟨-, hopened⟩ := hsafe.outcome h
    cases r with
    | ok store => exact ⟨store, rfl⟩
    | error e => exact absurd ⟨hcap, huid, howned⟩ hopened
  obtain ⟨r, s', h⟩ := Prog.exists_outcome (okHandler_total host) (openStore path uid capacity) s
  obtain ⟨store, rfl⟩ := hall r s' h
  exact ⟨⟨store, s', h⟩, hall⟩

/-- **The file store refines the in-memory store.** From an empty directory and an empty map, every
sequence of calls runs to its end, both stores give the same answers, and the directory is the
encoding of the map. -/
theorem fileRun_refines (host : FsHost) (path : Path) (uid capacity : Nat) (hcap : capacity ≠ 0)
    (calls : List StoreCall) {s s₀ : Fs} {store : FileReplayStore ctrlOps} (hempty : Fs.IsEmpty s)
    (hopen : Outcome (okHandler host) (openStore path uid capacity) s (.ok store) s₀) :
    (∃ results s', FileRun host store calls s₀ results s') ∧
      ∀ results s', FileRun host store calls s₀ results s' →
        results = (memRun capacity hcap calls .empty).1 ∧
          Encodes uid (memRun capacity hcap calls .empty).2 s' := by
  refine ⟨exists_fileRun host store calls s₀, ?_⟩
  intro results s' hrun
  obtain ⟨⟨rfl, -, hclock, hlock, hdir, rfl⟩, hs₀, hrecovered⟩ :=
    openStore_outcome (hempty.holds _) hopen
  exact fileRun_eq_memRun hclock hlock hdir calls (encodes_empty hempty hs₀ hrecovered) hrun

/-! ## A first proof and its replay -/

section Sample

/-- A private directory of the process. -/
def sampleHost : FsHost where
  uid := 1000
  umask := 0o022
  path _ := .ok [⟨false, 0, 0o755, 0⟩, ⟨false, 1000, 0o700, 0⟩]

def samplePath : Path := [.rootDir]

def emptyDirectory : Fs := ⟨fun _ => ⟨false, 0, 0, [], false⟩, 0, .empty, []⟩

def sampleKey : ReplayKey := ⟨List.replicate 32 7, rfl⟩

def firstCall : StoreCall :=
  ⟨.ok sampleTime, sampleKey, lastSecond, by decide⟩

/-- A call with the same key at the last second of the first marker. -/
def secondCall : StoreCall :=
  ⟨.ok lastSecond, sampleKey, laterSecond, by decide⟩

theorem serviceOwned_sample : SecureDir.ServiceOwned sampleHost samplePath 1000 :=
  ⟨[], _, rfl, rfl, rfl⟩

theorem isEmpty_emptyDirectory : emptyDirectory.IsEmpty := ⟨rfl, rfl⟩

theorem fileRun_refines_sample : ∃ store s₀ results s',
    Outcome (okHandler sampleHost) (openStore samplePath 1000 8) emptyDirectory (.ok store) s₀ ∧
      FileRun sampleHost store [firstCall, secondCall] s₀ results s' ∧
      results = [.ok .fresh, .ok .replay] := by
  obtain ⟨⟨store, s₀, hopen⟩, -⟩ := openStore_succeeds
    (isEmpty_emptyDirectory.holds (EntryOk sampleHost.uid)) (by decide : 8 ≠ 0) rfl
    serviceOwned_sample
  obtain ⟨⟨results, s', hrun⟩, hall⟩ := fileRun_refines sampleHost samplePath 1000 8 (by decide)
    [firstCall, secondCall] isEmpty_emptyDirectory hopen
  refine ⟨store, s₀, results, s', hopen, hrun, ?_⟩
  rw [(hall results s' hrun).1]
  decide +kernel

end Sample

end Keylix.Verifier

import Keylix.Lib.FileOps

/-!
# Descriptor-anchored directories

The directory capability of the verifier host, as far as the replay store uses it: the service-owned
directory is opened along a chain of trusted directories, and every later operation is relative to
it. The operations of `SecureDir` on single entries are those of `FileOp`; a `FileName` is one
component by construction, so their check of the name never fails.
-/

set_option autoImplicit false

namespace Keylix.Verifier

open Keylix.Lib

/-- A component of a path. -/
inductive Component where
  | rootDir
  | normal (name : FileName)
  | curDir
  | parentDir
  deriving DecidableEq

abbrev Path := List Component

def Path.isAbsolute (path : Path) : Bool := path.head? = some .rootDir

def normalComponents : Path → Except IoError (List FileName)
  | [] => .ok []
  | .rootDir :: path => normalComponents path
  | .normal name :: path => (normalComponents path).map (name :: ·)
  | .curDir :: _ => .error .other
  | .parentDir :: _ => .error .other

def normalizedAbsoluteComponents (path : Path) : Except IoError (List FileName) :=
  if path.isAbsolute then normalComponents path else .error .other

structure SecureDir where
  ownerUid : Nat

/-- Every directory of the chain belongs to a trusted owner and only its owner may write to it. -/
def validateDirectoryChain (dirs : List Stat) (trustedUid : Nat) : Except IoError Unit :=
  if dirs.all fun stat => (stat.uid = 0 || stat.uid = trustedUid) && stat.mode &&& 0o022 = 0 then
    .ok ()
  else .error .other

/-- The last directory is private to its owner. -/
def validateServiceLeaf (dirs : List Stat) (ownerUid : Nat) : Except IoError Unit :=
  match dirs.getLast? with
  | none => .error .other
  | some stat =>
      if stat.uid ≠ ownerUid || stat.mode &&& 0o077 ≠ 0 then .error .other else .ok ()

/-- The checks of the opened directories. -/
def validateServiceOwned (dirs : List Stat) (ownerUid : Nat) : Except IoError SecureDir := do
  validateDirectoryChain dirs ownerUid
  validateServiceLeaf dirs ownerUid
  .ok ⟨ownerUid⟩

namespace SecureDir

/-- Opens a directory that belongs to the expected user. -/
def openServiceOwned (path : Path) (expectedUid : Nat) :
    Prog fileOps (Except IoError SecureDir) :=
  match normalizedAbsoluteComponents path with
  | .error e => .ret (.error e)
  | .ok names => do
      match ← fileOp (.openPath names) with
      | .error e => pure (.error e)
      | .ok dirs => pure (validateServiceOwned dirs expectedUid)

/-- The directory a process finds under a path is service-owned. -/
def ServiceOwned (host : FsHost) (path : Path) (uid : Nat) : Prop :=
  ∃ names dirs, normalizedAbsoluteComponents path = .ok names ∧ host.path names = .ok dirs ∧
    validateServiceOwned dirs uid = .ok ⟨uid⟩

end SecureDir

theorem validateServiceOwned_eq_ok {dirs : List Stat} {uid : Nat} {dir : SecureDir}
    (h : validateServiceOwned dirs uid = .ok dir) : dir = ⟨uid⟩ := by
  unfold validateServiceOwned at h
  obtain ⟨_, -, h⟩ := bind_eq_ok_iff.1 h
  obtain ⟨_, -, h⟩ := bind_eq_ok_iff.1 h
  cases h
  rfl

section Rules

open Prog (Safe)

variable {host : FsHost} {faults : Prop} {I : Fs → Prop} {s : Fs} {path : Path} {uid : Nat}

theorem safe_openServiceOwned {Q : Except IoError SecureDir → Fs → Prop} (hI : I s)
    (hok : SecureDir.ServiceOwned host path uid → Q (.ok ⟨uid⟩) s)
    (herr : ¬ SecureDir.ServiceOwned host path uid ∨ faults → ∀ e, Q (.error e) s) :
    Safe (fsHandler host faults) I Q (SecureDir.openServiceOwned path uid) s := by
  unfold SecureDir.openServiceOwned
  cases hnames : normalizedAbsoluteComponents path with
  | error e =>
    refine ⟨hI, herr (Or.inl ?_) e⟩
    rintro ⟨names, dirs, h, -, -⟩
    rw [hnames] at h
    cases h
  | ok names =>
    apply Safe.of_bind
    apply safe_openPath hI
    · cases hdirs : host.path names with
      | error e =>
        refine ⟨hI, herr (Or.inl ?_) e⟩
        rintro ⟨names', dirs, h, h', -⟩
        rw [hnames] at h
        cases h
        rw [hdirs] at h'
        cases h'
      | ok dirs =>
        cases hvalid : validateServiceOwned dirs uid with
        | error e =>
          simp only [hvalid]
          refine ⟨hI, herr (Or.inl ?_) e⟩
          rintro ⟨names', dirs', h, h', h''⟩
          rw [hnames] at h
          cases h
          rw [hdirs] at h'
          cases h'
          rw [hvalid] at h''
          cases h''
        | ok dir =>
          simp only [hvalid]
          cases validateServiceOwned_eq_ok hvalid
          exact ⟨hI, hok ⟨names, dirs, hnames, hdirs, hvalid⟩⟩
    · intro hfaults e
      exact ⟨hI, herr (Or.inr hfaults) e⟩

end Rules

end Keylix.Verifier

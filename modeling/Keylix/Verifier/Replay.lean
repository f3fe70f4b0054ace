import Keylix.Dpop.Ports
import Keylix.Verifier.SecureFs

/-!
# The durable replay store

`FileReplayStore` of `keylix-verifier`: each accepted replay key is one file of a private directory,
named by the key in hexadecimal and holding the expiry in decimal. A marker is published by a hard
link to a pending file that is complete and on disk; a pending file that a crash left behind is
removed when the store is opened again.

The store is a program over the operations of the directory (`fileOps`) and, for the operation lock
and the clock, over any further operations.
-/

set_option autoImplicit false

namespace Keylix.Verifier

open Keylix.Lib Keylix.Dpop
open Keylix.Lib.Prog (propagate)

/-! ## Names and texts -/

def pendingPrefix : Bytes := ascii ".pending-"

def pendingRandomBytes : Nat := 16

theorem isFileName_of_length {b : Bytes} (hlen : 2 < b.length)
    (hb : ∀ c ∈ b, c ≠ byte '/' ∧ c ≠ 0) : isFileName b = true := by
  have hne : b ≠ [] ∧ b ≠ ascii "." ∧ b ≠ ascii ".." := by
    refine ⟨?_, ?_, ?_⟩
    · rintro rfl
      simp at hlen
    · rintro rfl
      simp [ascii] at hlen
    · rintro rfl
      simp [ascii] at hlen
  simp only [isFileName, Bool.and_eq_true, decide_eq_true_eq, List.all_eq_true, ne_eq]
  exact ⟨⟨⟨hne.1, hne.2.1⟩, hne.2.2⟩, hb⟩

theorem ne_of_isLowerHex {c : UInt8} (h : isLowerHex c = true) : c ≠ byte '/' ∧ c ≠ 0 := by
  revert c
  decide +kernel

theorem isFileName_hexText (key : ReplayKey) : isFileName (hexText key.bytes.1) = true := by
  apply isFileName_of_length
  · rw [length_hexText, key.bytes.2]
    norm_num
  · intro c hc
    exact ne_of_isLowerHex (isLowerHex_of_mem_hexText hc)

theorem isFileName_pending (random : ByteArr pendingRandomBytes) :
    isFileName (pendingPrefix ++ hexText random.1) = true := by
  apply isFileName_of_length
  · rw [List.length_append]
    have : 2 < pendingPrefix.length := by decide
    omega
  · intro c hc
    rcases List.mem_append.1 hc with hc | hc
    · exact (by decide +kernel : ∀ c ∈ pendingPrefix, c ≠ byte '/' ∧ c ≠ 0) c hc
    · exact ne_of_isLowerHex (isLowerHex_of_mem_hexText hc)

def instanceLockName : FileName := ⟨ascii ".replay-store.lock", by decide⟩

/-- The name of the marker of a key. -/
def nameFor (key : ReplayKey) : FileName := ⟨hexText key.bytes.1, isFileName_hexText key⟩

def pendingNameOf (random : ByteArr pendingRandomBytes) : FileName :=
  ⟨pendingPrefix ++ hexText random.1, isFileName_pending random⟩

def isPendingName (name : Bytes) : Bool :=
  match name.dropPrefix? pendingPrefix with
  | none => false
  | some suffix => suffix.length = pendingRandomBytes * 2 && suffix.all isLowerHex

/-- What is not a marker by its name is refused by a sweep. -/
def isMarkerName (name : Bytes) : Bool := name.length = 64 && name.all isLowerHex

/-- The pieces that `writeln!` writes one after another. -/
def writelnPieces (z : Int) : List Bytes :=
  (if z < 0 then [[byte '-']] else []) ++ [decimal z.natAbs, [byte '\n']]

/-- The value of the text of a marker. -/
def parseExpiry (value : Bytes) : Except DpopPortError I64 :=
  if IsUtf8 value then
    let trimmed := if value.getLast? = some (byte '\n') then value.dropLast else value
    if trimmed.isEmpty || !trimmed.all isAsciiDigit then .error .mk
    else
      match (parseNumeral 10 trimmed).bind fun n => I64.ofInt? n with
      | some expiry => .ok expiry
      | none => .error .mk
  else .error .mk

/-! ## The directory -/

/-- A regular file that only its owner may use. -/
def ownedFile (uid : Nat) (stat : Stat) : Bool :=
  stat.regular && stat.uid = uid && stat.mode &&& 0o077 = 0

/-- The checks of the lock file. -/
def validLock (uid : Nat) (stat : Stat) : Bool := ownedFile uid stat && stat.size = 0

/-- The checks of a pending file that is scavenged. -/
def validPending (uid : Nat) (stat : Stat) : Bool := ownedFile uid stat && stat.size ≤ 32

/-- The checks of a marker. -/
def validMarker (uid : Nat) (stat : Stat) : Bool :=
  ownedFile uid stat && 0 < stat.size && stat.size ≤ 32

namespace SecureDir

variable (directory : SecureDir)

def pendingName : Prog fileOps (Except DpopPortError FileName) :=
  propagate .mk (fileOp (.fill pendingRandomBytes)) fun random =>
  .ret (.ok (pendingNameOf random))

def validateInstanceLock : Prog fileOps (Except DpopPortError Unit) :=
  propagate .mk (fileOp (.metadata instanceLockName)) fun stat =>
  .ret (if validLock directory.ownerUid stat then .ok () else .error .mk)

/-- The checks of the open lock file, and its lock. -/
def lockFile (file : Nat) : Prog fileOps (Except DpopPortError Nat) :=
  propagate .mk (fileOp (.fileMetadata file)) fun stat =>
  if validLock directory.ownerUid stat then
    propagate .mk (fileOp (.tryLockExclusive file)) fun _ =>
    .ret (.ok file)
  else .ret (.error .mk)

/-- The lock file of an earlier process. -/
def reopenLock : Prog fileOps (Except DpopPortError Nat) :=
  propagate .mk directory.validateInstanceLock fun _ =>
  propagate .mk (fileOp (.openFile instanceLockName)) fun file =>
  directory.lockFile file

def acquireInstanceLock : Prog fileOps (Except DpopPortError Nat) := do
  match ← fileOp (.newFile instanceLockName 0o600) with
  | .ok file => directory.lockFile file
  | .error e => if e = .alreadyExists then directory.reopenLock else pure (.error .mk)

def cleanupPending (name : FileName) : Prog fileOps (Except DpopPortError Unit) :=
  propagate .mk (fileOp (.metadata name)) fun stat =>
  if validPending directory.ownerUid stat then
    propagate .mk (fileOp (.removeFile name)) fun _ =>
    .ret (.ok ())
  else .ret (.error .mk)

/-- The loop of `cleanupStartupPending`; the result says whether a file was removed. -/
def scavenge : Bool → List FileName → Prog fileOps (Except DpopPortError Bool)
  | removedAny, [] => .ret (.ok removedAny)
  | removedAny, name :: names =>
      if IsUtf8 name.bytes then
        if isPendingName name.bytes then
          propagate .mk (directory.cleanupPending name) fun _ => scavenge true names
        else scavenge removedAny names
      else .ret (.error .mk)

def cleanupStartupPending : Prog fileOps (Except DpopPortError Unit) :=
  propagate .mk (fileOp .listNames) fun names =>
  propagate .mk (directory.scavenge false names) fun removedAny =>
  if removedAny then
    propagate .mk (fileOp .syncAll) fun _ =>
    .ret (.ok ())
  else .ret (.ok ())

def readExpiry (name : FileName) : Prog fileOps (Except DpopPortError I64) :=
  propagate .mk (fileOp (.metadata name)) fun stat =>
  if validMarker directory.ownerUid stat then
    propagate .mk (fileOp (.openFile name)) fun file =>
    propagate .mk (fileOp (.fileMetadata file)) fun stat =>
    if validMarker directory.ownerUid stat then
      propagate .mk (fileOp (.readFile file 33)) fun value =>
      .ret (parseExpiry value)
    else .ret (.error .mk)
  else .ret (.error .mk)

/-- The loop of `cleanupAndCount`. -/
def sweep (now : I64) : Nat → List FileName → Prog fileOps (Except DpopPortError Nat)
  | active, [] => .ret (.ok active)
  | active, name :: names =>
      if isPendingName name.bytes then sweep now active names
      else if name = instanceLockName then
        propagate .mk directory.validateInstanceLock fun _ => sweep now active names
      else if isMarkerName name.bytes then
        propagate .mk (directory.readExpiry name) fun expiry =>
        if expiry.toInt < now.toInt then
          propagate .mk (fileOp (.removeFile name)) fun _ => sweep now active names
        else sweep now (active + 1) names
      else .ret (.error .mk)

/-- Removes the expired markers and counts the others. -/
def cleanupAndCount (now : I64) : Prog fileOps (Except DpopPortError Nat) :=
  propagate .mk (fileOp .listNames) fun names => directory.sweep now 0 names

/-- Writes the pieces in turn, up to the first failure. -/
def writeAll (file : Nat) : List Bytes → Prog fileOps (Except DpopPortError Unit)
  | [] => .ret (.ok ())
  | piece :: pieces => propagate .mk (fileOp (.write file piece)) fun _ => writeAll file pieces

/-- The `initialize` section: the pending file is written and flushed, published under the name of
the marker, and removed. -/
def initializeMarker (file : Nat) (pending name : FileName) (expiresAtUnix : I64) :
    Prog fileOps (Except DpopPortError Unit) :=
  propagate .mk (writeAll file (writelnPieces expiresAtUnix.toInt)) fun _ =>
  propagate .mk (fileOp (.syncFile file)) fun _ =>
  propagate .mk (fileOp (.hardLink pending name)) fun _ =>
  propagate .mk (fileOp .syncAll) fun _ =>
  propagate .mk (fileOp (.removeFile pending)) fun _ =>
  propagate .mk (fileOp .syncAll) fun _ =>
  .ret (.ok ())

/-- `continue` when the condition holds, else the error of the port. The program `next` is the next
attempt. -/
def continueIf (again : Bool) (next : Prog fileOps (Except DpopPortError ReplayStatus)) :
    Prog fileOps (Except DpopPortError ReplayStatus) :=
  if again then next else .ret (.error .mk)

/-- The end of an attempt whose publication failed. The failures of the two last operations are
ignored. -/
def abandon (pending name : FileName) (attempt : Nat)
    (next : Prog fileOps (Except DpopPortError ReplayStatus)) :
    Prog fileOps (Except DpopPortError ReplayStatus) := do
  let final ← fileOp (.metadata name)
  let _ ← fileOp (.removeFile pending)
  let _ ← fileOp .syncAll
  continueIf (final.isOk && attempt = 0) next

/-- The end of an attempt whose pending file exists. -/
def publish (file : Nat) (pending name : FileName) (expiresAtUnix : I64) (attempt : Nat)
    (next : Prog fileOps (Except DpopPortError ReplayStatus)) :
    Prog fileOps (Except DpopPortError ReplayStatus) := do
  match ← initializeMarker file pending name expiresAtUnix with
  | .ok () => pure (.ok .fresh)
  | .error _ => abandon pending name attempt next

/-- The part of an attempt after the name of the marker was found free. -/
def claimName (capacity : Nat) (name : FileName) (expiresAtUnix : I64) (attempt active : Nat)
    (next : Prog fileOps (Except DpopPortError ReplayStatus)) :
    Prog fileOps (Except DpopPortError ReplayStatus) :=
  if capacity ≤ active then .ret (.error .mk)
  else
    propagate .mk pendingName fun pending => do
      match ← fileOp (.newFile pending 0o600) with
      | .ok file => publish file pending name expiresAtUnix attempt next
      | .error e => continueIf (e = .alreadyExists && attempt = 0) next

/-- A marker that could not be read must be absent. -/
def ifAbsent (name : FileName) (claim : Prog fileOps (Except DpopPortError ReplayStatus)) :
    Prog fileOps (Except DpopPortError ReplayStatus) := do
  match ← fileOp (.metadata name) with
  | .ok _ => pure (.error .mk)
  | .error e => if e = .notFound then claim else pure (.error .mk)

/-- The part of an attempt after the sweep. -/
def checkName (now : I64) (name : FileName)
    (claim : Prog fileOps (Except DpopPortError ReplayStatus)) :
    Prog fileOps (Except DpopPortError ReplayStatus) := do
  match ← directory.readExpiry name with
  | .ok expiry =>
      if now.toInt ≤ expiry.toInt then pure (.ok .replay)
      else propagate .mk (fileOp (.removeFile name)) fun _ => claim
  | .error _ => ifAbsent name claim

/-- The loop over the attempts. -/
def attempts (capacity : Nat) (now : I64) (name : FileName) (expiresAtUnix : I64) :
    List Nat → Prog fileOps (Except DpopPortError ReplayStatus)
  | [] => .ret (.error .mk)
  | attempt :: rest =>
      propagate .mk (directory.cleanupAndCount now) fun active =>
      directory.checkName now name <|
      claimName capacity name expiresAtUnix attempt active <|
      attempts capacity now name expiresAtUnix rest

/-- The section of `FileReplayStore.checkAndRecord` after its clock reading. -/
def recordMarker (capacity : Nat) (now : I64) (key : ReplayKey) (expiresAtUnix : I64) :
    Prog fileOps (Except DpopPortError ReplayStatus) :=
  if expiresAtUnix.toInt < now.toInt then .ret (.error .mk)
  else directory.attempts capacity now (nameFor key) expiresAtUnix [0, 1]

end SecureDir

/-! ## The store -/

/-- A mutex that holds no value. Locking fails when a section before it panicked. -/
structure OperationLock (S : Signature) where
  lock : Prog S (Except DpopPortError Unit)
  unlock : Prog S Unit

structure FileReplayStore (T : Signature) where
  clock : Clock (fileOps.sum T)
  directory : SecureDir
  capacity : Nat
  instanceLock : Nat
  operationLock : OperationLock (fileOps.sum T)
  capacity_ne : capacity ≠ 0

namespace FileReplayStore

variable {T : Signature}

/-- Opens an existing service-owned replay directory. -/
def new (clock : Clock (fileOps.sum T)) (operationLock : OperationLock (fileOps.sum T))
    (path : Path) (trustedUid capacity : Nat) :
    Prog fileOps (Except DpopPortError (FileReplayStore T)) :=
  if h : capacity = 0 then .ret (.error .mk)
  else
    propagate .mk (SecureDir.openServiceOwned path trustedUid) fun directory =>
    propagate .mk directory.acquireInstanceLock fun instanceLock =>
    propagate .mk directory.cleanupStartupPending fun _ =>
    .ret (.ok ⟨clock, directory, capacity, instanceLock, operationLock, h⟩)

/-- The clock is read under the lock. -/
def checkAndRecord (store : FileReplayStore T) (key : ReplayKey) (expiresAtUnix : I64) :
    Prog (fileOps.sum T) (Except DpopPortError ReplayStatus) := do
  match ← store.operationLock.lock with
  | .error e => pure (.error e)
  | .ok () =>
      let answer ← do
        match ← store.clock.unixSeconds with
        | .error e => pure (.error e)
        | .ok now => (store.directory.recordMarker store.capacity now key expiresAtUnix).inl
      store.operationLock.unlock
      pure answer

def replayStore (store : FileReplayStore T) : ReplayStore (fileOps.sum T) := ⟨store.checkAndRecord⟩

end FileReplayStore

end Keylix.Verifier

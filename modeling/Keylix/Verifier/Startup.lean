import Keylix.Lib.Program

/-!
# Starting the reference host

A host takes the lock of the directory of its socket, opens its service, removes the socket that a
dead host left behind, binds its own and hardens it, and then serves until it is killed. Any number
of hosts may be started on one directory at any time, and each may be killed between any two
operations. Only hosts change the directory; a listener that is no host may be on the entry and may
go away.

`exclusive_of_reachable`: in every reachable state at most one host serves, clients reach it at the
socket it checked, and no host has removed the socket of a listener that was alive; and a directory
without a live listener can always be served again.
-/

set_option autoImplicit false

namespace Keylix.Verifier

open Keylix.Lib
open Keylix.Lib.Prog (Handler Safe Outcome propagate)

/-! ## Operations -/

inductive SocketError where
  | notFound
  | connectionRefused
  | other
  deriving DecidableEq

/-- The metadata of the entry at the path of the socket. -/
structure SocketStat where
  uid : Nat
  isSocket : Bool
  mode : Nat
  gid : Nat
  deriving DecidableEq

/-- The operations of a start. The group check reads the status of the process; opening the parent
gives its owner; opening the service reads the credentials and opens the two stores, which are not
in this directory; all others are on the lock or on the path of the socket. -/
inductive StartOp where
  | validateGroupTransportProcess (gid : Nat)
  | openSocketParent (trustedGid : Option Nat)
  | acquireExclusiveLock
  | openService
  | metadata
  | connect
  | removeFile
  | bind
  | setPermissions (mode : Nat)

def StartOp.Val : StartOp → Type
  | .openSocketParent _ => Except Unit Nat
  | .metadata => Except SocketError SocketStat
  | .connect => Except SocketError Unit
  | _ => Except Unit Unit

def startOps : Signature := ⟨StartOp, StartOp.Val⟩

/-! ## The start of a host -/

/-- The metadata of the entry. -/
def socketMetadata : Prog startOps (Except SocketError SocketStat) :=
  @Prog.perform startOps .metadata

def connectSocket : Prog startOps (Except SocketError Unit) := @Prog.perform startOps .connect

def removeSocket : Prog startOps (Except Unit Unit) := @Prog.perform startOps .removeFile

def validateSocketIdentity (ownerUid : Nat) (trustedGid : Option Nat) :
    Prog startOps (Except Unit Unit) :=
  propagate () socketMetadata fun stat =>
    if stat.uid ≠ ownerUid || !stat.isSocket || trustedGid.any fun gid => stat.gid ≠ gid then
      pure (.error ())
    else pure (.ok ())

def validateSocketMetadata (ownerUid socketMode : Nat) (trustedGid : Option Nat) :
    Prog startOps (Except Unit Unit) :=
  propagate () (validateSocketIdentity ownerUid trustedGid) fun _ =>
    propagate () socketMetadata fun stat =>
      if stat.mode ≠ socketMode then pure (.error ()) else pure (.ok ())

/-- Only a socket that refuses connections is removed. -/
def prepareSocketPath (ownerUid : Nat) (trustedGid : Option Nat) :
    Prog startOps (Except Unit Unit) := do
  match ← socketMetadata with
  | .error .notFound => pure (.ok ())
  | .error _ => pure (.error ())
  | .ok _ =>
      propagate () (validateSocketIdentity ownerUid trustedGid) fun _ => do
        match ← connectSocket with
        | .error .connectionRefused => removeSocket
        | .error .notFound => pure (.ok ())
        | _ => pure (.error ())

def socketMode (trustedGid : Option Nat) : Nat := if trustedGid.isSome then 0o660 else 0o600

/-- The checks of the socket that was bound. The mode is set in the private profile only. -/
def hardenSocket (ownerUid : Nat) (trustedGid : Option Nat) : Prog startOps (Except Unit Unit) :=
  if trustedGid.isNone then
    propagate () (@Prog.perform startOps (.setPermissions (socketMode trustedGid)) :
      Prog startOps (Except Unit Unit)) fun _ =>
        validateSocketMetadata ownerUid (socketMode trustedGid) trustedGid
  else validateSocketMetadata ownerUid (socketMode trustedGid) trustedGid

/-- A failure after the bind drops the guard, which removes the socket. -/
def guardSocket (checks : Prog startOps (Except Unit Unit)) : Prog startOps (Except Unit Unit) := do
  match ← checks with
  | .ok () => pure (.ok ())
  | .error () => do
      let _ ← removeSocket
      pure (.error ())

/-- The start of a host that has the lock. -/
def serveLocked (trustedGid : Option Nat) (ownerUid : Nat) : Prog startOps (Except Unit Unit) :=
  propagate () (@Prog.perform startOps .openService : Prog startOps (Except Unit Unit)) fun _ =>
    propagate () (prepareSocketPath ownerUid trustedGid) fun _ =>
      propagate () (@Prog.perform startOps .bind : Prog startOps (Except Unit Unit)) fun _ =>
        guardSocket (hardenSocket ownerUid trustedGid)

def openLocked (trustedGid : Option Nat) : Prog startOps (Except Unit Unit) :=
  propagate ()
    (@Prog.perform startOps (.openSocketParent trustedGid) : Prog startOps (Except Unit Nat))
    fun ownerUid =>
      propagate () (@Prog.perform startOps .acquireExclusiveLock : Prog startOps (Except Unit Unit))
        fun _ => serveLocked trustedGid ownerUid

/-- The function up to its loop over the connections: a host that returns without a failure is in
that loop. -/
def serve (trustedGid : Option Nat) : Prog startOps (Except Unit Unit) :=
  match trustedGid with
  | some gid =>
      propagate () (@Prog.perform startOps (.validateGroupTransportProcess gid) :
        Prog startOps (Except Unit Unit)) fun _ => openLocked trustedGid
  | none => openLocked trustedGid

/-! ## The directory -/

section Directory

variable {ι : Type}

/-- Who listens on a socket: a host that runs, or another process, such as a host that was killed
and whose descriptors are being closed. -/
inductive Listener (ι : Type) where
  | host (i : ι)
  | other

/-- The entry at the path of the socket. -/
structure SocketNode (ι : Type) where
  stat : SocketStat
  listener : Option (Listener ι)

/-- The directory of the socket. `evicted` is no part of it: it remembers that a host removed the
socket of another listener that was alive. -/
structure SocketDir (ι : Type) where
  lock : Option ι
  entry : Option (SocketNode ι)
  evicted : Prop

/-- The node has a listener that is not the host `i`. -/
def SocketNode.Foreign (node : SocketNode ι) (i : ι) : Prop :=
  ∃ listener, node.listener = some listener ∧ listener ≠ .host i

/-- The operations of the host `i`. Every operation may fail and then changes nothing. A connection
is refused only by a node without a listener; another listener may be gone by then. -/
def startHandler (i : ι) : Handler startOps (SocketDir ι)
  | .validateGroupTransportProcess _, s, _, s' => s' = s
  | .openSocketParent _, s, _, s' => s' = s
  | .acquireExclusiveLock, s, x, s' =>
      (x = .ok () ∧ s.lock = none ∧ s' = { s with lock := some i }) ∨ (x = .error () ∧ s' = s)
  | .openService, s, _, s' => s' = s
  | .metadata, s, x, s' =>
      s' = s ∧ ((s.entry = none ∧ x = .error .notFound) ∨ x = .error .other ∨
        ∃ node, s.entry = some node ∧ x = .ok node.stat)
  | .connect, s, x, s' =>
      (s' = s ∧ ((s.entry = none ∧ x = .error .notFound) ∨ x = .error .other ∨
        ∃ node, s.entry = some node ∧ node.listener.isSome ∧ x = .ok ())) ∨
      ∃ node, s.entry = some node ∧ (∀ j, node.listener ≠ some (.host j)) ∧
        x = .error .connectionRefused ∧ s' = { s with entry := some ⟨node.stat, none⟩ }
  | .removeFile, s, x, s' =>
      (x = .error () ∧ s' = s) ∨
      ∃ node, s.entry = some node ∧ x = .ok () ∧
        s' = { s with entry := none, evicted := s.evicted ∨ node.Foreign i }
  | .bind, s, x, s' =>
      (x = .error () ∧ s' = s) ∨
      ∃ stat, s.entry = none ∧ x = .ok () ∧ s' = { s with entry := some ⟨stat, some (.host i)⟩ }
  | .setPermissions mode, s, x, s' =>
      (x = .error () ∧ s' = s) ∨
      ∃ node, s.entry = some node ∧ x = .ok () ∧
        s' = { s with entry := some ⟨{ node.stat with mode := mode }, node.listener⟩ }

/-! ## One host that has the lock -/

/-- No live listener was evicted, and a host that listens has the lock. -/
structure DirInv (s : SocketDir ι) : Prop where
  kept : ¬ s.evicted
  owned : ∀ node, s.entry = some node → ∀ i, node.listener = some (.host i) → s.lock = some i

/-- The host has the lock. -/
structure HasLock (i : ι) (s : SocketDir ι) : Prop extends DirInv s where
  lock : s.lock = some i

/-- The entry is a socket of the host for its clients. -/
def Listens (trustedGid : Option Nat) (i : ι) (s : SocketDir ι) : Prop :=
  ∃ stat, s.entry = some ⟨stat, some (.host i)⟩ ∧ stat.isSocket = true ∧
    stat.mode = socketMode trustedGid ∧ ∀ gid, trustedGid = some gid → stat.gid = gid

/-- A start that succeeds leaves the socket of the host. -/
def Started (trustedGid : Option Nat) (i : ι) : Except Unit Unit → SocketDir ι → Prop
  | .error _, _ => True
  | .ok _, s => Listens trustedGid i s

variable {i : ι} {s : SocketDir ι}

/-- An operation that leaves the directory alone. -/
theorem safe_same {op : startOps.Op} {T : startOps.Res op → SocketDir ι → Prop} (hs : HasLock i s)
    (hsame : ∀ x s', startHandler i op s x s' → s' = s)
    (hT : ∀ x, startHandler i op s x s → T x s) :
    Safe (startHandler i) (HasLock i) T (Prog.perform op) s := by
  refine Safe.perform hs ?_
  intro x s' hx
  obtain rfl := hsame x s' hx
  exact ⟨hs, hT x hx⟩

theorem safe_socketMetadata (hs : HasLock i s) :
    Safe (startHandler i) (HasLock i) (fun x s' => s' = s ∧
      ∀ stat, x = .ok stat → ∃ node, s.entry = some node ∧ stat = node.stat) socketMetadata s := by
  refine Safe.perform hs ?_
  rintro x s' ⟨rfl, hx⟩
  refine ⟨hs, rfl, ?_⟩
  rintro stat rfl
  rcases hx with ⟨-, hx⟩ | hx | ⟨node, hnode, hx⟩
  · cases hx
  · cases hx
  · cases hx
    exact ⟨node, hnode, rfl⟩

/-- A removal after which no other listener was alive. -/
theorem safe_removeSocket (hs : HasLock i s)
    (hsafe : ∀ node, s.entry = some node → ¬ node.Foreign i) :
    Safe (startHandler i) (HasLock i)
      (fun x s' => x = .ok () → s'.entry = none) removeSocket s := by
  refine Safe.perform hs ?_
  rintro x s' (⟨rfl, rfl⟩ | ⟨node, hnode, rfl, rfl⟩)
  · exact ⟨hs, fun h => by cases h⟩
  · refine ⟨⟨⟨?_, ?_⟩, hs.lock⟩, fun _ => rfl⟩
    · rintro (h | h)
      · exact hs.kept h
      · exact hsafe node hnode h
    · intro node' h
      cases h

theorem safe_connectSocket (hs : HasLock i s) :
    Safe (startHandler i) (HasLock i) (fun x s' => x = .error .connectionRefused →
      ∀ node, s'.entry = some node → node.listener = none) connectSocket s := by
  refine Safe.perform hs ?_
  rintro x s' (⟨rfl, hx⟩ | ⟨node, hnode, hlistener, rfl, rfl⟩)
  · refine ⟨hs, ?_⟩
    rintro rfl
    rcases hx with ⟨-, hx⟩ | hx | ⟨node, -, -, hx⟩
    · cases hx
    · cases hx
    · cases hx
  · refine ⟨⟨⟨hs.kept, ?_⟩, hs.lock⟩, ?_⟩
    · rintro node' h j hj
      cases h
      cases hj
    · rintro - node' h
      cases h
      rfl

theorem safe_validateSocketIdentity (hs : HasLock i s) (ownerUid : Nat) (trustedGid : Option Nat) :
    Safe (startHandler i) (HasLock i) (fun x s' => s' = s ∧ (x = .ok () →
      ∃ node, s.entry = some node ∧ node.stat.isSocket = true ∧
        ∀ gid, trustedGid = some gid → node.stat.gid = gid))
      (validateSocketIdentity ownerUid trustedGid) s := by
  apply Safe.propagate
  refine (safe_socketMetadata hs).mono (fun _ h => h) ?_
  rintro x s' hs' ⟨rfl, hx⟩
  cases x with
  | error e => exact ⟨rfl, fun h => by cases h⟩
  | ok stat =>
    obtain ⟨node, hnode, rfl⟩ := hx stat rfl
    simp only
    split
    · exact ⟨hs', rfl, fun h => by cases h⟩
    next hchecks =>
    refine ⟨hs', rfl, fun _ => ⟨node, hnode, ?_, ?_⟩⟩
    · simp only [Bool.or_eq_true, not_or, Bool.not_eq_true', Bool.not_eq_false] at hchecks
      exact hchecks.1.2
    · rintro gid rfl
      simp only [Bool.or_eq_true, not_or, Option.any_some, decide_eq_true_eq, not_not] at hchecks
      exact hchecks.2

/-- Whatever the preparation does, no live listener is evicted. -/
theorem safe_prepareSocketPath (hs : HasLock i s) (ownerUid : Nat) (trustedGid : Option Nat) :
    Safe (startHandler i) (HasLock i) (fun _ _ => True)
      (prepareSocketPath ownerUid trustedGid) s := by
  refine (safe_socketMetadata hs).bind ?_
  rintro x s' hs' ⟨rfl, -⟩
  split
  · exact ⟨hs', trivial⟩
  · exact ⟨hs', trivial⟩
  next stat =>
  apply Safe.propagate
  refine (safe_validateSocketIdentity hs' ownerUid trustedGid).mono (fun _ h => h) ?_
  rintro x s₁ hs₁ ⟨rfl, -⟩
  cases x with
  | error e => trivial
  | ok u =>
    refine (safe_connectSocket hs₁).bind ?_
    intro x s₂ hs₂ hrefused
    split
    · -- the entry had no listener when it refused the connection, and only this host has the lock
      refine (safe_removeSocket hs₂ ?_).mono (fun _ h => h) fun _ _ _ _ => trivial
      rintro node hnode ⟨listener, hlistener, -⟩
      rw [hrefused rfl node hnode] at hlistener
      cases hlistener
    · exact ⟨hs₂, trivial⟩
    · exact ⟨hs₂, trivial⟩

theorem safe_validateSocketMetadata (hs : HasLock i s) (ownerUid : Nat) (trustedGid : Option Nat)
    (hown : ∀ node, s.entry = some node → node.listener = some (.host i)) :
    Safe (startHandler i) (HasLock i) (fun x s' => s' = s ∧ Started trustedGid i x s)
      (validateSocketMetadata ownerUid (socketMode trustedGid) trustedGid) s := by
  apply Safe.propagate
  refine (safe_validateSocketIdentity hs ownerUid trustedGid).mono (fun _ h => h) ?_
  rintro x s₁ hs₁ ⟨rfl, hidentity⟩
  cases x with
  | error e => exact ⟨rfl, trivial⟩
  | ok u =>
    obtain ⟨node, hnode, hsocket, hgid⟩ := hidentity rfl
    apply Safe.propagate
    refine (safe_socketMetadata hs₁).mono (fun _ h => h) ?_
    rintro x s₂ hs₂ ⟨rfl, hstat⟩
    cases x with
    | error e => exact ⟨rfl, trivial⟩
    | ok stat =>
      obtain ⟨node', hnode', rfl⟩ := hstat stat rfl
      rw [hnode] at hnode'
      cases hnode'
      simp only
      split
      · exact ⟨hs₂, rfl, trivial⟩
      next hmode =>
      refine ⟨hs₂, rfl, node.stat, ?_, hsocket, not_not.1 hmode, hgid⟩
      rw [hnode, ← hown node hnode]

/-- The socket stays the one of the host while it is hardened. -/
theorem safe_hardenSocket (hs : HasLock i s) (ownerUid : Nat) (trustedGid : Option Nat)
    (hown : ∀ node, s.entry = some node → node.listener = some (.host i)) :
    Safe (startHandler i) (HasLock i) (fun x s' =>
      (∀ node, s'.entry = some node → node.listener = some (.host i)) ∧ Started trustedGid i x s')
      (hardenSocket ownerUid trustedGid) s := by
  have hvalidate : ∀ {s₁ : SocketDir ι}, HasLock i s₁ →
      (∀ node, s₁.entry = some node → node.listener = some (.host i)) →
      Safe (startHandler i) (HasLock i) (fun x s' =>
        (∀ node, s'.entry = some node → node.listener = some (.host i)) ∧ Started trustedGid i x s')
        (validateSocketMetadata ownerUid (socketMode trustedGid) trustedGid) s₁ := by
    intro s₁ hs₁ hown₁
    refine (safe_validateSocketMetadata hs₁ ownerUid trustedGid hown₁).mono (fun _ h => h) ?_
    rintro x s₂ - ⟨rfl, hstarted⟩
    exact ⟨hown₁, hstarted⟩
  unfold hardenSocket
  split
  · apply Safe.propagate
    refine Safe.perform hs ?_
    rintro x s' (⟨rfl, rfl⟩ | ⟨node, hnode, rfl, rfl⟩)
    · exact ⟨hs, hown, trivial⟩
    · -- the mode of the entry changes, its listener does not
      have howned : ∀ node',
        some (⟨{ node.stat with mode := socketMode trustedGid }, node.listener⟩ :
          SocketNode ι) = some node' → node'.listener = some (.host i) := by
        rintro node' h
        cases h
        exact hown node hnode
      have hs' : HasLock i { s with entry := some ⟨{ node.stat with mode := socketMode trustedGid },
          node.listener⟩ } := by
        refine ⟨⟨hs.kept, ?_⟩, hs.lock⟩
        rintro node' h j hj
        cases h
        exact hs.owned node hnode j hj
      exact ⟨hs', hvalidate hs' howned⟩
  · exact hvalidate hs hown

theorem safe_guardSocket {checks : Prog startOps (Except Unit Unit)} {trustedGid : Option Nat}
    (h : Safe (startHandler i) (HasLock i) (fun x s' =>
      (∀ node, s'.entry = some node → node.listener = some (.host i)) ∧ Started trustedGid i x s')
      checks s) :
    Safe (startHandler i) (HasLock i) (Started trustedGid i) (guardSocket checks) s := by
  refine h.bind ?_
  rintro x s' hs' ⟨hown, hstarted⟩
  cases x with
  | ok u => exact ⟨hs', hstarted⟩
  | error e =>
    refine (safe_removeSocket hs' ?_).bind fun _ s₁ hs₁ _ => ⟨hs₁, trivial⟩
    rintro node hnode ⟨listener, hlistener, hne⟩
    rw [hown node hnode] at hlistener
    exact hne (Option.some.inj hlistener).symm

/-- **A host that has the lock evicts no live listener, and serves at its own socket.** -/
theorem safe_serveLocked (hs : HasLock i s) (ownerUid : Nat) (trustedGid : Option Nat) :
    Safe (startHandler i) (HasLock i) (Started trustedGid i)
      (serveLocked trustedGid ownerUid) s := by
  apply Safe.propagate
  refine safe_same hs (fun x s' h => h) ?_
  intro x _
  cases x with
  | error e => trivial
  | ok u =>
    apply Safe.propagate
    refine (safe_prepareSocketPath hs ownerUid trustedGid).mono (fun _ h => h) ?_
    intro x s₁ hs₁ _
    cases x with
    | error e => trivial
    | ok u =>
      apply Safe.propagate
      refine Safe.perform hs₁ ?_
      rintro x s' (⟨rfl, rfl⟩ | ⟨stat, hfree, rfl, rfl⟩)
      · exact ⟨hs₁, trivial⟩
      · have hown : ∀ node, some (⟨stat, some (.host i)⟩ : SocketNode ι) = some node →
            node.listener = some (.host i) := by
          rintro node h
          cases h
          rfl
        have hs₂ : HasLock i { s₁ with entry := some ⟨stat, some (.host i)⟩ } := by
          refine ⟨⟨hs₁.kept, ?_⟩, hs₁.lock⟩
          rintro node h j hj
          cases h
          cases hj
          exact hs₁.lock
        exact ⟨hs₂, safe_guardSocket (safe_hardenSocket hs₂ ownerUid trustedGid hown)⟩

end Directory

/-! ## Hosts before the lock -/

/-- The operations that neither read nor change the directory. -/
def StartOp.BeforeLock : StartOp → Prop
  | .validateGroupTransportProcess _ | .openSocketParent _ => True
  | _ => False

/-- A host without the lock: it does nothing to the directory, and gives up or goes on with the
start when it has taken the lock. -/
inductive Waiting (trustedGid : Option Nat) : Prog startOps (Except Unit Unit) → Prop where
  | refused : Waiting trustedGid (.ret (.error ()))
  | check {op : startOps.Op} {k : startOps.Res op → Prog startOps (Except Unit Unit)}
      (h : StartOp.BeforeLock op) (hk : ∀ x, Waiting trustedGid (k x)) :
      Waiting trustedGid (.call op k)
  | lock {k : Except Unit Unit → Prog startOps (Except Unit Unit)}
      (herror : Waiting trustedGid (k (.error ()))) {ownerUid : Nat}
      (hok : k (.ok ()) = serveLocked trustedGid ownerUid) :
      Waiting trustedGid (@Prog.call startOps _ .acquireExclusiveLock k)

theorem waiting_openLocked (trustedGid : Option Nat) :
    Waiting trustedGid (openLocked trustedGid) := by
  refine .check trivial ?_
  intro x
  cases x with
  | error e => exact .refused
  | ok ownerUid => exact .lock .refused rfl

theorem waiting_serve (trustedGid : Option Nat) : Waiting trustedGid (serve trustedGid) := by
  cases trustedGid with
  | none => exact waiting_openLocked none
  | some gid =>
    refine .check trivial ?_
    intro x
    cases x with
    | error e => exact .refused
    | ok u => exact waiting_openLocked (some gid)

/-! ## Hosts of one directory -/

/-- The hosts that run, each with the rest of its start, and the directory. -/
structure HostSystem (ι : Type) where
  processes : ι → Option (Prog startOps (Except Unit Unit))
  dir : SocketDir ι

section Hosts

variable {ι : Type} [DecidableEq ι]

/-- The end of a process, killed or not: its lock is free, and its listener is one that is going
away. -/
def SocketDir.release (s : SocketDir ι) (i : ι) : SocketDir ι :=
  { s with
    lock := if s.lock = some i then none else s.lock
    entry := s.entry.map fun node => ⟨node.stat, node.listener.map fun
      | .host j => if j = i then .other else .host j
      | .other => .other⟩ }

def HostSystem.set (c : HostSystem ι) (i : ι) (p : Option (Prog startOps (Except Unit Unit)))
    (dir : SocketDir ι) : HostSystem ι :=
  ⟨Function.update c.processes i p, dir⟩

/-- A host is started, performs one operation, or ends, by a failure or because it is killed. The
hosts may be of different profiles. -/
inductive HostStep (gids : ι → Option Nat) : HostSystem ι → HostSystem ι → Prop where
  | start {c : HostSystem ι} {i : ι} (h : c.processes i = none) :
      HostStep gids c (c.set i (some (serve (gids i))) c.dir)
  | perform {c : HostSystem ι} {i : ι} {op : startOps.Op}
      {k : startOps.Res op → Prog startOps (Except Unit Unit)} {x : startOps.Res op}
      {dir : SocketDir ι}
      (h : c.processes i = some (.call op k)) (hx : startHandler i op c.dir x dir) :
      HostStep gids c (c.set i (some (k x)) dir)
  | stop {c : HostSystem ι} {i : ι} {p : Prog startOps (Except Unit Unit)}
      (h : c.processes i = some p) : HostStep gids c (c.set i none (c.dir.release i))

abbrev HostReach (gids : ι → Option Nat) : HostSystem ι → HostSystem ι → Prop :=
  Relation.ReflTransGen (HostStep gids)

/-- A directory before the first host: any entry with any listener, but no host has the lock. -/
structure Unserved (s : SocketDir ι) : Prop where
  kept : ¬ s.evicted
  lock : s.lock = none
  noHost : ∀ node, s.entry = some node → ∀ i, node.listener ≠ some (.host i)

/-- The host is in its loop over the connections. -/
def HostSystem.Serving (c : HostSystem ι) (i : ι) : Prop := c.processes i = some (.ret (.ok ()))

/-- The host with the lock is safe from where it is, and every other host is before the lock. -/
structure HostInv (gids : ι → Option Nat) (c : HostSystem ι) : Prop where
  dir : DirInv c.dir
  holder : ∀ i, c.dir.lock = some i → ∃ p, c.processes i = some p ∧
    Safe (startHandler i) (HasLock i) (Started (gids i) i) p c.dir
  waiting : ∀ i p, c.processes i = some p → c.dir.lock ≠ some i → Waiting (gids i) p

section Steps

variable {gids : ι → Option Nat} {c : HostSystem ι} {i : ι}

@[simp] theorem HostSystem.set_self (c : HostSystem ι) (i : ι)
    (p : Option (Prog startOps (Except Unit Unit))) (dir : SocketDir ι) :
    (c.set i p dir).processes i = p := Function.update_self ..

theorem HostSystem.set_of_ne {j : ι} (h : j ≠ i) (c : HostSystem ι)
    (p : Option (Prog startOps (Except Unit Unit))) (dir : SocketDir ι) :
    (c.set i p dir).processes j = c.processes j := Function.update_of_ne h ..

/-- A host without the lock ends without a trace. -/
theorem release_of_ne {s : SocketDir ι} (hs : DirInv s) (hlock : s.lock ≠ some i) :
    s.release i = s := by
  obtain ⟨lock, entry, evicted⟩ := s
  have howned := hs.owned
  simp only at howned hlock
  simp only [SocketDir.release, if_neg hlock, SocketDir.mk.injEq, true_and, and_true]
  cases entry with
  | none => rfl
  | some node =>
    obtain ⟨stat, listener⟩ := node
    cases listener with
    | none => rfl
    | some listener =>
      cases listener with
      | other => rfl
      | host j =>
        have hne : j ≠ i := by
          rintro rfl
          exact hlock (howned _ rfl j rfl)
        simp [hne]

/-- A step of a host that leaves the directory alone. -/
theorem HostInv.quiet (hc : HostInv gids c) {p : Option (Prog startOps (Except Unit Unit))}
    (hlock : c.dir.lock ≠ some i) (hp : ∀ q, p = some q → Waiting (gids i) q) :
    HostInv gids (c.set i p c.dir) := by
  refine ⟨hc.dir, ?_, ?_⟩
  · intro j hj
    have hne : j ≠ i := by
      rintro rfl
      exact hlock hj
    rw [HostSystem.set_of_ne hne]
    exact hc.holder j hj
  · intro j q hq hj
    by_cases hji : j = i
    · subst hji
      rw [HostSystem.set_self] at hq
      exact hp q hq
    · rw [HostSystem.set_of_ne hji] at hq
      exact hc.waiting j q hq hj

/-- A step of the host that has the lock, or takes it. -/
theorem HostInv.locked (hc : HostInv gids c) {p : Prog startOps (Except Unit Unit)}
    {dir : SocketDir ι} (hdir : HasLock i dir) (hfree : c.dir.lock = none ∨ c.dir.lock = some i)
    (hp : Safe (startHandler i) (HasLock i) (Started (gids i) i) p dir) :
    HostInv gids (c.set i (some p) dir) := by
  refine ⟨hdir.toDirInv, ?_, ?_⟩
  · intro j hj
    have hsame : j = i := Option.some.inj (hj.symm.trans hdir.lock)
    subst hsame
    exact ⟨p, HostSystem.set_self .., hp⟩
  · intro j q hq hj
    have hji : j ≠ i := by
      rintro rfl
      exact hj hdir.lock
    rw [HostSystem.set_of_ne hji] at hq
    refine hc.waiting j q hq ?_
    rcases hfree with h | h
    · rw [h]
      exact fun h => by cases h
    · rw [h]
      exact fun h => hji (Option.some.inj h).symm

theorem HostInv.start (hc : HostInv gids c) (hi : c.processes i = none) :
    HostInv gids (c.set i (some (serve (gids i))) c.dir) := by
  have hlock : c.dir.lock ≠ some i := by
    intro h
    obtain ⟨p, hp, -⟩ := hc.holder i h
    rw [hi] at hp
    cases hp
  refine hc.quiet hlock ?_
  rintro q hq
  cases hq
  exact waiting_serve (gids i)

omit [DecidableEq ι] in
theorem StartOp.BeforeLock.same {op : startOps.Op} (h : StartOp.BeforeLock op) {s s' : SocketDir ι}
    {x : startOps.Res op} (hx : startHandler i op s x s') : s' = s := by
  cases op with
  | validateGroupTransportProcess gid => exact hx
  | openSocketParent gid => exact hx
  | acquireExclusiveLock => cases h
  | openService => cases h
  | metadata => cases h
  | connect => cases h
  | removeFile => cases h
  | bind => cases h
  | setPermissions mode => cases h

/-- An operation of a host without the lock, which may take it. -/
theorem HostInv.wait (hc : HostInv gids c) {op : startOps.Op}
    {k : startOps.Res op → Prog startOps (Except Unit Unit)} {x : startOps.Res op}
    {dir : SocketDir ι} (hlock : c.dir.lock ≠ some i) (hwaiting : Waiting (gids i) (.call op k))
    (hx : startHandler i op c.dir x dir) : HostInv gids (c.set i (some (k x)) dir) := by
  cases hwaiting with
  | @check op k hbefore hk =>
    rw [hbefore.same hx]
    refine hc.quiet hlock ?_
    rintro q hq
    cases hq
    exact hk x
  | @lock k herror ownerUid hok =>
    rcases hx with ⟨rfl, hfree, rfl⟩ | ⟨rfl, rfl⟩
    · -- the lock was free, so that no host was listening
      have hdir : HasLock i { c.dir with lock := some i } := by
        refine ⟨⟨hc.dir.kept, ?_⟩, rfl⟩
        intro node hnode j hj
        have howned := hc.dir.owned node hnode j hj
        rw [hfree] at howned
        cases howned
      rw [hok]
      exact hc.locked hdir (Or.inl hfree) (safe_serveLocked hdir ownerUid (gids i))
    · refine hc.quiet hlock ?_
      rintro q hq
      cases hq
      exact herror

/-- The end of the host with the lock: no host listens any more. -/
theorem DirInv.release {s : SocketDir ι} (hs : DirInv s) (hlock : s.lock = some i) :
    DirInv (s.release i) := by
  refine ⟨hs.kept, ?_⟩
  intro node hnode j hj
  obtain ⟨node', hentry, rfl⟩ := Option.map_eq_some_iff.1 hnode
  obtain ⟨listener, hlistener, hhost⟩ := Option.map_eq_some_iff.1 hj
  cases listener with
  | other => cases hhost
  | host j' =>
    have howned := hs.owned node' hentry j' hlistener
    rw [hlock] at howned
    cases howned
    simp at hhost

theorem HostInv.stop (hc : HostInv gids c) : HostInv gids (c.set i none (c.dir.release i)) := by
  by_cases hlock : c.dir.lock = some i
  · have hfree : (c.dir.release i).lock = none := if_pos hlock
    refine ⟨hc.dir.release hlock, ?_, ?_⟩
    · intro j hj
      have hnone : (c.dir.release i).lock = some j := hj
      rw [hfree] at hnone
      cases hnone
    · intro j q hq hj
      have hji : j ≠ i := by
        rintro rfl
        rw [HostSystem.set_self] at hq
        cases hq
      rw [HostSystem.set_of_ne hji] at hq
      refine hc.waiting j q hq ?_
      rw [hlock]
      exact fun h => hji (Option.some.inj h).symm
  · rw [release_of_ne hc.dir hlock]
    refine hc.quiet hlock ?_
    rintro q hq
    cases hq

/-- **Every step keeps the invariant.** -/
theorem HostInv.step {d : HostSystem ι} (hc : HostInv gids c) (hstep : HostStep gids c d) :
    HostInv gids d := by
  cases hstep with
  | start hi => exact hc.start hi
  | @perform i op k x dir hi hx =>
    by_cases hlock : c.dir.lock = some i
    · obtain ⟨p, hp, hsafe⟩ := hc.holder i hlock
      rw [hi] at hp
      cases hp
      have hnext := hsafe.2 x dir hx
      exact hc.locked hnext.inv (Or.inr hlock) hnext
    · exact hc.wait hlock (hc.waiting i _ hi hlock) hx
  | stop hi => exact hc.stop

omit [DecidableEq ι] in
theorem hostInv_initial {dir : SocketDir ι} (h : Unserved dir) :
    HostInv gids ⟨fun _ => none, dir⟩ where
  dir := ⟨h.kept, fun node hnode i hi => absurd hi (h.noHost node hnode i)⟩
  holder i hi := by
    rw [h.lock] at hi
    cases hi
  waiting i p hp := by cases hp

theorem hostInv_of_reachable {dir : SocketDir ι} (h : Unserved dir) {d : HostSystem ι}
    (hd : HostReach gids ⟨fun _ => none, dir⟩ d) : HostInv gids d := by
  induction hd with
  | refl => exact hostInv_initial h
  | tail _ hstep ih => exact ih.step hstep

/-- A host that serves has the lock and its socket. -/
theorem HostInv.serving (hc : HostInv gids c) (hi : c.Serving i) :
    c.dir.lock = some i ∧ Listens (gids i) i c.dir := by
  have hlock : c.dir.lock = some i := by
    by_contra hne
    cases hc.waiting i _ hi hne
  obtain ⟨p, hp, hsafe⟩ := hc.holder i hlock
  rw [hi] at hp
  cases hp
  exact ⟨hlock, hsafe.2⟩

end Steps

/-! ## A start that succeeds -/

section Recovery

variable {i : ι} {s : SocketDir ι} {trustedGid : Option Nat}

omit [DecidableEq ι] in
theorem outcome_propagate {ε α β : Type} {p : Prog startOps (Except ε α)}
    {f : α → Prog startOps (Except Unit β)} {s₁ s' : SocketDir ι} {a : α} {r : Except Unit β}
    {H : Handler startOps (SocketDir ι)} (hp : Outcome H p s (.ok a) s₁)
    (hf : Outcome H (f a) s₁ r s') : Outcome H (propagate () p f) s r s' :=
  Prog.outcome_bind.2 ⟨.ok a, s₁, hp, hf⟩

/-- A socket with the identity that the host requires. -/
def Identified (ownerUid : Nat) (trustedGid : Option Nat) (stat : SocketStat) : Prop :=
  stat.uid = ownerUid ∧ stat.isSocket = true ∧ ∀ gid, trustedGid = some gid → stat.gid = gid

omit [DecidableEq ι] in
theorem outcome_socketMetadata {node : SocketNode ι} (hentry : s.entry = some node) :
    Outcome (startHandler i) socketMetadata s (.ok node.stat) s :=
  ⟨_, s, ⟨rfl, Or.inr (Or.inr ⟨node, hentry, rfl⟩)⟩, rfl, rfl⟩

omit [DecidableEq ι] in
theorem outcome_validateSocketIdentity {node : SocketNode ι} {ownerUid : Nat}
    (hentry : s.entry = some node) (hid : Identified ownerUid trustedGid node.stat) :
    Outcome (startHandler i) (validateSocketIdentity ownerUid trustedGid) s (.ok ()) s := by
  obtain ⟨huid, hsocket, hgid⟩ := hid
  refine outcome_propagate (outcome_socketMetadata hentry) ?_
  have hany : (trustedGid.any fun gid => decide (node.stat.gid ≠ gid)) = false := by
    cases trustedGid with
    | none => rfl
    | some gid => simp [hgid gid rfl]
  simp only [huid, hsocket, hany, ne_eq, not_true_eq_false, decide_false, Bool.not_true,
    Bool.or_self, Bool.false_eq_true, if_false]
  exact ⟨rfl, rfl⟩

omit [DecidableEq ι] in
/-- The path of a socket without a live host is made free. -/
theorem outcome_prepareSocketPath {ownerUid : Nat}
    (hfree : ∀ node, s.entry = some node → (∀ j, node.listener ≠ some (.host j)) ∧
      Identified ownerUid trustedGid node.stat) :
    ∃ s', Outcome (startHandler i) (prepareSocketPath ownerUid trustedGid) s (.ok ()) s' ∧
      s'.entry = none := by
  cases hentry : s.entry with
  | none =>
    exact ⟨s, Prog.outcome_bind.2 ⟨.error .notFound, s,
      ⟨_, s, ⟨rfl, Or.inl ⟨hentry, rfl⟩⟩, rfl, rfl⟩, rfl, rfl⟩, hentry⟩
  | some node =>
    obtain ⟨hhost, hid⟩ := hfree node hentry
    refine ⟨{ s with entry := none, evicted := s.evicted ∨ (⟨node.stat, none⟩ :
      SocketNode ι).Foreign i }, Prog.outcome_bind.2 ⟨.ok node.stat, s,
        outcome_socketMetadata hentry, ?_⟩, rfl⟩
    refine outcome_propagate (outcome_validateSocketIdentity hentry hid) ?_
    refine Prog.outcome_bind.2
      ⟨.error .connectionRefused, { s with entry := some ⟨node.stat, none⟩ },
      ⟨_, _, Or.inr ⟨node, hentry, hhost, rfl, rfl⟩, rfl, rfl⟩, ?_⟩
    exact ⟨_, _, Or.inr ⟨_, rfl, rfl, rfl⟩, rfl, rfl⟩

omit [DecidableEq ι] in
theorem outcome_validateSocketMetadata {node : SocketNode ι} {ownerUid : Nat}
    (hentry : s.entry = some node) (hid : Identified ownerUid trustedGid node.stat)
    (hmode : node.stat.mode = socketMode trustedGid) :
    Outcome (startHandler i) (validateSocketMetadata ownerUid (socketMode trustedGid) trustedGid) s
      (.ok ()) s := by
  refine outcome_propagate (outcome_validateSocketIdentity hentry hid) ?_
  refine outcome_propagate (outcome_socketMetadata hentry) ?_
  simp only [hmode, ne_eq, not_true_eq_false, if_false]
  exact ⟨rfl, rfl⟩

omit [DecidableEq ι] in
/-- The new socket passes its checks when the process creates it with the expected identity. -/
theorem outcome_hardenSocket {ownerUid : Nat} {stat : SocketStat}
    (hentry : s.entry = some ⟨stat, some (.host i)⟩) (hid : Identified ownerUid trustedGid stat)
    (hmode : stat.mode = socketMode trustedGid) :
    ∃ s', Outcome (startHandler i) (hardenSocket ownerUid trustedGid) s (.ok ()) s' := by
  unfold hardenSocket
  split
  · refine ⟨{ s with entry := some ⟨{ stat with mode := socketMode trustedGid }, some (.host i)⟩ },
      outcome_propagate ⟨_, _, Or.inr ⟨_, hentry, rfl, rfl⟩, rfl, rfl⟩ ?_⟩
    exact outcome_validateSocketMetadata rfl hid rfl
  · exact ⟨s, outcome_validateSocketMetadata hentry hid hmode⟩

omit [DecidableEq ι] in
/-- A host can start in a directory that no host has locked, when the entry is a dead socket. -/
theorem exists_outcome_serve {ownerUid : Nat} (hlock : s.lock = none)
    (hfree : ∀ node, s.entry = some node → (∀ j, node.listener ≠ some (.host j)) ∧
      Identified ownerUid trustedGid node.stat) :
    ∃ s', Outcome (startHandler i) (serve trustedGid) s (.ok ()) s' := by
  obtain ⟨s₁, hprepare, hentry⟩ :=
    @outcome_prepareSocketPath ι i { s with lock := some i } trustedGid
    ownerUid hfree
  obtain ⟨stat, hid, hmode⟩ : ∃ stat, Identified ownerUid trustedGid stat ∧
      stat.mode = socketMode trustedGid := by
    refine ⟨⟨ownerUid, true, socketMode trustedGid, trustedGid.getD 0⟩, ⟨rfl, rfl, ?_⟩, rfl⟩
    rintro gid rfl
    rfl
  obtain ⟨s', hharden⟩ := @outcome_hardenSocket ι i { s₁ with entry := some ⟨stat, some (.host i)⟩ }
    trustedGid ownerUid stat rfl hid hmode
  have hbind : Outcome (startHandler i) (@Prog.perform startOps .bind) s₁ (.ok ())
      { s₁ with entry := some ⟨stat, some (.host i)⟩ } :=
    ⟨.ok (), _, Or.inr ⟨stat, hentry, rfl, rfl⟩, rfl, rfl⟩
  have hlocked : Outcome (startHandler i) (serveLocked trustedGid ownerUid)
      { s with lock := some i } (.ok ()) s' := by
    refine outcome_propagate ⟨.ok (), _, rfl, rfl, rfl⟩ ?_
    refine outcome_propagate hprepare ?_
    exact outcome_propagate hbind (Prog.outcome_bind.2 ⟨.ok (), s', hharden, rfl, rfl⟩)
  have hopen : Outcome (startHandler i) (openLocked trustedGid) s (.ok ()) s' := by
    refine outcome_propagate ⟨.ok ownerUid, s, rfl, rfl, rfl⟩ ?_
    exact outcome_propagate ⟨.ok (), _, Or.inl ⟨rfl, hlock, rfl⟩, rfl, rfl⟩ hlocked
  refine ⟨s', ?_⟩
  cases trustedGid with
  | none => exact hopen
  | some gid => exact outcome_propagate ⟨.ok (), s, rfl, rfl, rfl⟩ hopen

/-- A run of one host is a run of the system. -/
theorem hostReach_of_outcome {gids : ι → Option Nat} {c : HostSystem ι}
    {p : Prog startOps (Except Unit Unit)} {r : Except Unit Unit} {dir : SocketDir ι}
    (hp : c.processes i = some p) (h : Outcome (startHandler i) p c.dir r dir) :
    HostReach gids c (c.set i (some (.ret r)) dir) := by
  induction p generalizing c with
  | ret a =>
    obtain ⟨rfl, rfl⟩ := h
    have hsame : c.set i (some (.ret r)) c.dir = c := by
      unfold HostSystem.set
      rw [← hp, Function.update_eq_self]
    rw [hsame]
  | call op k ih =>
    obtain ⟨x, s₁, hx, h⟩ := h
    have hrest := @ih x (c.set i (some (k x)) s₁) (HostSystem.set_self ..) h
    have hset : (c.set i (some (k x)) s₁).set i (some (.ret r)) dir =
        c.set i (some (.ret r)) dir := by
      simp [HostSystem.set]
    rw [hset] at hrest
    exact hrest.head (.perform hp hx)

end Recovery

/-- **At most one host serves, at its own socket, and no live listener is evicted.** From a
directory that no host has locked, whatever hosts are started, wherever each is killed, and
whichever operations fail: in every reachable state at most one host is in its loop, it has the
lock, and the entry is its own socket with the group and mode of its profile; no host ever removed a
socket that another listener was on; and from every reachable state without a lock in which the
entry is free or a socket of the owner, a host that does not run can be started and serve. -/
theorem exclusive_of_reachable (gids : ι → Option Nat) {dir : SocketDir ι} (h : Unserved dir)
    {c : HostSystem ι} (hc : HostReach gids ⟨fun _ => none, dir⟩ c) :
    (∀ i j, c.Serving i → c.Serving j → i = j) ∧
    (∀ i, c.Serving i → c.dir.lock = some i ∧ Listens (gids i) i c.dir) ∧
    ¬ c.dir.evicted ∧
    ∀ i ownerUid, c.processes i = none → c.dir.lock = none →
      (∀ node, c.dir.entry = some node → Identified ownerUid (gids i) node.stat) →
      ∃ d, HostReach gids c d ∧ d.Serving i := by
  have hinv := hostInv_of_reachable h hc
  refine ⟨?_, fun i hi => hinv.serving hi, hinv.dir.kept, ?_⟩
  · intro i j hi hj
    have hlock := (hinv.serving hi).1
    rw [(hinv.serving hj).1] at hlock
    exact (Option.some.inj hlock).symm
  · intro i ownerUid hidle hlock hentry
    have hfree : ∀ node, c.dir.entry = some node → (∀ j, node.listener ≠ some (.host j)) ∧
        Identified ownerUid (gids i) node.stat := by
      intro node hnode
      refine ⟨?_, hentry node hnode⟩
      intro j hj
      have howned := hinv.dir.owned node hnode j hj
      rw [hlock] at howned
      cases howned
    obtain ⟨dir', hserve⟩ := @exists_outcome_serve ι i c.dir (gids i) ownerUid hlock hfree
    have hrun := @hostReach_of_outcome ι _ i gids (c.set i (some (serve (gids i))) c.dir) _ _ dir'
      (HostSystem.set_self ..) hserve
    exact ⟨_, hrun.head (.start hidle), HostSystem.set_self ..⟩

/-- The directory that a dead host left behind. -/
def staleDirectory : SocketDir Bool where
  lock := none
  entry := some ⟨⟨1000, true, 0o600, 1000⟩, none⟩
  evicted := False

theorem unserved_staleDirectory : Unserved staleDirectory where
  kept h := h
  lock := rfl
  noHost node h i := by
    cases h
    exact fun h => by cases h

/-- One of two hosts is started there and serves alone. -/
theorem exclusive_of_reachable_restart :
    ∃ d, HostReach (fun _ => none) ⟨fun _ => none, staleDirectory⟩ d ∧ d.Serving true ∧
      ¬ d.Serving false ∧ Listens none true d.dir := by
  obtain ⟨-, -, -, hstart⟩ :=
    exclusive_of_reachable (fun _ => none) unserved_staleDirectory .refl
  obtain ⟨d, hd, hserving⟩ := hstart true 1000 rfl rfl (by
    intro node h
    cases h
    exact ⟨rfl, rfl, fun gid h => by cases h⟩)
  obtain ⟨hone, hown, -, -⟩ := exclusive_of_reachable _ unserved_staleDirectory hd
  refine ⟨d, hd, hserving, ?_, (hown true hserving).2⟩
  intro hother
  cases hone true false hserving hother

end Hosts

end Keylix.Verifier

import Keylix.Dpop.Ports
import Keylix.Lib.FiniteMap

/-!
# Process-local state

The bounded reference stores of `keylix-dpop`: replay markers with an expiry, and nonces scoped by
the server that issues them. A store keeps its entries behind a mutex; the clock and the generator
of nonces are read outside of it.
-/

set_option autoImplicit false

namespace Keylix.Dpop

open Keylix.Lib

/-! ## Replay markers -/

/-- The replay markers of a process: the expiry of each key. -/
abbrev ReplayEntries := FiniteMap ReplayKey I64

/-- The section of `InMemoryReplayStore.checkAndRecord` under the lock. A marker stays active
through the second of its expiry. -/
def recordEntry (capacity : Nat) (now : I64) (key : ReplayKey) (expiresAtUnix : I64)
    (entries : ReplayEntries) : Except DpopPortError ReplayStatus × ReplayEntries :=
  let entries := entries.retain fun _ expiry => now.toInt ≤ expiry.toInt
  if entries.contains key then (.ok .replay, entries)
  else if capacity ≤ entries.size then (.error .mk, entries)
  else (.ok .fresh, entries.insert key expiresAtUnix)

structure InMemoryReplayStore (S : Signature) where
  clock : Clock S
  capacity : Nat
  entries : Mutex S ReplayEntries
  capacity_ne : capacity ≠ 0

namespace InMemoryReplayStore

variable {S : Signature}

def new (clock : Clock S) (capacity : Nat) (entries : Mutex S ReplayEntries) :
    Except DpopError (InMemoryReplayStore S) :=
  if h : capacity = 0 then .error .invalidPolicy else .ok ⟨clock, capacity, entries, h⟩

/-- The clock is read before the lock is taken. -/
def checkAndRecord (store : InMemoryReplayStore S) (key : ReplayKey) (expiresAtUnix : I64) :
    Prog S (Except DpopPortError ReplayStatus) := do
  match ← store.clock.unixSeconds with
  | .error e => pure (.error e)
  | .ok now =>
      if expiresAtUnix.toInt < now.toInt then pure (.error .mk)
      else store.entries.locked (recordEntry store.capacity now key expiresAtUnix)

def replayStore (store : InMemoryReplayStore S) : ReplayStore S := ⟨store.checkAndRecord⟩

end InMemoryReplayStore

/-! ## The section under the lock -/

section Record

variable {capacity : Nat} {now : I64} {key : ReplayKey} {expires : I64} {entries : ReplayEntries}

/-- A marker that is not swept survives every section. -/
theorem lookup_recordEntry {k : ReplayKey} {e : I64} (hk : entries.lookup k = some e)
    (he : now.toInt ≤ e.toInt) :
    (recordEntry capacity now key expires entries).2.lookup k = some e := by
  have hkept : (entries.retain fun _ expiry => now.toInt ≤ expiry.toInt).lookup k = some e := by
    rw [FiniteMap.lookup_retain, hk]
    simp [he]
  unfold recordEntry
  simp only
  split
  · exact hkept
  · next hnone =>
    split
    · exact hkept
    · rw [FiniteMap.lookup_insert, if_neg]
      · exact hkept
      · -- the key that is inserted had no marker
        rintro rfl
        exact hnone (by rw [FiniteMap.contains, hkept]; rfl)

/-- A section that answers `fresh` found no active marker of its key and leaves one. -/
theorem recordEntry_fresh (h : (recordEntry capacity now key expires entries).1 = .ok .fresh) :
    (∀ e, entries.lookup key = some e → e.toInt < now.toInt) ∧
      (recordEntry capacity now key expires entries).2.lookup key = some expires := by
  unfold recordEntry at h ⊢
  simp only at h ⊢
  split at h
  · cases h
  next hnone =>
  split at h
  · cases h
  next hroom =>
  rw [if_neg hnone, if_neg hroom]
  refine ⟨?_, ?_⟩
  · intro e he
    by_contra hle
    apply hnone
    rw [FiniteMap.contains, FiniteMap.lookup_retain, he]
    simp [Int.not_lt.1 hle]
  · rw [FiniteMap.lookup_insert, if_pos rfl]

/-- A section that answers `replay` found a marker of its key. -/
theorem recordEntry_replay (h : (recordEntry capacity now key expires entries).1 = .ok .replay) :
    ∃ e, entries.lookup key = some e := by
  unfold recordEntry at h
  simp only at h
  split at h
  · next hcontains =>
    rw [FiniteMap.contains, FiniteMap.lookup_retain, Option.isSome_iff_exists] at hcontains
    obtain ⟨e, he⟩ := hcontains
    exact ⟨e, (Option.filter_eq_some_iff.1 he).1⟩
  · split at h <;> cases h

/-- A section adds no marker but the one of its key, and that one only when it answers `fresh`. -/
theorem lookup_of_recordEntry {k : ReplayKey} {e : I64}
    (h : (recordEntry capacity now key expires entries).2.lookup k = some e) :
    entries.lookup k = some e ∨
      k = key ∧ (recordEntry capacity now key expires entries).1 = .ok .fresh := by
  have hretained : (entries.retain fun _ expiry => now.toInt ≤ expiry.toInt).lookup k = some e →
      entries.lookup k = some e := by
    intro hk
    rw [FiniteMap.lookup_retain] at hk
    exact (Option.filter_eq_some_iff.1 hk).1
  unfold recordEntry at h ⊢
  simp only at h ⊢
  split at h
  · exact Or.inl (hretained h)
  next hnone =>
  split at h
  · exact Or.inl (hretained h)
  next hroom =>
  rw [FiniteMap.lookup_insert] at h
  split at h
  · next hk => exact Or.inr ⟨hk, by rw [if_neg hnone, if_neg hroom]⟩
  · exact Or.inl (hretained h)

end Record

/-! ## Nonces -/

inductive NonceNamespace where
  | authorizationServer
  | resourceServer
  deriving DecidableEq

def maxNonceContextBytes : Nat := 2048

/-- A control character in UTF-8: a C0 byte, `DEL`, or a C1 character after its lead byte. -/
def hasControl : Bytes → Bool
  | [] => false
  | b :: rest =>
      b < 0x20 || b = 0x7f || (b = 0xc2 && rest.head?.any (· < 0xa0)) || hasControl rest

/-- The key of the nonce state of one server. -/
structure NonceContext where
  serverSpace : NonceNamespace
  serverId : Str
  ne_nil : serverId.bytes ≠ []
  length_le : serverId.bytes.length ≤ maxNonceContextBytes
  noControl : hasControl serverId.bytes = false

theorem NonceContext.eq_iff {a b : NonceContext} :
    a.serverSpace = b.serverSpace ∧ a.serverId = b.serverId ↔ a = b := by
  constructor
  · rintro ⟨hspace, hid⟩
    cases a
    cases b
    cases hspace
    cases hid
    rfl
  · rintro rfl
    exact ⟨rfl, rfl⟩

instance : DecidableEq NonceContext := fun _ _ => decidable_of_iff _ NonceContext.eq_iff

def NonceContext.new (serverSpace : NonceNamespace) (serverId : Str) :
    Except DpopError NonceContext :=
  if h : serverId.bytes = [] ∨ maxNonceContextBytes < serverId.bytes.length ∨
      hasControl serverId.bytes = true then .error .invalidPolicy
  else
    .ok ⟨serverSpace, serverId, fun he => h (Or.inl he), by omega,
      Bool.eq_false_iff.2 fun hc => h (Or.inr (Or.inr hc))⟩

/-- The nonces that a client received, scoped by the issuing server. -/
structure ClientNonceStore (S : Signature) where
  nonceFor : NonceContext → Prog S (Except DpopPortError (Option DpopNonce))
  recordChallenge : NonceContext → DpopNonce → Prog S (Except DpopPortError Unit)
  recordSuccess : NonceContext → Option DpopNonce → Prog S (Except DpopPortError Unit)

structure NonceGenerator (S : Signature) where
  generate : Prog S (Except DpopPortError DpopNonce)

/-- Nonce enforcement scoped by the issuing server. -/
structure ServerNonceStore (S : Signature) where
  expectedNonce : NonceContext → Prog S (Except DpopPortError (Option DpopNonce))
  issueNonce : NonceContext → Prog S (Except DpopPortError DpopNonce)

/-- The nonce of each server. -/
abbrev NonceEntries := FiniteMap NonceContext DpopNonce

/-- Sets the nonce of a context. A full store accepts no context that is new to it. -/
def recordNonce (capacity : Nat) (context : NonceContext) (nonce : DpopNonce)
    (entries : NonceEntries) : Except DpopPortError DpopNonce × NonceEntries :=
  if !entries.contains context && capacity ≤ entries.size then (.error .mk, entries)
  else (.ok nonce, entries.insert context nonce)

/-- The nonce cache of a client. -/
structure InMemoryClientNonceStore (S : Signature) where
  capacity : Nat
  entries : Mutex S NonceEntries
  capacity_ne : capacity ≠ 0

namespace InMemoryClientNonceStore

variable {S : Signature}

def new (capacity : Nat) (entries : Mutex S NonceEntries) :
    Except DpopError (InMemoryClientNonceStore S) :=
  if h : capacity = 0 then .error .invalidPolicy else .ok ⟨capacity, entries, h⟩

def forget (store : InMemoryClientNonceStore S) (context : NonceContext) :
    Prog S (Except DpopPortError Unit) :=
  store.entries.locked fun entries => (.ok (), entries.erase context)

def record (store : InMemoryClientNonceStore S) (context : NonceContext) (nonce : DpopNonce) :
    Prog S (Except DpopPortError Unit) :=
  store.entries.locked fun entries =>
    ((recordNonce store.capacity context nonce entries).1.map fun _ => (),
      (recordNonce store.capacity context nonce entries).2)

def nonceFor (store : InMemoryClientNonceStore S) (context : NonceContext) :
    Prog S (Except DpopPortError (Option DpopNonce)) :=
  store.entries.locked fun entries => (.ok (entries.lookup context), entries)

/-- A success without a nonce leaves the established nonce alone. -/
def recordSuccess (store : InMemoryClientNonceStore S) (context : NonceContext)
    (nonce : Option DpopNonce) : Prog S (Except DpopPortError Unit) :=
  match nonce with
  | some nonce => store.record context nonce
  | none => pure (.ok ())

def clientNonceStore (store : InMemoryClientNonceStore S) : ClientNonceStore S :=
  ⟨store.nonceFor, store.record, store.recordSuccess⟩

end InMemoryClientNonceStore

/-- The nonces that a server issued. -/
structure InMemoryServerNonceStore (S : Signature) where
  generator : NonceGenerator S
  capacity : Nat
  entries : Mutex S NonceEntries
  capacity_ne : capacity ≠ 0

namespace InMemoryServerNonceStore

variable {S : Signature}

def new (generator : NonceGenerator S) (capacity : Nat) (entries : Mutex S NonceEntries) :
    Except DpopError (InMemoryServerNonceStore S) :=
  if h : capacity = 0 then .error .invalidPolicy else .ok ⟨generator, capacity, entries, h⟩

def forget (store : InMemoryServerNonceStore S) (context : NonceContext) :
    Prog S (Except DpopPortError Unit) :=
  store.entries.locked fun entries => (.ok (), entries.erase context)

def expectedNonce (store : InMemoryServerNonceStore S) (context : NonceContext) :
    Prog S (Except DpopPortError (Option DpopNonce)) :=
  store.entries.locked fun entries => (.ok (entries.lookup context), entries)

def issueNonce (store : InMemoryServerNonceStore S) (context : NonceContext) :
    Prog S (Except DpopPortError DpopNonce) := do
  match ← store.generator.generate with
  | .error e => pure (.error e)
  | .ok nonce => store.entries.locked (recordNonce store.capacity context nonce)

def serverNonceStore (store : InMemoryServerNonceStore S) : ServerNonceStore S :=
  ⟨store.expectedNonce, store.issueNonce⟩

end InMemoryServerNonceStore

/-! ## Nonce state next to an environment -/

/-- The operation of a nonce store: a section under its lock. -/
inductive NonceOp where
  | update (f : NonceEntries → NonceEntries)

def nonceOps : Signature where
  Op := NonceOp
  Res := fun _ => NonceEntries

/-- The lock of a store next to the operations `E` of its environment. -/
def nonceMutex (E : Signature) : Mutex (E.sum nonceOps) NonceEntries :=
  ⟨fun f => Prog.perform (S := E.sum nonceOps) (.inr (.update f))⟩

def nonceExec : (op : nonceOps.Op) → NonceEntries → nonceOps.Res op × NonceEntries
  | .update f, entries => (entries, f entries)

/-! ## Recording a nonce -/

section Recording

variable {capacity : Nat} {context : NonceContext} {nonce : DpopNonce} {entries : NonceEntries}

/-- A recording succeeds with the nonce or changes nothing. -/
theorem recordNonce_cases (capacity : Nat) (context : NonceContext) (nonce : DpopNonce)
    (entries : NonceEntries) :
    recordNonce capacity context nonce entries = (.error .mk, entries) ∨
      recordNonce capacity context nonce entries = (.ok nonce, entries.insert context nonce) := by
  unfold recordNonce
  split
  · exact Or.inl rfl
  · exact Or.inr rfl

theorem lookup_recordNonce_of_ok {issued : DpopNonce}
    (h : (recordNonce capacity context nonce entries).1 = .ok issued) :
    (recordNonce capacity context nonce entries).2.lookup context = some issued := by
  rcases recordNonce_cases capacity context nonce entries with hr | hr
  · rw [hr] at h
    cases h
  · rw [hr] at h ⊢
    cases h
    rw [FiniteMap.lookup_insert, if_pos rfl]

/-- A recording keeps the store within its capacity. -/
theorem size_recordNonce_le (h : entries.size ≤ capacity) :
    (recordNonce capacity context nonce entries).2.size ≤ capacity := by
  unfold recordNonce
  split
  · exact h
  next hfull =>
  simp only [Bool.and_eq_true, Bool.not_eq_true', decide_eq_true_eq, not_and, not_le] at hfull
  cases hlookup : entries.lookup context with
  | none =>
    have hlt := hfull (by simp [FiniteMap.contains, hlookup])
    rw [FiniteMap.size_insert_of_lookup_none _ hlookup]
    omega
  | some old =>
    rw [FiniteMap.size_insert_of_lookup_some _ hlookup]
    exact h

end Recording

/-! ## A context and a nonce -/

def sampleContext (serverSpace : NonceNamespace) : NonceContext where
  serverSpace := serverSpace
  serverId := ⟨ascii "server", isUtf8_of_isAscii (by decide)⟩
  ne_nil := by decide
  length_le := by decide
  noControl := by decide

def sampleNonce : DpopNonce where
  value := ⟨ascii "n-1", isUtf8_of_isAscii (by decide)⟩
  ne_nil := by decide
  length_le := by decide

end Keylix.Dpop

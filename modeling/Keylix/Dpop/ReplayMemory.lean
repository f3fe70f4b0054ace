import Keylix.Dpop.State

/-!
# The process-local replay store, call by call

`replayMemory` is the store of `keylix-dpop` next to an environment with a clock; the lock of its
markers is the only operation of its own. `exec_checkAndRecord` is a whole call: the clock is read
once, and `recordCall` says what the reading makes of the markers.

`MemoryLaws` is what one call may do: no marker is lost before it expires, none is added but by a
call that answers `fresh`, and the capacity holds. `memoryLaws_of_calls` says that every call of
every sequence of calls keeps to it, whatever the clock reads.
-/

set_option autoImplicit false

namespace Keylix.Dpop

open Keylix.Lib
open Keylix.Lib.Prog (exec exec_bind sumExec)

/-! ## The store next to an environment -/

/-- The operation of a replay store: a section under its lock. -/
inductive ReplayOp where
  | update (f : ReplayEntries → ReplayEntries)

def replayOps : Signature where
  Op := ReplayOp
  Res := fun _ => ReplayEntries

def replayExec : (op : replayOps.Op) → ReplayEntries → replayOps.Res op × ReplayEntries
  | .update f, entries => (entries, f entries)

/-- The store with a clock of the environment `E`. -/
def replayMemory {E : Signature} (clock : Clock E) (capacity : Nat) (h : capacity ≠ 0) :
    InMemoryReplayStore (E.sum replayOps) where
  clock := ⟨clock.unixSeconds.inl⟩
  capacity := capacity
  entries := ⟨fun f => Prog.perform (S := E.sum replayOps) (.inr (.update f))⟩
  capacity_ne := h

/-- What a reading of the clock makes of a call. -/
def recordCall (capacity : Nat) (reading : Except DpopPortError I64) (key : ReplayKey)
    (expiresAtUnix : I64) (entries : ReplayEntries) :
    Except DpopPortError ReplayStatus × ReplayEntries :=
  match reading with
  | .error e => (.error e, entries)
  | .ok now =>
      if expiresAtUnix.toInt < now.toInt then (.error .mk, entries)
      else recordEntry capacity now key expiresAtUnix entries

/-- A call reads the clock once, and then works on the markers. -/
theorem exec_checkAndRecord {E : Signature} {σ : Type} (h : (op : E.Op) → σ → E.Res op × σ)
    (clock : Clock E) (capacity : Nat) (hcap : capacity ≠ 0) (key : ReplayKey) (expires : I64)
    (s : σ) (entries : ReplayEntries) :
    exec (sumExec h replayExec) ((replayMemory clock capacity hcap).checkAndRecord key expires)
        (s, entries) =
      ((recordCall capacity (exec h clock.unixSeconds s).1 key expires entries).1,
        (exec h clock.unixSeconds s).2,
        (recordCall capacity (exec h clock.unixSeconds s).1 key expires entries).2) := by
  unfold InMemoryReplayStore.checkAndRecord
  rw [exec_bind]
  change exec _ (match (exec _ (clock.unixSeconds.inl) _).1 with
    | .error e => _
    | .ok now => _) (exec _ (clock.unixSeconds.inl) _).2 = _
  rw [Prog.exec_inl]
  cases (exec h clock.unixSeconds s).1 with
  | error e => rfl
  | ok now =>
    simp only [recordCall]
    split
    · rfl
    · rfl

/-! ## One call -/

section Laws

variable {capacity : Nat} {entries : ReplayEntries}

/-- The markers that are active at a time. -/
def activeCount (now : I64) (entries : ReplayEntries) : Nat :=
  entries.entries.countP fun e => now.toInt ≤ e.2.toInt

/-- A call: the reading of the clock, the key and the expiry. -/
structure MemoryCall where
  reading : Except DpopPortError I64
  key : ReplayKey
  expires : I64

/-- What a call does to the markers, with its answer. -/
structure MemoryLaws (capacity : Nat) (call : MemoryCall) (before after : ReplayEntries)
    (answer : Except DpopPortError ReplayStatus) : Prop where
  /-- The capacity holds. -/
  bounded : before.size ≤ capacity → after.size ≤ capacity
  /-- A marker is only lost when it is past its expiry. -/
  lost : ∀ k e, before.lookup k = some e → after.lookup k ≠ some e →
    ∃ now, call.reading = .ok now ∧ e.toInt < now.toInt
  /-- A marker is only added by a call that answers `fresh`, and it is the marker of the call. -/
  added : ∀ k e, after.lookup k = some e → before.lookup k ≠ some e →
    answer = .ok .fresh ∧ k = call.key ∧ e = call.expires
  /-- The calls that answer `fresh`. -/
  fresh : answer = .ok .fresh ↔
    ∃ now, call.reading = .ok now ∧ now.toInt ≤ call.expires.toInt ∧
      (∀ e, before.lookup call.key = some e → e.toInt < now.toInt) ∧
      activeCount now before < capacity
  /-- A call that answers `fresh` leaves its marker. -/
  recorded : answer = .ok .fresh → after.lookup call.key = some call.expires
  /-- An active marker keeps its expiry. -/
  kept : ∀ now k e, call.reading = .ok now → before.lookup k = some e → now.toInt ≤ e.toInt →
    after.lookup k = some e

theorem size_retain (now : I64) (entries : ReplayEntries) :
    (entries.retain fun _ expiry => now.toInt ≤ expiry.toInt).size = activeCount now entries :=
  List.countP_eq_length_filter.symm

/-- The markers that a sweep leaves of a key. -/
theorem contains_retain_iff {now : I64} {key : ReplayKey} :
    (entries.retain fun _ expiry => now.toInt ≤ expiry.toInt).contains key = true ↔
      ¬ ∀ e, entries.lookup key = some e → e.toInt < now.toInt := by
  rw [FiniteMap.contains, FiniteMap.lookup_retain]
  cases entries.lookup key with
  | none => simp
  | some e => simp

/-- A section answers `fresh` when its key has no active marker and there is room. -/
theorem recordEntry_fresh_iff {now : I64} {key : ReplayKey} {expires : I64} :
    (recordEntry capacity now key expires entries).1 = .ok .fresh ↔
      (∀ e, entries.lookup key = some e → e.toInt < now.toInt) ∧
        activeCount now entries < capacity := by
  rw [← size_retain]
  unfold recordEntry
  simp only
  split
  · next hcontains => simpa using fun h => absurd h (contains_retain_iff.1 hcontains)
  · next hnone =>
    have hexpired := not_not.1 (mt contains_retain_iff.2 hnone)
    split
    · next hfull => exact iff_of_false (by simp) fun h => absurd h.2 (by omega)
    · next hroom => exact iff_of_true rfl ⟨hexpired, by omega⟩

/-- A section keeps the capacity. -/
theorem size_recordEntry_le {now : I64} {key : ReplayKey} {expires : I64}
    (h : entries.size ≤ capacity) :
    (recordEntry capacity now key expires entries).2.size ≤ capacity := by
  have hswept : (entries.retain fun _ expiry => now.toInt ≤ expiry.toInt).size ≤ capacity :=
    Nat.le_trans (FiniteMap.size_retain_le _ _) h
  unfold recordEntry
  simp only
  split
  · exact hswept
  · next hnone =>
    split
    · exact hswept
    · next hroom =>
      rw [FiniteMap.contains, Bool.not_eq_true, Option.isSome_eq_false_iff,
        Option.isNone_iff_eq_none] at hnone
      rw [FiniteMap.size_insert_of_lookup_none _ hnone]
      omega

/-- A call that does not reach the section changes nothing. -/
theorem memoryLaws_of_unchanged {call : MemoryCall} {answer : Except DpopPortError ReplayStatus}
    (hanswer : answer ≠ .ok .fresh)
    (hreading : ∀ now, call.reading = .ok now → call.expires.toInt < now.toInt) :
    MemoryLaws capacity call entries entries answer where
  bounded := id
  lost := fun k e hbefore hafter => absurd hbefore hafter
  added := fun k e hafter hbefore => absurd hafter hbefore
  fresh := by
    refine iff_of_false hanswer ?_
    rintro ⟨now, hnow, hle, -⟩
    have := hreading now hnow
    omega
  recorded := fun h => absurd h hanswer
  kept := fun now k e _ hbefore _ => hbefore

/-- Every call keeps to the laws. -/
theorem memoryLaws_recordCall (capacity : Nat) (call : MemoryCall) (entries : ReplayEntries) :
    MemoryLaws capacity call entries
      (recordCall capacity call.reading call.key call.expires entries).2
      (recordCall capacity call.reading call.key call.expires entries).1 := by
  -- without a reading, or with an expiry in the past, the entries are not touched
  cases hreading : call.reading with
  | error e =>
    refine memoryLaws_of_unchanged (by simp [recordCall]) ?_
    intro now hnow
    rw [hreading] at hnow
    cases hnow
  | ok now =>
    simp only [recordCall]
    split
    · next hlate =>
      refine memoryLaws_of_unchanged (by simp) ?_
      intro now' hnow
      rw [hreading] at hnow
      cases hnow
      exact hlate
    · next hintime =>
      refine ⟨size_recordEntry_le, ?_, ?_, ?_, ?_, ?_⟩
      -- only the sweep drops a marker, and it keeps those that have not expired
      · intro k e hbefore hafter
        refine ⟨now, hreading, ?_⟩
        by_contra hactive
        exact hafter (lookup_recordEntry hbefore (Int.not_lt.1 hactive))
      · intro k e hafter hbefore
        -- only the call's own marker is new
        rcases lookup_of_recordEntry hafter with hold | ⟨rfl, hfresh⟩
        · exact absurd hold hbefore
        · rw [(recordEntry_fresh hfresh).2] at hafter
          exact ⟨hfresh, rfl, (Option.some.inj hafter).symm⟩
      · rw [recordEntry_fresh_iff]
        constructor
        · rintro ⟨hexpired, hroom⟩
          exact ⟨now, hreading, Int.not_lt.1 hintime, hexpired, hroom⟩
        · rintro ⟨now', hnow, -, hexpired, hroom⟩
          rw [hreading] at hnow
          cases hnow
          exact ⟨hexpired, hroom⟩
      · exact fun hfresh => (recordEntry_fresh hfresh).2
      · intro now' k e hnow hbefore hactive
        rw [hreading] at hnow
        cases hnow
        exact lookup_recordEntry hbefore hactive

end Laws

/-! ## Sequences of calls -/

/-- An environment that is its clock: the state is the next reading. -/
def readingOps : Signature where
  Op := Unit
  Res := fun _ => Except DpopPortError I64

def readingClock : Clock readingOps := ⟨Prog.perform (S := readingOps) ()⟩

def readingExec : (op : readingOps.Op) → Except DpopPortError I64 →
    readingOps.Res op × Except DpopPortError I64
  | _, reading => (reading, reading)

section Calls

variable (capacity : Nat) (hcap : capacity ≠ 0)

/-- One call of the store, with the markers after it. -/
def callMemory (call : MemoryCall) (entries : ReplayEntries) :
    Except DpopPortError ReplayStatus × ReplayEntries :=
  let run := exec (sumExec readingExec replayExec)
    ((replayMemory readingClock capacity hcap).checkAndRecord call.key call.expires)
    (call.reading, entries)
  (run.1, run.2.2)

/-- The markers after a sequence of calls on a new store. -/
def afterCalls (calls : List MemoryCall) : ReplayEntries :=
  calls.foldl (fun entries call => (callMemory capacity hcap call entries).2) .empty

theorem callMemory_eq (call : MemoryCall) (entries : ReplayEntries) :
    callMemory capacity hcap call entries =
      recordCall capacity call.reading call.key call.expires entries := by
  rw [callMemory, exec_checkAndRecord]
  rfl

/-- **The laws of the store along every sequence of calls.** -/
theorem memoryLaws_of_calls (calls : List MemoryCall) :
    (afterCalls capacity hcap calls).size ≤ capacity ∧
      ∀ call, MemoryLaws capacity call (afterCalls capacity hcap calls)
        (callMemory capacity hcap call (afterCalls capacity hcap calls)).2
        (callMemory capacity hcap call (afterCalls capacity hcap calls)).1 := by
  have hlaws : ∀ call entries, MemoryLaws capacity call entries
      (callMemory capacity hcap call entries).2 (callMemory capacity hcap call entries).1 := by
    intro call entries
    rw [callMemory_eq]
    exact memoryLaws_recordCall capacity call entries
  refine ⟨?_, fun call => hlaws call _⟩
  -- the last call keeps the bound that the calls before it established
  induction calls using List.reverseRecOn with
  | nil => exact Nat.zero_le _
  | append_singleton calls call ih =>
    rw [afterCalls, List.foldl_append, List.foldl_cons, List.foldl_nil]
    exact (hlaws call _).bounded ih

end Calls

/-- A call at a time, for a key of equal bytes and with the given expiry. -/
def callAt (now : Int) (b : UInt8) (expires : Int) (h : -2 ^ 63 ≤ now ∧ now < 2 ^ 63)
    (h' : -2 ^ 63 ≤ expires ∧ expires < 2 ^ 63) : MemoryCall where
  reading := .ok (.ofRange now h)
  key := ⟨List.replicate 32 b, List.length_replicate⟩
  expires := .ofRange expires h'

/-- A store for one marker: another key finds it full, and the clock may go back. -/
theorem memoryLaws_of_calls_sample :
    (afterCalls 1 (by decide) [callAt 10 1 20 (by decide) (by decide),
        callAt 5 2 20 (by decide) (by decide)]).size ≤ 1 ∧
      (callMemory 1 (by decide) (callAt 21 2 30 (by decide) (by decide))
        (afterCalls 1 (by decide) [callAt 10 1 20 (by decide) (by decide),
          callAt 5 2 20 (by decide) (by decide)])).1 = .ok .fresh := by
  obtain ⟨hsize, hlaws⟩ := memoryLaws_of_calls 1 (by decide)
    [callAt 10 1 20 (by decide) (by decide), callAt 5 2 20 (by decide) (by decide)]
  refine ⟨hsize, (hlaws (callAt 21 2 30 (by decide) (by decide))).fresh.2 ?_⟩
  refine ⟨⟨21, by decide, by decide⟩, rfl, by decide, ?_, by decide +kernel⟩
  intro e he
  have hnone : FiniteMap.lookup (afterCalls 1 (by decide) [callAt 10 1 20 (by decide) (by decide),
      callAt 5 2 20 (by decide) (by decide)])
      (callAt 21 2 30 (by decide) (by decide)).key = none := by decide +kernel
  rw [hnone] at he
  cases he

end Keylix.Dpop

import Keylix.Lib.Critical
import Keylix.Verifier.Replay.Recovery

/-!
# Concurrent calls of the file store

Any number of calls of `FileReplayStore.checkAndRecord` run over one directory, one operation at a
time, without I/O errors. The clock may answer anything, at every reading.

`linearizable` is the meaning of the operation lock: the calls take effect one after another, in the
order in which they read the clock. Each call that returned has the answer of the in-memory store in
that order, a call that was refused the lock had no effect, and calls that started after another one
returned come after it.
-/

set_option autoImplicit false

namespace Keylix.Verifier

open Keylix.Lib Keylix.Dpop
open Keylix.Lib.Prog (Safe Outcome Pool PoolStep Lock Locks Serial SerialRun)

/-! ## The directory and its lock -/

/-- What is asked of the store. -/
structure RecordCall where
  key : ReplayKey
  expires : I64
  nonneg : 0 ≤ expires.toInt

/-- The call with its reading. -/
def RecordCall.at (call : RecordCall) (reading : Except DpopPortError I64) : StoreCall :=
  ⟨reading, call.key, call.expires, call.nonneg⟩

/-- The readings of the clock with the calls that made them, in order. -/
abbrev Readings (ι : Type) := List (ι × Except DpopPortError I64)

/-- The state that the calls share. -/
structure LockedFs (ι : Type) where
  fs : Fs
  /-- The call that holds the operation lock. -/
  holder : Option ι
  readings : Readings ι

/-- The part of the state that is used under the lock. -/
def LockedFs.base {ι : Type} (s : LockedFs ι) : Fs × Readings ι := (s.fs, s.readings)

/-- One operation of the call `i`. -/
def lockedHandler {ι : Type} (host : FsHost) (i : ι) : Prog.Handler storeOps (LockedFs ι)
  | .inl op, s, x, s' => ∃ fs', okHandler host op s.fs x fs' ∧ s' = { s with fs := fs' }
  | .inr .unixSeconds, s, x, s' => s' = { s with readings := s.readings ++ ([(i, x)] : Readings ι) }
  | .inr .lock, s, x, s' =>
      (∃ e, x = .error e ∧ s' = s) ∨
        s.holder = none ∧ x = .ok () ∧ s' = { s with holder := some i }
  | .inr .unlock, s, _, s' => s' = { s with holder := none }

/-- The operation lock of the store. A refusal is the answer of the call. -/
def fileLock : Lock storeOps (Except DpopPortError ReplayStatus) where
  acquire := .inr .lock
  release := .inr .unlock
  refusal
    | .error e => some (.error e)
    | .ok () => none

/-- The clock of the call `i` under the lock. -/
def readingHandler {ι : Type} (i : ι) : Prog.Handler ctrlOps (Readings ι)
  | .unixSeconds, s, x, s' => s' = s ++ ([(i, x)] : Readings ι)
  | .lock, _, _, _ => False
  | .unlock, _, _, _ => False

/-- The operations of the call `i` under the lock. -/
abbrev sectionHandler {ι : Type} (host : FsHost) (i : ι) :
    Prog.Handler storeOps (Fs × Readings ι) :=
  Prog.sumHandler (okHandler host) (readingHandler i)

theorem fileLock_locks {ι : Type} (host : FsHost) :
    Locks fileLock (lockedHandler host : ι → Prog.Handler storeOps (LockedFs ι))
      (sectionHandler host)
      LockedFs.base LockedFs.holder where
  granted := by
    intro i t x t' hop hx
    rcases hop with ⟨e, rfl, -⟩ | ⟨hfree, rfl, rfl⟩
    · cases hx
    · exact ⟨rfl, hfree, rfl⟩
  refused := by
    intro i t x t' a hop hx
    rcases hop with ⟨e, rfl, rfl⟩ | ⟨-, rfl, -⟩
    · exact ⟨rfl, rfl⟩
    · cases hx
  released := by
    rintro i t x t' rfl
    exact ⟨rfl, rfl⟩
  foreign := by
    intro i op t x t' hforeign hop
    cases op with
    | inl op =>
      obtain ⟨fs', hfs, rfl⟩ := hop
      exact ⟨⟨hfs, rfl⟩, rfl⟩
    | inr op =>
      cases op with
      | unixSeconds =>
        cases hop
        exact ⟨⟨rfl, rfl⟩, rfl⟩
      | lock => exact absurd rfl hforeign.1
      | unlock => exact absurd rfl hforeign.2

/-! ## The section of a call -/

section Sections

variable {ι : Type} {host : FsHost} {store : FileReplayStore ctrlOps} {call : RecordCall}
  {path : Path} {uid capacity : Nat} {m : ReplayEntries} {i : ι}

/-- What a call does between the lock and its release. -/
def underLock (store : FileReplayStore ctrlOps) (call : RecordCall) :
    Prog storeOps (Except DpopPortError ReplayStatus) :=
  .call (S := storeOps) (.inr .unixSeconds) fun
    | .error e => .ret (.error e)
    | .ok now =>
        (store.directory.recordMarker store.capacity now call.key call.expires).inl

/-- A call is its section under the operation lock. -/
theorem checkAndRecord_eq_guard (hopened : OpenedStore host path uid capacity store) :
    store.checkAndRecord call.key call.expires = fileLock.guard (underLock store call) := by
  unfold FileReplayStore.checkAndRecord
  rw [hopened.operationLock, hopened.clock]
  refine congrArg (Prog.call (S := storeOps) (.inr .lock)) (funext fun x => ?_)
  cases x with
  | error e => rfl
  | ok u =>
    refine congrArg (Prog.call (S := storeOps) (.inr .unixSeconds)) (funext fun x => ?_)
    cases x with
    | error e => rfl
    | ok now => rfl

/-- The section takes no lock. -/
theorem performs_underLock (store : FileReplayStore ctrlOps) (call : RecordCall) :
    Prog.Performs fileLock.Foreign (underLock store call) := by
  refine ⟨⟨Sum.inr_injective.ne CtrlOp.noConfusion, Sum.inr_injective.ne CtrlOp.noConfusion⟩, ?_⟩
  intro x
  cases x with
  | error e => trivial
  | ok now =>
    apply Prog.performs_inl
    intro op
    exact ⟨Sum.inl_ne_inr, Sum.inl_ne_inr⟩

theorem memStep_at (hcap : capacity ≠ 0) (call : RecordCall) (reading : Except DpopPortError I64)
    (m : ReplayEntries) :
    memStep capacity hcap (call.at reading) m =
      match reading with
      | .error e => (.error e, m)
      | .ok now =>
          if call.expires.toInt < now.toInt then (.error .mk, m)
          else recordEntry capacity now call.key call.expires m :=
  memStep_eq hcap (call.at reading) m

/-- **A section is a call of the in-memory store with the reading that it made.** -/
theorem underLock_outcome (hopened : OpenedStore host path uid capacity store)
    {s s' : Fs × Readings ι} {r : Except DpopPortError ReplayStatus} (hm : Encodes uid m s.1)
    (h : Outcome (sectionHandler host i) (underLock store call) s r s') :
    ∃ reading, s'.2 = s.2 ++ [(i, reading)] ∧
      r = (memStep store.capacity store.capacity_ne (call.at reading) m).1 ∧
      Encodes uid (memStep store.capacity store.capacity_ne (call.at reading) m).2 s'.1 := by
  obtain ⟨(reading : Except DpopPortError I64), s₁, ⟨hread, hfs⟩, h⟩ := h
  refine ⟨reading, ?_⟩
  rw [memStep_at]
  cases reading with
  | error e =>
    obtain ⟨rfl, rfl⟩ := h
    exact ⟨hread, rfl, hfs ▸ hm⟩
  | ok now =>
    obtain ⟨hsame, h⟩ := Prog.outcome_inl.1 h
    refine ⟨hsame.trans hread, ?_⟩
    rw [hfs] at h
    obtain rfl := hopened.uid_eq
    have huid : store.directory.ownerUid = host.uid := by rw [hopened.directory]
    by_cases hlt : call.expires.toInt < now.toInt
    · -- an expiry in the past
      simp only [if_pos hlt]
      rw [SecureDir.recordMarker, if_pos hlt] at h
      obtain ⟨rfl, hfs'⟩ := h
      exact ⟨rfl, hfs' ▸ hm⟩
    · simp only [if_neg hlt]
      have hruns : Runs host now _
          (store.directory.recordMarker store.capacity now call.key call.expires) s.1 :=
        runs_recordMarker huid call.nonneg store.capacity hm (Int.not_lt.1 hlt)
      exact ((hruns.handler_mono (okHandler_le_fsHandler host False)).outcome h).2

/-! ## Sections one after another -/

theorem memRun_append (hcap : capacity ≠ 0) (calls later : List StoreCall) (m : ReplayEntries) :
    memRun capacity hcap (calls ++ later) m =
      ((memRun capacity hcap calls m).1 ++
          (memRun capacity hcap later (memRun capacity hcap calls m).2).1,
        (memRun capacity hcap later (memRun capacity hcap calls m).2).2) := by
  induction calls generalizing m with
  | nil => rfl
  | cons call calls ih =>
    simp only [List.cons_append, memRun]
    rw [ih]

theorem length_memRun (hcap : capacity ≠ 0) (calls : List StoreCall) (m : ReplayEntries) :
    (memRun capacity hcap calls m).1.length = calls.length := by
  induction calls generalizing m with
  | nil => rfl
  | cons call calls ih =>
    simp only [memRun, List.length_cons]
    rw [ih]

variable {calls : ι → RecordCall}

/-- The in-memory store after the calls that read the clock, in the order of the readings. -/
def memAfter (store : FileReplayStore ctrlOps) (calls : ι → RecordCall) (readings : Readings ι)
    (m : ReplayEntries) : List (Except DpopPortError ReplayStatus) × ReplayEntries :=
  memRun store.capacity store.capacity_ne (readings.map fun entry => (calls entry.1).at entry.2) m

/-- The answers of the in-memory store. -/
def memAnswers (store : FileReplayStore ctrlOps) (calls : ι → RecordCall) (readings : Readings ι)
    (m : ReplayEntries) : List (ι × Except DpopPortError ReplayStatus) :=
  (readings.map Prod.fst).zip (memAfter store calls readings m).1

theorem memAfter_concat (readings : Readings ι) (reading : Except DpopPortError I64) :
    memAfter store calls (readings ++ [(i, reading)]) m =
      ((memAfter store calls readings m).1 ++
          [(memStep store.capacity store.capacity_ne ((calls i).at reading)
            (memAfter store calls readings m).2).1],
        (memStep store.capacity store.capacity_ne ((calls i).at reading)
          (memAfter store calls readings m).2).2) := by
  unfold memAfter
  rw [List.map_append, memRun_append]
  rfl

theorem length_memAfter (readings : Readings ι) :
    (memAfter store calls readings m).1.length = readings.length := by
  rw [memAfter, length_memRun, List.length_map]

/-- A later reading does not change an answer. -/
theorem memAnswers_concat (readings : Readings ι) (reading : Except DpopPortError I64) :
    memAnswers store calls (readings ++ [(i, reading)]) m =
      memAnswers store calls readings m ++
        [(i, (memStep store.capacity store.capacity_ne ((calls i).at reading)
          (memAfter store calls readings m).2).1)] := by
  unfold memAnswers
  rw [memAfter_concat, List.map_append, List.zip_append]
  · rfl
  · rw [List.length_map, length_memAfter]

/-- The sections of a log are the calls of the in-memory store in the order of the readings. -/
theorem serialRun_memAnswers (hopened : OpenedStore host path uid capacity store)
    {log : List (ι × Except DpopPortError ReplayStatus)} {s s' : Fs × Readings ι}
    (hm : Encodes uid (memAfter store calls s.2 m).2 s.1)
    (h : SerialRun (sectionHandler host) (fun i => underLock store (calls i)) log s s') :
    memAnswers store calls s'.2 m = memAnswers store calls s.2 m ++ log ∧
      Encodes uid (memAfter store calls s'.2 m).2 s'.1 := by
  induction log generalizing s with
  | nil =>
    cases h
    exact ⟨(List.append_nil _).symm, hm⟩
  | cons entry log ih =>
    obtain ⟨i, a⟩ := entry
    obtain ⟨s₁, hsection, hlog⟩ := h
    obtain ⟨reading, hreadings, hanswer, hm₁⟩ := underLock_outcome hopened hm hsection
    have hm₁' : Encodes uid (memAfter store calls s₁.2 m).2 s₁.1 := by
      rw [hreadings, memAfter_concat]
      exact hm₁
    obtain ⟨hanswers, hm'⟩ := ih hm₁' hlog
    refine ⟨?_, hm'⟩
    rw [hanswers, hreadings, memAnswers_concat, ← hanswer, List.append_assoc, List.singleton_append]

end Sections

/-! ## Interleaved calls -/

section Calls

variable {ι : Type} {host : FsHost} {store : FileReplayStore ctrlOps} {path : Path}
  {uid capacity : Nat} {m : ReplayEntries} {s : Fs} {calls : ι → RecordCall} {i : ι}

/-- Calls over one directory. -/
abbrev CallPool (ι : Type) := Pool ι storeOps (Except DpopPortError ReplayStatus) (LockedFs ι)

/-- The program of a call. -/
abbrev recordProgram (store : FileReplayStore ctrlOps) (call : RecordCall) :
    Prog storeOps (Except DpopPortError ReplayStatus) :=
  store.checkAndRecord call.key call.expires

/-- Every call is about to start. -/
def callsAt (store : FileReplayStore ctrlOps) (calls : ι → RecordCall) (s : Fs) : CallPool ι where
  thread := fun i => some (recordProgram store (calls i))
  shared := ⟨s, none, []⟩

/-- The calls as they stand are calls of the in-memory store in the order of the readings. -/
structure Linearized (uid : Nat) (store : FileReplayStore ctrlOps) (calls : ι → RecordCall)
    (m : ReplayEntries) (c : CallPool ι) : Prop where
  /-- A call takes its place at most once. -/
  once : (c.shared.readings.map Prod.fst).Nodup
  /-- A call that has not started has no place. -/
  waiting : ∀ i, c.thread i = some (recordProgram store (calls i)) →
    i ∉ c.shared.readings.map Prod.fst
  /-- A call that returned has the answer of its place, or was refused the lock. -/
  returned : ∀ i r, c.thread i = some (.ret r) →
    (i, r) ∈ memAnswers store calls c.shared.readings m ∨
      r = .error .mk ∧ i ∉ c.shared.readings.map Prod.fst
  /-- Between two sections the directory is the encoding of the map. -/
  free : c.shared.holder = none →
    Encodes uid (memAfter store calls c.shared.readings m).2 c.shared.fs

/-- The readings of a section that is not over. -/
theorem readings_of_reach {r : Prog storeOps (Except DpopPortError ReplayStatus)}
    {call : RecordCall} {s s' : Fs × Readings ι}
    (h : Prog.Reach (sectionHandler host i) (underLock store call, s) (r, s')) :
    s'.2 = s.2 ∨ ∃ reading, s'.2 = s.2 ++ [(i, reading)] := by
  -- after the reading only the directory changes
  have hrest : ∀ (rest : Prog fileOps (Except DpopPortError ReplayStatus)) (t : Fs × Readings ι),
      Safe (sectionHandler host i) (fun u => u.2 = t.2) (fun _ _ => True) rest.inl t := by
    intro rest t
    let H : Prog.Handler fileOps (Fs × Readings ι) :=
      fun op u x u' => okHandler host op u.1 x u'.1 ∧ u'.2 = u.2
    have hfile : Safe H (fun u => u.2 = t.2) (fun _ _ => True) rest t := by
      refine Safe.of_invariant ?_ rest rfl
      rintro op u x u' hu ⟨-, hsame⟩
      exact hsame.trans hu
    exact hfile.inl fun _ _ _ _ h => h
  have hsafe : Safe (sectionHandler host i)
      (fun u => u.2 = s.2 ∨ ∃ reading, u.2 = s.2 ++ [(i, reading)]) (fun _ _ => True)
      (underLock store call) s := by
    refine ⟨Or.inl rfl, ?_⟩
    rintro (x : Except DpopPortError I64) t ⟨hread, -⟩
    cases x with
    | error e => exact ⟨Or.inr ⟨_, hread⟩, trivial⟩
    | ok now =>
      exact (hrest _ t).mono (fun u hu => Or.inr ⟨_, hu.trans hread⟩) fun _ _ _ h => h
  exact (hsafe.reach h).inv

theorem mem_readings_of_mem {log : List (ι × Except DpopPortError ReplayStatus)}
    {readings : Readings ι} (h : memAnswers store calls readings m = log) :
    readings.map Prod.fst = log.map Prod.fst := by
  rw [← h, memAnswers, List.map_fst_zip]
  rw [List.length_map, length_memAfter]

/-- What the log of the sections says of the calls. -/
theorem linearized_of_serial (hopened : OpenedStore host path uid capacity store)
    (hm : Encodes uid m s) {c : CallPool ι} {log : List (ι × Except DpopPortError ReplayStatus)}
    {mid : Fs × Readings ι}
    (hc : Serial fileLock (sectionHandler host) LockedFs.base LockedFs.holder
      (fun i => underLock store (calls i)) (s, []) c log mid) :
    Linearized uid store calls m c := by
  obtain ⟨hanswers, hmid⟩ := serialRun_memAnswers hopened (s := (s, [])) hm hc.run
  have hlog : memAnswers store calls mid.2 m = log := hanswers
  have hkeys := mem_readings_of_mem hlog
  have hnotIn : ∀ i, (∀ a, (i, a) ∉ log) → i ∉ mid.2.map Prod.fst := by
    intro i hnew
    rw [hkeys]
    intro hi
    obtain ⟨⟨i, a⟩, hmem, rfl⟩ := List.mem_map.1 hi
    exact hnew a hmem
  -- the readings are those of the log, and perhaps the one of the call inside
  have hreadings : c.shared.readings = mid.2 ∨ ∃ i reading, c.shared.holder = some i ∧
      i ∉ mid.2.map Prod.fst ∧ c.shared.readings = mid.2 ++ [(i, reading)] := by
    cases hholder : c.shared.holder with
    | none => exact Or.inl (congrArg Prod.snd (hc.free hholder))
    | some i =>
      obtain ⟨hnew, rest, hreach⟩ := hc.held i hholder
      rcases readings_of_reach hreach with h | ⟨reading, h⟩
      · exact Or.inl h
      · exact Or.inr ⟨i, reading, rfl, hnotIn i hnew, h⟩
  -- a call that is neither inside nor in the log has made no reading
  have hnone : ∀ i, c.shared.holder ≠ some i → (∀ a, (i, a) ∉ log) →
      i ∉ c.shared.readings.map Prod.fst := by
    intro i hout hnew hi
    rcases hreadings with h | ⟨j, reading, hj, -, h⟩
    · rw [h] at hi
      exact hnotIn i hnew hi
    · rw [h, List.map_append, List.mem_append, List.map_singleton, List.mem_singleton] at hi
      rcases hi with hi | rfl
      · exact hnotIn i hnew hi
      · exact hout hj
  refine ⟨?_, ?_, ?_, ?_⟩
  · have hnodup : (mid.2.map Prod.fst).Nodup := hkeys ▸ hc.nodup
    rcases hreadings with h | ⟨j, reading, -, hj, h⟩
    · rw [h]
      exact hnodup
    · rw [h, List.map_append, List.nodup_append]
      refine ⟨hnodup, List.nodup_singleton _, ?_⟩
      rintro i hi i' hi' rfl
      rw [List.map_singleton, List.mem_singleton] at hi'
      have hij : i = j := hi'
      exact hj (hij ▸ hi)
  · intro i hi
    rw [recordProgram, checkAndRecord_eq_guard hopened] at hi
    obtain ⟨hout, hnew⟩ := hc.waiting (Sum.inr_injective.ne CtrlOp.noConfusion) hi
    exact hnone i hout hnew
  · intro i r hi
    rcases hc.returned hi with hmem | ⟨hout, hnew, x, hx⟩
    · left
      -- the reading of the call inside comes after those of the log
      rcases hreadings with h | ⟨j, reading, -, -, h⟩
      · rw [h, hlog]
        exact hmem
      · rw [h, memAnswers_concat, hlog]
        exact List.mem_append_left _ hmem
    · refine Or.inr ⟨?_, hnone i hout hnew⟩
      cases x with
      | error e => exact (Option.some.inj hx).symm
      | ok u => cases hx
  · intro hfree
    have hbase := hc.free hfree
    have hfs : c.shared.fs = mid.1 := congrArg Prod.fst hbase
    have hsame : c.shared.readings = mid.2 := congrArg Prod.snd hbase
    rw [hfs, hsame]
    exact hmid

variable [DecidableEq ι]

/-- The readings of a pool are only added to. -/
theorem readings_of_steps {c d : CallPool ι}
    (h : Relation.ReflTransGen (PoolStep (lockedHandler host)) c d) :
    c.shared.readings <+: d.shared.readings := by
  induction h with
  | refl => exact List.prefix_rfl
  | tail _ hstep ih =>
    refine ih.trans ?_
    cases hstep with
    | @call t' i op k x hi hop =>
      rw [Pool.set_shared]
      cases op with
      | inl op =>
        obtain ⟨fs', -, rfl⟩ := hop
        exact List.prefix_rfl
      | inr op =>
        cases op with
        | unixSeconds =>
          cases hop
          exact List.prefix_append _ _
        | lock =>
          rcases hop with ⟨e, -, rfl⟩ | ⟨-, -, rfl⟩
          · exact List.prefix_rfl
          · exact List.prefix_rfl
        | unlock =>
          cases hop
          exact List.prefix_rfl

theorem linearized_of_steps (hopened : OpenedStore host path uid capacity store)
    (hm : Encodes uid m s) {c : CallPool ι}
    (h : Relation.ReflTransGen (PoolStep (lockedHandler host)) (callsAt store calls s) c) :
    Linearized uid store calls m c := by
  have hstart : Serial fileLock (sectionHandler host) LockedFs.base LockedFs.holder
      (fun i => underLock store (calls i)) (s, []) (callsAt store calls s) [] (s, []) := by
    refine Prog.serial_start (c := callsAt store calls s) rfl ?_
    rintro i p hi
    cases hi
    exact checkAndRecord_eq_guard hopened
  obtain ⟨log, mid, hc⟩ := hstart.run_of_steps (fileLock_locks host)
    (fun i => performs_underLock store (calls i)) h
  exact linearized_of_serial hopened hm hc

/-- **Concurrent calls are linearizable.** A store that was opened on a well-formed directory
encodes a map. Whatever the interleaving of the calls and the readings of the clock, in every state
the calls are those of an in-memory store that starts with the map, in the order of the readings;
and the order of a state is kept by all later ones. -/
theorem linearizable (host : FsHost) (path : Path) (uid capacity : Nat) {s s₀ : Fs}
    {store : FileReplayStore ctrlOps} (hs : s.Holds (EntryOk host.uid))
    (hopen : Outcome (okHandler host) (openStore path uid capacity) s (.ok store) s₀)
    (calls : ι → RecordCall) :
    (∃ m, Encodes uid m s₀) ∧ ∀ m, Encodes uid m s₀ → ∀ c d : CallPool ι,
      Relation.ReflTransGen (PoolStep (lockedHandler host)) (callsAt store calls s₀) c →
      Relation.ReflTransGen (PoolStep (lockedHandler host)) c d →
      Linearized uid store calls m d ∧ c.shared.readings <+: d.shared.readings := by
  obtain ⟨hopened, hs₀, hrecovered⟩ := openStore_outcome hs hopen
  obtain rfl := hopened.uid_eq
  refine ⟨exists_encodes hs₀ hrecovered.lock hrecovered.noPending, ?_⟩
  intro m hm c d hc hd
  exact ⟨linearized_of_steps hopened hm (hc.trans hd), readings_of_steps hd⟩

/-! ## Two calls with one key -/

omit [DecidableEq ι] in
/-- A program of the directory runs next to a lock that is held. -/
theorem outcome_locked {p : Prog fileOps (Except DpopPortError ReplayStatus)} {t : LockedFs ι}
    {r : Except DpopPortError ReplayStatus} {fs' : Fs}
    (h : Outcome (okHandler host) p t.fs r fs') :
    Outcome (lockedHandler host i) p.inl t r { t with fs := fs' } := by
  induction p generalizing t with
  | ret a =>
    obtain ⟨rfl, rfl⟩ := h
    exact ⟨rfl, rfl⟩
  | call op k ih =>
    obtain ⟨x, fs₁, hop, h⟩ := h
    exact ⟨x, { t with fs := fs₁ }, ⟨fs₁, hop, rfl⟩, ih x h⟩

/-- A call that runs alone, with any reading. -/
theorem exists_call (hopened : OpenedStore host path uid capacity store) {c : CallPool ι}
    (hi : c.thread i = some (recordProgram store (calls i))) (hfree : c.shared.holder = none)
    (now : I64) : ∃ r fs',
      Relation.ReflTransGen (PoolStep (lockedHandler host)) c
        (c.set i (.ret r) ⟨fs', none, c.shared.readings ++ [(i, .ok now)]⟩) := by
  obtain ⟨r, fs', hsection⟩ := Prog.exists_outcome (okHandler_total host)
    (store.directory.recordMarker store.capacity now (calls i).key (calls i).expires) c.shared.fs
  refine ⟨r, fs', Prog.Outcome.pool_run ?_ hi⟩
  rw [recordProgram, checkAndRecord_eq_guard hopened]
  -- the lock, the reading, the section and the release
  let read : LockedFs ι := ⟨c.shared.fs, some i, c.shared.readings ++ [(i, .ok now)]⟩
  have hbody : Outcome (lockedHandler host i) (underLock store (calls i))
      ⟨c.shared.fs, some i, c.shared.readings⟩ r { read with fs := fs' } :=
    ⟨(.ok now : Except DpopPortError I64), read, rfl, outcome_locked (t := read) hsection⟩
  refine ⟨(.ok () : Except DpopPortError Unit), _, Or.inr ⟨hfree, rfl, rfl⟩, ?_⟩
  exact Prog.outcome_bind.2 ⟨r, { read with fs := fs' }, hbody, (), _, rfl, rfl, rfl⟩

end Calls

def sampleCalls : Fin 2 → RecordCall := fun _ => ⟨sampleKey, lastSecond, firstCall.nonneg⟩

theorem linearizable_sample : ∃ store s₀ d,
    Outcome (okHandler sampleHost) (openStore samplePath 1000 8) emptyDirectory (.ok store) s₀ ∧
      Relation.ReflTransGen (PoolStep (lockedHandler sampleHost)) (callsAt store sampleCalls s₀) d ∧
      d.thread 0 = some (.ret (.ok .fresh)) ∧ d.thread 1 = some (.ret (.ok .replay)) ∧
      Linearized 1000 store sampleCalls .empty d := by
  obtain ⟨⟨store, s₀, hopen⟩, -⟩ := openStore_succeeds
    (isEmpty_emptyDirectory.holds (EntryOk sampleHost.uid)) (by decide : 8 ≠ 0) rfl
    serviceOwned_sample
  obtain ⟨hopened, hs₀, hrecovered⟩ := openStore_outcome (isEmpty_emptyDirectory.holds _) hopen
  have hm := encodes_empty isEmpty_emptyDirectory hs₀ hrecovered
  -- one call after the other
  obtain ⟨r₀, fs₀, hfirst⟩ := exists_call hopened (c := callsAt store sampleCalls s₀) (i := 0) rfl
    rfl sampleTime
  obtain ⟨r₁, fs₁, hsecond⟩ := exists_call hopened (i := 1)
    (c := (callsAt store sampleCalls s₀).set 0 (.ret r₀) ⟨fs₀, none, _⟩) rfl rfl lastSecond
  have hrun := hfirst.trans hsecond
  have hlinear := ((linearizable sampleHost samplePath 1000 8 (isEmpty_emptyDirectory.holds _)
    hopen sampleCalls).2 .empty hm _ _ hfirst hsecond).1
  have hanswers : memAnswers store sampleCalls [(0, .ok sampleTime), (1, .ok lastSecond)] .empty =
      [(0, .ok .fresh), (1, .ok .replay)] := by
    have hroom : ∀ hne, (memRun 8 hne
        ([(0, .ok sampleTime), (1, .ok lastSecond)].map fun entry : Fin 2 × _ =>
          (sampleCalls entry.1).at entry.2) .empty).1 = [.ok .fresh, .ok .replay] := by
      decide +kernel
    obtain ⟨clock, directory, capacity, file, lock, hne⟩ := store
    cases hopened.capacity_eq
    exact congrArg _ (hroom hne)
  have hanswer : ∀ i r, (i, r) ∈ memAnswers store sampleCalls
      [(0, .ok sampleTime), (1, .ok lastSecond)] .empty →
      r = if i = 0 then .ok .fresh else .ok .replay := by
    intro i r hmem
    rw [hanswers] at hmem
    simp only [List.mem_cons, Prod.mk.injEq, List.not_mem_nil, or_false] at hmem
    rcases hmem with ⟨rfl, rfl⟩ | ⟨rfl, rfl⟩
    · rfl
    · rfl
  have hfresh : r₀ = .ok .fresh := by
    rcases hlinear.returned 0 r₀ rfl with hmem | ⟨-, hnot⟩
    · exact hanswer 0 r₀ hmem
    · exact absurd List.mem_cons_self hnot
  have hreplay : r₁ = .ok .replay := by
    rcases hlinear.returned 1 r₁ rfl with hmem | ⟨-, hnot⟩
    · exact hanswer 1 r₁ hmem
    · exact absurd (List.mem_cons_of_mem _ List.mem_cons_self) hnot
  subst hfresh hreplay
  exact ⟨store, s₀, _, hopen, hrun, rfl, rfl, hlinear⟩

end Keylix.Verifier

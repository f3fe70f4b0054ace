import Keylix.Lib.Program

/-!
# Sections under one lock

Threads that share a state and a lock. A thread asks for the lock; it is refused, or it runs a body
of operations on the shared state, releases the lock and returns what the body returned
(`Lock.guard`).

`Serial` relates a pool of such threads to a log: the bodies that ran to their end with their
results, in the order of their sections. Every interleaving is a run of these bodies one after
another (`Serial.run_of_steps`), and a later state extends the log of an earlier one, so that a
thread that returned before another one started comes before it.
-/

set_option autoImplicit false

namespace Keylix.Lib.Prog

variable {S : Signature} {ι α σ τ : Type}

/-- A lock: the operations that take it and give it back, and what a refusal returns. -/
structure Lock (S : Signature) (α : Type) where
  acquire : S.Op
  release : S.Op
  refusal : S.Res acquire → Option α

/-- An operation that has nothing to do with the lock. -/
def Lock.Foreign (L : Lock S α) (op : S.Op) : Prop := op ≠ L.acquire ∧ op ≠ L.release

/-- The rest of a section: the body, then the release. -/
def Lock.leave (L : Lock S α) (rest : Prog S α) : Prog S α :=
  rest >>= fun a => .call L.release fun _ => .ret a

/-- A body under the lock. -/
def Lock.guard (L : Lock S α) (body : Prog S α) : Prog S α :=
  .call L.acquire fun x =>
    match L.refusal x with
    | some a => .ret a
    | none => L.leave body

/-- The operations of the thread `i` on a shared state: the lock has one holder, and the other
operations act on the part of the state that the bodies work on. -/
structure Locks (L : Lock S α) (G : ι → Handler S τ) (H : ι → Handler S σ) (base : τ → σ)
    (holder : τ → Option ι) : Prop where
  granted : ∀ {i t x t'}, G i L.acquire t x t' → L.refusal x = none →
    base t' = base t ∧ holder t = none ∧ holder t' = some i
  refused : ∀ {i t x t' a}, G i L.acquire t x t' → L.refusal x = some a →
    base t' = base t ∧ holder t' = holder t
  released : ∀ {i t x t'}, G i L.release t x t' → base t' = base t ∧ holder t' = none
  foreign : ∀ {i op t x t'}, L.Foreign op → G i op t x t' →
    H i op (base t) x (base t') ∧ holder t' = holder t

/-! ## Bodies one after another -/

section Runs

variable {H : ι → Handler S σ} {K : Handler S σ} {body : ι → Prog S α} {p q : Prog S α}
  {s s₁ s' : σ} {r : α}

/-- The bodies of a log, each from the state that the one before it left. -/
def SerialRun (H : ι → Handler S σ) (body : ι → Prog S α) : List (ι × α) → σ → σ → Prop
  | [], s, s' => s' = s
  | (i, a) :: log, s, s' => ∃ s₁, Outcome (H i) (body i) s a s₁ ∧ SerialRun H body log s₁ s'

theorem serialRun_append {log log' : List (ι × α)} :
    SerialRun H body (log ++ log') s s' ↔
      ∃ s₁, SerialRun H body log s s₁ ∧ SerialRun H body log' s₁ s' := by
  induction log generalizing s with
  | nil => simp [SerialRun]
  | cons entry log ih =>
    simp only [List.cons_append, SerialRun, ih]
    constructor
    · rintro ⟨s₁, hbody, s₂, hlog, hlog'⟩
      exact ⟨s₂, ⟨s₁, hbody, hlog⟩, hlog'⟩
    · rintro ⟨s₂, ⟨s₁, hbody, hlog⟩, hlog'⟩
      exact ⟨s₁, hbody, s₂, hlog, hlog'⟩

/-- A run that was reached and goes on to a result is a complete run. -/
theorem Reach.outcome (h : Reach K (p, s) (q, s₁)) (hq : Outcome K q s₁ r s') :
    Outcome K p s r s' := by
  generalize hc : (p, s) = c at h
  generalize hd : (q, s₁) = d at h
  induction h using Relation.ReflTransGen.head_induction_on generalizing p s with
  | refl =>
    cases hc.trans hd.symm
    exact hq
  | head hstep _ ih =>
    subst hc
    cases hstep with
    | call hop => exact ⟨_, _, hop, ih rfl⟩

end Runs

/-! ## Interleaved sections -/

section Sections

variable {L : Lock S α} {G : ι → Handler S τ} {H : ι → Handler S σ} {base : τ → σ}
  {holder : τ → Option ι} {body : ι → Prog S α} {s₀ mid mid' s s' : σ} {log log' : List (ι × α)}
  {i j : ι} {o o' : Option ι} {p : Prog S α}

/-- A thread between two of its operations. The bodies of the log left the state `mid`, and `s` is
the state now. -/
inductive InSection (L : Lock S α) (K : Handler S σ) (body : Prog S α) (i : ι)
    (log : List (ι × α)) (mid s : σ) (o : Option ι) : Prog S α → Prop where
  | waiting (hout : o ≠ some i) (hnew : ∀ a, (i, a) ∉ log) :
      InSection L K body i log mid s o (L.guard body)
  | refused {x : S.Res L.acquire} {a : α} (hout : o ≠ some i) (hnew : ∀ a, (i, a) ∉ log)
      (hx : L.refusal x = some a) : InSection L K body i log mid s o (.ret a)
  | inside {rest : Prog S α} (hin : o = some i) (hnew : ∀ a, (i, a) ∉ log)
      (hreach : Reach K (body, mid) (rest, s)) (hforeign : Performs L.Foreign rest) :
      InSection L K body i log mid s o (L.leave rest)
  | returned {a : α} (hout : o ≠ some i) (hlog : (i, a) ∈ log) :
      InSection L K body i log mid s o (.ret a)

/-- A step of another thread: it does not take the lock from this one, and it works on the state
only while this one is outside. -/
theorem InSection.frame (h : InSection L (H j) (body j) j log mid s o p)
    (hholder : o' = some j ↔ o = some j) (hinside : o = some j → mid' = mid ∧ s' = s)
    (hlog : ∀ a, (j, a) ∈ log' ↔ (j, a) ∈ log) :
      InSection L (H j) (body j) j log' mid' s' o' p := by
  have hnew' : (∀ a, (j, a) ∉ log) → ∀ a, (j, a) ∉ log' := fun hnew a ha => hnew a ((hlog a).1 ha)
  cases h with
  | waiting hout hnew => exact .waiting (fun he => hout (hholder.1 he)) (hnew' hnew)
  | refused hout hnew hx => exact .refused (fun he => hout (hholder.1 he)) (hnew' hnew) hx
  | inside hin hnew hreach hforeign =>
    obtain ⟨rfl, rfl⟩ := hinside hin
    exact .inside (hholder.2 hin) (hnew' hnew) hreach hforeign
  | returned hout hmem => exact .returned (fun he => hout (hholder.1 he)) ((hlog _).2 hmem)

/-- A pool of sections and the log of those that ran to their end. -/
structure Serial (L : Lock S α) (H : ι → Handler S σ) (base : τ → σ) (holder : τ → Option ι)
    (body : ι → Prog S α) (s₀ : σ) (c : Pool ι S α τ) (log : List (ι × α)) (mid : σ) : Prop where
  run : SerialRun H body log s₀ mid
  nodup : (log.map Prod.fst).Nodup
  /-- Between two sections nothing happens to the state. -/
  free : holder c.shared = none → base c.shared = mid
  /-- The holder is somewhere in its body, for the first time. -/
  held : ∀ i, holder c.shared = some i →
    (∀ a, (i, a) ∉ log) ∧ ∃ rest, Reach (H i) (body i, mid) (rest, base c.shared)
  threads : ∀ i p, c.thread i = some p →
    InSection L (H i) (body i) i log mid (base c.shared) (holder c.shared) p

/-- Before any thread has started. -/
theorem serial_start {c : Pool ι S α τ} (hfree : holder c.shared = none)
    (hc : ∀ i p, c.thread i = some p → p = L.guard (body i)) :
    Serial L H base holder body (base c.shared) c [] (base c.shared) where
  run := rfl
  nodup := List.nodup_nil
  free := fun _ => rfl
  held := by
    intro i hi
    rw [hfree] at hi
    cases hi
  threads := by
    intro i p hi
    rw [hc i p hi]
    exact .waiting (by rw [hfree]; exact Option.some_ne_none i ∘ Eq.symm)
      (fun a => List.not_mem_nil)

variable [DecidableEq ι] {c d : Pool ι S α τ}

/-- The thread that moves is where `p` says, and every other thread is framed. -/
theorem Serial.set (hc : Serial L H base holder body s₀ c log mid) {t' : τ}
    (hrun : SerialRun H body log' s₀ mid') (hnodup : (log'.map Prod.fst).Nodup)
    (hfree : holder t' = none → base t' = mid')
    (hheld : ∀ j, holder t' = some j →
      (∀ a, (j, a) ∉ log') ∧ ∃ rest, Reach (H j) (body j, mid') (rest, base t'))
    (hself : InSection L (H i) (body i) i log' mid' (base t') (holder t') p)
    (hholder : ∀ j, j ≠ i → (holder t' = some j ↔ holder c.shared = some j))
    (hinside : ∀ j, j ≠ i → holder c.shared = some j → mid' = mid ∧ base t' = base c.shared)
    (hlog : ∀ j, j ≠ i → ∀ a, (j, a) ∈ log' ↔ (j, a) ∈ log) :
    Serial L H base holder body s₀ (c.set i p t') log' mid' where
  run := hrun
  nodup := hnodup
  free := hfree
  held := hheld
  threads := by
    intro j q hj
    by_cases hij : j = i
    · subst hij
      rw [Pool.set_thread_self] at hj
      cases hj
      exact hself
    · rw [Pool.set_thread_of_ne hij] at hj
      exact (hc.threads j q hj).frame (hholder j hij) (hinside j hij) (hlog j hij)

/-- **One operation of one thread extends the log or leaves it.** -/
theorem Serial.step (hlocks : Locks L G H base holder)
    (hbody : ∀ i, Performs L.Foreign (body i))
    (hc : Serial L H base holder body s₀ c log mid) (hstep : PoolStep G c d) :
    ∃ later mid', Serial L H base holder body s₀ d (log ++ later) mid' := by
  cases hstep with
  | @call t' i op k x hi hop =>
    have hsec := hc.threads i _ hi
    generalize hp : Prog.call op k = p at hsec
    cases hsec with
    | refused hout hnew hx => cases hp
    | returned hout hlog => cases hp
    | waiting hout hnew =>
      cases hp
      cases hx : L.refusal x with
      | some a =>
        obtain ⟨hbase, hsame⟩ := hlocks.refused hop hx
        refine ⟨[], mid, ?_⟩
        rw [List.append_nil]
        refine hc.set hc.run hc.nodup ?_ ?_ ?_ ?_ ?_ fun _ _ _ => Iff.rfl
        · rw [hsame, hbase]
          exact hc.free
        · rw [hsame, hbase]
          exact hc.held
        · simp only [hx]
          exact .refused (hsame ▸ hout) hnew hx
        · exact fun j _ => by rw [hsame]
        · exact fun j _ _ => ⟨rfl, hbase⟩
      | none =>
        -- the lock was free, so that the body starts where the last one ended
        obtain ⟨hbase, hfree, hheld⟩ := hlocks.granted hop hx
        have hmid : base t' = mid := hbase.trans (hc.free hfree)
        refine ⟨[], mid, ?_⟩
        rw [List.append_nil]
        refine hc.set hc.run hc.nodup ?_ ?_ ?_ ?_ ?_ fun _ _ _ => Iff.rfl
        · exact fun _ => hmid
        · intro j hj
          rw [hheld] at hj
          cases hj
          exact ⟨hnew, body i, hmid ▸ .refl⟩
        · simp only [hx]
          rw [hmid]
          exact .inside hheld hnew .refl (hbody i)
        · intro j hij
          rw [hheld, hfree]
          exact ⟨fun he => absurd (Option.some.inj he).symm hij, fun he => by cases he⟩
        · intro j _ he
          rw [hfree] at he
          cases he
    | @inside rest hin hnew hreach hforeign =>
      -- no other thread is inside
      have hothers : ∀ j, j ≠ i → holder c.shared ≠ some j := by
        intro j hij he
        rw [hin] at he
        exact hij (Option.some.inj he).symm
      cases rest with
      | ret a =>
        cases hp
        obtain ⟨hbase, hfree⟩ := hlocks.released hop
        have hout : Outcome (H i) (body i) mid a (base t') :=
          hbase ▸ hreach.outcome ⟨rfl, rfl⟩
        refine ⟨[(i, a)], base t', ?_⟩
        refine hc.set ?_ ?_ (fun _ => rfl) ?_ ?_ ?_ ?_ ?_
        · exact serialRun_append.2 ⟨mid, hc.run, base t', hout, rfl⟩
        · rw [List.map_append, List.nodup_append]
          refine ⟨hc.nodup, List.nodup_singleton _, ?_⟩
          rintro j hj j' hj' rfl
          obtain ⟨⟨j', b⟩, hmem, rfl⟩ := List.mem_map.1 hj
          rw [List.map_singleton, List.mem_singleton] at hj'
          subst hj'
          exact hnew b hmem
        · intro j hj
          rw [hfree] at hj
          cases hj
        · exact .returned (by rw [hfree]; exact Option.some_ne_none i ∘ Eq.symm)
            (List.mem_append_right _ (List.mem_singleton.2 rfl))
        · intro j hij
          refine ⟨fun he => ?_, fun he => absurd he (hothers j hij)⟩
          rw [hfree] at he
          cases he
        · exact fun j hij he => absurd he (hothers j hij)
        · intro j hij b
          rw [List.mem_append, List.mem_singleton]
          exact or_iff_left fun he => hij (congrArg Prod.fst he)
      | call op' k' =>
        cases hp
        obtain ⟨hbody', hsame⟩ := hlocks.foreign hforeign.1 hop
        have hreach' : Reach (H i) (body i, mid) (k' x, base t') := hreach.tail (.call hbody')
        refine ⟨[], mid, ?_⟩
        rw [List.append_nil]
        refine hc.set hc.run hc.nodup ?_ ?_ ?_ ?_ ?_ fun _ _ _ => Iff.rfl
        · rw [hsame, hin]
          exact fun he => by cases he
        · intro j hj
          rw [hsame, hin] at hj
          cases hj
          exact ⟨hnew, k' x, hreach'⟩
        · exact .inside (hsame.trans hin) hnew hreach' (hforeign.2 x)
        · exact fun j _ => by rw [hsame]
        · exact fun j hij he => absurd he (hothers j hij)

/-- **Every interleaving is a run of the bodies one after another**, in an order that a later state
only extends. -/
theorem Serial.run_of_steps (hlocks : Locks L G H base holder)
    (hbody : ∀ i, Performs L.Foreign (body i))
    (hc : Serial L H base holder body s₀ c log mid)
    (hrun : Relation.ReflTransGen (PoolStep G) c d) :
    ∃ later mid', Serial L H base holder body s₀ d (log ++ later) mid' := by
  induction hrun with
  | refl => exact ⟨[], mid, by rw [List.append_nil]; exact hc⟩
  | tail _ hstep ih =>
    obtain ⟨later, mid', hserial⟩ := ih
    obtain ⟨last, mid'', hserial'⟩ := hserial.step hlocks hbody hstep
    exact ⟨later ++ last, mid'', by rw [← List.append_assoc]; exact hserial'⟩

omit [DecidableEq ι] in
/-- A thread that returned was refused the lock, or its result is in the log. -/
theorem Serial.returned (hc : Serial L H base holder body s₀ c log mid) {a : α}
    (hi : c.thread i = some (.ret a)) :
    (i, a) ∈ log ∨
      holder c.shared ≠ some i ∧ (∀ b, (i, b) ∉ log) ∧ ∃ x, L.refusal x = some a := by
  have hsec := hc.threads i _ hi
  generalize hp : Prog.ret a = p at hsec
  cases hsec with
  | waiting hout hnew => cases hp
  | refused hout hnew hx =>
    cases hp
    exact Or.inr ⟨hout, hnew, _, hx⟩
  | @inside rest hin hnew hreach hforeign =>
    cases rest with
    | ret b => cases hp
    | call op k => cases hp
  | returned hout hlog =>
    cases hp
    exact Or.inl hlog

omit [DecidableEq ι] in
/-- A thread that has not started is neither inside nor in the log. -/
theorem Serial.waiting (hc : Serial L H base holder body s₀ c log mid)
    (hne : L.acquire ≠ L.release) (hi : c.thread i = some (L.guard (body i))) :
    holder c.shared ≠ some i ∧ ∀ a, (i, a) ∉ log := by
  have hsec := hc.threads i _ hi
  generalize hp : L.guard (body i) = p at hsec
  unfold Lock.guard at hp
  cases hsec with
  | waiting hout hnew => exact ⟨hout, hnew⟩
  | refused hout hnew hx => exact ⟨hout, hnew⟩
  | @inside rest hin hnew hreach hforeign =>
    -- the first operation of a thread inside is not the request for the lock
    exfalso
    cases rest with
    | ret a => exact hne (Prog.call.inj hp).1
    | call op k => exact hforeign.1.1 (Prog.call.inj hp).1.symm
  | returned hout hlog => cases hp

end Sections

/-! ## A thread alone -/

/-- A complete run of one program is a run of the pool in which no other thread moves. -/
theorem Outcome.pool_run [DecidableEq ι] {G : ι → Handler S τ} {i : ι} {p : Prog S α} {r : α}
    {c : Pool ι S α τ} {t' : τ} (h : Outcome (G i) p c.shared r t') (hi : c.thread i = some p) :
    Relation.ReflTransGen (PoolStep G) c (c.set i (.ret r) t') := by
  induction p generalizing c with
  | ret a =>
    obtain ⟨rfl, rfl⟩ := h
    have hsame : c.set i (.ret r) c.shared = c := by
      rw [Pool.set, ← hi, Function.update_eq_self]
    rw [hsame]
  | call op k ih =>
    obtain ⟨x, t, hop, h⟩ := h
    have hrest := ih x (c := c.set i (k x) t) h (Pool.set_thread_self c i (k x) t)
    rw [Pool.set, Pool.set, Function.update_idem] at hrest
    exact hrest.head (.call i hi hop)

end Keylix.Lib.Prog

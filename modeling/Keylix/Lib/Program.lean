import Mathlib

/-!
# Programs over an operation signature

A program performs operations of a signature one after another and continues with each response;
it fixes no meaning for the operations. Three meanings are given here.

* `exec` runs a program under a deterministic interpretation of the operations.
* `Outcome` is the complete runs under a relational interpretation (`Handler`), and `Reach` the
  unfinished ones: every configuration between two operations is a place where a machine may stop.
* `PoolStep` interleaves any number of programs over one shared state, one operation at a time.

`Returns` and `Performs` need no meaning of the operations: they speak of every result and of every
operation of a program, whatever the answers. `Safe H I Q p s` is the proof rule for the relational
meaning: from `s`, every configuration that `p` can reach satisfies the step invariant `I`, and
every result satisfies `Q`.
-/

set_option autoImplicit false

namespace Keylix.Lib

/-- A fallible computation with a result: its first part has one. -/
theorem bind_eq_ok_iff {ε α β : Type} {x : Except ε α} {f : α → Except ε β} {b : β} :
    (x >>= f) = .ok b ↔ ∃ a, x = .ok a ∧ f a = .ok b := by
  cases x with
  | error e => simp [bind, Except.bind]
  | ok a => simp [bind, Except.bind]

theorem bind_eq_error_iff {ε α β : Type} {x : Except ε α} {f : α → Except ε β} {e : ε} :
    (x >>= f) = .error e ↔ x = .error e ∨ ∃ a, x = .ok a ∧ f a = .error e := by
  cases x with
  | error e' => simp [bind, Except.bind]
  | ok a => simp [bind, Except.bind]

theorem map_eq_error_iff {ε α β : Type} {x : Except ε α} {f : α → β} {e : ε} :
    x.map f = .error e ↔ x = .error e := by
  cases x with
  | error e' => simp [Except.map]
  | ok a => simp [Except.map]

theorem map_eq_ok_iff {ε α β : Type} {x : Except ε α} {f : α → β} {b : β} :
    x.map f = .ok b ↔ ∃ a, x = .ok a ∧ f a = b := by
  cases x with
  | error e => simp [Except.map]
  | ok a => simp [Except.map]

/-- A signature: the operations and the type of the response to each. -/
structure Signature where
  Op : Type
  Res : Op → Type

/-- The operations of two signatures. -/
def Signature.sum (S T : Signature) : Signature where
  Op := S.Op ⊕ T.Op
  Res
    | .inl op => S.Res op
    | .inr op => T.Res op

/-- A program over `S` with results in `α`. -/
inductive Prog (S : Signature) (α : Type) : Type where
  | ret (a : α) : Prog S α
  | call (op : S.Op) (k : S.Res op → Prog S α) : Prog S α

namespace Prog

variable {S : Signature} {α β γ σ : Type}

/-- One operation. -/
def perform (op : S.Op) : Prog S (S.Res op) := .call op .ret

/-- Sequencing. -/
def bind : Prog S α → (α → Prog S β) → Prog S β
  | .ret a, f => f a
  | .call op k, f => .call op fun x => (k x).bind f

instance : Monad (Prog S) where
  pure := .ret
  bind := bind

@[simp] theorem pure_eq (a : α) : (pure a : Prog S α) = .ret a := rfl

@[simp] theorem bind_ret (a : α) (f : α → Prog S β) : (Prog.ret a >>= f) = f a := rfl

@[simp] theorem bind_call (op : S.Op) (k : S.Res op → Prog S α) (f : α → Prog S β) :
    (Prog.call op k >>= f) = .call op fun x => k x >>= f := rfl

@[simp] theorem bind_perform (op : S.Op) (f : S.Res op → Prog S β) :
    (perform op >>= f) = .call op f := rfl

@[simp] theorem bind_assoc_prog (p : Prog S α) (f : α → Prog S β) (g : β → Prog S γ) :
    ((p >>= f) >>= g) = (p >>= fun a => f a >>= g) := by
  induction p with
  | ret a => rfl
  | call op k ih =>
    simp only [bind_call]
    congr 1
    funext x
    exact ih x

/-- The program with the operations of a larger signature. -/
def inl {T : Signature} : Prog S α → Prog (S.sum T) α
  | .ret a => .ret a
  | .call op k => .call (S := S.sum T) (.inl op) fun x => (k x).inl

theorem inl_bind {T : Signature} (p : Prog S α) (f : α → Prog S β) :
    ((p >>= f).inl : Prog (S.sum T) β) = p.inl >>= fun a => (f a).inl := by
  induction p with
  | ret a => rfl
  | call op k ih =>
    simp only [bind_call, inl]
    congr 1
    funext x
    exact ih x

/-- The program with the operations of a larger signature, on the other side. -/
def inr {T : Signature} : Prog T α → Prog (S.sum T) α
  | .ret a => .ret a
  | .call op k => .call (S := S.sum T) (.inr op) fun x => (k x).inr

/-- Continues with the value of a fallible program; any failure of it is the failure `e`. -/
def propagate {ε ε' : Type} (e : ε') (p : Prog S (Except ε α))
    (f : α → Prog S (Except ε' β)) : Prog S (Except ε' β) :=
  p >>= fun
    | .error _ => .ret (.error e)
    | .ok a => f a

/-! ## Deterministic interpretation -/

/-- Runs a program with a function that answers each operation. -/
def exec (h : (op : S.Op) → σ → S.Res op × σ) : Prog S α → σ → α × σ
  | .ret a, s => (a, s)
  | .call op k, s => exec h (k (h op s).1) (h op s).2

section Exec

variable (h : (op : S.Op) → σ → S.Res op × σ)

@[simp] theorem exec_ret (a : α) (s : σ) : exec h (.ret a) s = (a, s) := rfl

@[simp] theorem exec_call (op : S.Op) (k : S.Res op → Prog S α) (s : σ) :
    exec h (.call op k) s = exec h (k (h op s).1) (h op s).2 := rfl

theorem exec_bind (p : Prog S α) (f : α → Prog S β) (s : σ) :
    exec h (p >>= f) s = exec h (f (exec h p s).1) (exec h p s).2 := by
  induction p generalizing s with
  | ret a => rfl
  | call op k ih => exact ih _ _

/-- The two parts of a larger signature act on their own part of the state. -/
def sumExec {T : Signature} {τ : Type} (h : (op : S.Op) → σ → S.Res op × σ)
    (g : (op : T.Op) → τ → T.Res op × τ) :
    (op : (S.sum T).Op) → σ × τ → (S.sum T).Res op × (σ × τ)
  | .inl op, s => ((h op s.1).1, ((h op s.1).2, s.2))
  | .inr op, s => ((g op s.2).1, (s.1, (g op s.2).2))

/-- A program of the first part leaves the second part of the state alone. -/
@[simp] theorem exec_inl {T : Signature} {τ : Type} (g : (op : T.Op) → τ → T.Res op × τ)
    (p : Prog S α) (s : σ × τ) :
    exec (sumExec h g) p.inl s = ((exec h p s.1).1, ((exec h p s.1).2, s.2)) := by
  induction p generalizing s with
  | ret a => rfl
  | call op k ih => exact ih _ _

end Exec

/-! ## Relational interpretation -/

/-- A relational interpretation: `H op s x s'` when `op` may answer `x` in the state `s` and
leave `s'`. -/
abbrev Handler (S : Signature) (σ : Type) := (op : S.Op) → σ → S.Res op → σ → Prop

/-- The complete runs of a program. -/
def Outcome (H : Handler S σ) : Prog S α → σ → α → σ → Prop
  | .ret a, s, r, s' => r = a ∧ s' = s
  | .call op k, s, r, s' => ∃ x s₁, H op s x s₁ ∧ Outcome H (k x) s₁ r s'

/-- One operation of a run. -/
inductive Step (H : Handler S σ) : Prog S α × σ → Prog S α × σ → Prop where
  | call {op : S.Op} {k : S.Res op → Prog S α} {s s' : σ} {x : S.Res op} (h : H op s x s') :
      Step H (.call op k, s) (k x, s')

/-- The configurations of a run, finished or not. -/
abbrev Reach (H : Handler S σ) : Prog S α × σ → Prog S α × σ → Prop :=
  Relation.ReflTransGen (Step H)

/-- The end of a complete run is reached. -/
theorem Outcome.reach {H : Handler S σ} {p : Prog S α} {s s' : σ} {r : α} (h : Outcome H p s r s') :
    Reach H (p, s) (.ret r, s') := by
  induction p generalizing s with
  | ret a =>
    obtain ⟨rfl, rfl⟩ := h
    exact .refl
  | call op k ih =>
    obtain ⟨x, s₁, hx, h⟩ := h
    exact (ih x h).head (.call hx)

/-- Every operation has an answer in every state. -/
def Handler.Total (H : Handler S σ) : Prop := ∀ op s, ∃ x s', H op s x s'

/-- Under a total interpretation every program runs to a result. -/
theorem exists_outcome {H : Handler S σ} (hH : Handler.Total H) (p : Prog S α) (s : σ) :
    ∃ r s', Outcome H p s r s' := by
  induction p generalizing s with
  | ret a => exact ⟨a, s, rfl, rfl⟩
  | call op k ih =>
    obtain ⟨x, s₁, hx⟩ := hH op s
    obtain ⟨r, s', hr⟩ := ih x s₁
    exact ⟨r, s', x, s₁, hx, hr⟩

/-- A function that answers as the relation allows runs the program as the relation allows. -/
theorem outcome_exec {H : Handler S σ} {h : (op : S.Op) → σ → S.Res op × σ}
    (hh : ∀ op s, H op s (h op s).1 (h op s).2) (p : Prog S α) (s : σ) :
    Outcome H p s (exec h p s).1 (exec h p s).2 := by
  induction p generalizing s with
  | ret a => exact ⟨rfl, rfl⟩
  | call op k ih => exact ⟨_, _, hh op s, ih _ _⟩

/-- An interpretation that allows more has the same runs and others. -/
theorem Outcome.mono {H G : Handler S σ} (hHG : ∀ op s x s', H op s x s' → G op s x s')
    {p : Prog S α} {s s' : σ} {r : α} (h : Outcome H p s r s') : Outcome G p s r s' := by
  induction p generalizing s with
  | ret a => exact h
  | call op k ih =>
    obtain ⟨x, s₁, hx, h⟩ := h
    exact ⟨x, s₁, hHG op s x s₁ hx, ih x h⟩

theorem outcome_bind {H : Handler S σ} {p : Prog S α} {f : α → Prog S β} {s s' : σ} {r : β} :
    Outcome H (p >>= f) s r s' ↔ ∃ a s₁, Outcome H p s a s₁ ∧ Outcome H (f a) s₁ r s' := by
  induction p generalizing s with
  | ret a => simp [Outcome]
  | call op k ih =>
    simp only [bind_call, Outcome, ih]
    constructor
    · rintro ⟨x, s₁, hx, a, s₂, ha, hr⟩
      exact ⟨a, s₂, ⟨x, s₁, hx, ha⟩, hr⟩
    · rintro ⟨a, s₂, ⟨x, s₁, hx, ha⟩, hr⟩
      exact ⟨x, s₁, hx, a, s₂, ha, hr⟩

/-- The two parts of a larger signature act on their own part of the state. -/
def sumHandler {T : Signature} {τ : Type} (H : Handler S σ) (G : Handler T τ) :
    Handler (S.sum T) (σ × τ)
  | .inl op, s, x, s' => H op s.1 x s'.1 ∧ s'.2 = s.2
  | .inr op, s, x, s' => G op s.2 x s'.2 ∧ s'.1 = s.1

/-- A program of the first part runs there, and leaves the second part of the state alone. -/
theorem outcome_inl {T : Signature} {τ : Type} {H : Handler S σ} {G : Handler T τ} {p : Prog S α}
    {s s' : σ × τ} {r : α} :
    Outcome (sumHandler H G) p.inl s r s' ↔ s'.2 = s.2 ∧ Outcome H p s.1 r s'.1 := by
  induction p generalizing s with
  | ret a =>
    obtain ⟨s₁, s₂⟩ := s
    obtain ⟨s₁', s₂'⟩ := s'
    simp only [inl, Outcome, Prod.mk.injEq]
    tauto
  | call op k ih =>
    constructor
    · rintro ⟨x, u, ⟨hx, hu⟩, h⟩
      obtain ⟨h₁, h₂⟩ := ih x |>.1 h
      exact ⟨h₁.trans hu, x, u.1, hx, h₂⟩
    · rintro ⟨h₁, x, u, hx, h₂⟩
      exact ⟨x, (u, s.2), ⟨hx, rfl⟩, (ih x).2 ⟨h₁, h₂⟩⟩

/-- A program of the second part runs there, and leaves the first part of the state alone. -/
theorem outcome_inr {T : Signature} {τ : Type} {H : Handler S σ} {G : Handler T τ} {p : Prog T α}
    {s s' : σ × τ} {r : α} :
    Outcome (sumHandler H G) p.inr s r s' ↔ s'.1 = s.1 ∧ Outcome G p s.2 r s'.2 := by
  induction p generalizing s with
  | ret a =>
    obtain ⟨s₁, s₂⟩ := s
    obtain ⟨s₁', s₂'⟩ := s'
    simp only [inr, Outcome, Prod.mk.injEq]
    tauto
  | call op k ih =>
    constructor
    · rintro ⟨x, u, ⟨hx, hu⟩, h⟩
      obtain ⟨h₁, h₂⟩ := ih x |>.1 h
      exact ⟨h₁.trans hu, x, u.2, hx, h₂⟩
    · rintro ⟨h₁, x, u, hx, h₂⟩
      exact ⟨x, (s.1, u), ⟨hx, rfl⟩, (ih x).2 ⟨h₁, h₂⟩⟩

/-- From `s`, every configuration the program reaches satisfies `I` and every result satisfies
`Q`. -/
def Safe (H : Handler S σ) (I : σ → Prop) (Q : α → σ → Prop) : Prog S α → σ → Prop
  | .ret a, s => I s ∧ Q a s
  | .call op k, s => I s ∧ ∀ x s', H op s x s' → Safe H I Q (k x) s'

section Safe

variable {H : Handler S σ} {I J : σ → Prop} {Q R : α → σ → Prop}

theorem Safe.inv {p : Prog S α} {s : σ} (h : Safe H I Q p s) : I s := by
  cases p with
  | ret a => exact h.1
  | call op k => exact h.1

/-- Consequence: the invariant and the postcondition may be weakened. -/
theorem Safe.mono {p : Prog S α} {s : σ} (h : Safe H I Q p s) (hI : ∀ s, I s → J s)
    (hQ : ∀ a s, I s → Q a s → R a s) : Safe H J R p s := by
  induction p generalizing s with
  | ret a => exact ⟨hI s h.1, hQ a s h.1 h.2⟩
  | call op k ih => exact ⟨hI s h.1, fun x s' hx => ih x (h.2 x s' hx)⟩

/-- Sequencing: the postcondition of the first program is the precondition of the second. -/
theorem Safe.bind {p : Prog S α} {f : α → Prog S β} {T : β → σ → Prop} {s : σ}
    (h : Safe H I Q p s) (hf : ∀ a s, I s → Q a s → Safe H I T (f a) s) :
    Safe H I T (p >>= f) s := by
  induction p generalizing s with
  | ret a => exact hf a s h.1 h.2
  | call op k ih => exact ⟨h.1, fun x s' hx => ih x (h.2 x s' hx)⟩

/-- The rule of a sequence, in the form that leaves the postcondition of the first program open. -/
theorem Safe.of_bind {p : Prog S α} {f : α → Prog S β} {T : β → σ → Prop} {s : σ}
    (h : Safe H I (fun a s => Safe H I T (f a) s) p s) : Safe H I T (p >>= f) s :=
  h.bind fun _ _ _ hq => hq

/-- The rule of a fallible first program. -/
theorem Safe.propagate {ε ε' : Type} {e : ε'} {p : Prog S (Except ε α)}
    {f : α → Prog S (Except ε' β)} {T : Except ε' β → σ → Prop} {s : σ}
    (h : Safe H I (fun r s => match r with
      | .error _ => T (.error e) s
      | .ok a => Safe H I T (f a) s) p s) : Safe H I T (Prog.propagate e p f) s := by
  apply h.bind
  intro r s hI hr
  cases r with
  | error _ => exact ⟨hI, hr⟩
  | ok a => exact hr

/-- One operation. -/
theorem Safe.perform {op : S.Op} {T : S.Res op → σ → Prop} {s : σ} (hI : I s)
    (h : ∀ x s', H op s x s' → I s' ∧ T x s') : Safe H I T (Prog.perform op) s :=
  ⟨hI, h⟩

/-- Fewer answers of the operations reach fewer configurations. -/
theorem Safe.handler_mono {H' : Handler S σ} {p : Prog S α} {s : σ} (h : Safe H I Q p s)
    (hH : ∀ op s x s', H' op s x s' → H op s x s') : Safe H' I Q p s := by
  induction p generalizing s with
  | ret a => exact h
  | call op k ih => exact ⟨h.1, fun x s' hx => ih x (h.2 x s' (hH op s x s' hx))⟩

/-- A program keeps its guarantees under a larger signature. -/
theorem Safe.inl {T : Signature} {H' : Handler (S.sum T) σ} {p : Prog S α} {s : σ}
    (h : Safe H I Q p s) (hH : ∀ op s x s', H' (.inl op) s x s' → H op s x s') :
    Safe H' I Q (p.inl : Prog (S.sum T) α) s := by
  induction p generalizing s with
  | ret a => exact h
  | call op k ih => exact ⟨h.1, fun x s' hx => ih x (h.2 x s' (hH op s x s' hx))⟩

/-- A program keeps its guarantees for the part of a state that its operations work on, next to an
invariant of the rest. -/
theorem Safe.inl_view {T : Signature} {τ : Type} {H' : Handler (S.sum T) τ} {view : τ → σ}
    {J : τ → Prop} {p : Prog S α} {t : τ} (h : Safe H I Q p (view t)) (ht : J t)
    (hH : ∀ op t x t', J t → H' (.inl op) t x t' → H op (view t) x (view t') ∧ J t') :
    Safe H' (fun t => I (view t) ∧ J t) (fun r t => Q r (view t)) (p.inl : Prog (S.sum T) α) t := by
  induction p generalizing t with
  | ret a => exact ⟨⟨h.1, ht⟩, h.2⟩
  | call op k ih =>
    refine ⟨⟨h.1, ht⟩, ?_⟩
    intro x t' hx
    obtain ⟨hview, ht'⟩ := hH op t x t' ht hx
    exact ih x (h.2 x (view t') hview) ht'

/-- An invariant of every operation is one of every program. -/
theorem Safe.of_invariant (hI : ∀ op s x s', I s → H op s x s' → I s') (p : Prog S α) {s : σ}
    (hs : I s) : Safe H I (fun _ _ => True) p s := by
  induction p generalizing s with
  | ret a => exact ⟨hs, trivial⟩
  | call op k ih => exact ⟨hs, fun x s' hx => ih x (hI op s x s' hs hx)⟩

/-- Every complete run of a safe program ends in the postcondition. -/
theorem Safe.outcome {p : Prog S α} {s s' : σ} {r : α} (h : Safe H I Q p s)
    (hr : Outcome H p s r s') : I s' ∧ Q r s' := by
  induction p generalizing s with
  | ret a =>
    obtain ⟨rfl, rfl⟩ := hr
    exact h
  | call op k ih =>
    obtain ⟨x, s₁, hx, hr⟩ := hr
    exact ih x (h.2 x s₁ hx) hr

/-- The postcondition of a safe program holds of its outcomes. -/
theorem Safe.and_outcome {p : Prog S α} {s : σ} (h : Safe H I Q p s) :
    Safe H I (fun a s' => Q a s' ∧ Outcome H p s a s') p s := by
  induction p generalizing s with
  | ret a => exact ⟨h.1, h.2, rfl, rfl⟩
  | call op k ih =>
    refine ⟨h.1, fun x s' hx => ?_⟩
    exact (ih x (h.2 x s' hx)).mono (fun _ hI => hI) fun a s₁ _ ⟨hQ, hrest⟩ =>
      ⟨hQ, x, s', hx, hrest⟩

theorem Safe.step {c d : Prog S α × σ} (h : Safe H I Q c.1 c.2) (hs : Step H c d) :
    Safe H I Q d.1 d.2 := by
  cases hs with
  | call hx => exact h.2 _ _ hx

/-- Every configuration of a run of a safe program is safe. -/
theorem Safe.reach {c d : Prog S α × σ} (h : Safe H I Q c.1 c.2) (hs : Reach H c d) :
    Safe H I Q d.1 d.2 := by
  induction hs with
  | refl => exact h
  | tail _ hstep ih => exact ih.step hstep

end Safe

/-! ## Programs without an interpretation -/

/-- Whatever the answers of the operations, every result satisfies `P`. -/
def Returns (P : α → Prop) : Prog S α → Prop
  | .ret a => P a
  | .call _ k => ∀ x, Returns P (k x)

/-- Whatever the answers of the operations, every operation satisfies `P`. -/
def Performs (P : S.Op → Prop) : Prog S α → Prop
  | .ret _ => True
  | .call op k => P op ∧ ∀ x, Performs P (k x)

theorem Returns.bind {P : α → Prop} {Q : β → Prop} {p : Prog S α} {f : α → Prog S β}
    (h : Returns P p) (hf : ∀ a, P a → Returns Q (f a)) : Returns Q (p >>= f) := by
  induction p with
  | ret a => exact hf a h
  | call op k ih => exact fun x => ih x (h x)

theorem Returns.mono {P Q : α → Prop} {p : Prog S α} (h : Returns P p) (hPQ : ∀ a, P a → Q a) :
    Returns Q p := by
  induction p with
  | ret a => exact hPQ a h
  | call op k ih => exact fun x => ih x (h x)

theorem returns_true (p : Prog S α) : Returns (fun _ => True) p := by
  induction p with
  | ret a => trivial
  | call op k ih => exact ih

theorem Returns.outcome {P : α → Prop} {H : Handler S σ} {p : Prog S α} {s s' : σ} {r : α}
    (h : Returns P p) (hr : Outcome H p s r s') : P r := by
  induction p generalizing s with
  | ret a =>
    obtain ⟨rfl, -⟩ := hr
    exact h
  | call op k ih =>
    obtain ⟨x, s₁, -, hr⟩ := hr
    exact ih x (h x) hr

/-- A program that performs only operations that keep an invariant. -/
theorem Safe.of_performs {P : S.Op → Prop} {H : Handler S σ} {I : σ → Prop} {p : Prog S α} {s : σ}
    (hI : ∀ op s x s', P op → I s → H op s x s' → I s') (hp : Performs P p) (hs : I s) :
    Safe H I (fun _ _ => True) p s := by
  induction p generalizing s with
  | ret a => exact ⟨hs, trivial⟩
  | call op k ih => exact ⟨hs, fun x s' hx => ih x (hp.2 x) (hI op s x s' hp.1 hs hx)⟩

/-- What holds of every result holds in every run. -/
theorem Safe.and_returns {P : α → Prop} {H : Handler S σ} {I : σ → Prop} {Q : α → σ → Prop}
    {p : Prog S α} {s : σ} (h : Safe H I Q p s) (hp : Returns P p) :
    Safe H I (fun a s => Q a s ∧ P a) p s := by
  induction p generalizing s with
  | ret a => exact ⟨h.1, h.2, hp⟩
  | call op k ih => exact ⟨h.1, fun x s' hx => ih x (h.2 x s' hx) (hp x)⟩

theorem Performs.bind {P : S.Op → Prop} {p : Prog S α} {f : α → Prog S β} (h : Performs P p)
    (hf : ∀ a, Performs P (f a)) : Performs P (p >>= f) := by
  induction p with
  | ret a => exact hf a
  | call op k ih => exact ⟨h.1, fun x => ih x (h.2 x)⟩

theorem performs_inl {T : Signature} {P : (S.sum T).Op → Prop} (h : ∀ op, P (.inl op))
    (p : Prog S α) : Performs P (p.inl : Prog (S.sum T) α) := by
  induction p with
  | ret a => trivial
  | call op k ih => exact ⟨h op, ih⟩

/-! ## Watched runs -/

/-- The meaning of the operations next to an observer that sees each operation with its answer. -/
def watched {ω : Type} (H : Handler S σ) (step : ω → (op : S.Op) → S.Res op → ω) :
    Handler S (σ × ω) :=
  fun op s x s' => H op s.1 x s'.1 ∧ s'.2 = step s.2 op x

section Watched

variable {ω : Type} {H : Handler S σ} {step : ω → (op : S.Op) → S.Res op → ω}

/-- The observer only looks: every run is a run with it. -/
theorem exists_outcome_watched {p : Prog S α} {s s' : σ} {r : α} (h : Outcome H p s r s') (w : ω) :
    ∃ w', Outcome (watched H step) p (s, w) r (s', w') := by
  induction p generalizing s w with
  | ret a =>
    obtain ⟨rfl, rfl⟩ := h
    exact ⟨w, rfl, rfl⟩
  | call op k ih =>
    obtain ⟨x, s₁, hx, h⟩ := h
    obtain ⟨w', h'⟩ := ih x h (step w op x)
    exact ⟨w', x, (s₁, step w op x), ⟨hx, rfl⟩, h'⟩

/-- One operation with the observer. -/
theorem Safe.watched_perform {op : S.Op} {T : S.Res op → σ × ω → Prop} {s : σ} {w : ω}
    (h : Safe H (fun _ => True) (fun x s' => T x (s', step w op x)) (Prog.perform op) s) :
    Safe (watched H step) (fun _ => True) T (Prog.perform op) (s, w) := by
  refine ⟨trivial, ?_⟩
  rintro x ⟨s', w'⟩ ⟨hx, rfl⟩
  exact ⟨trivial, (h.2 x s' hx).2⟩

/-- One operation whose answer the observer does not look at. -/
theorem Safe.watched_perform_of {op : S.Op} {T : S.Res op → σ × ω → Prop} {s : σ} {w w' : ω}
    (hstep : ∀ x, step w op x = w')
    (h : Safe H (fun _ => True) (fun x s' => T x (s', w')) (Prog.perform op) s) :
    Safe (watched H step) (fun _ => True) T (Prog.perform op) (s, w) := by
  apply Safe.watched_perform
  simp only [hstep]
  exact h

/-- A program of operations that the observer ignores. -/
theorem Safe.watched_of_performs {P : S.Op → Prop} {w : ω} (hstep : ∀ op x, P op → step w op x = w)
    {I : σ → Prop} {Q : α → σ → Prop} {p : Prog S α} {s : σ} (h : Safe H I Q p s)
    (hp : Performs P p) :
    Safe (watched H step) (fun _ => True) (fun r t => Q r t.1 ∧ t.2 = w) p (s, w) := by
  induction p generalizing s with
  | ret a => exact ⟨trivial, h.2, rfl⟩
  | call op k ih =>
    refine ⟨trivial, ?_⟩
    rintro x ⟨s', w'⟩ ⟨hx, hw⟩
    rw [hstep op x hp.1] at hw
    subst hw
    exact ih x (h.2 x s' hx) (hp.2 x)

end Watched

/-! ## Interleaving -/

/-- Any number of programs over one shared state. A thread without a program was lost. -/
structure Pool (ι : Type) (S : Signature) (α σ : Type) where
  thread : ι → Option (Prog S α)
  shared : σ

section Threads

variable {ι : Type} [DecidableEq ι]

/-- The pool after a step of the thread `i`. -/
def Pool.set (c : Pool ι S α σ) (i : ι) (p : Prog S α) (s : σ) : Pool ι S α σ :=
  ⟨Function.update c.thread i (some p), s⟩

@[simp] theorem Pool.set_shared (c : Pool ι S α σ) (i : ι) (p : Prog S α) (s : σ) :
    (c.set i p s).shared = s := rfl

@[simp] theorem Pool.set_thread_self (c : Pool ι S α σ) (i : ι) (p : Prog S α) (s : σ) :
    (c.set i p s).thread i = some p := Function.update_self _ _ _

theorem Pool.set_thread_of_ne {i j : ι} (h : j ≠ i) (c : Pool ι S α σ) (p : Prog S α) (s : σ) :
    (c.set i p s).thread j = c.thread j := Function.update_of_ne h _ _

/-- One operation of one thread. The interpretation knows which thread performs it. -/
inductive PoolStep (H : ι → Handler S σ) : Pool ι S α σ → Pool ι S α σ → Prop where
  | call {c : Pool ι S α σ} {s' : σ} (i : ι) {op : S.Op} {k : S.Res op → Prog S α}
      {x : S.Res op} (hi : c.thread i = some (.call op k)) (h : H i op c.shared x s') :
      PoolStep H c (c.set i (k x) s')

variable {τ : Type} {H : ι → Handler S σ} {c d : Pool ι S α σ}

/-- A thread sees a part of the shared state. When its own operations act on its view, and those of
the other threads leave it alone, a step keeps every thread safe in its view. -/
theorem PoolStep.safe_view {view : ι → σ → τ} {V : ι → Handler S τ} {I : τ → Prop}
    {Q : ι → α → τ → Prop} (hs : PoolStep H c d)
    (hown : ∀ i op s x s', H i op s x s' → V i op (view i s) x (view i s'))
    (hother : ∀ i j op s x s', j ≠ i → H i op s x s' → view j s' = view j s)
    (hc : ∀ i p, c.thread i = some p → Safe (V i) I (Q i) p (view i c.shared)) :
    ∀ i p, d.thread i = some p → Safe (V i) I (Q i) p (view i d.shared) := by
  cases hs with
  | call i hi h =>
    intro j p hj
    by_cases hij : j = i
    · subst hij
      rw [Pool.set_thread_self] at hj
      cases hj
      exact (hc j _ hi).2 _ _ (hown j _ _ _ _ h)
    · rw [Pool.set_thread_of_ne hij] at hj
      rw [Pool.set_shared, hother i j _ _ _ _ hij h]
      exact hc j p hj

/-- A step leaves the operations of every thread among those it started with. -/
theorem PoolStep.performs {P : S.Op → Prop} (hs : PoolStep H c d)
    (hc : ∀ i p, c.thread i = some p → Performs P p) :
    ∀ i p, d.thread i = some p → Performs P p := by
  cases hs with
  | call i hi h =>
    intro j p hj
    by_cases hij : j = i
    · subst hij
      rw [Pool.set_thread_self] at hj
      cases hj
      exact (hc j _ hi).2 _
    · rw [Pool.set_thread_of_ne hij] at hj
      exact hc j p hj

end Threads

end Prog

end Keylix.Lib

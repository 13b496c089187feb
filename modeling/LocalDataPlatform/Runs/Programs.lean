import Mathlib.Logic.Function.Basic
import Mathlib.Logic.Relation

/-!
# Programs of atomic operations on a shared state

Any number of processes run a program each.  A program calls operations one after another, goes on by what
each answers, and ends with a value or with an error; what an operation answers and what it does to the
shared state is a relation, so that it may depend on what other processes did before.

* `Program` — the programs; `Step` — one process performs its next operation.
* `Everywhere`, `Calls` — what holds of every operation a program may come to call.
* `Survives` — what a program ends with, whatever steps of a relation come between its own.

Principal results: `survives_call` (an assertion that the interference leaves alone carries over a call),
`survives_bind` (one program after another), `survives_run` (an end that survives the steps of the other
processes is the end it comes to), `exists_run_of_returns` (a process that is left alone).
-/

set_option autoImplicit false

namespace Runs

open Relation

universe u v w

/-! ## Programs -/

/-- A computation that calls operations and may raise an error. -/
inductive Program {Op : Type u} (Answer : Op → Type u) (ε α : Type u) : Type u
  | done (a : α)
  | raise (e : ε)
  | call (op : Op) (next : Answer op → Program Answer ε α)

namespace Program

variable {Op : Type u} {Answer : Op → Type u} {ε α β : Type u}

/-- One program after another. -/
def bind : Program Answer ε α → (α → Program Answer ε β) → Program Answer ε β
  | .done a, k => k a
  | .raise e, _ => .raise e
  | .call op next, k => .call op fun a => (next a).bind k

instance : Monad (Program Answer ε) where
  pure := .done
  bind := bind

theorem bind_assoc {γ : Type u} (p : Program Answer ε α) (f : α → Program Answer ε β)
    (k : β → Program Answer ε γ) : p >>= f >>= k = p >>= fun a => f a >>= k := by
  induction p with
  | done a => rfl
  | raise e => rfl
  | call op next ih => exact congrArg (Program.call op) (funext fun a => ih a)

/-! ## The operations of a program -/

/-- Every operation that the program may come to call has the property, with what follows it. -/
def Everywhere (φ : (op : Op) → (Answer op → Program Answer ε α) → Prop) : Program Answer ε α → Prop
  | .done _ => True
  | .raise _ => True
  | .call op next => φ op next ∧ ∀ a, (next a).Everywhere φ

/-- Every operation that the program may come to call is among these. -/
def Calls (ok : Op → Prop) (p : Program Answer ε α) : Prop := p.Everywhere fun op _ => ok op

variable {ok : Op → Prop} {p : Program Answer ε α}

theorem Calls.mono {ok' : Op → Prop} (hp : p.Calls ok) (h : ∀ op, ok op → ok' op) : p.Calls ok' := by
  induction p with
  | done a => trivial
  | raise e => trivial
  | call op next ih => exact ⟨h op hp.1, fun a => ih a (hp.2 a)⟩

theorem calls_call {op : Op} {next : Answer op → Program Answer ε α} (hop : ok op)
    (hnext : ∀ a, Calls ok (next a)) : Calls ok (.call op next) :=
  ⟨hop, hnext⟩

theorem calls_bind {k : α → Program Answer ε β} (hp : Calls ok p) (hk : ∀ a, Calls ok (k a)) :
    Calls ok (p >>= k) := by
  induction p with
  | done a => exact hk a
  | raise e => trivial
  | call op next ih => exact calls_call hp.1 fun a => ih a (hp.2 a)

end Program

/-! ## Processes -/

section Processes

variable {Op : Type u} {Answer : Op → Type u} {ε α β : Type u} {σ : Type v} {ι : Type w} [DecidableEq ι]

/-- What operations answer and do. -/
abbrev Semantics (Answer : Op → Type u) (σ : Type v) := (op : Op) → σ → Answer op → σ → Prop

/-- The shared state, and what each process has yet to do. -/
structure Processes (ι : Type w) {Op : Type u} (Answer : Op → Type u) (ε α : Type u) (σ : Type v) where
  shared : σ
  programs : ι → Program Answer ε α

/-- A program performs its next operation. -/
inductive Move (perform : Semantics Answer σ) : σ → Program Answer ε α → σ → Program Answer ε α → Prop
  | call {op : Op} {next : Answer op → Program Answer ε α} {s s' : σ} {a : Answer op}
      (h : perform op s a s') : Move perform s (.call op next) s' (next a)

/-- A process makes its next move. -/
inductive Step (perform : Semantics Answer σ) : Processes ι Answer ε α σ → Processes ι Answer ε α σ → Prop
  | move {c : Processes ι Answer ε α σ} (i : ι) {s' : σ} {p' : Program Answer ε α}
      (h : Move perform c.shared (c.programs i) s' p') :
      Step perform c ⟨s', Function.update c.programs i p'⟩

variable {perform : Semantics Answer σ} {φ : (op : Op) → (Answer op → Program Answer ε α) → Prop}
  {p p' : Program Answer ε α} {s s' : σ}

theorem everywhere_move (h : p.Everywhere φ) (hmove : Move perform s p s' p') : p'.Everywhere φ := by
  cases hmove with
  | call _ => exact h.2 _

/-! ## Interference -/

/-- What a program ends with, whatever steps of `R` come between its own. -/
def Survives (perform : Semantics Answer σ) (R : σ → σ → Prop) (Q : α → σ → Prop) (E : ε → σ → Prop) :
    Program Answer ε α → σ → Prop
  | .done a, s => ∀ s', ReflTransGen R s s' → Q a s'
  | .raise e, s => ∀ s', ReflTransGen R s s' → E e s'
  | .call op next, s => ∀ s', ReflTransGen R s s' →
      ∀ a s'', perform op s' a s'' → Survives perform R Q E (next a) s''

/-- A property of the state that the interference leaves alone. -/
def Stable (R : σ → σ → Prop) (P : σ → Prop) : Prop := ∀ s s', R s s' → P s → P s'

variable {R : σ → σ → Prop} {P : σ → Prop} {Q : α → σ → Prop} {E : ε → σ → Prop}

theorem Stable.closure (h : Stable R P) (hR : ReflTransGen R s s') (hs : P s) : P s' := by
  induction hR with
  | refl => exact hs
  | tail _ hstep ih => exact h _ _ hstep ih

theorem survives_done {a : α} (hP : Stable R P) (hs : P s) (hQ : ∀ s, P s → Q a s) :
    Survives perform R Q E (.done a) s := fun _ hR => hQ _ (hP.closure hR hs)

/-- **A stable assertion carries over a call.** -/
theorem survives_call {op : Op} {next : Answer op → Program Answer ε α} (hP : Stable R P) (hs : P s)
    (hnext : ∀ s a s', P s → perform op s a s' → Survives perform R Q E (next a) s') :
    Survives perform R Q E (.call op next) s := fun s' hR a s'' hop => hnext s' a s'' (hP.closure hR hs) hop

/-- **One program after another.** -/
theorem survives_bind {M : β → σ → Prop} {p : Program Answer ε β} {k : β → Program Answer ε α}
    (hp : Survives perform R M E p s) (hk : ∀ a s, M a s → Survives perform R Q E (k a) s) :
    Survives perform R Q E (p >>= k) s := by
  induction p generalizing s with
  | done a => exact hk a s (hp s .refl)
  | raise e => exact hp
  | call op next ih => exact fun s' hR a s'' hop => ih a (hp s' hR a s'' hop)

theorem Survives.interfered (h : Survives perform R Q E p s) (hR : R s s') : Survives perform R Q E p s' := by
  cases p with
  | done a => exact fun t ht => h t (.head hR ht)
  | raise e => exact fun t ht => h t (.head hR ht)
  | call op next => exact fun t ht => h t (.head hR ht)

theorem Survives.moved (h : Survives perform R Q E p s) (hmove : Move perform s p s' p') :
    Survives perform R Q E p' s' := by
  cases hmove with
  | call hop => exact h _ .refl _ _ hop

theorem Survives.ended {a : α} (h : Survives perform R Q E (.done a) s) : Q a s := h s .refl

theorem Survives.raised {e : ε} (h : Survives perform R Q E (.raise e) s) : E e s := h s .refl

/-! ## Runs -/

variable {c c' : Processes ι Answer ε α σ} {i : ι}

/-- The operations that stay within a relation. -/
def Keeps (perform : Semantics Answer σ) (R : σ → σ → Prop) (op : Op) : Prop :=
  ∀ s a s', perform op s a s' → R s s'

theorem Move.keeps (hmove : Move perform s p s' p') (h : p.Calls (Keeps perform R)) : R s s' := by
  cases hmove with
  | call hop => exact h.1 _ _ _ hop

/-- What the others leave alone, a program whose own operations stay within the relation keeps too. -/
theorem survives_of_keeps (hP : Stable R P) (hp : p.Calls (Keeps perform R)) (hs : P s) :
    Survives perform R (fun _ => P) (fun _ _ => True) p s := by
  induction p generalizing s with
  | done a => exact survives_done hP hs fun _ h => h
  | raise e => exact fun _ _ => trivial
  | call op next ih =>
    exact survives_call hP hs fun s a s' hs hop => ih a (hp.2 a) (hP s s' (hp.1 s a s' hop) hs)

/-- **A step is a move of one process**; the others have yet to do what they had. -/
theorem Step.moves (h : Step perform c c') :
    ∃ i, Move perform c.shared (c.programs i) c'.shared (c'.programs i) ∧
      ∀ j, j ≠ i → c'.programs j = c.programs j := by
  obtain ⟨i, hmove⟩ := h
  refine ⟨i, ?_, fun j hji => Function.update_of_ne hji _ _⟩
  show Move perform _ _ _ (Function.update c.programs i _ i)
  rw [Function.update_self]
  exact hmove

theorem calls_step {ok : Op → Prop} (h : (c.programs i).Calls ok) (hstep : Step perform c c') :
    (c'.programs i).Calls ok := by
  obtain ⟨j, hmove, hothers⟩ := hstep.moves
  by_cases hij : i = j
  · subst hij
    exact everywhere_move h hmove
  · rw [hothers i hij]
    exact h

theorem calls_run {ok : Op → Prop} (h : (c.programs i).Calls ok) (hrun : ReflTransGen (Step perform) c c') :
    (c'.programs i).Calls ok := by
  induction hrun with
  | refl => exact h
  | tail _ hstep ih => exact calls_step ih hstep

/-- What a process ends with survives a step. -/
theorem survives_step (hothers : ∀ j, j ≠ i → (c.programs j).Calls (Keeps perform R))
    (h : Survives perform R Q E (c.programs i) c.shared) (hstep : Step perform c c') :
    Survives perform R Q E (c'.programs i) c'.shared := by
  obtain ⟨j, hmove, hsame⟩ := hstep.moves
  by_cases hij : i = j
  · subst hij
    exact h.moved hmove
  · rw [hsame i hij]
    exact h.interfered (hmove.keeps (hothers j fun hji => hij hji.symm))

/-- **A process comes to the end that survives the steps of the others.** -/
theorem survives_run (hothers : ∀ j, j ≠ i → (c.programs j).Calls (Keeps perform R))
    (h : Survives perform R Q E (c.programs i) c.shared) (hrun : ReflTransGen (Step perform) c c') :
    Survives perform R Q E (c'.programs i) c'.shared := by
  induction hrun with
  | refl => exact h
  | tail hrun hstep ih => exact survives_step (fun j hj => calls_run (hothers j hj) hrun) ih hstep

/-- **If each operation stays within a relation, a run stays within its closure.** -/
theorem shared_run (h : ∀ i, (c.programs i).Calls (Keeps perform R))
    (hrun : ReflTransGen (Step perform) c c') : ReflTransGen R c.shared c'.shared := by
  induction hrun with
  | refl => exact .refl
  | tail hrun hstep ih =>
    obtain ⟨j, hmove, _⟩ := hstep.moves
    exact ih.tail (hmove.keeps (calls_run (h j) hrun))

/-- Left to itself, a program may return. -/
inductive Returns (perform : Semantics Answer σ) : σ → Program Answer ε α → Prop
  | done (s : σ) (a : α) : Returns perform s (.done a)
  | call {op : Op} {next : Answer op → Program Answer ε α} {s s' : σ} {a : Answer op}
      (h : perform op s a s') (hrest : Returns perform s' (next a)) : Returns perform s (.call op next)

/-- **What a process does alone is a run**, in which the others have yet to do what they had and nothing
interferes. -/
theorem exists_run_of_returns (h : Returns perform s p) (hends : Survives perform R Q E p s) :
    ∀ c : Processes ι Answer ε α σ, c.shared = s → c.programs i = p →
      ∃ c' a, ReflTransGen (Step perform) c c' ∧ c'.programs i = .done a ∧ Q a c'.shared ∧
        ∀ j, j ≠ i → c'.programs j = c.programs j := by
  induction h with
  | done s a => exact fun c hs hp => ⟨c, a, .refl, hp, hs ▸ hends.ended, fun _ _ => rfl⟩
  | @call op next s s' a hop _ ih =>
    intro c hs hp
    have hmove : Move perform c.shared (c.programs i) s' (next a) := by
      rw [hs, hp]
      exact .call hop
    obtain ⟨c', b, hrun, hdone, hQ, hothers⟩ := ih (hends.moved (.call hop))
      ⟨s', Function.update c.programs i (next a)⟩ rfl (Function.update_self i _ _)
    refine ⟨c', b, .head (.move i hmove) hrun, hdone, hQ, fun j hj => ?_⟩
    exact (hothers j hj).trans (Function.update_of_ne hj _ _)

end Processes

end Runs

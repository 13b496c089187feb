import Mathlib.Order.Basic

/-!
# Loops over batches

Computations that may fail, and a loop that works through the positions below `total`, at most `batch` of
them at a time, and that a failing batch ends.

* `Yields` — what a computation returns, and what it may fail with.
* `inBatches` — the loop; `work` gets the first position of a batch and the size of the batch.

Principal results: `Yields.bind` (one computation after another), `inBatches_rule` (what each batch carries
on, the loop carries to the end).
-/

set_option autoImplicit false

namespace Runs

universe u v

/-! ## What a computation yields -/

section Yields

variable {ε α β : Type u} {E : ε → Prop} {Q R : α → Prop} {x : Except ε α}

/-- A computation returns a value with `Q`, or fails with an error with `E`. -/
structure Yields (E : ε → Prop) (Q : α → Prop) (x : Except ε α) : Prop where
  ok : ∀ a, x = .ok a → Q a
  error : ∀ e, x = .error e → E e

theorem yields_ok {a : α} (h : Q a) : Yields E Q (.ok a) :=
  ⟨fun _ he => Except.ok.inj he ▸ h, nofun⟩

theorem yields_error {e : ε} (h : E e) : Yields E Q (.error e) :=
  ⟨nofun, fun _ he => Except.error.inj he ▸ h⟩

theorem Yields.mono (h : Yields E Q x) (hQ : ∀ a, Q a → R a) : Yields E R x :=
  ⟨fun a ha => hQ a (h.ok a ha), h.error⟩

theorem Yields.weaken {F : ε → Prop} (h : Yields E Q x) (hE : ∀ e, E e → F e) : Yields F Q x :=
  ⟨h.ok, fun e he => hE e (h.error e he)⟩

/-- **One computation after another.** -/
theorem Yields.bind {P : β → Prop} {f : α → Except ε β} (h : Yields E Q x) (hf : ∀ a, Q a → Yields E P (f a)) :
    Yields E P (x >>= f) := by
  cases x with
  | error e => exact yields_error (h.error e rfl)
  | ok a => exact hf a (h.ok a rfl)

end Yields

/-! ## The loop -/

section Loop

variable {ε σ : Type u} {batch total done : Nat} {work : Nat → Nat → σ → Except ε σ} {s : σ}

/-- `while done < total: size = min(batch, total - done); ..; done += size`. -/
def inBatches (batch total : Nat) (work : Nat → Nat → σ → Except ε σ) (done : Nat) (s : σ) : Except ε σ :=
  if _h : done < total ∧ 0 < batch then
    work done (min batch (total - done)) s >>= inBatches batch total work (done + min batch (total - done))
  else .ok s
termination_by total - done
decreasing_by omega

theorem inBatches_done (h : total ≤ done) : inBatches batch total work done s = .ok s := by
  rw [inBatches, dif_neg fun hlt => absurd hlt.1 (Nat.not_lt.mpr h)]

theorem inBatches_next (hbatch : 0 < batch) (h : done < total) : inBatches batch total work done s =
    work done (min batch (total - done)) s >>= inBatches batch total work (done + min batch (total - done)) := by
  rw [inBatches, dif_pos ⟨h, hbatch⟩]

/-- **The rule of the loop**: where each batch carries the invariant past its positions, the loop carries it
past all. -/
theorem inBatches_rule {E : ε → Prop} {P : Nat → σ → Prop} (hbatch : 0 < batch)
    (hwork : ∀ done size s, done + size ≤ total → P done s → Yields E (P (done + size)) (work done size s))
    (hdone : done ≤ total) (h : P done s) : Yields E (P total) (inBatches batch total work done s) := by
  -- on the positions that are left
  induction hleft : total - done using Nat.strongRecOn generalizing done s with
  | ind left ih =>
    rcases Nat.lt_or_ge done total with hlt | hge
    · have hsize : done + min batch (total - done) ≤ total := by omega
      have hsmaller : total - (done + min batch (total - done)) < left := by omega
      rw [inBatches_next hbatch hlt]
      exact (hwork done _ s hsize h).bind fun s₁ hnext => ih _ hsmaller hsize hnext rfl
    · obtain rfl : done = total := Nat.le_antisymm hdone hge
      rw [inBatches_done hge]
      exact yields_ok h

end Loop

end Runs

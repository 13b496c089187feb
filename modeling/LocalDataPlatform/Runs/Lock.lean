import Mathlib.Logic.Function.Basic

/-!
# Threads and a lock

Threads with a local state each, some of whose states are *inside* the region a lock guards.

* `Owned` — the threads inside are the holder of the lock.
* `Owned.enter`, `Owned.stay`, `Owned.leave` — the steps of a disciplined thread keep it.
* `Owned.exclusive` — two threads inside are one.
-/

set_option autoImplicit false

namespace Runs

universe u v

variable {T : Type u} {L : Type v} [DecidableEq T] {inside : L → Prop} {holder : Option T}
  {locals : T → L} {t t' : T} {l : L}

omit [DecidableEq T] in
/-- The threads inside the region are the holder of the lock. -/
def Owned (inside : L → Prop) (holder : Option T) (locals : T → L) : Prop :=
  ∀ t, inside (locals t) ↔ holder = some t

omit [DecidableEq T] in
theorem Owned.initial (h : ∀ t, ¬ inside (locals t)) : Owned inside none locals := fun t =>
  iff_of_false (h t) nofun

omit [DecidableEq T] in
/-- **Two threads inside are one.** -/
theorem Owned.exclusive (h : Owned inside holder locals) (ht : inside (locals t))
    (ht' : inside (locals t')) : t = t' :=
  Option.some.inj (((h t).mp ht).symm.trans ((h t').mp ht'))

omit [DecidableEq T] in
theorem Owned.not_inside (h : Owned inside none locals) (t : T) : ¬ inside (locals t) := fun ht =>
  absurd ((h t).mp ht) nofun

/-- A thread enters by taking the free lock. -/
theorem Owned.enter (h : Owned inside none locals) (hl : inside l) :
    Owned inside (some t) (Function.update locals t l) := by
  intro t'
  by_cases ht : t' = t
  · subst ht
    rw [Function.update_self]
    exact iff_of_true hl rfl
  · rw [Function.update_of_ne ht]
    exact iff_of_false (h.not_inside t') fun he => ht (Option.some.inj he).symm

/-- A thread that stays where it is leaves the lock alone. -/
theorem Owned.stay (h : Owned inside holder locals) (hl : inside l ↔ inside (locals t)) :
    Owned inside holder (Function.update locals t l) := by
  intro t'
  by_cases ht : t' = t
  · subst ht
    rw [Function.update_self, hl]
    exact h t'
  · rw [Function.update_of_ne ht]
    exact h t'

/-- The thread inside leaves by releasing the lock. -/
theorem Owned.leave (h : Owned inside holder locals) (hin : inside (locals t)) (hl : ¬ inside l) :
    Owned inside none (Function.update locals t l) := by
  intro t'
  refine iff_of_false (fun hin' => ?_) nofun
  by_cases ht : t' = t
  · subst ht
    rw [Function.update_self] at hin'
    exact hl hin'
  · rw [Function.update_of_ne ht] at hin'
    exact ht (h.exclusive hin' hin)

end Runs

import Mathlib.Data.List.Pairwise
import Mathlib.Order.Lattice
import Mathlib.Data.Option.Basic

/-!
# Half-open periods

Validity ranges `[start, stop)` of row versions; a period without `stop` is still open.

* `Period.Contains`, `Period.Proper` — membership, and that the range is not empty.
* `Period.Apart` — no instant belongs to both.

Principal results: `Period.apart_iff` (proper periods are apart when one ends before the other starts),
`length_filter_le_one` (a selection that excludes pairs selects at most one row).
-/

set_option autoImplicit false

namespace Relational

universe u v

/-- `[start, stop)`, or `[start, ∞)`. -/
structure Period (ν : Type u) where
  start : ν
  stop : Option ν
  deriving DecidableEq, Repr

namespace Period

variable {ν : Type u} [LinearOrder ν] {p q : Period ν} {t : ν}

def Contains (p : Period ν) (t : ν) : Prop := p.start ≤ t ∧ ∀ u ∈ p.stop, t < u

/-- The range moves forward. -/
def Proper (p : Period ν) : Prop := ∀ u ∈ p.stop, p.start < u

/-- No instant belongs to both. -/
def Apart (p q : Period ν) : Prop := ∀ t, p.Contains t → ¬ q.Contains t

theorem Apart.symm (h : Apart p q) : Apart q p := fun t hq hp => h t hp hq

theorem Proper.contains_start (h : p.Proper) : p.Contains p.start := ⟨le_rfl, h⟩

/-- A period that ends by the start of another is apart from it. -/
theorem apart_of_stop_le {u : ν} (hu : p.stop = some u) (hle : u ≤ q.start) : Apart p q :=
  fun _ hp hq => absurd (hle.trans hq.1) (not_le.mpr (hp.2 u hu))

/-- **Proper periods are apart when one ends before the other starts.** -/
theorem apart_iff (hp : p.Proper) (hq : q.Proper) :
    Apart p q ↔ (∃ u, p.stop = some u ∧ u ≤ q.start) ∨ ∃ u, q.stop = some u ∧ u ≤ p.start := by
  constructor
  · intro h
    rcases le_total p.start q.start with hle | hle
    · refine Or.inl ?_
      by_contra hnone
      refine h q.start ⟨hle, fun u hu => ?_⟩ hq.contains_start
      exact not_le.mp fun hu' => hnone ⟨u, hu, hu'⟩
    · refine Or.inr ?_
      by_contra hnone
      refine h p.start hp.contains_start ⟨hle, fun u hu => ?_⟩
      exact not_le.mp fun hu' => hnone ⟨u, hu, hu'⟩
  · rintro (⟨u, hu, hle⟩ | ⟨u, hu, hle⟩)
    · exact apart_of_stop_le hu hle
    · exact (apart_of_stop_le hu hle).symm

/-- An open period is apart from those that ended before it. -/
theorem Apart.stop_le (h : Apart p q) (hp : p.Proper) (hq : q.Proper) (hopen : q.stop = none) :
    ∃ u, p.stop = some u ∧ u ≤ q.start := by
  rcases (apart_iff hp hq).mp h with hleft | ⟨u, hu, -⟩
  · exact hleft
  · rw [hopen] at hu
    cases hu

/-- The period, ended. -/
def close (p : Period ν) (t : ν) : Period ν := { p with stop := some t }

/-- Ending an open period takes instants away. -/
theorem Contains.of_close {u : ν} (h : (p.close u).Contains t) (hopen : p.stop = none) : p.Contains t := by
  refine ⟨h.1, fun u hu => ?_⟩
  rw [hopen] at hu
  cases hu

end Period

/-- **At most one row is selected** when no two of them can be. -/
theorem length_filter_le_one {α : Type v} {rows : List α} {select : α → Bool}
    (h : rows.Pairwise fun a b => select a = true → select b = false) : (rows.filter select).length ≤ 1 := by
  induction rows with
  | nil => exact Nat.zero_le 1
  | cons a rows ih =>
    obtain ⟨ha, hrows⟩ := List.pairwise_cons.mp h
    cases hs : select a with
    | true =>
      have hnone : rows.filter select = [] :=
        List.filter_eq_nil_iff.mpr fun b hb => by rw [ha b hb hs]; exact Bool.false_ne_true
      rw [List.filter_cons_of_pos hs, hnone]
      exact Nat.le_refl 1
    | false =>
      rw [List.filter_cons_of_neg (by rw [hs]; exact Bool.false_ne_true)]
      exact ih hrows

end Relational

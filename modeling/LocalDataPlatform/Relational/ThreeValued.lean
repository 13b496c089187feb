import Mathlib.Logic.Basic

/-!
# SQL three-valued logic

A nullable boolean is an `Option Bool`, `none` standing for NULL.

* `sqlAnd`, `sqlOr`, `sqlNot`, `sqlEq`, `sqlLt`, `isNotNull` — the connectives and comparisons a filter
  uses; `isDistinctFrom` — the comparison that takes NULL for a value.
* `sqlFilter` — WHERE: it keeps a row only when the condition is TRUE.

Principal results: `sqlAnd_eq_true`, `sqlAnd_eq_none` (when a conjunction is TRUE, and when it
is NULL), `filter_or_filter_not` (a filter and its negation miss exactly the NULL rows).
-/

set_option autoImplicit false

namespace Relational

universe u

variable {α : Type u}

/-- A nullable boolean. -/
abbrev Tri := Option Bool

/-- `AND`: FALSE wins over NULL. -/
def sqlAnd : Tri → Tri → Tri
  | some false, _ => some false
  | _, some false => some false
  | some true, some true => some true
  | _, _ => none

/-- `OR`: TRUE wins over NULL. -/
def sqlOr : Tri → Tri → Tri
  | some true, _ => some true
  | _, some true => some true
  | some false, some false => some false
  | _, _ => none

/-- `NOT`. -/
def sqlNot : Tri → Tri := Option.map (!·)

/-- `=`: NULL on either side gives NULL. -/
def sqlEq [DecidableEq α] : Option α → Option α → Tri
  | some a, some b => some (decide (a = b))
  | _, _ => none

/-- `<`: NULL on either side gives NULL. -/
def sqlLt [LT α] [DecidableLT α] : Option α → Option α → Tri
  | some a, some b => some (decide (a < b))
  | _, _ => none

/-- `IS NOT NULL`. -/
def isNotNull (x : Option α) : Tri := some x.isSome

/-- `IS DISTINCT FROM`: never NULL, and NULL is not distinct from NULL. -/
def isDistinctFrom [DecidableEq α] (x y : Option α) : Bool := decide (x ≠ y)

/-- `WHERE cond`. -/
def sqlFilter (cond : α → Tri) (rows : List α) : List α :=
  rows.filter (fun r => cond r == some true)

theorem sqlAnd_eq_true {a b : Tri} : sqlAnd a b = some true ↔ a = some true ∧ b = some true := by
  rcases a with _ | _ | _ <;> rcases b with _ | _ | _ <;> decide

theorem sqlAnd_eq_false {a b : Tri} : sqlAnd a b = some false ↔ a = some false ∨ b = some false := by
  rcases a with _ | _ | _ <;> rcases b with _ | _ | _ <;> decide

/-- A conjunction is NULL when nothing is FALSE and something is NULL. -/
theorem sqlAnd_eq_none {a b : Tri} :
    sqlAnd a b = none ↔ a ≠ some false ∧ b ≠ some false ∧ (a = none ∨ b = none) := by
  rcases a with _ | _ | _ <;> rcases b with _ | _ | _ <;> decide

theorem sqlOr_eq_true {a b : Tri} : sqlOr a b = some true ↔ a = some true ∨ b = some true := by
  rcases a with _ | _ | _ <;> rcases b with _ | _ | _ <;> decide

theorem sqlNot_eq_true {a : Tri} : sqlNot a = some true ↔ a = some false := by
  rcases a with _ | _ | _ <;> decide

@[simp] theorem isNotNull_eq_true {x : Option α} : isNotNull x = some true ↔ x.isSome = true := by
  simp [isNotNull]

@[simp] theorem isNotNull_eq_false {x : Option α} : isNotNull x = some false ↔ x = none := by
  simp [isNotNull]

@[simp] theorem isNotNull_ne_none {x : Option α} : isNotNull x ≠ none := by
  simp [isNotNull]

section Eq

variable [DecidableEq α] {x : Option α} {c : α}

theorem sqlEq_some_eq_true : sqlEq x (some c) = some true ↔ x = some c := by
  cases x <;> simp [sqlEq]

theorem sqlEq_some_eq_none : sqlEq x (some c) = none ↔ x = none := by
  cases x <;> simp [sqlEq]

end Eq

theorem sqlLt_eq_true [LT α] [DecidableLT α] {x y : Option α} :
    sqlLt x y = some true ↔ ∃ a b, x = some a ∧ y = some b ∧ a < b := by
  cases x <;> cases y <;> simp [sqlLt]

theorem mem_sqlFilter {cond : α → Tri} {rows : List α} {r : α} :
    r ∈ sqlFilter cond rows ↔ r ∈ rows ∧ cond r = some true := by
  simp [sqlFilter]

/-- **A filter and its negation miss exactly the NULL rows.** -/
theorem filter_or_filter_not {cond : α → Tri} {rows : List α} {r : α} (h : r ∈ rows) :
    r ∈ sqlFilter cond rows ∨ r ∈ sqlFilter (fun x => sqlNot (cond x)) rows ↔ cond r ≠ none := by
  rw [mem_sqlFilter, mem_sqlFilter, sqlNot_eq_true]
  rcases hc : cond r with _ | b
  · simp
  · cases b <;> simp [h]

end Relational

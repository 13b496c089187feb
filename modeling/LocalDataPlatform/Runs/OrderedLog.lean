import Mathlib.Data.List.Nodup
import Mathlib.Data.List.Perm.Basic
import Mathlib.Order.Lattice

/-!
# Logs in increasing order

Lists strictly increasing under a position, as append-only logs are.

* `prefix_mem` — a prefix that holds an entry holds everything before it.
* `prefix_concat` — a prefix that holds everything before an entry can be extended by it.
* `eq_of_sublist` — two sublists with the same entries are one list.
-/

set_option autoImplicit false

namespace Runs

universe u v

variable {α : Type u} {β : Type v} [LinearOrder β] {pos : α → β} {log xs ys : List α} {x y : α}

/-- The entries stand in strictly increasing positions. -/
def Ordered (pos : α → β) (log : List α) : Prop := log.Pairwise (fun a b => pos a < pos b)

theorem Ordered.nodup_map (h : Ordered pos log) : (log.map pos).Nodup :=
  List.pairwise_map.mpr (h.imp (fun hab => hab.ne))

theorem Ordered.eq_of_pos (h : Ordered pos log) (hx : x ∈ log) (hy : y ∈ log) (he : pos x = pos y) :
    x = y :=
  List.inj_on_of_nodup_map h.nodup_map hx hy he

/-- **A prefix that holds an entry holds everything before it.** -/
theorem Ordered.prefix_mem (h : Ordered pos log) (hp : xs <+: log) (hy : y ∈ xs) (hx : x ∈ log)
    (hle : pos x ≤ pos y) : x ∈ xs := by
  obtain ⟨zs, rfl⟩ := hp
  rcases List.mem_append.mp hx with hx | hx
  · exact hx
  · exact absurd ((List.pairwise_append.mp h).2.2 y hy x hx) (not_lt_of_ge hle)

/-- **A prefix that holds everything before an entry can be extended by it.** -/
theorem Ordered.prefix_concat (h : Ordered pos log) (hp : xs <+: log) (hx : x ∈ log) (hnew : x ∉ xs)
    (hbefore : ∀ y ∈ log, pos y < pos x → y ∈ xs) : xs ++ [x] <+: log := by
  obtain ⟨zs, rfl⟩ := hp
  have hxz : x ∈ zs := (List.mem_append.mp hx).resolve_left hnew
  obtain ⟨-, hzs, hcross⟩ := List.pairwise_append.mp h
  cases zs with
  | nil => cases hxz
  | cons z zs =>
    rcases List.mem_cons.mp hxz with rfl | hlater
    · exact ⟨zs, by simp⟩
    · -- an entry skipped before `x` would already be in the prefix
      have hz : z ∈ xs := hbefore z (List.mem_append_right _ List.mem_cons_self)
        ((List.pairwise_cons.mp hzs).1 x hlater)
      exact absurd (hcross z hz z List.mem_cons_self) (lt_irrefl _)

/-- A prefix that holds every entry is the log. -/
theorem Ordered.prefix_eq (h : Ordered pos log) (hp : xs <+: log) (hall : ∀ x ∈ log, x ∈ xs) :
    xs = log := by
  obtain ⟨zs, rfl⟩ := hp
  cases zs with
  | nil => rw [List.append_nil]
  | cons z zs =>
    have hz : z ∈ xs := hall z (List.mem_append_right _ List.mem_cons_self)
    exact absurd ((List.pairwise_append.mp h).2.2 z hz z List.mem_cons_self) (lt_irrefl _)

theorem Ordered.sublist (h : Ordered pos log) (hs : xs.Sublist log) : Ordered pos xs :=
  List.Pairwise.sublist hs h

/-- **Two sublists of a log with the same entries are one list.** -/
theorem Ordered.eq_of_sublist (h : Ordered pos log) (hx : xs.Sublist log) (hy : ys.Sublist log)
    (hperm : xs.Perm ys) : xs = ys :=
  hperm.eq_of_pairwise (fun _ _ _ _ hab hba => absurd (hab.trans hba) (lt_irrefl _))
    (h.sublist hx) (h.sublist hy)

end Runs

import Mathlib.Order.Basic
import Mathlib.Order.Lattice
import Mathlib.Data.Set.Insert

/-!
# Latest version wins

Members of a set carry a version in a linear order.

* `IsLatest stamp S m` — `m` is a member of `S` with the greatest version.

Principal results: `IsLatest.insert` (comparing a newcomer with a latest member gives a latest
member again, whichever way a tie is broken), `IsLatest.union` (two latest members compared
give a latest member of the union), `IsLatest.eq` (with one member for each version the latest
member depends on the set alone, so neither the order of arrival nor repetition matters).
-/

set_option autoImplicit false

namespace Relational

universe u v

variable {ε : Type u} {ν : Type v} [LinearOrder ν]

/-- `m` is a member of `S` with the greatest version. -/
structure IsLatest (stamp : ε → ν) (S : Set ε) (m : ε) : Prop where
  mem : m ∈ S
  le : ∀ e ∈ S, stamp e ≤ stamp m

variable {stamp : ε → ν} {S T : Set ε} {m n : ε}

theorem IsLatest.singleton (m : ε) : IsLatest stamp {m} m :=
  ⟨rfl, fun _ h => le_of_eq (congrArg stamp h)⟩

/-- Two latest members compared give a latest member of the union. -/
theorem IsLatest.union_right (hm : IsLatest stamp S m) (hn : IsLatest stamp T n)
    (h : stamp m ≤ stamp n) : IsLatest stamp (S ∪ T) n :=
  ⟨Or.inr hn.mem, fun e he => he.elim (fun he => (hm.le e he).trans h) (hn.le e)⟩

theorem IsLatest.union_left (hm : IsLatest stamp S m) (hn : IsLatest stamp T n)
    (h : stamp n ≤ stamp m) : IsLatest stamp (S ∪ T) m :=
  ⟨Or.inl hm.mem, fun e he => he.elim (hm.le e) (fun he => (hn.le e he).trans h)⟩

/-- A newcomer that is not older becomes the latest member. -/
theorem IsLatest.insert_newer (hm : IsLatest stamp S m) (h : stamp m ≤ stamp n) :
    IsLatest stamp (insert n S) n := by
  rw [Set.insert_eq, Set.union_comm]
  exact hm.union_right (IsLatest.singleton n) h

/-- A newcomer that is not newer leaves the latest member. -/
theorem IsLatest.insert_older (hm : IsLatest stamp S m) (h : stamp n ≤ stamp m) :
    IsLatest stamp (insert n S) m := by
  rw [Set.insert_eq, Set.union_comm]
  exact hm.union_left (IsLatest.singleton n) h

/-- A nonempty list has a latest member. -/
theorem exists_isLatest (stamp : ε → ν) : ∀ {l : List ε}, l ≠ [] → ∃ m, IsLatest stamp {e | e ∈ l} m
  | [e], _ => ⟨e, List.mem_singleton_self e, fun _ h => le_of_eq (congrArg stamp (List.mem_singleton.mp h))⟩
  | e :: e' :: l, _ => by
    obtain ⟨m, hm⟩ := exists_isLatest stamp (l := e' :: l) (by simp)
    have hset : {x | x ∈ e :: e' :: l} = insert e {x | x ∈ e' :: l} := by
      ext x
      simp
    rw [hset]
    rcases le_total (stamp m) (stamp e) with h | h
    · exact ⟨e, hm.insert_newer h⟩
    · exact ⟨m, hm.insert_older h⟩

theorem IsLatest.stamp_eq (hm : IsLatest stamp S m) (hn : IsLatest stamp S n) :
    stamp m = stamp n :=
  le_antisymm (hn.le m hm.mem) (hm.le n hn.mem)

/-- **With one member for each version the latest member depends on the set alone.** -/
theorem IsLatest.eq (hm : IsLatest stamp S m) (hn : IsLatest stamp S n)
    (hinj : Set.InjOn stamp S) : m = n :=
  hinj hm.mem hn.mem (hm.stamp_eq hn)

theorem IsLatest.congr (h : ∀ e, e ∈ S ↔ e ∈ T) (hm : IsLatest stamp S m) : IsLatest stamp T m :=
  Set.ext h ▸ hm

end Relational

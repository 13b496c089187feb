import Mathlib.Data.List.ReduceOption
import Mathlib.Data.List.Dedup
import Mathlib.Data.List.MinMax
import Mathlib.Data.Set.Card
import Mathlib.Order.Lattice
import LocalDataPlatform.Relational.KeyedRows
import LocalDataPlatform.Relational.ThreeValued

/-!
# Joins, groups and aggregates over nullable columns

The select statements of SQL and of data frames.  A NULL key joins nothing, aggregates skip NULL.

* `innerJoin`, `leftJoin`, `fullOuterJoin` — joins on one nullable key of each side; `leftJoinOn` — on a
  condition.
* `groupBy` — the groups of a key, NULL being a group of its own; `groupOf` — the group a key joins.
* `sqlMax` — `MAX`, and `GREATEST` of its arguments; `boolAnd`, `boolOr` — the boolean aggregates.

Principal results: `leftJoin_groupBy` (joining aggregated groups keeps the left rows one to one),
`mem_innerJoin`, `filter_fullOuterJoin_eq_nil` and `encard_filter_fullOuterJoin` (what a filter over a full
join leaves, and how many rows for keyed tables),
`sqlMax_eq_some` (what a maximum is), `boolAnd_eq_true`, `boolOr_eq_true`.
-/

set_option autoImplicit false

namespace Relational

universe u v w

variable {α : Type u} {β : Type v} {κ : Type w} [DecidableEq κ]

/-! ## Joins -/

/-- `a JOIN b ON kl = kr`. -/
def innerJoin (kl : α → Option κ) (kr : β → Option κ) (l : List α) (r : List β) : List (α × β) :=
  l.flatMap fun a => (sqlFilter (fun b => sqlEq (kl a) (kr b)) r).map fun b => (a, b)

/-- A left row with the rows it joins, or with NULL. -/
def padded (a : α) : List β → List (α × Option β)
  | [] => [(a, none)]
  | b :: more => (b :: more).map fun b => (a, some b)

/-- `a LEFT JOIN b ON kl = kr`. -/
def leftJoin (kl : α → Option κ) (kr : β → Option κ) (l : List α) (r : List β) : List (α × Option β) :=
  l.flatMap fun a => padded a (sqlFilter (fun b => sqlEq (kl a) (kr b)) r)

/-- `a LEFT JOIN b ON cond`. -/
def leftJoinOn (cond : α → β → Tri) (l : List α) (r : List β) : List (α × Option β) :=
  l.flatMap fun a => padded a (sqlFilter (cond a) r)

/-- `a FULL OUTER JOIN b ON kl = kr`: no row of either side is dropped. -/
def fullOuterJoin (kl : α → Option κ) (kr : β → Option κ) (l : List α) (r : List β) :
    List (Option α × Option β) :=
  (leftJoin kl kr l r).map (fun pair => (some pair.1, pair.2)) ++
    (r.filter fun b => (sqlFilter (fun a => sqlEq (kl a) (kr b)) l).isEmpty).map fun b => (none, some b)

/-- `GROUP BY key`. -/
def groupBy (key : α → Option κ) (rows : List α) : List (Option κ × List α) :=
  (rows.map key).dedup.map fun k => (k, rows.filter fun r => decide (key r = k))

/-- The group that joins a key. -/
def groupOf (key : α → Option κ) (rows : List α) (k : κ) : Option (List α) :=
  let group := rows.filter fun r => decide (key r = some k)
  if group.isEmpty then none else some group

section Joins

variable {kl : α → Option κ} {kr : β → Option κ} {l : List α} {r : List β} {rows : List α}

theorem sqlEq_eq_true {x y : Option κ} : sqlEq x y = some true ↔ ∃ k, x = some k ∧ y = some k := by
  cases x with
  | none => simp [sqlEq]
  | some a =>
    cases y with
    | none => simp [sqlEq]
    | some b => simp [sqlEq, eq_comm]

theorem mem_innerJoin {a : α} {b : β} :
    (a, b) ∈ innerJoin kl kr l r ↔ a ∈ l ∧ b ∈ r ∧ ∃ k, kl a = some k ∧ kr b = some k := by
  unfold innerJoin
  constructor
  · intro h
    obtain ⟨a', ha, hb⟩ := List.mem_flatMap.mp h
    obtain ⟨b', hb, he⟩ := List.mem_map.mp hb
    cases he
    obtain ⟨hmem, heq⟩ := mem_sqlFilter.mp hb
    exact ⟨ha, hmem, sqlEq_eq_true.mp heq⟩
  · rintro ⟨ha, hb, hk⟩
    refine List.mem_flatMap.mpr ⟨a, ha, List.mem_map.mpr ⟨b, ?_, rfl⟩⟩
    exact mem_sqlFilter.mpr ⟨hb, sqlEq_eq_true.mpr hk⟩

/-- Unique keys on both sides make the joined right rows unique. -/
theorem UniqueOn.innerJoin {τ : Type w} {id : β → τ} (hl : l.Nodup)
    (hkl : ∀ a ∈ l, ∀ a' ∈ l, kl a = kl a' → a = a') (hr : UniqueOn id r) :
    UniqueOn (fun pair : α × β => id pair.2) (innerJoin kl kr l r) := by
  induction l with
  | nil => exact UniqueOn.nil
  | cons a l ih =>
    obtain ⟨hnew, hl⟩ := List.nodup_cons.mp hl
    have ih := ih hl fun b hb b' hb' => hkl b (List.mem_cons_of_mem _ hb) b' (List.mem_cons_of_mem _ hb')
    refine UniqueOn.append ?_ ih ?_
    · exact (hr.sublist List.filter_sublist).map_proj fun _ => rfl
    · -- one right row joins one key, hence one left row
      intro pair hpair pair' hpair' he
      obtain ⟨b, hb, rfl⟩ := List.mem_map.mp hpair
      obtain ⟨a', b'⟩ := pair'
      obtain ⟨ha', hb', k, hka', hkb'⟩ := mem_innerJoin.mp hpair'
      obtain ⟨hb, hkb⟩ := mem_sqlFilter.mp hb
      obtain ⟨k', hka, hkb⟩ := sqlEq_eq_true.mp hkb
      have hsame : b = b' := hr.eq_of_key hb hb' he
      subst hsame
      rw [hkb] at hkb'
      cases hkb'
      have hleft : a = a' :=
        hkl a List.mem_cons_self a' (List.mem_cons_of_mem _ ha') (hka.trans hka'.symm)
      exact hnew (hleft ▸ ha')

/-- **Joining aggregated groups keeps the left rows one to one.** -/
theorem leftJoin_groupBy {τ : Type v} {kl : β → κ} {l : List β} {key : α → Option κ} (agg : List α → τ) :
    leftJoin (fun b => some (kl b)) Prod.fst l ((groupBy key rows).map fun g => (g.1, agg g.2)) =
      l.map fun b => (b, (groupOf key rows (kl b)).map fun g => (some (kl b), agg g)) := by
  have hmatch : ∀ k : κ, sqlFilter (fun g : Option κ × τ => sqlEq (some k) g.1)
      ((groupBy key rows).map fun g => (g.1, agg g.2)) =
        ((groupOf key rows k).map fun g => (some k, agg g)).toList := by
    intro k
    have hkey : ∀ k' : Option κ, (sqlEq (some k) k' == some true) = decide (k' = some k) := by
      intro k'
      cases k' with
      | none => rfl
      | some k' => simp [sqlEq, eq_comm]
    unfold sqlFilter groupBy
    rw [List.map_map, List.filter_map]
    simp only [Function.comp_def, hkey]
    rw [List.filter_eq, (List.nodup_dedup _).count]
    unfold groupOf
    dsimp only
    by_cases hk : some k ∈ rows.map key
    · have hne : (rows.filter fun r => decide (key r = some k)).isEmpty = false := by
        obtain ⟨r, hr, he⟩ := List.mem_map.mp hk
        refine List.isEmpty_eq_false_iff_exists_mem.mpr ⟨r, List.mem_filter.mpr ⟨hr, decide_eq_true he⟩⟩
      rw [if_pos (List.mem_dedup.mpr hk), if_neg (hne ▸ Bool.false_ne_true)]
      rfl
    · have hempty : (rows.filter fun r => decide (key r = some k)).isEmpty = true := by
        refine List.isEmpty_iff.mpr (List.filter_eq_nil_iff.mpr fun r hr he => hk ?_)
        exact List.mem_map.mpr ⟨r, hr, of_decide_eq_true he⟩
      rw [if_neg (fun h => hk (List.mem_dedup.mp h)), if_pos hempty]
      rfl
  have hone : ∀ b ∈ l, padded b (sqlFilter (fun g : Option κ × τ => sqlEq (some (kl b)) g.1)
      ((groupBy key rows).map fun g => (g.1, agg g.2))) =
        [(b, (groupOf key rows (kl b)).map fun g => (some (kl b), agg g))] := by
    intro b _
    rw [hmatch]
    cases groupOf key rows (kl b) <;> rfl
  exact (List.flatMap_congr hone).trans (List.flatMap_pure_eq_map _ l)

end Joins

section FullOuterJoin

variable {f : α → κ} {g : β → κ} {l : List α} {r : List β} {k : κ}

/-- `COALESCE(a.key, b.key)` of a joined row. -/
def coalesceKey (f : α → κ) (g : β → κ) (pair : Option α × Option β) : Option κ :=
  (pair.1.map f).or (pair.2.map g)

/-- The rows that two keyed tables have under one key. -/
def joined (f : α → κ) (g : β → κ) (l : List α) (r : List β) (k : κ) : Option α × Option β :=
  (lookup f l k, lookup g r k)

theorem coalesceKey_joined : coalesceKey f g (joined f g l r k) = some k ↔ joined f g l r k ≠ (none, none) := by
  unfold joined coalesceKey
  cases ha : lookup f l k with
  | some a => simp [key_of_lookup ha]
  | none =>
    cases hb : lookup g r k with
    | some b => simp [key_of_lookup hb]
    | none => simp

theorem sqlFilter_key (hr : UniqueOn g r) :
    sqlFilter (fun b => sqlEq (some k) (some (g b))) r = (lookup g r k).toList := by
  have hkey : ∀ b ∈ r, (sqlEq (some k) (some (g b)) == some true) = decide (g b = k) := by
    intro b _
    simp [sqlEq, eq_comm]
  unfold sqlFilter
  rw [List.filter_congr hkey, hr.filter_key]

/-- A full join of two keyed tables: each left row with the row of its key, then the unmatched right
rows. -/
theorem fullOuterJoin_eq (hl : UniqueOn f l) (hr : UniqueOn g r) :
    fullOuterJoin (fun a => some (f a)) (fun b => some (g b)) l r =
      l.map (fun a => (some a, lookup g r (f a))) ++
        (r.filter fun b => (lookup f l (g b)).isNone).map fun b => (none, some b) := by
  have hleft : leftJoin (fun a => some (f a)) (fun b => some (g b)) l r =
      l.map fun a => (a, lookup g r (f a)) := by
    refine Eq.trans (List.flatMap_congr fun a _ => ?_) (List.flatMap_pure_eq_map _ l)
    rw [sqlFilter_key hr, Function.comp_apply]
    cases hb : lookup g r (f a) <;> rfl
  have hright : ∀ b ∈ r, (sqlFilter (fun a => sqlEq (some (f a)) (some (g b))) l).isEmpty =
      (lookup f l (g b)).isNone := by
    intro b _
    have hsymm : ∀ a ∈ l, (sqlEq (some (f a)) (some (g b)) == some true) = decide (f a = g b) := by
      intro a _
      simp [sqlEq]
    unfold sqlFilter
    rw [List.filter_congr hsymm, hl.filter_key]
    cases lookup f l (g b) <;> rfl
  unfold fullOuterJoin
  rw [hleft, List.map_map, List.filter_congr hright]
  rfl

/-- **A full join has one row for each key of either side**: the rows of that key. -/
theorem mem_fullOuterJoin (hl : UniqueOn f l) (hr : UniqueOn g r) {pair : Option α × Option β} :
    pair ∈ fullOuterJoin (fun a => some (f a)) (fun b => some (g b)) l r ↔
      ∃ k, pair = joined f g l r k ∧ pair ≠ (none, none) := by
  rw [fullOuterJoin_eq hl hr, List.mem_append]
  constructor
  · rintro (h | h)
    · obtain ⟨a, ha, rfl⟩ := List.mem_map.mp h
      refine ⟨f a, ?_, by simp⟩
      unfold joined
      rw [hl.lookup_self ha]
    · obtain ⟨b, hb, rfl⟩ := List.mem_map.mp h
      obtain ⟨hb, hnone⟩ := List.mem_filter.mp hb
      refine ⟨g b, ?_, by simp⟩
      unfold joined
      rw [hr.lookup_self hb, Option.isNone_iff_eq_none.mp hnone]
  · rintro ⟨k, rfl, hpresent⟩
    unfold joined at hpresent ⊢
    cases ha : lookup f l k with
    | some a =>
      refine Or.inl (List.mem_map.mpr ⟨a, mem_of_lookup ha, ?_⟩)
      rw [key_of_lookup ha]
    | none =>
      cases hb : lookup g r k with
      | none =>
        rw [ha, hb] at hpresent
        exact absurd rfl hpresent
      | some b =>
        refine Or.inr (List.mem_map.mpr ⟨b, List.mem_filter.mpr ⟨mem_of_lookup hb, ?_⟩, rfl⟩)
        rw [key_of_lookup hb, ha]
        rfl

theorem unique_fullOuterJoin (hl : UniqueOn f l) (hr : UniqueOn g r) :
    UniqueOn (coalesceKey f g) (fullOuterJoin (fun a => some (f a)) (fun b => some (g b)) l r) := by
  rw [fullOuterJoin_eq hl hr]
  refine UniqueOn.append ?_ ?_ ?_
  · have hleft : UniqueOn (fun a => some (f a)) l := hl.comp_injective (Option.some_injective κ)
    exact hleft.map_proj fun _ => rfl
  · have hright : UniqueOn (fun b => some (g b)) r := hr.comp_injective (Option.some_injective κ)
    exact (hright.sublist List.filter_sublist).map_proj fun _ => rfl
  · intro pair hpair pair' hpair' he
    obtain ⟨a, ha, rfl⟩ := List.mem_map.mp hpair
    obtain ⟨b, hb, rfl⟩ := List.mem_map.mp hpair'
    have hkey : f a = g b := Option.some.inj he
    have hnone := Option.isNone_iff_eq_none.mp (List.mem_filter.mp hb).2
    exact lookup_eq_none.mp hnone a ha hkey

/-- **A filter over a full join counts keys**: those of either side whose rows it selects. -/
theorem encard_filter_fullOuterJoin (hl : UniqueOn f l) (hr : UniqueOn g r)
    (p : Option α × Option β → Bool) :
    (((fullOuterJoin (fun a => some (f a)) (fun b => some (g b)) l r).filter p).length : ℕ∞) =
      {k | joined f g l r k ≠ (none, none) ∧ p (joined f g l r k) = true}.encard := by
  have hunique : (((fullOuterJoin (fun a => some (f a)) (fun b => some (g b)) l r).filter p).map
      (coalesceKey f g)).Nodup :=
    (unique_fullOuterJoin hl hr).sublist List.filter_sublist
  have hkeys : some '' {k | joined f g l r k ≠ (none, none) ∧ p (joined f g l r k) = true} =
      {x | x ∈ ((fullOuterJoin (fun a => some (f a)) (fun b => some (g b)) l r).filter p).map
        (coalesceKey f g)} := by
    refine Set.ext fun x => ?_
    simp only [Set.mem_image, Set.mem_ofPred_eq, List.mem_map, List.mem_filter, mem_fullOuterJoin hl hr]
    constructor
    · rintro ⟨k, ⟨hpresent, hp⟩, rfl⟩
      exact ⟨_, ⟨⟨k, rfl, hpresent⟩, hp⟩, coalesceKey_joined.mpr hpresent⟩
    · rintro ⟨pair, ⟨⟨k, rfl, hpresent⟩, hp⟩, rfl⟩
      exact ⟨k, ⟨hpresent, hp⟩, (coalesceKey_joined.mpr hpresent).symm⟩
  rw [← (Option.some_injective κ).encard_image, hkeys, ← List.coe_toFinset, Set.encard_coe_eq_coe_finsetCard,
    List.toFinset_card_of_nodup hunique, List.length_map]

end FullOuterJoin

section LeftJoinOn

variable {cond : α → β → Tri} {r : List β} {a : α}

theorem leftJoinOn_singleton : leftJoinOn cond [a] r = padded a (sqlFilter (cond a) r) :=
  List.flatMap_singleton _ _

end LeftJoinOn

/-! ## Aggregates -/

section Aggregates

variable {ν : Type u} [LinearOrder ν] {xs : List (Option ν)} {m : ν}

/-- `MAX(x)`: the greatest of the values that are not NULL. -/
def sqlMax (xs : List (Option ν)) : Option ν := xs.reduceOption.max?

theorem sqlMax_eq_some : sqlMax xs = some m ↔ some m ∈ xs ∧ ∀ x, some x ∈ xs → x ≤ m := by
  unfold sqlMax
  rw [List.max?_eq_some_iff]
  simp only [List.reduceOption_mem_iff]

theorem sqlMax_eq_none : sqlMax xs = none ↔ ∀ x, some x ∉ xs := by
  unfold sqlMax
  rw [List.max?_eq_none_iff, List.eq_nil_iff_forall_not_mem]
  simp only [List.reduceOption_mem_iff]

/-- A value that bounds the others and is among them is the maximum. -/
theorem le_sqlMax {x : ν} (h : some x ∈ xs) : ∃ m, sqlMax xs = some m ∧ x ≤ m := by
  cases hm : sqlMax xs with
  | none => exact absurd h (sqlMax_eq_none.mp hm x)
  | some m => exact ⟨m, rfl, (sqlMax_eq_some.mp hm).2 x h⟩

variable {bs : List Tri}

/-- `BOOL_AND(b)`. -/
def boolAnd (bs : List Tri) : Tri :=
  if bs.reduceOption.isEmpty then none else some (bs.reduceOption.all id)

/-- `BOOL_OR(b)`. -/
def boolOr (bs : List Tri) : Tri :=
  if bs.reduceOption.isEmpty then none else some (bs.reduceOption.any id)

theorem boolAnd_eq_true : boolAnd bs = some true ↔ (∃ b, some b ∈ bs) ∧ some false ∉ bs := by
  unfold boolAnd
  cases hbs : bs.reduceOption with
  | nil =>
    have hnone : ∀ b, some b ∉ bs := fun b hb => by
      rw [← List.reduceOption_mem_iff, hbs] at hb
      cases hb
    simp [hnone]
  | cons b more =>
    have hmem : ∀ c, some c ∈ bs ↔ c ∈ b :: more := fun c => by rw [← hbs, List.reduceOption_mem_iff]
    simp only [hmem, List.isEmpty_cons, Bool.false_eq_true, if_false, Option.some.injEq, List.all_eq_true]
    constructor
    · exact fun h => ⟨⟨b, List.mem_cons_self⟩, fun hf => Bool.false_ne_true (h false hf)⟩
    · intro h c hc
      cases c with
      | true => rfl
      | false => exact absurd hc h.2

theorem boolOr_eq_true : boolOr bs = some true ↔ some true ∈ bs := by
  unfold boolOr
  cases hbs : bs.reduceOption with
  | nil =>
    have hnone : some true ∉ bs := fun hb => by
      rw [← List.reduceOption_mem_iff, hbs] at hb
      cases hb
    simp [hnone]
  | cons b more =>
    rw [← List.reduceOption_mem_iff, hbs]
    simp only [List.isEmpty_cons, Bool.false_eq_true, if_false, Option.some.injEq, List.any_eq_true, id,
      exists_eq_right]

end Aggregates

end Relational

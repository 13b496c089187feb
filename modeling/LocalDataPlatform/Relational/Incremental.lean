import LocalDataPlatform.Relational.KeyedRows
import Mathlib.Order.Lattice
import Mathlib.Order.MinMax
import Mathlib.Data.List.MinMax

/-!
# Incremental tables

A table that is refreshed from a source by merging only the rows newer than its own high-water mark.

* `highWater` — `coalesce(max(stamp), floor)`; `newerThan` — the rows strictly above a mark.
* `mergeOnce` — a `MERGE` statement, which fails rather than touch a target row twice.
* `Mirrors`, `CarriesUpTo` — the target carries the source, or its rows up to a mark.
* `Evolved` — what a table has become, row by row, over merges of rows above a mark.

Principal results: `highWater_le_mergeInto` (a merge of newer rows never lowers the mark),
`mirrors_merge_newer` (if the target already carries every source row up to its mark, merging the
newer rows makes it carry the whole source), `CarriesUpTo.upsert` (an upsert of source rows raises the
mark up to which the target carries the source), `CarriesUpTo.merge` (so does a merge of rows some of
which are stale), `Evolved.filter_eq` (what no newer row enters and no row leaves is as it was).
-/

set_option autoImplicit false

namespace Relational

universe u v w

section HighWater

variable {ρ : Type u} {ν : Type v} [LinearOrder ν] {stamp : ρ → ν} {floor : ν} {rows : List ρ}

/-- `coalesce((select max(stamp) from rows), floor)`. -/
def highWater (stamp : ρ → ν) (floor : ν) (rows : List ρ) : ν :=
  ((rows.map stamp).max?).getD floor

/-- `where stamp > mark`. -/
def newerThan (stamp : ρ → ν) (mark : ν) (rows : List ρ) : List ρ :=
  rows.filter (fun r => decide (mark < stamp r))

@[simp] theorem highWater_nil : highWater stamp floor [] = floor := rfl

theorem mem_newerThan {mark : ν} {r : ρ} :
    r ∈ newerThan stamp mark rows ↔ r ∈ rows ∧ mark < stamp r := by
  simp [newerThan]

theorem le_highWater {r : ρ} (h : r ∈ rows) : stamp r ≤ highWater stamp floor rows := by
  have hmem : stamp r ∈ rows.map stamp := List.mem_map_of_mem h
  unfold highWater
  cases hmax : (rows.map stamp).max? with
  | none =>
    rw [List.max?_eq_none_iff.mp hmax] at hmem
    cases hmem
  | some m => exact (List.max?_eq_some_iff.mp hmax).2 _ hmem

/-- The mark of a nonempty table is reached by one of its rows. -/
theorem exists_highWater (h : rows ≠ []) : ∃ r ∈ rows, stamp r = highWater stamp floor rows := by
  unfold highWater
  cases hmax : (rows.map stamp).max? with
  | none => exact absurd (List.map_eq_nil_iff.mp (List.max?_eq_none_iff.mp hmax)) h
  | some m => exact List.mem_map.mp (List.max?_eq_some_iff.mp hmax).1

theorem highWater_le {bound : ν} (hfloor : rows = [] → floor ≤ bound)
    (hrows : ∀ r ∈ rows, stamp r ≤ bound) : highWater stamp floor rows ≤ bound := by
  by_cases h : rows = []
  · rw [h]
    exact hfloor h
  · have hreached : ∃ r ∈ rows, stamp r = highWater stamp floor rows := exists_highWater h
    obtain ⟨r, hr, he⟩ := hreached
    exact he ▸ hrows r hr

end HighWater

/-! ## MERGE as a statement -/

section MergeOnce

variable {ρ : Type u} {κ : Type v} [DecidableEq κ] {key : ρ → κ} {accept : ρ → ρ → Bool}
variable {target source merged : List ρ}

/-- No target row is matched by two source rows. -/
def MatchesOnce (key : ρ → κ) (target source : List ρ) : Prop :=
  ∀ t ∈ target, (source.filter (fun s => decide (key s = key t))).length ≤ 1

instance : Decidable (MatchesOnce key target source) :=
  inferInstanceAs (Decidable (∀ t ∈ target, _))

/-- `MERGE` fails rather than touch a target row twice. -/
def mergeOnce (key : ρ → κ) (accept : ρ → ρ → Bool) (target source : List ρ) : Option (List ρ) :=
  if MatchesOnce key target source then some (mergeInto key accept target source) else none

theorem mergeOnce_eq_some (h : mergeOnce key accept target source = some merged) :
    MatchesOnce key target source ∧ merged = mergeInto key accept target source := by
  unfold mergeOnce at h
  split at h
  · rename_i hm
    cases h
    exact ⟨hm, rfl⟩
  · cases h

/-- Unique source rows match a target row at most once. -/
theorem UniqueOn.matchesOnce (hs : UniqueOn key source) : MatchesOnce key target source := by
  intro t _
  have hsame : ∀ s ∈ source.filter (fun s => decide (key s = key t)), key s = key t :=
    fun s h => of_decide_eq_true (List.mem_filter.mp h).2
  have hu : UniqueOn key (source.filter (fun s => decide (key s = key t))) :=
    hs.sublist List.filter_sublist
  cases hl : source.filter (fun s => decide (key s = key t)) with
  | nil => simp
  | cons s rest =>
    cases rest with
    | nil => simp
    | cons s' rest =>
      rw [hl] at hu hsame
      have hne : key s ≠ key s' := by
        have hnd := List.nodup_cons.mp hu
        exact fun he => hnd.1 (by simp [he])
      exact absurd ((hsame s (by simp)).trans (hsame s' (by simp)).symm) hne

theorem mergeOnce_of_unique (hs : UniqueOn key source) :
    mergeOnce key accept target source = some (mergeInto key accept target source) := by
  unfold mergeOnce
  rw [if_pos hs.matchesOnce]

omit [DecidableEq κ] in
/-- Rows of one key, among rows of unique keys. -/
theorem UniqueOn.length_le_one {rows l : List ρ} {k : κ} (hu : UniqueOn key rows) (hsub : l.Sublist rows)
    (hk : ∀ r ∈ l, key r = k) : l.length ≤ 1 := by
  cases l with
  | nil => exact Nat.zero_le 1
  | cons a l =>
    cases l with
    | nil => exact Nat.le_refl 1
    | cons b l =>
      have hnodup : (a :: b :: l).map key |>.Nodup := hu.sublist hsub
      have hne : key a ≠ key b := fun he => (List.nodup_cons.mp hnodup).1 (by rw [he]; exact List.mem_cons_self)
      exact absurd ((hk a List.mem_cons_self).trans (hk b (by simp)).symm) hne

/-- **What is merged into unique rows has each key once**, matched or not. -/
theorem mergeOnce_source_once (h : mergeOnce key accept target source = some merged)
    (hu : UniqueOn key merged) (k : κ) : (source.filter fun r => decide (key r = k)).length ≤ 1 := by
  obtain ⟨hmatches, rfl⟩ := mergeOnce_eq_some h
  cases ht : lookup key target k with
  | some t =>
    have honce := hmatches t (mem_of_lookup ht)
    rwa [key_of_lookup ht] at honce
  | none =>
    -- rows of a new key are all inserted
    refine hu.length_le_one (k := k) (List.Sublist.trans ?_ (List.sublist_append_right _ _)) fun r hr =>
      of_decide_eq_true (List.mem_filter.mp hr).2
    refine List.monotone_filter_right source fun r hr => ?_
    rw [of_decide_eq_true hr, ht]
    rfl

end MergeOnce

/-! ## Merging what is newer -/

section Newer

variable {ρ : Type u} {κ : Type v} {ν : Type w} [DecidableEq κ] [LinearOrder ν]
variable {key : ρ → κ} {accept : ρ → ρ → Bool} {stamp : ρ → ν} {floor : ν}
variable {target source : List ρ}

/-- A source row is merged under its key when the match predicate lets newer rows through. -/
theorem lookup_mergeInto_of_accept {k : κ} {s : ρ} (hs : lookup key source k = some s)
    (hacc : ∀ t ∈ target, key t = key s → accept s t = true) :
    lookup key (mergeInto key accept target source) k = some s := by
  rw [lookup_mergeInto, hs]
  cases ht : lookup key target k with
  | none => rfl
  | some t =>
    have hk : key t = key s := (key_of_lookup ht).trans (key_of_lookup hs).symm
    simp only [mergeRow, hacc t (mem_of_lookup ht) hk, if_true]

/-- A merge that lets no older row through never lowers the mark of a table with rows. -/
theorem highWater_le_merge (hacc : ∀ s t, accept s t = true → stamp t ≤ stamp s) (hne : target ≠ []) :
    highWater stamp floor target ≤ highWater stamp floor (mergeInto key accept target source) := by
  refine highWater_le (fun h => absurd h hne) fun t ht => ?_
  have hkept : stamp t ≤ stamp (resolve key accept source t) := by
    rcases resolve_cases key accept source t with he | ⟨s, -, -, haccept, he⟩
    · rw [he]
    · rw [he]
      exact hacc s t haccept
  exact hkept.trans (le_highWater (List.mem_append_left _ (List.mem_map_of_mem ht)))

/-- **A merge of newer rows never lowers the mark.** -/
theorem highWater_le_mergeInto (hnew : ∀ s ∈ source, highWater stamp floor target < stamp s)
    (hacc : ∀ s ∈ source, ∀ t ∈ target, key t = key s → accept s t = true) :
    highWater stamp floor target ≤ highWater stamp floor (mergeInto key accept target source) := by
  cases source with
  | nil => rw [mergeInto_nil]
  | cons s₀ source =>
    have hsome : ∃ s, lookup key (s₀ :: source) (key s₀) = some s := exists_lookup List.mem_cons_self
    obtain ⟨s, hs⟩ := hsome
    have hmerged := lookup_mergeInto_of_accept hs (hacc s (mem_of_lookup hs))
    exact (hnew s (mem_of_lookup hs)).le.trans (le_highWater (mem_of_lookup hmerged))

end Newer

section Refresh

variable {ρ : Type u} {τ : Type w} {κ : Type v} {ν : Type u} [DecidableEq κ] [LinearOrder ν]
variable {key : ρ → κ} {stamp : ρ → ν} {mark : ν} {key' : τ → κ} {proj : τ → ρ}
variable {accept : τ → τ → Bool} {source source' : List ρ} {target newer : List τ}

/-- Key by key, the target carries exactly the source. -/
def Mirrors (key : ρ → κ) (key' : τ → κ) (proj : τ → ρ) (source : List ρ) (target : List τ) : Prop :=
  ∀ k, (lookup key' target k).map proj = lookup key source k

/-- The target carries the source rows up to the mark. -/
def CarriesUpTo (key : ρ → κ) (stamp : ρ → ν) (mark : ν) (key' : τ → κ) (proj : τ → ρ)
    (source : List ρ) (target : List τ) : Prop :=
  ∀ s ∈ source, stamp s ≤ mark → (lookup key' target (key s)).map proj = some s

theorem Mirrors.carries (h : Mirrors key key' proj source target) (hu : UniqueOn key source) :
    CarriesUpTo key stamp mark key' proj source target :=
  fun s hs _ => (h (key s)).trans (hu.lookup_self hs)

/-- Source rows that appear above the mark leave what the target carries. -/
theorem CarriesUpTo.mono (h : CarriesUpTo key stamp mark key' proj source target)
    (hsub : ∀ s ∈ source', stamp s ≤ mark → s ∈ source) :
    CarriesUpTo key stamp mark key' proj source' target :=
  fun s hs hle => h s (hsub s hs hle) hle

/-- **An upsert of source rows raises the mark** up to which the target carries the source, as far as
the rows above the old mark are among them. -/
theorem CarriesUpTo.upsert {mark' : ν} (h : CarriesUpTo key stamp mark key' proj source target)
    (hproj : ∀ f, key (proj f) = key' f) (hu : UniqueOn key source)
    (hnewer : ∀ f ∈ newer, proj f ∈ source)
    (hcover : ∀ s ∈ source, mark < stamp s → stamp s ≤ mark' → ∃ f ∈ newer, proj f = s) :
    CarriesUpTo key stamp mark' key' proj source (mergeInto key' (fun _ _ => true) target newer) := by
  intro s hs hle
  rw [lookup_upsert]
  cases hn : lookup key' newer (key s) with
  | some f =>
    have hk : key (proj f) = key s := (hproj f).trans (key_of_lookup hn)
    have hf : proj f = s := hu.eq_of_key (hnewer f (mem_of_lookup hn)) hs hk
    rw [Option.some_or, Option.map_some, hf]
  | none =>
    rw [Option.none_or]
    refine h s hs (not_lt.mp fun hlt => ?_)
    obtain ⟨f, hf, rfl⟩ := hcover s hs hlt hle
    exact lookup_eq_none.mp hn f hf (hproj f).symm

/-- **A merge that lets no older row through raises the mark**, stale rows or not: the rows merged are
the source rows between the marks, and rows of keys whose source row is later than they are. -/
theorem CarriesUpTo.merge {mark' : ν} {accept : ρ → ρ → Bool} {target newer : List ρ}
    (h : CarriesUpTo key stamp mark key id source target)
    (hacc : ∀ f t, accept f t = true ↔ stamp t ≤ stamp f) (hmark : ∀ t ∈ target, stamp t ≤ mark)
    (hu : UniqueOn key newer)
    (hstale : ∀ f ∈ newer, ∀ s ∈ source, key s = key f → stamp s ≤ stamp f → s = f)
    (hcover : ∀ s ∈ source, mark < stamp s → stamp s ≤ mark' → s ∈ newer) :
    CarriesUpTo key stamp mark' key id source (mergeInto key accept target newer) := by
  intro s hs hle
  rw [lookup_mergeInto, Option.map_id]
  rcases le_or_gt (stamp s) mark with hold | hnew
  · have ht : lookup key target (key s) = some s := by simpa using h s hs hold
    rw [ht]
    cases hf : lookup key newer (key s) with
    | none => rfl
    | some f =>
      -- the merged row is the current one, or older than it
      by_cases hsf : stamp s ≤ stamp f
      · rw [hstale f (mem_of_lookup hf) s hs (key_of_lookup hf).symm hsf]
        exact congrArg some (ite_self f)
      · have hrefused : accept f s = false := Bool.eq_false_iff.mpr fun ha => hsf ((hacc f s).mp ha)
        simp only [mergeRow, hrefused, Bool.false_eq_true, if_false, id]
  · have hf : lookup key newer (key s) = some s := hu.lookup_self (hcover s hs hnew hle)
    rw [hf]
    cases ht : lookup key target (key s) with
    | none => rfl
    | some t =>
      have haccept : accept s t = true := (hacc s t).mpr ((hmark t (mem_of_lookup ht)).trans hnew.le)
      simp only [mergeRow, haccept, if_true, id]

/-- With unique keys on both sides a mirror holds the source, up to order. -/
theorem Mirrors.perm (h : Mirrors key key' proj source target) (hproj : ∀ f, key (proj f) = key' f)
    (hu : UniqueOn key source) (hu' : UniqueOn key' target) : (target.map proj).Perm source := by
  refine perm_of_lookup_eq (hu'.map_proj hproj) hu fun k => ?_
  rw [lookup_map hproj]
  exact h k

/-- Rows that cover a source, and come from it, mirror it. -/
theorem mirrors_of_cover (hproj : ∀ f, key (proj f) = key' f) (hu : UniqueOn key source)
    (hsub : ∀ f ∈ target, proj f ∈ source) (hcover : ∀ s ∈ source, ∃ f ∈ target, proj f = s) :
    Mirrors key key' proj source target := by
  intro k
  cases ht : lookup key' target k with
  | some f =>
    have hk : key (proj f) = k := (hproj f).trans (key_of_lookup ht)
    exact (hu.lookup_eq_some.mpr ⟨hsub f (mem_of_lookup ht), hk⟩).symm
  | none =>
    refine (lookup_eq_none.mpr fun s hs hk => ?_).symm
    obtain ⟨f, hf, rfl⟩ := hcover s hs
    exact lookup_eq_none.mp ht f hf ((hproj f).symm.trans hk)

/-- **Refreshing by what is newer gives the whole source.**  `newer` carries the source rows above
the mark, the target those at or below it and no other key. -/
theorem mirrors_merge_newer (hproj : ∀ f, key (proj f) = key' f) (hu : UniqueOn key source)
    (hnewer : ∀ f ∈ newer, proj f ∈ source ∧ mark < stamp (proj f))
    (hcover : ∀ s ∈ source, mark < stamp s → ∃ f ∈ newer, proj f = s)
    (hold : CarriesUpTo key stamp mark key' proj source target)
    (hkeys : ∀ t ∈ target, ∃ s ∈ source, key s = key' t)
    (hacc : ∀ f ∈ newer, ∀ t ∈ target, key' t = key' f → accept f t = true) :
    Mirrors key key' proj source (mergeInto key' accept target newer) := by
  intro k
  cases hn : lookup key' newer k with
  | some f =>
    have hf : f ∈ newer := mem_of_lookup hn
    have hk : key (proj f) = k := (hproj f).trans (key_of_lookup hn)
    rw [lookup_mergeInto_of_accept hn (hacc f hf)]
    exact (hu.lookup_eq_some.mpr ⟨(hnewer f hf).1, hk⟩).symm
  | none =>
    have hmerged : lookup key' (mergeInto key' accept target newer) k = lookup key' target k := by
      rw [lookup_mergeInto, hn]
      cases lookup key' target k <;> rfl
    rw [hmerged]
    cases hs : lookup key source k with
    | some s =>
      have hle : stamp s ≤ mark := by
        refine not_lt.mp fun hlt => ?_
        obtain ⟨f, hf, rfl⟩ := hcover s (mem_of_lookup hs) hlt
        exact lookup_eq_none.mp hn f hf ((hproj f).symm.trans (key_of_lookup hs))
      rw [← key_of_lookup hs]
      exact hold s (mem_of_lookup hs) hle
    | none =>
      cases ht : lookup key' target k with
      | none => rfl
      | some t =>
        obtain ⟨s, hsm, hk⟩ := hkeys t (mem_of_lookup ht)
        exact absurd (hk.trans (key_of_lookup ht)) (lookup_eq_none.mp hs s hsm)

end Refresh

/-! ## Rows that change over several merges -/

section Evolved

variable {ρ : Type u} {κ : Type v} {ν : Type w} [DecidableEq κ] [LinearOrder ν]
variable {key : ρ → κ} {accept : ρ → ρ → Bool} {stamp : ρ → ν} {mark : ν}
variable {old target source : List ρ}

/-- Row by row, `target` is `old` with some rows replaced under their key by rows above the mark,
followed by more rows above the mark. -/
def Evolved (key : ρ → κ) (stamp : ρ → ν) (mark : ν) (old target : List ρ) : Prop :=
  ∃ kept added, target = kept ++ added ∧
    List.Forall₂ (fun o n => n = o ∨ key n = key o ∧ mark < stamp n) old kept ∧
    ∀ r ∈ added, mark < stamp r

omit [DecidableEq κ] in
theorem Evolved.refl (rows : List ρ) : Evolved key stamp mark rows rows := by
  refine ⟨rows, [], (List.append_nil rows).symm, ?_, fun _ h => by cases h⟩
  exact List.forall₂_same.mpr fun _ _ => Or.inl rfl

/-- A merge of rows above the mark evolves a table further. -/
theorem Evolved.mergeInto (h : Evolved key stamp mark old target)
    (hnew : ∀ s ∈ source, mark < stamp s) :
    Evolved key stamp mark old (mergeInto key accept target source) := by
  obtain ⟨kept, added, rfl, hkept, hadded⟩ := h
  refine ⟨kept.map (resolve key accept source), added.map (resolve key accept source) ++
    source.filter (fun s => (lookup key (kept ++ added) (key s)).isNone), ?_, ?_, ?_⟩
  · unfold Relational.mergeInto
    rw [List.map_append, List.append_assoc]
  · refine List.forall₂_map_right_iff.mpr (hkept.imp fun o n hon => ?_)
    rcases resolve_cases key accept source n with hn | ⟨s, hs, hk, -, hn⟩
    · rwa [hn]
    · rw [hn]
      have hk' : key n = key o := hon.elim (congrArg key) And.left
      exact Or.inr ⟨hk.trans hk', hnew s hs⟩
  · intro r hr
    rcases List.mem_append.mp hr with hr | hr
    · obtain ⟨n, hn, rfl⟩ := List.mem_map.mp hr
      rcases resolve_cases key accept source n with he | ⟨s, hs, -, -, he⟩
      · rw [he]
        exact hadded n hn
      · rw [he]
        exact hnew s hs
    · exact hnew r (List.mem_of_mem_filter hr)

omit [DecidableEq κ] in
/-- **A selection that no row above the mark enters and no row leaves is as it was.** -/
theorem Evolved.filter_eq {p : ρ → Bool} (h : Evolved key stamp mark old target)
    (hnew : ∀ n ∈ target, mark < stamp n → p n = false)
    (hleft : ∀ o ∈ old, ∀ n ∈ target, key n = key o → p o = true → p n = true) :
    target.filter p = old.filter p := by
  obtain ⟨kept, added, rfl, hkept, hadded⟩ := h
  have hnone : added.filter p = [] := by
    refine List.filter_eq_nil_iff.mpr fun r hr => ?_
    rw [hnew r (List.mem_append_right _ hr) (hadded r hr)]
    exact Bool.false_ne_true
  have hsame : kept.filter p = old.filter p := by
    have hnew' : ∀ n ∈ kept, mark < stamp n → p n = false :=
      fun n hn => hnew n (List.mem_append_left _ hn)
    have hleft' : ∀ o ∈ old, ∀ n ∈ kept, key n = key o → p o = true → p n = true :=
      fun o ho n hn => hleft o ho n (List.mem_append_left _ hn)
    clear hnew hleft hadded
    induction hkept with
    | nil => rfl
    | @cons o n old kept hon _ ih =>
      have ih := ih (fun n hn => hnew' n (List.mem_cons_of_mem _ hn))
        fun o ho n hn => hleft' o (List.mem_cons_of_mem _ ho) n (List.mem_cons_of_mem _ hn)
      rw [List.filter_cons, List.filter_cons, ih]
      rcases hon with rfl | ⟨hk, hlt⟩
      · rfl
      · have hn : p n = false := hnew' n List.mem_cons_self hlt
        have ho : p o = false := by
          refine Bool.eq_false_iff.mpr fun ho => ?_
          rw [hleft' o List.mem_cons_self n List.mem_cons_self hk ho] at hn
          cases hn
        rw [hn, ho]
        rfl
  rw [List.filter_append, hnone, List.append_nil, hsame]

end Evolved

end Relational

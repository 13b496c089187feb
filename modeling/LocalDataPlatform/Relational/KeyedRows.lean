import Mathlib.Data.List.Nodup
import Mathlib.Data.List.Perm.Basic
import Mathlib.Data.Set.Basic

/-!
# Keyed rows

Lists of rows read through a key column, for stores that address rows by key.

* `lookup` — the row carrying a key; `UniqueOn` — no key occurs twice.
* `mergeInto` — `MERGE INTO target USING source ON key`: a matched target row is replaced
  when the matched predicate accepts it, an unmatched source row is inserted.
* `Table` — rows whose key is unique by construction (a declared primary key), with the
  single-row upsert `put` and the insert-or-ignore `putNew`.

Principal results: `lookup_mergeInto` (a merge acts key by key, with no uniqueness
assumption), `UniqueOn.mergeInto` (a merge of unique rows into unique rows stays unique),
`perm_of_lookup_eq` (unique rows are determined by their lookups, up to order).
-/

set_option autoImplicit false

namespace Relational

universe u v w

variable {ρ : Type u} {κ : Type v} {τ : Type w}

/-- No key occurs in two rows. -/
def UniqueOn (key : ρ → κ) (rows : List ρ) : Prop := (rows.map key).Nodup

section Unique

variable {key : ρ → κ} {rows : List ρ}

@[simp] theorem UniqueOn.nil : UniqueOn key ([] : List ρ) := List.nodup_nil

theorem UniqueOn.nodup (hu : UniqueOn key rows) : rows.Nodup := List.Nodup.of_map key hu

theorem UniqueOn.eq_of_key {r r' : ρ} (hu : UniqueOn key rows) (hr : r ∈ rows) (hr' : r' ∈ rows)
    (h : key r = key r') : r = r' :=
  List.inj_on_of_nodup_map hu hr hr' h

theorem UniqueOn.sublist {rows' : List ρ} (hu : UniqueOn key rows) (h : rows'.Sublist rows) :
    UniqueOn key rows' :=
  List.Nodup.sublist (h.map key) hu

theorem UniqueOn.append {rows' : List ρ} (hu : UniqueOn key rows) (hu' : UniqueOn key rows')
    (hd : ∀ r ∈ rows, ∀ r' ∈ rows', key r ≠ key r') : UniqueOn key (rows ++ rows') := by
  unfold UniqueOn at *
  rw [List.map_append]
  refine List.Nodup.append hu hu' ?_
  intro a ha ha'
  obtain ⟨r, hr, rfl⟩ := List.mem_map.mp ha
  obtain ⟨r', hr', he⟩ := List.mem_map.mp ha'
  exact hd r hr r' hr' he.symm

/-- A projection that keeps the key keeps it unique. -/
theorem UniqueOn.map_proj {f : ρ → τ} {key' : τ → κ} (hf : ∀ r, key' (f r) = key r)
    (hu : UniqueOn key rows) : UniqueOn key' (rows.map f) := by
  unfold UniqueOn at *
  rwa [List.map_map, show key' ∘ f = key from funext hf]

theorem UniqueOn.comp_injective {f : κ → τ} (hu : UniqueOn key rows) (hf : Function.Injective f) :
    UniqueOn (fun r => f (key r)) rows := by
  unfold UniqueOn at *
  have hmap : rows.map (fun r => f (key r)) = (rows.map key).map f := (List.map_map ..).symm
  rw [hmap]
  exact hu.map hf

/-- A partial projection that keeps the key keeps it unique. -/
theorem UniqueOn.filterMap {f : ρ → Option τ} {key' : τ → κ}
    (hf : ∀ r t, f r = some t → key' t = key r) (hu : UniqueOn key rows) :
    UniqueOn key' (rows.filterMap f) := by
  have hsub : ((rows.filterMap f).map key').Sublist (rows.map key) := by
    clear hu
    induction rows with
    | nil => exact List.Sublist.refl _
    | cons r rows ih =>
      cases hr : f r with
      | none =>
        rw [List.filterMap_cons_none hr]
        exact ih.cons _
      | some t =>
        rw [List.filterMap_cons_some hr, List.map_cons, List.map_cons, hf r t hr]
        exact ih.cons_cons _
  exact List.Nodup.sublist hsub hu

end Unique

variable [DecidableEq κ]

/-- The first row carrying key `k`. -/
def lookup (key : ρ → κ) (rows : List ρ) (k : κ) : Option ρ :=
  rows.find? (fun r => decide (key r = k))

section Lookup

variable {key : ρ → κ} {rows : List ρ} {k : κ} {r : ρ}

@[simp] theorem lookup_nil : lookup key [] k = none := rfl

theorem lookup_cons : lookup key (r :: rows) k = if key r = k then some r else lookup key rows k := by
  by_cases h : key r = k <;> simp [lookup, h]

theorem lookup_append {rows' : List ρ} :
    lookup key (rows ++ rows') k = (lookup key rows k).or (lookup key rows' k) := by
  simp [lookup, List.find?_append]

theorem mem_of_lookup (h : lookup key rows k = some r) : r ∈ rows :=
  List.mem_of_find?_eq_some h

theorem key_of_lookup (h : lookup key rows k = some r) : key r = k := by
  simpa using List.find?_some h

theorem lookup_eq_none : lookup key rows k = none ↔ ∀ r ∈ rows, key r ≠ k := by
  simp [lookup, List.find?_eq_none]

theorem lookup_isSome : (lookup key rows k).isSome ↔ ∃ r ∈ rows, key r = k := by
  simp [lookup, List.find?_isSome]

theorem exists_lookup (h : r ∈ rows) : ∃ r', lookup key rows (key r) = some r' :=
  Option.isSome_iff_exists.mp (lookup_isSome.mpr ⟨r, h, rfl⟩)

/-- Under a unique key, looking a row up and having it are the same. -/
theorem UniqueOn.lookup_eq_some (hu : UniqueOn key rows) :
    lookup key rows k = some r ↔ r ∈ rows ∧ key r = k := by
  constructor
  · exact fun h => ⟨mem_of_lookup h, key_of_lookup h⟩
  · rintro ⟨hr, rfl⟩
    have hsome : ∃ r', lookup key rows (key r) = some r' := exists_lookup hr
    obtain ⟨r', hr'⟩ := hsome
    rw [hr', hu.eq_of_key (mem_of_lookup hr') hr (key_of_lookup hr')]

theorem UniqueOn.lookup_self (hu : UniqueOn key rows) (hr : r ∈ rows) :
    lookup key rows (key r) = some r :=
  hu.lookup_eq_some.mpr ⟨hr, rfl⟩

/-- A projection that keeps the key commutes with `lookup`. -/
theorem lookup_map {f : ρ → τ} {key' : τ → κ} (hf : ∀ r, key' (f r) = key r) :
    lookup key' (rows.map f) k = (lookup key rows k).map f := by
  have hcomp : (fun t => decide (key' t = k)) ∘ f = fun r => decide (key r = k) :=
    funext fun r => by rw [Function.comp_apply, hf]
  unfold lookup
  rw [List.find?_map, hcomp]

/-- The rows of a unique key are the one that is looked up. -/
theorem UniqueOn.filter_key (hu : UniqueOn key rows) :
    rows.filter (fun r => decide (key r = k)) = (lookup key rows k).toList := by
  induction rows with
  | nil => rfl
  | cons r rows ih =>
    have hcons : key r ∉ rows.map key ∧ UniqueOn key rows := List.nodup_cons.mp hu
    rw [lookup_cons]
    by_cases hk : key r = k
    · have hrest : rows.filter (fun r => decide (key r = k)) = [] := by
        refine List.filter_eq_nil_iff.mpr fun r' hr' he => hcons.1 ?_
        rw [hk, ← of_decide_eq_true he]
        exact List.mem_map_of_mem hr'
      rw [List.filter_cons_of_pos (by simpa using hk), hrest, if_pos hk, Option.toList_some]
    · rw [List.filter_cons_of_neg (by simpa using hk), if_neg hk]
      exact ih hcons.2

/-- Under a unique key a filter acts on the row that is looked up. -/
theorem UniqueOn.lookup_filter {p : ρ → Bool} (hu : UniqueOn key rows) :
    lookup key (rows.filter p) k = (lookup key rows k).filter p := by
  have hfilter : UniqueOn key (rows.filter p) := hu.sublist List.filter_sublist
  refine Option.ext fun r => ?_
  rw [hfilter.lookup_eq_some, Option.filter_eq_some_iff, hu.lookup_eq_some, List.mem_filter]
  tauto

/-- The order of unique rows does not matter to a lookup. -/
theorem UniqueOn.lookup_of_perm {rows' : List ρ} (hu : UniqueOn key rows) (hp : rows.Perm rows') :
    lookup key rows k = lookup key rows' k := by
  have hu' : UniqueOn key rows' := (hp.map key).nodup_iff.mp hu
  refine Option.ext fun r => ?_
  rw [hu.lookup_eq_some, hu'.lookup_eq_some, hp.mem_iff]

/-- **Unique rows are determined by their lookups**, up to the order they are stored in. -/
theorem perm_of_lookup_eq {rows' : List ρ} (hu : UniqueOn key rows) (hu' : UniqueOn key rows')
    (h : ∀ k, lookup key rows k = lookup key rows' k) : rows.Perm rows' := by
  refine (List.perm_ext_iff_of_nodup hu.nodup hu'.nodup).mpr fun r => ?_
  constructor
  · intro hr
    exact mem_of_lookup ((h (key r)).symm.trans (hu.lookup_self hr))
  · intro hr
    exact mem_of_lookup ((h (key r)).trans (hu'.lookup_self hr))

end Lookup

/-! ## MERGE -/

/-- What a matched target row becomes. -/
def resolve (key : ρ → κ) (accept : ρ → ρ → Bool) (source : List ρ) (t : ρ) : ρ :=
  match lookup key source (key t) with
  | some s => if accept s t then s else t
  | none => t

/-- `MERGE INTO target USING source ON key`: `WHEN MATCHED AND accept source target` replaces
the target row, `WHEN NOT MATCHED` inserts the source row. -/
def mergeInto (key : ρ → κ) (accept : ρ → ρ → Bool) (target source : List ρ) : List ρ :=
  target.map (resolve key accept source) ++
    source.filter (fun s => (lookup key target (key s)).isNone)

/-- What a merge does to the rows of one key. -/
def mergeRow (accept : ρ → ρ → Bool) : Option ρ → Option ρ → Option ρ
  | some t, some s => some (if accept s t then s else t)
  | some t, none => some t
  | none, s => s

/-- `WHEN NOT MATCHED THEN INSERT` alone. -/
def insertNew (key : ρ → κ) (target source : List ρ) : List ρ :=
  mergeInto key (fun _ _ => false) target source

section Merge

variable {key : ρ → κ} {accept : ρ → ρ → Bool} {target source : List ρ} {k : κ}

theorem key_resolve (t : ρ) : key (resolve key accept source t) = key t := by
  unfold resolve
  split
  · rename_i s hs
    split
    · exact key_of_lookup hs
    · rfl
  · rfl

/-- Nothing to merge leaves the target alone. -/
@[simp] theorem mergeInto_nil : mergeInto key accept target [] = target := by
  have hid : resolve key accept [] = id := rfl
  simp [mergeInto, hid]

theorem lookup_filter_unmatched (h : lookup key target k = none) :
    lookup key (source.filter (fun s => (lookup key target (key s)).isNone)) k = lookup key source k := by
  induction source with
  | nil => rfl
  | cons s source ih =>
    by_cases hk : key s = k
    · subst hk
      simp [lookup_cons, h]
    · cases hs : (lookup key target (key s)).isNone with
      | true => rw [List.filter_cons_of_pos (by simpa using hs), lookup_cons, lookup_cons, ih, if_neg hk]
      | false => rw [List.filter_cons_of_neg (by simp [hs]), lookup_cons, ih, if_neg hk]

/-- Target rows whose keys occur only there are merged by themselves. -/
theorem mergeInto_append {target' : List ρ} (h : ∀ r ∈ target', lookup key target (key r) = none) :
    mergeInto key accept (target ++ target') source = target.map (resolve key accept source) ++
      mergeInto key accept target' (source.filter fun s => (lookup key target (key s)).isNone) := by
  have hresolve : target'.map (resolve key accept source) = target'.map
      (resolve key accept (source.filter fun s => (lookup key target (key s)).isNone)) := by
    refine List.map_congr_left fun r hr => ?_
    unfold resolve
    rw [lookup_filter_unmatched (h r hr)]
  have hinsert : source.filter (fun s => (lookup key (target ++ target') (key s)).isNone) =
      (source.filter fun s => (lookup key target (key s)).isNone).filter
        fun s => (lookup key target' (key s)).isNone := by
    rw [List.filter_filter]
    refine List.filter_congr fun s _ => ?_
    rw [lookup_append]
    cases lookup key target (key s) <;> simp
  unfold mergeInto
  rw [List.map_append, hresolve, hinsert, List.append_assoc]

/-- **A merge acts key by key.** -/
theorem lookup_mergeInto :
    lookup key (mergeInto key accept target source) k =
      mergeRow accept (lookup key target k) (lookup key source k) := by
  unfold mergeInto
  rw [lookup_append, lookup_map (fun t => key_resolve t)]
  cases ht : lookup key target k with
  | none => simp [lookup_filter_unmatched ht, mergeRow]
  | some t =>
    have hk : key t = k := key_of_lookup ht
    simp only [Option.map_some, Option.some_or, resolve, hk]
    cases lookup key source k <;> rfl

/-- An upsert acts key by key: the source row wins. -/
theorem lookup_upsert : lookup key (mergeInto key (fun _ _ => true) target source) k =
    (lookup key source k).or (lookup key target k) := by
  rw [lookup_mergeInto]
  cases lookup key target k <;> cases lookup key source k <;> rfl

theorem lookup_insertNew :
    lookup key (insertNew key target source) k = (lookup key target k).or (lookup key source k) := by
  unfold insertNew
  rw [lookup_mergeInto]
  cases lookup key target k <;> cases lookup key source k <;> simp [mergeRow]

theorem mem_mergeInto {r : ρ} (h : r ∈ mergeInto key accept target source) :
    r ∈ target ∨ r ∈ source := by
  rcases List.mem_append.mp h with h | h
  · obtain ⟨t, ht, rfl⟩ := List.mem_map.mp h
    unfold resolve
    split
    · rename_i s hs
      split
      · exact Or.inr (mem_of_lookup hs)
      · exact Or.inl ht
    · exact Or.inl ht
  · exact Or.inr (List.mem_of_mem_filter h)

/-- A matched row is kept or becomes a source row of its key. -/
theorem resolve_cases (key : ρ → κ) (accept : ρ → ρ → Bool) (source : List ρ) (t : ρ) : resolve key accept source t = t ∨
    ∃ s ∈ source, key s = key t ∧ accept s t = true ∧ resolve key accept source t = s := by
  unfold resolve
  cases hs : lookup key source (key t) with
  | none => exact Or.inl rfl
  | some s =>
    dsimp only
    split
    · rename_i haccept
      exact Or.inr ⟨s, mem_of_lookup hs, key_of_lookup hs, haccept, rfl⟩
    · exact Or.inl rfl

/-- A merge leaves a selection alone when no source row is selected afterwards and no row enters
or leaves it under its key. -/
theorem filter_mergeInto {p : ρ → Bool}
    (hsame : ∀ t ∈ target, ∀ s ∈ source, key s = key t → p s = p t)
    (hnone : ∀ s ∈ source, s ∈ mergeInto key accept target source → p s = false) :
    (mergeInto key accept target source).filter p = target.filter p := by
  have hnew : (source.filter (fun s => (lookup key target (key s)).isNone)).filter p = [] := by
    refine List.filter_eq_nil_iff.mpr fun s hs => ?_
    rw [hnone s (List.mem_of_mem_filter hs) (List.mem_append_right _ hs)]
    exact Bool.false_ne_true
  have hkept : ∀ rows : List ρ, (∀ t ∈ rows, t ∈ target) →
      (rows.map (resolve key accept source)).filter p = rows.filter p := by
    intro rows hrows
    induction rows with
    | nil => rfl
    | cons t rows ih =>
      have ht : t ∈ target := hrows t List.mem_cons_self
      have ih := ih fun t' h => hrows t' (List.mem_cons_of_mem _ h)
      rw [List.map_cons, List.filter_cons, List.filter_cons, ih]
      rcases resolve_cases key accept source t with h | ⟨s, hs, hk, -, h⟩
      · rw [h]
      · have hs' : s ∈ mergeInto key accept target source :=
          List.mem_append_left _ (List.mem_map.mpr ⟨t, ht, h⟩)
        have hp : p s = false := hnone s hs hs'
        rw [h, ← hsame t ht s hs hk, hp]
        rfl
  unfold mergeInto
  rw [List.filter_append, hnew, List.append_nil, hkept target fun _ h => h]

/-- A selection that no upserted row enters, and that one leaves, shrinks. -/
theorem length_filter_upsert_lt {p : ρ → Bool} (hnone : ∀ s ∈ source, p s = false)
    (hleft : ∃ t ∈ target, p t = true ∧ ∃ s ∈ source, key s = key t) :
    ((mergeInto key (fun _ _ => true) target source).filter p).length < (target.filter p).length := by
  have hnew : (source.filter (fun s => (lookup key target (key s)).isNone)).filter p = [] := by
    refine List.filter_eq_nil_iff.mpr fun s hs => ?_
    rw [hnone s (List.mem_of_mem_filter hs)]
    exact Bool.false_ne_true
  unfold mergeInto
  rw [List.filter_append, hnew, List.append_nil]
  -- the matched rows are no longer selected, the others are as they were
  have hkept : ∀ rows : List ρ, ((rows.map (resolve key (fun _ _ => true) source)).filter p).length ≤
      (rows.filter p).length := by
    intro rows
    induction rows with
    | nil => exact Nat.le_refl _
    | cons t rows ih =>
      rw [List.map_cons, List.filter_cons, List.filter_cons]
      rcases resolve_cases key (fun _ _ => true) source t with h | ⟨s, hs, -, -, h⟩
      · rw [h]
        cases p t with
        | false => exact ih
        | true => exact Nat.succ_le_succ ih
      · rw [h, hnone s hs]
        cases p t with
        | false => exact ih
        | true => exact Nat.le_succ_of_le ih
  obtain ⟨t, ht, hp, s, hs, hk⟩ := hleft
  obtain ⟨before, after, rfl⟩ := List.append_of_mem ht
  have hmatched : p (resolve key (fun _ _ => true) source t) = false := by
    obtain ⟨s', hs'⟩ := (show ∃ s', lookup key source (key s) = some s' from exists_lookup hs)
    unfold resolve
    rw [← hk, hs']
    exact hnone s' (mem_of_lookup hs')
  have hbefore := hkept before
  have hafter := hkept after
  rw [List.map_append, List.map_cons, List.filter_append, List.filter_append, List.filter_cons,
    List.filter_cons, hmatched, if_neg Bool.false_ne_true, if_pos hp, List.length_append,
    List.length_append, List.length_cons]
  omega

/-- **Merging unique rows into unique rows keeps the key unique.** -/
theorem UniqueOn.mergeInto (ht : UniqueOn key target) (hs : UniqueOn key source) :
    UniqueOn key (mergeInto key accept target source) := by
  refine UniqueOn.append ?_ (hs.sublist List.filter_sublist) ?_
  · unfold UniqueOn
    rw [List.map_map, show key ∘ resolve key accept source = key from funext (fun t => key_resolve t)]
    exact ht
  · intro r hr s hsm he
    obtain ⟨t, htm, rfl⟩ := List.mem_map.mp hr
    have hn := (List.mem_filter.mp hsm).2
    have hsome : ∃ t', lookup key target (key t) = some t' := exists_lookup htm
    obtain ⟨t', ht'⟩ := hsome
    have he : key t = key s := (key_resolve t).symm.trans he
    rw [← he, ht'] at hn
    cases hn

theorem UniqueOn.insertNew (ht : UniqueOn key target) (hs : UniqueOn key source) :
    UniqueOn key (insertNew key target source) :=
  UniqueOn.mergeInto ht hs

/-- The keys after a merge are the keys of both sides. -/
theorem lookup_mergeInto_isSome :
    (lookup key (Relational.mergeInto key accept target source) k).isSome ↔
      (lookup key target k).isSome ∨ (lookup key source k).isSome := by
  rw [lookup_mergeInto]
  cases lookup key target k <;> cases lookup key source k <;> simp [mergeRow]

/-- **The rows of a merge of unique rows**: those of the target that stay, and those of the source that
are inserted or accepted. -/
theorem mem_mergeInto_cases (ht : UniqueOn key target) (hs : UniqueOn key source)
    {r : ρ} (h : r ∈ Relational.mergeInto key accept target source) :
    r ∈ target ∨ r ∈ source ∧ ∀ t ∈ target, key t = key r → accept r t = true := by
  have hrow := (ht.mergeInto hs).lookup_self h
  rw [lookup_mergeInto] at hrow
  cases htarget : lookup key target (key r) with
  | none =>
    rw [htarget] at hrow
    exact Or.inr ⟨mem_of_lookup hrow, fun t hmem hk => absurd hk (lookup_eq_none.mp htarget t hmem)⟩
  | some t =>
    rw [htarget] at hrow
    have hmem := mem_of_lookup htarget
    cases hsource : lookup key source (key r) with
    | none =>
      rw [hsource] at hrow
      cases hrow
      exact Or.inl hmem
    | some s =>
      rw [hsource] at hrow
      have hchoice : (if accept s t then s else t) = r := Option.some.inj hrow
      split at hchoice
      · rename_i haccept
        subst hchoice
        refine Or.inr ⟨mem_of_lookup hsource, fun t' ht' hk => ?_⟩
        rw [ht.eq_of_key ht' hmem (hk.trans (key_of_lookup htarget).symm)]
        exact haccept
      · exact Or.inl (hchoice ▸ hmem)

/-- A source row is taken unless a target row of its key stays. -/
theorem mem_mergeInto_of_taken (hs : UniqueOn key source) {s : ρ} (h : s ∈ source)
    (htaken : ∀ t ∈ target, key t = key s → accept s t = true) : s ∈ mergeInto key accept target source := by
  have hrow : lookup key (mergeInto key accept target source) (key s) = some s := by
    rw [lookup_mergeInto, hs.lookup_self h]
    cases htarget : lookup key target (key s) with
    | none => rfl
    | some t =>
      have haccept := htaken t (mem_of_lookup htarget) (key_of_lookup htarget)
      exact congrArg some (if_pos haccept)
  exact mem_of_lookup hrow

/-- An insert leaves the rows that are there. -/
theorem mem_insertNew_of_mem {r : ρ} (h : r ∈ target) : r ∈ insertNew key target source := by
  refine List.mem_append_left _ (List.mem_map.mpr ⟨r, h, ?_⟩)
  unfold resolve
  split
  · exact if_neg Bool.false_ne_true
  · rfl

end Merge

/-- `INSERT` into an empty table, `MERGE` into any other. -/
def appendOrMerge (key : ρ → κ) (accept : ρ → ρ → Bool) (target source : List ρ) : List ρ :=
  if target.isEmpty then source else mergeInto key accept target source

/-- Source rows of other keys than the target's are appended. -/
theorem mergeInto_of_apart {key : ρ → κ} {accept : ρ → ρ → Bool} {target source : List ρ}
    (h : ∀ s ∈ source, ∀ t ∈ target, key t ≠ key s) :
    mergeInto key accept target source = target ++ source := by
  have hkept : target.map (resolve key accept source) = target := by
    refine (List.map_congr_left fun t ht => ?_).trans (List.map_id target)
    rcases resolve_cases key accept source t with he | ⟨s, hs, hk, -⟩
    · exact he
    · exact absurd hk.symm (h s hs t ht)
  have hadded : source.filter (fun s => (lookup key target (key s)).isNone) = source := by
    refine List.filter_eq_self.mpr fun s hs => ?_
    rw [lookup_eq_none.mpr (h s hs)]
    rfl
  unfold mergeInto
  rw [hkept, hadded]

/-- **The append fast path writes what the merge would.** -/
theorem appendOrMerge_eq {key : ρ → κ} {accept : ρ → ρ → Bool} {target source : List ρ} :
    appendOrMerge key accept target source = mergeInto key accept target source := by
  cases target with
  | nil => simp [appendOrMerge, mergeInto]
  | cons t target => rfl

section Exists

variable {key : ρ → κ} {accept : ρ → ρ → Bool} {target source : List ρ} {k : κ}

theorem exists_key_mergeInto :
    (∃ r ∈ mergeInto key accept target source, key r = k) ↔
      (∃ r ∈ target, key r = k) ∨ ∃ r ∈ source, key r = k := by
  rw [← lookup_isSome, ← lookup_isSome, ← lookup_isSome]
  exact lookup_mergeInto_isSome

theorem exists_key_insertNew :
    (∃ r ∈ insertNew key target source, key r = k) ↔
      (∃ r ∈ target, key r = k) ∨ ∃ r ∈ source, key r = k :=
  exists_key_mergeInto

end Exists

/-! ## One row for each key -/

/-- Keep the first row of each key. -/
def dedup (key : ρ → κ) : List ρ → List ρ
  | [] => []
  | r :: rows => r :: (dedup key rows).filter (fun r' => decide (key r' ≠ key r))

section Dedup

variable {key : ρ → κ}

theorem mem_of_mem_dedup {r : ρ} : ∀ {rows : List ρ}, r ∈ dedup key rows → r ∈ rows
  | _ :: rows, h => by
    rcases List.mem_cons.mp h with rfl | h
    · exact List.mem_cons_self
    · exact List.mem_cons_of_mem _ (mem_of_mem_dedup (List.mem_of_mem_filter h))

theorem UniqueOn.dedup : ∀ rows : List ρ, UniqueOn key (dedup key rows)
  | [] => UniqueOn.nil
  | r :: rows => by
    have hone : UniqueOn key [r] := List.nodup_singleton _
    refine hone.append ((UniqueOn.dedup rows).sublist List.filter_sublist) ?_
    intro r₁ h₁ r₂ h₂
    have hr : r₁ = r := List.mem_singleton.mp h₁
    have hne := (List.mem_filter.mp h₂).2
    exact fun he => of_decide_eq_true hne (hr ▸ he.symm)

theorem exists_mem_dedup {r : ρ} : ∀ {rows : List ρ}, r ∈ rows →
    ∃ r' ∈ dedup key rows, key r' = key r
  | r₀ :: rows, h => by
    by_cases hk : key r₀ = key r
    · exact ⟨r₀, List.mem_cons_self, hk⟩
    · have hr : r ∈ rows := (List.mem_cons.mp h).resolve_left (fun e => hk (congrArg key e.symm))
      obtain ⟨r', hr', hk'⟩ := exists_mem_dedup hr
      refine ⟨r', List.mem_cons_of_mem _ (List.mem_filter.mpr ⟨hr', ?_⟩), hk'⟩
      exact decide_eq_true (fun e => hk (e.symm.trans hk'))

/-- Unique rows are kept as they are. -/
theorem UniqueOn.dedup_eq : ∀ {rows : List ρ}, UniqueOn key rows → Relational.dedup key rows = rows
  | [], _ => rfl
  | r :: rows, hu => by
    obtain ⟨hnew, hrows⟩ := List.nodup_cons.mp hu
    have hkeep : rows.filter (fun r' => decide (key r' ≠ key r)) = rows := by
      refine List.filter_eq_self.mpr fun r' hr' => decide_eq_true fun he => hnew ?_
      exact he ▸ List.mem_map_of_mem hr'
    rw [Relational.dedup, UniqueOn.dedup_eq (show UniqueOn key rows from hrows), hkeep]

/-- A further row counts only under a new key. -/
theorem dedup_concat {r : ρ} : ∀ {rows : List ρ}, dedup key (rows ++ [r]) =
    if ∃ r' ∈ rows, key r' = key r then dedup key rows else dedup key rows ++ [r]
  | [] => by simp [dedup]
  | r₀ :: rows => by
    rw [List.cons_append, dedup, dedup_concat]
    by_cases h₀ : key r₀ = key r
    · have hnone : [r].filter (fun r' => decide (key r' ≠ key r₀)) = [] := by simp [h₀]
      rw [if_pos (show ∃ r' ∈ r₀ :: rows, key r' = key r from ⟨r₀, List.mem_cons_self, h₀⟩)]
      split
      · rw [dedup]
      · rw [List.filter_append, hnone, List.append_nil, dedup]
    · have hone : [r].filter (fun r' => decide (key r' ≠ key r₀)) = [r] := by simp [Ne.symm h₀]
      by_cases h : ∃ r' ∈ rows, key r' = key r
      · rw [if_pos h, if_pos (h.imp fun _ h' => ⟨List.mem_cons_of_mem _ h'.1, h'.2⟩), dedup]
      · rw [if_neg h, if_neg (by simpa [h₀] using h), List.filter_append, hone, dedup,
          List.cons_append]

end Dedup

/-- `rows` holds one member of `S` for each key that occurs in `S`. -/
structure OnePerKey (key : ρ → κ) (S : Set ρ) (rows : List ρ) : Prop where
  unique : UniqueOn key rows
  sub : ∀ r ∈ rows, r ∈ S
  cover : ∀ e ∈ S, ∃ r ∈ rows, key r = key e

section OnePerKey

variable {key : ρ → κ} {S T : Set ρ} {rows rows' : List ρ}

omit [DecidableEq κ] in
theorem OnePerKey.nil : OnePerKey key (∅ : Set ρ) [] :=
  ⟨UniqueOn.nil, fun _ h => absurd h List.not_mem_nil, fun _ h => h.elim⟩

/-- **Insert-only merges accumulate**: the rows represent the union of what was merged. -/
theorem OnePerKey.insertNew (h : OnePerKey key S rows) (h' : OnePerKey key T rows') :
    OnePerKey key (S ∪ T) (insertNew key rows rows') where
  unique := h.unique.insertNew h'.unique
  sub r hr := (mem_mergeInto hr).imp (h.sub r) (h'.sub r)
  cover e he := exists_key_insertNew.mpr (he.imp (h.cover e) (h'.cover e))

/-- **Rows that represent two sets with the same keys agree on what the key determines.** -/
theorem OnePerKey.perm_map {f : ρ → τ} {key' : τ → κ} (h : OnePerKey key S rows)
    (h' : OnePerKey key T rows') (hf : ∀ r, key' (f r) = key r)
    (hkeys : ∀ k, (∃ e ∈ S, key e = k) ↔ ∃ e ∈ T, key e = k)
    (hdet : ∀ a ∈ S, ∀ b ∈ T, key a = key b → f a = f b) :
    (rows.map f).Perm (rows'.map f) := by
  have hsome : ∀ k, (lookup key rows k).isSome ↔ (lookup key rows' k).isSome := by
    intro k
    rw [lookup_isSome, lookup_isSome]
    constructor
    · rintro ⟨r, hr, rfl⟩
      obtain ⟨e, he, hk⟩ := (hkeys _).mp ⟨r, h.sub r hr, rfl⟩
      obtain ⟨r', hr', hk'⟩ := h'.cover e he
      exact ⟨r', hr', hk'.trans hk⟩
    · rintro ⟨r, hr, rfl⟩
      obtain ⟨e, he, hk⟩ := (hkeys _).mpr ⟨r, h'.sub r hr, rfl⟩
      obtain ⟨r', hr', hk'⟩ := h.cover e he
      exact ⟨r', hr', hk'.trans hk⟩
  refine perm_of_lookup_eq (h.unique.map_proj hf) (h'.unique.map_proj hf) fun k => ?_
  rw [lookup_map hf, lookup_map hf]
  cases ha : lookup key rows k with
  | none =>
    cases hb : lookup key rows' k with
    | none => rfl
    | some b => simpa [ha, hb] using hsome k
  | some a =>
    cases hb : lookup key rows' k with
    | none => simpa [ha, hb] using hsome k
    | some b =>
      have hk : key a = key b := (key_of_lookup ha).trans (key_of_lookup hb).symm
      rw [Option.map_some, Option.map_some,
        hdet a (h.sub a (mem_of_lookup ha)) b (h'.sub b (mem_of_lookup hb)) hk]

end OnePerKey

/-! ## Tables with a declared primary key -/

/-- Rows whose key is unique. -/
structure Table (ρ : Type u) {κ : Type v} (key : ρ → κ) where
  rows : List ρ
  unique : UniqueOn key rows

namespace Table

variable {key : ρ → κ}

def empty : Table ρ key := ⟨[], UniqueOn.nil⟩

/-- The row of key `k`. -/
def find? (t : Table ρ key) (k : κ) : Option ρ := lookup key t.rows k

/-- `INSERT .. ON CONFLICT (key) DO UPDATE` of a whole row. -/
def put (t : Table ρ key) (r : ρ) : Table ρ key :=
  ⟨mergeInto key (fun _ _ => true) t.rows [r], t.unique.mergeInto (List.nodup_singleton _)⟩

/-- `DELETE .. WHERE key = k`. -/
def erase (t : Table ρ key) (k : κ) : Table ρ key :=
  ⟨t.rows.filter (fun r => decide (key r ≠ k)), t.unique.sublist List.filter_sublist⟩

/-- `SELECT .. WHERE p`. -/
def filter (t : Table ρ key) (p : ρ → Bool) : Table ρ key :=
  ⟨t.rows.filter p, t.unique.sublist List.filter_sublist⟩

/-- `INSERT .. SELECT .. ON CONFLICT (key) DO UPDATE` of whole rows. -/
def merge (t source : Table ρ key) : Table ρ key :=
  ⟨mergeInto key (fun _ _ => true) t.rows source.rows, t.unique.mergeInto source.unique⟩

/-- `INSERT .. ON CONFLICT (key) DO NOTHING`. -/
def putNew (t : Table ρ key) (r : ρ) : Table ρ key :=
  ⟨insertNew key t.rows [r], t.unique.insertNew (List.nodup_singleton _)⟩

variable {t : Table ρ key} {r : ρ} {k : κ}

@[simp] theorem find?_empty : (empty : Table ρ key).find? k = none := rfl

theorem find?_put : (t.put r).find? k = if key r = k then some r else t.find? k := by
  unfold find? put
  rw [lookup_upsert, lookup_cons, lookup_nil]
  split <;> rfl

@[simp] theorem find?_put_self : (t.put r).find? (key r) = some r := by
  rw [find?_put, if_pos rfl]

theorem find?_filter {p : ρ → Bool} : (t.filter p).find? k = (t.find? k).filter p :=
  t.unique.lookup_filter

theorem find?_merge {source : Table ρ key} :
    (t.merge source).find? k = (source.find? k).or (t.find? k) := by
  exact lookup_upsert

theorem find?_putNew :
    (t.putNew r).find? k = (t.find? k).or (if key r = k then some r else none) := by
  unfold find? putNew
  dsimp only
  rw [lookup_insertNew, lookup_cons, lookup_nil]

theorem find?_erase {k' : κ} : (t.erase k).find? k' = if k' = k then none else t.find? k' := by
  unfold find? erase
  dsimp only
  rw [t.unique.lookup_filter]
  cases h : lookup key t.rows k' with
  | none => simp
  | some r => simp [Option.filter, key_of_lookup h]

theorem find?_eq_some : t.find? k = some r ↔ r ∈ t.rows ∧ key r = k :=
  t.unique.lookup_eq_some

theorem key_of_find? (h : t.find? k = some r) : key r = k := key_of_lookup h

/-- A new key is appended, a known one leaves the rows alone. -/
theorem rows_putNew :
    (t.putNew r).rows = if (t.find? (key r)).isSome then t.rows else t.rows ++ [r] := by
  have hid : t.rows.map (resolve key (fun _ _ => false) [r]) = t.rows := by
    refine List.map_id'' (fun a => ?_) t.rows
    unfold resolve
    cases lookup key [r] (key a) <;> rfl
  unfold putNew insertNew mergeInto find?
  simp only [hid]
  cases h : lookup key t.rows (key r) <;> simp [h]

/-- A known key leaves the table alone. -/
theorem putNew_of_isSome (h : (t.find? (key r)).isSome) : t.putNew r = t := by
  have hrows : (t.putNew r).rows = t.rows := by rw [rows_putNew, if_pos h]
  cases t
  simpa [putNew] using hrows

end Table

end Relational

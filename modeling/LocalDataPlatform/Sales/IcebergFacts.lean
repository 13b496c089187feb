import LocalDataPlatform.Sales.SalesItems

/-!
# The Iceberg table `fact_sales`

The Spark job that keeps the same grain in Iceberg.

* `updates` — the rows of `transform_sales` newer than the table.
* `SalesValid` — `validate_sales`, which fails the job before anything is written.
* `writeSales` — append to an empty table, else `MERGE`; `runJob` — the job up to its write.
* `TableValid` — `validate_table`, which fails the job after the write.

Principal results: `runJob_eq_some` (every write is a merge of rows newer than the table),
`mirrors_runJob` (a job that starts from every older row of the join ends with the whole join).
-/

set_option autoImplicit false

namespace LocalDataPlatform.Sales

open Relational

/-- `F.max("source_loaded_at") or datetime(1900, 1, 1)`. -/
def icebergHighWater (table : List IcebergRow) : Instant :=
  highWater IcebergRow.source_loaded_at beforeEveryLoad table

/-- `COUNT(DISTINCT order_item_id)`. -/
def distinctItems (rows : List IcebergRow) : Nat := (rows.map IcebergRow.order_item_id).dedup.length

/-- A measure is negative; a null amount is not. -/
def IcebergRow.invalidMeasure (r : IcebergRow) : Bool :=
  decide (r.quantity < 0) || r.sales_amount.any (fun a => decide (a < 0))

/-- `validate_sales`; the business keys cannot be null, as the source columns are not. -/
def SalesValid (rows : List IcebergRow) : Prop :=
  rows.length = distinctItems rows ∧ rows.countP IcebergRow.invalidMeasure = 0

instance (rows : List IcebergRow) : Decidable (SalesValid rows) := inferInstanceAs (Decidable (_ ∧ _))

/-- `WHEN MATCHED AND source.source_loaded_at >= target.source_loaded_at`. -/
def notOlder (source target : IcebergRow) : Bool :=
  decide (target.source_loaded_at ≤ source.source_loaded_at)

/-- `write_sales`. -/
def writeSales (table updates : List IcebergRow) : Option (List IcebergRow) :=
  if table.isEmpty then some updates
  else mergeOnce IcebergRow.order_item_id notOlder table updates

/-- The rows of `transform_sales` above the mark of the table. -/
def updates (st : Staging) (table : List IcebergRow) : List IcebergRow :=
  newerThan IcebergRow.source_loaded_at (icebergHighWater table) st.transformSales

/-- `main` up to its write: what the table holds then, if the job gets there. -/
def runJob (st : Staging) (table : List IcebergRow) : Option (List IcebergRow) :=
  let rows := updates st table
  if SalesValid rows then
    if rows.length = 0 then some table else writeSales table rows
  else none

/-- `validate_table`. -/
def TableValid (table : List IcebergRow) : Prop := table.length = distinctItems table

instance (table : List IcebergRow) : Decidable (TableValid table) := inferInstanceAs (Decidable (_ = _))

section Lemmas

variable {st : Staging} {table table' : List IcebergRow}

/-- A list is as long as its distinct members when it repeats none. -/
theorem nodup_of_length_dedup {α : Type} [DecidableEq α] {l : List α} (h : l.length = l.dedup.length) :
    l.Nodup := by
  rw [← (List.dedup_sublist l).eq_of_length h.symm]
  exact List.nodup_dedup l

theorem TableValid.unique (h : TableValid table) : UniqueOn IcebergRow.order_item_id table := by
  refine nodup_of_length_dedup ?_
  rw [List.length_map]
  exact h

/-- **Every write is a merge of rows newer than the table.** -/
theorem runJob_eq_some (h : runJob st table = some table') :
    table' = mergeInto IcebergRow.order_item_id notOlder table (updates st table) := by
  unfold runJob at h
  dsimp only at h
  split at h
  · split at h
    · rename_i hnone
      rw [List.eq_nil_of_length_eq_zero hnone, mergeInto_nil]
      exact (Option.some.inj h).symm
    · unfold writeSales at h
      split at h
      · rename_i hempty
        cases h
        rw [← appendOrMerge_eq]
        exact (if_pos hempty).symm
      · exact (mergeOnce_eq_some h).2
  · cases h

/-- A row newer than the table passes the guard of the merge. -/
theorem notOlder_of_newer {r t : IcebergRow} (ht : t ∈ table)
    (hr : icebergHighWater table < r.source_loaded_at) : notOlder r t = true := by
  have hle : t.source_loaded_at ≤ icebergHighWater table := le_highWater ht
  exact decide_eq_true (hle.trans hr.le)

theorem uniqueOn_transformSales : UniqueOn IcebergRow.order_item_id st.transformSales := by
  rw [transformSales_eq]
  exact uniqueOn_salesRows.map_proj fun _ => rfl

/-- A run whose rows are valid writes. -/
theorem exists_runJob (h : SalesValid (updates st table)) :
    ∃ table', runJob st table = some table' := by
  have hunique : UniqueOn IcebergRow.order_item_id (updates st table) :=
    uniqueOn_transformSales.sublist List.filter_sublist
  unfold runJob writeSales
  dsimp only
  rw [if_pos h, mergeOnce_of_unique hunique]
  split
  · exact ⟨_, rfl⟩
  · split <;> exact ⟨_, rfl⟩

/-- **A job that starts from every older row of the join ends with the whole join.** -/
theorem mirrors_runJob (h : runJob st table = some table')
    (hold : CarriesUpTo IcebergRow.order_item_id IcebergRow.source_loaded_at (icebergHighWater table)
      IcebergRow.order_item_id id st.transformSales table)
    (hkeys : ∀ r ∈ table, ∃ s ∈ st.transformSales, s.order_item_id = r.order_item_id) :
    Mirrors IcebergRow.order_item_id IcebergRow.order_item_id id st.transformSales table' := by
  rw [runJob_eq_some h]
  refine mirrors_merge_newer (fun _ => rfl) uniqueOn_transformSales ?_ ?_ hold hkeys ?_
  · exact fun r hr => mem_newerThan.mp hr
  · exact fun r hr hlt => ⟨r, mem_newerThan.mpr ⟨hr, hlt⟩, rfl⟩
  · exact fun r hr t ht _ => notOlder_of_newer ht (mem_newerThan.mp hr).2

theorem mem_runJob {r : IcebergRow} (h : runJob st table = some table') (hr : r ∈ table') :
    r ∈ table ∨ r ∈ st.transformSales := by
  rw [runJob_eq_some h] at hr
  exact (mem_mergeInto hr).imp_right fun hr => (mem_newerThan.mp hr).1

end Lemmas

end LocalDataPlatform.Sales

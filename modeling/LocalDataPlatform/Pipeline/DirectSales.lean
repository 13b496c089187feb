import LocalDataPlatform.Pipeline.Measures

/-!
# The sales straight from the source

What `int_sales_order_items` and the group-by of `daily_sales` would give over the source tables
themselves, to compare the incremental tables with.

* `sourceLine`, `directSales` — the join over the source.
* `viewTotals` — the measures of a date over the lines of a view.
* `SalesItem.untimed`, `IcebergRow.untimed` — a line without its load time, which the source does not have.

Principal results: `untimed_salesRows` (staging that holds the source gives its sales), `dailyTotals_eq`
(the measures over the facts are those over their lines), `viewTotals_perm`.
-/

set_option autoImplicit false

namespace LocalDataPlatform.Sales

/-- A line without its load time. -/
def SalesItem.untimed (s : SalesItem) : SalesItem := { s with source_loaded_at := beforeEveryLoad }

def IcebergRow.untimed (r : IcebergRow) : IcebergRow := { r with source_loaded_at := beforeEveryLoad }

/-- The lines of a date. -/
def linesOn (day : Instant → Int) (sales : List SalesItem) (date : Int) : List SalesItem :=
  sales.filter fun s => decide (day s.order_date = date)

/-- `group by order_date::date` over a view, the group of a date. -/
def viewTotals (day : Instant → Int) (sales : List SalesItem) (date : Int) : DailyTotals where
  total_orders := ((linesOn day sales date).map SalesItem.order_id).dedup.length
  total_items := ((linesOn day sales date).map SalesItem.quantity).sum
  total_sales := ((linesOn day sales date).map SalesItem.sales_amount).sum
  paid_sales := ((linesOn day sales date).map fun s =>
    if s.payment_status = .paid then s.sales_amount else 0).sum

section Totals

variable {day : Instant → Int} {sales sales' : List SalesItem} {date : Int}

/-- **The measures over the facts are those over their lines.** -/
theorem dailyTotals_eq (facts : List FactRow) (date : Int) :
    dailyTotals day facts date = viewTotals day (facts.map FactRow.toSalesItem) date := by
  have hlines : linesOn day (facts.map FactRow.toSalesItem) date =
      (factsOn day facts date).map FactRow.toSalesItem := by
    unfold linesOn factsOn
    rw [List.filter_map]
    rfl
  unfold dailyTotals viewTotals
  rw [hlines, List.map_map, List.map_map, List.map_map, List.map_map]
  rfl

/-- The order of the lines does not count. -/
theorem viewTotals_perm (h : sales.Perm sales') : viewTotals day sales date = viewTotals day sales' date := by
  have hlines : (linesOn day sales date).Perm (linesOn day sales' date) := h.filter _
  unfold viewTotals
  rw [(hlines.map SalesItem.order_id).dedup.length_eq, (hlines.map SalesItem.quantity).sum_eq,
    (hlines.map SalesItem.sales_amount).sum_eq, (hlines.map fun s => if s.payment_status = .paid then
      s.sales_amount else 0).sum_eq]

/-- Nor do the load times. -/
theorem viewTotals_untimed : viewTotals day (sales.map SalesItem.untimed) date = viewTotals day sales date := by
  have hlines : linesOn day (sales.map SalesItem.untimed) date =
      (linesOn day sales date).map SalesItem.untimed := by
    unfold linesOn
    rw [List.filter_map]
    rfl
  unfold viewTotals
  rw [hlines, List.map_map, List.map_map, List.map_map, List.map_map]
  rfl

end Totals

end LocalDataPlatform.Sales

namespace LocalDataPlatform.Pipeline

open Relational Sales

/-- The payment attempts of an order. -/
def sourceAttempts (tables : Source) (order_id : Uuid) : List PaymentRow :=
  (tables .payments).rows.filter fun p => decide (p.order_id = order_id)

/-- `payment_status` of an order, unpaid without an attempt. -/
def sourcePaymentStatus (attempts : List PaymentRow) : PaymentStatus :=
  if attempts.isEmpty then .unpaid
  else if attempts.all fun p => p.payment_status == "completed" then .paid
  else if attempts.any fun p => p.payment_status == "completed" then .partially_paid
  else .unpaid

/-- One line of the sales. -/
def sourceLine (tables : Source) (order : OrderRow) (item : OrderItemRow) : SalesItem where
  order_id := order.order_id
  order_item_id := item.order_item_id
  customer_id := order.customer_id
  product_id := item.product_id
  order_date := order.order_date
  order_status := order.status
  quantity := item.quantity
  unit_price := item.unit_price
  sales_amount := item.quantity * item.unit_price
  payment_status := sourcePaymentStatus (sourceAttempts tables order.order_id)
  payment_attempt_count := (sourceAttempts tables order.order_id).length
  source_loaded_at := beforeEveryLoad

/-- The sales of the source. -/
def directSales (tables : Source) : List SalesItem :=
  (tables .order_items).rows.filterMap fun item =>
    ((tables .orders).find? item.order_id).map fun order => sourceLine tables order item

section Loaded

variable {tables : Source} {st : Staging}

theorem Loaded.attempts (h : Loaded tables st) (order_id : Uuid) :
    ((st.attempts order_id).map Staged.row).Perm (sourceAttempts tables order_id) := by
  have hperm := (h .payments).filter fun p => decide (p.order_id = order_id)
  rwa [List.filter_map] at hperm

/-- A line of the join is that of the source, but for its load time. -/
theorem Loaded.untimed_salesRow (h : Loaded tables st) (order : Staged OrderRow) (item : Staged OrderItemRow) :
    (st.salesRow order item).untimed = sourceLine tables order.row item.row := by
  have hattempts := h.attempts order.row.order_id
  have hempty : (sourceAttempts tables order.row.order_id).isEmpty =
      (st.attempts order.row.order_id).isEmpty := by
    rw [← hattempts.isEmpty_eq, List.isEmpty_map]
  have hlength : (sourceAttempts tables order.row.order_id).length =
      (st.attempts order.row.order_id).length := by
    rw [← hattempts.length_eq, List.length_map]
  have hall : (sourceAttempts tables order.row.order_id).all (fun p => p.payment_status == "completed") =
      (st.attempts order.row.order_id).all Staged.completed := by
    rw [← hattempts.all_eq, List.all_map]
    rfl
  have hany : (sourceAttempts tables order.row.order_id).any (fun p => p.payment_status == "completed") =
      (st.attempts order.row.order_id).any Staged.completed := by
    rw [← hattempts.any_eq, List.any_map]
    rfl
  unfold sourceLine sourcePaymentStatus
  rw [hempty, hlength, hall, hany]
  unfold Staging.salesRow Staging.intPaymentsByOrder SalesItem.untimed
  dsimp only
  by_cases he : (st.attempts order.row.order_id).isEmpty = true
  · have hnone : (st.attempts order.row.order_id).length = 0 :=
      List.length_eq_zero_iff.mpr (List.isEmpty_iff.mp he)
    rw [if_pos he, if_pos he, hnone]
    rfl
  · rw [if_neg he, if_neg he]
    rfl

/-- **Staging that holds the source gives its sales.** -/
theorem untimed_salesRows (h : Loaded tables st) :
    (st.salesRows.map SalesItem.untimed).Perm (directSales tables) := by
  have hrows : st.salesRows.map SalesItem.untimed = (st.order_items.rows.map Staged.row).filterMap fun item =>
      ((tables .orders).find? item.order_id).map fun order => sourceLine tables order item := by
    unfold Staging.salesRows Staging.orderedItems
    rw [List.map_map, List.map_filterMap, List.filterMap_map]
    refine List.filterMap_congr fun item _ => ?_
    rw [Function.comp_apply, ← h.find? .orders item.row.order_id, Option.map_map, Option.map_map]
    exact congrArg (fun f => Option.map f _) (funext fun order => h.untimed_salesRow order item)
  rw [hrows]
  exact (h .order_items).filterMap _

end Loaded

end LocalDataPlatform.Pipeline

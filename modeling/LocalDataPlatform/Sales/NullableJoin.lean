import LocalDataPlatform.Relational.Joins
import LocalDataPlatform.Sales.SalesItems

/-!
# The join over the columns as staging declares them

Staging declares every column but the primary keys nullable.  Here the dbt view and the Spark job
are written over nullable columns, statement by statement.

* `OrderRow`, `OrderItemRow`, `PaymentRow`, `Staging` — the tables of
  `002_staging_analytics_schema.sql`.
* `intPaymentsByOrder`, `intSalesOrderItems` — the dbt views.
* `paymentMetrics`, `transformSales` — the Spark job.
* `Sales.Staging.nullable` — staging without NULL, as the extracts fill it.

Principal results: `transformSales_eq_salesRows` (both pipelines derive one join),
`transformSales_agrees`, `mem_salesRows`, `nullable_salesRows` (the join of staging without NULL is the
join of `SalesItems`).
-/

set_option autoImplicit false

namespace LocalDataPlatform.Sales.Nullable

open Relational

/-- `staging.orders`. -/
structure OrderRow where
  order_id : Uuid
  customer_id : Option Uuid
  order_date : Option Instant
  status : Option String
  total_amount : Option Cents
  created_at : Option Instant
  updated_at : Option Instant
  loaded_at : Option Instant
  deriving DecidableEq, Repr

/-- `staging.order_items`. -/
structure OrderItemRow where
  order_item_id : Uuid
  order_id : Option Uuid
  product_id : Option Uuid
  quantity : Option Int
  unit_price : Option Cents
  created_at : Option Instant
  updated_at : Option Instant
  loaded_at : Option Instant
  deriving DecidableEq, Repr

/-- `staging.payments`. -/
structure PaymentRow where
  payment_id : Uuid
  order_id : Option Uuid
  amount : Option Cents
  payment_method : Option String
  payment_status : Option String
  paid_at : Option Instant
  created_at : Option Instant
  updated_at : Option Instant
  loaded_at : Option Instant
  deriving DecidableEq, Repr

/-- The tables the sales models read. -/
structure Staging where
  orders : Table OrderRow OrderRow.order_id
  order_items : Table OrderItemRow OrderItemRow.order_item_id
  payments : Table PaymentRow PaymentRow.payment_id

/-- A row of `int_sales_order_items`. -/
structure SalesItem where
  order_id : Uuid
  order_item_id : Uuid
  customer_id : Option Uuid
  product_id : Option Uuid
  order_date : Option Instant
  order_status : Option String
  quantity : Option Int
  unit_price : Option Cents
  sales_amount : Option Cents
  payment_status : PaymentStatus
  payment_attempt_count : Nat
  source_loaded_at : Option Instant
  deriving DecidableEq, Repr

/-- `payment_status = 'completed'`. -/
def PaymentRow.completed (p : PaymentRow) : Tri := sqlEq p.payment_status (some "completed")

/-- A product with NULL is NULL. -/
def product (quantity : Option Int) (unit_price : Option Cents) : Option Cents :=
  quantity.bind fun q => unit_price.map fun u => q * u

/-! ## The dbt views -/

/-- A row of `int_payments_by_order`, without its key. -/
structure PaymentsByOrder where
  payment_attempt_count : Nat
  source_loaded_at : Option Instant
  payment_status : PaymentStatus
  deriving DecidableEq, Repr

/-- The select list of `int_payments_by_order`. -/
def paymentsByOrder (group : List PaymentRow) : PaymentsByOrder where
  payment_attempt_count := group.length
  source_loaded_at := sqlMax (group.map PaymentRow.loaded_at)
  payment_status :=
    if boolAnd (group.map PaymentRow.completed) = some true then .paid
    else if boolOr (group.map PaymentRow.completed) = some true then .partially_paid
    else .unpaid

namespace Staging

variable (st : Staging)

/-- `int_payments_by_order`. -/
def intPaymentsByOrder : List (Option Uuid × PaymentsByOrder) :=
  (groupBy PaymentRow.order_id st.payments.rows).map fun g => (g.1, paymentsByOrder g.2)

/-- `orders inner join order_items`. -/
def orderedItems : List (OrderRow × OrderItemRow) :=
  innerJoin (fun o : OrderRow => some o.order_id) OrderItemRow.order_id st.orders.rows st.order_items.rows

/-- The select list of `int_sales_order_items`, before `sales_amount` is cast. -/
def salesRow (order : OrderRow) (item : OrderItemRow) (payments : Option PaymentsByOrder) : SalesItem where
  order_id := order.order_id
  order_item_id := item.order_item_id
  customer_id := order.customer_id
  product_id := item.product_id
  order_date := order.order_date
  order_status := order.status
  quantity := item.quantity
  unit_price := item.unit_price
  sales_amount := product item.quantity item.unit_price
  payment_status := (payments.map PaymentsByOrder.payment_status).getD .unpaid
  payment_attempt_count := (payments.map PaymentsByOrder.payment_attempt_count).getD 0
  source_loaded_at := sqlMax [order.loaded_at, item.loaded_at,
    some ((payments.bind PaymentsByOrder.source_loaded_at).getD beforeEveryLoad)]

/-- The rows of the join. -/
def salesRows : List SalesItem :=
  (leftJoin (fun pair : OrderRow × OrderItemRow => some pair.1.order_id) Prod.fst st.orderedItems
      st.intPaymentsByOrder).map
    fun row => salesRow row.1.1 row.1.2 (row.2.map Prod.snd)

/-- `int_sales_order_items`; the cast to `numeric(14, 2)` raises when an amount does not fit. -/
def intSalesOrderItems : Option (List SalesItem) :=
  if ∀ s ∈ st.salesRows, ∀ a ∈ s.sales_amount, FitsNumeric 14 a then some st.salesRows else none

end Staging

/-! ## The Spark job -/

/-- A row of `payment_metrics`, without its key. -/
structure PaymentMetrics where
  payment_attempt_count : Nat
  completed_payment_count : Nat
  payment_loaded_at : Option Instant
  deriving DecidableEq, Repr

/-- `.agg(..)`; `payment_id` is never null, so `count` counts the group. -/
def paymentMetricsOf (group : List PaymentRow) : PaymentMetrics where
  payment_attempt_count := group.length
  completed_payment_count := (group.map fun p => if p.completed = some true then 1 else 0).sum
  payment_loaded_at := sqlMax (group.map PaymentRow.loaded_at)

/-- `payment_metrics.withColumn("payment_status", ..)`. -/
def PaymentMetrics.payment_status (m : PaymentMetrics) : PaymentStatus :=
  if m.completed_payment_count = m.payment_attempt_count then .paid
  else if 0 < m.completed_payment_count then .partially_paid
  else .unpaid

/-- A row of `transform_sales`. -/
structure IcebergRow where
  order_item_id : Uuid
  order_id : Uuid
  customer_id : Option Uuid
  product_id : Option Uuid
  order_date : Option Instant
  sales_date : Option Int
  order_status : Option String
  quantity : Option Int
  unit_price : Option Cents
  sales_amount : Option Cents
  payment_status : PaymentStatus
  payment_attempt_count : Nat
  source_loaded_at : Option Instant
  deriving DecidableEq, Repr

/-- The columns that the dbt view has too. -/
def IcebergRow.shared (r : IcebergRow) : SalesItem where
  order_id := r.order_id
  order_item_id := r.order_item_id
  customer_id := r.customer_id
  product_id := r.product_id
  order_date := r.order_date
  order_status := r.order_status
  quantity := r.quantity
  unit_price := r.unit_price
  sales_amount := r.sales_amount
  payment_status := r.payment_status
  payment_attempt_count := r.payment_attempt_count
  source_loaded_at := r.source_loaded_at

/-- `.cast("decimal(14,2)")`: null when the amount does not fit. -/
def castDecimal (amount : Option Cents) : Option Cents := amount.filter fun a => decide (FitsNumeric 14 a)

namespace Staging

variable (st : Staging)

/-- `payments.groupBy("order_id").agg(..)`. -/
def paymentMetrics : List (Option Uuid × PaymentMetrics) :=
  (groupBy PaymentRow.order_id st.payments.rows).map fun g => (g.1, paymentMetricsOf g.2)

/-- The select list of `transform_sales`. -/
def sparkRow (order : OrderRow) (item : OrderItemRow) (payments : Option PaymentMetrics) : IcebergRow where
  order_item_id := item.order_item_id
  order_id := order.order_id
  customer_id := order.customer_id
  product_id := item.product_id
  order_date := order.order_date
  sales_date := order.order_date.map toDate
  order_status := order.status
  quantity := item.quantity
  unit_price := item.unit_price
  sales_amount := castDecimal (product item.quantity item.unit_price)
  payment_status := (payments.map PaymentMetrics.payment_status).getD .unpaid
  payment_attempt_count := (payments.map PaymentMetrics.payment_attempt_count).getD 0
  source_loaded_at := sqlMax [order.loaded_at, item.loaded_at,
    some ((payments.bind PaymentMetrics.payment_loaded_at).getD beforeEveryLoad)]

/-- `transform_sales`. -/
def transformSales : List IcebergRow :=
  (leftJoin (fun pair : OrderRow × OrderItemRow => some pair.1.order_id) Prod.fst
      (innerJoin (fun o : OrderRow => some o.order_id) OrderItemRow.order_id st.orders.rows
        st.order_items.rows)
      st.paymentMetrics).map
    fun row => sparkRow row.1.1 row.1.2 (row.2.map Prod.snd)

end Staging

/-! ## Agreement -/

section Agreement

variable {st : Staging}

/-- The attempts of an order, if there are any. -/
def Staging.attempts (st : Staging) (order_id : Uuid) : Option (List PaymentRow) :=
  groupOf PaymentRow.order_id st.payments.rows order_id

/-- **The join keeps one row for each item whose order exists**, whatever the payments. -/
theorem salesRows_eq (st : Staging) : st.salesRows = st.orderedItems.map fun pair =>
    Staging.salesRow pair.1 pair.2 ((st.attempts pair.1.order_id).map paymentsByOrder) := by
  unfold Staging.salesRows Staging.intPaymentsByOrder Staging.attempts
  rw [leftJoin_groupBy, List.map_map]
  refine List.map_congr_left fun pair _ => ?_
  simp only [Function.comp_apply, Option.map_map, Function.comp_def]

theorem transformSales_eq (st : Staging) : st.transformSales = st.orderedItems.map fun pair =>
    Staging.sparkRow pair.1 pair.2 ((st.attempts pair.1.order_id).map paymentMetricsOf) := by
  unfold Staging.transformSales Staging.paymentMetrics Staging.attempts
  rw [leftJoin_groupBy, List.map_map]
  refine List.map_congr_left fun pair _ => ?_
  simp only [Function.comp_apply, Option.map_map, Function.comp_def]

/-- **Counting completed attempts and folding them agree** when no status is NULL. -/
theorem payment_status_eq {group : List PaymentRow} (hne : group ≠ [])
    (hstatus : ∀ p ∈ group, p.payment_status.isSome) :
    (paymentMetricsOf group).payment_status = (paymentsByOrder group).payment_status := by
  have hknown : ∀ p ∈ group, p.completed ≠ none := by
    intro p hp hnone
    rw [PaymentRow.completed, sqlEq_some_eq_none] at hnone
    have hsome := hstatus p hp
    rw [hnone] at hsome
    cases hsome
  have hsum : (group.map fun p => if p.completed = some true then 1 else 0).sum =
      group.countP fun p => decide (p.completed = some true) := by
    rw [← sum_indicator]
    simp only [decide_eq_true_eq]
  have hall : (group.countP fun p => decide (p.completed = some true)) = group.length ↔
      boolAnd (group.map PaymentRow.completed) = some true := by
    rw [List.countP_eq_length, boolAnd_eq_true]
    constructor
    · intro h
      obtain ⟨p, hp⟩ := List.exists_mem_of_ne_nil group hne
      refine ⟨⟨true, List.mem_map.mpr ⟨p, hp, of_decide_eq_true (h p hp)⟩⟩, fun hf => ?_⟩
      obtain ⟨q, hq, he⟩ := List.mem_map.mp hf
      have hq' := of_decide_eq_true (h q hq)
      rw [he] at hq'
      cases hq'
    · rintro ⟨-, hf⟩ p hp
      rw [decide_eq_true_eq]
      rcases hc : p.completed with _ | _ | _
      · exact absurd hc (hknown p hp)
      · exact absurd (List.mem_map.mpr ⟨p, hp, hc⟩) hf
      · rfl
  have hany : 0 < (group.countP fun p => decide (p.completed = some true)) ↔
      boolOr (group.map PaymentRow.completed) = some true := by
    rw [List.countP_pos_iff, boolOr_eq_true, List.mem_map]
    simp only [decide_eq_true_eq]
  unfold PaymentMetrics.payment_status paymentMetricsOf paymentsByOrder
  simp only [hsum, hall, hany]

theorem mem_attempts {group : List PaymentRow} {order_id : Uuid} (h : st.attempts order_id = some group) :
    group ≠ [] ∧ ∀ p, p ∈ group ↔ p ∈ st.payments.rows ∧ p.order_id = some order_id := by
  unfold Staging.attempts groupOf at h
  dsimp only at h
  split at h
  · cases h
  · rename_i hne
    cases h
    refine ⟨fun he => hne (List.isEmpty_iff.mpr he), fun p => ?_⟩
    rw [List.mem_filter, decide_eq_true_eq]

/-- Both select lists give one row where the amount fits. -/
theorem sparkRow_shared {order : OrderRow} {item : OrderItemRow}
    (hstatus : ∀ p ∈ st.payments.rows, p.payment_status.isSome)
    (hfits : ∀ a ∈ product item.quantity item.unit_price, FitsNumeric 14 a) :
    (Staging.sparkRow order item ((st.attempts order.order_id).map paymentMetricsOf)).shared =
      Staging.salesRow order item ((st.attempts order.order_id).map paymentsByOrder) := by
  have hamount : castDecimal (product item.quantity item.unit_price) = product item.quantity item.unit_price := by
    unfold castDecimal
    cases hp : product item.quantity item.unit_price with
    | none => rfl
    | some a => rw [Option.filter_some, if_pos (decide_eq_true (hfits a hp))]
  unfold Staging.sparkRow Staging.salesRow IcebergRow.shared
  cases hgroup : st.attempts order.order_id with
  | none => simp only [hamount, Option.map_none, Option.bind_none]
  | some group =>
    obtain ⟨hne, hmem⟩ := mem_attempts hgroup
    have hpaid := payment_status_eq hne fun p hp => hstatus p ((hmem p).mp hp).1
    simp only [hamount, Option.map_some, Option.bind_some, Option.getD_some, hpaid]
    rfl

/-- The pairs of the join. -/
theorem mem_orderedItems {order : OrderRow} {item : OrderItemRow} :
    (order, item) ∈ st.orderedItems ↔
      order ∈ st.orders.rows ∧ item ∈ st.order_items.rows ∧ item.order_id = some order.order_id := by
  unfold Staging.orderedItems
  rw [mem_innerJoin]
  constructor
  · rintro ⟨ho, hi, k, hk, hk'⟩
    exact ⟨ho, hi, hk'.trans hk.symm⟩
  · rintro ⟨ho, hi, he⟩
    exact ⟨ho, hi, order.order_id, rfl, he⟩

theorem uniqueOn_orderedItems (st : Staging) :
    UniqueOn (fun pair : OrderRow × OrderItemRow => pair.2.order_item_id) st.orderedItems := by
  refine UniqueOn.innerJoin st.orders.unique.nodup (fun o ho o' ho' he => ?_) st.order_items.unique
  exact st.orders.unique.eq_of_key ho ho' (Option.some.inj he)

/-- **The join keeps the order-item grain.** -/
theorem uniqueOn_salesRows (st : Staging) : UniqueOn SalesItem.order_item_id st.salesRows := by
  rw [salesRows_eq]
  exact (uniqueOn_orderedItems st).map_proj fun _ => rfl

theorem mem_salesRows {s : SalesItem} : s ∈ st.salesRows ↔
    ∃ order item, (order, item) ∈ st.orderedItems ∧
      s = Staging.salesRow order item ((st.attempts order.order_id).map paymentsByOrder) := by
  rw [salesRows_eq, List.mem_map]
  constructor
  · rintro ⟨⟨order, item⟩, hpair, rfl⟩
    exact ⟨order, item, hpair, rfl⟩
  · rintro ⟨order, item, hpair, rfl⟩
    exact ⟨(order, item), hpair, rfl⟩

/-- An item has a row when its order exists. -/
theorem exists_salesRow_iff {id : Uuid} : (∃ s ∈ st.salesRows, s.order_item_id = id) ↔
    ∃ item ∈ st.order_items.rows, item.order_item_id = id ∧
      ∃ order ∈ st.orders.rows, item.order_id = some order.order_id := by
  constructor
  · rintro ⟨s, hs, rfl⟩
    obtain ⟨order, item, hpair, rfl⟩ := mem_salesRows.mp hs
    obtain ⟨ho, hi, he⟩ := mem_orderedItems.mp hpair
    exact ⟨item, hi, rfl, order, ho, he⟩
  · rintro ⟨item, hi, rfl, order, ho, he⟩
    exact ⟨_, mem_salesRows.mpr ⟨order, item, mem_orderedItems.mpr ⟨ho, hi, he⟩, rfl⟩, rfl⟩

/-- **The Spark job and the dbt view contain the same rows**, one for each order item whose order
exists, as long as no payment status is NULL and the amounts fit. -/
theorem transformSales_agrees (st : Staging)
    (hstatus : ∀ p ∈ st.payments.rows, p.payment_status.isSome)
    (hfits : ∀ item ∈ st.order_items.rows, ∀ a ∈ product item.quantity item.unit_price,
      FitsNumeric 14 a) :
    ∃ view, st.intSalesOrderItems = some view ∧ (st.transformSales.map IcebergRow.shared).Perm view ∧
      UniqueOn SalesItem.order_item_id view ∧
      ∀ id, (∃ s ∈ view, s.order_item_id = id) ↔ ∃ item ∈ st.order_items.rows, item.order_item_id = id ∧
        ∃ order ∈ st.orders.rows, item.order_id = some order.order_id := by
  have hview : st.intSalesOrderItems = some st.salesRows := by
    refine if_pos fun s hs a ha => ?_
    obtain ⟨order, item, hpair, rfl⟩ := mem_salesRows.mp hs
    exact hfits item (mem_orderedItems.mp hpair).2.1 a ha
  have hrows : st.transformSales.map IcebergRow.shared = st.salesRows := by
    rw [transformSales_eq, salesRows_eq, List.map_map]
    refine List.map_congr_left fun pair hpair => ?_
    exact sparkRow_shared hstatus (hfits pair.2 (mem_orderedItems.mp hpair).2.1)
  exact ⟨st.salesRows, hview, hrows ▸ List.Perm.refl _, uniqueOn_salesRows st, fun _ => exists_salesRow_iff⟩

/-- Order 1 with a completed and a failed attempt, and an item without order. -/
def sampleStaging : Staging where
  orders := Table.empty.put ⟨1, some 7, some 10, some "pending", some 2000, none, none, some 30⟩
  order_items := (Table.empty.put ⟨1, some 1, some 5, some 2, some 1000, none, none, some 10⟩).put
    ⟨2, none, some 5, none, some 1000, none, none, none⟩
  payments := ((Table.empty.put ⟨1, some 1, some 500, some "cash", some "completed", none, none, none,
    some 20⟩).put ⟨2, some 1, some 500, some "cash", some "failed", none, none, none, none⟩)

theorem transformSales_agrees_sample : ∃ view, sampleStaging.intSalesOrderItems = some view ∧
    (sampleStaging.transformSales.map IcebergRow.shared).Perm view ∧ view.length = 1 := by
  obtain ⟨view, hview, hperm, -, -⟩ :=
    transformSales_agrees sampleStaging (by decide) (by decide)
  refine ⟨view, hview, hperm, ?_⟩
  rw [← hperm.length_eq]
  decide

end Agreement

/-! ## Staging without NULL -/

section NotNull

/-- The row as the extract fills it. -/
def ofOrder (r : Staged Sales.OrderRow) : OrderRow where
  order_id := r.row.order_id
  customer_id := r.row.customer_id
  order_date := r.row.order_date
  status := r.row.status
  total_amount := r.row.total_amount
  created_at := r.row.created_at
  updated_at := r.row.updated_at
  loaded_at := r.loaded_at

def ofOrderItem (r : Staged Sales.OrderItemRow) : OrderItemRow where
  order_item_id := r.row.order_item_id
  order_id := r.row.order_id
  product_id := r.row.product_id
  quantity := r.row.quantity
  unit_price := r.row.unit_price
  created_at := r.row.created_at
  updated_at := r.row.updated_at
  loaded_at := r.loaded_at

def ofPayment (r : Staged Sales.PaymentRow) : PaymentRow where
  payment_id := r.row.payment_id
  order_id := r.row.order_id
  amount := r.row.amount
  payment_method := r.row.payment_method
  payment_status := r.row.payment_status
  paid_at := r.row.paid_at
  created_at := r.row.created_at
  updated_at := r.row.updated_at
  loaded_at := r.loaded_at

/-- Staging without NULL. -/
def ofStaging (st : Sales.Staging) : Staging where
  orders := ⟨st.orders.rows.map ofOrder, st.orders.unique.map_proj fun _ => rfl⟩
  order_items := ⟨st.order_items.rows.map ofOrderItem, st.order_items.unique.map_proj fun _ => rfl⟩
  payments := ⟨st.payments.rows.map ofPayment, st.payments.unique.map_proj fun _ => rfl⟩

def ofSalesItem (s : Sales.SalesItem) : SalesItem where
  order_id := s.order_id
  order_item_id := s.order_item_id
  customer_id := s.customer_id
  product_id := s.product_id
  order_date := s.order_date
  order_status := s.order_status
  quantity := s.quantity
  unit_price := s.unit_price
  sales_amount := s.sales_amount
  payment_status := s.payment_status
  payment_attempt_count := s.payment_attempt_count
  source_loaded_at := s.source_loaded_at

variable {st : Sales.Staging} {order_id : Uuid}

theorem attempts_ofStaging : (ofStaging st).attempts order_id =
    if (st.attempts order_id).isEmpty then none else some ((st.attempts order_id).map ofPayment) := by
  have hgroup : (ofStaging st).payments.rows.filter (fun p => decide (p.order_id = some order_id)) =
      (st.attempts order_id).map ofPayment := by
    unfold Sales.Staging.attempts
    change (st.payments.rows.map ofPayment).filter _ = _
    rw [List.filter_map]
    congr 1
    refine List.filter_congr fun p _ => ?_
    simp only [Function.comp_apply, ofPayment, Option.some.injEq]
  unfold Staging.attempts groupOf
  dsimp only
  rw [hgroup]
  cases st.attempts order_id <;> rfl

/-- The maximum of load times that are not NULL is a high-water mark. -/
theorem sqlMax_ofPayment {rows : List (Staged Sales.PaymentRow)} (h : rows ≠ []) :
    sqlMax ((rows.map ofPayment).map PaymentRow.loaded_at) =
      some (highWater Staged.loaded_at beforeEveryLoad rows) := by
  have hreached : ∃ r ∈ rows, r.loaded_at = highWater Staged.loaded_at beforeEveryLoad rows :=
    exists_highWater h
  obtain ⟨r, hr, he⟩ := hreached
  refine sqlMax_eq_some.mpr ⟨?_, fun x hx => ?_⟩
  · exact List.mem_map.mpr ⟨ofPayment r, List.mem_map_of_mem hr, congrArg some he⟩
  · rw [List.map_map] at hx
    obtain ⟨q, hq, hqx⟩ := List.mem_map.mp hx
    cases hqx
    exact le_highWater hq

/-- **The payments of an order, over columns without NULL.** -/
theorem paymentsByOrder_ofStaging :
    ((ofStaging st).attempts order_id).map paymentsByOrder =
      (st.intPaymentsByOrder order_id).map fun p =>
        ⟨p.payment_attempt_count, some p.source_loaded_at, p.payment_status⟩ := by
  have hcompleted : ∀ p : Staged Sales.PaymentRow, (ofPayment p).completed = some p.completed := by
    intro p
    unfold PaymentRow.completed ofPayment Staged.completed sqlEq
    rfl
  rw [attempts_ofStaging]
  unfold Sales.Staging.intPaymentsByOrder
  dsimp only
  by_cases hempty : (st.attempts order_id).isEmpty
  · rw [if_pos hempty, if_pos hempty]
    rfl
  · rw [if_neg hempty, if_neg hempty]
    have hne : st.attempts order_id ≠ [] := fun he => hempty (List.isEmpty_iff.mpr he)
    have hall : boolAnd (((st.attempts order_id).map ofPayment).map PaymentRow.completed) = some true ↔
        (st.attempts order_id).all Staged.completed = true := by
      simp only [List.map_map, boolAnd_eq_true, List.mem_map, Function.comp_apply, hcompleted,
        Option.some.injEq, List.all_eq_true]
      obtain ⟨p, hp⟩ := List.exists_mem_of_ne_nil _ hne
      constructor
      · rintro ⟨-, hf⟩ q hq
        cases hc : q.completed with
        | true => rfl
        | false => exact absurd ⟨q, hq, hc⟩ hf
      · exact fun h => ⟨⟨_, p, hp, rfl⟩, fun ⟨q, hq, hc⟩ => Bool.false_ne_true (hc.symm.trans (h q hq))⟩
    have hany : boolOr (((st.attempts order_id).map ofPayment).map PaymentRow.completed) = some true ↔
        (st.attempts order_id).any Staged.completed = true := by
      simp only [List.map_map, boolOr_eq_true, List.mem_map, Function.comp_apply, hcompleted,
        Option.some.injEq, List.any_eq_true]
    unfold paymentsByOrder
    simp only [Option.map_some, List.length_map, sqlMax_ofPayment hne, hall, hany]

theorem salesRow_ofStaging (order : Staged Sales.OrderRow) (item : Staged Sales.OrderItemRow) :
    Staging.salesRow (ofOrder order) (ofOrderItem item)
        (((ofStaging st).attempts order.row.order_id).map paymentsByOrder) =
      ofSalesItem (st.salesRow order item) := by
  have hmax : ∀ a b c : Instant, sqlMax [some a, some b, some c] = some (max (max a b) c) := by
    intro a b c
    refine sqlMax_eq_some.mpr ⟨?_, fun x hx => ?_⟩
    · rcases max_choice (max a b) c with h | h
      · rcases max_choice a b with h' | h' <;> rw [h, h'] <;> simp
      · rw [h]
        simp
    · simp only [List.mem_cons, Option.some.injEq, List.not_mem_nil, or_false] at hx
      rcases hx with rfl | rfl | rfl <;> simp
  rw [paymentsByOrder_ofStaging]
  unfold Staging.salesRow ofSalesItem Sales.Staging.salesRow
  cases st.intPaymentsByOrder order.row.order_id <;> simp [ofOrder, ofOrderItem, product, hmax]

/-- **The join of staging without NULL is the join of its non-null columns.** -/
theorem nullable_salesRows (st : Sales.Staging) :
    (ofStaging st).salesRows.Perm (st.salesRows.map ofSalesItem) := by
  have hunique : UniqueOn SalesItem.order_item_id (st.salesRows.map ofSalesItem) :=
    (@Sales.uniqueOn_salesRows st).map_proj fun _ => rfl
  refine (List.perm_ext_iff_of_nodup (uniqueOn_salesRows _).nodup hunique.nodup).mpr fun s => ?_
  rw [mem_salesRows, List.mem_map]
  constructor
  · rintro ⟨order, item, hpair, rfl⟩
    obtain ⟨ho, hi, he⟩ := mem_orderedItems.mp hpair
    obtain ⟨o, horow, rfl⟩ := List.mem_map.mp ho
    obtain ⟨i, hirow, rfl⟩ := List.mem_map.mp hi
    have hfind : st.orders.find? i.row.order_id = some o :=
      Table.find?_eq_some.mpr ⟨horow, (Option.some.inj he).symm⟩
    exact ⟨_, Sales.mem_salesRows.mpr ⟨i, hirow, o, hfind, rfl⟩, (salesRow_ofStaging o i).symm⟩
  · rintro ⟨s, hs, rfl⟩
    obtain ⟨i, hi, o, hfind, rfl⟩ := Sales.mem_salesRows.mp hs
    obtain ⟨ho, hid⟩ := Table.find?_eq_some.mp hfind
    refine ⟨ofOrder o, ofOrderItem i, mem_orderedItems.mpr ⟨?_, ?_, ?_⟩, (salesRow_ofStaging o i).symm⟩
    · exact List.mem_map_of_mem ho
    · exact List.mem_map_of_mem hi
    · exact congrArg some hid.symm

end NotNull

end LocalDataPlatform.Sales.Nullable

import LocalDataPlatform.Basics
import LocalDataPlatform.Relational.Incremental
import Mathlib

/-!
# The order/item/payment join

The staging relations that the sales facts read, and the join both sinks derive from them.

* `Staged` — a staging row: the source columns and the load time.
* `intPaymentsByOrder`, `intSalesOrderItems` — the dbt views `int_payments_by_order` and
  `int_sales_order_items`.
* `paymentMetrics`, `transformSales` — the same join as the Spark job computes it.

Principal results: `transformSales_eq` (both joins agree on every column), `uniqueOn_salesRows` (the join keeps the order-item grain), `mem_salesRows_of_olderKept` (a load
leaves the join rows that stay older than it).
-/

set_option autoImplicit false

namespace LocalDataPlatform.Sales

open Relational

/-- `staging.products`, as extracted from `public.products`. -/
structure ProductRow where
  product_id : Uuid
  name : String
  category : String
  price : Cents
  created_at : Instant
  updated_at : Instant
  deriving DecidableEq, Repr

/-- `staging.orders`. -/
structure OrderRow where
  order_id : Uuid
  customer_id : Uuid
  order_date : Instant
  status : String
  total_amount : Cents
  created_at : Instant
  updated_at : Instant
  deriving DecidableEq, Repr

/-- `staging.order_items`. -/
structure OrderItemRow where
  order_item_id : Uuid
  order_id : Uuid
  product_id : Uuid
  quantity : Int
  unit_price : Cents
  created_at : Instant
  updated_at : Instant
  deriving DecidableEq, Repr

/-- `staging.payments`; the source column `status` is renamed `payment_status`. -/
structure PaymentRow where
  payment_id : Uuid
  order_id : Uuid
  amount : Cents
  payment_method : String
  payment_status : String
  paid_at : Option Instant
  created_at : Instant
  updated_at : Instant
  deriving DecidableEq, Repr

/-- A row with its `loaded_at`. -/
structure Staged (ρ : Type) where
  row : ρ
  loaded_at : Instant
  deriving DecidableEq, Repr

/-- A staging relation under its primary key. -/
abbrev StagingTable {ρ : Type} (key : ρ → Uuid) := Table (Staged ρ) (fun s => key s.row)

/-- The payment state of an order. -/
inductive PaymentStatus where
  | paid
  | partially_paid
  | unpaid
  deriving DecidableEq, Repr

/-- The columns the sales facts take from the join. -/
structure SalesItem where
  order_id : Uuid
  order_item_id : Uuid
  customer_id : Uuid
  product_id : Uuid
  order_date : Instant
  order_status : String
  quantity : Int
  unit_price : Cents
  sales_amount : Cents
  payment_status : PaymentStatus
  payment_attempt_count : Nat
  source_loaded_at : Instant
  deriving DecidableEq, Repr

/-- A value fits `numeric(precision, 2)`. -/
def FitsNumeric (precision : Nat) (amount : Cents) : Prop := amount.natAbs < 10 ^ precision

instance (precision : Nat) (amount : Cents) : Decidable (FitsNumeric precision amount) :=
  inferInstanceAs (Decidable (_ < _))

/-- The staging relations this DAG loads. -/
structure Staging where
  products : StagingTable ProductRow.product_id
  orders : StagingTable OrderRow.order_id
  order_items : StagingTable OrderItemRow.order_item_id
  payments : StagingTable PaymentRow.payment_id

/-! ## The dbt views -/

/-- A payment attempt went through. -/
def Staged.completed (p : Staged PaymentRow) : Bool := p.row.payment_status == "completed"

/-- A row of `int_payments_by_order`, without its key. -/
structure PaymentsByOrder where
  payment_attempt_count : Nat
  source_loaded_at : Instant
  payment_status : PaymentStatus
  deriving DecidableEq, Repr

namespace Staging

variable (st : Staging)

/-- The payment attempts of an order. -/
def attempts (order_id : Uuid) : List (Staged PaymentRow) :=
  st.payments.rows.filter (fun p => decide (p.row.order_id = order_id))

/-- The row of `int_payments_by_order` for an order. -/
def intPaymentsByOrder (order_id : Uuid) : Option PaymentsByOrder :=
  let group := st.attempts order_id
  if group.isEmpty then none
  else some {
    payment_attempt_count := group.length
    source_loaded_at := highWater Staged.loaded_at beforeEveryLoad group
    payment_status :=
      if group.all Staged.completed then .paid
      else if group.any Staged.completed then .partially_paid
      else .unpaid }

/-- `orders inner join order_items`; `order_id` is the primary key of `orders`. -/
def orderedItems : List (Staged OrderRow × Staged OrderItemRow) :=
  st.order_items.rows.filterMap fun item =>
    (st.orders.find? item.row.order_id).map fun order => (order, item)

/-- One row of the select list of `int_sales_order_items`, before `sales_amount` is cast. -/
def salesRow (order : Staged OrderRow) (item : Staged OrderItemRow) : SalesItem :=
  let payments := st.intPaymentsByOrder order.row.order_id
  { order_id := order.row.order_id
    order_item_id := item.row.order_item_id
    customer_id := order.row.customer_id
    product_id := item.row.product_id
    order_date := order.row.order_date
    order_status := order.row.status
    quantity := item.row.quantity
    unit_price := item.row.unit_price
    sales_amount := item.row.quantity * item.row.unit_price
    payment_status := (payments.map PaymentsByOrder.payment_status).getD .unpaid
    payment_attempt_count := (payments.map PaymentsByOrder.payment_attempt_count).getD 0
    source_loaded_at := max (max order.loaded_at item.loaded_at)
      ((payments.map PaymentsByOrder.source_loaded_at).getD beforeEveryLoad) }

/-- The rows of the join. -/
def salesRows : List SalesItem :=
  st.orderedItems.map fun pair => st.salesRow pair.1 pair.2

/-- `int_sales_order_items`; the cast to `numeric(14, 2)` raises when an amount does not fit. -/
def intSalesOrderItems : Option (List SalesItem) :=
  if ∀ s ∈ st.salesRows, FitsNumeric 14 s.sales_amount then some st.salesRows else none

end Staging

/-! ## The join of the Spark job -/

/-- A row of the Iceberg table `fact_sales`. -/
structure IcebergRow where
  order_item_id : Uuid
  order_id : Uuid
  customer_id : Uuid
  product_id : Uuid
  order_date : Instant
  sales_date : Int
  order_status : String
  quantity : Int
  unit_price : Cents
  sales_amount : Option Cents
  payment_status : PaymentStatus
  payment_attempt_count : Nat
  source_loaded_at : Instant
  deriving DecidableEq, Repr

/-- `F.to_date` in the session time zone, UTC: days since 1970-01-01. -/
def toDate (t : Instant) : Int := t / 86400000000

/-- A row of `payment_metrics`, without its key. -/
structure PaymentMetrics where
  payment_attempt_count : Nat
  completed_payment_count : Nat
  payment_loaded_at : Instant
  deriving DecidableEq, Repr

/-- `payment_metrics.withColumn("payment_status", ..)`. -/
def PaymentMetrics.payment_status (m : PaymentMetrics) : PaymentStatus :=
  if m.completed_payment_count = m.payment_attempt_count then .paid
  else if 0 < m.completed_payment_count then .partially_paid
  else .unpaid

namespace Staging

variable (st : Staging)

/-- `payments.groupBy("order_id").agg(..)`, the row of an order. -/
def paymentMetrics (order_id : Uuid) : Option PaymentMetrics :=
  let group := st.attempts order_id
  if group.isEmpty then none
  else some {
    payment_attempt_count := group.length
    completed_payment_count := (group.map (fun p => if p.completed then 1 else 0)).sum
    payment_loaded_at := highWater Staged.loaded_at beforeEveryLoad group }

/-- One row of `transform_sales`; the cast to `decimal(14,2)` gives null when it overflows. -/
def sparkRow (order : Staged OrderRow) (item : Staged OrderItemRow) : IcebergRow :=
  let payments := st.paymentMetrics order.row.order_id
  let amount := item.row.quantity * item.row.unit_price
  { order_item_id := item.row.order_item_id
    order_id := order.row.order_id
    customer_id := order.row.customer_id
    product_id := item.row.product_id
    order_date := order.row.order_date
    sales_date := toDate order.row.order_date
    order_status := order.row.status
    quantity := item.row.quantity
    unit_price := item.row.unit_price
    sales_amount := if FitsNumeric 14 amount then some amount else none
    payment_status := (payments.map PaymentMetrics.payment_status).getD .unpaid
    payment_attempt_count := (payments.map PaymentMetrics.payment_attempt_count).getD 0
    source_loaded_at := max (max order.loaded_at item.loaded_at)
      ((payments.map PaymentMetrics.payment_loaded_at).getD beforeEveryLoad) }

/-- `transform_sales`. -/
def transformSales : List IcebergRow :=
  st.orderedItems.map fun pair => st.sparkRow pair.1 pair.2

end Staging

/-- A row of the join as the Iceberg table stores it. -/
def SalesItem.toIceberg (s : SalesItem) : IcebergRow where
  order_item_id := s.order_item_id
  order_id := s.order_id
  customer_id := s.customer_id
  product_id := s.product_id
  order_date := s.order_date
  sales_date := toDate s.order_date
  order_status := s.order_status
  quantity := s.quantity
  unit_price := s.unit_price
  sales_amount := if FitsNumeric 14 s.sales_amount then some s.sales_amount else none
  payment_status := s.payment_status
  payment_attempt_count := s.payment_attempt_count
  source_loaded_at := s.source_loaded_at

section Agreement

variable {st : Staging}

/-- How many rows of a group satisfy a condition, as a sum of ones and zeros. -/
theorem sum_indicator {α : Type} (p : α → Bool) :
    ∀ l : List α, (l.map (fun a => if p a then 1 else 0)).sum = l.countP p
  | [] => rfl
  | a :: l => by
    have ih := sum_indicator p l
    rw [List.map_cons, List.sum_cons, ih, List.countP_cons]
    omega

theorem paymentMetrics_eq (st : Staging) (order_id : Uuid) :
    (st.paymentMetrics order_id).map PaymentMetrics.payment_status =
        (st.intPaymentsByOrder order_id).map PaymentsByOrder.payment_status ∧
      (st.paymentMetrics order_id).map PaymentMetrics.payment_attempt_count =
        (st.intPaymentsByOrder order_id).map PaymentsByOrder.payment_attempt_count ∧
      (st.paymentMetrics order_id).map PaymentMetrics.payment_loaded_at =
        (st.intPaymentsByOrder order_id).map PaymentsByOrder.source_loaded_at := by
  unfold Staging.paymentMetrics Staging.intPaymentsByOrder
  by_cases hempty : (st.attempts order_id).isEmpty
  · simp only [hempty, if_true, Option.map_none, and_self]
  · simp only [hempty, if_neg, Bool.false_eq_true, not_false_eq_true, Option.map_some, and_true]
    unfold PaymentMetrics.payment_status
    have hall : (st.attempts order_id).countP Staged.completed = (st.attempts order_id).length ↔
        (st.attempts order_id).all Staged.completed = true := by
      rw [List.countP_eq_length, List.all_eq_true]
    have hany : 0 < (st.attempts order_id).countP Staged.completed ↔
        (st.attempts order_id).any Staged.completed = true := by
      rw [List.countP_pos_iff, List.any_eq_true]
    simp only [sum_indicator, hall, hany]

theorem sparkRow_eq (order : Staged OrderRow) (item : Staged OrderItemRow) :
    st.sparkRow order item = (st.salesRow order item).toIceberg := by
  obtain ⟨hstatus, hcount, hloaded⟩ := paymentMetrics_eq st order.row.order_id
  simp only [Staging.sparkRow, hstatus, hcount, hloaded]
  rfl

/-- **Both sinks derive one join.** -/
theorem transformSales_eq : st.transformSales = st.salesRows.map SalesItem.toIceberg := by
  unfold Staging.transformSales Staging.salesRows
  rw [List.map_map]
  exact List.map_congr_left fun pair _ => sparkRow_eq pair.1 pair.2

theorem intSalesOrderItems_eq_some {view : List SalesItem} (h : st.intSalesOrderItems = some view) :
    view = st.salesRows ∧ ∀ s ∈ view, FitsNumeric 14 s.sales_amount := by
  unfold Staging.intSalesOrderItems at h
  split at h
  · rename_i hfits
    cases h
    exact ⟨rfl, hfits⟩
  · cases h

theorem mem_salesRows {s : SalesItem} : s ∈ st.salesRows ↔
    ∃ item ∈ st.order_items.rows, ∃ order, st.orders.find? item.row.order_id = some order ∧
      s = st.salesRow order item := by
  unfold Staging.salesRows Staging.orderedItems
  constructor
  · intro h
    obtain ⟨⟨order, item⟩, hpair, rfl⟩ := List.mem_map.mp h
    obtain ⟨item', hitem, hjoin⟩ := List.mem_filterMap.mp hpair
    obtain ⟨order', horder, he⟩ := Option.map_eq_some_iff.mp hjoin
    cases he
    exact ⟨item, hitem, order, horder, rfl⟩
  · rintro ⟨item, hitem, order, horder, rfl⟩
    refine List.mem_map.mpr ⟨(order, item), List.mem_filterMap.mpr ⟨item, hitem, ?_⟩, rfl⟩
    rw [horder, Option.map_some]

/-- **The join keeps the order-item grain.** -/
theorem uniqueOn_salesRows : UniqueOn SalesItem.order_item_id st.salesRows := by
  have hpairs : UniqueOn (fun pair : Staged OrderRow × Staged OrderItemRow => pair.2.row.order_item_id)
      st.orderedItems := by
    refine st.order_items.unique.filterMap fun item pair h => ?_
    obtain ⟨order, -, rfl⟩ := Option.map_eq_some_iff.mp h
    rfl
  exact hpairs.map_proj fun _ => rfl

end Agreement

/-! ## Loads -/

section Load

variable {ρ : Type} {key : ρ → Uuid}

/-- `INSERT INTO staging.t SELECT .. ON CONFLICT DO UPDATE SET .., loaded_at = CURRENT_TIMESTAMP`. -/
def load (t : StagingTable key) (batch : Table ρ key) (now : Instant) : StagingTable key :=
  t.merge ⟨batch.rows.map (fun r => ⟨r, now⟩), batch.unique.map_proj fun _ => rfl⟩

variable {t : StagingTable key} {batch : Table ρ key} {now : Instant} {k : Uuid} {r : Staged ρ}

theorem find?_load : (load t batch now).find? k =
    ((batch.find? k).map (fun r => (⟨r, now⟩ : Staged ρ))).or (t.find? k) := by
  unfold load
  rw [Table.find?_merge]
  unfold Table.find?
  rw [lookup_map fun _ => rfl]

/-- What is older than the load was there before it. -/
theorem find?_of_load (h : (load t batch now).find? k = some r) (hold : r.loaded_at < now) :
    t.find? k = some r := by
  rw [find?_load] at h
  cases hb : batch.find? k with
  | none =>
    rw [hb] at h
    exact h
  | some b =>
    rw [hb] at h
    cases h
    exact absurd hold (lt_irrefl now)

theorem mem_load (h : r ∈ (load t batch now).rows) : r ∈ t.rows ∨ r.loaded_at = now ∧ r.row ∈ batch.rows := by
  rcases mem_mergeInto h with h | h
  · exact Or.inl h
  · obtain ⟨b, hb, rfl⟩ := List.mem_map.mp h
    exact Or.inr ⟨rfl, hb⟩

/-- What `st'` holds from before `now` is what `st` holds. -/
structure OlderKept (now : Instant) (st st' : Staging) : Prop where
  orders : ∀ k r, st'.orders.find? k = some r → r.loaded_at < now → st.orders.find? k = some r
  order_items : ∀ k r, st'.order_items.find? k = some r → r.loaded_at < now →
    st.order_items.find? k = some r
  attempts : ∀ id, (∀ p ∈ st'.attempts id, p.loaded_at < now) → st'.attempts id = st.attempts id

/-- No loaded payment moves an existing payment to another order. -/
def KeepsOrder (st : Staging) (batch : Table PaymentRow PaymentRow.payment_id) : Prop :=
  ∀ p ∈ batch.rows, ∀ old, st.payments.find? p.payment_id = some old → old.row.order_id = p.order_id

/-- Payments that stay with their order are older than the load only as they were. -/
theorem attempts_load {st : Staging} {batch : Table PaymentRow PaymentRow.payment_id} {id : Uuid}
    (hkeep : KeepsOrder st batch)
    (hold : ∀ p ∈ ({ st with payments := load st.payments batch now } : Staging).attempts id,
      p.loaded_at < now) :
    ({ st with payments := load st.payments batch now } : Staging).attempts id = st.attempts id := by
  refine filter_mergeInto ?_ ?_
  · intro p hp s hs hk
    obtain ⟨b, hb, rfl⟩ := List.mem_map.mp hs
    have hfind : st.payments.find? b.payment_id = some p := Table.find?_eq_some.mpr ⟨hp, hk.symm⟩
    rw [hkeep b hb p hfind]
  · intro s hs hmem
    obtain ⟨b, -, rfl⟩ := List.mem_map.mp hs
    refine Bool.eq_false_iff.mpr fun hown => ?_
    exact absurd (hold _ (List.mem_filter.mpr ⟨hmem, hown⟩)) (lt_irrefl now)

section Older

variable {st st' : Staging} {now : Instant} {s : SalesItem}

theorem loaded_at_le_source (st : Staging) (order : Staged OrderRow) (item : Staged OrderItemRow) :
    order.loaded_at ≤ (st.salesRow order item).source_loaded_at ∧
      item.loaded_at ≤ (st.salesRow order item).source_loaded_at ∧
      ∀ p ∈ st.attempts order.row.order_id,
        p.loaded_at ≤ (st.salesRow order item).source_loaded_at := by
  have hmax : max order.loaded_at item.loaded_at ≤ (st.salesRow order item).source_loaded_at :=
    le_max_left _ _
  refine ⟨(le_max_left _ _).trans hmax, (le_max_right _ _).trans hmax, fun p hp => ?_⟩
  have hgroup : (st.attempts order.row.order_id).isEmpty = false := by
    cases hl : st.attempts order.row.order_id with
    | nil => rw [hl] at hp; cases hp
    | cons _ _ => rfl
  refine le_trans ?_ (le_max_right _ _)
  unfold Staging.intPaymentsByOrder
  simp only [hgroup, Bool.false_eq_true, if_false, Option.map_some, Option.getD_some]
  exact le_highWater hp

/-- **A load leaves the join rows that stay older than it.** -/
theorem mem_salesRows_of_olderKept (h : OlderKept now st st') (hs : s ∈ st'.salesRows)
    (hlt : s.source_loaded_at < now) : s ∈ st.salesRows := by
  obtain ⟨item, hitem, order, horder, rfl⟩ := mem_salesRows.mp hs
  obtain ⟨hle_order, hle_item, hle_payment⟩ := loaded_at_le_source st' order item
  have hitem' : st'.order_items.find? item.row.order_item_id = some item :=
    Table.find?_eq_some.mpr ⟨hitem, rfl⟩
  have hitem_old := h.order_items _ _ hitem' (hle_item.trans_lt hlt)
  have horder_old := h.orders _ _ horder (hle_order.trans_lt hlt)
  have hattempts := h.attempts order.row.order_id fun p hp => (hle_payment p hp).trans_lt hlt
  refine mem_salesRows.mpr ⟨item, (Table.find?_eq_some.mp hitem_old).1, order, horder_old, ?_⟩
  unfold Staging.salesRow Staging.intPaymentsByOrder
  rw [hattempts]

/-- The load time of a join row is bounded by those of staging. -/
theorem source_loaded_at_le {bound : Instant} (hbound : beforeEveryLoad ≤ bound)
    (horders : ∀ r ∈ st.orders.rows, r.loaded_at ≤ bound)
    (hitems : ∀ r ∈ st.order_items.rows, r.loaded_at ≤ bound)
    (hpayments : ∀ r ∈ st.payments.rows, r.loaded_at ≤ bound) (hs : s ∈ st.salesRows) :
    s.source_loaded_at ≤ bound := by
  obtain ⟨item, hitem, order, horder, rfl⟩ := mem_salesRows.mp hs
  have horder' := horders order (Table.find?_eq_some.mp horder).1
  refine max_le (max_le horder' (hitems item hitem)) ?_
  unfold Staging.intPaymentsByOrder
  dsimp only
  split
  · exact hbound
  · exact highWater_le (fun _ => hbound) fun p hp => hpayments p (List.mem_of_mem_filter hp)

end Older

end Load

end LocalDataPlatform.Sales

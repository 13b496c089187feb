import LocalDataPlatform.Pipeline.Oltp
import LocalDataPlatform.Sales.Measures

/-!
# Daily measures of an admissible source

`001_schema.sql` checks each measure of the source but `order_items.unit_price`.  Whether `daily_sales` is
valid rests on the sign of that column.

* `Admissible` — the constraints of the schema; `Loaded` — staging holds the rows of the source.
* `linesOf` — the order items of a date whose order is fully paid, or of the others.
* `Outweighed` — in each of these groups the lines below zero are outweighed by the others.
* `LinesNonNegative` — no quantity and no price is below zero.

Principal results: `groupSales_source` (what `daily_sales` adds up, in terms of the source),
`daily_measures_valid_iff` (the measures are valid exactly when prices below zero are outweighed),
`measures_valid_run` (with prices that are not negative every row is valid in every run of the pipeline).
-/

set_option autoImplicit false

namespace LocalDataPlatform.Pipeline

open Relational Sales

/-! ## The schema -/

/-- `orders_status_check`. -/
def orderStatuses : List String :=
  ["pending", "confirmed", "processing", "shipped", "delivered", "canceled"]

/-- `payments_method`. -/
def paymentMethods : List String := ["credit_card", "cash", "debit_card", "bank_transfer", "e_wallet"]

/-- `payments_status`. -/
def paymentStatuses : List String := ["pending", "completed", "failed", "refunded"]

/-- The types of the columns. -/
structure ColumnTypes (tables : Source) : Prop where
  name : ∀ p ∈ (tables .products).rows, p.name.length ≤ 255
  category : ∀ p ∈ (tables .products).rows, p.category.length ≤ 100
  price : ∀ p ∈ (tables .products).rows, FitsNumeric 12 p.price
  total_amount : ∀ o ∈ (tables .orders).rows, FitsNumeric 14 o.total_amount
  quantity : ∀ i ∈ (tables .order_items).rows, -2 ^ 31 ≤ i.quantity ∧ i.quantity < 2 ^ 31
  unit_price : ∀ i ∈ (tables .order_items).rows, FitsNumeric 12 i.unit_price
  amount : ∀ p ∈ (tables .payments).rows, FitsNumeric 14 p.amount

/-- The constraints of the schema; `unit_price` has none. -/
structure Admissible (customers : Cdc.SourceTable) (tables : Source) : Prop where
  column_types : ColumnTypes tables
  foreign_keys : ForeignKeys customers tables
  products_price_non_negative : ∀ p ∈ (tables .products).rows, 0 ≤ p.price
  orders_status_check : ∀ o ∈ (tables .orders).rows, o.status ∈ orderStatuses
  orders_total_amount_non_negative : ∀ o ∈ (tables .orders).rows, 0 ≤ o.total_amount
  order_items_quantity_non_negative : ∀ i ∈ (tables .order_items).rows, 0 ≤ i.quantity
  order_items_order_product_unique :
    UniqueOn (fun i : OrderItemRow => (i.order_id, i.product_id)) (tables .order_items).rows
  payments_amount_positive : ∀ p ∈ (tables .payments).rows, 0 < p.amount
  payments_method : ∀ p ∈ (tables .payments).rows, p.payment_method ∈ paymentMethods
  payments_status : ∀ p ∈ (tables .payments).rows, p.payment_status ∈ paymentStatuses

/-! ## The load -/

/-- Staging holds the rows of the source, whenever each was loaded. -/
def Loaded (tables : Source) (st : Staging) : Prop :=
  ∀ t, ((staged st t).rows.map Staged.row).Perm (tables t).rows

/-- Every table is loaded once, into empty staging. -/
def loadAll (tables : Source) (now : TableName → Instant) : Staging :=
  [.products, .orders, .order_items, .payments].foldl (fun st t => loadTable st (now t) t (tables t))
    ⟨Table.empty, Table.empty, Table.empty, Table.empty⟩

section Load

variable {tables : Source} {st : Staging} {t : TableName} {id : Uuid}

/-- A load into an empty table holds its batch. -/
theorem rows_load_empty {ρ : Type} {key : ρ → Uuid} (batch : Table ρ key) (now : Instant) :
    (load Table.empty batch now).rows.map Staged.row = batch.rows := by
  have hrows : (load Table.empty batch now).rows = batch.rows.map fun r => (⟨r, now⟩ : Staged ρ) :=
    List.filter_eq_self.mpr fun _ _ => rfl
  rw [hrows, List.map_map]
  exact List.map_id _

theorem loaded_loadAll (tables : Source) (now : TableName → Instant) :
    Loaded tables (loadAll tables now) := by
  intro t
  refine List.Perm.of_eq ?_
  cases t <;> exact rows_load_empty _ _

/-- A staged row is found under the key of its source row. -/
theorem Loaded.find? (h : Loaded tables st) (t : TableName) (id : Uuid) :
    ((staged st t).find? id).map Staged.row = (tables t).find? id := by
  have hmap : lookup (key t) ((staged st t).rows.map Staged.row) id =
      ((staged st t).find? id).map Staged.row := lookup_map fun _ => rfl
  rw [← hmap]
  exact UniqueOn.lookup_of_perm ((staged st t).unique.map_proj fun _ => rfl) (h t)

theorem Loaded.mem (h : Loaded tables st) {r : Staged (Row t)} (hr : r ∈ (staged st t).rows) :
    r.row ∈ (tables t).rows :=
  (h t).mem_iff.mp (List.mem_map_of_mem hr)

end Load

/-! ## The lines of a date -/

/-- The order has payments, and all of them are completed. -/
def fullyPaid (tables : Source) (order_id : Uuid) : Bool :=
  let group := (tables .payments).rows.filter fun p => decide (p.order_id = order_id)
  !group.isEmpty && group.all fun p => p.payment_status == "completed"

/-- What a line adds up to. -/
def lineAmount (item : OrderItemRow) : Cents := item.quantity * item.unit_price

/-- The price of the line is below zero. -/
def belowZero (item : OrderItemRow) : Bool := decide (item.unit_price < 0)

section Lines

variable (day : Instant → Int)

/-- The order of the item is on the date. -/
def soldOn (tables : Source) (date : Int) (item : OrderItemRow) : Bool :=
  ((tables .orders).find? item.order_id).any fun order => decide (day order.order_date = date)

/-- The items of the date whose order is fully paid, or those of the others. -/
def linesOf (tables : Source) (date : Int) (paid : Bool) : List OrderItemRow :=
  (tables .order_items).rows.filter fun item =>
    soldOn day tables date item && (fullyPaid tables item.order_id == paid)

/-- On every date, among the fully paid lines and among the others, those with a price below zero take
away at most what the rest adds. -/
def Outweighed (tables : Source) : Prop :=
  ∀ date paid, -(((linesOf day tables date paid).filter belowZero).map lineAmount).sum ≤
    (((linesOf day tables date paid).filter fun item => !belowZero item).map lineAmount).sum

end Lines

/-- No quantity and no price is below zero. -/
def LinesNonNegative (tables : Source) : Prop :=
  ∀ item ∈ (tables .order_items).rows, 0 ≤ item.quantity ∧ 0 ≤ item.unit_price

/-- What a selection of joined rows adds up, row by row of the table they are joined to. -/
theorem map_filter_filterMap {α β γ : Type} {g : α → Option β} {p : β → Bool} {f : β → γ} {q : α → Bool}
    {f' : α → γ} : ∀ {l : List α}, (∀ a ∈ l, ((g a).filter p).map f = if q a then some (f' a) else none) →
      ((l.filterMap g).filter p).map f = (l.filter q).map f'
  | [], _ => rfl
  | a :: l, h => by
    have ih := map_filter_filterMap fun a ha => h a (List.mem_cons_of_mem _ ha)
    have hrow := h a List.mem_cons_self
    cases hg : g a with
    | none =>
      rw [hg] at hrow
      cases hq : q a with
      | false => rw [List.filterMap_cons_none hg, List.filter_cons_of_neg (by simp [hq]), ih]
      | true =>
        rw [hq] at hrow
        cases hrow
    | some b =>
      rw [List.filterMap_cons_some hg, List.filter_cons, List.filter_cons]
      rw [hg, Option.filter_some] at hrow
      cases hp : p b with
      | false =>
        cases hq : q a with
        | false => exact ih
        | true =>
          rw [hp, hq] at hrow
          cases hrow
      | true =>
        cases hq : q a with
        | false =>
          rw [hp, hq] at hrow
          cases hrow
        | true =>
          rw [hp, hq] at hrow
          have hsame : f b = f' a := Option.some.inj hrow
          simp only [if_true, List.map_cons, hsame, ih]

section Source

variable {day : Instant → Int} {customers : Cdc.SourceTable} {tables : Source} {st : Staging}
variable {date : Int} {paid : Bool}

/-- An order is paid in the join when it is fully paid in the source. -/
theorem Loaded.paid_iff (h : Loaded tables st) (order : Staged OrderRow) (item : Staged OrderItemRow) :
    decide ((st.salesRow order item).payment_status = .paid) = fullyPaid tables order.row.order_id := by
  have hattempts : ((st.attempts order.row.order_id).map Staged.row).Perm
      ((tables .payments).rows.filter fun p => decide (p.order_id = order.row.order_id)) := by
    have hperm := (h .payments).filter fun p => decide (p.order_id = order.row.order_id)
    rwa [List.filter_map] at hperm
  have hempty : (st.attempts order.row.order_id).isEmpty =
      ((tables .payments).rows.filter fun p => decide (p.order_id = order.row.order_id)).isEmpty := by
    rw [← hattempts.isEmpty_eq, List.isEmpty_map]
  have hall : (st.attempts order.row.order_id).all Staged.completed =
      ((tables .payments).rows.filter fun p => decide (p.order_id = order.row.order_id)).all
        fun p => p.payment_status == "completed" := by
    rw [← hattempts.all_eq, List.all_map]
    rfl
  unfold fullyPaid Staging.salesRow Staging.intPaymentsByOrder
  dsimp only
  rw [← hempty, ← hall]
  by_cases he : (st.attempts order.row.order_id).isEmpty = true
  · simp [he]
  · by_cases hc : (st.attempts order.row.order_id).all Staged.completed = true
    · simp [he, hc]
    · have hnot : (if (st.attempts order.row.order_id).any Staged.completed = true then
          PaymentStatus.partially_paid else .unpaid) ≠ .paid := by
        split <;> exact nofun
      simp only [he, hc, Bool.false_eq_true, if_false, Option.map_some, Option.getD_some, hnot,
        Bool.not_false, Bool.and_false, decide_false]

/-- **What `daily_sales` adds up**, in terms of the source. -/
theorem groupSales_source (h : Loaded tables st) (date : Int) (paid : Bool) :
    groupSales day st.salesRows date paid = ((linesOf day tables date paid).map lineAmount).sum := by
  have hrows : st.salesRows = st.order_items.rows.filterMap fun item =>
      (st.orders.find? item.row.order_id).map fun order => st.salesRow order item := by
    unfold Staging.salesRows Staging.orderedItems
    rw [List.map_filterMap]
    simp only [Option.map_map, Function.comp_def]
  have hitem : ∀ item ∈ st.order_items.rows,
      (((st.orders.find? item.row.order_id).map fun order => st.salesRow order item).filter
          (SalesItem.inGroup day date paid)).map SalesItem.sales_amount =
        if soldOn day tables date item.row && (fullyPaid tables item.row.order_id == paid) then
          some (lineAmount item.row) else none := by
    intro item _
    unfold soldOn
    rw [← h.find? .orders item.row.order_id]
    change _ = if (((st.orders.find? item.row.order_id).map Staged.row).any _ && _) = true then _ else _
    cases horder : st.orders.find? item.row.order_id with
    | none => rfl
    | some order =>
      have hkey := Table.key_of_find? horder
      have hid : order.row.order_id = item.row.order_id := hkey
      have hgroup : (st.salesRow order item).inGroup day date paid =
          (decide (day order.row.order_date = date) && (fullyPaid tables item.row.order_id == paid)) := by
        rw [SalesItem.inGroup, h.paid_iff order item, hid]
        rfl
      rw [Option.map_some, Option.filter_some, hgroup, Option.map_some, Option.any_some]
      cases decide (day order.row.order_date = date) && (fullyPaid tables item.row.order_id == paid) <;> rfl
  have hsource := (h .order_items).filter fun item =>
    soldOn day tables date item && (fullyPaid tables item.order_id == paid)
  unfold groupSales linesOf
  rw [hrows, map_filter_filterMap hitem, ← (hsource.map lineAmount).sum_eq, List.filter_map, List.map_map]
  rfl

/-- A group adds up to at least zero exactly when its lines below zero do not outweigh the rest. -/
theorem sum_linesOf_nonneg : 0 ≤ ((linesOf day tables date paid).map lineAmount).sum ↔
    -(((linesOf day tables date paid).filter belowZero).map lineAmount).sum ≤
      (((linesOf day tables date paid).filter fun item => !belowZero item).map lineAmount).sum := by
  rw [← sum_filter_add belowZero lineAmount, neg_le_iff_add_nonneg']

/-- Without a price below zero there is nothing to outweigh. -/
theorem LinesNonNegative.outweighed (h : LinesNonNegative tables) : Outweighed day tables := by
  intro date paid
  refine sum_linesOf_nonneg.mp (sum_map_nonneg fun item hitem => ?_)
  obtain ⟨hquantity, hprice⟩ := h item (List.mem_of_mem_filter hitem)
  exact mul_nonneg hquantity hprice

/-- **The measures are valid exactly when prices below zero are outweighed**, for every admissible source
that has been loaded and built. -/
theorem daily_measures_valid_iff {view : List SalesItem} {versions : List CustomerVersion}
    {facts : List FactRow} {daily : List DailyRow} (hadmissible : Admissible customers tables)
    (hloaded : Loaded tables st) (hview : st.intSalesOrderItems = some view)
    (hbuild : Completes day Marts.fresh ⟨versions, view, false⟩ facts daily) :
    (∀ r ∈ daily, r.Valid) ↔ Outweighed day tables := by
  obtain ⟨rfl, -⟩ := intSalesOrderItems_eq_some hview
  have hfacts : (facts.map FactRow.toSalesItem).Perm st.salesRows :=
    perm_firstBuild uniqueOn_salesRows hbuild
  have hquantity : ∀ f ∈ facts, 0 ≤ f.quantity := by
    intro f hf
    have hline : f.toSalesItem ∈ st.salesRows := hfacts.mem_iff.mp (List.mem_map_of_mem hf)
    obtain ⟨item, hitem, order, -, heq⟩ := mem_salesRows.mp hline
    have hsame : f.quantity = item.row.quantity := congrArg SalesItem.quantity heq
    rw [hsame]
    exact hadmissible.order_items_quantity_non_negative item.row (hloaded.mem hitem)
  rw [(buildDaily_first hbuild.2.2.2).valid_iff hquantity]
  refine forall_congr' fun date => forall_congr' fun paid => ?_
  rw [groupSales_perm hfacts, groupSales_source hloaded, sum_linesOf_nonneg]

end Source

/-! ## One order line -/

section Sample

def listedCustomers : Cdc.SourceTable :=
  Table.empty.put ⟨7, ⟨some "Ann", some "Lee", some "ann@shop.org", some 5, some 5⟩⟩

/-- One order with one line, paid. -/
def listedSource (unit_price : Cents) : Source
  | .products => tableOf ⟨5, "Laptop", "Electronics", 2000, 10, 10⟩
  | .orders => tableOf (sampleOrder 10 "confirmed")
  | .order_items => tableOf ⟨1, 1, 5, 1, unit_price, 10, 10⟩
  | .payments => tableOf ⟨1, 1, 2000, "cash", "completed", some 10, 10, 10⟩

theorem forall_tableOf {ρ : Type} {key : ρ → Uuid} {r : ρ} {P : ρ → Prop} (h : P r) :
    ∀ x ∈ (@tableOf ρ key r).rows, P x := by
  intro x hx
  rw [List.mem_singleton.mp hx]
  exact h

theorem admissible_listedSource {unit_price : Cents} (hprice : FitsNumeric 12 unit_price) :
    Admissible listedCustomers (listedSource unit_price) where
  column_types :=
    { name := forall_tableOf (by decide)
      category := forall_tableOf (by decide)
      price := forall_tableOf (by decide)
      total_amount := forall_tableOf (by decide)
      quantity := forall_tableOf (show (-2 ^ 31 : Int) ≤ 1 ∧ (1 : Int) < 2 ^ 31 by decide)
      unit_price := forall_tableOf hprice
      amount := forall_tableOf (by decide) }
  foreign_keys :=
    { orders_customer_fk := forall_tableOf rfl
      order_items_order_fk := forall_tableOf rfl
      order_items_product_fk := forall_tableOf rfl
      payments_order_id_fk := forall_tableOf rfl }
  products_price_non_negative := forall_tableOf (by decide)
  orders_status_check := forall_tableOf (by decide)
  orders_total_amount_non_negative := forall_tableOf (by decide)
  order_items_quantity_non_negative := forall_tableOf Int.one_nonneg
  order_items_order_product_unique := List.nodup_singleton _
  payments_amount_positive := forall_tableOf (by decide)
  payments_method := forall_tableOf (by decide)
  payments_status := forall_tableOf (by decide)

/-- A line at -100.00 is admitted, and takes its date below zero. -/
theorem daily_measures_negative : Admissible listedCustomers (listedSource (-10000)) ∧
    Loaded (listedSource (-10000)) (loadAll (listedSource (-10000)) fun _ => 20) ∧
    ∃ view facts daily, (loadAll (listedSource (-10000)) fun _ => 20).intSalesOrderItems = some view ∧
      Completes toDate Marts.fresh ⟨[⟨"v", 7, 0, none⟩], view, false⟩ facts daily ∧
      daily.map (fun r => (r.sales_date, r.total_sales, r.paid_sales)) = [(0, -10000, -10000)] ∧
      invalidMeasures daily = daily ∧ ¬ ∀ r ∈ daily, r.Valid := by
  refine ⟨admissible_listedSource (by decide), loaded_loadAll _ _, _, _, _, rfl, ⟨rfl, rfl, by decide, rfl⟩,
    rfl, rfl, fun h => ?_⟩
  exact absurd (h _ List.mem_cons_self) (by decide)

/-- A line at 20.00. -/
theorem daily_measures_valid_priced : ∃ view facts daily,
    (loadAll (listedSource 2000) fun _ => 20).intSalesOrderItems = some view ∧
      Completes toDate Marts.fresh ⟨[⟨"v", 7, 0, none⟩], view, false⟩ facts daily ∧
      daily.map (fun r => (r.sales_date, r.total_sales, r.paid_sales)) = [(0, 2000, 2000)] ∧
      ∀ r ∈ daily, r.Valid := by
  obtain ⟨view, facts, daily, hview, hbuild, hdaily⟩ : ∃ view facts daily,
      (loadAll (listedSource 2000) fun _ => 20).intSalesOrderItems = some view ∧
        Completes toDate Marts.fresh ⟨[⟨"v", 7, 0, none⟩], view, false⟩ facts daily ∧
        daily.map (fun r => (r.sales_date, r.total_sales, r.paid_sales)) = [(0, 2000, 2000)] :=
    ⟨_, _, _, rfl, ⟨rfl, rfl, by decide, rfl⟩, rfl⟩
  have hlines : LinesNonNegative (listedSource 2000) := forall_tableOf (by decide)
  refine ⟨view, facts, daily, hview, hbuild, hdaily, ?_⟩
  exact (daily_measures_valid_iff (admissible_listedSource (by decide)) (loaded_loadAll _ _) hview hbuild).mpr
    hlines.outweighed

end Sample

/-! ## Runs -/

section Runs

variable {day : Instant → Int} {s s' : State} {action : Action}

/-- No staged line is below zero, and `daily_sales` is valid. -/
structure MeasuresInv (s : State) : Prop where
  staging : ∀ r ∈ s.staging.order_items.rows, 0 ≤ r.row.quantity ∧ 0 ≤ r.row.unit_price
  marts : s.marts.Measured

theorem MeasuresInv.initial : MeasuresInv State.initial := ⟨nofun, Marts.Measured.fresh⟩

theorem MeasuresInv.move (h : MeasuresInv s) (hsource : LinesNonNegative s.source)
    (hmove : Move day s action s') : MeasuresInv s' := by
  cases hmove with
  | @upsert run t lower upper now outcome hrun hstate hnow =>
    refine ⟨fun r hr => ?_, h.marts⟩
    cases t with
    | products => exact h.staging r hr
    | orders => exact h.staging r hr
    | payments => exact h.staging r hr
    | order_items =>
      rcases mem_load hr with hold | ⟨-, hnew⟩
      · exact h.staging r hold
      · exact hsource r.row (List.mem_of_mem_filter hnew)
  | @dbtBuild run snapshot view versions stops outcome hrun hstate hview hout =>
    refine ⟨h.staging, h.marts.next fun line hline => ?_⟩
    obtain ⟨rfl, -⟩ := intSalesOrderItems_eq_some hview
    obtain ⟨item, hitem, order, -, rfl⟩ := mem_salesRows.mp hline
    obtain ⟨hquantity, hprice⟩ := h.staging item hitem
    exact ⟨hquantity, mul_nonneg hquantity hprice⟩
  | _ => exact ⟨h.staging, h.marts⟩

/-- **With prices that are not negative every daily row is valid**, in every run of the pipeline: after
failed, repeated and partial builds, backfills and retries. -/
theorem measures_valid_run (h : Reaches day (fun _ _ s' => LinesNonNegative s'.source) s) :
    ∀ r ∈ s.marts.daily.getD [], r.Valid := by
  have hinv : LinesNonNegative s.source ∧ MeasuresInv s := by
    induction h with
    | initial => exact ⟨nofun, MeasuresInv.initial⟩
    | step _ hstep hok ih => exact ⟨hok, ih.2.move ih.1 (move_of_step hstep)⟩
  exact hinv.2.marts.daily

end Runs

end LocalDataPlatform.Pipeline

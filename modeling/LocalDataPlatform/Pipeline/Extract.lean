import LocalDataPlatform.Sales.SalesItems

/-!
# Extraction into staging

`extract_incremental` copies a window of a source table into staging and prepares the candidate
watermark of the table, both in one transaction.

* `TableName` — the four polled tables, with their `Row` type, `key` and `updatedAt`.
* `Watermark` — a row of `metadata.etl_watermark`.
* `Mode` — the run mode and, for a backfill, its window.
* `extractWindow` — the bounds an attempt reads; `extracted` — the source rows between them.
* `loadTable`, `raiseCandidate` — the two effects of the transaction.

Principal results: `olderKept_loadTable` (a load keeps what stays older than it, if payments stay
with their order), `order_items_loadTable`, `mem_loadTable` (what a load leaves in staging).
-/

set_option autoImplicit false

namespace LocalDataPlatform.Pipeline

open Relational Sales

/-- The tables of `PIPELINE_NAMES`. -/
inductive TableName where
  | products
  | orders
  | order_items
  | payments
  deriving DecidableEq, Repr

/-- The extracted columns of a table. -/
abbrev Row : TableName → Type
  | .products => ProductRow
  | .orders => OrderRow
  | .order_items => OrderItemRow
  | .payments => PaymentRow

/-- The primary key. -/
abbrev key : (t : TableName) → Row t → Uuid
  | .products => ProductRow.product_id
  | .orders => OrderRow.order_id
  | .order_items => OrderItemRow.order_item_id
  | .payments => PaymentRow.payment_id

/-- The column `updated_at`. -/
def updatedAt : (t : TableName) → Row t → Instant
  | .products => ProductRow.updated_at
  | .orders => OrderRow.updated_at
  | .order_items => OrderItemRow.updated_at
  | .payments => PaymentRow.updated_at

/-- The source tables, schema `public`. -/
abbrev Source := (t : TableName) → Table (Row t) (key t)

/-- A row of `metadata.etl_watermark`. -/
structure Watermark where
  watermark_value : Instant
  candidate_value : Option Instant
  deriving DecidableEq, Repr

/-- The rows of `metadata.etl_watermark` this DAG owns. -/
abbrev Watermarks := TableName → Watermark

/-- `params["run_mode"]`, with `backfill_start` and `backfill_end` of a backfill. -/
inductive Mode where
  | incremental
  | backfill (start stop : Option Instant)
  deriving DecidableEq, Repr

/-- `updated_at` lies in the window: `(lower, upper]`, or `[start, end)` for a backfill. -/
def Mode.inWindow (mode : Mode) (lower upper : Instant) (updated_at : Instant) : Bool :=
  match mode with
  | .incremental => decide (lower < updated_at) && decide (updated_at ≤ upper)
  | .backfill _ _ => decide (lower ≤ updated_at) && decide (updated_at < upper)

/-- The bounds an attempt reads: `watermark_value` and `coalesce(max(updated_at), watermark_value)`,
or those of the backfill. -/
def extractWindow (mode : Mode) (t : TableName) (table : Table (Row t) (key t)) (w : Watermark) :
    Option (Instant × Instant) :=
  match mode with
  | .incremental => some (w.watermark_value, highWater (updatedAt t) w.watermark_value table.rows)
  | .backfill start stop => start.bind fun lower => stop.map fun upper => (lower, upper)

/-- `SELECT .. FROM public.t WHERE updated_at ..`. -/
def extracted (mode : Mode) (t : TableName) (table : Table (Row t) (key t)) (lower upper : Instant) :
    Table (Row t) (key t) :=
  table.filter (fun r => mode.inWindow lower upper (updatedAt t r))

/-- `candidate_value = GREATEST(COALESCE(candidate_value, upper), upper)` of an incremental run. -/
def raiseCandidate (mode : Mode) (upper : Instant) (w : Watermark) : Watermark :=
  match mode with
  | .incremental => { w with candidate_value := some (max (w.candidate_value.getD upper) upper) }
  | .backfill _ _ => w

/-- The staging relation of a table. -/
def staged (st : Staging) : (t : TableName) → StagingTable (key t)
  | .products => st.products
  | .orders => st.orders
  | .order_items => st.order_items
  | .payments => st.payments

/-- The upsert of a window into the staging relation of a table. -/
def loadTable (st : Staging) (now : Instant) : (t : TableName) → Table (Row t) (key t) → Staging
  | .products, batch => { st with products := load st.products batch now }
  | .orders, batch => { st with orders := load st.orders batch now }
  | .order_items, batch => { st with order_items := load st.order_items batch now }
  | .payments, batch => { st with payments := load st.payments batch now }

/-- A row version is in staging. -/
def Holds (st : Staging) (t : TableName) (row : Row t) : Prop :=
  ∃ r ∈ (staged st t).rows, r.row = row

/-- No payment changes its order. -/
def PaymentsKeepOrder (st st' : Staging) : Prop :=
  ∀ id p p', st.payments.find? id = some p → st'.payments.find? id = some p' →
    p'.row.order_id = p.row.order_id

theorem paymentsKeepOrder_iff {st st' : Staging} : PaymentsKeepOrder st st' ↔
    ∀ p ∈ st.payments.rows, ∀ p' ∈ st'.payments.rows, p'.row.payment_id = p.row.payment_id →
      p'.row.order_id = p.row.order_id := by
  constructor
  · intro h p hp p' hp' hid
    exact h p.row.payment_id p p' (Table.find?_eq_some.mpr ⟨hp, rfl⟩) (Table.find?_eq_some.mpr ⟨hp', hid⟩)
  · intro h id p p' hp hp'
    obtain ⟨hmem, rfl⟩ := Table.find?_eq_some.mp hp
    obtain ⟨hmem', hid⟩ := Table.find?_eq_some.mp hp'
    exact h p hmem p' hmem' hid

instance (st st' : Staging) : Decidable (PaymentsKeepOrder st st') :=
  decidable_of_iff _ paymentsKeepOrder_iff.symm

section Load

variable {st : Staging} {now : Instant} {t : TableName} {batch : Table (Row t) (key t)}

/-- **A load keeps what stays older than it**, if payments stay with their order. -/
theorem olderKept_loadTable (hkeep : PaymentsKeepOrder st (loadTable st now t batch)) :
    OlderKept now st (loadTable st now t batch) := by
  cases t with
  | products => exact ⟨fun _ _ h _ => h, fun _ _ h _ => h, fun _ _ => rfl⟩
  | orders => exact ⟨fun k r h hold => find?_of_load h hold, fun _ _ h _ => h, fun _ _ => rfl⟩
  | order_items => exact ⟨fun _ _ h _ => h, fun k r h hold => find?_of_load h hold, fun _ _ => rfl⟩
  | payments =>
    refine ⟨fun _ _ h _ => h, fun _ _ h _ => h, fun id hold => attempts_load ?_ hold⟩
    intro p hp old hfind
    refine (hkeep p.payment_id old ⟨p, now⟩ hfind ?_).symm
    have hbatch : batch.find? p.payment_id = some p := Table.find?_eq_some.mpr ⟨hp, rfl⟩
    unfold loadTable
    dsimp only
    rw [find?_load, hbatch]
    rfl

/-- Order items are never deleted from staging. -/
theorem order_items_loadTable {id : Uuid} (h : (st.order_items.find? id).isSome) :
    ((loadTable st now t batch).order_items.find? id).isSome := by
  cases t with
  | products => exact h
  | orders => exact h
  | payments => exact h
  | order_items =>
    unfold loadTable
    dsimp only
    rw [find?_load]
    cases batch.find? id with
    | none => exact h
    | some r => rfl

/-- A loaded row carries the load time, the others are as they were. -/
theorem mem_loadTable {t' : TableName} {r : Staged (Row t')}
    (h : r ∈ (staged (loadTable st now t batch) t').rows) :
    r ∈ (staged st t').rows ∨ r.loaded_at = now := by
  cases t <;> cases t' <;> first
    | exact Or.inl h
    | exact (mem_load h).imp_right And.left

end Load

end LocalDataPlatform.Pipeline

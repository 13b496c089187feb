import LocalDataPlatform.Cdc.SourceTable
import LocalDataPlatform.Pipeline.Completeness

/-!
# The source database

The tables of `001_schema.sql` under their foreign keys, and the histories in which statements on them
interleave with the pipeline.

* `ForeignKeys` — the four constraints; `Oltp` — tables that satisfy them.
* `Statement`, `Oltp.execute` — an insert, update or delete of one row, with the rows that
  `ON DELETE CASCADE` removes; refused when a foreign key would not hold afterwards.
* `OltpHistory` — statements and steps of the pipeline in any order.

Principal results: `execute_delete_customer`, `execute_delete_order` (a row that is referred to without
cascade stays), `OltpHistory.cursorInv` (without late rows staging stays complete up to the cursors).
-/

set_option autoImplicit false

namespace LocalDataPlatform.Pipeline

open Relational Sales

/-- The foreign keys of the schema. -/
structure ForeignKeys (customers : Cdc.SourceTable) (tables : Source) : Prop where
  orders_customer_fk : ∀ o ∈ (tables .orders).rows, (customers.find? o.customer_id).isSome
  order_items_order_fk : ∀ i ∈ (tables .order_items).rows, ((tables .orders).find? i.order_id).isSome
  order_items_product_fk : ∀ i ∈ (tables .order_items).rows,
    ((tables .products).find? i.product_id).isSome
  payments_order_id_fk : ∀ p ∈ (tables .payments).rows, ((tables .orders).find? p.order_id).isSome

instance (customers : Cdc.SourceTable) (tables : Source) : Decidable (ForeignKeys customers tables) :=
  decidable_of_iff ((∀ o ∈ (tables .orders).rows, (customers.find? o.customer_id).isSome) ∧
      (∀ i ∈ (tables .order_items).rows, ((tables .orders).find? i.order_id).isSome) ∧
      (∀ i ∈ (tables .order_items).rows, ((tables .products).find? i.product_id).isSome) ∧
      ∀ p ∈ (tables .payments).rows, ((tables .orders).find? p.order_id).isSome)
    ⟨fun ⟨h₁, h₂, h₃, h₄⟩ => ⟨h₁, h₂, h₃, h₄⟩, fun ⟨h₁, h₂, h₃, h₄⟩ => ⟨h₁, h₂, h₃, h₄⟩⟩

/-- The source database. -/
structure Oltp where
  customers : Cdc.SourceTable
  tables : Source
  foreign_keys : ForeignKeys customers tables

def Oltp.empty : Oltp where
  customers := Table.empty
  tables := fun _ => Table.empty
  foreign_keys := by decide

/-- A statement on one row: of `customers`, or an insert or update, or a delete, of another table. -/
inductive Statement where
  | customer (op : Cdc.SourceOp)
  | put (t : TableName) (row : Row t)
  | delete (t : TableName) (id : Uuid)

/-- The rows that `ON DELETE CASCADE` takes along; the keys of `orders` and `payments` restrict. -/
def cascade (id : Uuid) (tables : Source) : TableName → Source
  | .orders => Function.update tables .order_items
      ((tables .order_items).filter fun i => decide (i.order_id ≠ id))
  | .products => Function.update tables .order_items
      ((tables .order_items).filter fun i => decide (i.product_id ≠ id))
  | .order_items => tables
  | .payments => tables

/-- What a statement does to `customers`. -/
def Statement.customers (customers : Cdc.SourceTable) : Statement → Cdc.SourceTable
  | .customer op => Cdc.applyOp customers op
  | .put _ _ => customers
  | .delete _ _ => customers

/-- What a statement does to the other tables. -/
def Statement.tables (tables : Source) : Statement → Source
  | .customer _ => tables
  | .put t row => Function.update tables t ((tables t).put row)
  | .delete t id => cascade id (Function.update tables t ((tables t).erase id)) t

/-- The changes of `customers` that a statement is. -/
def Statement.customerOps : Statement → List Cdc.SourceOp
  | .customer op => [op]
  | .put _ _ => []
  | .delete _ _ => []

/-- A statement is executed unless a foreign key would not hold afterwards. -/
def Oltp.execute (db : Oltp) (statement : Statement) : Option Oltp :=
  if h : ForeignKeys (statement.customers db.customers) (statement.tables db.tables) then
    some ⟨statement.customers db.customers, statement.tables db.tables, h⟩
  else none

section Execute

variable {db db' : Oltp} {statement : Statement}

theorem execute_eq_some (h : db.execute statement = some db') :
    db'.customers = statement.customers db.customers ∧ db'.tables = statement.tables db.tables := by
  unfold Oltp.execute at h
  split at h
  · cases h
    exact ⟨rfl, rfl⟩
  · cases h

/-- **A customer with orders is not deleted.** -/
theorem execute_delete_customer {o : OrderRow} (ho : o ∈ (db.tables .orders).rows) :
    db.execute (.customer (.delete o.customer_id)) = none := by
  refine dif_neg fun h => ?_
  have hfound := h.orders_customer_fk o ho
  change ((db.customers.erase o.customer_id).find? o.customer_id).isSome at hfound
  rw [Table.find?_erase, if_pos rfl] at hfound
  cases hfound

/-- **An order with payments is not deleted.** -/
theorem execute_delete_order {p : PaymentRow} (hp : p ∈ (db.tables .payments).rows) :
    db.execute (.delete .orders p.order_id) = none := by
  refine dif_neg fun h => ?_
  have hfound := h.payments_order_id_fk p hp
  change (((db.tables .orders).erase p.order_id).find? p.order_id).isSome at hfound
  rw [Table.find?_erase, if_pos rfl] at hfound
  cases hfound

/-- **A statement shows at most one new row version.** -/
theorem newRowsFresh_statement {bounds : Bounds} {tables : Source}
    (h : ∀ t row, statement = .put t row → Fresh bounds t (updatedAt t row)) :
    NewRowsFresh bounds tables (statement.tables tables) := by
  intro t row hrow hnew
  cases statement with
  | customer op => exact absurd hrow hnew
  | put t' row' =>
    by_cases ht : t = t'
    · subst ht
      have hmem : row ∈ ((tables t).put row').rows := by
        simpa only [Statement.tables, Function.update_self] using hrow
      rcases mem_mergeInto hmem with hold | hmem
      · exact absurd hold hnew
      · rw [List.mem_singleton.mp hmem]
        exact h t row' rfl
    · simp only [Statement.tables, Function.update_of_ne ht] at hrow
      exact absurd hrow hnew
  | delete t' id =>
    refine absurd ?_ hnew
    cases t' <;> cases t <;> first
      | exact hrow
      | exact List.mem_of_mem_filter hrow

end Execute

/-! ## Histories -/

/-- An action of the pipeline: any but a change of the source. -/
def Action.OfPipeline : Action → Prop
  | .changeSource _ _ => False
  | _ => True

section History

variable (day : Instant → Int) (ok : Bounds → Source → Source → Prop)

/-- Statements and steps of the pipeline, with the bounds read and the changes of `customers`; `ok`
says which changes of the tables are allowed. -/
inductive OltpHistory : Bounds → List Cdc.SourceOp → Oltp → State → Prop
  | initial : OltpHistory (fun _ => []) [] Oltp.empty State.initial
  | execute {bounds : Bounds} {ops : List Cdc.SourceOp} {db db' : Oltp} {s : State}
      {statement : Statement} (h : OltpHistory bounds ops db s)
      (hexecute : db.execute statement = some db') (hok : ok bounds db.tables db'.tables) :
      OltpHistory bounds (ops ++ statement.customerOps) db' { s with source := db'.tables }
  | pipeline {bounds : Bounds} {ops : List Cdc.SourceOp} {db : Oltp} {s s' : State} {action : Action}
      (h : OltpHistory bounds ops db s) (haction : action.OfPipeline)
      (hstep : step day s action = some s') : OltpHistory (bounds.after s action) ops db s'

end History

section Invariants

variable {day : Instant → Int} {ok : Bounds → Source → Source → Prop} {bounds : Bounds}
variable {ops : List Cdc.SourceOp} {db : Oltp} {s s' : State} {action : Action}

theorem Move.source_eq (hmove : Move day s action s') (haction : action.OfPipeline) :
    s'.source = s.source := by
  cases hmove with
  | changeSource t table => exact haction.elim
  | _ => rfl

/-- The pipeline reads the tables of the database. -/
theorem OltpHistory.source_eq (h : OltpHistory day ok bounds ops db s) : s.source = db.tables := by
  induction h with
  | initial => rfl
  | execute _ _ _ _ => rfl
  | pipeline _ haction hstep ih => exact ((move_of_step hstep).source_eq haction).trans ih

/-- `customers` is what its changes make of it. -/
theorem OltpHistory.customers_eq (h : OltpHistory day ok bounds ops db s) :
    db.customers = Cdc.finalTable Table.empty ops := by
  induction h with
  | initial => rfl
  | @execute bounds ops db db' s statement _ hexecute _ ih =>
    rw [(execute_eq_some hexecute).1, ih]
    unfold Cdc.finalTable
    rw [List.foldl_append]
    cases statement <;> rfl
  | pipeline _ _ _ ih => exact ih

theorem OltpHistory.layered (h : OltpHistory day ok bounds ops db s) : LayeredRuns s := by
  induction h with
  | initial => exact ⟨nofun, nofun⟩
  | execute _ _ _ ih => exact ⟨ih.active, ih.failed⟩
  | pipeline _ _ hstep ih => exact ih.move (move_of_step hstep)

/-- **Without late rows staging stays complete up to the cursors**, whatever statements are executed. -/
theorem OltpHistory.cursorInv (h : OltpHistory day NewRowsFresh bounds ops db s) :
    CursorInv bounds s := by
  induction h with
  | initial => exact CursorInv.initial
  | execute hprev _ hok ih =>
    exact ⟨ih.known, fun t lower upper hr => ih.reading t lower upper hr,
      ih.carries_changeSource (hprev.source_eq ▸ hok)⟩
  | pipeline hprev haction hstep ih =>
    refine ih.move hprev.layered (move_of_step hstep) fun t row hrow hnew => absurd ?_ hnew
    rwa [← (move_of_step hstep).source_eq haction]

/-- Statements one after another. -/
theorem OltpHistory.executeAll : ∀ {statements : List Statement} {ops : List Cdc.SourceOp}
    {db db' : Oltp} {s : State}, OltpHistory day ok bounds ops db s →
      (∀ statement ∈ statements, ∀ tables, ok bounds tables (statement.tables tables)) →
      statements.foldlM Oltp.execute db = some db' →
      OltpHistory day ok bounds (ops ++ statements.flatMap Statement.customerOps) db'
        { s with source := db'.tables }
  | [], ops, db, db', s, h, _, hrun => by
    cases hrun
    rw [List.flatMap_nil, List.append_nil, ← h.source_eq]
    exact h
  | statement :: statements, ops, db, db', s, h, hok, hrun => by
    rw [List.foldlM_cons] at hrun
    obtain ⟨db₁, hone, hrest⟩ := Option.bind_eq_some_iff.mp hrun
    have hfirst := hok statement List.mem_cons_self db.tables
    rw [← (execute_eq_some hone).2] at hfirst
    have hall := (h.execute hone hfirst).executeAll
      (fun st hst => hok st (List.mem_cons_of_mem _ hst)) hrest
    rwa [List.append_assoc] at hall

end Invariants

end LocalDataPlatform.Pipeline

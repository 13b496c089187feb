import LocalDataPlatform.Pipeline.Oltp

/-!
# What the source keeps consistent, staging may not

`validate_relationships` joins four polled tables, which never forget a row, with customers that CDC
also deletes.  Once the source is quiet and everything has been extracted, only rows that were deleted
after they were staged can break a relationship.

* `Extracts` — an incremental run reads the bound of a table and commits its rows.
* `CustomersApplied` — Silver has applied every change of the customers.
* `GhostsResolve` — the staged rows without a source row refer to rows that are still there.

Principal results: `CoversSource.run` (what all four extracts leave), `relationships_valid_iff`.
-/

set_option autoImplicit false

namespace LocalDataPlatform.Pipeline

open Relational Sales

variable {day : Instant → Int} {s s' : State} {action : Action} {t : TableName}

/-! ## Extracts of a quiet source -/

/-- The attempts of the extract that are still running have read a bound above every source row. -/
def BoundCovers (s : State) (t : TableName) : Prop :=
  ∀ lower upper, s.Reading .incremental t lower upper → ∀ row ∈ (s.source t).rows, updatedAt t row ≤ upper

/-- The cursor is above every source row. -/
def CoversSource (s : State) (t : TableName) : Prop :=
  ∀ row ∈ (s.source t).rows, updatedAt t row ≤ (s.watermarks t).reached

/-- A bound that is read is above every source row. -/
theorem le_of_extractWindow {w : Watermark} {table : Table (Row t) (key t)} {lower upper : Instant}
    (h : extractWindow .incremental t table w = some (lower, upper)) :
    ∀ row ∈ table.rows, updatedAt t row ≤ upper := by
  cases h
  exact fun row hrow => le_highWater hrow

theorem BoundCovers.move (h : BoundCovers s t) (hlayered : LayeredRuns s) (hmove : Move day s action s')
    (haction : action.OfPipeline) : BoundCovers s' t := by
  intro lower upper hr
  rw [hmove.source_eq haction]
  rcases hmove.reading hlayered hr with hr | ⟨-, -, hwindow⟩
  · exact h lower upper hr
  · exact le_of_extractWindow hwindow

/-- A starting extract reads a bound above every source row. -/
theorem boundCovers_start (hlayered : LayeredRuns s) (hmove : Move day s (.start (.extract t)) s') :
    BoundCovers s' t := by
  intro lower upper hr
  rw [hmove.source_eq trivial]
  rcases hmove.reading hlayered hr with hr | ⟨-, -, hwindow⟩
  · -- the task was idle
    obtain ⟨run, hrun, -, hreading⟩ := hr
    cases hmove with
    | start hrun' hidle _ =>
      rw [hrun] at hrun'
      cases hrun'
      rw [hreading] at hidle
      cases hidle
  · exact le_of_extractWindow hwindow

theorem CoversSource.move (h : CoversSource s t) (hmove : Move day s action s')
    (haction : action.OfPipeline) : CoversSource s' t := by
  unfold CoversSource
  rw [hmove.source_eq haction]
  intro row hrow
  rcases hmove.reached t with he | ⟨_, _, _, he⟩
  · rw [he]
    exact h row hrow
  · rw [he]
    exact le_max_of_le_left (h row hrow)

/-- The commit of an incremental extract raises the cursor above what its bound covers. -/
theorem coversSource_upsert {now : Instant} {outcome : Outcome} {run : Run} (h : BoundCovers s t)
    (hrun : s.run = some run) (hmode : run.mode = .incremental)
    (hmove : Move day s (.upsert t now outcome) s') : CoversSource s' t := by
  cases hmove with
  | @upsert run' _ lower upper _ _ hrun' hstate _ =>
    rw [hrun] at hrun'
    cases hrun'
    intro row hrow
    change _ ≤ (Function.update s.watermarks t _ t).reached
    rw [Function.update_self, hmode, reached_raiseCandidate]
    exact le_max_of_le_right (h lower upper ⟨run, hrun, hmode, hstate⟩ row hrow)

/-- Steps of the pipeline alone. -/
structure PipelineRun (day : Instant → Int) (s : State) (actions : List Action) (s' : State) : Prop where
  run : actions.foldlM (step day) s = some s'
  pipeline : ∀ action ∈ actions, action.OfPipeline

/-- Within the actions, an extract of an incremental run reads the bound of the table and commits. -/
def Extracts (day : Instant → Int) (s : State) (actions : List Action) (t : TableName) : Prop :=
  ∃ before between after now s₁ run,
    actions = (before ++ .start (.extract t) :: between) ++ .upsert t now .succeeded :: after ∧
    (before ++ .start (.extract t) :: between).foldlM (step day) s = some s₁ ∧
    s₁.run = some run ∧ run.mode = .incremental

/-- **What every step preserves, a run of the pipeline preserves.** -/
theorem PipelineRun.induct {P : State → Prop}
    (hstep : ∀ s action s', P s → action.OfPipeline → step day s action = some s' → P s') :
    ∀ {actions : List Action} {s s' : State}, PipelineRun day s actions s' → P s → P s'
  | [], s, s', h, hs => Option.some.inj h.run ▸ hs
  | action :: actions, s, s', h, hs => by
    have hrun := h.run
    rw [List.foldlM_cons] at hrun
    obtain ⟨s₁, hone, hrest⟩ := Option.bind_eq_some_iff.mp hrun
    have hs₁ := hstep s action s₁ hs (h.pipeline action List.mem_cons_self) hone
    exact PipelineRun.induct hstep ⟨hrest, fun a ha => h.pipeline a (List.mem_cons_of_mem _ ha)⟩ hs₁

/-- A run is taken apart at a list of its actions. -/
theorem PipelineRun.append {before after : List Action} (h : PipelineRun day s (before ++ after) s') :
    ∃ s₁, PipelineRun day s before s₁ ∧ PipelineRun day s₁ after s' := by
  have hrun := h.run
  rw [List.foldlM_append] at hrun
  obtain ⟨s₁, hbefore, hafter⟩ := Option.bind_eq_some_iff.mp hrun
  exact ⟨s₁, ⟨hbefore, fun a ha => h.pipeline a (List.mem_append_left _ ha)⟩,
    ⟨hafter, fun a ha => h.pipeline a (List.mem_append_right _ ha)⟩⟩

/-- A run is taken apart at its first action. -/
theorem PipelineRun.cons {actions : List Action} (h : PipelineRun day s (action :: actions) s') :
    ∃ s₁, Move day s action s₁ ∧ PipelineRun day s₁ actions s' := by
  have hrun := h.run
  rw [List.foldlM_cons] at hrun
  obtain ⟨s₁, hone, hrest⟩ := Option.bind_eq_some_iff.mp hrun
  exact ⟨s₁, move_of_step hone, ⟨hrest, fun a ha => h.pipeline a (List.mem_cons_of_mem _ ha)⟩⟩

/-- **After an extract of a quiet source the cursor is above every row of the table.** -/
theorem CoversSource.run {actions : List Action} (hlayered : LayeredRuns s)
    (h : PipelineRun day s actions s') (hextracts : Extracts day s actions t) : CoversSource s' t := by
  obtain ⟨before, between, after, now, s₂, run, rfl, hfirst, hrun, hmode⟩ := hextracts
  obtain ⟨s₂', hread, hrest⟩ := h.append
  cases hread.run.symm.trans hfirst
  obtain ⟨s₀, hbefore, hstarted⟩ := hread.append
  obtain ⟨s₁, hstart, hbetween⟩ := hstarted.cons
  have hlayered₀ : LayeredRuns s₀ :=
    hbefore.induct (fun s action s' hs _ hstep => hs.move (move_of_step hstep)) hlayered
  have hcovers : LayeredRuns s₂ ∧ BoundCovers s₂ t := by
    refine hbetween.induct (P := fun s => LayeredRuns s ∧ BoundCovers s t) ?_
      ⟨hlayered₀.move hstart, boundCovers_start hlayered₀ hstart⟩
    intro s action s' hs haction hstep
    have hmove := move_of_step hstep
    exact ⟨hs.1.move hmove, hs.2.move hs.1 hmove haction⟩
  obtain ⟨s₃, hupsert, hafter⟩ := hrest.cons
  have hdone : CoversSource s₃ t := coversSource_upsert hcovers.2 hrun hmode hupsert
  exact hafter.induct (P := fun s => CoversSource s t)
    (fun _ _ _ hs haction hstep => hs.move (move_of_step hstep) haction) hdone

/-! ## The relationships -/

/-- Silver has applied every change of the customers, from a snapshot of the table on, and the pipeline
reads the customers it shows. -/
def CustomersApplied (ops : List Cdc.SourceOp) (customers : List Uuid) : Prop :=
  ∃ before after logs c, ops = before ++ after ∧
    Nonempty (Cdc.Delivers (Cdc.changes (Cdc.finalTable Table.empty before) after) logs) ∧
    Cdc.Reachable logs c ∧ (∀ p, ∀ m ∈ logs.records p, m ∈ c.delivered) ∧
    customers = (Cdc.customersCurrent c.store.silver).map Cdc.Customer.customerId

/-- The staged rows that were deleted from the source refer to rows that are still there. -/
structure GhostsResolve (db : Oltp) (st : Staging) : Prop where
  orders : ∀ o ∈ st.orders.rows, (db.tables .orders).find? o.row.order_id = none →
    (db.customers.find? o.row.customer_id).isSome
  order_items : ∀ i ∈ st.order_items.rows, (db.tables .order_items).find? i.row.order_item_id = none →
    (st.orders.find? i.row.order_id).isSome ∧ (st.products.find? i.row.product_id).isSome
  payments : ∀ p ∈ st.payments.rows, (db.tables .payments).find? p.row.payment_id = none →
    (st.orders.find? p.row.order_id).isSome

instance (db : Oltp) (st : Staging) : Decidable (GhostsResolve db st) :=
  decidable_of_iff ((∀ o ∈ st.orders.rows, (db.tables .orders).find? o.row.order_id = none →
        (db.customers.find? o.row.customer_id).isSome) ∧
      (∀ i ∈ st.order_items.rows, (db.tables .order_items).find? i.row.order_item_id = none →
        (st.orders.find? i.row.order_id).isSome ∧ (st.products.find? i.row.product_id).isSome) ∧
      ∀ p ∈ st.payments.rows, (db.tables .payments).find? p.row.payment_id = none →
        (st.orders.find? p.row.order_id).isSome)
    ⟨fun ⟨h₁, h₂, h₃⟩ => ⟨h₁, h₂, h₃⟩, fun ⟨h₁, h₂, h₃⟩ => ⟨h₁, h₂, h₃⟩⟩

/-- Staging holds the current values of every source row. -/
def HoldsSource (db : Oltp) (st : Staging) : Prop :=
  ∀ t, ∀ row ∈ (db.tables t).rows, ∃ loaded_at, (staged st t).find? (key t row) = some ⟨row, loaded_at⟩

section Relationships

variable {ops : List Cdc.SourceOp} {db : Oltp} {st : Staging} {customers : List Uuid} {bounds : Bounds}

/-- **Once every change is applied, the customers are those of the source.** -/
theorem CustomersApplied.mem_iff (h : CustomersApplied ops customers)
    (hdb : db.customers = Cdc.finalTable Table.empty ops) (id : Uuid) :
    id ∈ customers ↔ (db.customers.find? id).isSome := by
  obtain ⟨before, after, logs, c, rfl, ⟨hdelivers⟩, hreach, hall, rfl⟩ := h
  have hfinal : Cdc.finalTable (Cdc.finalTable Table.empty before) after = db.customers := by
    rw [hdb]
    exact (List.foldl_append ..).symm
  rw [← hfinal, ← Cdc.lookup_customersCurrent_source hdelivers hreach hall id, lookup_isSome,
    List.mem_map]

/-- A staged row is the source row of its key, or the source has none. -/
theorem HoldsSource.row_eq (h : HoldsSource db st) {r : Staged (Row t)} (hr : r ∈ (staged st t).rows) :
    r.row ∈ (db.tables t).rows ∨ (db.tables t).find? (key t r.row) = none := by
  cases hfind : (db.tables t).find? (key t r.row) with
  | none => exact Or.inr rfl
  | some row =>
    obtain ⟨hmem, hkey⟩ := Table.find?_eq_some.mp hfind
    obtain ⟨loaded_at, hstaged⟩ := h t row hmem
    have hself : (staged st t).find? (key t row) = some r := Table.find?_eq_some.mpr ⟨hr, hkey.symm⟩
    rw [hself] at hstaged
    cases hstaged
    exact Or.inl hmem

/-- What is in the source is in staging. -/
theorem HoldsSource.isSome (h : HoldsSource db st) {id : Uuid} (hid : ((db.tables t).find? id).isSome) :
    ((staged st t).find? id).isSome := by
  obtain ⟨row, hfind⟩ := Option.isSome_iff_exists.mp hid
  obtain ⟨hmem, rfl⟩ := Table.find?_eq_some.mp hfind
  obtain ⟨loaded_at, hstaged⟩ := h t row hmem
  rw [hstaged]
  rfl

/-- **Staging that holds the source passes the check as far as its ghosts do.** -/
theorem HoldsSource.relationships_iff (h : HoldsSource db st)
    (hcustomers : ∀ id, id ∈ customers ↔ (db.customers.find? id).isSome) :
    RelationshipsValid customers st ↔ GhostsResolve db st := by
  constructor
  · intro hvalid
    refine ⟨fun o ho _ => ?_, fun i hi _ => ⟨?_, ?_⟩, fun p hp _ => ?_⟩
    · exact (hcustomers _).mp (hvalid.orders_without_customer o ho)
    · exact hvalid.order_items_without_order i hi
    · exact hvalid.order_items_without_product i hi
    · exact hvalid.payments_without_order p hp
  · intro hghosts
    refine ⟨fun o ho => ?_, fun i hi => ?_, fun i hi => ?_, fun p hp => ?_⟩
    · rw [hcustomers]
      rcases h.row_eq (t := .orders) ho with hrow | hnone
      · exact db.foreign_keys.orders_customer_fk _ hrow
      · exact hghosts.orders o ho hnone
    · rcases h.row_eq (t := .order_items) hi with hrow | hnone
      · exact h.isSome (t := .orders) (db.foreign_keys.order_items_order_fk _ hrow)
      · exact (hghosts.order_items i hi hnone).1
    · rcases h.row_eq (t := .order_items) hi with hrow | hnone
      · exact h.isSome (t := .products) (db.foreign_keys.order_items_product_fk _ hrow)
      · exact (hghosts.order_items i hi hnone).2
    · rcases h.row_eq (t := .payments) hp with hrow | hnone
      · exact h.isSome (t := .orders) (db.foreign_keys.payments_order_id_fk _ hrow)
      · exact hghosts.payments p hp hnone

/-- A run of the pipeline continues a history. -/
theorem OltpHistory.pipelineRun {ok : Bounds → Source → Source → Prop} {actions : List Action}
    (h : OltpHistory day ok bounds ops db s) (hrun : PipelineRun day s actions s') :
    ∃ bounds', OltpHistory day ok bounds' ops db s' :=
  hrun.induct (P := fun s => ∃ bounds', OltpHistory day ok bounds' ops db s)
    (fun _ _ _ hs haction hstep => hs.imp' _ fun _ hs => hs.pipeline haction hstep) ⟨bounds, h⟩

/-- The extracts of all four tables leave the source in staging. -/
theorem OltpHistory.holdsSource {actions : List Action}
    (h : OltpHistory day NewRowsFresh bounds ops db s) (hrun : PipelineRun day s actions s')
    (hextracts : ∀ t, Extracts day s actions t) : HoldsSource db s'.staging := by
  obtain ⟨bounds', hend⟩ := h.pipelineRun hrun
  intro t row hrow
  rw [← hend.source_eq] at hrow
  have hcovers : CoversSource s' t := CoversSource.run h.layered hrun (hextracts t)
  obtain ⟨r, hr, rfl⟩ := Option.map_eq_some_iff.mp (hend.cursorInv.carries t row hrow (hcovers row hrow))
  exact ⟨r.loaded_at, hr⟩

/-- **A consistent source passes the check as far as deleted rows do.**  Without late rows, once the
source is quiet, Silver has applied every change of the customers and each table has been extracted,
`validate_relationships` succeeds exactly if the staged rows that were deleted from the source refer to
rows that are still there. -/
theorem relationships_valid_iff {actions : List Action}
    (h : OltpHistory day NewRowsFresh bounds ops db s) (hrun : PipelineRun day s actions s')
    (hextracts : ∀ t, Extracts day s actions t) (hcustomers : CustomersApplied ops s'.customers) :
    RelationshipsValid s'.customers s'.staging ↔ GhostsResolve db s'.staging :=
  (h.holdsSource hrun hextracts).relationships_iff (hcustomers.mem_iff h.customers_eq)

end Relationships

/-! ## An item that was staged before its product was deleted -/

/-- The customer that was created, deleted and created again. -/
theorem customersApplied_sample : CustomersApplied Cdc.sampleHistory [7] := by
  have hread : ∀ m ∈ Cdc.historyRecords, Cdc.Readable m := by
    intro m hm
    obtain ⟨c, hc, hpub⟩ := Cdc.exists_of_forall₂ Cdc.historyRecords_publish hm
    exact (hpub.customerRecord (Cdc.changes_complete c hc)).readable
  have hrunning : Cdc.Reachable Cdc.historyLogs
      ⟨Cdc.Store.empty, fun _ => none, [], .running (fun _ => none)⟩ :=
    Relation.ReflTransGen.refl.tail (Cdc.Step.start _ rfl)
  obtain ⟨c, hc, -, -, hdelivered⟩ :=
    Cdc.reachable_commit hrunning rfl Cdc.historyRecords_polled hread
  have hall : ∀ p, ∀ m ∈ Cdc.historyLogs.records p, m ∈ c.delivered := by
    intro p m hm
    rw [hdelivered]
    simp only [Cdc.historyLogs] at hm
    split at hm
    · exact hm
    · cases hm
  have hrows : (Cdc.customersCurrent c.store.silver).Perm [Cdc.sampleCustomer "b@x.org"] :=
    perm_of_lookup_eq (Cdc.customersCurrent_unique _) (List.nodup_singleton _)
      (Cdc.lookup_customersCurrent_source Cdc.historyDelivers hc hall)
  refine ⟨[], Cdc.sampleHistory, Cdc.historyLogs, c, rfl, ⟨Cdc.historyDelivers⟩, hc, hall, ?_⟩
  rw [List.perm_singleton.mp hrows]
  rfl

def sampleProduct (updated_at : Instant) : ProductRow := ⟨5, "Laptop", "Electronics", 2000, 10, updated_at⟩

def sampleItem : OrderItemRow := ⟨1, 1, 5, 1, 2000, 10, 100⟩

/-- The extracts of the four tables. -/
def extractAll : List Action :=
  extractTable .products 2 ++ extractTable .orders 3 ++ extractTable .order_items 4 ++
    extractTable .payments 5

/-- The start of a task and the commit of an extract leave the run in its mode. -/
theorem mode_of_extracts {mode : Mode} : ∀ {actions : List Action} {s s' : State},
    actions.foldlM (step day) s = some s' →
      (∀ a ∈ actions, (∃ task, a = .start task) ∨ ∃ t now, a = .upsert t now .succeeded) →
      (∀ run, s.run = some run → run.mode = mode) → ∀ run, s'.run = some run → run.mode = mode
  | [], s, s', h, _, hmode => Option.some.inj h ▸ hmode
  | action :: actions, s, s', h, hactions, hmode => by
    rw [List.foldlM_cons] at h
    obtain ⟨s₁, hone, hrest⟩ := Option.bind_eq_some_iff.mp h
    refine mode_of_extracts hrest (fun a ha => hactions a (List.mem_cons_of_mem _ ha)) fun run hrun => ?_
    rcases hactions action List.mem_cons_self with ⟨task, rfl⟩ | ⟨t, now, rfl⟩
    · cases move_of_step hone with
      | start hrun' _ _ =>
        have hold := hmode _ hrun'
        cases hrun
        exact hold
    · cases move_of_step hone with
      | upsert hrun' _ _ =>
        have hold := hmode _ hrun'
        cases hrun
        exact hold

/-- In an incremental run they extract every table. -/
theorem extracts_extractAll (h : extractAll.foldlM (step day) s = some s')
    (hmode : ∀ run, s.run = some run → run.mode = .incremental) (t : TableName) :
    Extracts day s extractAll t := by
  have hsplit : ∃ before now after,
      extractAll = (before ++ .start (.extract t) :: []) ++ .upsert t now .succeeded :: after := by
    cases t with
    | products => exact ⟨[], 2, _, rfl⟩
    | orders => exact ⟨extractTable .products 2, 3, _, rfl⟩
    | order_items => exact ⟨extractTable .products 2 ++ extractTable .orders 3, 4, _, rfl⟩
    | payments =>
      exact ⟨extractTable .products 2 ++ extractTable .orders 3 ++ extractTable .order_items 4, 5, _, rfl⟩
  have hactions : ∀ a ∈ extractAll, (∃ task, a = .start task) ∨ ∃ t now, a = .upsert t now .succeeded := by
    intro a ha
    fin_cases ha <;> simp
  obtain ⟨before, now, after, he⟩ := hsplit
  rw [he, List.foldlM_append] at h
  obtain ⟨s₁, hbefore, hrest⟩ := Option.bind_eq_some_iff.mp h
  rw [List.foldlM_cons] at hrest
  obtain ⟨s₂, hupsert, -⟩ := Option.bind_eq_some_iff.mp hrest
  cases move_of_step hupsert with
  | @upsert run _ _ _ _ _ hrun _ _ =>
    refine ⟨before, [], after, now, s₁, run, he, hbefore, hrun, ?_⟩
    refine mode_of_extracts hbefore (fun a ha => hactions a ?_) hmode run hrun
    rw [he]
    exact List.mem_append_left _ ha

/-- The customer, one product, one order and one item. -/
def loadStatements (updated_at : Instant) : List Statement :=
  Cdc.sampleHistory.map .customer ++ [.put .products (sampleProduct updated_at),
    .put .orders (sampleOrder 100 "pending"), .put .order_items sampleItem]

/-- The item is staged, by an attempt whose success is not acknowledged. -/
def stageItem : List Action :=
  beginRun ++ [.changeCustomers [7], .start (.extract .order_items), .upsert .order_items 1 .retried]

theorem ofPipeline_extractAll : ∀ action ∈ extractAll, action.OfPipeline := by
  intro action haction
  fin_cases haction <;> trivial

theorem ofPipeline_stageItem : ∀ action ∈ stageItem, action.OfPipeline := by
  intro action haction
  fin_cases haction <;> trivial

/-- The loaded rows are fresh before any extract when they are after the epoch. -/
theorem fresh_loadStatements {updated_at : Instant} (h : 0 < updated_at) :
    ∀ statement ∈ loadStatements updated_at, ∀ tables,
      NewRowsFresh (fun _ => []) tables (statement.tables tables) := by
  intro statement hstatement tables
  have hstamp : ∀ t row, statement = .put t row → 0 < updatedAt t row := by
    intro t row he
    fin_cases hstatement <;> cases he
    · exact h
    · exact (by decide : (0 : Instant) < 100)
    · exact (by decide : (0 : Instant) < 100)
  exact newRowsFresh_statement fun t row he =>
    ⟨hstamp t row he, fun b hb => absurd hb List.not_mem_nil⟩

/-- A delete shows no new row version. -/
theorem fresh_delete {bounds : Bounds} {t : TableName} {id : Uuid} :
    ∀ statement ∈ [Statement.delete t id], ∀ tables,
      NewRowsFresh bounds tables (statement.tables tables) := by
  intro statement hstatement tables
  rw [List.mem_singleton.mp hstatement]
  exact newRowsFresh_statement nofun

/-- The load, an attempt that stages the item, a delete, and the extracts of the four tables. -/
theorem exists_staged_deleted (t : TableName) (id : Uuid) {db db' : Oltp} {s₁ s₂ : State}
    (hload : (loadStatements 100).foldlM Oltp.execute Oltp.empty = some db)
    (hstage : stageItem.foldlM (step toDate) { State.initial with source := db.tables } = some s₁)
    (hdelete : db.execute (.delete t id) = some db')
    (hextract : extractAll.foldlM (step toDate) { s₁ with source := db'.tables } = some s₂) :
    ∃ bounds, OltpHistory toDate NewRowsFresh bounds Cdc.sampleHistory db' { s₁ with source := db'.tables } ∧
      PipelineRun toDate { s₁ with source := db'.tables } extractAll s₂ := by
  have hloaded := (@OltpHistory.initial toDate NewRowsFresh).executeAll
    (fresh_loadStatements (by decide)) hload
  obtain ⟨bounds, hstaged⟩ := hloaded.pipelineRun ⟨hstage, ofPipeline_stageItem⟩
  have hdeleted := hstaged.executeAll fresh_delete
    (show [Statement.delete t id].foldlM Oltp.execute db = some db' by rw [List.foldlM_cons, hdelete]; rfl)
  exact ⟨bounds, hdeleted, hextract, ofPipeline_extractAll⟩

/-- The item alone is deleted: its ghost refers to a product and an order that are in staging. -/
theorem relationships_valid_iff_deleted : ∃ s : State, (s.source .order_items).rows = [] ∧
    s.staging.order_items.rows = [⟨sampleItem, 1⟩] ∧ RelationshipsValid s.customers s.staging := by
  obtain ⟨bounds, hhistory, hrun⟩ := exists_staged_deleted .order_items 1 rfl rfl rfl rfl
  have hextracts := extracts_extractAll hrun.run fun run h => Option.some.inj h ▸ rfl
  have hiff := relationships_valid_iff hhistory hrun hextracts customersApplied_sample
  refine ⟨_, ?_, ?_, hiff.mpr ?_⟩
  · rfl
  · rfl
  · decide

/-- Its product is deleted with it: the ghost has no product any more. -/
theorem relationships_blocked_by_delete : ∃ bounds ops db s actions s',
    OltpHistory toDate NewRowsFresh bounds ops db s ∧ PipelineRun toDate s actions s' ∧
      (∀ t, Extracts toDate s actions t) ∧ CustomersApplied ops s'.customers ∧
      ¬ RelationshipsValid s'.customers s'.staging := by
  obtain ⟨bounds, hhistory, hrun⟩ := exists_staged_deleted .products 5 rfl rfl rfl rfl
  have hextracts := extracts_extractAll hrun.run fun run h => Option.some.inj h ▸ rfl
  exact ⟨bounds, _, _, _, _, _, hhistory, hrun, hextracts, customersApplied_sample, by decide⟩

/-- The load with a product that is not after the epoch, and the extracts. -/
theorem exists_staged_late {db : Oltp} {s₁ s₂ : State}
    (hload : (loadStatements 0).foldlM Oltp.execute Oltp.empty = some db)
    (hstage : stageItem.foldlM (step toDate) { State.initial with source := db.tables } = some s₁)
    (hextract : extractAll.foldlM (step toDate) s₁ = some s₂) :
    ∃ bounds, OltpHistory toDate (fun _ _ _ => True) bounds Cdc.sampleHistory db s₁ ∧
      PipelineRun toDate s₁ extractAll s₂ := by
  have hloaded := (@OltpHistory.initial toDate (fun _ _ _ => True)).executeAll (fun _ _ _ => trivial) hload
  obtain ⟨bounds, hstaged⟩ := hloaded.pipelineRun ⟨hstage, ofPipeline_stageItem⟩
  exact ⟨bounds, hstaged, hextract, ofPipeline_extractAll⟩

/-- The product is never extracted, its item is. -/
theorem relationships_blocked_by_late_row : ∃ bounds ops db s actions s',
    OltpHistory toDate (fun _ _ _ => True) bounds ops db s ∧ PipelineRun toDate s actions s' ∧
      (∀ t, Extracts toDate s actions t) ∧ CustomersApplied ops s'.customers ∧
      GhostsResolve db s'.staging ∧ ¬ RelationshipsValid s'.customers s'.staging := by
  obtain ⟨bounds, hhistory, hrun⟩ := exists_staged_late rfl rfl rfl
  have hextracts := extracts_extractAll hrun.run fun run h => Option.some.inj h ▸ rfl
  exact ⟨bounds, _, _, _, _, _, hhistory, hrun, hextracts, customersApplied_sample, by decide, by decide⟩

/-- **A consistent source can block the pipeline**: by a deleted row that was staged before, and by a row
that became visible below the cursor. -/
theorem relationships_blocked :
    (∃ bounds ops db s actions s', OltpHistory toDate NewRowsFresh bounds ops db s ∧
      PipelineRun toDate s actions s' ∧ (∀ t, Extracts toDate s actions t) ∧
      CustomersApplied ops s'.customers ∧ ¬ RelationshipsValid s'.customers s'.staging) ∧
    ∃ bounds ops db s actions s', OltpHistory toDate (fun _ _ _ => True) bounds ops db s ∧
      PipelineRun toDate s actions s' ∧ (∀ t, Extracts toDate s actions t) ∧
      CustomersApplied ops s'.customers ∧ GhostsResolve db s'.staging ∧
      ¬ RelationshipsValid s'.customers s'.staging :=
  ⟨relationships_blocked_by_delete, relationships_blocked_by_late_row⟩

end LocalDataPlatform.Pipeline

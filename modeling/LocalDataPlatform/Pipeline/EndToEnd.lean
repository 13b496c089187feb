import LocalDataPlatform.Pipeline.DirectSales
import LocalDataPlatform.Pipeline.LatestRun
import LocalDataPlatform.Pipeline.Refresh
import LocalDataPlatform.Pipeline.Relationships

/-!
# From the source to the marts

A source that only grows: rows come and change, none goes, an order keeps its date and an item or a
payment its order.  Over such a source the incremental pipeline gives what a full rebuild would.

* `anchor`, `Grows` — the columns a source never changes, and a source that keeps its rows.
* `GrowingHistory` — statements on such a source and steps of the pipeline, in any order; a failed run is
  cleared only while it is the last one.
* `Anchored`, `SoldIn` — staging and the facts agree with the source on the anchors.
* `Settled` — `daily_sales` was built from the facts as they are.

Principal results: `GrowingHistory.inv` (what every history keeps), `batch_exact` (once the cursors cover
the source and the sinks of a run have succeeded, staging is the source, both sales tables are its sales
and `daily_sales` its group-by).
-/

set_option autoImplicit false

namespace LocalDataPlatform.Pipeline

open Relational Sales

/-! ## A source that only grows -/

/-- What never changes of a row: the date of an order, the order of an item or a payment. -/
def anchor : (t : TableName) → Row t → Uuid × Instant
  | .products, _ => (0, 0)
  | .orders, o => (0, o.order_date)
  | .order_items, i => (i.order_id, 0)
  | .payments, p => (p.order_id, 0)

/-- The row has a row of the source under its key, with the same anchor. -/
def AnchoredIn (tables : Source) (t : TableName) (row : Row t) : Prop :=
  ∃ row' ∈ (tables t).rows, key t row' = key t row ∧ anchor t row' = anchor t row

/-- No row goes, and none changes its anchor. -/
def Grows (tables tables' : Source) : Prop := ∀ t, ∀ row ∈ (tables t).rows, AnchoredIn tables' t row

/-- Every staged row has its source row. -/
def Anchored (tables : Source) (st : Staging) : Prop :=
  ∀ t, ∀ r ∈ (staged st t).rows, AnchoredIn tables t r.row

/-- The line is that of an item of the source, on the date of its order. -/
def SoldIn (tables : Source) (line : SalesItem) : Prop :=
  ∃ item ∈ (tables .order_items).rows, ∃ order ∈ (tables .orders).rows,
    item.order_item_id = line.order_item_id ∧ item.order_id = order.order_id ∧
      order.order_date = line.order_date

section Anchors

variable {tables tables' : Source} {st st' : Staging} {t : TableName} {line line' : SalesItem}

theorem AnchoredIn.self {row : Row t} (h : row ∈ (tables t).rows) : AnchoredIn tables t row := ⟨row, h, rfl, rfl⟩

theorem AnchoredIn.grows {row : Row t} (h : AnchoredIn tables t row) (hgrows : Grows tables tables') :
    AnchoredIn tables' t row := by
  obtain ⟨row', hrow', hkey, hanchor⟩ := h
  obtain ⟨row'', hrow'', hkey', hanchor'⟩ := hgrows t row' hrow'
  exact ⟨row'', hrow'', hkey'.trans hkey, hanchor'.trans hanchor⟩

/-- Rows under one key have one anchor. -/
theorem AnchoredIn.anchor_eq {row row' : Row t} (h : AnchoredIn tables t row) (h' : AnchoredIn tables t row')
    (hkey : key t row = key t row') : anchor t row = anchor t row' := by
  obtain ⟨r, hr, hk, ha⟩ := h
  obtain ⟨r', hr', hk', ha'⟩ := h'
  have hsame : r = r' := (tables t).unique.eq_of_key hr hr' ((hk.trans hkey).trans hk'.symm)
  rw [← ha, ← ha', hsame]

theorem Anchored.grows (h : Anchored tables st) (hgrows : Grows tables tables') : Anchored tables' st :=
  fun t r hr => (h t r hr).grows hgrows

theorem SoldIn.grows (h : SoldIn tables line) (hgrows : Grows tables tables') : SoldIn tables' line := by
  obtain ⟨item, hitem, order, horder, hid, hof, hdate⟩ := h
  obtain ⟨item', hitem', hkey, hanchor⟩ := hgrows .order_items item hitem
  obtain ⟨order', horder', hkey', hanchor'⟩ := hgrows .orders order horder
  have hof' : item'.order_id = item.order_id := congrArg Prod.fst hanchor
  have hdate' : order'.order_date = order.order_date := congrArg Prod.snd hanchor'
  exact ⟨item', hitem', order', horder', hkey.trans hid, (hof'.trans hof).trans hkey'.symm, hdate'.trans hdate⟩

/-- An item is sold on one date. -/
theorem SoldIn.order_date_eq (h : SoldIn tables line) (h' : SoldIn tables line')
    (hid : line.order_item_id = line'.order_item_id) : line.order_date = line'.order_date := by
  obtain ⟨item, hitem, order, horder, hi, ho, hd⟩ := h
  obtain ⟨item', hitem', order', horder', hi', ho', hd'⟩ := h'
  have hitems : item = item' :=
    (tables .order_items).unique.eq_of_key hitem hitem' ((hi.trans hid).trans hi'.symm)
  subst hitems
  have horders : order = order' := (tables .orders).unique.eq_of_key horder horder' (ho.symm.trans ho')
  rw [← hd, ← hd', horders]

/-- The lines of the join are sold in the source. -/
theorem Anchored.soldIn (h : Anchored tables st) (hline : line ∈ st.salesRows) : SoldIn tables line := by
  obtain ⟨item, hitem, order, horder, rfl⟩ := mem_salesRows.mp hline
  obtain ⟨horder, hkey⟩ := Table.find?_eq_some.mp horder
  obtain ⟨item', hitem', hk, ha⟩ := h .order_items item hitem
  obtain ⟨order', horder', hk', ha'⟩ := h .orders order horder
  have hof : item'.order_id = item.row.order_id := congrArg Prod.fst ha
  have hdate : order'.order_date = order.row.order_date := congrArg Prod.snd ha'
  exact ⟨item', hitem', order', horder', hk, (hof.trans hkey.symm).trans hk'.symm, hdate⟩

/-- Payments that agree with the source stay with their order. -/
theorem Anchored.paymentsKeepOrder (h : Anchored tables st) (h' : Anchored tables st') :
    PaymentsKeepOrder st st' := by
  rw [paymentsKeepOrder_iff]
  intro p hp p' hp' hid
  have hanchor := (h' .payments p' hp').anchor_eq (h .payments p hp) hid
  exact congrArg Prod.fst hanchor

/-- A load takes its rows from the source. -/
theorem Anchored.load (h : Anchored tables st) {now : Instant} {batch : Table (Row t) (key t)}
    (hbatch : ∀ row ∈ batch.rows, row ∈ (tables t).rows) : Anchored tables (loadTable st now t batch) := by
  intro t' r hr
  by_cases ht : t' = t
  · subst ht
    rw [staged_loadTable] at hr
    rcases mem_load hr with hold | ⟨-, hnew⟩
    · exact h t' r hold
    · exact AnchoredIn.self (hbatch r.row hnew)
  · rw [staged_loadTable_of_ne ht] at hr
    exact h t' r hr

end Anchors

/-! ## Histories -/

section History

variable (day : Instant → Int) (ok : Bounds → Source → Source → Prop)

/-- Statements that let the source grow, and steps of the pipeline; a failed run is cleared only while it is
the last one, and `ok` says which changes of the tables are allowed besides. -/
inductive GrowingHistory : Bounds → List Cdc.SourceOp → Oltp → State → Prop
  | initial : GrowingHistory (fun _ => []) [] Oltp.empty State.initial
  | execute {bounds : Bounds} {ops : List Cdc.SourceOp} {db db' : Oltp} {s : State} {statement : Statement}
      (h : GrowingHistory bounds ops db s) (hexecute : db.execute statement = some db')
      (hok : ok bounds db.tables db'.tables) (hgrows : Grows db.tables db'.tables) :
      GrowingHistory bounds (ops ++ statement.customerOps) db' { s with source := db'.tables }
  | pipeline {bounds : Bounds} {ops : List Cdc.SourceOp} {db : Oltp} {s s' : State} {action : Action}
      (h : GrowingHistory bounds ops db s) (haction : action.OfPipeline)
      (hclear : ∀ index task run, action = .clear index task → s.failed[index]? = some run →
        run.id + 1 = s.triggered)
      (hstep : step day s action = some s') : GrowingHistory (bounds.after s action) ops db s'

end History

/-- `daily_sales` was built from the facts as they are. -/
def Settled (s : State) : Prop := ∃ facts daily, s.marts = ⟨some facts, some daily, facts⟩

/-- What a history keeps. -/
structure GrowingInv (day : Instant → Int) (tables : Source) (s : State) : Prop where
  anchored : Anchored tables s.staging
  facts : ∀ f ∈ s.facts, SoldIn tables f.toSalesItem
  built_facts : ∀ f ∈ s.marts.built, SoldIn tables f.toSalesItem
  built : Built day (LeftDatesRemembered day) s.marts
  refresh : RefreshInv s
  dbt : LatestDone .run_dbt_transform Settled s
  runIds : RunIds s

section Steps

variable {day : Instant → Int} {tables tables' : Source} {s s' : State} {action : Action}

/-- What an attempt of the dbt task is, and what it leaves of the marts. -/
structure DbtAttempt (day : Instant → Int) (s s' : State) (b : Build) (outcome : Outcome) : Prop where
  running : ¬ s.Rests .run_dbt_transform
  view : s.staging.intSalesOrderItems = some b.view
  completes : outcome = .succeeded → Sales.completes day s.marts b = true
  marts : s'.marts = next day s.marts b

/-- Only an attempt of the dbt task touches the marts. -/
theorem Move.marts (hmove : Move day s action s') :
    s'.marts = s.marts ∨ ∃ b outcome, DbtAttempt day s s' b outcome := by
  cases hmove with
  | @dbtBuild run snapshot view versions stops outcome hrun hstate hview hout =>
    exact Or.inr ⟨⟨versions, view, stops⟩, outcome, fun h => h run _ hrun hstate, hview, hout, rfl⟩
  | _ => exact Or.inl rfl

/-- A task that goes on running has not succeeded. -/
theorem Run.set_running_not_succeeded {run : Run} {task task' : Task} {state : TaskState} {attempt : Attempt}
    (hrunning : run.state task = .running attempt) (hne : task ≠ task') :
    (run.set task' state).state task ≠ .succeeded := by
  rw [Run.set_state_of_ne hne, hrunning]
  exact nofun

/-- **The dbt task succeeds by a build that completes.** -/
theorem Move.dbt_succeeded (hmove : Move day s action s') {run run' : Run} {attempt : Attempt}
    (hrun : s.run = some run) (hrunning : run.state .run_dbt_transform = .running attempt)
    (hrun' : s'.run = some run') (hs : run'.state .run_dbt_transform = .succeeded) :
    ∃ b, Sales.completes day s.marts b = true ∧ s'.marts = next day s.marts b := by
  cases hmove with
  | @dbtBuild run₀ snapshot view versions stops outcome hrun₀ hstate hview hout =>
    cases hrun'
    have hstate' : outcome.state = .succeeded := by rwa [Run.set_state_self] at hs
    exact ⟨_, hout (Outcome.state_succeeded hstate'), rfl⟩
  | changeSource t table => cases hrun.symm.trans hrun'; cases hrunning.symm.trans hs
  | changeCustomers ids => cases hrun.symm.trans hrun'; cases hrunning.symm.trans hs
  | trigger mode hnone => cases hrun.symm.trans hnone
  | @start run₀ task hrun₀ hidle hready =>
    cases hrun.symm.trans hrun₀
    cases hrun'
    have hne : Task.run_dbt_transform ≠ task := by
      rintro rfl
      cases hidle.symm.trans hrunning
    exact absurd hs (Run.set_running_not_succeeded hrunning hne)
  | @crash run₀ task attempt₀ outcome hrun₀ hstate hout =>
    cases hrun.symm.trans hrun₀
    cases hrun'
    by_cases hne : Task.run_dbt_transform = task
    · subst hne
      rw [Run.set_state_self] at hs
      exact absurd (Outcome.state_succeeded hs) hout
    · exact absurd hs (Run.set_running_not_succeeded hrunning hne)
  | close hrun₀ hended => cases hrun'
  | clear hnone hindex hstate => cases hrun.symm.trans hnone
  | validateRunConfig hrun₀ hstate hvalid =>
    cases hrun.symm.trans hrun₀
    cases hrun'
    exact absurd hs (Run.set_running_not_succeeded hrunning nofun)
  | upsert hrun₀ hstate hnow =>
    cases hrun.symm.trans hrun₀
    cases hrun'
    exact absurd hs (Run.set_running_not_succeeded hrunning nofun)
  | validateRecordCount hrun₀ hstate hvalid =>
    cases hrun.symm.trans hrun₀
    cases hrun'
    exact absurd hs (Run.set_running_not_succeeded hrunning nofun)
  | validateRelationships hrun₀ hstate hvalid =>
    cases hrun.symm.trans hrun₀
    cases hrun'
    exact absurd hs (Run.set_running_not_succeeded hrunning nofun)
  | icebergBatch hrun₀ hstate hjob hout =>
    cases hrun.symm.trans hrun₀
    cases hrun'
    exact absurd hs (Run.set_running_not_succeeded hrunning nofun)
  | acknowledge hrun₀ hstate hmem =>
    cases hrun.symm.trans hrun₀
    cases hrun'
    exact absurd hs (Run.set_running_not_succeeded hrunning nofun)
  | flushed hrun₀ hstate =>
    cases hrun.symm.trans hrun₀
    cases hrun'
    exact absurd hs (Run.set_running_not_succeeded hrunning nofun)
  | advance hrun₀ hstate hw =>
    cases hrun.symm.trans hrun₀
    cases hrun'
    exact absurd hs (Run.set_running_not_succeeded hrunning nofun)

/-- What a build leaves are lines it had or lines of the view. -/
theorem mem_next {m : Marts} {b : Build} {f : FactRow}
    (h : f ∈ (next day m b).facts.getD [] ∨ f ∈ (next day m b).built) :
    f ∈ m.facts.getD [] ∨ f ∈ m.built ∨ f.toSalesItem ∈ b.view := by
  rcases next_cases day m b with hn | ⟨facts, hfacts, hn⟩ | ⟨facts, daily, hc, hn⟩
  · rw [hn] at h
    exact h.imp_right Or.inl
  · rw [hn] at h
    rcases h with h | h
    · exact (mem_buildFacts hfacts h).imp_right Or.inr
    · exact Or.inr (Or.inl h)
  · rw [hn] at h
    exact (mem_buildFacts hc.1 (h.elim id id)).imp_right Or.inr

/-- Over a source that keeps its dates no item leaves a date. -/
theorem leftDatesRemembered_of_soldIn {m : Marts} {facts : List FactRow}
    (hbuilt : ∀ f ∈ m.built, SoldIn tables f.toSalesItem) (hfacts : ∀ f ∈ facts, SoldIn tables f.toSalesItem) :
    LeftDatesRemembered day m facts := by
  rintro date ⟨old, hold, hdate, new, hnew, hid, hmoved⟩
  have hsame := (hfacts new hnew).order_date_eq (hbuilt old hold) hid
  exact absurd ((congrArg day hsame).trans hdate) hmoved

theorem GrowingInv.initial : GrowingInv day (fun _ => Table.empty) State.initial where
  anchored t r hr := by cases t <;> cases hr
  facts _ h := absurd h List.not_mem_nil
  built_facts _ h := absurd h List.not_mem_nil
  built := Built.fresh
  refresh := @Reaches.refreshInv day _ Reaches.initial
  dbt := LatestDone.initial _ _
  runIds := ⟨List.nodup_nil, nofun⟩

theorem GrowingInv.execute (h : GrowingInv day tables s) (hgrows : Grows tables tables') :
    GrowingInv day tables' { s with source := tables' } where
  anchored := h.anchored.grows hgrows
  facts f hf := (h.facts f hf).grows hgrows
  built_facts f hf := (h.built_facts f hf).grows hgrows
  built := h.built
  refresh := h.refresh.of_same ⟨rfl, rfl, rfl, rfl⟩
    (fun run hrun => (h.refresh.active run hrun).imp_right fun hl => hl.congr ⟨rfl, rfl, rfl, rfl⟩)
    fun hnone run hrun hid => (h.refresh.failed hnone run hrun hid).congr ⟨rfl, rfl, rfl, rfl⟩
  dbt := ⟨h.dbt.active, h.dbt.failed⟩
  runIds := ⟨h.runIds.nodup, h.runIds.lt⟩

theorem Anchored.move (h : Anchored s.source s.staging) (hmove : Move day s action s') :
    Anchored s.source s'.staging := by
  cases hmove with
  | upsert hrun hstate hnow => exact h.load fun row hrow => List.mem_of_mem_filter hrow
  | _ => exact h

theorem GrowingInv.move (h : GrowingInv day tables s) (hsource : s.source = tables) (hlayered : LayeredRuns s)
    (hmove : Move day s action s')
    (hclear : ∀ index task run, action = .clear index task → s.failed[index]? = some run →
      run.id + 1 = s.triggered) : GrowingInv day tables s' := by
  subst hsource
  have hanchored := h.anchored.move hmove
  have hrefresh : RefreshInv s' :=
    h.refresh.move hlayered h.runIds hmove ⟨hclear, h.anchored.paymentsKeepOrder hanchored⟩
  have hsettled : LatestDone .run_dbt_transform Settled s' := by
    refine h.dbt.move h.runIds hmove hclear (fun hrests hs => ?_) fun run run' attempt hrun hr hrun' hs => ?_
    · rcases hmove.marts with he | ⟨b, outcome, hb⟩
      · unfold Settled
        rwa [he]
      · exact absurd hrests hb.running
    · obtain ⟨b, hc, he⟩ := hmove.dbt_succeeded hrun hr hrun' hs
      obtain ⟨facts, daily, hc⟩ := completes_eq_true hc
      exact ⟨facts, daily, he.trans hc.next_eq⟩
  have hsold : ∀ f, f ∈ s'.facts ∨ f ∈ s'.marts.built → SoldIn s.source f.toSalesItem := by
    intro f hf
    rcases hmove.marts with he | ⟨b, outcome, hb⟩
    · unfold State.facts at hf
      rw [he] at hf
      exact hf.elim (h.facts f) (h.built_facts f)
    · unfold State.facts at hf
      rw [hb.marts] at hf
      rcases mem_next hf with hold | hold | hnew
      · exact h.facts f hold
      · exact h.built_facts f hold
      · obtain ⟨hview, -⟩ := intSalesOrderItems_eq_some hb.view
        exact h.anchored.soldIn (hview ▸ hnew)
  have hbuilt : Built day (LeftDatesRemembered day) s'.marts := by
    rcases hmove.marts with he | ⟨b, outcome, hb⟩
    · rw [he]
      exact h.built
    · rw [hb.marts]
      refine h.built.build b fun facts daily hc => ?_
      refine leftDatesRemembered_of_soldIn h.built_facts fun f hf => hsold f (Or.inl ?_)
      unfold State.facts
      rw [hb.marts, hc.next_eq]
      exact hf
  exact ⟨hanchored, fun f hf => hsold f (Or.inl hf), fun f hf => hsold f (Or.inr hf), hbuilt, hrefresh,
    hsettled, h.runIds.move hmove⟩

end Steps

/-! ## Runs -/

section Runs

variable {day : Instant → Int} {ok : Bounds → Source → Source → Prop} {bounds : Bounds}
variable {ops : List Cdc.SourceOp} {db : Oltp} {s : State}

theorem GrowingHistory.oltp (h : GrowingHistory day ok bounds ops db s) :
    OltpHistory day ok bounds ops db s := by
  induction h with
  | initial => exact .initial
  | execute _ hexecute hok _ ih => exact ih.execute hexecute hok
  | pipeline _ haction _ hstep ih => exact ih.pipeline haction hstep

/-- **What every history keeps.** -/
theorem GrowingHistory.inv (h : GrowingHistory day ok bounds ops db s) : GrowingInv day db.tables s := by
  induction h with
  | initial => exact GrowingInv.initial
  | execute _ _ _ hgrows ih => exact ih.execute hgrows
  | pipeline hprev haction hclear hstep ih =>
    exact ih.move hprev.oltp.source_eq hprev.oltp.layered (move_of_step hstep) hclear

/-- **Staging is the source**, once every cursor covers it. -/
theorem GrowingHistory.loaded (h : GrowingHistory day NewRowsFresh bounds ops db s)
    (hcovers : ∀ t, CoversSource s t) : Loaded db.tables s.staging := by
  have hsource := h.oltp.source_eq
  have hheld : ∀ t, ∀ row ∈ (db.tables t).rows, ∃ r ∈ (staged s.staging t).rows, r.row = row := by
    intro t row hrow
    rw [← hsource] at hrow
    obtain ⟨r, hr, rfl⟩ :=
      Option.map_eq_some_iff.mp (h.oltp.cursorInv.carries t row hrow (hcovers t row hrow))
    exact ⟨r, (Table.find?_eq_some.mp hr).1, rfl⟩
  intro t
  have hunique : UniqueOn (key t) ((staged s.staging t).rows.map Staged.row) :=
    (staged s.staging t).unique.map_proj fun _ => rfl
  refine (List.perm_ext_iff_of_nodup hunique.nodup (db.tables t).unique.nodup).mpr fun row => ⟨fun hrow => ?_, fun hrow => ?_⟩
  · obtain ⟨r, hr, rfl⟩ := List.mem_map.mp hrow
    -- the row of the source under this key is staged, and there is one staged row under it
    obtain ⟨row', hrow', hkey, -⟩ := h.inv.anchored t r hr
    obtain ⟨r', hr', rfl⟩ := hheld t row' hrow'
    have hsame : r'.row = r.row := hunique.eq_of_key (List.mem_map_of_mem hr') (List.mem_map_of_mem hr) hkey
    rwa [← hsame]
  · obtain ⟨r, hr, rfl⟩ := hheld t row hrow
    exact List.mem_map_of_mem hr

/-- Staging is the source, both sales tables are its sales, and `daily_sales` is its group-by. -/
structure Exact (day : Instant → Int) (tables : Source) (s : State) : Prop where
  staging : Loaded tables s.staging
  fact_sales : ∃ facts, s.marts.facts = some facts ∧
    (facts.map fun f => f.toSalesItem.untimed).Perm (directSales tables)
  iceberg : (s.iceberg.map IcebergRow.untimed).Perm ((directSales tables).map SalesItem.toIceberg)
  daily_sales : ∃ daily, s.marts.daily = some daily ∧ UniqueOn DailyRow.sales_date daily ∧
    (∀ date, (∃ r ∈ daily, r.sales_date = date) ↔ ∃ line ∈ directSales tables, day line.order_date = date) ∧
    ∀ r ∈ daily, r.toDailyTotals = viewTotals day (directSales tables) r.sales_date

/-- **The incremental pipeline gives what a rebuild from the source would.**  After any history of a source
that grows without late rows, interleaved with runs, retries, failures and backfills: once the cursors cover
the source and both sinks of a run have succeeded, every table is exact. -/
theorem batch_exact {run : Run} (h : GrowingHistory day NewRowsFresh bounds ops db s)
    (hcovers : ∀ t, CoversSource s t) (hrun : s.run = some run) (hdbt : run.state .run_dbt_transform = .succeeded)
    (hiceberg : run.state .run_iceberg_batch = .succeeded) : Exact day db.tables s := by
  have hloaded := h.loaded hcovers
  obtain ⟨facts, daily, hmarts⟩ := (h.inv.dbt.active run hrun).2 hdbt
  have hfacts : s.marts.facts = some facts := by rw [hmarts]
  have hdaily : s.marts.daily = some daily := by rw [hmarts]
  have hlatest := (h.inv.refresh.active run hrun).2
  -- both tables mirror the join of staging
  obtain ⟨-, ⟨facts', hfacts', hunique⟩, hmirrors⟩ := hlatest.dbt hdbt
  cases hfacts.symm.trans hfacts'
  rw [hfacts] at hmirrors
  have hlines : (facts.map FactRow.toSalesItem).Perm s.staging.salesRows :=
    hmirrors.perm (fun _ => rfl) uniqueOn_salesRows hunique
  have hsales : (facts.map fun f => f.toSalesItem.untimed).Perm (directSales db.tables) := by
    have huntimed := (hlines.map SalesItem.untimed).trans (untimed_salesRows hloaded)
    rwa [List.map_map] at huntimed
  obtain ⟨huniqueIceberg, hmirrorsIceberg⟩ := hlatest.iceberg hiceberg
  have hrows : s.iceberg.Perm (s.staging.salesRows.map SalesItem.toIceberg) := by
    have hperm := hmirrorsIceberg.perm (fun _ => rfl) uniqueOn_transformSales huniqueIceberg
    rwa [List.map_id, transformSales_eq] at hperm
  have htable : (s.iceberg.map IcebergRow.untimed).Perm ((directSales db.tables).map SalesItem.toIceberg) := by
    have huntimed := hrows.map IcebergRow.untimed
    rw [List.map_map] at huntimed
    have hdirect := (untimed_salesRows hloaded).map SalesItem.toIceberg
    rw [List.map_map] at hdirect
    exact huntimed.trans hdirect
  -- `daily_sales` aggregates the facts of its last build, and these are the facts
  have hcurrent : Current day facts daily := by
    have hbuilt := (h.inv.built.inv daily hdaily).1
    rwa [hmarts] at hbuilt
  refine ⟨hloaded, ⟨facts, hfacts, hsales⟩, htable, daily, hdaily, hcurrent.unique, fun date => ?_, fun r hr => ?_⟩
  · rw [hcurrent.dates date]
    constructor
    · rintro ⟨f, hf, hdate⟩
      exact ⟨f.toSalesItem.untimed, hsales.mem_iff.mp (List.mem_map_of_mem hf), hdate⟩
    · rintro ⟨line, hline, hdate⟩
      obtain ⟨f, hf, rfl⟩ := List.mem_map.mp (hsales.mem_iff.mpr hline)
      exact ⟨f, hf, hdate⟩
  · rw [hcurrent.reconciles.totals r hr, dailyTotals_eq, ← viewTotals_untimed, List.map_map]
    exact viewTotals_perm hsales

end Runs

/-! ## One order, from the source to the marts -/

section Sample

variable {bounds : Bounds} {ops : List Cdc.SourceOp} {db db' : Oltp} {s s' : State}

theorem grows_refl (tables : Source) : Grows tables tables := fun _ _ => AnchoredIn.self

/-- A row under a new key leaves the others. -/
theorem grows_put {tables : Source} {t : TableName} {row : Row t}
    (hnew : ((tables t).find? (key t row)) = none) : Grows tables (Statement.tables tables (.put t row)) := by
  intro t' old hold
  refine AnchoredIn.self ?_
  by_cases ht : t' = t
  · subst ht
    have hfound : (tables t').find? (key t' old) = some old := Table.find?_eq_some.mpr ⟨hold, rfl⟩
    have hne : key t' row ≠ key t' old := fun he => by
      rw [he, hfound] at hnew
      cases hnew
    have hkept : ((tables t').put row).find? (key t' old) = some old := by
      rw [Table.find?_put, if_neg hne, hfound]
    simp only [Statement.tables, Function.update_self]
    exact (Table.find?_eq_some.mp hkept).1
  · simp only [Statement.tables, Function.update_of_ne ht]
    exact hold

/-- A new row. -/
theorem GrowingHistory.insert {ok : Bounds → Source → Source → Prop} (h : GrowingHistory toDate ok bounds ops db s)
    (t : TableName) (row : Row t) (hexecute : db.execute (.put t row) = some db')
    (hnew : ((db.tables t).find? (key t row)) = none) (hok : ok bounds db.tables db'.tables) :
    GrowingHistory toDate ok bounds (ops ++ []) db' { s with source := db'.tables } := by
  refine h.execute hexecute hok ?_
  rw [(execute_eq_some hexecute).2]
  exact grows_put hnew

/-- A new row, stamped above every bound. -/
theorem GrowingHistory.put (h : GrowingHistory toDate NewRowsFresh bounds ops db s) (t : TableName) (row : Row t)
    (hexecute : db.execute (.put t row) = some db') (hnew : ((db.tables t).find? (key t row)) = none)
    (hstamp : Fresh bounds t (updatedAt t row)) :
    GrowingHistory toDate NewRowsFresh bounds (ops ++ []) db' { s with source := db'.tables } := by
  refine h.insert t row hexecute hnew ?_
  rw [(execute_eq_some hexecute).2]
  refine newRowsFresh_statement fun t' row' he => ?_
  cases he
  exact hstamp

/-- Steps of the pipeline, none of which clears a task. -/
theorem GrowingHistory.steps {ok : Bounds → Source → Source → Prop} :
    ∀ {actions : List Action} {bounds : Bounds} {s s' : State},
    GrowingHistory toDate ok bounds ops db s → actions.foldlM (step toDate) s = some s' →
      (∀ a ∈ actions, a.OfPipeline ∧ ∀ index task, a ≠ .clear index task) →
      ∃ bounds', GrowingHistory toDate ok bounds' ops db s'
  | [], bounds, s, s', h, hrun, _ => ⟨bounds, Option.some.inj hrun ▸ h⟩
  | action :: actions, bounds, s, s', h, hrun, hplain => by
    rw [List.foldlM_cons] at hrun
    obtain ⟨s₁, hone, hrest⟩ := Option.bind_eq_some_iff.mp hrun
    obtain ⟨hpipeline, hclear⟩ := hplain action List.mem_cons_self
    have hfirst := h.pipeline hpipeline (fun index task _ he => absurd he (hclear index task)) hone
    exact hfirst.steps hrest fun a ha => hplain a (List.mem_cons_of_mem _ ha)

def plainAction : Action → Bool
  | .changeSource _ _ => false
  | .clear _ _ => false
  | _ => true

theorem ofPipeline_of_plain (actions : List Action) (h : actions.all plainAction = true) :
    ∀ a ∈ actions, a.OfPipeline ∧ ∀ index task, a ≠ .clear index task := by
  intro a ha
  have hplain := List.all_eq_true.mp h a ha
  cases a with
  | changeSource t table => cases hplain
  | clear index task => cases hplain
  | _ => exact ⟨trivial, nofun⟩

/-- A run that loads the source and fills both sinks. -/
def fullRun : List Action :=
  .changeCustomers [7] :: beginRun ++ extractAll ++ validateStaging ++ transform ++ lakehouse

/-- An order of one product, and its payment. -/
def soldTables : Source
  | .products => tableOf (sampleProduct 100)
  | .orders => tableOf (sampleOrder 100 "confirmed")
  | .order_items => tableOf sampleItem
  | .payments => tableOf ⟨1, 1, 2000, "cash", "completed", none, 10, 100⟩

/-- The source is filled before anything runs. -/
theorem growing_sold : ∃ bounds ops db,
    GrowingHistory toDate NewRowsFresh bounds ops db { State.initial with source := db.tables } ∧
      ∀ t, db.tables t = soldTables t := by
  have h := @GrowingHistory.initial toDate NewRowsFresh
  have hann : Oltp.empty.execute (.customer (.insert (Cdc.sampleCustomer "a@x.org"))) = some _ := rfl
  have h := h.execute hann (newRowsFresh_statement nofun) (grows_refl _)
  have h := h.put .products (sampleProduct 100) rfl rfl ⟨by decide, nofun⟩
  have h := h.put .orders (sampleOrder 100 "confirmed") rfl rfl ⟨by decide, nofun⟩
  have h := h.put .order_items sampleItem rfl rfl ⟨by decide, nofun⟩
  have h := h.put .payments ⟨1, 1, 2000, "cash", "completed", none, 10, 100⟩ rfl rfl
    ⟨by decide, nofun⟩
  exact ⟨_, _, _, h, fun t => by cases t <;> rfl⟩

/-- A customer, a product, an order with one item, and its payment; then a run. -/
theorem batch_exact_sample : ∃ db s, Exact toDate (Oltp.tables db) s ∧
    (directSales db.tables).map SalesItem.sales_amount = [2000] := by
  obtain ⟨bounds, ops, db, h, htables⟩ := growing_sold
  rw [funext htables] at h
  have hplain := ofPipeline_of_plain fullRun (by decide)
  obtain ⟨bounds, h⟩ := h.steps rfl hplain
  refine ⟨db, _, batch_exact h ?_ rfl rfl rfl, by rw [funext htables]; rfl⟩
  intro t row hrow
  cases t <;>
    · rw [List.mem_singleton.mp hrow]
      decide

end Sample

end LocalDataPlatform.Pipeline

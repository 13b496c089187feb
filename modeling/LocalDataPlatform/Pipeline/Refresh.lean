import LocalDataPlatform.Pipeline.Dag

/-!
# The sales facts against the full join

Both sales sinks process only rows newer than what they hold.  That is enough as long as a row of
the join never changes without its `source_loaded_at` passing both high-water marks, which the order
of the tasks and growing load times guarantee.

* `InTurn` — one run at a time: a failed task is cleared only while its run is the last one, and no
  payment changes its order.
* `PgTracks`, `IcebergTracks` — a sink carries the join up to its own mark.
* `PgDone`, `IcebergDone` — a sink mirrors the join.
* `LatestRun` — what the state of the last run says about the stores.

Principal results: `RefreshInv.move` (one step), `facts_eq_join` (after both sinks of a run
succeeded, each table holds exactly the join of the whole of staging).
-/

set_option autoImplicit false

namespace LocalDataPlatform.Pipeline

open Relational Sales

/-- A run ends before the next one begins, and no staging upsert moves a payment to another order. -/
def InTurn (s : State) (action : Action) (s' : State) : Prop :=
  (∀ index task run, action = .clear index task → s.failed[index]? = some run →
    run.id + 1 = s.triggered) ∧ PaymentsKeepOrder s.staging s'.staging

/-- The rows of the dbt table. -/
def State.facts (s : State) : List FactRow := s.marts.facts.getD []

/-- The dbt table carries the join up to its mark, and only items of staging. -/
structure PgTracks (st : Staging) (facts : List FactRow) : Prop where
  carries : CarriesUpTo SalesItem.order_item_id SalesItem.source_loaded_at (factHighWater facts)
    (fun f : FactRow => f.order_item_id) FactRow.toSalesItem st.salesRows facts
  items : ∀ f ∈ facts, (st.order_items.find? f.order_item_id).isSome

/-- The Iceberg table carries the join up to its mark, and only items of staging. -/
structure IcebergTracks (st : Staging) (table : List IcebergRow) : Prop where
  carries : CarriesUpTo IcebergRow.order_item_id IcebergRow.source_loaded_at (icebergHighWater table)
    IcebergRow.order_item_id id st.transformSales table
  items : ∀ r ∈ table, (st.order_items.find? r.order_item_id).isSome

/-- Every order item has its order. -/
def ItemsOrdered (st : Staging) : Prop :=
  ∀ i ∈ st.order_items.rows, (st.orders.find? i.row.order_id).isSome

/-- The dbt table is unique and mirrors the join. -/
structure PgDone (st : Staging) (facts : Option (List FactRow)) : Prop where
  fits : ∃ view, st.intSalesOrderItems = some view
  unique : ∃ rows, facts = some rows ∧ UniqueGrain rows
  mirrors : Mirrors SalesItem.order_item_id (fun f : FactRow => f.order_item_id) FactRow.toSalesItem
    st.salesRows (facts.getD [])

/-- The Iceberg table is unique and mirrors the join. -/
structure IcebergDone (st : Staging) (table : List IcebergRow) : Prop where
  unique : UniqueOn IcebergRow.order_item_id table
  mirrors : Mirrors IcebergRow.order_item_id IcebergRow.order_item_id id st.transformSales table

/-- No row of either table, nor the empty table, is above `bound`. -/
structure FactsBelow (s : State) (bound : Instant) : Prop where
  base : beforeEveryLoad ≤ bound
  facts : ∀ f ∈ s.facts, f.source_loaded_at ≤ bound
  iceberg : ∀ r ∈ s.iceberg, r.source_loaded_at ≤ bound

/-- What the state of the last run says about the stores. -/
structure LatestRun (s : State) (run : Run) : Prop where
  before_sinks : run.state .validate_relationships ≠ .succeeded → FactsBelow s run.since
  related : run.state .validate_relationships = .succeeded → ItemsOrdered s.staging
  dbt : run.state .run_dbt_transform = .succeeded → PgDone s.staging s.marts.facts
  iceberg : run.state .run_iceberg_batch = .succeeded → IcebergDone s.staging s.iceberg

/-- The invariant of a history of runs in turn. -/
structure RefreshInv (s : State) : Prop where
  below : FactsBelow s s.clock
  staged : ∀ t, ∀ r ∈ (staged s.staging t).rows, r.loaded_at ≤ s.clock
  pg : PgTracks s.staging s.facts
  iceberg : IcebergTracks s.staging s.iceberg
  active : ∀ run, s.run = some run → run.id + 1 = s.triggered ∧ LatestRun s run
  failed : s.run = none → ∀ run ∈ s.failed, run.id + 1 = s.triggered → LatestRun s run

/-! ## The sinks -/

section Sinks

variable {day : Instant → Int} {st st' : Staging} {now : Instant} {s s' : State}
variable {facts : List FactRow} {table table' : List IcebergRow} {view : List SalesItem}

/-- With every order present the join has every item. -/
theorem exists_mem_salesRows {id : Uuid} (hordered : ItemsOrdered st)
    (h : (st.order_items.find? id).isSome) : ∃ s ∈ st.salesRows, s.order_item_id = id := by
  obtain ⟨item, hitem⟩ := Option.isSome_iff_exists.mp h
  obtain ⟨hmem, rfl⟩ := Table.find?_eq_some.mp hitem
  obtain ⟨order, horder⟩ := Option.isSome_iff_exists.mp (hordered item hmem)
  exact ⟨_, mem_salesRows.mpr ⟨item, hmem, order, horder, rfl⟩, rfl⟩

/-- The join has only items of staging. -/
theorem isSome_of_mem_salesRows {s : SalesItem} (h : s ∈ st.salesRows) :
    (st.order_items.find? s.order_item_id).isSome := by
  obtain ⟨item, hitem, order, -, rfl⟩ := mem_salesRows.mp h
  have hfind : st.order_items.find? item.row.order_item_id = some item :=
    Table.find?_eq_some.mpr ⟨hitem, rfl⟩
  exact Option.isSome_iff_exists.mpr ⟨item, hfind⟩

/-- A load above the mark leaves what the dbt table carries. -/
theorem PgTracks.load (h : PgTracks st facts) (hkept : OlderKept now st st')
    (hitems : ∀ id, (st.order_items.find? id).isSome → (st'.order_items.find? id).isSome)
    (hmark : factHighWater facts < now) : PgTracks st' facts where
  carries := h.carries.mono fun _ hs hle => mem_salesRows_of_olderKept hkept hs (hle.trans_lt hmark)
  items f hf := hitems _ (h.items f hf)

theorem IcebergTracks.load (h : IcebergTracks st table) (hkept : OlderKept now st st')
    (hitems : ∀ id, (st.order_items.find? id).isSome → (st'.order_items.find? id).isSome)
    (hmark : icebergHighWater table < now) : IcebergTracks st' table where
  carries := by
    refine h.carries.mono fun r hr hle => ?_
    rw [transformSales_eq] at hr ⊢
    obtain ⟨s, hs, rfl⟩ := List.mem_map.mp hr
    exact List.mem_map_of_mem (mem_salesRows_of_olderKept hkept hs (hle.trans_lt hmark))
  items r hr := hitems _ (h.items r hr)

/-- **A build of `fact_sales` turns a table that tracks the join into one that mirrors it.** -/
theorem PgTracks.build {versions : List CustomerVersion} {old : Option (List FactRow)}
    (h : PgTracks st (old.getD [])) (hordered : ItemsOrdered st)
    (hview : st.intSalesOrderItems = some view) (hbuild : buildFacts versions view old = some facts) :
    PgTracks st facts ∧ Mirrors SalesItem.order_item_id (fun f : FactRow => f.order_item_id)
      FactRow.toSalesItem st.salesRows facts := by
  obtain ⟨rfl, -⟩ := intSalesOrderItems_eq_some hview
  have hmirrors := mirrors_buildFacts uniqueOn_salesRows hbuild h.carries
    fun f hf => exists_mem_salesRows hordered (h.items f hf)
  refine ⟨⟨hmirrors.carries uniqueOn_salesRows, fun f hf => ?_⟩, hmirrors⟩
  exact (mem_buildFacts hbuild hf).elim (h.items f) isSome_of_mem_salesRows

/-- **The Iceberg job turns a table that tracks the join into one that mirrors it.** -/
theorem IcebergTracks.job (h : IcebergTracks st table) (hordered : ItemsOrdered st)
    (hjob : runJob st table = some table') : IcebergTracks st table' ∧
      Mirrors IcebergRow.order_item_id IcebergRow.order_item_id id st.transformSales table' := by
  have hmirrors := mirrors_runJob hjob h.carries fun r hr => by
    obtain ⟨s, hs, hk⟩ := exists_mem_salesRows hordered (h.items r hr)
    rw [transformSales_eq]
    exact ⟨s.toIceberg, List.mem_map_of_mem hs, hk⟩
  refine ⟨⟨hmirrors.carries uniqueOn_transformSales, fun r hr => ?_⟩, hmirrors⟩
  rcases mem_runJob hjob hr with hr | hr
  · exact h.items r hr
  · rw [transformSales_eq] at hr
    obtain ⟨s, hs, rfl⟩ := List.mem_map.mp hr
    exact isSome_of_mem_salesRows hs

theorem FactsBelow.marks {bound : Instant} (h : FactsBelow s bound) :
    factHighWater s.facts ≤ bound ∧ icebergHighWater s.iceberg ≤ bound :=
  ⟨highWater_le (fun _ => h.base) h.facts, highWater_le (fun _ => h.base) h.iceberg⟩

/-- The join is not newer than what was loaded. -/
theorem RefreshInv.salesRows_le (h : RefreshInv s) {r : SalesItem} (hr : r ∈ s.staging.salesRows) :
    r.source_loaded_at ≤ s.clock :=
  source_loaded_at_le h.below.base (h.staged .orders) (h.staged .order_items) (h.staged .payments) hr

/-- What a build leaves of the dbt table. -/
theorem PgTracks.next_build {m : Marts} {b : Build} (h : PgTracks st (m.facts.getD []))
    (hordered : ItemsOrdered st) (hview : st.intSalesOrderItems = some b.view) :
    PgTracks st ((next day m b).facts.getD []) ∧
      ∀ f ∈ (next day m b).facts.getD [], f ∈ m.facts.getD [] ∨ f.toSalesItem ∈ b.view := by
  rcases next_cases day m b with hn | ⟨facts, hfacts, hn⟩ | ⟨facts, daily, hc, hn⟩
  · rw [hn]
    exact ⟨h, fun f hf => Or.inl hf⟩
  · rw [hn]
    exact ⟨(h.build hordered hview hfacts).1, fun f hf => mem_buildFacts hfacts hf⟩
  · rw [hn]
    exact ⟨(h.build hordered hview hc.1).1, fun f hf => mem_buildFacts hc.1 hf⟩

/-- What a completed build leaves of the dbt table. -/
theorem PgTracks.done {m : Marts} {b : Build} (h : PgTracks st (m.facts.getD []))
    (hordered : ItemsOrdered st) (hview : st.intSalesOrderItems = some b.view)
    (hc : completes day m b = true) : PgDone st (next day m b).facts := by
  obtain ⟨facts, daily, hc⟩ := completes_eq_true hc
  rw [hc.next_eq]
  exact ⟨⟨b.view, hview⟩, ⟨facts, rfl, hc.2.2.1⟩, (h.build hordered hview hc.1).2⟩

end Sinks

/-! ## The steps -/

section Steps

variable {day : Instant → Int} {s s' : State} {action : Action} {run : Run} {task : Task}
variable {state : TaskState} {attempt : Attempt}

/-- The stores are the same. -/
structure SameStores (s s' : State) : Prop where
  staging : s'.staging = s.staging
  marts : s'.marts = s.marts
  iceberg : s'.iceberg = s.iceberg
  clock : s'.clock = s.clock

theorem FactsBelow.congr {bound : Instant} (h : FactsBelow s bound) (hsame : SameStores s s') :
    FactsBelow s' bound := by
  refine ⟨h.base, fun f hf => h.facts f ?_, fun r hr => h.iceberg r (hsame.iceberg ▸ hr)⟩
  unfold State.facts at hf ⊢
  exact hsame.marts ▸ hf

theorem LatestRun.congr (h : LatestRun s run) (hsame : SameStores s s') : LatestRun s' run where
  before_sinks hnot := (h.before_sinks hnot).congr hsame
  related hrel := by
    rw [hsame.staging]
    exact h.related hrel
  dbt hdbt := by
    rw [hsame.staging, hsame.marts]
    exact h.dbt hdbt
  iceberg hiceberg := by
    rw [hsame.staging, hsame.iceberg]
    exact h.iceberg hiceberg

/-- The invariant speaks of the stores and of the last run only. -/
theorem RefreshInv.of_same (h : RefreshInv s) (hsame : SameStores s s')
    (hactive : ∀ run, s'.run = some run → run.id + 1 = s'.triggered ∧ LatestRun s' run)
    (hfailed : s'.run = none → ∀ run ∈ s'.failed, run.id + 1 = s'.triggered → LatestRun s' run) :
    RefreshInv s' where
  below := by
    rw [hsame.clock]
    exact h.below.congr hsame
  staged := by
    rw [hsame.staging, hsame.clock]
    exact h.staged
  pg := by
    unfold State.facts
    rw [hsame.staging, hsame.marts]
    exact h.pg
  iceberg := by
    rw [hsame.staging, hsame.iceberg]
    exact h.iceberg
  active := hactive
  failed := hfailed

/-- A task of the last run changes state; it had not succeeded before. -/
theorem LatestRun.set (hnot : run.state task ≠ .succeeded)
    (hbelow : run.state .validate_relationships ≠ .succeeded → FactsBelow s' run.since)
    (hrelated : run.state .validate_relationships = .succeeded ∨
      task = .validate_relationships ∧ state = .succeeded → ItemsOrdered s'.staging)
    (hdbt : task ≠ .run_dbt_transform ∧ run.state .run_dbt_transform = .succeeded ∨
      task = .run_dbt_transform ∧ state = .succeeded → PgDone s'.staging s'.marts.facts)
    (hiceberg : task ≠ .run_iceberg_batch ∧ run.state .run_iceberg_batch = .succeeded ∨
      task = .run_iceberg_batch ∧ state = .succeeded → IcebergDone s'.staging s'.iceberg) :
    LatestRun s' (run.set task state) := by
  have hstate : ∀ u : Task, (run.set task state).state u = .succeeded →
      task ≠ u ∧ run.state u = .succeeded ∨ task = u ∧ state = .succeeded := by
    intro u hu
    by_cases he : u = task
    · subst he
      rw [Run.set_state_self] at hu
      exact Or.inr ⟨rfl, hu⟩
    · rw [Run.set_state_of_ne he] at hu
      exact Or.inl ⟨fun he' => he he'.symm, hu⟩
  refine ⟨fun hrel => hbelow fun hs => ?_, fun hrel => hrelated ?_, fun h => hdbt (hstate _ h),
    fun h => hiceberg (hstate _ h)⟩
  · by_cases he : Task.validate_relationships = task
    · exact hnot (he ▸ hs)
    · rw [Run.set_state_of_ne he] at hrel
      exact hrel hs
  · exact (hstate _ hrel).imp_left And.right

/-- A step that leaves the stores alone and changes one task, none of the two sinks to success. -/
theorem RefreshInv.set (h : RefreshInv s) (hrun : s.run = some run) (hsame : SameStores s s')
    (hrun' : s'.run = some (run.set task state)) (htriggered : s'.triggered = s.triggered)
    (hnot : run.state task ≠ .succeeded)
    (hrelated : task = .validate_relationships → state = .succeeded → ItemsOrdered s.staging)
    (hsinks : state = .succeeded → task ≠ .run_dbt_transform ∧ task ≠ .run_iceberg_batch) :
    RefreshInv s' := by
  obtain ⟨hid, hlatest⟩ := h.active run hrun
  have hcongr := hlatest.congr hsame
  refine h.of_same hsame (fun r hr => ?_) fun hnone => ?_
  · rw [hrun'] at hr
    cases hr
    refine ⟨htriggered ▸ hid, LatestRun.set hnot hcongr.before_sinks ?_ ?_ ?_⟩
    · rintro (hrel | ⟨hrel, hs⟩)
      · exact hcongr.related hrel
      · rw [hsame.staging]
        exact hrelated hrel hs
    · rintro (⟨-, hdbt⟩ | ⟨hdbt, hs⟩)
      · exact hcongr.dbt hdbt
      · exact absurd hdbt (hsinks hs).1
    · rintro (⟨-, hiceberg⟩ | ⟨hiceberg, hs⟩)
      · exact hcongr.iceberg hiceberg
      · exact absurd hiceberg (hsinks hs).2
  · rw [hrun'] at hnone
    cases hnone

theorem Run.not_succeeded_of_running (h : run.state task = .running attempt) :
    run.state task ≠ .succeeded := by
  rw [h]
  exact fun he => by cases he

/-- A sink of a layered run that has begun has its relationships validated. -/
theorem Run.Layered.related_of_running (h : run.Layered) (hsink : task.IsSink)
    (hstate : run.state task = .running attempt) : run.state .validate_relationships = .succeeded := by
  refine h task .validate_relationships ?_ ?_
  · rw [hstate]
    exact fun he => by cases he
  · rw [show task.layer = 4 from hsink]
    exact Nat.lt_succ_self 3

theorem RefreshInv.upsert {t : TableName} {lower upper now : Instant} {outcome : Outcome}
    {w : Watermarks} {batch : Table (Row t) (key t)} (h : RefreshInv s) (hlayered : LayeredRuns s)
    (hrun : s.run = some run) (hstate : run.state (.extract t) = .running (.extract lower upper))
    (hnow : run.since < now) (hkeep : PaymentsKeepOrder s.staging (loadTable s.staging now t batch)) :
    RefreshInv ({ s with
      staging := loadTable s.staging now t batch
      watermarks := w
      clock := max s.clock now }.finish run (.extract t) outcome) := by
  obtain ⟨hid, hlatest⟩ := h.active run hrun
  have hlater : ∀ u : Task, 1 < u.layer → run.state u ≠ .succeeded := by
    intro u hlt hu
    have hidle := (hlayered.active run hrun).later_idle (Run.not_succeeded_of_running hstate) hlt
    rw [hu] at hidle
    cases hidle
  have hbelow := hlatest.before_sinks (hlater .validate_relationships (by decide))
  have hmarks := hbelow.marks
  have hkept := olderKept_loadTable hkeep
  have hitems : ∀ id, (s.staging.order_items.find? id).isSome →
      ((loadTable s.staging now t batch).order_items.find? id).isSome :=
    fun id => order_items_loadTable
  refine ⟨?_, fun t' r hr => ?_, h.pg.load hkept hitems (hmarks.1.trans_lt hnow),
    h.iceberg.load hkept hitems (hmarks.2.trans_lt hnow), fun r hr => ?_, fun hnone => by cases hnone⟩
  · have hle : s.clock ≤ max s.clock now := le_max_left _ _
    exact ⟨h.below.base.trans hle, fun f hf => (h.below.facts f hf).trans hle,
      fun r hr => (h.below.iceberg r hr).trans hle⟩
  · rcases mem_loadTable hr with hr | hr
    · exact (h.staged t' r hr).trans (le_max_left _ _)
    · rw [hr]
      exact le_max_right _ _
  · cases hr
    refine ⟨hid, LatestRun.set (Run.not_succeeded_of_running hstate) ?_ ?_ ?_ ?_⟩
    · exact fun _ => ⟨hbelow.base, hbelow.facts, hbelow.iceberg⟩
    · rintro (hrel | ⟨he, -⟩)
      · exact absurd hrel (hlater _ (by decide))
      · cases he
    · rintro (⟨-, hdbt⟩ | ⟨he, -⟩)
      · exact absurd hdbt (hlater _ (by decide))
      · cases he
    · rintro (⟨-, hiceberg⟩ | ⟨he, -⟩)
      · exact absurd hiceberg (hlater _ (by decide))
      · cases he

theorem RefreshInv.dbtBuild {snapshot : Staging} {b : Build} {outcome : Outcome} (h : RefreshInv s)
    (hlayered : LayeredRuns s) (hrun : s.run = some run)
    (hstate : run.state .run_dbt_transform = .running (.sink snapshot))
    (hview : s.staging.intSalesOrderItems = some b.view)
    (hout : outcome = .succeeded → completes day s.marts b = true) :
    RefreshInv ({ s with marts := next day s.marts b }.finishSink run .run_dbt_transform snapshot
      outcome) := by
  obtain ⟨hid, hlatest⟩ := h.active run hrun
  have hsink : Task.IsSink .run_dbt_transform := rfl
  have hrel := (hlayered.active run hrun).related_of_running hsink hstate
  have hordered := hlatest.related hrel
  have hnext : PgTracks s.staging ((next day s.marts b).facts.getD []) ∧
      ∀ f ∈ (next day s.marts b).facts.getD [], f ∈ s.facts ∨ f.toSalesItem ∈ b.view :=
    h.pg.next_build hordered hview
  obtain ⟨htracks, hmem⟩ := hnext
  refine ⟨⟨h.below.base, fun f hf => ?_, h.below.iceberg⟩, h.staged, htracks, h.iceberg,
    fun r hr => ?_, fun hnone => by cases hnone⟩
  · rcases hmem f hf with hf | hf
    · exact h.below.facts f hf
    · rw [(intSalesOrderItems_eq_some hview).1] at hf
      exact h.salesRows_le hf
  · cases hr
    refine ⟨hid, LatestRun.set (Run.not_succeeded_of_running hstate) ?_ ?_ ?_ ?_⟩
    · exact fun hnot => absurd hrel hnot
    · exact fun _ => hordered
    · rintro (⟨hne, -⟩ | ⟨-, hs⟩)
      · exact absurd rfl hne
      · cases outcome with
        | succeeded => exact h.pg.done hordered hview (hout rfl)
        | retried => cases hs
        | failed => cases hs
    · rintro (⟨-, hiceberg⟩ | ⟨he, -⟩)
      · exact hlatest.iceberg hiceberg
      · cases he

theorem RefreshInv.icebergBatch {snapshot : Staging} {table : List IcebergRow} {outcome : Outcome}
    (h : RefreshInv s) (hlayered : LayeredRuns s) (hrun : s.run = some run)
    (hstate : run.state .run_iceberg_batch = .running (.sink snapshot))
    (hjob : runJob s.staging s.iceberg = some table) (hout : outcome = .succeeded → TableValid table) :
    RefreshInv ({ s with iceberg := table }.finishSink run .run_iceberg_batch snapshot outcome) := by
  obtain ⟨hid, hlatest⟩ := h.active run hrun
  have hsink : Task.IsSink .run_iceberg_batch := rfl
  have hrel := (hlayered.active run hrun).related_of_running hsink hstate
  have hordered := hlatest.related hrel
  obtain ⟨htracks, hmirrors⟩ := h.iceberg.job hordered hjob
  refine ⟨⟨h.below.base, h.below.facts, fun r hr => ?_⟩, h.staged, h.pg, htracks,
    fun r hr => ?_, fun hnone => by cases hnone⟩
  · rcases mem_runJob hjob hr with hr | hr
    · exact h.below.iceberg r hr
    · rw [transformSales_eq] at hr
      obtain ⟨row, hrow, rfl⟩ := List.mem_map.mp hr
      exact h.salesRows_le hrow
  · cases hr
    refine ⟨hid, LatestRun.set (Run.not_succeeded_of_running hstate) ?_ ?_ ?_ ?_⟩
    · exact fun hnot => absurd hrel hnot
    · exact fun _ => hordered
    · rintro (⟨-, hdbt⟩ | ⟨he, -⟩)
      · exact hlatest.dbt hdbt
      · cases he
    · rintro (⟨hne, -⟩ | ⟨-, hs⟩)
      · exact absurd rfl hne
      · cases outcome with
        | succeeded => exact ⟨(hout rfl).unique, hmirrors⟩
        | retried => cases hs
        | failed => cases hs

/-- What a run says about the stores survives a clear of one of its failed tasks. -/
theorem LatestRun.clear (h : LatestRun s run) (hlayered : run.Layered)
    (hfailed : run.state task = .failed) : LatestRun s (run.clear task) := by
  have hkept : ∀ u : Task, (run.clear task).state u = .succeeded → run.state u = .succeeded := by
    intro u hu
    obtain ⟨hne, hle⟩ : u ≠ task ∧ u.layer ≤ task.layer :=
      Run.clear_idle (by rw [hu]; exact fun he => by cases he)
    rwa [Run.clear_state hne hle] at hu
  refine ⟨fun hnot => h.before_sinks fun hs => hnot ?_, fun hs => h.related (hkept _ hs),
    fun hs => h.dbt (hkept _ hs), fun hs => h.iceberg (hkept _ hs)⟩
  -- relationships validated before a failed task are not cleared with it
  have hne : Task.validate_relationships ≠ task := by
    rintro rfl
    rw [hs] at hfailed
    cases hfailed
  have hle : ¬ task.layer < Task.validate_relationships.layer := by
    intro hlt
    have hidle := hlayered.later_idle (u := task) (by rw [hfailed]; exact fun he => by cases he) hlt
    rw [hs] at hidle
    cases hidle
  rw [Run.clear_state hne (not_lt.mp hle)]
  exact hs

theorem RefreshInv.move (h : RefreshInv s) (hlayered : LayeredRuns s) (hids : RunIds s)
    (hmove : Move day s action s') (hturn : InTurn s action s') : RefreshInv s' := by
  cases hmove with
  | changeSource t table =>
    refine h.of_same ⟨rfl, rfl, rfl, rfl⟩ (fun r hr => ?_) fun hnone r hr hid => ?_
    · exact (h.active r hr).imp_right fun hl => hl.congr ⟨rfl, rfl, rfl, rfl⟩
    · exact (h.failed hnone r hr hid).congr ⟨rfl, rfl, rfl, rfl⟩
  | changeCustomers ids =>
    refine h.of_same ⟨rfl, rfl, rfl, rfl⟩ (fun r hr => ?_) fun hnone r hr hid => ?_
    · exact (h.active r hr).imp_right fun hl => hl.congr ⟨rfl, rfl, rfl, rfl⟩
    · exact (h.failed hnone r hr hid).congr ⟨rfl, rfl, rfl, rfl⟩
  | trigger mode hnone =>
    refine h.of_same ⟨rfl, rfl, rfl, rfl⟩ (fun r hr => ?_) fun hnone => by cases hnone
    cases hr
    refine ⟨rfl, fun _ => h.below.congr ⟨rfl, rfl, rfl, rfl⟩, ?_, ?_, ?_⟩
    · exact fun hs => by cases hs
    · exact fun hs => by cases hs
    · exact fun hs => by cases hs
  | start hrun hidle _ =>
    refine h.set hrun ⟨rfl, rfl, rfl, rfl⟩ rfl rfl ?_ nofun nofun
    rw [hidle]
    exact fun he => by cases he
  | @crash _ _ _ outcome hrun hstate hout =>
    refine h.set hrun ⟨rfl, rfl, rfl, rfl⟩ rfl rfl (Run.not_succeeded_of_running hstate) ?_ ?_
    · intro _ hs
      cases outcome with
      | succeeded => exact absurd rfl hout
      | retried => cases hs
      | failed => cases hs
    · intro hs
      cases outcome with
      | succeeded => exact absurd rfl hout
      | retried => cases hs
      | failed => cases hs
  | validateRunConfig hrun hstate _ =>
    exact h.set hrun ⟨rfl, rfl, rfl, rfl⟩ rfl rfl (Run.not_succeeded_of_running hstate) nofun
      fun _ => ⟨nofun, nofun⟩
  | upsert hrun hstate hnow => exact h.upsert hlayered hrun hstate hnow hturn.2
  | validateRecordCount hrun hstate _ =>
    exact h.set hrun ⟨rfl, rfl, rfl, rfl⟩ rfl rfl (Run.not_succeeded_of_running hstate) nofun
      fun _ => ⟨nofun, nofun⟩
  | validateRelationships hrun hstate hvalid =>
    exact h.set hrun ⟨rfl, rfl, rfl, rfl⟩ rfl rfl (Run.not_succeeded_of_running hstate)
      (fun _ _ => hvalid.order_items_without_order) fun _ => ⟨nofun, nofun⟩
  | dbtBuild hrun hstate hview hout => exact h.dbtBuild hlayered hrun hstate hview hout
  | icebergBatch hrun hstate hjob hout => exact h.icebergBatch hlayered hrun hstate hjob hout
  | acknowledge hrun hstate _ =>
    exact h.set hrun ⟨rfl, rfl, rfl, rfl⟩ rfl rfl (Run.not_succeeded_of_running hstate) nofun nofun
  | flushed hrun hstate =>
    exact h.set hrun ⟨rfl, rfl, rfl, rfl⟩ rfl rfl (Run.not_succeeded_of_running hstate) nofun
      fun _ => ⟨nofun, nofun⟩
  | advance hrun hstate _ =>
    exact h.set hrun ⟨rfl, rfl, rfl, rfl⟩ rfl rfl (Run.not_succeeded_of_running hstate) nofun
      fun _ => ⟨nofun, nofun⟩
  | @close run hrun _ =>
    obtain ⟨hid, hlatest⟩ := h.active run hrun
    refine h.of_same ⟨rfl, rfl, rfl, rfl⟩ nofun fun _ r hr hr' => ?_
    -- no other run has the id of the one that ends
    have hother : r ∉ s.failed := by
      intro hmem
      have hnodup := hids.nodup
      unfold State.runIds at hnodup
      rw [hrun] at hnodup
      have hsame : r.id = run.id := by
        have : r.id + 1 = run.id + 1 := hr'.trans hid.symm
        omega
      exact (List.nodup_cons.mp hnodup).1 (hsame ▸ List.mem_map_of_mem hmem)
    dsimp only at hr
    split at hr
    · exact absurd hr hother
    · rcases List.mem_cons.mp hr with rfl | hr
      · exact hlatest.congr ⟨rfl, rfl, rfl, rfl⟩
      · exact absurd hr hother
  | @clear run index task hnone hindex hfailed =>
    have hmem : run ∈ s.failed := List.mem_of_getElem? hindex
    have hid := hturn.1 index task run rfl hindex
    refine h.of_same ⟨rfl, rfl, rfl, rfl⟩ (fun r hr => ?_) fun hnone => by cases hnone
    cases hr
    have hcleared := (h.failed hnone run hmem hid).clear (hlayered.failed run hmem).1 hfailed
    exact ⟨hid, hcleared.congr ⟨rfl, rfl, rfl, rfl⟩⟩

theorem Reaches.refreshInv (h : Reaches day InTurn s) : RefreshInv s := by
  induction h with
  | initial =>
    have hrows : State.initial.staging.salesRows = [] := rfl
    have hfacts : State.initial.facts = [] := rfl
    refine ⟨⟨le_refl _, ?_, ?_⟩, fun t r hr => ?_, ⟨?_, ?_⟩, ⟨?_, ?_⟩, ?_, ?_⟩
    · rw [hfacts]
      exact fun _ h => absurd h List.not_mem_nil
    · exact fun _ h => absurd h List.not_mem_nil
    · cases t <;> cases hr
    · unfold CarriesUpTo
      rw [hrows]
      exact fun _ h => absurd h List.not_mem_nil
    · rw [hfacts]
      exact fun _ h => absurd h List.not_mem_nil
    · unfold CarriesUpTo
      rw [transformSales_eq, hrows]
      exact fun _ h => absurd h List.not_mem_nil
    · exact fun _ h => absurd h List.not_mem_nil
    · exact fun _ h => absurd h.symm (Option.some_ne_none _)
    · exact fun _ _ h => absurd h List.not_mem_nil
  | step h hstep hok ih => exact ih.move h.layered h.runIds (move_of_step hstep) hok

/-- **Incremental sales facts equal a full recomputation.**  Once both sinks of a run have
succeeded, each table holds one row for each row of the join of the whole of staging, equal to it on
every column of the join. -/
theorem facts_eq_join (h : Reaches day InTurn s) (hrun : s.run = some run)
    (hdbt : run.state .run_dbt_transform = .succeeded)
    (hiceberg : run.state .run_iceberg_batch = .succeeded) :
    ∃ view facts, s.staging.intSalesOrderItems = some view ∧ s.marts.facts = some facts ∧
      UniqueOn SalesItem.order_item_id view ∧ (facts.map FactRow.toSalesItem).Perm view ∧
      s.iceberg.Perm (view.map SalesItem.toIceberg) := by
  have hlatest := (h.refreshInv.active run hrun).2
  obtain ⟨⟨view, hview⟩, ⟨facts, hfacts, hunique⟩, hmirrors⟩ := hlatest.dbt hdbt
  obtain ⟨hunique', hmirrors'⟩ := hlatest.iceberg hiceberg
  obtain ⟨rfl, -⟩ := intSalesOrderItems_eq_some hview
  rw [hfacts] at hmirrors
  have hperm := hmirrors'.perm (fun _ => rfl) uniqueOn_transformSales hunique'
  rw [List.map_id, transformSales_eq] at hperm
  exact ⟨_, facts, hview, hfacts, uniqueOn_salesRows,
    hmirrors.perm (fun _ => rfl) uniqueOn_salesRows hunique, hperm⟩

/-- Only a clear and a load of payments are restricted. -/
theorem inTurn_of_move (hmove : Move day s action s') (hclear : ∀ index task, action ≠ .clear index task)
    (hpayments : ∀ now outcome, action ≠ .upsert .payments now outcome) : InTurn s action s' := by
  refine ⟨fun index task _ he => absurd he (hclear index task), ?_⟩
  have hrefl : PaymentsKeepOrder s.staging s.staging := by
    intro id p p' hp hp'
    cases hp.symm.trans hp'
    rfl
  cases hmove with
  | @upsert run t _ _ now outcome _ _ _ =>
    cases t with
    | payments => exact absurd rfl (hpayments now outcome)
    | products => exact hrefl
    | orders => exact hrefl
    | order_items => exact hrefl
  | _ => exact hrefl

end Steps

/-! ## A sink that falls behind and catches up -/

section CatchUp

/-- Neither a clear nor a load of payments. -/
def Action.isPlain : Action → Bool
  | .clear _ _ => false
  | .upsert .payments _ _ => false
  | _ => true

theorem inTurn_of_plain {actions : List Action} (h : actions.all Action.isPlain = true) :
    ∀ a ∈ actions, ∀ s s', step toDate s a = some s' → InTurn s a s' := by
  intro a ha s s' hstep
  have hplain := List.all_eq_true.mp h a ha
  refine inTurn_of_move (move_of_step hstep) ?_ ?_
  · rintro index task rfl
    cases hplain
  · rintro now outcome rfl
    cases hplain

/-- The extracts of a run up to the load of the payments, which starts at `now`. -/
def extractsBut (now : Instant) : List Action :=
  beginRun ++ extractTable .products now ++ extractTable .orders now ++ extractTable .order_items now ++
    [.start (.extract .payments)]

/-- The Iceberg batch of the first run fails; the order changes before the second. -/
def fallBehind : List Action :=
  validateStaging ++ transform ++ publishSample ++
    [.start .run_iceberg_batch, .crash .run_iceberg_batch .failed, .close,
      .changeSource .orders (tableOf (sampleOrder 200 "confirmed"))] ++ extractsBut 2

/-- After the second run both tables hold the changed row. -/
theorem facts_eq_join_caughtUp : ∃ s view facts, Reaches toDate InTurn s ∧
    s.staging.intSalesOrderItems = some view ∧ s.marts.facts = some facts ∧
    (facts.map FactRow.toSalesItem).Perm view ∧ s.iceberg.Perm (view.map SalesItem.toIceberg) ∧
    view.map SalesItem.order_status = ["confirmed"] := by
  have h := @reaches_of_actions toDate InTurn (loadSource ++ extractsBut 1) _ _
    (inTurn_of_plain (by decide)) Reaches.initial rfl
  have h := @Reaches.step toDate InTurn _ _ (.upsert .payments 1 .succeeded) h rfl ⟨nofun, by decide⟩
  have h := @reaches_of_actions toDate InTurn fallBehind _ _ (inTurn_of_plain (by decide)) h rfl
  have h := @Reaches.step toDate InTurn _ _ (.upsert .payments 2 .succeeded) h rfl ⟨nofun, by decide⟩
  have h := @reaches_of_actions toDate InTurn (validateStaging ++ transform ++ lakehouse) _ _
    (inTurn_of_plain (by decide)) h rfl
  obtain ⟨view, facts, hview, hfacts, -, hpg, hiceberg⟩ := facts_eq_join h rfl rfl rfl
  refine ⟨_, view, facts, h, hview, hfacts, hpg, hiceberg, ?_⟩
  rw [(intSalesOrderItems_eq_some hview).1]
  rfl

end CatchUp

end LocalDataPlatform.Pipeline

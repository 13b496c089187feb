import LocalDataPlatform.Pipeline.Extract
import LocalDataPlatform.Sales.Daily
import LocalDataPlatform.Sales.IcebergFacts

/-!
# The DAG `ecommerce_pipeline`

Runs of the DAG over the stores it works on.  One run is active at a time; any attempt of a task may
crash and be retried, or lose its acknowledgement after its effect; a failed task of a failed run
may be cleared, together with its downstream tasks, when no run is active.

* `Task`, `Task.layer` — the tasks and their place in the chain of fan-outs and fan-ins.
* `Attempt`, `TaskState`, `Run` — what a running task has read, and a run.
* `State` — the source, staging, the watermarks, the three sinks, and the runs.
* `Action`, `step` — one action; `Move` — the same as a relation, one constructor an action.
* `Reaches` — the states reached by actions that each meet a condition.
* `Run.Layered` — a task left `idle` only after everything upstream succeeded.

Principal results: `move_of_step` (a step is one of the moves), `Run.Layered.set` (a task that is
entitled to run keeps the order), `Reaches.layered` (every run is layered).
-/

set_option autoImplicit false

namespace LocalDataPlatform.Pipeline

open Relational Sales

/-! ## Tasks and runs -/

/-- The tasks of the DAG. -/
inductive Task where
  | validate_run_config
  | extract (t : TableName)
  | validate_record_count
  | validate_relationships
  | run_dbt_transform
  | run_iceberg_batch
  | publish_order_events
  | advance_watermarks
  deriving DecidableEq, Repr

/-- `run_config >> extracts >> validated_record_count >> validated_relationships >> sinks >>
watermarks`: every arrow joins neighbouring layers, and neighbouring layers are joined throughout. -/
def Task.layer : Task → Nat
  | .validate_run_config => 0
  | .extract _ => 1
  | .validate_record_count => 2
  | .validate_relationships => 3
  | .run_dbt_transform => 4
  | .run_iceberg_batch => 4
  | .publish_order_events => 4
  | .advance_watermarks => 5

def Task.all : List Task :=
  [.validate_run_config, .extract .products, .extract .orders, .extract .order_items,
    .extract .payments, .validate_record_count, .validate_relationships, .run_dbt_transform,
    .run_iceberg_batch, .publish_order_events, .advance_watermarks]

theorem Task.mem_all (task : Task) : task ∈ Task.all := by
  cases task with
  | extract t => cases t <;> decide
  | _ => decide

/-- A task whose success the watermarks wait for. -/
def Task.IsSink (task : Task) : Prop := task.layer = 4

instance (task : Task) : Decidable task.IsSink := inferInstanceAs (Decidable (_ = _))

/-- What a running task has read: an extract its bounds, a sink the staging it began on, the
producer also the order versions it still has to deliver. -/
inductive Attempt where
  | plain
  | extract (lower upper : Instant)
  | sink (snapshot : Staging)
  | publish (snapshot : Staging) (pending : List OrderRow)

inductive TaskState where
  | idle
  | running (attempt : Attempt)
  | succeeded
  | failed

def TaskState.isIdle : TaskState → Bool
  | .idle => true
  | _ => false

def TaskState.isRunning : TaskState → Bool
  | .running _ => true
  | _ => false

def TaskState.isSucceeded : TaskState → Bool
  | .succeeded => true
  | _ => false

def TaskState.isFailed : TaskState → Bool
  | .failed => true
  | _ => false

/-- How an attempt ends: a failed attempt is retried or final. -/
inductive Outcome where
  | succeeded
  | retried
  | failed
  deriving DecidableEq, Repr

def Outcome.state : Outcome → TaskState
  | .succeeded => .succeeded
  | .retried => .idle
  | .failed => .failed

/-- A run of the DAG; everything loaded before it began carries a load time up to `since`. -/
structure Run where
  id : Nat
  mode : Mode
  since : Instant
  state : Task → TaskState

/-- A run that has just been triggered. -/
def Run.fresh (id : Nat) (mode : Mode) (since : Instant) : Run := ⟨id, mode, since, fun _ => .idle⟩

def Run.set (run : Run) (task : Task) (state : TaskState) : Run :=
  { run with state := Function.update run.state task state }

/-- Everything directly upstream has succeeded. -/
def Run.ready (run : Run) (task : Task) : Bool :=
  Task.all.all fun u => !decide (u.layer + 1 = task.layer) || (run.state u).isSucceeded

/-- Nothing runs and nothing can be started. -/
def Run.ended (run : Run) : Bool :=
  Task.all.all fun task =>
    !(run.state task).isRunning && !((run.state task).isIdle && run.ready task)

/-- `airflow tasks clear --downstream`. -/
def Run.clear (run : Run) (task : Task) : Run :=
  { run with state := fun u => if u = task ∨ task.layer < u.layer then .idle else run.state u }

/-! ## The system -/

/-- An attempt of a sink that succeeded, and the staging it began on. -/
structure Execution where
  task : Task
  snapshot : Staging

/-- The stores, the runs, and what the sinks have done. -/
structure State where
  source : Source
  customers : List Uuid
  staging : Staging
  watermarks : Watermarks
  marts : Marts
  iceberg : List IcebergRow
  /-- The order versions whose events Kafka has acknowledged. -/
  acked : List OrderRow
  executions : List Execution
  /-- The latest load time so far. -/
  clock : Instant
  triggered : Nat
  run : Option Run
  /-- The failed runs, the last one first. -/
  failed : List Run

/-- Empty tables, and the watermarks `003_create_etl_metadata.sql` inserts. -/
def State.initial : State where
  source := fun _ => Table.empty
  customers := []
  staging := ⟨Table.empty, Table.empty, Table.empty, Table.empty⟩
  watermarks := fun _ => ⟨0, none⟩
  marts := Marts.fresh
  iceberg := []
  acked := []
  executions := []
  clock := beforeEveryLoad
  triggered := 0
  run := none
  failed := []

inductive Action where
  | changeSource (t : TableName) (table : Table (Row t) (key t))
  | changeCustomers (ids : List Uuid)
  | trigger (mode : Mode)
  | start (task : Task)
  | crash (task : Task) (outcome : Outcome)
  | validateRunConfig
  | upsert (t : TableName) (now : Instant) (outcome : Outcome)
  | validateRecordCount
  | validateRelationships
  | dbtBuild (versions : List CustomerVersion) (stops : Bool) (outcome : Outcome)
  | icebergBatch (outcome : Outcome)
  | acknowledge (order : OrderRow)
  | flushed
  | advance (outcome : Outcome)
  | close
  | clear (index : Nat) (task : Task)

/-- The attempt of a running task of the active run. -/
def State.attempt (s : State) (task : Task) : Option (Run × Attempt) :=
  match s.run with
  | none => none
  | some run =>
    match run.state task with
    | .running attempt => some (run, attempt)
    | _ => none

/-- An attempt of a task ends. -/
def State.finish (s : State) (run : Run) (task : Task) (outcome : Outcome) : State :=
  { s with run := some (run.set task outcome.state) }

/-- An attempt of a sink ends. -/
def State.finishSink (s : State) (run : Run) (task : Task) (snapshot : Staging) (outcome : Outcome) :
    State :=
  let executions := if outcome = .succeeded then ⟨task, snapshot⟩ :: s.executions else s.executions
  { s with executions := executions, run := some (run.set task outcome.state) }

/-! ## The tasks -/

/-- `validate_run_config`. -/
def Mode.valid : Mode → Bool
  | .incremental => true
  | .backfill (some start) (some stop) => decide (start < stop)
  | .backfill _ _ => false

/-- `validate_record_count`. -/
def RecordCountValid (customers : List Uuid) (st : Staging) : Prop :=
  customers ≠ [] ∧ st.products.rows ≠ [] ∧ st.orders.rows ≠ [] ∧ st.order_items.rows ≠ [] ∧
    st.payments.rows ≠ []

instance (customers : List Uuid) (st : Staging) : Decidable (RecordCountValid customers st) :=
  inferInstanceAs (Decidable (_ ∧ _))

/-- `validate_relationships`. -/
structure RelationshipsValid (customers : List Uuid) (st : Staging) : Prop where
  orders_without_customer : ∀ o ∈ st.orders.rows, o.row.customer_id ∈ customers
  order_items_without_order : ∀ i ∈ st.order_items.rows, (st.orders.find? i.row.order_id).isSome
  order_items_without_product : ∀ i ∈ st.order_items.rows, (st.products.find? i.row.product_id).isSome
  payments_without_order : ∀ p ∈ st.payments.rows, (st.orders.find? p.row.order_id).isSome

instance (customers : List Uuid) (st : Staging) : Decidable (RelationshipsValid customers st) :=
  decidable_of_iff ((∀ o ∈ st.orders.rows, o.row.customer_id ∈ customers) ∧
      (∀ i ∈ st.order_items.rows, (st.orders.find? i.row.order_id).isSome) ∧
      (∀ i ∈ st.order_items.rows, (st.products.find? i.row.product_id).isSome) ∧
      ∀ p ∈ st.payments.rows, (st.orders.find? p.row.order_id).isSome)
    ⟨fun ⟨h₁, h₂, h₃, h₄⟩ => ⟨h₁, h₂, h₃, h₄⟩, fun ⟨h₁, h₂, h₃, h₄⟩ => ⟨h₁, h₂, h₃, h₄⟩⟩

/-- The bounds the producer reads: `(watermark_value, candidate_value]`, or those of the backfill. -/
def publishWindow (mode : Mode) (w : Watermark) : Option (Instant × Instant) :=
  match mode with
  | .incremental => w.candidate_value.map fun upper => (w.watermark_value, upper)
  | .backfill start stop => start.bind fun lower => stop.map fun upper => (lower, upper)

/-- The order versions of a window. -/
def publishRows (mode : Mode) (st : Staging) (lower upper : Instant) : List OrderRow :=
  (st.orders.rows.map Staged.row).filter (fun o => mode.inWindow lower upper o.updated_at)

/-- What an attempt reads when it starts; without bounds it can only crash. -/
def startAttempt (s : State) (mode : Mode) : Task → Attempt
  | .extract t =>
    match extractWindow mode t (s.source t) (s.watermarks t) with
    | some (lower, upper) => .extract lower upper
    | none => .plain
  | .run_dbt_transform => .sink s.staging
  | .run_iceberg_batch => .sink s.staging
  | .publish_order_events =>
    match publishWindow mode (s.watermarks .orders) with
    | some (lower, upper) => .publish s.staging (publishRows mode s.staging lower upper)
    | none => .plain
  | _ => .plain

/-- `watermark_value = GREATEST(watermark_value, candidate_value), candidate_value = NULL`. -/
def promote (w : Watermark) : Watermark :=
  ⟨max w.watermark_value (w.candidate_value.getD w.watermark_value), none⟩

/-- No candidate of `PIPELINE_NAMES` is missing. -/
def CandidatesComplete (w : Watermarks) : Prop :=
  (w .products).candidate_value.isSome ∧ (w .orders).candidate_value.isSome ∧
    (w .order_items).candidate_value.isSome ∧ (w .payments).candidate_value.isSome

instance (w : Watermarks) : Decidable (CandidatesComplete w) := inferInstanceAs (Decidable (_ ∧ _))

/-- What `advance_watermarks` leaves; a backfill leaves the watermarks alone. -/
def advanced (mode : Mode) (w : Watermarks) : Option Watermarks :=
  match mode with
  | .backfill _ _ => some w
  | .incremental => if CandidatesComplete w then some fun t => promote (w t) else none

section Step

-- `day` is the cast `::date` of the dbt session.
variable (day : Instant → Int)

/-- One action. -/
def step (s : State) : Action → Option State
  | .changeSource t table => some { s with source := Function.update s.source t table }
  | .changeCustomers ids => some { s with customers := ids }
  | .trigger mode =>
    if s.run.isNone then
      some { s with run := some (Run.fresh s.triggered mode s.clock), triggered := s.triggered + 1 }
    else none
  | .start task =>
    match s.run with
    | none => none
    | some run =>
      if (run.state task).isIdle ∧ run.ready task then
        some { s with run := some (run.set task (.running (startAttempt s run.mode task))) }
      else none
  | .crash task outcome =>
    match s.attempt task with
    | none => none
    | some (run, _) => if outcome = .succeeded then none else some (s.finish run task outcome)
  | .validateRunConfig =>
    match s.attempt .validate_run_config with
    | none => none
    | some (run, _) => if run.mode.valid then some (s.finish run .validate_run_config .succeeded) else none
  | .upsert t now outcome =>
    match s.attempt (.extract t) with
    | some (run, .extract lower upper) =>
      -- `CURRENT_TIMESTAMP` is later than every load before the run
      if run.since < now then
        let batch := extracted run.mode t (s.source t) lower upper
        let w := raiseCandidate run.mode upper (s.watermarks t)
        some ({ s with
          staging := loadTable s.staging now t batch
          watermarks := Function.update s.watermarks t w
          clock := max s.clock now }.finish run (.extract t) outcome)
      else none
    | _ => none
  | .validateRecordCount =>
    match s.attempt .validate_record_count with
    | none => none
    | some (run, _) =>
      if RecordCountValid s.customers s.staging then
        some (s.finish run .validate_record_count .succeeded)
      else none
  | .validateRelationships =>
    match s.attempt .validate_relationships with
    | none => none
    | some (run, _) =>
      if RelationshipsValid s.customers s.staging then
        some (s.finish run .validate_relationships .succeeded)
      else none
  | .dbtBuild versions stops outcome =>
    match s.attempt .run_dbt_transform, s.staging.intSalesOrderItems with
    | some (run, .sink snapshot), some view =>
      let build : Build := ⟨versions, view, stops⟩
      -- the tests that are not modelled only make more builds fail
      if outcome = .succeeded → completes day s.marts build then
        some ({ s with marts := next day s.marts build }.finishSink run .run_dbt_transform snapshot
          outcome)
      else none
    | _, _ => none
  | .icebergBatch outcome =>
    match s.attempt .run_iceberg_batch, runJob s.staging s.iceberg with
    | some (run, .sink snapshot), some table =>
      if outcome = .succeeded → TableValid table then
        some ({ s with iceberg := table }.finishSink run .run_iceberg_batch snapshot outcome)
      else none
    | _, _ => none
  | .acknowledge order =>
    match s.attempt .publish_order_events with
    | some (run, .publish snapshot pending) =>
      if order ∈ pending then
        some { s with
          acked := order :: s.acked
          run := some (run.set .publish_order_events
            (.running (.publish snapshot (pending.erase order)))) }
      else none
    | _ => none
  | .flushed =>
    match s.attempt .publish_order_events with
    | some (run, .publish snapshot []) =>
      some (s.finishSink run .publish_order_events snapshot .succeeded)
    | _ => none
  | .advance outcome =>
    match s.attempt .advance_watermarks with
    | none => none
    | some (run, _) =>
      match advanced run.mode s.watermarks with
      | none => none
      | some w => some ({ s with watermarks := w }.finish run .advance_watermarks outcome)
  | .close =>
    match s.run with
    | none => none
    | some run =>
      if run.ended then
        let failed := if (run.state .advance_watermarks).isSucceeded then s.failed else run :: s.failed
        some { s with run := none, failed := failed }
      else none
  | .clear index task =>
    match s.run, s.failed[index]? with
    | none, some run =>
      if (run.state task).isFailed then
        some { s with run := some (run.clear task), failed := s.failed.eraseIdx index }
      else none
    | _, _ => none

/-- One action as a relation. -/
inductive Move (s : State) : Action → State → Prop
  | changeSource (t : TableName) (table : Table (Row t) (key t)) :
    Move s (.changeSource t table) { s with source := Function.update s.source t table }
  | changeCustomers (ids : List Uuid) : Move s (.changeCustomers ids) { s with customers := ids }
  | trigger (mode : Mode) (h : s.run = none) : Move s (.trigger mode)
      { s with run := some (Run.fresh s.triggered mode s.clock), triggered := s.triggered + 1 }
  | start {run : Run} {task : Task} (hrun : s.run = some run) (hidle : run.state task = .idle)
      (hready : run.ready task = true) : Move s (.start task)
      { s with run := some (run.set task (.running (startAttempt s run.mode task))) }
  | crash {run : Run} {task : Task} {attempt : Attempt} {outcome : Outcome} (hrun : s.run = some run)
      (hstate : run.state task = .running attempt) (hout : outcome ≠ .succeeded) :
      Move s (.crash task outcome) (s.finish run task outcome)
  | validateRunConfig {run : Run} {attempt : Attempt} (hrun : s.run = some run)
      (hstate : run.state .validate_run_config = .running attempt) (hvalid : run.mode.valid = true) :
      Move s .validateRunConfig (s.finish run .validate_run_config .succeeded)
  | upsert {run : Run} {t : TableName} {lower upper now : Instant} {outcome : Outcome}
      (hrun : s.run = some run) (hstate : run.state (.extract t) = .running (.extract lower upper))
      (hnow : run.since < now) :
      Move s (.upsert t now outcome) ({ s with
        staging := loadTable s.staging now t (extracted run.mode t (s.source t) lower upper)
        watermarks := Function.update s.watermarks t (raiseCandidate run.mode upper (s.watermarks t))
        clock := max s.clock now }.finish run (.extract t) outcome)
  | validateRecordCount {run : Run} {attempt : Attempt} (hrun : s.run = some run)
      (hstate : run.state .validate_record_count = .running attempt)
      (hvalid : RecordCountValid s.customers s.staging) :
      Move s .validateRecordCount (s.finish run .validate_record_count .succeeded)
  | validateRelationships {run : Run} {attempt : Attempt} (hrun : s.run = some run)
      (hstate : run.state .validate_relationships = .running attempt)
      (hvalid : RelationshipsValid s.customers s.staging) :
      Move s .validateRelationships (s.finish run .validate_relationships .succeeded)
  | dbtBuild {run : Run} {snapshot : Staging} {view : List SalesItem} {versions : List CustomerVersion}
      {stops : Bool} {outcome : Outcome} (hrun : s.run = some run)
      (hstate : run.state .run_dbt_transform = .running (.sink snapshot))
      (hview : s.staging.intSalesOrderItems = some view)
      (hout : outcome = .succeeded → completes day s.marts ⟨versions, view, stops⟩ = true) :
      Move s (.dbtBuild versions stops outcome)
        ({ s with marts := next day s.marts ⟨versions, view, stops⟩ }.finishSink run
          .run_dbt_transform snapshot outcome)
  | icebergBatch {run : Run} {snapshot : Staging} {table : List IcebergRow} {outcome : Outcome}
      (hrun : s.run = some run) (hstate : run.state .run_iceberg_batch = .running (.sink snapshot))
      (hjob : runJob s.staging s.iceberg = some table) (hout : outcome = .succeeded → TableValid table) :
      Move s (.icebergBatch outcome)
        ({ s with iceberg := table }.finishSink run .run_iceberg_batch snapshot outcome)
  | acknowledge {run : Run} {snapshot : Staging} {pending : List OrderRow} {order : OrderRow}
      (hrun : s.run = some run)
      (hstate : run.state .publish_order_events = .running (.publish snapshot pending))
      (hmem : order ∈ pending) :
      Move s (.acknowledge order) { s with
        acked := order :: s.acked
        run := some (run.set .publish_order_events
          (.running (.publish snapshot (pending.erase order)))) }
  | flushed {run : Run} {snapshot : Staging} (hrun : s.run = some run)
      (hstate : run.state .publish_order_events = .running (.publish snapshot [])) :
      Move s .flushed (s.finishSink run .publish_order_events snapshot .succeeded)
  | advance {run : Run} {attempt : Attempt} {w : Watermarks} {outcome : Outcome}
      (hrun : s.run = some run) (hstate : run.state .advance_watermarks = .running attempt)
      (hw : advanced run.mode s.watermarks = some w) :
      Move s (.advance outcome) ({ s with watermarks := w }.finish run .advance_watermarks outcome)
  | close {run : Run} (hrun : s.run = some run) (hended : run.ended = true) :
      Move s .close { s with
        run := none
        failed := if (run.state .advance_watermarks).isSucceeded then s.failed else run :: s.failed }
  | clear {run : Run} {index : Nat} {task : Task} (hrun : s.run = none)
      (hindex : s.failed[index]? = some run) (hstate : run.state task = .failed) :
      Move s (.clear index task)
        { s with run := some (run.clear task), failed := s.failed.eraseIdx index }

end Step

section Inversion

variable {day : Instant → Int} {s s' : State} {action : Action} {run : Run} {task : Task}

theorem TaskState.isIdle_eq {state : TaskState} : state.isIdle = true ↔ state = .idle := by
  cases state <;> simp [TaskState.isIdle]

theorem TaskState.isFailed_eq {state : TaskState} : state.isFailed = true ↔ state = .failed := by
  cases state <;> simp [TaskState.isFailed]

theorem TaskState.isSucceeded_eq {state : TaskState} : state.isSucceeded = true ↔ state = .succeeded := by
  cases state <;> simp [TaskState.isSucceeded]

theorem attempt_eq_some {attempt : Attempt} (h : s.attempt task = some (run, attempt)) :
    s.run = some run ∧ run.state task = .running attempt := by
  unfold State.attempt at h
  split at h
  · cases h
  · rename_i run' hrun
    split at h
    · rename_i attempt' hstate
      cases h
      exact ⟨hrun, hstate⟩
    · cases h

theorem attempt_of_running {attempt : Attempt} (hrun : s.run = some run)
    (hstate : run.state task = .running attempt) : s.attempt task = some (run, attempt) := by
  unfold State.attempt
  rw [hrun]
  dsimp only
  rw [hstate]

/-- An incremental run promotes every candidate, once there is one of each table. -/
theorem advanced_incremental {w w' : Watermarks} :
    advanced .incremental w = some w' ↔ CandidatesComplete w ∧ w' = fun t => promote (w t) := by
  unfold advanced
  dsimp only
  by_cases hcomplete : CandidatesComplete w
  · simp [hcomplete, eq_comm]
  · simp [hcomplete]

/-- **A step is one of the moves.** -/
theorem move_of_step (h : step day s action = some s') : Move day s action s' := by
  cases action with
  | changeSource t table =>
    cases h
    exact Move.changeSource t table
  | changeCustomers ids =>
    cases h
    exact Move.changeCustomers ids
  | trigger mode =>
    unfold step at h
    dsimp only at h
    split at h
    · rename_i hnone
      cases h
      exact Move.trigger mode (Option.isNone_iff_eq_none.mp hnone)
    · cases h
  | start task =>
    unfold step at h
    dsimp only at h
    split at h
    · cases h
    · rename_i run hrun
      split at h
      · rename_i hgo
        cases h
        exact Move.start hrun (TaskState.isIdle_eq.mp hgo.1) hgo.2
      · cases h
  | crash task outcome =>
    unfold step at h
    dsimp only at h
    split at h
    · cases h
    · rename_i run attempt hatt
      split at h
      · cases h
      · rename_i hout
        cases h
        obtain ⟨hrun, hstate⟩ := attempt_eq_some hatt
        exact Move.crash hrun hstate hout
  | validateRunConfig =>
    unfold step at h
    dsimp only at h
    split at h
    · cases h
    · rename_i run attempt hatt
      split at h
      · rename_i hvalid
        cases h
        obtain ⟨hrun, hstate⟩ := attempt_eq_some hatt
        exact Move.validateRunConfig hrun hstate hvalid
      · cases h
  | upsert t now outcome =>
    unfold step at h
    dsimp only at h
    split at h
    · rename_i run lower upper hatt
      split at h
      · rename_i hnow
        cases h
        obtain ⟨hrun, hstate⟩ := attempt_eq_some hatt
        exact Move.upsert hrun hstate hnow
      · cases h
    · cases h
  | validateRecordCount =>
    unfold step at h
    dsimp only at h
    split at h
    · cases h
    · rename_i run attempt hatt
      split at h
      · rename_i hvalid
        cases h
        obtain ⟨hrun, hstate⟩ := attempt_eq_some hatt
        exact Move.validateRecordCount hrun hstate hvalid
      · cases h
  | validateRelationships =>
    unfold step at h
    dsimp only at h
    split at h
    · cases h
    · rename_i run attempt hatt
      split at h
      · rename_i hvalid
        cases h
        obtain ⟨hrun, hstate⟩ := attempt_eq_some hatt
        exact Move.validateRelationships hrun hstate hvalid
      · cases h
  | dbtBuild versions stops outcome =>
    unfold step at h
    dsimp only at h
    split at h
    · rename_i run snapshot view hatt hview
      split at h
      · rename_i hout
        cases h
        obtain ⟨hrun, hstate⟩ := attempt_eq_some hatt
        exact Move.dbtBuild hrun hstate hview hout
      · cases h
    · cases h
  | icebergBatch outcome =>
    unfold step at h
    dsimp only at h
    split at h
    · rename_i run snapshot table hatt hjob
      split at h
      · rename_i hout
        cases h
        obtain ⟨hrun, hstate⟩ := attempt_eq_some hatt
        exact Move.icebergBatch hrun hstate hjob hout
      · cases h
    · cases h
  | acknowledge order =>
    unfold step at h
    dsimp only at h
    split at h
    · rename_i run snapshot pending hatt
      split at h
      · rename_i hmem
        cases h
        obtain ⟨hrun, hstate⟩ := attempt_eq_some hatt
        exact Move.acknowledge hrun hstate hmem
      · cases h
    · cases h
  | flushed =>
    unfold step at h
    dsimp only at h
    split at h
    · rename_i run snapshot hatt
      cases h
      obtain ⟨hrun, hstate⟩ := attempt_eq_some hatt
      exact Move.flushed hrun hstate
    · cases h
  | advance outcome =>
    unfold step at h
    dsimp only at h
    split at h
    · cases h
    · rename_i run attempt hatt
      split at h
      · cases h
      · rename_i w hw
        cases h
        obtain ⟨hrun, hstate⟩ := attempt_eq_some hatt
        exact Move.advance hrun hstate hw
  | close =>
    unfold step at h
    dsimp only at h
    split at h
    · cases h
    · rename_i run hrun
      split at h
      · rename_i hended
        cases h
        exact Move.close hrun hended
      · cases h
  | clear index task =>
    unfold step at h
    dsimp only at h
    split at h
    · rename_i run hrun hindex
      split at h
      · rename_i hstate
        cases h
        exact Move.clear hrun hindex (TaskState.isFailed_eq.mp hstate)
      · cases h
    · cases h

end Inversion

/-! ## The order of the tasks -/

/-- A task that is not idle has everything of the earlier layers behind it. -/
def Run.Layered (run : Run) : Prop :=
  ∀ task u, run.state task ≠ .idle → u.layer < task.layer → run.state u = .succeeded

/-- No task of the run is running. -/
def Run.Quiet (run : Run) : Prop := ∀ task attempt, run.state task ≠ .running attempt

section Layers

variable {run : Run} {task u : Task} {state : TaskState} {attempt : Attempt}

@[simp] theorem Run.set_state_self : (run.set task state).state task = state := by
  simp [Run.set]

theorem Run.set_state_of_ne (h : u ≠ task) : (run.set task state).state u = run.state u := by
  simp [Run.set, Function.update_of_ne h]

/-- What has not succeeded keeps the later layers idle. -/
theorem Run.Layered.later_idle (h : run.Layered) (hnot : run.state u ≠ .succeeded)
    (hlt : u.layer < task.layer) : run.state task = .idle :=
  by_contra fun hidle => hnot (h task u hidle hlt)

/-- A task with the earlier layers behind it may change state as long as the later ones are idle. -/
theorem Run.Layered.set (h : run.Layered)
    (hearlier : ∀ u : Task, u.layer < task.layer → run.state u = .succeeded)
    (hlater : ∀ u : Task, task.layer < u.layer → run.state u = .idle) :
    (run.set task state).Layered := by
  intro v u hv hlt
  have hne : u ≠ v := fun he => absurd (he ▸ hlt) (lt_irrefl _)
  by_cases hu : u = task
  · subst hu
    rw [Run.set_state_of_ne hne.symm] at hv
    exact absurd (hlater v hlt) hv
  · rw [Run.set_state_of_ne hu]
    by_cases htask : v = task
    · subst htask
      exact hearlier u hlt
    · rw [Run.set_state_of_ne htask] at hv
      exact h v u hv hlt

/-- A running task may end in any way. -/
theorem Run.Layered.set_running (h : run.Layered) (hrunning : run.state task = .running attempt) :
    (run.set task state).Layered := by
  refine h.set (fun u hlt => h task u ?_ hlt) fun u hlt => h.later_idle ?_ hlt
  · rw [hrunning]
    exact fun he => by cases he
  · rw [hrunning]
    exact fun he => by cases he

theorem Task.exists_layer {n : Nat} (hn : n < 6) : ∃ u : Task, u.layer = n := by
  obtain rfl | rfl | rfl | rfl | rfl | rfl : n = 0 ∨ n = 1 ∨ n = 2 ∨ n = 3 ∨ n = 4 ∨ n = 5 := by omega
  · exact ⟨.validate_run_config, rfl⟩
  · exact ⟨.extract .orders, rfl⟩
  · exact ⟨.validate_record_count, rfl⟩
  · exact ⟨.validate_relationships, rfl⟩
  · exact ⟨.run_dbt_transform, rfl⟩
  · exact ⟨.advance_watermarks, rfl⟩

theorem Task.layer_lt (task : Task) : task.layer < 6 := by
  cases task <;> simp [Task.layer]

/-- A ready task has all earlier layers behind it, not the next one only. -/
theorem Run.Layered.earlier_of_ready (h : run.Layered) (hready : run.ready task = true)
    (hlt : u.layer < task.layer) : run.state u = .succeeded := by
  have hdirect : ∀ v : Task, v.layer + 1 = task.layer → run.state v = .succeeded := by
    intro v hv
    have hall := List.all_eq_true.mp hready v (Task.mem_all v)
    rw [decide_eq_true hv] at hall
    exact TaskState.isSucceeded_eq.mp hall
  by_cases hu : u.layer + 1 = task.layer
  · exact hdirect u hu
  · obtain ⟨v, hv⟩ := Task.exists_layer (n := task.layer - 1) (by have := task.layer_lt; omega)
    have hv' : run.state v = .succeeded := hdirect v (by omega)
    refine h v u ?_ (by omega)
    rw [hv']
    exact fun he => by cases he

/-- A ready task may start. -/
theorem Run.Layered.set_ready (h : run.Layered) (hidle : run.state task = .idle)
    (hready : run.ready task = true) : (run.set task state).Layered := by
  refine h.set (fun u hlt => h.earlier_of_ready hready hlt) fun u hlt => h.later_idle ?_ hlt
  rw [hidle]
  exact fun he => by cases he

theorem Run.Layered.fresh {id : Nat} {mode : Mode} {since : Instant} :
    (Run.fresh id mode since).Layered :=
  fun _ _ h _ => absurd rfl h

theorem Run.clear_state (h : u ≠ task) (hle : u.layer ≤ task.layer) :
    (run.clear task).state u = run.state u :=
  if_neg (not_or.mpr ⟨h, not_lt.mpr hle⟩)

theorem Run.clear_idle (h : (run.clear task).state u ≠ .idle) : u ≠ task ∧ u.layer ≤ task.layer := by
  unfold Run.clear at h
  dsimp only at h
  split at h
  · exact absurd rfl h
  · rename_i hkept
    obtain ⟨hne, hle⟩ := not_or.mp hkept
    exact ⟨hne, not_lt.mp hle⟩

/-- Clearing a failed task with its downstream keeps the order. -/
theorem Run.Layered.clear (h : run.Layered) (hfailed : run.state task = .failed) :
    (run.clear task).Layered := by
  intro v u hv hlt
  obtain ⟨hne, hle⟩ := Run.clear_idle hv
  have hlt' : u.layer < task.layer := hlt.trans_le hle
  have hu : u ≠ task := fun he => absurd (he ▸ hlt') (lt_irrefl _)
  rw [Run.clear_state hu hlt'.le]
  refine h task u ?_ hlt'
  rw [hfailed]
  exact fun he => by cases he

theorem Run.Quiet.of_ended (h : run.ended = true) : run.Quiet := by
  intro task attempt hstate
  have hall := List.all_eq_true.mp h task (Task.mem_all task)
  rw [hstate] at hall
  cases hall

theorem Run.Quiet.clear (h : run.Quiet) : (run.clear task).Quiet := by
  intro u attempt hstate
  unfold Run.clear at hstate
  dsimp only at hstate
  split at hstate
  · cases hstate
  · exact h u attempt hstate

end Layers

section Reaches

variable (day : Instant → Int)

/-- The states reached by steps that each meet a condition. -/
inductive Reaches (ok : State → Action → State → Prop) : State → Prop
  | initial : Reaches ok State.initial
  | step {s s' : State} {action : Action} (h : Reaches ok s) (hstep : step day s action = some s')
      (hok : ok s action s') : Reaches ok s'

variable {day} {ok : State → Action → State → Prop} {s s' : State} {action : Action}

/-- Every run is layered, and the failed ones are quiet. -/
structure LayeredRuns (s : State) : Prop where
  active : ∀ run, s.run = some run → run.Layered
  failed : ∀ run ∈ s.failed, run.Layered ∧ run.Quiet

/-- A step that changes one task of the active run. -/
theorem LayeredRuns.set {run : Run} {task : Task} {state : TaskState} (h : LayeredRuns s)
    (hrun : s'.run = some (run.set task state)) (hfailed : s'.failed = s.failed)
    (hset : (run.set task state).Layered) : LayeredRuns s' := by
  refine ⟨fun r hr => ?_, fun r hr => h.failed r (hfailed ▸ hr)⟩
  rw [hrun] at hr
  cases hr
  exact hset

theorem LayeredRuns.move (h : LayeredRuns s) (hmove : Move day s action s') : LayeredRuns s' := by
  cases hmove with
  | changeSource t table => exact ⟨h.active, h.failed⟩
  | changeCustomers ids => exact ⟨h.active, h.failed⟩
  | trigger mode _ => exact ⟨fun r hr => Option.some.inj hr ▸ Run.Layered.fresh, h.failed⟩
  | start hrun hidle hready => exact h.set rfl rfl ((h.active _ hrun).set_ready hidle hready)
  | crash hrun hstate _ => exact h.set rfl rfl ((h.active _ hrun).set_running hstate)
  | validateRunConfig hrun hstate _ => exact h.set rfl rfl ((h.active _ hrun).set_running hstate)
  | upsert hrun hstate _ => exact h.set rfl rfl ((h.active _ hrun).set_running hstate)
  | validateRecordCount hrun hstate _ => exact h.set rfl rfl ((h.active _ hrun).set_running hstate)
  | validateRelationships hrun hstate _ => exact h.set rfl rfl ((h.active _ hrun).set_running hstate)
  | dbtBuild hrun hstate _ _ => exact h.set rfl rfl ((h.active _ hrun).set_running hstate)
  | icebergBatch hrun hstate _ _ => exact h.set rfl rfl ((h.active _ hrun).set_running hstate)
  | acknowledge hrun hstate _ => exact h.set rfl rfl ((h.active _ hrun).set_running hstate)
  | flushed hrun hstate => exact h.set rfl rfl ((h.active _ hrun).set_running hstate)
  | advance hrun hstate _ => exact h.set rfl rfl ((h.active _ hrun).set_running hstate)
  | @close run hrun hended =>
    refine ⟨nofun, fun r hr => ?_⟩
    dsimp only at hr
    split at hr
    · exact h.failed r hr
    · rcases List.mem_cons.mp hr with rfl | hr
      · exact ⟨h.active r hrun, Run.Quiet.of_ended hended⟩
      · exact h.failed r hr
  | @clear run index task hrun hindex hstate =>
    have hmem : run ∈ s.failed := List.mem_of_getElem? hindex
    refine ⟨fun r hr => ?_, fun r hr => h.failed r (List.mem_of_mem_eraseIdx hr)⟩
    cases hr
    exact (h.failed run hmem).1.clear hstate

/-- **Every run is layered.** -/
theorem Reaches.layered (h : Reaches day ok s) : LayeredRuns s := by
  induction h with
  | initial => exact ⟨nofun, nofun⟩
  | step _ hstep _ ih => exact ih.move (move_of_step hstep)

/-- The ids of the active run and of the failed ones. -/
def State.runIds (s : State) : List Nat := (s.run.toList ++ s.failed).map Run.id

/-- Every run has its own id, given out by `triggered`. -/
structure RunIds (s : State) : Prop where
  nodup : s.runIds.Nodup
  lt : ∀ i ∈ s.runIds, i < s.triggered

theorem RunIds.sublist (h : RunIds s) (hsub : s'.runIds.Sublist s.runIds)
    (htriggered : s'.triggered = s.triggered) : RunIds s' :=
  ⟨h.nodup.sublist hsub, fun i hi => htriggered ▸ h.lt i (hsub.subset hi)⟩

/-- The active run goes on under its id. -/
theorem RunIds.set {run : Run} {task : Task} {state : TaskState} (h : RunIds s)
    (hrun : s.run = some run) (hrun' : s'.run = some (run.set task state)) (hfailed : s'.failed = s.failed)
    (htriggered : s'.triggered = s.triggered) : RunIds s' := by
  refine h.sublist ?_ htriggered
  unfold State.runIds
  rw [hrun, hrun', hfailed]
  exact List.Sublist.refl _

theorem RunIds.move (h : RunIds s) (hmove : Move day s action s') : RunIds s' := by
  cases hmove with
  | changeSource t table => exact ⟨h.nodup, h.lt⟩
  | changeCustomers ids => exact ⟨h.nodup, h.lt⟩
  | trigger mode hnone =>
    have hids : s.runIds = s.failed.map Run.id := by
      unfold State.runIds
      rw [hnone]
      rfl
    refine ⟨List.nodup_cons.mpr ⟨fun hmem => ?_, hids ▸ h.nodup⟩, fun i hi => ?_⟩
    · exact absurd (h.lt _ (hids ▸ hmem)) (lt_irrefl _)
    · rcases List.mem_cons.mp hi with rfl | hi
      · exact Nat.lt_succ_self _
      · exact Nat.lt_succ_of_lt (h.lt i (hids ▸ hi))
  | start hrun _ _ => exact h.set hrun rfl rfl rfl
  | crash hrun _ _ => exact h.set hrun rfl rfl rfl
  | validateRunConfig hrun _ _ => exact h.set hrun rfl rfl rfl
  | upsert hrun _ _ => exact h.set hrun rfl rfl rfl
  | validateRecordCount hrun _ _ => exact h.set hrun rfl rfl rfl
  | validateRelationships hrun _ _ => exact h.set hrun rfl rfl rfl
  | dbtBuild hrun _ _ _ => exact h.set hrun rfl rfl rfl
  | icebergBatch hrun _ _ _ => exact h.set hrun rfl rfl rfl
  | acknowledge hrun _ _ => exact h.set hrun rfl rfl rfl
  | flushed hrun _ => exact h.set hrun rfl rfl rfl
  | advance hrun _ _ => exact h.set hrun rfl rfl rfl
  | @close run hrun _ =>
    refine h.sublist ?_ rfl
    unfold State.runIds
    rw [hrun]
    dsimp only
    split
    · exact List.sublist_cons_self _ _
    · exact List.Sublist.refl _
  | @clear run index task hnone hindex _ =>
    obtain ⟨hlt, hget⟩ := List.getElem?_eq_some_iff.mp hindex
    have hperm : (run.clear task :: s.failed.eraseIdx index).map Run.id |>.Perm s.runIds := by
      have hfailed := (List.getElem_cons_eraseIdx_perm hlt).map Run.id
      rw [hget] at hfailed
      unfold State.runIds
      rw [hnone]
      exact hfailed
    exact ⟨hperm.nodup_iff.mpr h.nodup, fun i hi => h.lt i (hperm.subset hi)⟩

/-- **Runs keep their ids apart.** -/
theorem Reaches.runIds (h : Reaches day ok s) : RunIds s := by
  induction h with
  | initial => exact ⟨List.nodup_nil, nofun⟩
  | step _ hstep _ ih => exact ih.move (move_of_step hstep)

/-- Actions one after another. -/
theorem reaches_of_actions : ∀ {actions : List Action} {s s' : State},
    (∀ a ∈ actions, ∀ s s', step day s a = some s' → ok s a s') → Reaches day ok s →
      actions.foldlM (step day) s = some s' → Reaches day ok s'
  | [], _, _, _, h, hrun => Option.some.inj hrun ▸ h
  | action :: actions, s, s', hok, h, hrun => by
    rw [List.foldlM_cons] at hrun
    obtain ⟨s₁, hstep, hrun⟩ := Option.bind_eq_some_iff.mp hrun
    have hok₁ := hok action List.mem_cons_self s s₁ hstep
    exact reaches_of_actions (fun a ha => hok a (List.mem_cons_of_mem _ ha)) (h.step hstep hok₁) hrun

end Reaches

/-! ## A source with one row in each table -/

section Sample

/-- One order of customer 7, as updated at `updated_at`. -/
def sampleOrder (updated_at : Instant) (status : String) : OrderRow :=
  ⟨1, 7, 10, status, 2000, 10, updated_at⟩

def tableOf {ρ : Type} {key : ρ → Uuid} (r : ρ) : Table ρ key := Table.empty.put r

/-- The source with one product, one order, one item and one payment. -/
def loadSource : List Action :=
  [.changeCustomers [7],
    .changeSource .products (tableOf ⟨5, "Laptop", "Electronics", 2000, 10, 10⟩),
    .changeSource .orders (tableOf (sampleOrder 100 "pending")),
    .changeSource .order_items (tableOf ⟨1, 1, 5, 1, 2000, 10, 10⟩),
    .changeSource .payments (tableOf ⟨1, 1, 2000, "cash", "pending", none, 10, 10⟩)]

def beginRun : List Action :=
  [.trigger .incremental, .start .validate_run_config, .validateRunConfig]

def extractTable (t : TableName) (now : Instant) : List Action :=
  [.start (.extract t), .upsert t now .succeeded]

def validateStaging : List Action :=
  [.start .validate_record_count, .validateRecordCount,
    .start .validate_relationships, .validateRelationships]

/-- The extracts and the validations of a run, loaded at time 1. -/
def stagedRun : List Action :=
  beginRun ++ extractTable .products 1 ++ extractTable .orders 1 ++ extractTable .order_items 1 ++
    extractTable .payments 1 ++ validateStaging

def publishSample : List Action :=
  [.start .publish_order_events, .acknowledge (sampleOrder 100 "pending"), .flushed]

def transform : List Action :=
  [.start .run_dbt_transform, .dbtBuild [⟨"v", 7, 0, none⟩] false .succeeded]

def lakehouse : List Action := [.start .run_iceberg_batch, .icebergBatch .succeeded]

end Sample

end LocalDataPlatform.Pipeline

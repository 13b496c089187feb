import LocalDataPlatform.Gateway.IcebergTable
import LocalDataPlatform.Stream.Replay

/-!
# The validation of the lakehouse

`validate_platform` counts the rows and the keys of the Iceberg tables, one query after another, while
the gateway and the order stream go on.

* `tableMetrics`, `validate` — the counts of a table, and the job.
* `Lakehouse`, `Lakehouse.step` — the lab, the tables of the stream, and which tables exist; maintenance
  may rewrite the files of a table while its job runs.
* `Grained` — what every step keeps.

Principal results: `tableMetrics_eq_iff` (when the two counts agree), `validate_ok_iff` (when the job
succeeds), `lakehouse_validates` (over every interleaving it succeeds as soon as the tables exist).
-/

set_option autoImplicit false

namespace LocalDataPlatform.Gateway

open Relational Sales.Jobs

/-! ## The job -/

/-- `table_metrics`. -/
structure TableMetrics where
  row_count : Nat
  distinct_key_count : Nat
  deriving DecidableEq, Repr

/-- `COUNT(*)` and `COUNT(DISTINCT key)` over the key column; the second one skips NULL. -/
def tableMetrics {κ : Type} [DecidableEq κ] (keys : List (Option κ)) : TableMetrics :=
  ⟨keys.length, keys.reduceOption.dedup.length⟩

/-- The tables and their keys. -/
def TABLE_KEYS : List (String × String) :=
  [("fact_sales", "order_item_id"), ("order_events", "event_id"), ("current_orders", "order_id")]

def DEAD_LETTERS : String := "dead_letter_events"

/-- Why the job fails: a table does not exist, or has not one row for each key. -/
inductive ValidationError
  | not_found (table_name : String)
  | grain (table_name key_name : String) (table_metrics : TableMetrics)
  deriving DecidableEq, Repr

/-- The text of the `ValueError`; a table that does not exist fails in Spark. -/
def ValidationError.text : ValidationError → Option String
  | .not_found _ => none
  | .grain table_name key_name m =>
    some (table_name ++ " violates its declared " ++ key_name ++ " grain: \x7b'row_count': " ++
      toString m.row_count ++ ", 'distinct_key_count': " ++ toString m.distinct_key_count ++ "\x7d")

/-- What a query finds: the counts of a table and a key column, or the count of the rows. -/
structure Catalog where
  metrics : String → String → Option TableMetrics
  row_count : String → Option Nat

/-- The query of one table, and the check of its counts. -/
def checkTable (catalog : Catalog) (table : String × String) : Except ValidationError (String × TableMetrics) :=
  match catalog.metrics table.1 table.2 with
  | none => .error (.not_found table.1)
  | some m => if m.row_count ≠ m.distinct_key_count then .error (.grain table.1 table.2 m) else .ok (table.1, m)

/-- The loop over `TABLE_KEYS`; the query of a table sees the catalog as it is then. -/
def checkTables (catalogs : Nat → Catalog) :
    Nat → List (String × String) → Except ValidationError (List (String × TableMetrics))
  | _, [] => .ok []
  | i, table :: tables => do
    let m ← checkTable (catalogs i) table
    let rest ← checkTables catalogs (i + 1) tables
    return m :: rest

/-- `main`: the metrics that are printed. -/
def validate (catalogs : Nat → Catalog) : Except ValidationError (List (String × TableMetrics) × Nat) := do
  let metrics ← checkTables catalogs 0 TABLE_KEYS
  match (catalogs TABLE_KEYS.length).row_count DEAD_LETTERS with
  | none => .error (.not_found DEAD_LETTERS)
  | some row_count => return (metrics, row_count)

section Validate

variable {κ : Type} [DecidableEq κ]

omit [DecidableEq κ] in
theorem map_some_reduceOption {keys : List (Option κ)} (h : none ∉ keys) : keys.reduceOption.map some = keys := by
  induction keys with
  | nil => rfl
  | cons key keys ih =>
    obtain ⟨hkey, hkeys⟩ := not_or.mp (mt List.mem_cons.mpr h)
    cases key with
    | none => exact absurd rfl hkey
    | some key => rw [List.reduceOption_cons_of_some, List.map_cons, ih hkeys]

/-- **The counts agree** when the column holds no NULL and no key twice. -/
theorem tableMetrics_eq_iff {keys : List (Option κ)} :
    (tableMetrics keys).row_count = (tableMetrics keys).distinct_key_count ↔ none ∉ keys ∧ keys.Nodup := by
  unfold tableMetrics
  dsimp only
  have hdedup : keys.reduceOption.dedup.length ≤ keys.reduceOption.length :=
    (List.dedup_sublist _).length_le
  have hreduce : keys.reduceOption.length ≤ keys.length := List.reduceOption_length_le keys
  constructor
  · intro h
    have hlength : keys.reduceOption.length = keys.length := le_antisymm hreduce (h ▸ hdedup)
    have hsome : none ∉ keys := fun hnone => by
      have hall := List.reduceOption_length_eq_iff.mp hlength none hnone
      cases hall
    have hnodup : keys.reduceOption.Nodup := by
      rw [← List.dedup_eq_self]
      exact (List.dedup_sublist _).eq_of_length (h.symm.trans hlength.symm)
    refine ⟨hsome, ?_⟩
    rw [← map_some_reduceOption hsome]
    exact hnodup.map (Option.some_injective κ)
  · rintro ⟨hsome, hnodup⟩
    rw [← map_some_reduceOption hsome] at hnodup
    rw [(hnodup.of_map some).dedup]
    conv_lhs => rw [← map_some_reduceOption hsome]
    exact List.length_map some

/-- A column of keys that are not null. -/
theorem tableMetrics_of_unique {ρ : Type} {key : ρ → κ} {rows : List ρ} (h : UniqueOn key rows) :
    (tableMetrics (rows.map fun r => some (key r))).row_count =
      (tableMetrics (rows.map fun r => some (key r))).distinct_key_count := by
  refine tableMetrics_eq_iff.mpr ⟨fun hnone => ?_, ?_⟩
  · obtain ⟨r, -, hr⟩ := List.mem_map.mp hnone
    cases hr
  · rw [← Function.comp_def some key, ← List.map_map]
    exact List.Nodup.map (Option.some_injective κ) h

/-- The counts of a table pass. -/
def Catalog.Passes (catalog : Catalog) (table : String × String) : Prop :=
  ∃ m, catalog.metrics table.1 table.2 = some m ∧ m.row_count = m.distinct_key_count

theorem checkTable_ok_iff {catalog : Catalog} {table : String × String} :
    (∃ result, checkTable catalog table = .ok result) ↔ catalog.Passes table := by
  unfold checkTable Catalog.Passes
  cases catalog.metrics table.1 table.2 with
  | none => exact iff_of_false nofun fun ⟨m, h, _⟩ => nomatch h
  | some m =>
    dsimp only
    split
    · rename_i hne
      exact iff_of_false nofun fun ⟨m', h, heq⟩ => hne (by cases h; exact heq)
    · rename_i heq
      exact iff_of_true ⟨_, rfl⟩ ⟨m, rfl, not_not.mp heq⟩

theorem checkTables_cons (catalogs : Nat → Catalog) (i : Nat) (table : String × String)
    (tables : List (String × String)) :
    checkTables catalogs i (table :: tables) = (do
      let m ← checkTable (catalogs i) table
      let rest ← checkTables catalogs (i + 1) tables
      return m :: rest) := rfl

/-- The loop ends well when every table passes at its turn. -/
theorem checkTables_ok_iff {catalogs : Nat → Catalog} {tables : List (String × String)} {i : Nat} :
    (∃ metrics, checkTables catalogs i tables = .ok metrics) ↔
      ∀ j table, tables[j]? = some table → (catalogs (i + j)).Passes table := by
  induction tables generalizing i with
  | nil => exact iff_of_true ⟨[], rfl⟩ nofun
  | cons table tables ih =>
    have hrest : (∀ j table', (table :: tables)[j]? = some table' → (catalogs (i + j)).Passes table') ↔
        (catalogs i).Passes table ∧ ∀ j table', tables[j]? = some table' → (catalogs (i + 1 + j)).Passes table' := by
      constructor
      · intro h
        refine ⟨h 0 table rfl, fun j table' hj => ?_⟩
        rw [Nat.add_assoc, Nat.add_comm 1 j]
        exact h (j + 1) table' hj
      · rintro ⟨hfirst, hrest⟩ j table' hj
        cases j with
        | zero =>
          cases hj
          exact hfirst
        | succ j =>
          rw [Nat.add_comm j 1, ← Nat.add_assoc]
          exact hrest j table' hj
    rw [hrest, ← ih, ← checkTable_ok_iff]
    rw [checkTables_cons]
    cases checkTable (catalogs i) table with
    | error e => exact iff_of_false nofun fun ⟨⟨_, h⟩, _⟩ => nomatch h
    | ok m =>
      cases checkTables catalogs (i + 1) tables with
      | error e => exact iff_of_false nofun fun ⟨_, ⟨_, h⟩⟩ => nomatch h
      | ok rest => exact iff_of_true ⟨_, rfl⟩ ⟨⟨_, rfl⟩, ⟨_, rfl⟩⟩

/-- An error of the loop is that of a table at its turn. -/
theorem exists_checkTable_error {catalogs : Nat → Catalog} {tables : List (String × String)} {i : Nat}
    {e : ValidationError} (h : checkTables catalogs i tables = .error e) :
    ∃ j, ∃ table ∈ tables, checkTable (catalogs j) table = .error e := by
  induction tables generalizing i with
  | nil => cases h
  | cons table tables ih =>
    rw [checkTables_cons] at h
    cases hcheck : checkTable (catalogs i) table with
    | error e' =>
      rw [hcheck] at h
      cases h
      exact ⟨i, table, List.mem_cons_self, hcheck⟩
    | ok m =>
      rw [hcheck] at h
      cases hrest : checkTables catalogs (i + 1) tables with
      | error e' =>
        rw [hrest] at h
        cases h
        obtain ⟨j, table', hmem, hj⟩ := ih hrest
        exact ⟨j, table', List.mem_cons_of_mem _ hmem, hj⟩
      | ok rest =>
        rw [hrest] at h
        cases h

/-- **The job succeeds** when each table passes and the dead letters can be counted. -/
theorem validate_ok_iff {catalogs : Nat → Catalog} :
    (∃ result, validate catalogs = .ok result) ↔
      (∀ j table, TABLE_KEYS[j]? = some table → (catalogs j).Passes table) ∧
        ∃ n, (catalogs TABLE_KEYS.length).row_count DEAD_LETTERS = some n := by
  have hloop := @checkTables_ok_iff catalogs TABLE_KEYS 0
  simp only [Nat.zero_add] at hloop
  rw [← hloop]
  unfold validate
  cases checkTables catalogs 0 TABLE_KEYS with
  | error e => exact iff_of_false nofun fun ⟨⟨_, h⟩, _⟩ => nomatch h
  | ok metrics =>
    cases (catalogs TABLE_KEYS.length).row_count DEAD_LETTERS with
    | none => exact iff_of_false nofun fun ⟨_, ⟨_, h⟩⟩ => nomatch h
    | some n => exact iff_of_true ⟨_, rfl⟩ ⟨⟨_, rfl⟩, ⟨n, rfl⟩⟩

/-- What the job fails with. -/
theorem validate_error {catalogs : Nat → Catalog} {e : ValidationError} (h : validate catalogs = .error e) :
    (∃ j, ∃ table ∈ TABLE_KEYS, checkTable (catalogs j) table = .error e) ∨ e = .not_found DEAD_LETTERS := by
  unfold validate at h
  cases hloop : checkTables catalogs 0 TABLE_KEYS with
  | error e' =>
    rw [hloop] at h
    cases h
    exact Or.inl (exists_checkTable_error hloop)
  | ok metrics =>
    rw [hloop] at h
    cases hcount : (catalogs TABLE_KEYS.length).row_count DEAD_LETTERS with
    | none =>
      simp only [bind, Except.bind, hcount] at h
      cases h
      exact Or.inr rfl
    | some n =>
      simp only [bind, Except.bind, hcount] at h
      cases h

end Validate

/-! ## The lakehouse -/

variable {O I P Row : Type}

/-- The lab, the tables of the stream, and the tables that exist. -/
structure Lakehouse (O I P Row : Type) where
  lab : Lab O I P Row
  stream : Stream.Tables
  created : List String

/-- `create` is a `CREATE TABLE IF NOT EXISTS`, `lab` a step of the lab, `batch` an attempt at a
micro-batch, `rewrite` the outcome of a maintenance procedure of a thread's process. -/
inductive LakehouseAction (O I P Row : Type)
  | create (table_name : String)
  | lab (action : LabAction O I P)
  | batch (attempt : Stream.Attempt)
  | rewrite (thread : Nat) (table : List Row) (stream : Stream.Tables)

/-- The thread runs a process of `iceberg-maintenance`. -/
def Handler.runsMaintenance : Handler → Bool
  | .running job => decide (job = icebergMaintenance)
  | _ => false

/-- The tables that the stream creates before its first batch. -/
def STREAM_TABLES : List String := ["order_events", "current_orders", DEAD_LETTERS]

/-- The driver of a process steps on once its table exists. -/
def LabAction.mayTake (created : List String) : LabAction O I P → Bool
  | .drive _ => decide ("fact_sales" ∈ created)
  | _ => true

namespace Lakehouse

def initial (staging : Reads O I P) : Lakehouse O I P Row := ⟨.initial staging, .empty, []⟩

/-- Other files, the same rows. -/
def SameRows [DecidableEq Row] (s : Lakehouse O I P Row) (table : List Row) (stream : Stream.Tables) : Bool :=
  decide (table.Perm s.lab.table) && decide (stream.orderEvents.Perm s.stream.orderEvents) &&
    decide (stream.currentOrders.Perm s.stream.currentOrders) &&
    decide (stream.deadLetterEvents.Perm s.stream.deadLetterEvents)

variable [DecidableEq Row] (k : Sink O I P Row) (sp : Stream.Spark)

/-- One step. -/
def step (s : Lakehouse O I P Row) : LakehouseAction O I P Row → Lakehouse O I P Row
  | .create table_name => { s with created := s.created.insert table_name }
  | .lab action => if action.mayTake s.created then { s with lab := Lab.step k s.lab action } else s
  | .batch attempt => if STREAM_TABLES ⊆ s.created then { s with stream := attempt.run sp s.stream } else s
  | .rewrite t table stream =>
    if (s.lab.server.handlers t).runsMaintenance && s.SameRows table stream then
      { s with lab := { s.lab with table := table }, stream := stream }
    else s

/-- An interleaving. -/
def run (staging : Reads O I P) (actions : List (LakehouseAction O I P Row)) : Lakehouse O I P Row :=
  actions.foldl (step k sp) (initial staging)

/-- What the queries of the job find. -/
def catalog (s : Lakehouse O I P Row) : Catalog where
  metrics table_name key_name :=
    if table_name ∈ s.created then
      match table_name, key_name with
      | "fact_sales", "order_item_id" => some (tableMetrics (s.lab.table.map fun r => some (k.order_item_id r)))
      | "order_events", "event_id" => some (tableMetrics (s.stream.orderEvents.map fun e => some e.eventId))
      | "current_orders", "order_id" => some (tableMetrics (s.stream.currentOrders.map fun c => some c.orderId))
      | _, _ => none
    else none
  row_count table_name :=
    if table_name ∈ s.created ∧ table_name = DEAD_LETTERS then some s.stream.deadLetterEvents.length else none

/-! ## What every step keeps -/

/-- The gateway is sound, what a run of the job found empty still is, and each table has one row for
each of its keys. -/
structure Grained (s : Lakehouse O I P Row) : Prop where
  coupled : s.lab.Coupled
  serialized : Serialized s.lab.machine
  fact_sales : UniqueOn k.order_item_id s.lab.table
  order_events : UniqueOn Stream.OrderEvent.eventId s.stream.orderEvents
  current_orders : UniqueOn Stream.CurrentOrder.orderId s.stream.currentOrders

variable {k} {sp} {s : Lakehouse O I P Row}

omit [DecidableEq Row] in
theorem grained_initial (staging : Reads O I P) : Grained k (initial staging : Lakehouse O I P Row) where
  coupled := Lab.coupled_initial staging
  serialized := serialized_initial staging
  fact_sales := UniqueOn.nil
  order_events := UniqueOn.nil
  current_orders := UniqueOn.nil

/-- A step of the lab. -/
theorem Grained.lab (h : Grained k s) (action : LabAction O I P) :
    Grained k { s with lab := Lab.step k s.lab action } := by
  have hmachine : Serialized (Lab.step k s.lab action).machine ∧
      UniqueOn k.order_item_id (Lab.step k s.lab action).machine.table := by
    rcases Lab.machine_step h.coupled action with he | ⟨a, hgateway, he⟩
    · rw [he]
      exact ⟨h.serialized, h.fact_sales⟩
    · rw [he]
      refine ⟨h.serialized.step hgateway, (unique_step_iff h.fact_sales).mpr ?_⟩
      exact h.serialized.appendsApart
  exact ⟨h.coupled.step action, hmachine.1, hmachine.2, h.order_events, h.current_orders⟩

omit [DecidableEq Row] in
/-- An attempt at a micro-batch commits one row for each key. -/
theorem Grained.batch (h : Grained k s) (attempt : Stream.Attempt) :
    Grained k { s with stream := attempt.run sp s.stream } := by
  obtain ⟨hevents, horders, -⟩ := Stream.run_cases sp s.stream attempt
  refine ⟨h.coupled, h.serialized, h.fact_sales, ?_, ?_⟩
  · rcases hevents with ⟨-, he⟩ | ⟨-, he⟩
    · exact he ▸ h.order_events.insertNew (attempt.execution.kept_unique _ _)
    · exact he ▸ h.order_events
  · rcases horders with ⟨-, he⟩ | ⟨-, he⟩
    · exact he ▸ h.current_orders.mergeInto Stream.currentUpdates_unique
    · exact he ▸ h.current_orders

/-- Maintenance leaves the rows. -/
theorem Grained.rewrite (h : Grained k s) {table : List Row} {stream : Stream.Tables}
    (hsame : s.SameRows table stream = true) :
    Grained k { s with lab := { s.lab with table := table }, stream := stream } := by
  unfold SameRows at hsame
  simp only [Bool.and_eq_true, decide_eq_true_eq] at hsame
  obtain ⟨⟨⟨htable, hevents⟩, horders⟩, -⟩ := hsame
  refine ⟨⟨h.coupled.locked, h.coupled.idle⟩, ⟨h.serialized.locked, fun t ht => ?_⟩, ?_, ?_, ?_⟩
  · have hnone : s.lab.table = [] := h.serialized.empty t ht
    exact List.Perm.eq_nil (hnone ▸ htable)
  · exact (htable.map _).nodup_iff.mpr h.fact_sales
  · exact (hevents.map _).nodup_iff.mpr h.order_events
  · exact (horders.map _).nodup_iff.mpr h.current_orders

/-- **Every step keeps the grain of the tables.** -/
theorem Grained.step (h : Grained k s) (action : LakehouseAction O I P Row) : Grained k (step k sp s action) := by
  cases action with
  | create table_name => exact ⟨h.coupled, h.serialized, h.fact_sales, h.order_events, h.current_orders⟩
  | lab action =>
    unfold Lakehouse.step
    dsimp only
    split
    · exact h.lab action
    · exact h
  | batch attempt =>
    unfold Lakehouse.step
    dsimp only
    split
    · exact h.batch attempt
    · exact h
  | rewrite t table stream =>
    unfold Lakehouse.step
    dsimp only
    split
    · rename_i hguard
      exact h.rewrite (Bool.and_eq_true_iff.mp hguard).2
    · exact h

theorem grained_run (staging : Reads O I P) (actions : List (LakehouseAction O I P Row)) :
    Grained k (run k sp staging actions) := by
  unfold run
  exact List.foldlRecOn actions _ (grained_initial staging) fun s h action _ => h.step action

/-! ## The validation -/

omit [DecidableEq Row] in
/-- A table of `TABLE_KEYS` passes as soon as it exists. -/
theorem Grained.passes_iff (h : Grained k s) {table : String × String} (htable : table ∈ TABLE_KEYS) :
    (s.catalog k).Passes table ↔ table.1 ∈ s.created := by
  unfold Catalog.Passes catalog
  dsimp only
  by_cases hcreated : table.1 ∈ s.created
  · refine iff_of_true ?_ hcreated
    rw [if_pos hcreated]
    simp only [TABLE_KEYS, List.mem_cons, List.not_mem_nil, or_false] at htable
    rcases htable with rfl | rfl | rfl
    · exact ⟨_, rfl, tableMetrics_of_unique h.fact_sales⟩
    · exact ⟨_, rfl, tableMetrics_of_unique h.order_events⟩
    · exact ⟨_, rfl, tableMetrics_of_unique h.current_orders⟩
  · refine iff_of_false ?_ hcreated
    rw [if_neg hcreated]
    exact fun ⟨_, h, _⟩ => nomatch h

/-- **The validation fails for a missing table only**, whatever happens before and between its queries:
requests, drivers, micro-batches that complete or not, maintenance. -/
theorem lakehouse_validates (k : Sink O I P Row) (sp : Stream.Spark) (staging : Reads O I P)
    (actions : List (LakehouseAction O I P Row)) (turn : Nat → Nat) :
    let s := fun i => run k sp staging (actions.take (turn i))
    ((∃ result, validate (fun i => (s i).catalog k) = .ok result) ↔
      "fact_sales" ∈ (s 0).created ∧ "order_events" ∈ (s 1).created ∧ "current_orders" ∈ (s 2).created ∧
        DEAD_LETTERS ∈ (s 3).created) ∧
    ∀ e, validate (fun i => (s i).catalog k) = .error e → ∃ table_name, e = .not_found table_name := by
  dsimp only
  have hgrained : ∀ i, Grained k (run k sp staging (actions.take (turn i))) := fun i => grained_run staging _
  constructor
  · rw [validate_ok_iff]
    constructor
    · rintro ⟨hpasses, n, hn⟩
      refine ⟨?_, ?_, ?_, ?_⟩
      · exact ((hgrained 0).passes_iff (by decide)).mp (hpasses 0 _ rfl)
      · exact ((hgrained 1).passes_iff (by decide)).mp (hpasses 1 _ rfl)
      · exact ((hgrained 2).passes_iff (by decide)).mp (hpasses 2 _ rfl)
      · by_contra hmissing
        have hnone : ((run k sp staging (actions.take (turn 3))).catalog k).row_count DEAD_LETTERS = none :=
          if_neg fun h => hmissing h.1
        exact absurd (hnone.symm.trans hn) nofun
    · rintro ⟨hsales, hevents, horders, hletters⟩
      refine ⟨fun j table hj => ((hgrained j).passes_iff (List.mem_of_getElem? hj)).mpr ?_, ?_⟩
      · rcases j with _ | _ | _ | j
        · cases hj
          exact hsales
        · cases hj
          exact hevents
        · cases hj
          exact horders
        · cases hj
      · exact ⟨_, if_pos ⟨hletters, rfl⟩⟩
  · intro e he
    rcases validate_error he with ⟨j, table, htable, hcheck⟩ | rfl
    · by_cases hcreated : table.1 ∈ (run k sp staging (actions.take (turn j))).created
      · -- a table that exists passes
        obtain ⟨result, hok⟩ := checkTable_ok_iff.mpr (((hgrained j).passes_iff htable).mpr hcreated)
        exact absurd (hok.symm.trans hcheck) nofun
      · have hnone : ((run k sp staging (actions.take (turn j))).catalog k).metrics table.1 table.2 = none :=
          if_neg hcreated
        unfold checkTable at hcheck
        rw [hnone] at hcheck
        cases hcheck
        exact ⟨_, rfl⟩
    · exact ⟨_, rfl⟩

end Lakehouse

end LocalDataPlatform.Gateway

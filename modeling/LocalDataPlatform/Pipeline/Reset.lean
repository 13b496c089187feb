import LocalDataPlatform.Cdc.SourceTable
import LocalDataPlatform.Pipeline.Retry

/-!
# A reset that fails half way

`reset` runs two SQL files, each in a transaction of its own: the first recreates staging, the second
the watermarks.  A watermark says what staging holds, and the two are out of step in between.

* `Relation` — the relations with a watermark: those the DAG extracts, and `customers`.
* `Database` — the stores of the DAG, and the rest of what the files recreate.
* `SQL_FILES`, `resetAfter` — the files, and the database once some of them have committed.
* `Carried` — staging holds every source row up to the watermark of its table.
* `Skipped` — a row behind the watermark that staging does not hold.

Principal results: `carried_resetAfter_iff` (after which files the reset may fail),
`Skipped.runs` (no incremental run loads a skipped row), `History.carried` (the DAG keeps staging).
-/

set_option autoImplicit false

namespace LocalDataPlatform.Pipeline

open Relational Sales

/-! ## The files -/

/-- The relations of schema `staging`, each with a row in `metadata.etl_watermark`. -/
inductive Relation where
  | customers
  | extracted (t : TableName)
  deriving DecidableEq, Repr

/-- The columns that staging copies. -/
abbrev Relation.Row : Relation → Type
  | .customers => Cdc.Customer
  | .extracted t => Pipeline.Row t

/-- The column `updated_at`. -/
def Relation.updated_at : (r : Relation) → r.Row → Option Instant
  | .customers, row => row.attributes.updatedAt
  | .extracted t, row => some (updatedAt t row)

/-- The database of the platform; the DAG leaves `staging.customers` and its watermark alone. -/
structure Database where
  dag : State
  customers : Cdc.SourceTable
  staging_customers : StagingTable Cdc.Customer.customerId
  customers_watermark : Watermark

def Database.source (db : Database) : (r : Relation) → List r.Row
  | .customers => db.customers.rows
  | .extracted t => (db.dag.source t).rows

def Database.staging (db : Database) : (r : Relation) → List r.Row
  | .customers => db.staging_customers.rows.map Staged.row
  | .extracted t => (staged db.dag.staging t).rows.map Staged.row

def Database.etl_watermark (db : Database) : Relation → Watermark
  | .customers => db.customers_watermark
  | .extracted t => db.dag.watermarks t

/-- `'1970-01-01 00:00:00+00'`. -/
def epoch : Instant := 0

/-- `002_staging_analytics_schema.sql`: schema `staging` is dropped and created empty. -/
def stagingAnalyticsSchema (db : Database) : Database :=
  { db with
    dag := { db.dag with staging := ⟨Table.empty, Table.empty, Table.empty, Table.empty⟩ }
    staging_customers := Table.empty }

/-- `003_create_etl_metadata.sql`: every watermark is at the epoch, without a candidate. -/
def createEtlMetadata (db : Database) : Database :=
  { db with
    dag := { db.dag with watermarks := fun _ => ⟨epoch, none⟩ }
    customers_watermark := ⟨epoch, none⟩ }

def SQL_FILES : List (Database → Database) := [stagingAnalyticsSchema, createEtlMetadata]

/-- The database once the first `files` of the files have committed. -/
def resetAfter (files : Nat) (db : Database) : Database :=
  (SQL_FILES.take files).foldl (fun db sql_file => sql_file db) db

/-! ## Where the reset may stop -/

/-- `updated_at` of a row is at most `bound`. -/
def UpTo (r : Relation) (bound : Instant) (row : r.Row) : Prop := ∃ x ∈ r.updated_at row, x ≤ bound

/-- Staging holds every source row up to the watermark of its table. -/
def Carried (db : Database) : Prop :=
  ∀ r, ∀ row ∈ db.source r, UpTo r (db.etl_watermark r).watermark_value row → row ∈ db.staging r

/-- No source row is at or below the bound of its table. -/
def NoneUpTo (db : Database) (bound : Relation → Instant) : Prop :=
  ∀ r, ∀ row ∈ db.source r, ¬ UpTo r (bound r) row

/-- Between the files no source row may be behind its watermark, after them none behind the epoch. -/
def MayFailAfter (db : Database) : Nat → Prop
  | 0 => True
  | 1 => NoneUpTo db fun r => (db.etl_watermark r).watermark_value
  | _ => NoneUpTo db fun _ => epoch

section Files

variable {db : Database}

@[simp] theorem source_stagingAnalyticsSchema : (stagingAnalyticsSchema db).source = db.source := by
  funext r
  cases r <;> rfl

@[simp] theorem etl_watermark_stagingAnalyticsSchema :
    (stagingAnalyticsSchema db).etl_watermark = db.etl_watermark := by
  funext r
  cases r <;> rfl

@[simp] theorem staging_stagingAnalyticsSchema (r : Relation) :
    (stagingAnalyticsSchema db).staging r = [] := by
  cases r with
  | customers => rfl
  | extracted t => cases t <;> rfl

@[simp] theorem source_createEtlMetadata : (createEtlMetadata db).source = db.source := by
  funext r
  cases r <;> rfl

@[simp] theorem staging_createEtlMetadata : (createEtlMetadata db).staging = db.staging := by
  funext r
  cases r <;> rfl

@[simp] theorem etl_watermark_createEtlMetadata (r : Relation) :
    (createEtlMetadata db).etl_watermark r = ⟨epoch, none⟩ := by
  cases r <;> rfl

/-- An empty staging carries a source that is ahead of its watermarks. -/
theorem carried_iff_of_empty (hempty : ∀ r, db.staging r = []) :
    Carried db ↔ NoneUpTo db fun r => (db.etl_watermark r).watermark_value := by
  constructor
  · intro h r row hrow hle
    have hheld := h r row hrow hle
    rw [hempty r] at hheld
    exact absurd hheld List.not_mem_nil
  · intro h r row hrow hle
    exact absurd hle (h r row hrow)

theorem resetAfter_all {files : Nat} (h : 2 ≤ files) :
    resetAfter files db = createEtlMetadata (stagingAnalyticsSchema db) := by
  unfold resetAfter
  rw [List.take_of_length_le (show SQL_FILES.length ≤ files from h)]
  rfl

theorem carried_between : Carried (resetAfter 1 db) ↔ MayFailAfter db 1 := by
  change Carried (stagingAnalyticsSchema db) ↔ _
  rw [carried_iff_of_empty staging_stagingAnalyticsSchema]
  unfold MayFailAfter NoneUpTo
  simp

theorem carried_after {files : Nat} (h : 2 ≤ files) :
    Carried (resetAfter files db) ↔ MayFailAfter db files := by
  obtain ⟨n, rfl⟩ : ∃ n, files = n + 2 := ⟨files - 2, by omega⟩
  have hempty : ∀ r, (createEtlMetadata (stagingAnalyticsSchema db)).staging r = [] := by
    intro r
    simp
  rw [resetAfter_all h, carried_iff_of_empty hempty]
  unfold MayFailAfter NoneUpTo
  simp

/-- **Where the reset leaves staging behind the watermarks.** -/
theorem carried_resetAfter_iff (h : Carried db) (files : Nat) :
    Carried (resetAfter files db) ↔ MayFailAfter db files := by
  match files with
  | 0 => exact iff_of_true h trivial
  | 1 => exact carried_between
  | n + 2 => exact carried_after (Nat.le_add_left 2 n)

end Files

/-! ## What the DAG does with it -/

/-- A row version behind the watermark of its table that staging does not hold, and that no running
attempt is about to read. -/
structure Skipped (t : TableName) (row : Row t) (s : State) : Prop where
  behind : updatedAt t row ≤ (s.watermarks t).watermark_value
  missing : ¬ Holds s.staging t row
  unread : ∀ lower upper, s.Reading .incremental t lower upper → updatedAt t row ≤ lower

section Skip

variable {day : Instant → Int} {s s' : State} {action : Action} {t : TableName} {row : Row t}

/-- The runs are not backfills. -/
def Incremental (s : State) : Prop := ∀ run, s.run = some run → run.mode = .incremental

/-- A window above a row does not load it. -/
theorem not_holds_loadTable {st : Staging} {t' : TableName} {lower upper now : Instant}
    {source : Table (Row t') (key t')} (hmissing : ¬ Holds st t row)
    (hlower : ∀ h : t = t', updatedAt t' (h ▸ row) ≤ lower) :
    ¬ Holds (loadTable st now t' (extracted .incremental t' source lower upper)) t row := by
  rintro ⟨r, hr, hrow⟩
  by_cases ht : t = t'
  · subst ht
    rw [staged_loadTable] at hr
    rcases mem_load hr with hold | ⟨-, hnew⟩
    · exact hmissing ⟨r, hold, hrow⟩
    · have hwindow := List.of_mem_filter hnew
      rw [hrow] at hwindow
      obtain ⟨hlt, -⟩ := Bool.and_eq_true_iff.mp hwindow
      exact absurd (of_decide_eq_true hlt) (not_lt.mpr (hlower rfl))
  · rw [staged_loadTable_of_ne ht] at hr
    exact hmissing ⟨r, hr, hrow⟩

/-- **One step of an incremental run skips what it skipped before.** -/
theorem Skipped.move (h : Skipped t row s) (hlayered : LayeredRuns s) (hmove : Move day s action s')
    (hmode : Incremental s) : Skipped t row s' := by
  refine ⟨h.behind.trans (hmove.watermark_le t), ?_, fun lower upper hr => ?_⟩
  · cases hmove with
    | @upsert run t' lower upper now outcome hrun hstate _ =>
      have hincremental := hmode run hrun
      change ¬ Holds (loadTable s.staging now t' (extracted run.mode t' (s.source t') lower upper)) t row
      rw [hincremental]
      refine not_holds_loadTable h.missing fun ht => ?_
      subst ht
      exact h.unread lower upper ⟨run, hrun, hincremental, hstate⟩
    | _ => exact h.missing
  · rcases hmove.reading hlayered hr with hr | ⟨-, -, hwindow⟩
    · exact h.unread lower upper hr
    · cases hwindow
      exact h.behind

/-- The states that incremental runs lead to. -/
inductive IncrementalRuns (day : Instant → Int) (s : State) : State → Prop
  | refl : IncrementalRuns day s s
  | step {s₁ s₂ : State} {action : Action} (h : IncrementalRuns day s s₁) (hmode : Incremental s₁)
      (hstep : step day s₁ action = some s₂) : IncrementalRuns day s s₂

/-- **No incremental run loads a skipped row.** -/
theorem Skipped.runs (h : Skipped t row s) (hlayered : LayeredRuns s)
    (hruns : IncrementalRuns day s s') : LayeredRuns s' ∧ Skipped t row s' := by
  induction hruns with
  | refl => exact ⟨hlayered, h⟩
  | step _ hmode hstep ih =>
    have hmove := move_of_step hstep
    exact ⟨ih.1.move hmove, ih.2.move ih.1 hmove hmode⟩

/-- **A reset that fails between its files, while no run is active, skips what is behind the
watermarks.** -/
theorem skipped_resetAfter {db : Database} (hidle : db.dag.run = none)
    (hbehind : updatedAt t row ≤ (db.dag.watermarks t).watermark_value) :
    Skipped t row (resetAfter 1 db).dag := by
  refine ⟨hbehind, ?_, ?_⟩
  · rintro ⟨r, hr, -⟩
    cases t <;> exact absurd hr List.not_mem_nil
  · rintro lower upper ⟨run, hrun, -⟩
    change db.dag.run = some run at hrun
    rw [hidle] at hrun
    cases hrun

/-- **The DAG keeps staging up to its watermarks**, when no row becomes visible late. -/
theorem History.carried {bounds : Bounds} {db : Database} (h : History day bounds db.dag)
    (hcustomers : ∀ row ∈ db.source .customers,
      UpTo .customers db.customers_watermark.watermark_value row → row ∈ db.staging .customers) :
    Carried db := by
  intro r row hrow hle
  cases r with
  | customers => exact hcustomers row hrow hle
  | extracted t =>
    obtain ⟨x, hx, hle⟩ := hle
    cases hx
    obtain ⟨loaded_at, hfound⟩ := (staging_complete h).1 t row hrow (le_max_of_le_left hle)
    exact List.mem_map.mpr ⟨_, (Table.find?_eq_some.mp hfound).1, rfl⟩

end Skip

/-! ## A reset that loses an order -/

section Lost

/-- A run that moved the watermarks, and has ended. -/
def runDone : List Action :=
  sinksDone ++ [.start .advance_watermarks, .advance .succeeded, .close]

/-- Nothing is known about customers. -/
def Database.ofDag (s : State) : Database := ⟨s, Table.empty, Table.empty, ⟨epoch, none⟩⟩

/-- A source that is copied as it is, is carried. -/
theorem carried_ofDag {s : State} (hcopied : ∀ t, (s.source t).rows = (staged s.staging t).rows.map Staged.row) :
    Carried (Database.ofDag s) := by
  intro r row hrow _
  cases r with
  | customers => exact absurd hrow List.not_mem_nil
  | extracted t =>
    change row ∈ (s.source t).rows at hrow
    rw [hcopied t] at hrow
    exact hrow

/-- The reset fails between its files; no later incremental run loads the order again. -/
theorem reset_loses_order : ∃ db, Reaches toDate (fun _ _ _ => True) db.dag ∧ Carried db ∧
    ¬ Carried (resetAfter 1 db) ∧ ∀ s', IncrementalRuns toDate (resetAfter 1 db).dag s' →
      ¬ Holds s'.staging .orders (sampleOrder 100 "pending") := by
  obtain ⟨s, hdone, hidle, horder, hmark, hcopied⟩ : ∃ s : State,
      runDone.foldlM (step toDate) State.initial = some s ∧ s.run = none ∧
        (s.source .orders).rows = [sampleOrder 100 "pending"] ∧
        (s.watermarks .orders).watermark_value = 100 ∧
        ∀ t, (s.source t).rows = (staged s.staging t).rows.map Staged.row :=
    ⟨_, rfl, rfl, rfl, rfl, fun t => by cases t <;> rfl⟩
  have hreach := reaches_of_actions (fun _ _ _ _ _ => trivial) Reaches.initial hdone
  have hbehind : updatedAt .orders (sampleOrder 100 "pending") ≤
      (s.watermarks .orders).watermark_value := by
    rw [hmark]
    exact le_refl 100
  refine ⟨Database.ofDag s, hreach, carried_ofDag hcopied, fun hcarried => ?_, fun s' hruns => ?_⟩
  · have hnone := carried_between.mp hcarried
    refine hnone (.extracted .orders) (sampleOrder 100 "pending") ?_ ⟨_, rfl, hbehind⟩
    change _ ∈ (s.source .orders).rows
    rw [horder]
    exact List.mem_singleton_self _
  · have hskipped : Skipped .orders (sampleOrder 100 "pending") (resetAfter 1 (Database.ofDag s)).dag :=
      skipped_resetAfter hidle hbehind
    have hlayered : LayeredRuns (resetAfter 1 (Database.ofDag s)).dag :=
      ⟨hreach.layered.active, hreach.layered.failed⟩
    exact (hskipped.runs hlayered hruns).2.missing

/-- The source with the one order, and nothing extracted. -/
def unextracted : Database := Database.ofDag { State.initial with
  source := Function.update State.initial.source .orders (tableOf (sampleOrder 100 "pending")) }

/-- The order is after the epoch, where all watermarks are. -/
theorem unextracted_noneUpTo : NoneUpTo unextracted fun _ => epoch := by
  rintro (_ | t) row hrow ⟨x, hx, hle⟩
  · cases hrow
  · cases hx
    cases t with
    | orders =>
      rw [List.mem_singleton.mp hrow] at hle
      exact absurd hle (by decide)
    | _ => cases hrow

/-- Before the first run the reset may fail between its files. -/
theorem carried_resetAfter_unextracted : Carried (resetAfter 1 unextracted) := by
  have hmark : ∀ r, (unextracted.etl_watermark r).watermark_value = epoch := by
    intro r
    cases r <;> rfl
  have hnone : NoneUpTo unextracted fun r => (unextracted.etl_watermark r).watermark_value := by
    intro r row hrow
    show ¬ UpTo r (unextracted.etl_watermark r).watermark_value row
    rw [hmark]
    exact unextracted_noneUpTo r row hrow
  have hcarried : Carried unextracted := fun r row hrow hle => absurd hle (hnone r row hrow)
  exact (carried_resetAfter_iff hcarried 1).mpr hnone

end Lost

end LocalDataPlatform.Pipeline

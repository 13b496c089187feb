import LocalDataPlatform.Sales.NullableJoin

/-!
# Concurrent runs of the Iceberg job

Any number of runs of `main` of `iceberg_sales`, step by step, over one table and one staging area.
A commit is atomic, appends all succeed, and a `MERGE` is rejected when its target rows changed since
it read them.

* `Sink` — what a run does with rows, whatever their columns: the transformation, the mark, the checks.
* `Phase`, `Sink.main` — how far a run is, and its next step.
* `Action`, `Sink.step`, `Sink.run` — the runs of the gateway and of `iceberg-submit`, interleaved.
* `AppendsApart` — what a run appends is not in the table.

Principal results: `unique_step_iff` (only an append can break the grain), `grain_iff` (over every
interleaving), `gateway_append_empty` (the gateway alone never appends to a table with rows).
-/

set_option autoImplicit false

namespace LocalDataPlatform.Sales.Jobs

open Relational

/-! ## One run -/

/-- The staging relations a run reads. -/
structure Reads (O I P : Type) where
  orders : O
  order_items : I
  payments : P

/-- A sink of the sales join. -/
structure Sink (O I P Row : Type) where
  order_item_id : Row → Uuid
  /-- `transform_sales`. -/
  transform_sales : Reads O I P → List Row
  unique : ∀ reads, UniqueOn order_item_id (transform_sales reads)
  /-- `F.max("source_loaded_at") or datetime(1900, 1, 1)`. -/
  high_watermark : List Row → Instant
  /-- `source_loaded_at > current_high_watermark`. -/
  isNewer : Instant → Row → Bool
  /-- `validate_sales` raises nothing. -/
  validate_sales : List Row → Bool
  /-- The row is not null where `create_table` says `NOT NULL`. -/
  contract : Row → Bool
  /-- `source.source_loaded_at >= target.source_loaded_at`. -/
  notOlder : Row → Row → Bool

variable {O I P Row : Type}

/-- What a run has read once it has read `payments`. -/
structure Loaded (O I P : Type) where
  table_is_empty : Bool
  current_high_watermark : Instant
  reads : Reads O I P

/-- How far a run is. -/
inductive Phase (O I P Row : Type)
  | idle
  | launched
  | tested (table_is_empty : Bool)
  | marked (table_is_empty : Bool) (current_high_watermark : Instant)
  | orders_read (table_is_empty : Bool) (current_high_watermark : Instant) (orders : O)
  | items_read (table_is_empty : Bool) (current_high_watermark : Instant) (orders : O) (order_items : I)
  | loaded (l : Loaded O I P)
  | validated (l : Loaded O I P)
  | merging (l : Loaded O I P) (target : List Row)
  | done

namespace Sink

variable (k : Sink O I P Row)

/-- `updates` of a run: what it has read, above its mark. -/
def updates (l : Loaded O I P) : List Row :=
  (k.transform_sales l.reads).filter (k.isNewer l.current_high_watermark)

/-- A commit of the table; a row against the contract fails the write. -/
def commit (rows table table' : List Row) : List Row := if rows.all k.contract then table' else table

/-- The next step of `main`, and the table after it. -/
def main [DecidableEq Row] (staging : Reads O I P) (table : List Row) :
    Phase O I P Row → Phase O I P Row × List Row
  | .idle => (.idle, table)
  | .launched => (.tested table.isEmpty, table)
  | .tested e => (.marked e (k.high_watermark table), table)
  | .marked e mark => (.orders_read e mark staging.orders, table)
  | .orders_read e mark orders => (.items_read e mark orders staging.order_items, table)
  | .items_read e mark orders order_items =>
    (.loaded ⟨e, mark, ⟨orders, order_items, staging.payments⟩⟩, table)
  | .loaded l =>
    if k.validate_sales (k.updates l) then
      if (k.updates l).length = 0 then (.done, table) else (.validated l, table)
    else (.done, table)
  | .validated l =>
    if l.table_is_empty then (.done, k.commit (k.updates l) table (table ++ k.updates l))
    else (.merging l table, table)
  | .merging l target =>
    -- the target rows changed since they were read: the commit is rejected
    if table = target then
      (.done, k.commit (k.updates l) table
        ((mergeOnce k.order_item_id k.notOlder target (k.updates l)).getD table))
    else (.done, table)
  | .done => (.done, table)

end Sink

/-! ## Interleavings -/

/-- Where a run is started from. -/
inductive Origin where
  | gateway
  | iceberg_submit
  deriving DecidableEq, Repr

/-- The table, staging, the runs, and the run that holds `job_lock`. -/
structure Machine (O I P Row : Type) where
  table : List Row
  staging : Reads O I P
  jobs : Nat → Phase O I P Row
  job_lock : Option Nat

/-- `launch` starts a run, `step` takes its next step, `stop` ends it, by an exception or otherwise;
`stage` changes staging. -/
inductive Action (O I P : Type)
  | launch (job : Nat) (origin : Origin)
  | step (job : Nat)
  | stop (job : Nat)
  | stage (staging : Reads O I P)

namespace Sink

variable (k : Sink O I P Row)

/-- One step of the interleaving; the gateway answers 409 while its lock is held. -/
def step [DecidableEq Row] (m : Machine O I P Row) : Action O I P → Machine O I P Row
  | .launch job origin =>
    match m.jobs job, origin, m.job_lock with
    | .idle, .iceberg_submit, _ => { m with jobs := Function.update m.jobs job .launched }
    | .idle, .gateway, none =>
      { m with jobs := Function.update m.jobs job .launched, job_lock := some job }
    | _, _, _ => m
  | .step job =>
    { m with
      table := (k.main m.staging m.table (m.jobs job)).2
      jobs := Function.update m.jobs job (k.main m.staging m.table (m.jobs job)).1 }
  | .stop job =>
    { m with
      jobs := Function.update m.jobs job .idle
      job_lock := if m.job_lock = some job then none else m.job_lock }
  | .stage staging => { m with staging := staging }

/-- The table as `create_table` leaves it, and no run yet. -/
def initial (staging : Reads O I P) : Machine O I P Row :=
  ⟨[], staging, fun _ => .idle, none⟩

/-- An interleaving. -/
def run [DecidableEq Row] (staging : Reads O I P) (actions : List (Action O I P)) : Machine O I P Row :=
  actions.foldl k.step (initial staging)

/-- If the action appends, the table has none of the appended keys. -/
def AppendsApart (m : Machine O I P Row) : Action O I P → Prop
  | .step job => ∀ l, m.jobs job = .validated l → l.table_is_empty = true →
    (k.updates l).all k.contract = true → ∀ r ∈ k.updates l, ∀ t ∈ m.table, k.order_item_id t ≠ k.order_item_id r
  | _ => True

end Sink

/-! ## The grain -/

section Grain

variable [DecidableEq Row] {k : Sink O I P Row} {m : Machine O I P Row} {l : Loaded O I P}
variable {staging : Reads O I P} {table target : List Row} {action : Action O I P}

omit [DecidableEq Row] in
theorem uniqueOn_updates : UniqueOn k.order_item_id (k.updates l) :=
  (k.unique l.reads).sublist List.filter_sublist

/-- What a step of a run does to the table. -/
theorem main_cases (staging : Reads O I P) (table : List Row) (phase : Phase O I P Row) :
    (k.main staging table phase).2 = table ∨
    (∃ l, phase = .validated l ∧ l.table_is_empty = true ∧ (k.updates l).all k.contract = true ∧
      (k.main staging table phase).2 = table ++ k.updates l) ∨
    ∃ l, phase = .merging l table ∧
      (k.main staging table phase).2 = mergeInto k.order_item_id k.notOlder table (k.updates l) := by
  cases phase with
  | validated l =>
    unfold Sink.main
    dsimp only
    split
    · rename_i hempty
      unfold Sink.commit
      split
      · rename_i hcontract
        exact Or.inr (Or.inl ⟨l, rfl, hempty, hcontract, rfl⟩)
      · exact Or.inl rfl
    · exact Or.inl rfl
  | merging l target =>
    unfold Sink.main
    dsimp only
    split
    · rename_i htarget
      subst htarget
      unfold Sink.commit
      rw [mergeOnce_of_unique uniqueOn_updates]
      split
      · exact Or.inr (Or.inr ⟨l, rfl, rfl⟩)
      · exact Or.inl rfl
    · exact Or.inl rfl
  | loaded l =>
    unfold Sink.main
    dsimp only
    split
    · split <;> exact Or.inl rfl
    · exact Or.inl rfl
  | _ => exact Or.inl rfl

/-- An action that is no step of a run leaves the table. -/
theorem step_table (m : Machine O I P Row) (action : Action O I P) :
    (k.step m action).table = m.table ∨
      ∃ job, action = .step job ∧
        (k.step m action).table = (k.main m.staging m.table (m.jobs job)).2 := by
  cases action with
  | launch job origin =>
    unfold Sink.step
    dsimp only
    split <;> exact Or.inl rfl
  | step job => exact Or.inr ⟨job, rfl, rfl⟩
  | stop job => exact Or.inl rfl
  | stage staging => exact Or.inl rfl

/-- **Only an append can break the grain**, and it does when it repeats a key of the table. -/
theorem unique_step_iff (h : UniqueOn k.order_item_id m.table) :
    UniqueOn k.order_item_id (k.step m action).table ↔ k.AppendsApart m action := by
  cases action with
  | launch job origin =>
    rcases step_table (k := k) m (.launch job origin) with he | ⟨job', he, -⟩
    · rw [he]
      exact iff_of_true h trivial
    · cases he
  | stop job => exact iff_of_true h trivial
  | stage staging => exact iff_of_true h trivial
  | step job =>
    change UniqueOn k.order_item_id (k.main m.staging m.table (m.jobs job)).2 ↔ _
    unfold Sink.AppendsApart
    dsimp only
    rcases main_cases m.staging m.table (m.jobs job) with he | ⟨l, hphase, hempty, hcontract, he⟩ | ⟨l, hphase, he⟩
    · rw [he]
      refine iff_of_true h fun l hphase hempty hcontract r hr t ht hkey => ?_
      -- an append of no row is the only one that leaves the table
      have happend : (k.main m.staging m.table (m.jobs job)).2 = m.table ++ k.updates l := by
        rw [hphase]
        unfold Sink.main Sink.commit
        dsimp only
        rw [if_pos hempty, if_pos hcontract]
      rw [he] at happend
      have hnone : k.updates l = [] := List.append_cancel_left (happend.symm.trans (List.append_nil _).symm)
      rw [hnone] at hr
      cases hr
    · rw [he]
      constructor
      · intro hu l' hphase' _ _ r hr t ht hkey
        cases hphase.symm.trans hphase'
        unfold UniqueOn at hu
        rw [List.map_append] at hu
        exact (List.nodup_append.mp hu).2.2 _ (List.mem_map_of_mem ht) _ (List.mem_map_of_mem hr) hkey
      · intro hapart
        exact h.append uniqueOn_updates fun t ht r hr => hapart l hphase hempty hcontract r hr t ht
    · rw [he]
      refine iff_of_true (h.mergeInto uniqueOn_updates) fun l' hphase' => ?_
      rw [hphase] at hphase'
      cases hphase'

theorem run_append (staging : Reads O I P) (actions : List (Action O I P)) (action : Action O I P) :
    k.run staging (actions ++ [action]) = k.step (k.run staging actions) action := by
  unfold Sink.run
  rw [List.foldl_append]
  rfl

/-- **Over every interleaving the table keeps one row for each `order_item_id` exactly as long as every
append finds none of its keys in the table.** -/
theorem grain_iff (k : Sink O I P Row) (staging : Reads O I P) (actions : List (Action O I P)) :
    (∀ done, done <+: actions → UniqueOn k.order_item_id (k.run staging done).table) ↔
      ∀ done action, done ++ [action] <+: actions → k.AppendsApart (k.run staging done) action := by
  constructor
  · intro h done action hprefix
    have hbefore := h done ((List.prefix_append done [action]).trans hprefix)
    refine (unique_step_iff hbefore).mp ?_
    rw [← run_append]
    exact h _ hprefix
  · intro h done
    induction done using List.reverseRecOn with
    | nil => exact fun _ => UniqueOn.nil
    | append_singleton done action ih =>
      intro hprefix
      have hbefore := ih ((List.prefix_append done [action]).trans hprefix)
      rw [run_append]
      exact (unique_step_iff hbefore).mpr (h done action hprefix)

end Grain

/-! ## One run, uninterrupted -/

namespace Sink

variable [DecidableEq Row] (k : Sink O I P Row)

/-- A run from start to end. -/
def wholeRun (job : Nat) : List (Action O I P) :=
  .launch job .iceberg_submit :: List.replicate 8 (.step job)

/-- What such a run leaves. -/
def once (staging : Reads O I P) (table : List Row) : List Row :=
  let rows := k.updates ⟨table.isEmpty, k.high_watermark table, staging⟩
  if k.validate_sales rows then
    if rows.length = 0 then table
    else if table.isEmpty then k.commit rows table (table ++ rows)
    else k.commit rows table ((mergeOnce k.order_item_id k.notOlder table rows).getD table)
  else table

end Sink

section WholeRun

variable [DecidableEq Row] {k : Sink O I P Row} {m : Machine O I P Row} {job : Nat}

/-- Steps of one run are steps of `main`. -/
theorem foldl_step (n : Nat) (m : Machine O I P Row) :
    ((List.replicate n (Action.step job)).foldl k.step m).table =
      ((fun s : Phase O I P Row × List Row => k.main m.staging s.2 s.1)^[n] (m.jobs job, m.table)).2 := by
  induction n generalizing m with
  | zero => rfl
  | succ n ih =>
    rw [List.replicate_succ, List.foldl_cons, ih, Function.iterate_succ_apply]
    unfold Sink.step
    dsimp only
    rw [Function.update_self]

/-- What a run writes once it has read staging, if the table stays as it is. -/
theorem write_steps (staging : Reads O I P) (table : List Row) (l : Loaded O I P) :
    ((fun s : Phase O I P Row × List Row => k.main staging s.2 s.1)^[3] (.loaded l, table)).2 =
      if k.validate_sales (k.updates l) then
        if (k.updates l).length = 0 then table
        else if l.table_is_empty then k.commit (k.updates l) table (table ++ k.updates l)
        else k.commit (k.updates l) table ((mergeOnce k.order_item_id k.notOlder table (k.updates l)).getD table)
      else table := by
  simp only [Function.iterate_succ_apply, Function.iterate_zero, id]
  by_cases hvalid : k.validate_sales (k.updates l) = true
  · by_cases hnone : (k.updates l).length = 0
    · simp only [Sink.main, hvalid, hnone, if_true]
    · cases hempty : l.table_is_empty with
      | true => simp only [Sink.main, hvalid, hnone, hempty, if_true, if_false]
      | false => simp only [Sink.main, hvalid, hnone, hempty, if_true, if_false, Bool.false_eq_true]
  · simp only [Sink.main, hvalid, if_false, Bool.false_eq_true]

/-- **A run that nothing interrupts** reads the table and staging as they are. -/
theorem table_wholeRun (hidle : m.jobs job = .idle) :
    ((Sink.wholeRun job).foldl k.step m).table = k.once m.staging m.table := by
  have hlaunch : k.step m (.launch job .iceberg_submit) =
      { m with jobs := Function.update m.jobs job .launched } := by
    unfold Sink.step
    dsimp only
    rw [hidle]
  unfold Sink.wholeRun
  rw [List.foldl_cons, hlaunch, foldl_step]
  dsimp only
  rw [Function.update_self]
  -- five steps read the table and staging
  exact write_steps m.staging m.table ⟨m.table.isEmpty, k.high_watermark m.table, m.staging⟩

end WholeRun

/-! ## The gateway alone -/

section Gateway

variable [DecidableEq Row] {k : Sink O I P Row} {m : Machine O I P Row}

/-- What a run that found the table empty will do about it. -/
def Phase.table_is_empty : Phase O I P Row → Option Bool
  | .tested e => some e
  | .marked e _ => some e
  | .orders_read e _ _ => some e
  | .items_read e _ _ _ => some e
  | .loaded l => some l.table_is_empty
  | .validated l => some l.table_is_empty
  | _ => none

/-- Only the run that holds the lock is under way, and what it found empty still is. -/
structure Serialized (m : Machine O I P Row) : Prop where
  locked : ∀ job, m.jobs job ≠ .idle → m.job_lock = some job
  empty : ∀ job, (m.jobs job).table_is_empty = some true → m.table = []

/-- The action is not the start of an `iceberg-submit`. -/
def Action.ByGateway : Action O I P → Prop
  | .launch _ origin => origin = .gateway
  | _ => True

omit [DecidableEq Row] in
theorem serialized_initial (staging : Reads O I P) : Serialized (Sink.initial staging : Machine O I P Row) :=
  ⟨fun _ h => absurd rfl h, fun _ h => by cases h⟩

omit [DecidableEq Row] in
theorem Serialized.idle_of_ne {job job' : Nat} (h : Serialized m) (hlock : m.job_lock = some job)
    (hne : job' ≠ job) : m.jobs job' = .idle := by
  by_contra hbusy
  exact hne (Option.some.inj ((h.locked job' hbusy).symm.trans hlock))

/-- What a run knows of the table after its next step. -/
theorem main_empty {staging : Reads O I P} {table : List Row} {phase : Phase O I P Row}
    (hempty : phase.table_is_empty = some true → table = [])
    (h : (k.main staging table phase).1.table_is_empty = some true) :
    (k.main staging table phase).2 = [] := by
  cases phase with
  | launched => exact List.isEmpty_iff.mp (Option.some.inj h)
  | loaded l =>
    unfold Sink.main at h ⊢
    dsimp only at h ⊢
    split at h <;> rename_i hvalid
    · rw [if_pos hvalid]
      split at h <;> rename_i hrows
      · cases h
      · rw [if_neg hrows]
        exact hempty h
    · cases h
  | validated l =>
    unfold Sink.main at h
    dsimp only at h
    split at h <;> cases h
  | merging l target =>
    unfold Sink.main at h
    dsimp only at h
    split at h <;> cases h
  | idle => cases h
  | done => cases h
  | _ => exact hempty h

theorem main_idle {staging : Reads O I P} {table : List Row} {phase : Phase O I P Row}
    (h : phase = .idle) : k.main staging table phase = (.idle, table) := by
  rw [h]
  rfl

theorem Serialized.launch {job : Nat} (h : Serialized m) : Serialized (k.step m (.launch job .gateway)) := by
  unfold Sink.step
  dsimp only
  split
  · rename_i horigin
    cases horigin
  · rename_i hidle _ hlock
    have hothers : ∀ job', m.jobs job' = .idle := fun job' => by
      by_contra hbusy
      exact Option.some_ne_none job' ((h.locked job' hbusy).symm.trans hlock)
    constructor
    · intro job' hbusy
      by_cases hjob : job' = job
      · rw [hjob]
      · exact absurd ((Function.update_of_ne hjob _ _).trans (hothers job')) hbusy
    · intro job' hempty
      dsimp only at hempty
      by_cases hjob : job' = job
      · rw [hjob, Function.update_self] at hempty
        cases hempty
      · rw [Function.update_of_ne hjob, hothers job'] at hempty
        cases hempty
  · exact h

/-- A run that stops releases the lock if it holds it. -/
theorem Serialized.stop {job : Nat} (h : Serialized m) : Serialized (k.step m (.stop job)) := by
  constructor
  · intro job' hbusy
    change Function.update m.jobs job .idle job' ≠ .idle at hbusy
    by_cases hjob : job' = job
    · rw [hjob, Function.update_self] at hbusy
      exact absurd rfl hbusy
    · rw [Function.update_of_ne hjob] at hbusy
      have hlock := h.locked job' hbusy
      have hne : m.job_lock ≠ some job := fun he => hjob (Option.some.inj (hlock.symm.trans he))
      exact (if_neg hne).trans hlock
  · intro job' hempty
    change (Function.update m.jobs job .idle job').table_is_empty = some true at hempty
    by_cases hjob : job' = job
    · rw [hjob, Function.update_self] at hempty
      cases hempty
    · rw [Function.update_of_ne hjob] at hempty
      exact h.empty job' hempty

/-- Only the run that holds the lock has a next step. -/
theorem Serialized.main {job : Nat} (h : Serialized m) : Serialized (k.step m (.step job)) := by
  by_cases hidle : m.jobs job = .idle
  · have hsame : k.step m (.step job) = m := by
      unfold Sink.step
      dsimp only
      rw [main_idle hidle, ← hidle, Function.update_eq_self]
    rw [hsame]
    exact h
  · have hlock := h.locked job hidle
    constructor
    · intro job' hbusy
      by_cases hjob : job' = job
      · rw [hjob]
        exact hlock
      · exact absurd ((Function.update_of_ne hjob _ _).trans (h.idle_of_ne hlock hjob)) hbusy
    · intro job' hempty
      change (Function.update m.jobs job _ job').table_is_empty = some true at hempty
      by_cases hjob : job' = job
      · rw [hjob, Function.update_self] at hempty
        exact main_empty (h.empty job) hempty
      · rw [Function.update_of_ne hjob, h.idle_of_ne hlock hjob] at hempty
        cases hempty

/-- **Runs of the gateway stay serialized.** -/
theorem Serialized.step {action : Action O I P} (h : Serialized m) (hgateway : action.ByGateway) :
    Serialized (k.step m action) := by
  cases action with
  | launch job origin =>
    cases hgateway
    exact h.launch
  | stop job => exact h.stop
  | stage staging => exact ⟨h.locked, h.empty⟩
  | step job => exact h.main

omit [DecidableEq Row] in
/-- What is appended to an empty table is not in it. -/
theorem Serialized.appendsApart {action : Action O I P} (h : Serialized m) : k.AppendsApart m action := by
  cases action with
  | step job =>
    intro l hphase hempty _ r _ t ht
    have hnone := h.empty job (by rw [hphase, ← hempty]; rfl)
    rw [hnone] at ht
    cases ht
  | _ => exact trivial

/-- **The gateway alone never appends to a table with rows**, and so keeps the grain. -/
theorem gateway_append_empty (k : Sink O I P Row) (staging : Reads O I P) (actions : List (Action O I P))
    (hgateway : ∀ action ∈ actions, action.ByGateway) :
    Serialized (k.run staging actions) ∧ UniqueOn k.order_item_id (k.run staging actions).table := by
  induction actions using List.reverseRecOn with
  | nil => exact ⟨serialized_initial staging, UniqueOn.nil⟩
  | append_singleton done action ih =>
    obtain ⟨hserialized, hunique⟩ := ih fun a ha => hgateway a (List.mem_append_left _ ha)
    rw [run_append]
    have hby := hgateway action (List.mem_append_right _ List.mem_cons_self)
    exact ⟨hserialized.step hby, (unique_step_iff hunique).mpr hserialized.appendsApart⟩

end Gateway

end LocalDataPlatform.Sales.Jobs

/-! ## `iceberg_sales` over the declared columns -/

namespace LocalDataPlatform.Sales.Nullable

open Relational Jobs

/-- `COUNT(DISTINCT order_item_id)`. -/
def distinctItems (rows : List IcebergRow) : Nat := (rows.map IcebergRow.order_item_id).dedup.length

/-- `sales_date.isNull()`; the other two keys are not nullable. -/
def nullKey (r : IcebergRow) : Bool := r.sales_date.isNone

/-- `(quantity < 0) | (sales_amount < 0)` is true. -/
def invalidMeasure (r : IcebergRow) : Bool :=
  r.quantity.any (fun q => decide (q < 0)) || r.sales_amount.any fun a => decide (a < 0)

/-- `validate_sales` raises nothing. -/
def validateSales (rows : List IcebergRow) : Bool :=
  decide (rows.length = distinctItems rows) && decide (rows.countP nullKey = 0) &&
    decide (rows.countP invalidMeasure = 0)

/-- The columns that `create_table` declares `NOT NULL`. -/
def contract (r : IcebergRow) : Bool :=
  r.customer_id.isSome && r.product_id.isSome && r.order_date.isSome && r.sales_date.isSome

theorem uniqueOn_transformSales (st : Staging) : UniqueOn IcebergRow.order_item_id st.transformSales := by
  rw [transformSales_eq]
  exact (uniqueOn_orderedItems st).map_proj fun _ => rfl

abbrev Orders := Table OrderRow OrderRow.order_id

abbrev OrderItems := Table OrderItemRow OrderItemRow.order_item_id

abbrev Payments := Table PaymentRow PaymentRow.payment_id

/-- The job over the staging tables as they are declared. -/
def icebergSales : Sink Orders OrderItems Payments IcebergRow where
  order_item_id := IcebergRow.order_item_id
  transform_sales reads := Staging.transformSales ⟨reads.orders, reads.order_items, reads.payments⟩
  unique _ := uniqueOn_transformSales _
  high_watermark table := (sqlMax (table.map IcebergRow.source_loaded_at)).getD beforeEveryLoad
  isNewer mark r := r.source_loaded_at.any fun x => decide (mark < x)
  validate_sales := validateSales
  contract := contract
  notOlder source target :=
    target.source_loaded_at.any fun y => source.source_loaded_at.any fun x => decide (y ≤ x)

/-- **The Iceberg table keeps one row for each `order_item_id` exactly as long as every append finds
none of its keys there.** -/
theorem fact_sales_grain_iff (staging : Reads Orders OrderItems Payments)
    (actions : List (Action Orders OrderItems Payments)) :
    (∀ done, done <+: actions →
        UniqueOn IcebergRow.order_item_id (icebergSales.run staging done).table) ↔
      ∀ done action, done ++ [action] <+: actions →
        icebergSales.AppendsApart (icebergSales.run staging done) action :=
  grain_iff icebergSales staging actions

/-- An order with one item, loaded at 10. -/
def oneItem : Reads Orders OrderItems Payments where
  orders := Table.empty.put ⟨1, some 7, some 5, some "pending", some 1000, none, none, some 10⟩
  order_items := Table.empty.put ⟨1, some 1, some 9, some 1, some 1000, none, none, some 10⟩
  payments := Table.empty

/-- The gateway starts run 0, and `iceberg-submit` run 1; both read the mark of the empty table. -/
def bothFirst : List (Action Orders OrderItems Payments) :=
  [.launch 0 .gateway, .step 0, .step 0, .launch 1 .iceberg_submit, .step 1, .step 1] ++
    List.replicate 5 (.step 0) ++ List.replicate 5 (.step 1)

/-- Both runs append the item. -/
theorem fact_sales_grain_twice : (icebergSales.run oneItem bothFirst).table.length = 2 ∧
    ¬ UniqueOn IcebergRow.order_item_id (icebergSales.run oneItem bothFirst).table := by
  unfold UniqueOn
  decide

end LocalDataPlatform.Sales.Nullable

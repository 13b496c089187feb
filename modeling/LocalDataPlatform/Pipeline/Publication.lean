import LocalDataPlatform.Pipeline.Barrier
import LocalDataPlatform.Pipeline.Completeness
import LocalDataPlatform.Stream.Producer
import LocalDataPlatform.Text.Timestamp

/-!
# What a run stages and what it publishes

The extract and the producer work out the window of a run by themselves: one compares in the database,
with the maximum it has captured or with the texts of the parameters, the other reads the candidate or
parses the texts.

* `Params` — the parameters of a run; `Params.validateRunConfig` — their validation.
* `Params.extractMode`, `Params.publishArgs` — the window as the extract and as the producer see it.
* `RunLog` — the orders that a run has upserted, and the windows that its producer has read.
* `During` — the states since a run was triggered, with what it has done: while it is active, while it has
  failed and others run, and after each of its clears.
* `ClearsKeep` — a clear of the run finds staging and the watermark as its attempts need them.
* `CoversExtract` — the producer has what the run has upserted, and its window is what is promoted.

Principal results: `Params.agree` (both read the texts alike), `CoverInv.move` (one step of the active run),
`RunInv.move` (one step of any), `publish_covers_extract` (in every history of a run whose clears keep what
it needs), `publish_covers_extract_cleared` (two clears after which the window is another).
-/

set_option autoImplicit false

namespace LocalDataPlatform.Pipeline

open Relational Sales Text
open LocalDataPlatform.Stream (Args Window window)

/-! ## Parameters -/

inductive RunMode where
  | incremental
  | backfill
  deriving DecidableEq, Repr

/-- `context["params"]`; the bounds have the format `date-time`. -/
structure Params where
  run_mode : RunMode
  backfill_start : Option String
  backfill_end : Option String
  deriving DecidableEq, Repr

/-- `datetime.fromisoformat(text.replace("Z", "+00:00"))`. -/
def fromisoformat (text : String) : Except String Timestamp :=
  match (readTimestamp false).readAll (replaceZ text.toList) with
  | some ts => .ok ts
  | none => .error ("Invalid isoformat string: '" ++ String.ofList (replaceZ text.toList) ++ "'")

/-- `start_at >= end_at`; without offsets the clocks are compared. -/
def notBefore : Timestamp → Timestamp → Except String Bool
  | .aware start, .aware stop => .ok (decide (stop.instant ≤ start.instant))
  | .naive start, .naive stop => .ok (decide (stop.instant ≤ start.instant))
  | _, _ => .error "can't compare offset-naive and offset-aware datetimes"

namespace Params

variable (params : Params)

/-- `validate_run_config`. -/
def validateRunConfig : Except String Unit :=
  match params.run_mode, params.backfill_start, params.backfill_end with
  | .incremental, _, _ => .ok ()
  | .backfill, some start, some stop => do
    let start_at ← fromisoformat start
    let end_at ← fromisoformat stop
    if ← notBefore start_at end_at then throw "backfill_start must be earlier than backfill_end"
  | .backfill, _, _ => throw "backfill_start and backfill_end are required in backfill mode"

/-- The mode of the extracts: the database reads the texts, if it accepts them. -/
def extractMode (timestamptz : String → Option Instant) : Mode :=
  match params.run_mode with
  | .incremental => .incremental
  | .backfill => .backfill (params.backfill_start.bind timestamptz) (params.backfill_end.bind timestamptz)

/-- A bound as the producer sends it to the database. -/
def bound (zone : Datetime → Instant) (text : String) : Option Instant :=
  match fromisoformat text with
  | .ok ts => some (ts.instant zone)
  | .error _ => none

/-- The arguments of `publish_orders.py`. -/
def publishArgs (zone : Datetime → Instant) : Args :=
  match params.run_mode with
  | .incremental => ⟨none, none, none⟩
  | .backfill => ⟨none, params.backfill_start.bind (bound zone), params.backfill_end.bind (bound zone)⟩

end Params

/-- What PostgreSQL accepts of an ISO 8601 text is the instant it denotes, in a session whose time zone is
`zone`. -/
def ReadsTimestamps (zone : Datetime → Instant) (timestamptz : String → Option Instant) : Prop :=
  ∀ text ts t, (readTimestamp true).readAll text.toList = some ts → timestamptz text = some t →
    t = ts.instant zone

/-- The producer has the bounds of the extracts. -/
def Agree (mode : Mode) (args : Args) : Prop :=
  match mode with
  | .incremental => args.start = none ∧ args.stop = none
  | .backfill start stop => ∃ lower upper, args.start = some lower ∧ args.stop = some upper ∧
      (∀ t ∈ start, t = lower) ∧ ∀ t ∈ stop, t = upper

section Texts

variable {zone : Datetime → Instant} {timestamptz : String → Option Instant} {params : Params}

theorem fromisoformat_eq_ok {text : String} {ts : Timestamp} (h : fromisoformat text = .ok ts) :
    (readTimestamp true).readAll text.toList = some ts := by
  unfold fromisoformat at h
  split at h
  · rename_i ts' hread
    cases h
    exact read_replaceZ hread
  · cases h

/-- A text that both sides accept is one instant. -/
theorem bound_eq (hpg : ReadsTimestamps zone timestamptz) {text : String} {ts : Timestamp}
    (h : fromisoformat text = .ok ts) :
    Params.bound zone text = some (ts.instant zone) ∧ ∀ t ∈ timestamptz text, t = ts.instant zone := by
  constructor
  · unfold Params.bound
    rw [h]
  · intro t ht
    exact hpg text ts t (fromisoformat_eq_ok h) ht

/-- **The producer and the extracts read the parameters alike.** -/
theorem Params.agree (hpg : ReadsTimestamps zone timestamptz) (hvalid : params.validateRunConfig = .ok ()) :
    Agree (params.extractMode timestamptz) (params.publishArgs zone) := by
  obtain ⟨run_mode, backfill_start, backfill_end⟩ := params
  cases run_mode with
  | incremental => exact ⟨rfl, rfl⟩
  | backfill =>
    cases backfill_start with
    | none => cases hvalid
    | some start =>
      cases backfill_end with
      | none => cases hvalid
      | some stop =>
        unfold Params.validateRunConfig at hvalid
        dsimp only at hvalid
        cases hstart : fromisoformat start with
        | error e =>
          rw [hstart] at hvalid
          cases hvalid
        | ok start_at =>
          cases hstop : fromisoformat stop with
          | error e =>
            rw [hstart, hstop] at hvalid
            cases hvalid
          | ok end_at =>
            obtain ⟨hlower, hlower'⟩ := bound_eq hpg hstart
            obtain ⟨hupper, hupper'⟩ := bound_eq hpg hstop
            exact ⟨_, _, hlower, hupper, hlower', hupper'⟩

end Texts

/-! ## A run and what it has done -/

/-- The orders a run has upserted, in all its attempts, and the windows its producer has read since it was
last cleared. -/
structure RunLog where
  upserted : List Uuid
  windows : List Window

/-- The window a producer reads. -/
def producerWindow (args : Args) (w : Watermark) : Except String Window :=
  window args (some (w.watermark_value, w.candidate_value))

/-- What an action adds to the log of the active run. -/
def RunLog.after (args : Args) (log : RunLog) (s : State) : Action → RunLog
  | .upsert .orders _ _ =>
    match s.attempt (.extract .orders) with
    | some (run, .extract lower upper) =>
      { log with upserted := log.upserted ++
          (extracted run.mode .orders (s.source .orders) lower upper).rows.map OrderRow.order_id }
    | _ => log
  | .start .publish_order_events =>
    match producerWindow args (s.watermarks .orders) with
    | .ok w => { log with windows := w :: log.windows }
    | .error _ => log
  | _ => log

/-- The log of a run that is cleared: a producer that is to run again reads another window. -/
def RunLog.cleared (log : RunLog) (run : Run) : RunLog :=
  if (run.state .publish_order_events).isIdle then { log with windows := [] } else log

/-- The log of the run `id` after an action of whichever run. -/
def RunLog.next (args : Args) (id : Nat) (log : RunLog) (s : State) (action : Action) : RunLog :=
  match s.run, action with
  | some run, action => if run.id = id then log.after args s action else log
  | none, .clear index task =>
    match s.failed[index]? with
    | some run => if run.id = id then log.cleared (run.clear task) else log
    | none => log
  | none, _ => log

/-- The states since the run `id` was triggered, with what it has done; other runs may come between its
close and its clear. -/
inductive During (day : Instant → Int) (mode : Mode) (args : Args) (id : Nat)
    (ok : RunLog → State → Action → Prop) : RunLog → State → Prop
  | trigger {s s' : State} (h : Reaches day (fun _ _ _ => True) s) (hid : s.triggered = id)
      (hstep : step day s (.trigger mode) = some s') : During day mode args id ok ⟨[], []⟩ s'
  | step {log : RunLog} {s s' : State} {action : Action} (h : During day mode args id ok log s)
      (hstep : step day s action = some s') (hok : ok log s action) :
      During day mode args id ok (log.next args id s action) s'

/-- `updated_at` lies in the window of the run, as staging and the watermark are now. -/
def InScope (mode : Mode) (w : Watermark) (updated_at : Instant) : Prop :=
  match mode with
  | .incremental => w.InCandidate updated_at
  | .backfill start stop => ∃ lower ∈ start, ∃ upper ∈ stop, lower ≤ updated_at ∧ updated_at < upper

/-- The bounds are those of the run. -/
def BoundsOf (mode : Mode) (w : Watermark) (lower upper : Instant) : Prop :=
  match mode with
  | .incremental => lower = w.watermark_value
  | .backfill start stop => start = some lower ∧ stop = some upper

/-- Each of the orders is staged within the window of the run. -/
def StagedInScope (mode : Mode) (s : State) (ids : List Uuid) : Prop :=
  ∀ id ∈ ids, ∃ r, s.staging.orders.find? id = some r ∧
    InScope mode (s.watermarks .orders) r.row.updated_at

/-- What `advance_watermarks` would promote is the upper bound of the window. -/
def Promotes (w : Watermark) : Window → Prop
  | .candidate _ upper =>
    ∀ candidate ∈ w.candidate_value, max w.watermark_value candidate = max w.watermark_value upper
  | _ => False

/-- What a run that has been cleared needs of staging and the watermark. -/
structure Resumable (mode : Mode) (log : RunLog) (s : State) (run : Run) : Prop where
  /-- A producer that is to run again finds what the run has upserted in its window. -/
  covered : run.state .publish_order_events = .idle → StagedInScope mode s log.upserted
  /-- What a producer has read and delivered is what is promoted. -/
  promoted : mode = .incremental → run.state .publish_order_events = .succeeded →
    ∀ w ∈ log.windows, Promotes (s.watermarks .orders) w

/-- Each clear of the run finds what it needs. -/
def ClearsKeep (mode : Mode) (id : Nat) (log : RunLog) (s : State) (action : Action) : Prop :=
  ∀ index task run, action = .clear index task → s.failed[index]? = some run → run.id = id →
    Resumable mode log s (run.clear task)

/-- The producer of the run covers its extracts, and its window is promoted. -/
structure CoversExtract (day : Instant → Int) (mode : Mode) (args : Args) (log : RunLog) (s : State) :
    Prop where
  /-- When the producer starts, each order is staged with a version in the window it reads. -/
  window : ∀ w, producerWindow args (s.watermarks .orders) = .ok w →
    (∃ s', step day s (.start .publish_order_events) = some s') →
      ∀ id ∈ log.upserted, ∃ r, s.staging.orders.find? id = some r ∧ w.contains r.row.updated_at = true
  /-- When it succeeds, Kafka has acknowledged these versions. -/
  acked : (∃ s', step day s .flushed = some s') →
    ∀ id ∈ log.upserted, ∃ r, s.staging.orders.find? id = some r ∧ r.row ∈ s.acked
  /-- The upper bound of the window is promoted when it exceeds the watermark, and nothing else is. -/
  promoted : mode = .incremental → ∀ w ∈ log.windows, ∀ outcome s',
    step day s (.advance outcome) = some s' →
      ∃ lower upper, w = .candidate lower upper ∧ (s'.watermarks .orders).watermark_value =
        max (s.watermarks .orders).watermark_value upper

/-- The producer has neither succeeded nor failed for good. -/
def Run.Publishes (run : Run) : Prop :=
  run.state .publish_order_events ≠ .succeeded ∧ run.state .publish_order_events ≠ .failed

/-- What holds while the run is active. -/
structure CoverInv (mode : Mode) (log : RunLog) (s : State) : Prop where
  layered : LayeredRuns s
  active : ∃ run, s.run = some run ∧ run.mode = mode
  reading : ∀ lower upper, s.Reading mode .orders lower upper →
    BoundsOf mode (s.watermarks .orders) lower upper
  /-- Until the producer ends, what was upserted is in its window. -/
  covered : ∀ run, s.run = some run → run.Publishes → StagedInScope mode s log.upserted
  publishing : ∀ run snapshot pending, s.run = some run →
    run.state .publish_order_events = .running (.publish snapshot pending) →
    ∀ id ∈ log.upserted, ∃ r, s.staging.orders.find? id = some r ∧ (r.row ∈ pending ∨ r.row ∈ s.acked)
  windows : ∀ run, s.run = some run → log.windows ≠ [] → run.state (.extract .orders) = .succeeded
  /-- What the producer has read is still there to promote, or is promoted. -/
  promoted : mode = .incremental → ∀ run, s.run = some run → run.state .publish_order_events ≠ .failed →
    ∀ w ∈ log.windows, Promotes (s.watermarks .orders) w

/-- What holds of the run `id` and of the others. -/
structure RunInv (mode : Mode) (id : Nat) (log : RunLog) (s : State) : Prop where
  layered : LayeredRuns s
  known : id < s.triggered
  active : ∀ run, s.run = some run → run.id = id → CoverInv mode log s
  failed : ∀ run ∈ s.failed, run.id = id → run.mode = mode

section Scope

variable {mode : Mode} {w : Watermark} {lower upper u : Instant} {args : Args} {window : Window}

/-- What an extract reads lies in the window of the run. -/
theorem inScope_of_inWindow (hbounds : BoundsOf mode w lower upper) (hin : mode.inWindow lower upper u = true) :
    InScope mode (raiseCandidate mode upper w) u := by
  cases mode with
  | incremental =>
    simp only [Mode.inWindow, Bool.and_eq_true, decide_eq_true_eq] at hin
    have hlower : lower = w.watermark_value := hbounds
    refine ⟨max (w.candidate_value.getD upper) upper, rfl, ?_, hin.2.trans (le_max_right _ _)⟩
    exact hlower ▸ hin.1
  | backfill start stop =>
    simp only [Mode.inWindow, Bool.and_eq_true, decide_eq_true_eq] at hin
    obtain ⟨hstart, hstop⟩ := hbounds
    exact ⟨lower, hstart, upper, hstop, hin.1, hin.2⟩

/-- A higher candidate keeps what was in the window. -/
theorem InScope.raise (h : InScope mode w u) (upper : Instant) :
    InScope mode (raiseCandidate mode upper w) u := by
  cases mode with
  | incremental =>
    obtain ⟨c, hc, hlower, hle⟩ := h
    refine ⟨max (w.candidate_value.getD upper) upper, rfl, hlower, ?_⟩
    rw [Option.mem_def.mp hc]
    exact hle.trans (le_max_left _ _)
  | backfill start stop => exact h

theorem boundsOf_extractWindow {t : TableName} {table : Table (Row t) (key t)}
    (h : extractWindow mode t table w = some (lower, upper)) : BoundsOf mode w lower upper := by
  cases mode with
  | incremental =>
    cases h
    rfl
  | backfill start stop =>
    obtain ⟨a, ha, h⟩ := Option.bind_eq_some_iff.mp h
    obtain ⟨b, hb, he⟩ := Option.map_eq_some_iff.mp h
    cases he
    exact ⟨ha, hb⟩

/-- What lies in the window of the run is among the rows the DAG publishes. -/
theorem InScope.inWindow (h : InScope mode w u) (hwindow : publishWindow mode w = some (lower, upper)) :
    mode.inWindow lower upper u = true := by
  cases mode with
  | incremental =>
    obtain ⟨c, hc, hlower, hle⟩ := h
    obtain ⟨c', hc', he⟩ := Option.map_eq_some_iff.mp hwindow
    cases he
    cases Option.mem_unique hc hc'
    simp [Mode.inWindow, hlower, hle]
  | backfill start stop =>
    obtain ⟨a, ha, b, hb, hlower, hlt⟩ := h
    obtain ⟨a', ha', hwindow⟩ := Option.bind_eq_some_iff.mp hwindow
    obtain ⟨b', hb', he⟩ := Option.map_eq_some_iff.mp hwindow
    cases he
    cases Option.mem_unique ha ha'
    cases Option.mem_unique hb hb'
    simp [Mode.inWindow, hlower, hlt]

/-- **What lies in the window of the run lies in the one the producer reads.** -/
theorem InScope.contains (h : InScope mode w u) (hagree : Agree mode args)
    (hread : producerWindow args w = .ok window) : window.contains u = true := by
  obtain ⟨limit, start, stop⟩ := args
  cases mode with
  | incremental =>
    obtain ⟨c, hc, hlower, hle⟩ := h
    obtain ⟨rfl, rfl⟩ := hagree
    have hcandidate : w.candidate_value = some c := hc
    unfold producerWindow Stream.window at hread
    rw [hcandidate] at hread
    cases hread
    simp [Window.contains, hlower, hle]
  | backfill start' stop' =>
    obtain ⟨a, ha, b, hb, hlower, hlt⟩ := h
    obtain ⟨_, _, rfl, rfl, hstart, hstop⟩ := hagree
    cases hread
    cases hstart a ha
    cases hstop b hb
    simp [Window.contains, hlower, hlt]

/-- A window the producer reads is the one to promote. -/
theorem promotes_of_producerWindow (hagree : Agree .incremental args)
    (hread : producerWindow args w = .ok window) : Promotes w window := by
  obtain ⟨limit, start, stop⟩ := args
  obtain ⟨rfl, rfl⟩ := hagree
  unfold producerWindow Stream.window at hread
  cases hc : w.candidate_value with
  | none =>
    rw [hc] at hread
    cases hread
  | some upper =>
    rw [hc] at hread
    cases hread
    intro candidate hcandidate
    rw [hc] at hcandidate
    cases hcandidate
    rfl

end Scope

/-! ## One step -/

section Steps

variable {day : Instant → Int} {mode : Mode} {args : Args} {log : RunLog} {s s' : State} {action : Action}
variable {run : Run} {task : Task} {state : TaskState}

theorem Run.publishes_of_idle (h : run.state .publish_order_events = .idle) : run.Publishes :=
  ⟨h ▸ nofun, h ▸ nofun⟩

theorem Run.publishes_of_running {attempt : Attempt} (h : run.state .publish_order_events = .running attempt) :
    run.Publishes :=
  ⟨h ▸ nofun, h ▸ nofun⟩

theorem Run.publishes_set (htask : .publish_order_events ≠ task) :
    (run.set task state).Publishes ↔ run.Publishes := by
  unfold Run.Publishes
  rw [Run.set_state_of_ne htask]

theorem RunLog.after_upsert {lower upper now : Instant} {outcome : Outcome} (hrun : s.run = some run)
    (hstate : run.state (.extract .orders) = .running (.extract lower upper)) :
    log.after args s (.upsert .orders now outcome) = { log with upserted := log.upserted ++
      (extracted run.mode .orders (s.source .orders) lower upper).rows.map OrderRow.order_id } := by
  unfold RunLog.after
  dsimp only
  rw [attempt_of_running hrun hstate]

/-- A start upserts nothing. -/
theorem RunLog.upserted_after_start : (log.after args s (.start task)).upserted = log.upserted := by
  cases task with
  | publish_order_events =>
    unfold RunLog.after
    dsimp only
    split <;> rfl
  | _ => rfl

/-- Only a start of the producer reads a window. -/
theorem RunLog.after_start_of_ne (htask : task ≠ .publish_order_events) :
    log.after args s (.start task) = log := by
  cases task <;> first | rfl | exact absurd rfl htask

/-- A load of the orders of a window stages them within it, and keeps the others. -/
theorem StagedInScope.load {ids : List Uuid} {lower upper now : Instant} {source : Table OrderRow OrderRow.order_id}
    (h : StagedInScope mode s ids) (hbounds : BoundsOf mode (s.watermarks .orders) lower upper)
    (horders : s'.staging.orders = Sales.load s.staging.orders (extracted mode .orders source lower upper) now)
    (hwatermark : s'.watermarks .orders = raiseCandidate mode upper (s.watermarks .orders)) :
    StagedInScope mode s'
      (ids ++ (extracted mode .orders source lower upper).rows.map OrderRow.order_id) := by
  intro id hid
  rw [horders, hwatermark, find?_load]
  cases hbatch : (extracted mode .orders source lower upper).find? id with
  | some row =>
    refine ⟨⟨row, now⟩, rfl, inScope_of_inWindow hbounds ?_⟩
    exact (List.mem_filter.mp (Table.find?_eq_some.mp hbatch).1).2
  | none =>
    have hold : id ∈ ids := by
      rcases List.mem_append.mp hid with hid | hid
      · exact hid
      · obtain ⟨row, hrow, rfl⟩ := List.mem_map.mp hid
        have hfind : (extracted mode .orders source lower upper).find? row.order_id = some row :=
          Table.find?_eq_some.mpr ⟨hrow, rfl⟩
        rw [hbatch] at hfind
        cases hfind
    obtain ⟨r, hr, hin⟩ := h id hold
    exact ⟨r, hr, hin.raise upper⟩

/-- A producer that starts has the orders of the window before it. -/
theorem mem_pending_of_startAttempt {snapshot : Staging} {pending : List OrderRow} {r : Staged OrderRow}
    {id : Uuid} (hattempt : startAttempt s mode .publish_order_events = .publish snapshot pending)
    (hr : s.staging.orders.find? id = some r)
    (hin : InScope mode (s.watermarks .orders) r.row.updated_at) : r.row ∈ pending := by
  unfold startAttempt at hattempt
  dsimp only at hattempt
  split at hattempt
  · rename_i lower upper hwindow
    cases hattempt
    refine List.mem_filter.mpr ⟨List.mem_map_of_mem (Table.find?_eq_some.mp hr).1, ?_⟩
    exact hin.inWindow hwindow
  · cases hattempt

theorem Outcome.state_not_running (outcome : Outcome) (attempt : Attempt) :
    outcome.state ≠ .running attempt := by
  cases outcome <;> exact nofun

theorem CoverInv.mode_eq (h : CoverInv mode log s) (hrun : s.run = some run) : run.mode = mode := by
  obtain ⟨run', hrun', hmode⟩ := h.active
  rw [hrun] at hrun'
  cases hrun'
  exact hmode

/-- A running task ends, orders and their watermark stay. -/
theorem CoverInv.set {attempt : Attempt} (h : CoverInv mode log s) (hlayered : LayeredRuns s')
    (hrun : s.run = some run) (hrun' : s'.run = some (run.set task state))
    (horders : s'.staging.orders = s.staging.orders)
    (hwatermark : s'.watermarks .orders = s.watermarks .orders) (hacked : s'.acked = s.acked)
    (hrunning : run.state task = .running attempt) (hstate : ∀ attempt, state ≠ .running attempt) :
    CoverInv mode log s' := by
  have hpublish : ∀ run', s'.run = some run' → run'.Publishes → run.Publishes := by
    intro run' hr hnot
    rw [hrun'] at hr
    cases hr
    by_cases htask : .publish_order_events = task
    · subst htask
      exact Run.publishes_of_running hrunning
    · exact (Run.publishes_set htask).mp hnot
  refine ⟨hlayered, ?_, ?_, ?_, ?_, ?_, ?_⟩
  · have hmode := h.mode_eq hrun
    exact ⟨_, hrun', hmode⟩
  · intro lower upper hr
    rw [hwatermark]
    exact h.reading lower upper (hr.of_set hrun hrun' (hstate _))
  · intro run' hr hnot id hid
    rw [horders, hwatermark]
    exact h.covered run hrun (hpublish run' hr hnot) id hid
  · intro run' snapshot pending hr hrunning'
    rw [hrun'] at hr
    cases hr
    by_cases htask : .publish_order_events = task
    · subst htask
      rw [Run.set_state_self] at hrunning'
      exact absurd hrunning' (hstate _)
    · rw [Run.set_state_of_ne htask] at hrunning'
      rw [horders, hacked]
      exact h.publishing run snapshot pending hrun hrunning'
  · intro run' hr hwindows
    rw [hrun'] at hr
    cases hr
    have hdone := h.windows run hrun hwindows
    by_cases htask : .extract .orders = task
    · subst htask
      cases hrunning.symm.trans hdone
    · rwa [Run.set_state_of_ne htask]
  · intro hmode run' hr hnot w hw
    rw [hrun'] at hr
    cases hr
    rw [hwatermark]
    refine h.promoted hmode run hrun ?_ w hw
    by_cases htask : .publish_order_events = task
    · rw [htask, hrunning]
      exact nofun
    · rwa [Run.set_state_of_ne htask] at hnot

/-- **A start reads the window of the run.** -/
theorem CoverInv.start (h : CoverInv mode log s) (hagree : Agree mode args) (hrun : s.run = some run)
    (hidle : run.state task = .idle) (hready : run.ready task = true) :
    CoverInv mode (log.after args s (.start task))
      { s with run := some (run.set task (.running (startAttempt s run.mode task))) } := by
  have hmove : Move toDate s (.start task)
      { s with run := some (run.set task (.running (startAttempt s run.mode task))) } :=
    Move.start hrun hidle hready
  have hmode := h.mode_eq hrun
  have hcovered : run.Publishes → StagedInScope mode s log.upserted := h.covered run hrun
  have hpublishes : task = .publish_order_events → run.Publishes := by
    rintro rfl
    exact Run.publishes_of_idle hidle
  refine ⟨h.layered.move hmove, ⟨_, rfl, hmode⟩, ?_, ?_, ?_, ?_, ?_⟩
  · intro lower upper hr
    rcases hmove.reading h.layered hr with hr | ⟨-, -, hwindow⟩
    · exact h.reading lower upper hr
    · exact boundsOf_extractWindow hwindow
  · intro run' hr hnot
    cases hr
    rw [RunLog.upserted_after_start]
    refine hcovered ?_
    by_cases htask : .publish_order_events = task
    · exact hpublishes htask.symm
    · exact (Run.publishes_set htask).mp hnot
  · intro run' snapshot pending hr hrunning id hid
    cases hr
    rw [RunLog.upserted_after_start] at hid
    by_cases htask : .publish_order_events = task
    · subst htask
      rw [Run.set_state_self] at hrunning
      obtain ⟨r, hr, hin⟩ := hcovered (hpublishes rfl) id hid
      have hattempt := TaskState.running.inj hrunning
      rw [hmode] at hattempt
      exact ⟨r, hr, Or.inl (mem_pending_of_startAttempt hattempt hr hin)⟩
    · rw [Run.set_state_of_ne htask] at hrunning
      exact h.publishing run snapshot pending hrun hrunning id hid
  · intro run' hr hwindows
    cases hr
    by_cases htask : .extract .orders = task
    · subst htask
      have hdone := h.windows run hrun hwindows
      rw [hidle] at hdone
      cases hdone
    · rw [Run.set_state_of_ne htask]
      by_cases hpublish : task = .publish_order_events
      · subst hpublish
        exact (h.layered.active run hrun).earlier_of_ready hready (by decide)
      · rw [RunLog.after_start_of_ne hpublish] at hwindows
        exact h.windows run hrun hwindows
  · intro hincremental run' hr hnot w hw
    subst hincremental
    cases hr
    by_cases hpublish : task = .publish_order_events
    · have hold := h.promoted rfl run hrun (hpublishes hpublish).2
      subst hpublish
      unfold RunLog.after at hw
      dsimp only at hw
      split at hw
      · rename_i w' hread
        rcases List.mem_cons.mp hw with rfl | hw
        · exact promotes_of_producerWindow hagree hread
        · exact hold w hw
      · exact hold w hw
    · rw [RunLog.after_start_of_ne hpublish] at hw
      rw [Run.set_state_of_ne (Ne.symm hpublish)] at hnot
      exact h.promoted rfl run hrun hnot w hw

/-- **A committed extract of the orders adds rows of its window.** -/
theorem CoverInv.upsert {lower upper now : Instant} {outcome : Outcome} (h : CoverInv mode log s)
    (hrun : s.run = some run) (hstate : run.state (.extract .orders) = .running (.extract lower upper))
    (hlayered : LayeredRuns s') (hs' : s' = { s with
      staging := loadTable s.staging now .orders (extracted run.mode .orders (s.source .orders) lower upper)
      watermarks := Function.update s.watermarks .orders
        (raiseCandidate run.mode upper (s.watermarks .orders))
      clock := max s.clock now }.finish run (.extract .orders) outcome) :
    CoverInv mode (log.after args s (.upsert .orders now outcome)) s' := by
  have hmode := h.mode_eq hrun
  subst hmode
  have hbounds := h.reading lower upper ⟨run, hrun, rfl, hstate⟩
  have hidle : run.state .publish_order_events = .idle :=
    (h.layered.active run hrun).sinks_idle hstate (show 1 < 4 by decide) rfl
  have hpublishes : run.Publishes := Run.publishes_of_idle hidle
  have hnoWindow : log.windows = [] := by
    by_contra hne
    have hdone := h.windows run hrun hne
    rw [hstate] at hdone
    cases hdone
  have hrun' : s'.run = some (run.set (.extract .orders) outcome.state) := by
    rw [hs']
    rfl
  have hwatermark : s'.watermarks .orders = raiseCandidate run.mode upper (s.watermarks .orders) := by
    rw [hs']
    unfold State.finish
    dsimp only
    rw [Function.update_self]
  have horders : s'.staging.orders =
      load s.staging.orders (extracted run.mode .orders (s.source .orders) lower upper) now := by
    rw [hs']
    rfl
  have hpublish : ∀ run', s'.run = some run' → run'.state .publish_order_events = .idle := by
    intro run' hr
    rw [hrun'] at hr
    cases hr
    rw [Run.set_state_of_ne (by decide)]
    exact hidle
  rw [RunLog.after_upsert hrun hstate]
  refine ⟨hlayered, ⟨_, hrun', rfl⟩, ?_, ?_, ?_, ?_, ?_⟩
  · intro lower' upper' hr
    have hold := h.reading lower' upper' (hr.of_set hrun hrun' (Outcome.state_not_running _ _))
    rw [hwatermark]
    unfold BoundsOf at hold ⊢
    cases hm : run.mode with
    | incremental =>
      rw [hm] at hold
      exact hold
    | backfill start stop =>
      rw [hm] at hold
      exact hold
  · intro _ _ _
    exact (h.covered run hrun hpublishes).load hbounds horders hwatermark
  · intro run' snapshot pending hr hrunning
    rw [hpublish run' hr] at hrunning
    cases hrunning
  · intro _ _ hwindows
    exact absurd hnoWindow hwindows
  · intro _ _ _ _ w hw
    rw [show ({ log with upserted := log.upserted ++ _ } : RunLog).windows = log.windows from rfl,
      hnoWindow] at hw
    cases hw

/-- An acknowledged order version is no longer pending. -/
theorem CoverInv.acknowledge {snapshot : Staging} {pending : List OrderRow} {order : OrderRow}
    (h : CoverInv mode log s) (hrun : s.run = some run)
    (hstate : run.state .publish_order_events = .running (.publish snapshot pending))
    (hlayered : LayeredRuns { s with
      acked := order :: s.acked
      run := some (run.set .publish_order_events (.running (.publish snapshot (pending.erase order)))) }) :
    CoverInv mode log { s with
      acked := order :: s.acked
      run := some (run.set .publish_order_events (.running (.publish snapshot (pending.erase order)))) } := by
  have hmode := h.mode_eq hrun
  have hpublishes : run.Publishes := Run.publishes_of_running hstate
  refine ⟨hlayered, ⟨_, rfl, hmode⟩, ?_, ?_, ?_, ?_, ?_⟩
  · intro lower upper hr
    exact h.reading lower upper (hr.of_set hrun rfl nofun)
  · intro _ _ _
    exact h.covered run hrun hpublishes
  · intro run' snapshot' pending' hr hrunning id hid
    cases hr
    rw [Run.set_state_self] at hrunning
    cases hrunning
    obtain ⟨r, hr, hmem⟩ := h.publishing run snapshot pending hrun hstate id hid
    refine ⟨r, hr, ?_⟩
    by_cases he : r.row = order
    · exact Or.inr (he ▸ List.mem_cons_self)
    · rcases hmem with hpending | hacked
      · exact Or.inl ((List.mem_erase_of_ne he).mpr hpending)
      · exact Or.inr (List.mem_cons_of_mem _ hacked)
  · intro run' hr hwindows
    cases hr
    rw [Run.set_state_of_ne (by decide)]
    exact h.windows run hrun hwindows
  · intro hincremental _ _ _
    exact h.promoted hincremental run hrun hpublishes.2

/-- **The promotion comes after the producer**, and leaves no candidate. -/
theorem CoverInv.advance {attempt : Attempt} {w : Watermarks} {outcome : Outcome} (h : CoverInv mode log s)
    (hrun : s.run = some run) (hstate : run.state .advance_watermarks = .running attempt)
    (hw : advanced run.mode s.watermarks = some w)
    (hlayered : LayeredRuns ({ s with watermarks := w }.finish run .advance_watermarks outcome)) :
    CoverInv mode log ({ s with watermarks := w }.finish run .advance_watermarks outcome) := by
  have hmode := h.mode_eq hrun
  have hpublished : run.state .publish_order_events = .succeeded :=
    (h.layered.active run hrun).sinks_succeeded hstate rfl
  have hextracted : run.state (.extract .orders) = .succeeded :=
    h.layered.active run hrun .advance_watermarks (.extract .orders) (by rw [hstate]; exact nofun) (by decide)
  have hkept : ∀ task : Task, task ≠ .advance_watermarks →
      (run.set .advance_watermarks outcome.state).state task = run.state task :=
    fun task htask => Run.set_state_of_ne htask
  refine ⟨hlayered, ⟨_, rfl, hmode⟩, ?_, ?_, ?_, ?_, ?_⟩
  · intro lower upper hr
    obtain ⟨run', hr', -, hreading⟩ := hr.of_set hrun rfl (Outcome.state_not_running _ _)
    rw [hrun] at hr'
    cases hr'
    rw [hextracted] at hreading
    cases hreading
  · intro run' hr hnot
    cases hr
    exact absurd hpublished ((Run.publishes_set (by decide)).mp hnot).1
  · intro run' snapshot pending hr hrunning
    cases hr
    rw [hkept _ (by decide), hpublished] at hrunning
    cases hrunning
  · intro run' hr _
    cases hr
    rw [hkept _ (by decide)]
    exact hextracted
  · intro hincremental _ _ _ window hwindow
    have hold := h.promoted hincremental run hrun (by rw [hpublished]; exact nofun) window hwindow
    rw [hmode, hincremental] at hw
    obtain ⟨-, rfl⟩ := advanced_incremental.mp hw
    cases window with
    | candidate lower upper => exact nofun
    | backfill start stop => exact hold.elim

/-- **One step of a run keeps what it has upserted in the window of its producer.** -/
theorem CoverInv.move (h : CoverInv mode log s) (hagree : Agree mode args) (hmove : Move day s action s')
    (hopen : action ≠ .close) : CoverInv mode (log.after args s action) s' := by
  have hlayered := h.layered.move hmove
  obtain ⟨run₀, hrun₀, hmode⟩ := h.active
  cases hmove with
  | changeSource t table => exact ⟨hlayered, h.active, h.reading, h.covered, h.publishing, h.windows, h.promoted⟩
  | changeCustomers ids => exact ⟨hlayered, h.active, h.reading, h.covered, h.publishing, h.windows, h.promoted⟩
  | trigger mode hnone =>
    rw [hnone] at hrun₀
    cases hrun₀
  | start hrun hidle hready => exact h.start hagree hrun hidle hready
  | @crash run task attempt outcome hrun hstate _ =>
    exact h.set hlayered hrun rfl rfl rfl rfl hstate (Outcome.state_not_running _)
  | validateRunConfig hrun hstate _ =>
    exact h.set hlayered hrun rfl rfl rfl rfl hstate nofun
  | @upsert run t lower upper now outcome hrun hstate _ =>
    by_cases ht : t = .orders
    · subst ht
      exact h.upsert hrun hstate hlayered rfl
    · have hlog : log.after args s (.upsert t now outcome) = log := by
        cases t <;> first | rfl | exact absurd rfl ht
      rw [hlog]
      refine h.set hlayered hrun rfl ?_ ?_ rfl hstate (Outcome.state_not_running _)
      · exact @staged_loadTable_of_ne s.staging now t .orders _ (Ne.symm ht)
      · exact Function.update_of_ne (Ne.symm ht) _ _
  | validateRecordCount hrun hstate _ =>
    exact h.set hlayered hrun rfl rfl rfl rfl hstate nofun
  | validateRelationships hrun hstate _ =>
    exact h.set hlayered hrun rfl rfl rfl rfl hstate nofun
  | @dbtBuild run snapshot view versions stops outcome hrun hstate _ _ =>
    exact h.set hlayered hrun rfl rfl rfl rfl hstate (Outcome.state_not_running _)
  | @icebergBatch run snapshot table outcome hrun hstate _ _ =>
    exact h.set hlayered hrun rfl rfl rfl rfl hstate (Outcome.state_not_running _)
  | @acknowledge run snapshot pending order hrun hstate _ => exact h.acknowledge hrun hstate hlayered
  | flushed hrun hstate =>
    exact h.set hlayered hrun rfl rfl rfl rfl hstate nofun
  | @advance run attempt w outcome hrun hstate hw => exact h.advance hrun hstate hw hlayered
  | close _ _ => exact absurd rfl hopen
  | clear hnone _ _ =>
    rw [hnone] at hrun₀
    cases hrun₀

/-! ## A run among the others -/

theorem RunLog.upserted_cleared : (log.cleared run).upserted = log.upserted := by
  unfold RunLog.cleared
  split <;> rfl

/-- A window is kept only with the end of the producer that has read it. -/
theorem RunLog.mem_windows_cleared {w : Window} (hw : w ∈ (log.cleared run).windows) :
    w ∈ log.windows ∧ run.state .publish_order_events ≠ .idle := by
  unfold RunLog.cleared at hw
  split at hw
  · cases hw
  · rename_i hidle
    exact ⟨hw, fun he => hidle (TaskState.isIdle_eq.mpr he)⟩

/-- **A run begins or goes on** when it finds what its attempts need. -/
theorem CoverInv.resume (hlayered : LayeredRuns s') (hrun : s'.run = some run) (hmode : run.mode = mode)
    (hquiet : run.Quiet) (hstaging : s'.staging = s.staging) (hwatermarks : s'.watermarks = s.watermarks)
    (h : Resumable mode log s run) : CoverInv mode (log.cleared run) s' := by
  refine ⟨hlayered, ⟨run, hrun, hmode⟩, ?_, ?_, ?_, ?_, ?_⟩
  · rintro lower upper ⟨run', hr, -, hreading⟩
    rw [hrun] at hr
    cases hr
    exact absurd hreading (hquiet _ _)
  · intro run' hr hpublishes
    rw [hrun] at hr
    cases hr
    rw [RunLog.upserted_cleared]
    unfold StagedInScope
    rw [hstaging, hwatermarks]
    refine h.covered ?_
    cases hstate : run.state .publish_order_events with
    | idle => rfl
    | running attempt => exact absurd hstate (hquiet _ _)
    | succeeded => exact absurd hstate hpublishes.1
    | failed => exact absurd hstate hpublishes.2
  · intro run' snapshot pending hr hrunning
    rw [hrun] at hr
    cases hr
    exact absurd hrunning (hquiet _ _)
  · intro run' hr hwindows
    rw [hrun] at hr
    cases hr
    obtain ⟨w, hw⟩ := List.exists_mem_of_ne_nil _ hwindows
    exact hlayered.active run hrun .publish_order_events (.extract .orders) (RunLog.mem_windows_cleared hw).2
      (by decide)
  · intro hincremental run' hr hnot w hw
    rw [hrun] at hr
    cases hr
    rw [hwatermarks]
    obtain ⟨hread, hbusy⟩ := RunLog.mem_windows_cleared hw
    refine h.promoted hincremental ?_ w hread
    cases hstate : run.state .publish_order_events with
    | idle => exact absurd hstate hbusy
    | running attempt => exact absurd hstate (hquiet _ _)
    | succeeded => rfl
    | failed => exact absurd hstate hnot

/-- As long as it is not closed, the active run stays the same one. -/
theorem Move.active (hmove : Move day s action s') (hrun : s.run = some run) (hopen : action ≠ .close) :
    (∃ run', s'.run = some run' ∧ run'.id = run.id) ∧ s'.failed = s.failed ∧ s'.triggered = s.triggered := by
  cases hmove with
  | changeSource t table => exact ⟨⟨run, hrun, rfl⟩, rfl, rfl⟩
  | changeCustomers ids => exact ⟨⟨run, hrun, rfl⟩, rfl, rfl⟩
  | trigger mode hnone => cases hnone.symm.trans hrun
  | close _ _ => exact absurd rfl hopen
  | clear hnone _ _ => cases hnone.symm.trans hrun
  | _ =>
    cases hrun.symm.trans ‹s.run = some _›
    exact ⟨⟨_, rfl, rfl⟩, rfl, rfl⟩

theorem RunLog.next_active {id : Nat} (hrun : s.run = some run) (hid : run.id = id) :
    log.next args id s action = log.after args s action := by
  unfold RunLog.next
  rw [hrun]
  exact if_pos hid

theorem RunLog.next_clear {id index : Nat} (hnone : s.run = none) (hindex : s.failed[index]? = some run) :
    log.next args id s (.clear index task) = if run.id = id then log.cleared (run.clear task) else log := by
  unfold RunLog.next
  rw [hnone]
  dsimp only
  rw [hindex]

/-- A run that is triggered has nothing to find. -/
theorem RunInv.trigger (h : LayeredRuns s) (hids : RunIds s) (hmove : Move day s (.trigger mode) s') :
    RunInv mode s.triggered ⟨[], []⟩ s' := by
  have hlayered := h.move hmove
  cases hmove with
  | trigger mode hnone =>
    refine ⟨hlayered, Nat.lt_succ_self _, fun run hr _ => ?_, fun run hr hid => ?_⟩
    · cases hr
      refine @CoverInv.resume mode ⟨[], []⟩ s _ _ hlayered rfl rfl nofun rfl rfl ⟨fun _ => ?_, fun _ _ => ?_⟩
      · exact fun id hid => absurd hid List.not_mem_nil
      · exact fun w hw => absurd hw List.not_mem_nil
    · have hmem : run.id ∈ s.runIds := List.mem_map_of_mem (List.mem_append_right _ hr)
      exact absurd (hids.lt _ hmem) (hid ▸ lt_irrefl _)

/-- **One step of whichever run keeps what holds of the run.** -/
theorem RunInv.move {id : Nat} (h : RunInv mode id log s) (hagree : Agree mode args)
    (hmove : Move day s action s') (hclear : ClearsKeep mode id log s action) :
    RunInv mode id (log.next args id s action) s' := by
  have hlayered := h.layered.move hmove
  cases hrun : s.run with
  | some run =>
    by_cases hopen : action = .close
    · subst hopen
      -- the run that is active fails or is done
      cases hmove with
      | @close run' hrun' hended =>
        cases hrun.symm.trans hrun'
        refine ⟨hlayered, h.known, nofun, fun r hr hid => ?_⟩
        dsimp only at hr
        split at hr
        · exact h.failed r hr hid
        · rcases List.mem_cons.mp hr with rfl | hr
          · exact (h.active r hrun hid).mode_eq hrun
          · exact h.failed r hr hid
    · obtain ⟨⟨run', hrun', hsame⟩, hfailed, htriggered⟩ := hmove.active hrun hopen
      refine ⟨hlayered, htriggered ▸ h.known, fun r hr hid => ?_, fun r hr hid => h.failed r (hfailed ▸ hr) hid⟩
      cases hrun'.symm.trans hr
      have hid' : run.id = id := hsame ▸ hid
      rw [RunLog.next_active hrun hid']
      exact (h.active run hrun hid').move hagree hmove hopen
  | none =>
    cases hmove with
    | changeSource t table => exact ⟨hlayered, h.known, fun r hr => absurd (hrun.symm.trans hr) nofun, h.failed⟩
    | changeCustomers ids => exact ⟨hlayered, h.known, fun r hr => absurd (hrun.symm.trans hr) nofun, h.failed⟩
    | trigger mode _ =>
      refine ⟨hlayered, Nat.lt_succ_of_lt h.known, fun r hr hid => ?_, h.failed⟩
      cases hr
      exact absurd hid (Nat.ne_of_gt h.known)
    | @clear run index task hnone hindex hstate =>
      have hmem : run ∈ s.failed := List.mem_of_getElem? hindex
      refine ⟨hlayered, h.known, fun r hr hid => ?_,
        fun r hr hid => h.failed r (List.mem_of_mem_eraseIdx hr) hid⟩
      cases hr
      have hid : run.id = id := hid
      rw [RunLog.next_clear hnone hindex, if_pos hid]
      exact CoverInv.resume (s := s) hlayered rfl (h.failed run hmem hid) (h.layered.failed run hmem).2.clear rfl rfl
        (hclear index task run rfl hindex hid)
    -- any other action needs an active run
    | _ => exact absurd (hrun.symm.trans ‹s.run = some _›) nofun

theorem During.runInv {id : Nat} (h : During day mode args id (ClearsKeep mode id) log s)
    (hagree : Agree mode args) : RunInv mode id log s := by
  induction h with
  | trigger hreach hid hstep => exact hid ▸ RunInv.trigger hreach.layered hreach.runIds (move_of_step hstep)
  | step _ hstep hok ih => exact ih.move hagree (move_of_step hstep) hok

/-- What the invariant says of the producer and of the promotion. -/
theorem CoverInv.coversExtract (h : CoverInv mode log s) (hagree : Agree mode args) :
    CoversExtract day mode args log s := by
  constructor
  · rintro w hread ⟨s', hstep⟩ id hid
    cases move_of_step hstep with
    | @start run _ hrun hidle _ =>
      obtain ⟨r, hr, hin⟩ := h.covered _ hrun (Run.publishes_of_idle hidle) id hid
      exact ⟨r, hr, hin.contains hagree hread⟩
  · rintro ⟨s', hstep⟩ id hid
    cases move_of_step hstep with
    | flushed hrun hstate =>
      obtain ⟨r, hr, hmem⟩ := h.publishing _ _ _ hrun hstate id hid
      exact ⟨r, hr, hmem.resolve_left List.not_mem_nil⟩
  · intro hincremental w hw outcome s' hstep
    cases move_of_step hstep with
    | @advance run attempt w' _ hrun hstate hw' =>
      have hpublished : run.state .publish_order_events = .succeeded :=
        (h.layered.active run hrun).sinks_succeeded hstate rfl
      have hpromotes := h.promoted hincremental run hrun (by rw [hpublished]; exact nofun) w hw
      rw [h.mode_eq hrun, hincremental] at hw'
      obtain ⟨hcomplete, rfl⟩ := advanced_incremental.mp hw'
      obtain ⟨candidate, hcandidate⟩ := Option.isSome_iff_exists.mp hcomplete.2.1
      cases w with
      | backfill start stop => exact hpromotes.elim
      | candidate lower upper =>
        refine ⟨lower, upper, rfl, ?_⟩
        rw [← hpromotes candidate hcandidate]
        change (promote (s.watermarks .orders)).watermark_value = _
        unfold promote
        rw [hcandidate]
        rfl

/-- **What a run has upserted lies in the window that its producer reads**, and the upper bound of the
window is what is promoted, in every history of the run whose clears find what it needs: whatever attempts
of the extract have committed, whatever candidate was left over, and whatever other runs come in between. -/
theorem publish_covers_extract {zone : Datetime → Instant} {timestamptz : String → Option Instant}
    {params : Params} {id : Nat} (hpg : ReadsTimestamps zone timestamptz)
    (hvalid : params.validateRunConfig = .ok ())
    (h : During day (params.extractMode timestamptz) (params.publishArgs zone) id
      (ClearsKeep (params.extractMode timestamptz) id) log s)
    (hrun : s.run = some run) (hid : run.id = id) :
    CoversExtract day (params.extractMode timestamptz) (params.publishArgs zone) log s := by
  have hagree := Params.agree hpg hvalid
  exact ((h.runInv hagree).active run hrun hid).coversExtract hagree

end Steps

/-! ## Runs that are cleared after others -/

section Cleared

variable {day : Instant → Int} {mode : Mode} {args : Args} {id : Nat} {ok : RunLog → State → Action → Prop}

/-- An action, with what the run `id` has done. -/
def stepLog (day : Instant → Int) (args : Args) (id : Nat) (p : RunLog × State) (action : Action) :
    Option (RunLog × State) :=
  (step day p.2 action).map fun s' => (p.1.next args id p.2 action, s')

theorem During.steps {actions : List Action} {p p' : RunLog × State} (h : During day mode args id ok p.1 p.2)
    (hok : ∀ a ∈ actions, ∀ log s, ok log s a) (hrun : actions.foldlM (stepLog day args id) p = some p') :
    During day mode args id ok p'.1 p'.2 := by
  induction actions generalizing p with
  | nil =>
    cases hrun
    exact h
  | cons action actions ih =>
    rw [List.foldlM_cons] at hrun
    obtain ⟨p₁, hfirst, hrun⟩ := Option.bind_eq_some_iff.mp hrun
    refine ih ?_ (fun a ha => hok a (List.mem_cons_of_mem _ ha)) hrun
    obtain ⟨s', hstep, rfl⟩ := Option.map_eq_some_iff.mp hfirst
    exact h.step hstep (hok action List.mem_cons_self p.1 p.2)

/-- Only a clear is restricted. -/
theorem clearsKeep_of_all {actions : List Action}
    (h : actions.all (fun a => match a with | .clear _ _ => false | _ => true) = true) :
    ∀ a ∈ actions, ∀ log s, ClearsKeep mode id log s a := by
  intro a ha log s index task run he
  have hall := List.all_eq_true.mp h a ha
  rw [he] at hall
  cases hall

/-- The extract of the order loses its acknowledgement, the order moves on, the retry copies it again, and
no sink succeeds. -/
def retriedExtract : List Action :=
  [.start .validate_run_config, .validateRunConfig, .start (.extract .orders), .upsert .orders 1 .retried,
    .changeSource .orders (tableOf (sampleOrder 200 "confirmed")), .start (.extract .orders),
    .upsert .orders 2 .succeeded] ++
    extractTable .products 1 ++ extractTable .order_items 1 ++ extractTable .payments 1 ++ validateStaging ++
    [.start .run_dbt_transform, .crash .run_dbt_transform .failed, .start .run_iceberg_batch,
      .crash .run_iceberg_batch .failed, .start .publish_order_events, .crash .publish_order_events .failed,
      .close]

/-- A run that is refused. -/
def refusedRun : List Action :=
  [.trigger .incremental, .start .validate_run_config, .crash .validate_run_config .failed, .close]

/-- A database in UTC. -/
def readsUtc (text : String) : Option Instant :=
  ((readTimestamp true).readAll text.toList).map (Timestamp.instant fun d => d.instant)

theorem readsTimestamps_utc : ReadsTimestamps (fun d => d.instant) readsUtc := by
  intro text ts t hread ht
  unfold readsUtc at ht
  rw [hread] at ht
  exact (Option.some.inj ht).symm

/-- The producer is cleared after a run that has loaded nothing. -/
theorem publish_covers_extract_retried : ∃ (log : RunLog) (s : State),
    During toDate .incremental ⟨none, none, none⟩ 0 (ClearsKeep .incremental 0) log s ∧ s.triggered = 2 ∧
    log.upserted = [1, 1] ∧ (s.watermarks .orders).candidate_value = some 200 ∧
    ∃ r, s.staging.orders.find? 1 = some r ∧ (Window.candidate 0 200).contains r.row.updated_at = true := by
  have hloaded : loadSource.foldlM (step toDate) State.initial = some _ := rfl
  have hreach := reaches_of_actions (fun _ _ _ _ _ => trivial) Reaches.initial hloaded
  have hbegin := @During.trigger toDate .incremental ⟨none, none, none⟩ 0 (ClearsKeep .incremental 0) _ _
    hreach rfl rfl
  have hfailed := @During.steps _ _ _ _ _ (retriedExtract ++ refusedRun) (⟨[], []⟩, _) _ hbegin
    (clearsKeep_of_all (by decide)) rfl
  have hready := @During.step _ _ _ _ _ _ _ _ (.clear 1 .publish_order_events) hfailed rfl (by
    intro index task run he hindex _
    cases he
    cases hindex
    refine ⟨fun _ id hid => ?_, fun _ => nofun⟩
    have hone : id = 1 := List.eq_of_mem_replicate (n := 2) hid
    subst hone
    exact ⟨_, rfl, 200, rfl, by decide, by decide⟩)
  have hcovers := @publish_covers_extract toDate _ _ _ _ _ ⟨.incremental, none, none⟩ 0 readsTimestamps_utc rfl
    hready rfl rfl
  exact ⟨_, _, hready, rfl, rfl, rfl, hcovers.window (.candidate 0 200) rfl ⟨_, rfl⟩ 1 List.mem_cons_self⟩

/-- The products cannot be extracted. -/
def partialRun (now : Instant) : List Action :=
  [.trigger .incremental, .start .validate_run_config, .validateRunConfig, .start (.extract .products),
    .crash (.extract .products) .failed] ++
    extractTable .orders now ++ extractTable .order_items now ++ extractTable .payments now ++ [.close]

/-- A run that loads everything at `now`, publishes the order and promotes the candidates. -/
def completeRun (now : Instant) : List Action :=
  beginRun ++ extractTable .products now ++ extractTable .orders now ++ extractTable .order_items now ++
    extractTable .payments now ++ validateStaging ++ transform ++ lakehouse ++ publishSample ++
    [.start .advance_watermarks, .advance .succeeded, .close]

/-- The run `id` is active. -/
def State.Runs (s : State) (id : Nat) : Prop := ∃ run, s.run = some run ∧ run.id = id

/-- **A run that is cleared after others may promote another window than it has read, and may read another
window than it has staged.**  In the first history a later run has raised the candidate before
`advance_watermarks` is cleared; in the second the window of the run was published by another run, and a
third one has left a new candidate, before `extract_products` is cleared. -/
theorem publish_covers_extract_cleared :
    (∃ log s, During toDate .incremental ⟨none, none, none⟩ 0 (fun _ _ _ => True) log s ∧ s.Runs 0 ∧
      log.windows = [.candidate 0 100] ∧ (∃ s', step toDate s (.advance .succeeded) = some s' ∧
        (s'.watermarks .orders).watermark_value = 200) ∧
      ¬ CoversExtract toDate .incremental ⟨none, none, none⟩ log s) ∧
    ∃ log s, During toDate .incremental ⟨none, none, none⟩ 0 (fun _ _ _ => True) log s ∧ s.Runs 0 ∧
      log.upserted = [1] ∧ producerWindow ⟨none, none, none⟩ (s.watermarks .orders) = .ok (.candidate 100 200) ∧
      ¬ CoversExtract toDate .incremental ⟨none, none, none⟩ log s := by
  have hloaded : loadSource.foldlM (step toDate) State.initial = some _ := rfl
  have hreach := reaches_of_actions (fun _ _ _ _ _ => trivial) Reaches.initial hloaded
  have hbegin := @During.trigger toDate .incremental ⟨none, none, none⟩ 0 (fun _ _ _ => True) _ _
    hreach rfl rfl
  constructor
  · have hready := @During.steps _ _ _ _ _ (failedRun.tail ++ laterRun ++
      [.clear 1 .advance_watermarks, .start .advance_watermarks]) (⟨[], []⟩, _) _ hbegin
      (fun _ _ _ _ => trivial) rfl
    refine ⟨_, _, hready, ⟨_, rfl, rfl⟩, rfl, ⟨_, rfl, rfl⟩, fun h => ?_⟩
    obtain ⟨lower, upper, hw, hvalue⟩ := h.promoted rfl (.candidate 0 100) List.mem_cons_self .succeeded _ rfl
    cases hw
    exact absurd hvalue (by decide)
  · have hready := @During.steps _ _ _ _ _ ((partialRun 1).tail ++ completeRun 2 ++
      [.changeSource .orders ((tableOf (sampleOrder 100 "pending")).put
        ⟨2, 7, 10, "pending", 2000, 10, 200⟩)] ++ partialRun 3 ++
      [.clear 1 (.extract .products)] ++ extractTable .products 4 ++ validateStaging) (⟨[], []⟩, _) _ hbegin
      (fun _ _ _ _ => trivial) rfl
    refine ⟨_, _, hready, ⟨_, rfl, rfl⟩, rfl, rfl, fun h => ?_⟩
    obtain ⟨r, hr, hin⟩ := h.window (.candidate 100 200) rfl ⟨_, rfl⟩ 1 List.mem_cons_self
    cases hr
    exact absurd hin (by decide)

end Cleared

end LocalDataPlatform.Pipeline

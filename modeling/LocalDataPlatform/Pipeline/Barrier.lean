import LocalDataPlatform.Pipeline.Dag

/-!
# The watermark barrier

`advance_watermarks` promotes whatever candidate a table has.  What it may rely on is the order of
the tasks: no extract commits between the start of a sink and the promotion, as long as both belong
to one pass through the run.  A task that is cleared after later runs have loaded staging breaks
this, because the run keeps the successes its sinks had before.

* `Barrier` — a step that moves a watermark leaves no row version behind: each sink began some
  successful execution with it in staging, and Kafka has acknowledged it if it is an order.
* `Covered` — the same for the candidate window and one sink.
* `ClearsCovered` — a clear keeps the success of a sink only where the candidate windows are covered.

Principal results: `BarrierInv.move` (one step), `watermark_barrier` (every step of a run whose
clears are covered), `cleared_advance_skips` (a cleared `advance_watermarks` promotes the candidate
of a later run).
-/

set_option autoImplicit false

namespace LocalDataPlatform.Pipeline

open Relational Sales

/-- A successful execution of the sink began with the row version in staging. -/
def SeenBy (s : State) (sink : Task) (t : TableName) (row : Row t) : Prop :=
  ∃ e ∈ s.executions, e.task = sink ∧ Holds e.snapshot t row

/-- What it takes to move the watermarks from those of `s` to those of `s'`. -/
structure Barrier (s s' : State) : Prop where
  seen : ∀ t, ∀ r ∈ (staged s.staging t).rows,
    (s.watermarks t).watermark_value < updatedAt t r.row →
    updatedAt t r.row ≤ (s'.watermarks t).watermark_value →
    ∀ sink : Task, sink.IsSink → SeenBy s sink t r.row
  acked : ∀ r ∈ s.staging.orders.rows,
    (s.watermarks .orders).watermark_value < r.row.updated_at →
    r.row.updated_at ≤ (s'.watermarks .orders).watermark_value → r.row ∈ s.acked

/-- `updated_at` lies in `(watermark_value, candidate_value]`. -/
def Watermark.InCandidate (w : Watermark) (updated_at : Instant) : Prop :=
  ∃ upper ∈ w.candidate_value, w.watermark_value < updated_at ∧ updated_at ≤ upper

/-- The sink has processed the candidate windows of staging. -/
structure Covered (s : State) (sink : Task) : Prop where
  seen : ∀ t, ∀ r ∈ (staged s.staging t).rows, (s.watermarks t).InCandidate (updatedAt t r.row) →
    SeenBy s sink t r.row
  acked : sink = .publish_order_events → ∀ r ∈ s.staging.orders.rows,
    (s.watermarks .orders).InCandidate r.row.updated_at → r.row ∈ s.acked

/-- A clear of a task of an incremental run keeps the success of a sink only if it is covered. -/
def ClearsCovered (s : State) (action : Action) (_ : State) : Prop :=
  ∀ index task run, action = .clear index task → s.failed[index]? = some run →
    run.mode = .incremental → ∀ sink : Task, sink.IsSink → (run.clear task).state sink = .succeeded →
      Covered s sink

/-- The attempt began on the staging there is now, and the producer still has or has delivered every
order version of the candidate window. -/
def OnCurrent (s : State) (mode : Mode) : Attempt → Prop
  | .sink snapshot => snapshot = s.staging
  | .publish snapshot pending => snapshot = s.staging ∧ (mode = .incremental →
      ∀ r ∈ s.staging.orders.rows, (s.watermarks .orders).InCandidate r.row.updated_at →
        r.row ∈ pending ∨ r.row ∈ s.acked)
  | _ => True

/-- What holds of the sinks of the active run. -/
structure SinksCurrent (s : State) (run : Run) : Prop where
  running : ∀ sink : Task, sink.IsSink → ∀ attempt, run.state sink = .running attempt →
    OnCurrent s run.mode attempt
  succeeded : run.mode = .incremental → ∀ sink : Task, sink.IsSink → run.state sink = .succeeded →
    Covered s sink

def BarrierInv (s : State) : Prop := ∀ run, s.run = some run → SinksCurrent s run

section Steps

variable {day : Instant → Int} {s s' : State} {action : Action} {run : Run} {task sink : Task}
variable {state : TaskState} {attempt : Attempt}

/-- `s'` has the staging and the watermarks of `s`, and forgets nothing the sinks did. -/
structure SameWindows (s s' : State) : Prop where
  staging : s'.staging = s.staging
  watermarks : s'.watermarks = s.watermarks
  acked : ∀ o ∈ s.acked, o ∈ s'.acked
  executions : ∀ e ∈ s.executions, e ∈ s'.executions

theorem Covered.mono (h : Covered s sink) (hsame : SameWindows s s') : Covered s' sink where
  seen t r hr hin := by
    rw [hsame.staging] at hr
    rw [hsame.watermarks] at hin
    obtain ⟨e, he, hsink, hholds⟩ := h.seen t r hr hin
    exact ⟨e, hsame.executions e he, hsink, hholds⟩
  acked hsink r hr hin := by
    rw [hsame.staging] at hr
    rw [hsame.watermarks] at hin
    exact hsame.acked _ (h.acked hsink r hr hin)

theorem OnCurrent.mono {mode : Mode} (h : OnCurrent s mode attempt) (hsame : SameWindows s s') :
    OnCurrent s' mode attempt := by
  cases attempt with
  | plain => exact trivial
  | extract lower upper => exact trivial
  | sink snapshot => exact h.trans hsame.staging.symm
  | publish snapshot pending =>
    refine ⟨h.1.trans hsame.staging.symm, fun hmode r hr hin => ?_⟩
    rw [hsame.staging] at hr
    rw [hsame.watermarks] at hin
    exact (h.2 hmode r hr hin).imp_right (hsame.acked r.row)

theorem SinksCurrent.mono (h : SinksCurrent s run) (hsame : SameWindows s s') : SinksCurrent s' run where
  running sink hsink attempt hstate := (h.running sink hsink attempt hstate).mono hsame
  succeeded hmode sink hsink hstate := (h.succeeded hmode sink hsink hstate).mono hsame

/-- One task of the active run changes state, the windows stay. -/
theorem SinksCurrent.set (h : SinksCurrent s run) (hsame : SameWindows s s')
    (hrunning : task.IsSink → ∀ attempt, state = .running attempt → OnCurrent s' run.mode attempt)
    (hsucceeded : task.IsSink → run.mode = .incremental → state = .succeeded → Covered s' task) :
    SinksCurrent s' (run.set task state) where
  running sink hsink attempt hstate := by
    by_cases he : sink = task
    · subst he
      rw [Run.set_state_self] at hstate
      exact hrunning hsink attempt hstate
    · rw [Run.set_state_of_ne he] at hstate
      exact (h.running sink hsink attempt hstate).mono hsame
  succeeded hmode sink hsink hstate := by
    by_cases he : sink = task
    · subst he
      rw [Run.set_state_self] at hstate
      exact hsucceeded hsink hmode hstate
    · rw [Run.set_state_of_ne he] at hstate
      exact (h.succeeded hmode sink hsink hstate).mono hsame

/-- The sinks of a run that has not come to them. -/
theorem SinksCurrent.of_idle (h : ∀ sink : Task, sink.IsSink → run.state sink = .idle) :
    SinksCurrent s run where
  running sink hsink attempt hstate := by
    rw [h sink hsink] at hstate
    cases hstate
  succeeded _ sink hsink hstate := by
    rw [h sink hsink] at hstate
    cases hstate

theorem SameWindows.of_eq (hstaging : s'.staging = s.staging) (hwatermarks : s'.watermarks = s.watermarks)
    (hacked : s'.acked = s.acked) (hexecutions : s'.executions = s.executions) : SameWindows s s' :=
  ⟨hstaging, hwatermarks, fun _ h => hacked ▸ h, fun _ h => hexecutions ▸ h⟩

/-- What a sink reads when it starts is the present. -/
theorem onCurrent_startAttempt (s : State) (mode : Mode) (hsink : task.IsSink) :
    OnCurrent s mode (startAttempt s mode task) := by
  cases task with
  | run_dbt_transform => exact rfl
  | run_iceberg_batch => exact rfl
  | publish_order_events =>
    unfold startAttempt
    dsimp only
    split
    · rename_i lower upper hwindow
      refine ⟨rfl, ?_⟩
      rintro rfl r hr ⟨c, hc, hlower, hupper⟩
      obtain ⟨c', hc', hbounds⟩ := Option.map_eq_some_iff.mp hwindow
      cases hbounds
      cases Option.mem_unique hc hc'
      refine Or.inl (List.mem_filter.mpr ⟨List.mem_map_of_mem hr, ?_⟩)
      exact Bool.and_eq_true_iff.mpr ⟨decide_eq_true hlower, decide_eq_true hupper⟩
    · exact trivial
  | _ => cases hsink

/-- A sink that began on the present staging and succeeds has seen all of it. -/
theorem seenBy_of_current {t : TableName} {r : Staged (Row t)} {e : Execution}
    (he : e ∈ s.executions) (hsnapshot : e.snapshot = s.staging)
    (hr : r ∈ (staged s.staging t).rows) : SeenBy s e.task t r.row :=
  ⟨e, he, rfl, r, by rw [hsnapshot]; exact hr, rfl⟩

theorem SameWindows.finishSink {snapshot : Staging} {outcome : Outcome} (hsame : SameWindows s s') :
    SameWindows s (s'.finishSink run task snapshot outcome) := by
  refine ⟨hsame.staging, hsame.watermarks, hsame.acked, fun e h => ?_⟩
  have he : e ∈ s'.executions := hsame.executions e h
  unfold State.finishSink
  dsimp only
  split
  · exact List.mem_cons_of_mem _ he
  · exact he

theorem mem_finishSink {snapshot : Staging} :
    (⟨task, snapshot⟩ : Execution) ∈ (s.finishSink run task snapshot .succeeded).executions :=
  List.mem_cons_self

/-- A sink on the tables ends: if it succeeds, it has seen all of staging. -/
theorem SinksCurrent.finishSink {snapshot : Staging} {outcome : Outcome} (h : SinksCurrent s run)
    (hsink : task.IsSink) (hpublish : task ≠ .publish_order_events)
    (hstate : run.state task = .running (.sink snapshot)) (hsame : SameWindows s s') :
    SinksCurrent (s'.finishSink run task snapshot outcome) (run.set task outcome.state) := by
  have hcurrent : snapshot = s.staging := h.running task hsink _ hstate
  refine h.set hsame.finishSink ?_ ?_
  · intro _ attempt hstate'
    cases outcome <;> cases hstate'
  · intro _ _ hstate'
    cases outcome with
    | succeeded =>
      have hsnapshot : snapshot = s'.staging := hcurrent.trans hsame.staging.symm
      exact ⟨fun t r hr _ => seenBy_of_current mem_finishSink hsnapshot hr, fun he => absurd he hpublish⟩
    | retried => cases hstate'
    | failed => cases hstate'

/-- While a task of an earlier layer runs, the sinks of a layered run are idle. -/
theorem Run.Layered.sinks_idle (h : run.Layered) (hstate : run.state task = .running attempt)
    (hlt : task.layer < 4) (hsink : sink.IsSink) : run.state sink = .idle := by
  refine h.later_idle (u := task) ?_ (hlt.trans_eq hsink.symm)
  rw [hstate]
  exact fun he => by cases he

/-- While `advance_watermarks` runs, the sinks of a layered run have succeeded. -/
theorem Run.Layered.sinks_succeeded (h : run.Layered)
    (hstate : run.state .advance_watermarks = .running attempt) (hsink : sink.IsSink) :
    run.state sink = .succeeded := by
  refine h .advance_watermarks sink ?_ ?_
  · rw [hstate]
    exact fun he => by cases he
  · rw [show sink.layer = 4 from hsink]
    exact Nat.lt_succ_self 4

/-- A promoted table has no candidate window left. -/
theorem not_inCandidate_of_advanced {mode : Mode} {w w' : Watermarks} (hw : advanced mode w = some w')
    (hmode : mode = .incremental) (t : TableName) (u : Instant) : ¬ (w' t).InCandidate u := by
  subst hmode
  obtain ⟨-, rfl⟩ := advanced_incremental.mp hw
  rintro ⟨c, hc, -⟩
  cases hc

theorem BarrierInv.move (h : BarrierInv s) (hlayered : LayeredRuns s) (hmove : Move day s action s')
    (hclear : ClearsCovered s action s') : BarrierInv s' := by
  have hsame : ∀ {s' : State}, s'.staging = s.staging → s'.watermarks = s.watermarks →
      s'.acked = s.acked → s'.executions = s.executions → SameWindows s s' :=
    fun h₁ h₂ h₃ h₄ => SameWindows.of_eq h₁ h₂ h₃ h₄
  intro run' hrun'
  cases hmove with
  | changeSource t table => exact (h run' hrun').mono (hsame rfl rfl rfl rfl)
  | changeCustomers ids => exact (h run' hrun').mono (hsame rfl rfl rfl rfl)
  | trigger mode _ =>
    cases hrun'
    exact SinksCurrent.of_idle fun _ _ => rfl
  | @start run task hrun _ _ =>
    cases hrun'
    refine (h run hrun).set (hsame rfl rfl rfl rfl) ?_ ?_
    · rintro hsink _ ⟨⟩
      exact (onCurrent_startAttempt s run.mode hsink).mono (hsame rfl rfl rfl rfl)
    · intro _ _ hstate
      cases hstate
  | @crash run task _ outcome hrun _ hout =>
    cases hrun'
    refine (h run hrun).set (hsame rfl rfl rfl rfl) ?_ ?_
    · intro _ attempt hstate
      cases outcome <;> cases hstate
    · intro _ _ hstate
      cases outcome with
      | succeeded => exact absurd rfl hout
      | retried => cases hstate
      | failed => cases hstate
  | validateRunConfig hrun _ _ =>
    cases hrun'
    exact (h _ hrun).set (hsame rfl rfl rfl rfl) nofun nofun
  | @upsert run t _ _ _ outcome hrun hstate _ =>
    cases hrun'
    -- no sink has begun: the extract is still running
    refine SinksCurrent.of_idle fun sink hsink => ?_
    have hne : sink ≠ .extract t := fun he => by rw [he] at hsink; cases hsink
    rw [Run.set_state_of_ne hne]
    exact (hlayered.active run hrun).sinks_idle hstate (show 1 < 4 by decide) hsink
  | validateRecordCount hrun _ _ =>
    cases hrun'
    exact (h _ hrun).set (hsame rfl rfl rfl rfl) nofun nofun
  | validateRelationships hrun _ _ =>
    cases hrun'
    exact (h _ hrun).set (hsame rfl rfl rfl rfl) nofun nofun
  | @dbtBuild run snapshot _ _ _ outcome hrun hstate _ _ =>
    cases hrun'
    exact (h run hrun).finishSink rfl nofun hstate (hsame rfl rfl rfl rfl)
  | @icebergBatch run snapshot _ outcome hrun hstate _ _ =>
    cases hrun'
    exact (h run hrun).finishSink rfl nofun hstate (hsame rfl rfl rfl rfl)
  | @acknowledge run snapshot pending order hrun hstate _ =>
    cases hrun'
    have hcurrent := (h run hrun).running .publish_order_events rfl _ hstate
    refine (h run hrun).set ⟨rfl, rfl, fun _ ho => List.mem_cons_of_mem _ ho, fun _ he => he⟩ ?_ nofun
    rintro _ _ ⟨⟩
    refine ⟨hcurrent.1, fun hmode r hr hin => ?_⟩
    rcases hcurrent.2 hmode r hr hin with hpending | hacked
    · by_cases he : r.row = order
      · exact Or.inr (he ▸ List.mem_cons_self)
      · exact Or.inl ((List.mem_erase_of_ne he).mpr hpending)
    · exact Or.inr (List.mem_cons_of_mem _ hacked)
  | @flushed run snapshot hrun hstate =>
    cases hrun'
    have hcurrent := (h run hrun).running .publish_order_events rfl _ hstate
    refine (h run hrun).set (hsame rfl rfl rfl rfl).finishSink nofun fun _ hmode _ => ⟨?_, fun _ r hr hin => ?_⟩
    · exact fun t r hr _ => seenBy_of_current mem_finishSink hcurrent.1 hr
    · exact (hcurrent.2 hmode r hr hin).resolve_left List.not_mem_nil
  | @advance run attempt w outcome hrun hstate hw =>
    cases hrun'
    have hsinks : ∀ sink : Task, sink.IsSink →
        (run.set .advance_watermarks outcome.state).state sink = .succeeded := by
      intro sink hsink
      rw [Run.set_state_of_ne fun he => by rw [he] at hsink; cases hsink]
      exact (hlayered.active run hrun).sinks_succeeded hstate hsink
    refine ⟨fun sink hsink attempt' hstate' => ?_, fun hmode sink hsink _ => ?_⟩
    · rw [hsinks sink hsink] at hstate'
      cases hstate'
    · exact ⟨fun t r _ hin => absurd hin (not_inCandidate_of_advanced hw hmode t _),
        fun _ r _ hin => absurd hin (not_inCandidate_of_advanced hw hmode .orders _)⟩
  | close _ _ => cases hrun'
  | @clear run index task _ hindex _ =>
    cases hrun'
    have hquiet : (run.clear task).Quiet :=
      (hlayered.failed run (List.mem_of_getElem? hindex)).2.clear
    refine ⟨fun sink _ attempt hstate => absurd hstate (hquiet sink attempt), ?_⟩
    intro hmode sink hsink hstate
    exact (hclear index task run rfl hindex hmode sink hsink hstate).mono (hsame rfl rfl rfl rfl)

theorem Reaches.barrierInv (h : Reaches day ClearsCovered s) : BarrierInv s := by
  induction h with
  | initial => exact nofun
  | step h hstep hok ih => exact ih.move h.layered (move_of_step hstep) hok

/-- A step that moves no watermark is held back by nothing. -/
theorem Barrier.of_unmoved
    (h : ∀ t, (s'.watermarks t).watermark_value = (s.watermarks t).watermark_value) : Barrier s s' where
  seen t _ _ hlt hle := absurd (hle.trans_eq (h t)) (not_le.mpr hlt)
  acked _ _ hlt hle := absurd (hle.trans_eq (h .orders)) (not_le.mpr hlt)

/-- A promoted watermark stays within the candidate window. -/
theorem inCandidate_of_promote {w : Watermark} {u : Instant} (hlt : w.watermark_value < u)
    (hle : u ≤ (promote w).watermark_value) : w.InCandidate u := by
  unfold promote at hle
  cases hc : w.candidate_value with
  | none =>
    rw [hc] at hle
    exact absurd hle (by simpa using hlt)
  | some c =>
    rw [hc] at hle
    exact ⟨c, Option.mem_def.mpr hc, hlt, (le_max_iff.mp hle).resolve_left (not_le.mpr hlt)⟩

/-- **The watermark barrier.**  If every clear keeps only the success of sinks that have covered the
candidate windows, then whenever a watermark moves, each sink had every row version up to it in
staging at the start of a successful execution, and Kafka has acknowledged the orders. -/
theorem watermark_barrier (h : Reaches day ClearsCovered s) (hstep : step day s action = some s') :
    Barrier s s' := by
  have hinv := h.barrierInv
  have hlayered := h.layered
  cases move_of_step hstep with
  | @upsert run t _ upper _ _ _ _ _ =>
    refine Barrier.of_unmoved fun t' => ?_
    unfold State.finish
    dsimp only
    by_cases ht : t' = t
    · subst ht
      rw [Function.update_self]
      cases run.mode <;> rfl
    · rw [Function.update_of_ne ht]
  | @advance run attempt w outcome hrun hstate hw =>
    cases hmode : run.mode with
    | backfill start stop =>
      rw [hmode] at hw
      cases hw
      exact Barrier.of_unmoved fun _ => rfl
    | incremental =>
      rw [hmode] at hw
      obtain ⟨-, rfl⟩ := advanced_incremental.mp hw
      have hcovered : ∀ sink : Task, sink.IsSink → Covered s sink := fun sink hsink =>
        (hinv run hrun).succeeded hmode sink hsink
          ((hlayered.active run hrun).sinks_succeeded hstate hsink)
      refine ⟨fun t r hr hlt hle sink hsink => ?_, fun r hr hlt hle => ?_⟩
      · exact (hcovered sink hsink).seen t r hr (inCandidate_of_promote hlt hle)
      · exact (hcovered .publish_order_events rfl).acked rfl r hr (inCandidate_of_promote hlt hle)
  | _ => exact Barrier.of_unmoved fun _ => rfl

/-- Only a clear is restricted. -/
theorem clearsCovered_of_ne (h : ∀ index task, action ≠ .clear index task) : ClearsCovered s action s' :=
  fun index task _ he => absurd he (h index task)

/-- **A run that has just failed may be cleared anywhere**: its sinks have covered the windows. -/
theorem clearsCovered_of_close (h : Reaches day ClearsCovered s) (hrun : s.run = some run)
    (hstep : step day s .close = some s') (hfailed : run.state .advance_watermarks ≠ .succeeded)
    (s'' : State) : ClearsCovered s' (.clear 0 task) s'' := by
  have hinv := h.barrierInv run hrun
  cases move_of_step hstep with
  | close hrun' _ =>
    rw [hrun] at hrun'
    cases hrun'
    intro index task' run' he hindex hmode sink hsink hstate
    cases he
    have hnot : (run.state .advance_watermarks).isSucceeded = false :=
      Bool.eq_false_iff.mpr fun hs => hfailed (TaskState.isSucceeded_eq.mp hs)
    simp only [hnot, Bool.false_eq_true, if_false, List.getElem?_cons_zero] at hindex
    cases hindex
    have hkept : sink ≠ task ∧ sink.layer ≤ task.layer :=
      Run.clear_idle (by rw [hstate]; exact fun he => by cases he)
    rw [Run.clear_state hkept.1 hkept.2] at hstate
    exact (hinv.succeeded hmode sink hsink hstate).mono (SameWindows.of_eq rfl rfl rfl rfl)

end Steps

/-! ## A failed run, a later run, and a clear -/

section Cleared

/-- The Iceberg batch fails for good, the other sinks succeed. -/
def lakehouseDown : List Action :=
  loadSource ++ stagedRun ++ transform ++ publishSample ++
    [.start .run_iceberg_batch, .crash .run_iceberg_batch .failed]

theorem not_clear_of_all {actions : List Action}
    (h : actions.all (fun a => match a with | .clear _ _ => false | _ => true) = true) :
    ∀ a ∈ actions, ∀ s s', step toDate s a = some s' → ClearsCovered s a s' := by
  intro a ha s s' _
  refine clearsCovered_of_ne fun index task he => ?_
  have hall := List.all_eq_true.mp h a ha
  rw [he] at hall
  cases hall

/-- The failed Iceberg batch is cleared and succeeds; the watermarks then move. -/
theorem watermark_barrier_cleared : ∃ s s', Reaches toDate ClearsCovered s ∧
    step toDate s (.advance .succeeded) = some s' ∧ (s.watermarks .orders).watermark_value = 0 ∧
    (s'.watermarks .orders).watermark_value = 100 ∧ Barrier s s' := by
  have hdown : lakehouseDown.foldlM (step toDate) State.initial = some _ := rfl
  have hreach := reaches_of_actions (not_clear_of_all (by decide)) Reaches.initial hdown
  have hclosed := @Reaches.step toDate ClearsCovered _ _ .close hreach rfl (clearsCovered_of_ne nofun)
  have hcleared := @Reaches.step toDate ClearsCovered _ _ (.clear 0 .run_iceberg_batch) hclosed rfl
    (clearsCovered_of_close hreach rfl rfl (fun he => by cases he) _)
  have hdone := @Reaches.step toDate ClearsCovered _ _ (.start .run_iceberg_batch) hcleared rfl
    (clearsCovered_of_ne nofun)
  have hdone := @Reaches.step toDate ClearsCovered _ _ (.icebergBatch .succeeded) hdone rfl
    (clearsCovered_of_ne nofun)
  have hready := @Reaches.step toDate ClearsCovered _ _ (.start .advance_watermarks) hdone rfl
    (clearsCovered_of_ne nofun)
  have hbarrier := @watermark_barrier toDate _ _ (.advance .succeeded) hready rfl
  exact ⟨_, _, hready, rfl, rfl, rfl, hbarrier⟩

/-- All sinks succeed, `advance_watermarks` fails for good. -/
def failedRun : List Action :=
  stagedRun ++ transform ++ lakehouse ++ publishSample ++
    [.start .advance_watermarks, .crash .advance_watermarks .failed, .close]

/-- The order has changed; the products cannot be extracted. -/
def laterRun : List Action :=
  [.changeSource .orders (tableOf (sampleOrder 200 "confirmed"))] ++ beginRun ++
    [.start (.extract .products), .crash (.extract .products) .failed] ++ extractTable .orders 2 ++
    extractTable .order_items 2 ++ extractTable .payments 2 ++ [.close]

/-- `advance_watermarks` of the first run is cleared and started again. -/
def clearedAdvance : List Action :=
  loadSource ++ failedRun ++ laterRun ++ [.clear 1 .advance_watermarks, .start .advance_watermarks]

/-- **A cleared `advance_watermarks` promotes the candidate of a later run.**  The watermark of
`orders` passes a version no sink has seen and Kafka has not acknowledged. -/
theorem cleared_advance_skips : ∃ s s', Reaches toDate (fun _ _ _ => True) s ∧
    clearedAdvance.foldlM (step toDate) State.initial = some s ∧
    step toDate s (.advance .succeeded) = some s' ∧ ¬ Barrier s s' := by
  have hrun : clearedAdvance.foldlM (step toDate) State.initial = some _ := rfl
  have hreach := reaches_of_actions (fun _ _ _ _ _ => trivial) Reaches.initial hrun
  refine ⟨_, _, hreach, hrun, rfl, fun h => ?_⟩
  have hacked := h.acked ⟨sampleOrder 200 "confirmed", 2⟩ (by decide) (by decide) (by decide)
  exact absurd hacked (by decide)

end Cleared

end LocalDataPlatform.Pipeline

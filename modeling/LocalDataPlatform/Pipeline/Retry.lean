import LocalDataPlatform.Pipeline.Completeness

/-!
# A task that is executed again after its commit

A task may lose its acknowledgement after its transaction has committed; Airflow then executes it again.
An extract repeats what it did.  `advance_watermarks` has consumed the candidates that it requires.

* `RetriedTask` — the tasks that commit to the database of the platform.
* `SameContents` — the staged rows, apart from their load times, and the watermarks are the same.
* `RetrySucceeds` — the task can be executed again, and leaves the contents as they are.

Principal results: `extract_again` (an extract on an unchanged source), `advance_again` (a promotion),
`retrySucceeds_iff` (which retries succeed).
-/

set_option autoImplicit false

namespace LocalDataPlatform.Pipeline

open Relational Sales

/-- `extract_products`, `extract_orders`, `extract_order_items`, `extract_payments` and
`advance_watermarks`, each with `retries=2`. -/
inductive RetriedTask where
  | extract (t : TableName)
  | advance_watermarks
  deriving DecidableEq, Repr

def RetriedTask.task : RetriedTask → Task
  | .extract t => .extract t
  | .advance_watermarks => .advance_watermarks

/-- The transaction of a task at `now`, and how its attempt ends. -/
def RetriedTask.commit (now : Instant) (outcome : Outcome) : RetriedTask → Action
  | .extract t => .upsert t now outcome
  | .advance_watermarks => .advance outcome

/-- The contents of staging without `loaded_at`, and of `metadata.etl_watermark` without `updated_at`. -/
structure SameContents (s s' : State) : Prop where
  staging : ∀ t id, ((staged s'.staging t).find? id).map Staged.row =
    ((staged s.staging t).find? id).map Staged.row
  watermarks : s'.watermarks = s.watermarks

/-- The task may start again, its transaction commits, and the contents stay. -/
def RetrySucceeds (day : Instant → Int) (s : State) (task : RetriedTask) : Prop :=
  ∃ run s₁, s.run = some run ∧ step day s (.start task.task) = some s₁ ∧
    ∀ now, run.since < now → ∃ s₂, step day s₁ (task.commit now .succeeded) = some s₂ ∧ SameContents s s₂

section Again

variable {ρ : Type} {key : ρ → Uuid} {table : StagingTable key} {batch : Table ρ key}

/-- **A batch that is loaded again leaves the rows.** -/
theorem row_load_again (now now' : Instant) (id : Uuid) :
    ((load (load table batch now) batch now').find? id).map Staged.row =
      ((load table batch now).find? id).map Staged.row := by
  rw [find?_load, find?_load]
  cases batch.find? id with
  | none => simp
  | some row => simp

variable {mode : Mode} {t : TableName} {source : Table (Row t) (Pipeline.key t)} {w : Watermark}
variable {lower upper : Instant}

/-- A raised candidate does not move the window of the extract. -/
theorem extractWindow_raise : extractWindow mode t source (raiseCandidate mode upper w) =
    extractWindow mode t source w := by
  cases mode <;> rfl

/-- **A candidate that is raised to the same bound again stays.** -/
theorem raiseCandidate_again : raiseCandidate mode upper (raiseCandidate mode upper w) =
    raiseCandidate mode upper w := by
  cases mode with
  | incremental =>
    unfold raiseCandidate
    simp
  | backfill start stop => rfl

/-- A promoted table has no candidate, so a batch of them is not promoted again. -/
theorem advanced_again {w w' : Watermarks} (hw : advanced .incremental w = some w') :
    advanced .incremental w' = none := by
  obtain ⟨-, rfl⟩ := advanced_incremental.mp hw
  have hnot : ¬ CandidatesComplete fun t => promote (w t) := fun hcomplete => by cases hcomplete.1
  unfold advanced
  exact if_neg hnot

end Again

section Retries

variable {day : Instant → Int} {s s₁ s₂ : State} {run : Run} {task : RetriedTask} {now : Instant}

/-- An attempt that may start, as the active run has it. -/
theorem start_eq_some {task : Task} (hrun : s.run = some run) (hidle : run.state task = .idle)
    (hready : run.ready task = true) : step day s (.start task) =
      some { s with run := some (run.set task (.running (startAttempt s run.mode task))) } := by
  unfold step
  rw [hrun]
  dsimp only
  rw [if_pos ⟨by rw [hidle]; rfl, hready⟩]

/-- A task does not wait for itself. -/
theorem ready_set (task : Task) (state : TaskState) : (run.set task state).ready task = run.ready task := by
  unfold Run.ready
  refine List.all_congr rfl fun u => ?_
  by_cases hu : u = task
  · subst hu
    simp
  · rw [Run.set_state_of_ne hu]

theorem upsert_eq_some {t : TableName} {lower upper : Instant} {outcome : Outcome} (hrun : s.run = some run)
    (hstate : run.state (.extract t) = .running (.extract lower upper)) (hnow : run.since < now) :
    step day s (.upsert t now outcome) = some ({ s with
      staging := loadTable s.staging now t (extracted run.mode t (s.source t) lower upper)
      watermarks := Function.update s.watermarks t (raiseCandidate run.mode upper (s.watermarks t))
      clock := max s.clock now }.finish run (.extract t) outcome) := by
  unfold step
  simp only [attempt_of_running hrun hstate, if_pos hnow]

theorem advance_eq {attempt : Attempt} {outcome : Outcome} (hrun : s.run = some run)
    (hstate : run.state .advance_watermarks = .running attempt) : step day s (.advance outcome) =
      (advanced run.mode s.watermarks).map fun w =>
        { s with watermarks := w }.finish run .advance_watermarks outcome := by
  unfold step
  simp only [attempt_of_running hrun hstate]
  cases advanced run.mode s.watermarks <;> rfl

theorem advance_eq_some {attempt : Attempt} {outcome : Outcome} {w : Watermarks} (hrun : s.run = some run)
    (hstate : run.state .advance_watermarks = .running attempt) (hw : advanced run.mode s.watermarks = some w) :
    step day s (.advance outcome) =
      some ({ s with watermarks := w }.finish run .advance_watermarks outcome) := by
  rw [advance_eq hrun hstate, hw]
  rfl

theorem start_inv {task : Task} (hrun : s.run = some run) (h : step day s (.start task) = some s₁) :
    run.ready task = true ∧
      s₁ = { s with run := some (run.set task (.running (startAttempt s run.mode task))) } := by
  cases move_of_step h with
  | start hrun' _ hready =>
    rw [hrun] at hrun'
    cases hrun'
    exact ⟨hready, rfl⟩

theorem upsert_inv {t : TableName} (hs₁ : s₁ = { s with
      run := some (run.set (.extract t) (.running (startAttempt s run.mode (.extract t)))) })
    (h : step day s₁ (.upsert t now .retried) = some s₂) :
    ∃ lower upper, extractWindow run.mode t (s.source t) (s.watermarks t) = some (lower, upper) ∧
      s₂ = { s₁ with
        staging := loadTable s.staging now t (extracted run.mode t (s.source t) lower upper)
        watermarks := Function.update s.watermarks t (raiseCandidate run.mode upper (s.watermarks t))
        clock := max s.clock now }.finish
          (run.set (.extract t) (.running (startAttempt s run.mode (.extract t)))) (.extract t) .retried := by
  subst hs₁
  cases move_of_step h with
  | @upsert run' _ lower upper _ _ hrun' hstate _ =>
    cases hrun'
    rw [Run.set_state_self] at hstate
    have hattempt := TaskState.running.inj hstate
    refine ⟨lower, upper, ?_, rfl⟩
    unfold startAttempt at hattempt
    dsimp only at hattempt
    split at hattempt
    · rename_i hwindow
      cases hattempt
      exact hwindow
    · cases hattempt

theorem advance_inv (hs₁ : s₁ = { s with run := some (run.set .advance_watermarks
      (.running (startAttempt s run.mode .advance_watermarks))) })
    (h : step day s₁ (.advance .retried) = some s₂) :
    ∃ w, advanced run.mode s.watermarks = some w ∧ s₂ = { s₁ with watermarks := w }.finish
      (run.set .advance_watermarks (.running (startAttempt s run.mode .advance_watermarks)))
      .advance_watermarks .retried := by
  subst hs₁
  cases move_of_step h with
  | advance hrun' hstate hw =>
    cases hrun'
    exact ⟨_, hw, rfl⟩

/-- A retried task starts once more. -/
theorem start_again {task : Task} (hready : run.ready task = true) (state : TaskState)
    (hrun : s₂.run = some ((run.set task state).set task .idle)) : step day s₂ (.start task) =
      some { s₂ with run := some (((run.set task state).set task .idle).set task
        (.running (startAttempt s₂ run.mode task))) } := by
  refine start_eq_some hrun Run.set_state_self ?_
  rw [ready_set, ready_set]
  exact hready

/-- **An extract on an unchanged source repeats what it did.** -/
theorem extract_again {t : TableName} (hrun : s.run = some run)
    (hstart : step day s (.start (.extract t)) = some s₁)
    (hcommit : step day s₁ (.upsert t now .retried) = some s₂) :
    RetrySucceeds day s₂ (.extract t) := by
  obtain ⟨hready, hs₁⟩ := start_inv hrun hstart
  obtain ⟨lower, upper, hwindow, hs₂⟩ := upsert_inv hs₁ hcommit
  have hrun₂ : s₂.run = some ((run.set (.extract t) (.running (startAttempt s run.mode (.extract t)))).set
      (.extract t) .idle) := by
    rw [hs₂]
    rfl
  have hsource : s₂.source = s.source := by
    rw [hs₂]
    change s₁.source = s.source
    rw [hs₁]
  have hwatermarks : s₂.watermarks =
      Function.update s.watermarks t (raiseCandidate run.mode upper (s.watermarks t)) := by
    rw [hs₂]
    rfl
  have hstaging : s₂.staging =
      loadTable s.staging now t (extracted run.mode t (s.source t) lower upper) := by
    rw [hs₂]
    rfl
  have hattempt : startAttempt s₂ run.mode (.extract t) = .extract lower upper := by
    unfold startAttempt
    dsimp only
    rw [hsource, hwatermarks, Function.update_self, extractWindow_raise, hwindow]
  have hagain := @start_again day s₂ run (.extract t) hready _ hrun₂
  rw [hattempt] at hagain
  refine ⟨_, _, hrun₂, hagain, fun now' hnow => ⟨_, upsert_eq_some rfl Run.set_state_self hnow, ?_, ?_⟩⟩
  · intro t' id
    change ((staged (loadTable s₂.staging now' t (extracted run.mode t (s₂.source t) lower upper)) t').find?
      id).map Staged.row = _
    rw [hsource, hstaging]
    by_cases ht : t' = t
    · subst ht
      rw [staged_loadTable, staged_loadTable]
      exact row_load_again now now' id
    · rw [staged_loadTable_of_ne ht]
  · change Function.update s₂.watermarks t (raiseCandidate run.mode upper (s₂.watermarks t)) = s₂.watermarks
    rw [hwatermarks, Function.update_self, raiseCandidate_again, Function.update_idem]

/-- **A promotion is not repeated**: it has consumed the candidates, unless the run is a backfill. -/
theorem advance_again (hrun : s.run = some run) (hstart : step day s (.start .advance_watermarks) = some s₁)
    (hcommit : step day s₁ (.advance .retried) = some s₂) :
    RetrySucceeds day s₂ .advance_watermarks ↔ run.mode ≠ .incremental := by
  obtain ⟨hready, hs₁⟩ := start_inv hrun hstart
  obtain ⟨w, hw, hs₂⟩ := advance_inv hs₁ hcommit
  have hrun₂ : s₂.run = some ((run.set .advance_watermarks
      (.running (startAttempt s run.mode .advance_watermarks))).set .advance_watermarks .idle) := by
    rw [hs₂]
    rfl
  have hwatermarks : s₂.watermarks = w := by
    rw [hs₂]
    rfl
  have hagain := @start_again day s₂ run .advance_watermarks hready _ hrun₂
  constructor
  · rintro ⟨run', s₃, hrun', hstart', hcommit'⟩ hmode
    rw [hrun₂] at hrun'
    cases hrun'
    obtain ⟨s₄, hadvance, -⟩ := hcommit' (run.since + 1) (Int.lt_succ run.since)
    change step day s₃ (.advance .succeeded) = some s₄ at hadvance
    rw [show RetriedTask.task .advance_watermarks = .advance_watermarks from rfl, hagain] at hstart'
    cases hstart'
    rw [advance_eq rfl Run.set_state_self] at hadvance
    rw [hmode] at hw
    have hnone : advanced run.mode s₂.watermarks = none := by
      rw [hmode, hwatermarks]
      exact advanced_again hw
    change (advanced run.mode s₂.watermarks).map _ = some s₄ at hadvance
    rw [hnone] at hadvance
    cases hadvance
  · intro hmode
    have hsame : ∀ w : Watermarks, advanced run.mode w = some w := by
      intro w
      cases hm : run.mode with
      | incremental => exact absurd hm hmode
      | backfill start stop => rfl
    refine ⟨_, _, hrun₂, hagain, fun now' _ => ⟨_, advance_eq_some rfl Run.set_state_self (hsame _), ?_, rfl⟩⟩
    intro t id
    rfl

/-- **A task is safe to execute again after its commit exactly if it is an extract or its run is a
backfill.** -/
theorem retrySucceeds_iff (hrun : s.run = some run) (hstart : step day s (.start task.task) = some s₁)
    (hcommit : step day s₁ (task.commit now .retried) = some s₂) :
    RetrySucceeds day s₂ task ↔ (∃ t, task = .extract t) ∨ run.mode ≠ .incremental := by
  cases task with
  | extract t => exact iff_of_true (extract_again hrun hstart hcommit) (Or.inl ⟨t, rfl⟩)
  | advance_watermarks =>
    rw [advance_again hrun hstart hcommit]
    refine ⟨Or.inr, fun h => h.resolve_left ?_⟩
    rintro ⟨t, ht⟩
    cases ht

end Retries

/-! ## A promotion that loses its acknowledgement -/

section Lost

/-- A run whose sinks have all succeeded. -/
def sinksDone : List Action := loadSource ++ stagedRun ++ transform ++ lakehouse ++ publishSample

/-- The watermark of the orders has moved to 100; the retry finds no candidates. -/
theorem lost_promotion : ∃ s s₁ s₂, Reaches toDate (fun _ _ _ => True) s ∧
    step toDate s (.start .advance_watermarks) = some s₁ ∧
    step toDate s₁ (.advance .retried) = some s₂ ∧ (s₂.watermarks .orders).watermark_value = 100 ∧
    (∃ s₃, step toDate s₂ (.start .advance_watermarks) = some s₃ ∧
      ∀ outcome, step toDate s₃ (.advance outcome) = none) ∧
    ¬ RetrySucceeds toDate s₂ .advance_watermarks := by
  obtain ⟨s, run, s₁, s₂, hdone, hrun, hmode, hstart, hcommit, hmoved, hfails⟩ :
      ∃ s run s₁ s₂, sinksDone.foldlM (step toDate) State.initial = some s ∧ s.run = some run ∧
        run.mode = .incremental ∧ step toDate s (.start .advance_watermarks) = some s₁ ∧
        step toDate s₁ (.advance .retried) = some s₂ ∧ (s₂.watermarks .orders).watermark_value = 100 ∧
        ∃ s₃, step toDate s₂ (.start .advance_watermarks) = some s₃ ∧
          ∀ outcome, step toDate s₃ (.advance outcome) = none :=
    ⟨_, _, _, _, rfl, rfl, rfl, rfl, rfl, rfl, _, rfl, fun _ => rfl⟩
  have hreach := reaches_of_actions (fun _ _ _ _ _ => trivial) Reaches.initial hdone
  refine ⟨s, s₁, s₂, hreach, hstart, hcommit, hmoved, hfails, fun hretry => ?_⟩
  exact (advance_again hrun hstart hcommit).mp hretry hmode

/-- An extract of the orders in a run that has just begun. -/
theorem retrySucceeds_extract : ∃ s₂, (s₂.watermarks .orders).candidate_value = some 100 ∧
    RetrySucceeds toDate s₂ (.extract .orders) := by
  obtain ⟨s, run, s₁, s₂, -, hrun, hstart, hcommit, hcandidate⟩ :
      ∃ s run s₁ s₂, (loadSource ++ beginRun).foldlM (step toDate) State.initial = some s ∧
        s.run = some run ∧ step toDate s (.start (.extract .orders)) = some s₁ ∧
        step toDate s₁ (.upsert .orders 1 .retried) = some s₂ ∧
        (s₂.watermarks .orders).candidate_value = some 100 :=
    ⟨_, _, _, _, rfl, rfl, rfl, rfl, rfl⟩
  refine ⟨s₂, hcandidate, ?_⟩
  exact (@retrySucceeds_iff toDate s s₁ s₂ run (.extract .orders) 1 hrun hstart hcommit).mpr
    (Or.inl ⟨.orders, rfl⟩)

end Lost

end LocalDataPlatform.Pipeline

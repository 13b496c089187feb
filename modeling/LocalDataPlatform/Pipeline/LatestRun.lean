import LocalDataPlatform.Pipeline.Dag

/-!
# What the success of a task in the last run says

A task of the last run that has succeeded left the stores in some state; only an attempt of that task can
change it again, and the last run makes no further one.

* `RunsMove` — what a step does to the runs.
* `LatestDone` — where the task has succeeded in the last run, the stores are as it left them.

Principal result: `LatestDone.move`.
-/

set_option autoImplicit false

namespace LocalDataPlatform.Pipeline

variable {day : Instant → Int} {s s' : State} {action : Action}

/-- No attempt of the task is running. -/
def State.Rests (s : State) (task : Task) : Prop :=
  ∀ run attempt, s.run = some run → run.state task ≠ .running attempt

/-- **What a step does to the runs**: nothing, or it begins, continues, closes or clears one. -/
inductive RunsMove (s : State) (action : Action) (s' : State) : Prop
  | same (hrun : s'.run = s.run) (hfailed : s'.failed = s.failed) (htriggered : s'.triggered = s.triggered)
  | begin (mode : Mode) (hnone : s.run = none) (hrun : s'.run = some (Run.fresh s.triggered mode s.clock))
    (htriggered : s'.triggered = s.triggered + 1)
  | set {run : Run} {task : Task} {state : TaskState} (hrun : s.run = some run)
    (hrun' : s'.run = some (run.set task state)) (htriggered : s'.triggered = s.triggered)
    (hends : state = .succeeded → ∃ attempt, run.state task = .running attempt)
  | close {run : Run} (hrun : s.run = some run) (hrun' : s'.run = none)
    (hfailed : ∀ r ∈ s'.failed, r = run ∨ r ∈ s.failed) (htriggered : s'.triggered = s.triggered)
  | clear {run : Run} {index : Nat} {task : Task} (haction : action = .clear index task)
    (hindex : s.failed[index]? = some run) (hnone : s.run = none)
    (hrun : s'.run = some (run.clear task)) (htriggered : s'.triggered = s.triggered)

theorem Outcome.state_succeeded {outcome : Outcome} (h : outcome.state = .succeeded) : outcome = .succeeded := by
  cases outcome with
  | succeeded => rfl
  | retried => cases h
  | failed => cases h

theorem Move.runs (hmove : Move day s action s') : RunsMove s action s' := by
  cases hmove with
  | changeSource t table => exact .same rfl rfl rfl
  | changeCustomers ids => exact .same rfl rfl rfl
  | trigger mode hnone => exact .begin mode hnone rfl rfl
  | start hrun _ _ => exact .set hrun rfl rfl nofun
  | crash hrun hstate _ => exact .set hrun rfl rfl fun _ => ⟨_, hstate⟩
  | validateRunConfig hrun hstate _ => exact .set hrun rfl rfl fun _ => ⟨_, hstate⟩
  | upsert hrun hstate _ => exact .set hrun rfl rfl fun _ => ⟨_, hstate⟩
  | validateRecordCount hrun hstate _ => exact .set hrun rfl rfl fun _ => ⟨_, hstate⟩
  | validateRelationships hrun hstate _ => exact .set hrun rfl rfl fun _ => ⟨_, hstate⟩
  | dbtBuild hrun hstate _ _ => exact .set hrun rfl rfl fun _ => ⟨_, hstate⟩
  | icebergBatch hrun hstate _ _ => exact .set hrun rfl rfl fun _ => ⟨_, hstate⟩
  | acknowledge hrun hstate _ => exact .set hrun rfl rfl nofun
  | flushed hrun hstate => exact .set hrun rfl rfl fun _ => ⟨_, hstate⟩
  | advance hrun hstate _ => exact .set hrun rfl rfl fun _ => ⟨_, hstate⟩
  | @close run hrun _ =>
    refine .close hrun rfl (fun r hr => ?_) rfl
    dsimp only at hr
    split at hr
    · exact Or.inr hr
    · exact List.mem_cons.mp hr
  | clear hnone hindex _ => exact .clear rfl hindex hnone rfl rfl

/-- Where the task has succeeded in the last run, the stores are as it left them. -/
structure LatestDone (task : Task) (P : State → Prop) (s : State) : Prop where
  active : ∀ run, s.run = some run → run.id + 1 = s.triggered ∧ (run.state task = .succeeded → P s)
  failed : s.run = none → ∀ run ∈ s.failed, run.id + 1 = s.triggered → run.state task = .succeeded → P s

theorem LatestDone.initial (task : Task) (P : State → Prop) : LatestDone task P State.initial :=
  ⟨nofun, fun _ _ h => absurd h List.not_mem_nil⟩

variable {task : Task} {P : State → Prop}

/-- **A step keeps what the success of the task said**, if steps outside its attempts keep it and an attempt
that succeeds establishes it; a failed run is cleared only while it is the last. -/
theorem LatestDone.move (h : LatestDone task P s) (hids : RunIds s)
    (hmove : Move day s action s')
    (hclear : ∀ index task run, action = .clear index task → s.failed[index]? = some run →
      run.id + 1 = s.triggered)
    (hkeep : s.Rests task → P s → P s')
    (hdone : ∀ run run' attempt, s.run = some run → run.state task = .running attempt → s'.run = some run' →
      run'.state task = .succeeded → P s') : LatestDone task P s' := by
  -- a run that is not active has nothing running
  have hrests : s.run = none → s.Rests task := fun hnone run attempt hrun => absurd (hnone.symm.trans hrun) nofun
  have hkept : ∀ run, s.run = some run → run.state task = .succeeded → P s → P s' := by
    intro run hrun hs
    refine hkeep fun run' attempt hrun' hrunning => ?_
    cases hrun.symm.trans hrun'
    cases hs.symm.trans hrunning
  cases hmove.runs with
  | same hrun hfailed htriggered =>
    refine ⟨fun run hr => ?_, fun hnone run hmem hid hs => ?_⟩
    · rw [hrun] at hr
      obtain ⟨hid, hp⟩ := h.active run hr
      exact ⟨htriggered ▸ hid, fun hs => hkept run hr hs (hp hs)⟩
    · rw [hrun] at hnone
      rw [hfailed] at hmem
      rw [htriggered] at hid
      exact hkeep (hrests hnone) (h.failed hnone run hmem hid hs)
  | begin mode hnone hrun htriggered =>
    refine ⟨fun run hr => ?_, fun hnone' => absurd (hrun.symm.trans hnone') nofun⟩
    cases hrun.symm.trans hr
    exact ⟨htriggered.symm, nofun⟩
  | @set run task' state hrun hrun' htriggered hends =>
    refine ⟨fun r hr => ?_, fun hnone => absurd (hrun'.symm.trans hnone) nofun⟩
    obtain ⟨hid, hp⟩ := h.active run hrun
    have hr' := Option.some.inj (hrun'.symm.trans hr)
    refine ⟨by rw [htriggered, ← hr']; exact hid, fun hs => ?_⟩
    by_cases ht : task = task'
    · subst ht
      have hstate : state = .succeeded := by rw [← hr', Run.set_state_self] at hs; exact hs
      obtain ⟨attempt, hrunning⟩ := hends hstate
      exact hdone run r attempt hrun hrunning hr hs
    · have hs' : run.state task = .succeeded := by rwa [← hr', Run.set_state_of_ne ht] at hs
      exact hkept run hrun hs' (hp hs')
  | @close run hrun hrun' hfailed htriggered =>
    refine ⟨fun r hr => absurd (hrun'.symm.trans hr) nofun, fun _ r hmem hid hs => ?_⟩
    obtain ⟨hid', hp⟩ := h.active run hrun
    rcases hfailed r hmem with rfl | hmem
    · exact hkept r hrun hs (hp hs)
    · -- no other run has the id of the one that ends
      have hnodup := hids.nodup
      unfold State.runIds at hnodup
      rw [hrun] at hnodup
      have hsame : r.id = run.id := by rw [htriggered] at hid; omega
      exact absurd (hsame ▸ List.mem_map_of_mem hmem) (List.nodup_cons.mp hnodup).1
  | @clear run index task' haction hindex hnone hrun htriggered =>
    refine ⟨fun r hr => ?_, fun hnone' => absurd (hrun.symm.trans hnone') nofun⟩
    have hr' := Option.some.inj (hrun.symm.trans hr)
    have hid := hclear index task' run haction hindex
    refine ⟨by rw [htriggered, ← hr']; exact hid, fun hs => ?_⟩
    rw [← hr'] at hs
    obtain ⟨hne, hle⟩ : task ≠ task' ∧ task.layer ≤ task'.layer := Run.clear_idle (by rw [hs]; exact nofun)
    rw [Run.clear_state hne hle] at hs
    exact hkeep (hrests hnone) (h.failed hnone run (List.mem_of_getElem? hindex) hid hs)

end LocalDataPlatform.Pipeline

import LocalDataPlatform.Pipeline.Completeness

/-!
# A backfill and what it publishes

The extracts of a backfill take a window of the source, its producer takes the same window of staging.

* `contents` — the rows of staging without their load times; `backfilled` — those after a backfill.
* `Backfilling`, `Backfill` — a run of a backfill on a fixed source, and a completed one, with the order
  versions it has published.
* `BackfillInv` — what holds during such a run.

Principal results: `backfilled_trans` (two adjacent windows are one), `BackfillInv.move` (one step),
`Backfill.result` (what a completed backfill leaves and publishes).
-/

set_option autoImplicit false

namespace LocalDataPlatform.Pipeline

open Relational Sales

/-! ## Windows of a fixed source -/

/-- The rows of a staging relation, without their load times. -/
def contents (st : Staging) (t : TableName) (id : Uuid) : Option (Row t) :=
  ((staged st t).find? id).map Staged.row

/-- `[start, end)`. -/
def InRange (start stop x : Instant) : Prop := start ≤ x ∧ x < stop

instance (start stop x : Instant) : Decidable (InRange start stop x) :=
  inferInstanceAs (Decidable (_ ∧ _))

/-- The contents of staging after the extracts of `[start, stop)`. -/
def backfilled (source : Source) (start stop : Instant) (st : Staging) (t : TableName) (id : Uuid) :
    Option (Row t) :=
  (((source t).find? id).filter fun row => decide (InRange start stop (updatedAt t row))).or
    (contents st t id)

/-- The mode of a backfill. -/
abbrev Mode.ofRange (start stop : Instant) : Mode := .backfill (some start) (some stop)

section Windows

variable {source : Source} {st st' : Staging} {start middle stop now x : Instant} {t : TableName} {id : Uuid}
variable {row : Row t}

theorem inWindow_ofRange : (Mode.ofRange start stop).inWindow start stop x = decide (InRange start stop x) := by
  rw [Bool.eq_iff_iff, decide_eq_true_iff]
  simp [Mode.inWindow, InRange]

/-- An extract of a backfill leaves what it has backfilled. -/
theorem contents_loadTable : contents
    (loadTable st now t (extracted (Mode.ofRange start stop) t (source t) start stop)) t id =
      backfilled source start stop st t id := by
  have hfind : (extracted (Mode.ofRange start stop) t (source t) start stop).find? id =
      ((source t).find? id).filter fun row => decide (InRange start stop (updatedAt t row)) := by
    unfold extracted
    rw [Table.find?_filter]
    simp only [inWindow_ofRange]
  unfold contents backfilled
  rw [staged_loadTable, find?_load, hfind]
  unfold contents
  cases ((source t).find? id).filter fun row => decide (InRange start stop (updatedAt t row)) <;> simp

theorem contents_loadTable_of_ne {t' : TableName} {batch : Table (Row t') (key t')} (h : t ≠ t') :
    contents (loadTable st now t' batch) t id = contents st t id := by
  unfold contents
  rw [staged_loadTable_of_ne h]

/-- A row that is backfilled is the source row, or was there and the source row is outside. -/
theorem backfilled_eq_some : backfilled source start stop st t id = some row ↔
    (source t).find? id = some row ∧ InRange start stop (updatedAt t row) ∨
      contents st t id = some row ∧
        ∀ r, (source t).find? id = some r → ¬ InRange start stop (updatedAt t r) := by
  unfold backfilled
  rw [Option.or_eq_some_iff, Option.filter_eq_some_iff, Option.filter_eq_none_iff]
  simp only [decide_eq_true_eq, and_comm]

theorem inRange_split (hab : start ≤ middle) (hbc : middle ≤ stop) :
    InRange start stop x ↔ InRange start middle x ∨ InRange middle stop x := by
  unfold InRange
  constructor
  · rintro ⟨hstart, hstop⟩
    rcases lt_or_ge x middle with hlt | hge
    · exact Or.inl ⟨hstart, hlt⟩
    · exact Or.inr ⟨hge, hstop⟩
  · rintro (⟨hstart, hlt⟩ | ⟨hge, hstop⟩)
    · exact ⟨hstart, hlt.trans_le hbc⟩
    · exact ⟨hab.trans hge, hstop⟩

/-- **Two adjacent windows are one.** -/
theorem backfilled_trans (hab : start ≤ middle) (hbc : middle ≤ stop)
    (h : contents st' t id = backfilled source start middle st t id) :
    backfilled source middle stop st' t id = backfilled source start stop st t id := by
  unfold backfilled at h ⊢
  rw [h]
  cases (source t).find? id with
  | none => rfl
  | some r =>
    have hsplit := @inRange_split start middle stop (updatedAt t r) hab hbc
    by_cases hsecond : InRange middle stop (updatedAt t r)
    · simp [Option.filter_some, hsplit, hsecond]
    · by_cases hfirst : InRange start middle (updatedAt t r)
      · simp [Option.filter_some, hsplit, hsecond, hfirst]
      · simp [Option.filter_some, hsplit, hsecond, hfirst]

/-- A window that is backfilled again leaves the contents. -/
theorem backfilled_again (h : contents st' t id = backfilled source start stop st t id) :
    backfilled source start stop st' t id = backfilled source start stop st t id := by
  unfold backfilled at h ⊢
  rw [h]
  cases ((source t).find? id).filter fun row => decide (InRange start stop (updatedAt t row)) <;> simp

end Windows

/-! ## A backfill -/

/-- The order versions of a window that staging holds. -/
abbrev published (st : Staging) (start stop : Instant) : List OrderRow :=
  publishRows (Mode.ofRange start stop) st start stop

theorem mem_published {st : Staging} {start stop : Instant} {row : OrderRow} :
    row ∈ published st start stop ↔
      contents st .orders row.order_id = some row ∧ InRange start stop row.updated_at := by
  unfold published publishRows contents
  rw [List.mem_filter, inWindow_ofRange, decide_eq_true_iff, List.mem_map, Option.map_eq_some_iff]
  refine and_congr_left fun _ => ?_
  constructor
  · rintro ⟨r, hr, rfl⟩
    exact ⟨r, Table.find?_eq_some.mpr ⟨hr, rfl⟩, rfl⟩
  · rintro ⟨r, hr, rfl⟩
    exact ⟨r, (Table.find?_eq_some.mp hr).1, rfl⟩

/-- The order versions that an action publishes. -/
def Action.publishes : Action → List OrderRow
  | .acknowledge order => [order]
  | _ => []

/-- A run of a backfill since its trigger, on a fixed source, and the order versions it has published. -/
inductive Backfilling (day : Instant → Int) (start stop : Instant) (s : State) : List OrderRow → State → Prop
  | trigger {s' : State} (hstep : step day s (.trigger (Mode.ofRange start stop)) = some s') :
      Backfilling day start stop s [] s'
  | step {log : List OrderRow} {s₁ s₂ : State} {action : Action} (h : Backfilling day start stop s log s₁)
      (hstep : step day s₁ action = some s₂) (hsource : s₂.source = s₁.source) (hopen : action ≠ .close) :
      Backfilling day start stop s (action.publishes ++ log) s₂

/-- A backfill that has run to completion. -/
def Backfill (day : Instant → Int) (start stop : Instant) (s : State) (log : List OrderRow) (s' : State) :
    Prop :=
  ∃ s₁ run, Backfilling day start stop s log s₁ ∧ s₁.run = some run ∧
    run.state .advance_watermarks = .succeeded ∧ step day s₁ .close = some s'

/-- What holds during a backfill of `[start, stop)` that was triggered in `s₀`. -/
structure BackfillInv (start stop : Instant) (s₀ : State) (log : List OrderRow) (s : State) (run : Run) :
    Prop where
  active : s.run = some run
  mode : run.mode = Mode.ofRange start stop
  layered : run.Layered
  source : s.source = s₀.source
  watermarks : s.watermarks = s₀.watermarks
  staged : ∀ t, (∀ id, contents s.staging t id = contents s₀.staging t id) ∨
    ∀ id, contents s.staging t id = backfilled s₀.source start stop s₀.staging t id
  loaded : ∀ t, run.state (.extract t) = .succeeded →
    ∀ id, contents s.staging t id = backfilled s₀.source start stop s₀.staging t id
  reading : ∀ t lower upper, run.state (.extract t) = .running (.extract lower upper) →
    lower = start ∧ upper = stop
  publishing : ∀ snapshot pending, run.state .publish_order_events = .running (.publish snapshot pending) →
    (∀ row ∈ published s.staging start stop, row ∈ pending ∨ row ∈ log) ∧
      ∀ row ∈ pending, row ∈ published s.staging start stop
  log_sub : ∀ row ∈ log, row ∈ published s.staging start stop
  /-- The extracts were behind the producer when it published. -/
  log_after : log ≠ [] → ∀ t, run.state (.extract t) = .succeeded
  done : run.state .publish_order_events = .succeeded → ∀ row ∈ published s.staging start stop, row ∈ log

section Steps

variable {day : Instant → Int} {start stop : Instant} {s₀ s s' : State} {log : List OrderRow}
variable {action : Action} {run : Run} {task : Task} {state : TaskState}

/-- **A task that changes its state** and leaves the stores keeps the invariant. -/
theorem BackfillInv.set (h : BackfillInv start stop s₀ log s run) (hrun : s'.run = some (run.set task state))
    (hlayered : (run.set task state).Layered) (hbusy : run.state task ≠ .succeeded)
    (hsource : s'.source = s.source) (hwatermarks : s'.watermarks = s.watermarks)
    (hstaging : s'.staging = s.staging)
    (hextract : ∀ t, task = .extract t →
      (state = .succeeded → ∀ id, contents s.staging t id = backfilled s₀.source start stop s₀.staging t id) ∧
        ∀ lower upper, state = .running (.extract lower upper) → lower = start ∧ upper = stop)
    (hpublish : task = .publish_order_events →
      (state = .succeeded → ∀ row ∈ published s.staging start stop, row ∈ log) ∧
        ∀ snapshot pending, state = .running (.publish snapshot pending) →
          (∀ row ∈ published s.staging start stop, row ∈ pending ∨ row ∈ log) ∧
            ∀ row ∈ pending, row ∈ published s.staging start stop) :
    BackfillInv start stop s₀ log s' (run.set task state) := by
  have hstate : ∀ u, (run.set task state).state u = state ∧ task = u ∨
      (run.set task state).state u = run.state u := by
    intro u
    by_cases hu : u = task
    · subst hu
      exact Or.inl ⟨Run.set_state_self, rfl⟩
    · exact Or.inr (Run.set_state_of_ne hu)
  refine ⟨hrun, h.mode, hlayered, hsource.trans h.source, hwatermarks.trans h.watermarks, ?_, ?_, ?_, ?_, ?_,
    ?_, ?_⟩
  · rw [hstaging]
    exact h.staged
  · intro t hdone
    rw [hstaging]
    rcases hstate (.extract t) with ⟨hs, ht⟩ | hs
    · exact (hextract t ht).1 (hs.symm.trans hdone)
    · exact h.loaded t (hs.symm.trans hdone)
  · intro t lower upper hreading
    rcases hstate (.extract t) with ⟨hs, ht⟩ | hs
    · exact (hextract t ht).2 lower upper (hs.symm.trans hreading)
    · exact h.reading t lower upper (hs.symm.trans hreading)
  · intro snapshot pending hrunning
    rw [hstaging]
    rcases hstate .publish_order_events with ⟨hs, ht⟩ | hs
    · exact (hpublish ht).2 snapshot pending (hs.symm.trans hrunning)
    · exact h.publishing snapshot pending (hs.symm.trans hrunning)
  · rw [hstaging]
    exact h.log_sub
  · intro hlog t
    have hdone := h.log_after hlog t
    rcases hstate (.extract t) with ⟨-, ht⟩ | hs
    · exact absurd (ht ▸ hdone) hbusy
    · exact hs.trans hdone
  · intro hdone
    rw [hstaging]
    rcases hstate .publish_order_events with ⟨hs, ht⟩ | hs
    · exact (hpublish ht).1 (hs.symm.trans hdone)
    · exact h.done (hs.symm.trans hdone)

/-- A raised candidate is none of a backfill. -/
theorem raiseCandidate_ofRange {upper : Instant} {w : Watermark} :
    raiseCandidate (Mode.ofRange start stop) upper w = w := rfl

/-- **A committed extract backfills its table**, before anything is published. -/
theorem BackfillInv.load {t : TableName} {upper now : Instant} (h : BackfillInv start stop s₀ log s run)
    (hstate : run.state (.extract t) = .running (.extract start stop)) :
    BackfillInv start stop s₀ log { s with
      staging := loadTable s.staging now t (extracted run.mode t (s.source t) start stop)
      watermarks := Function.update s.watermarks t (raiseCandidate run.mode upper (s.watermarks t))
      clock := max s.clock now } run ∧
    ∀ id, contents (loadTable s.staging now t (extracted run.mode t (s.source t) start stop)) t id =
      backfilled s₀.source start stop s₀.staging t id := by
  have hnotdone : run.state (.extract t) ≠ .succeeded := by
    rw [hstate]
    exact nofun
  have hidle : run.state .publish_order_events = .idle :=
    h.layered.later_idle hnotdone (show 1 < 4 by decide)
  have hlog : log = [] := by
    by_contra hne
    exact hnotdone (h.log_after hne t)
  have hloaded : ∀ id, contents (loadTable s.staging now t (extracted run.mode t (s.source t) start stop)) t id =
      backfilled s₀.source start stop s₀.staging t id := by
    intro id
    rw [h.mode, contents_loadTable, h.source]
    rcases h.staged t with hold | hdone
    · unfold backfilled
      rw [hold id]
    · exact backfilled_again (hdone id)
  refine ⟨⟨h.active, h.mode, h.layered, h.source, ?_, ?_, ?_, h.reading, ?_, ?_, ?_, ?_⟩, hloaded⟩
  · rw [h.mode, raiseCandidate_ofRange, Function.update_eq_self]
    exact h.watermarks
  · intro t'
    by_cases ht : t' = t
    · subst ht
      exact Or.inr hloaded
    · simp only [contents_loadTable_of_ne ht]
      exact h.staged t'
  · intro t' hdone id
    by_cases ht : t' = t
    · subst ht
      exact hloaded id
    · rw [contents_loadTable_of_ne ht]
      exact h.loaded t' hdone id
  · intro snapshot pending hrunning
    rw [hidle] at hrunning
    cases hrunning
  · rw [hlog]
    exact nofun
  · exact fun hne => absurd hlog hne
  · intro hdone
    rw [hidle] at hdone
    cases hdone

/-- **An acknowledged order version** leaves the pending ones. -/
theorem BackfillInv.acknowledge {snapshot : Staging} {pending : List OrderRow} {order : OrderRow}
    (h : BackfillInv start stop s₀ log s run)
    (hstate : run.state .publish_order_events = .running (.publish snapshot pending))
    (hmem : order ∈ pending) :
    BackfillInv start stop s₀ (order :: log) { s with
      acked := order :: s.acked
      run := some (run.set .publish_order_events (.running (.publish snapshot (pending.erase order)))) }
      (run.set .publish_order_events (.running (.publish snapshot (pending.erase order)))) := by
  obtain ⟨hdue, hsub⟩ := h.publishing snapshot pending hstate
  have hstarted : run.state .publish_order_events ≠ .idle := by
    rw [hstate]
    exact nofun
  have hextracted : ∀ t, run.state (.extract t) = .succeeded :=
    fun t => h.layered _ _ hstarted (show 1 < 4 by decide)
  -- the version counts as published, and the attempt goes on with the others
  have hcounted : BackfillInv start stop s₀ (order :: log) { s with acked := order :: s.acked } run := by
    refine ⟨h.active, h.mode, h.layered, h.source, h.watermarks, h.staged, h.loaded, h.reading, ?_, ?_, ?_,
      ?_⟩
    · intro snapshot' pending' hrunning
      rw [hstate] at hrunning
      cases hrunning
      exact ⟨fun row hrow => (hdue row hrow).imp_right (List.mem_cons_of_mem _), hsub⟩
    · intro row hrow
      rcases List.mem_cons.mp hrow with rfl | hrow
      · exact hsub _ hmem
      · exact h.log_sub row hrow
    · exact fun _ => hextracted
    · intro hdone
      rw [hstate] at hdone
      cases hdone
  refine hcounted.set rfl (h.layered.set_running hstate) ?_ rfl rfl rfl (fun t ht => nomatch ht) ?_
  · rw [hstate]
    exact nofun
  · refine fun _ => ⟨nofun, fun snapshot' pending' hrunning => ?_⟩
    cases hrunning
    refine ⟨fun row hrow => ?_, fun row hrow => hsub row (List.mem_of_mem_erase hrow)⟩
    rcases hdue row hrow with hpending | hlogged
    · by_cases horder : row = order
      · exact Or.inr (horder ▸ List.mem_cons_self)
      · exact Or.inl ((List.mem_erase_of_ne horder).mpr hpending)
    · exact Or.inr (List.mem_cons_of_mem _ hlogged)

/-- **An attempt that starts** reads the window of the backfill. -/
theorem BackfillInv.begin (h : BackfillInv start stop s₀ log s run) (hidle : run.state task = .idle)
    (hready : run.ready task = true) :
    BackfillInv start stop s₀ log
      { s with run := some (run.set task (.running (startAttempt s run.mode task))) }
      (run.set task (.running (startAttempt s run.mode task))) := by
  refine h.set rfl (h.layered.set_ready hidle hready) ?_ rfl rfl rfl ?_ ?_
  · rw [hidle]
    exact nofun
  · rintro t rfl
    refine ⟨nofun, fun lower upper hrunning => ?_⟩
    have hattempt := TaskState.running.inj hrunning
    rw [h.mode] at hattempt
    cases hattempt
    exact ⟨rfl, rfl⟩
  · rintro rfl
    refine ⟨nofun, fun snapshot pending hrunning => ?_⟩
    have hattempt := TaskState.running.inj hrunning
    rw [h.mode] at hattempt
    cases hattempt
    exact ⟨fun row hrow => Or.inl hrow, fun row hrow => hrow⟩

/-- **A running task that ends**, unless it is an extract or the producer that succeeds. -/
theorem BackfillInv.finish {attempt : Attempt} {outcome : Outcome} (h : BackfillInv start stop s₀ log s run)
    (hstate : run.state task = .running attempt) (hrun : s'.run = some (run.set task outcome.state))
    (hsource : s'.source = s.source) (hwatermarks : s'.watermarks = s.watermarks)
    (hstaging : s'.staging = s.staging)
    (hother : outcome = .succeeded → (∀ t, task ≠ .extract t) ∧ task ≠ .publish_order_events) :
    BackfillInv start stop s₀ log s' (run.set task outcome.state) := by
  have hbusy : run.state task ≠ .succeeded := by
    rw [hstate]
    exact nofun
  have hended : ∀ attempt, outcome.state ≠ .running attempt := by
    cases outcome <;> exact nofun
  have hsucceeded : outcome.state = .succeeded → outcome = .succeeded := by
    cases outcome <;> simp [Outcome.state]
  refine h.set hrun (h.layered.set_running hstate) hbusy hsource hwatermarks hstaging ?_ ?_
  · rintro t rfl
    refine ⟨fun hs => ?_, fun lower upper hs => absurd hs (hended _)⟩
    exact absurd rfl ((hother (hsucceeded hs)).1 t)
  · rintro rfl
    refine ⟨fun hs => ?_, fun snapshot pending hs => absurd hs (hended _)⟩
    exact absurd rfl (hother (hsucceeded hs)).2

/-- A backfill leaves the watermarks alone. -/
theorem advanced_ofRange {w w' : Watermarks} (h : advanced (Mode.ofRange start stop) w = some w') : w' = w :=
  (Option.some.inj h).symm

/-- **One step of a backfill.** -/
theorem BackfillInv.move (h : BackfillInv start stop s₀ log s run) (hmove : Move day s action s')
    (hsource : s'.source = s.source) (hopen : action ≠ .close) :
    ∃ run', BackfillInv start stop s₀ (action.publishes ++ log) s' run' := by
  have hnone : s.run ≠ none := by
    rw [h.active]
    exact nofun
  have hrun : ∀ {r : Run}, s.run = some r → r = run := fun hr => Option.some.inj (hr.symm.trans h.active)
  cases hmove with
  | changeSource t table =>
    exact ⟨run, ⟨h.active, h.mode, h.layered, hsource.trans h.source, h.watermarks, h.staged, h.loaded,
      h.reading, h.publishing, h.log_sub, h.log_after, h.done⟩⟩
  | changeCustomers ids =>
    exact ⟨run, ⟨h.active, h.mode, h.layered, h.source, h.watermarks, h.staged, h.loaded, h.reading,
      h.publishing, h.log_sub, h.log_after, h.done⟩⟩
  | trigger mode hidle => exact absurd hidle hnone
  | @start r task hr hidle hready =>
    cases hrun hr
    exact ⟨_, h.begin hidle hready⟩
  | crash hr hstate hout =>
    cases hrun hr
    exact ⟨_, h.finish hstate rfl rfl rfl rfl fun hsucceeded => absurd hsucceeded hout⟩
  | validateRunConfig hr hstate _ =>
    cases hrun hr
    exact ⟨_, h.finish hstate rfl rfl rfl rfl fun _ => ⟨nofun, nofun⟩⟩
  | @upsert r t lower upper now outcome hr hstate _ =>
    cases hrun hr
    obtain ⟨rfl, rfl⟩ := h.reading t lower upper hstate
    obtain ⟨hloaded, hcontents⟩ := h.load hstate
    refine ⟨_, hloaded.set rfl (h.layered.set_running hstate) ?_ rfl rfl rfl ?_ nofun⟩
    · rw [hstate]
      exact nofun
    · rintro t' ht
      cases ht
      exact ⟨fun _ => hcontents, fun lower' upper' hrunning => by cases outcome <;> cases hrunning⟩
  | validateRecordCount hr hstate _ =>
    cases hrun hr
    exact ⟨_, h.finish hstate rfl rfl rfl rfl fun _ => ⟨nofun, nofun⟩⟩
  | validateRelationships hr hstate _ =>
    cases hrun hr
    exact ⟨_, h.finish hstate rfl rfl rfl rfl fun _ => ⟨nofun, nofun⟩⟩
  | dbtBuild hr hstate _ _ =>
    cases hrun hr
    exact ⟨_, h.finish hstate rfl rfl rfl rfl fun _ => ⟨nofun, nofun⟩⟩
  | icebergBatch hr hstate _ _ =>
    cases hrun hr
    exact ⟨_, h.finish hstate rfl rfl rfl rfl fun _ => ⟨nofun, nofun⟩⟩
  | acknowledge hr hstate hmem =>
    cases hrun hr
    exact ⟨_, h.acknowledge hstate hmem⟩
  | flushed hr hstate =>
    cases hrun hr
    refine ⟨_, h.set rfl (h.layered.set_running hstate) ?_ rfl rfl rfl nofun fun _ => ⟨fun _ => ?_, nofun⟩⟩
    · rw [hstate]
      exact nofun
    · intro row hrow
      exact ((h.publishing _ _ hstate).1 row hrow).resolve_left List.not_mem_nil
  | advance hr hstate hw =>
    cases hrun hr
    rw [h.mode] at hw
    exact ⟨_, h.finish hstate rfl rfl (advanced_ofRange hw) rfl fun _ => ⟨nofun, nofun⟩⟩
  | close _ _ => exact absurd rfl hopen
  | clear hidle _ _ => exact absurd hidle hnone

/-- The invariant holds throughout a backfill. -/
theorem Backfilling.inv (h : Backfilling day start stop s₀ log s) :
    ∃ run, BackfillInv start stop s₀ log s run := by
  induction h with
  | trigger hstep =>
    cases move_of_step hstep with
    | trigger mode _ =>
      exact ⟨_, rfl, rfl, Run.Layered.fresh, rfl, rfl, fun _ => Or.inl fun _ => rfl, nofun, nofun, nofun, nofun,
        fun hne => absurd rfl hne, nofun⟩
  | step _ hstep hsource hopen ih =>
    obtain ⟨run, hinv⟩ := ih
    exact hinv.move (move_of_step hstep) hsource hopen

/-- What a completed backfill leaves, and what it has published. -/
structure BackfillResult (start stop : Instant) (s : State) (log : List OrderRow) (s' : State) : Prop where
  source : s'.source = s.source
  watermarks : s'.watermarks = s.watermarks
  staging : ∀ t id, contents s'.staging t id = backfilled s.source start stop s.staging t id
  published : ∀ row, row ∈ log ↔ row ∈ published s'.staging start stop

/-- **A completed backfill has loaded its window and published it.** -/
theorem Backfill.result (h : Backfill day start stop s₀ log s') : BackfillResult start stop s₀ log s' := by
  obtain ⟨s, run, hrunning, hrun, hadvanced, hclose⟩ := h
  obtain ⟨run', hinv⟩ := hrunning.inv
  cases Option.some.inj (hinv.active.symm.trans hrun)
  have hnotidle : run.state .advance_watermarks ≠ .idle := by
    rw [hadvanced]
    exact nofun
  cases move_of_step hclose with
  | close _ _ =>
    refine ⟨hinv.source, hinv.watermarks, fun t => ?_, fun row => ⟨hinv.log_sub row, ?_⟩⟩
    · exact hinv.loaded t (hinv.layered _ _ hnotidle (show 1 < 5 by decide))
    · exact hinv.done (hinv.layered _ _ hnotidle (show 4 < 5 by decide)) row

end Steps

end LocalDataPlatform.Pipeline

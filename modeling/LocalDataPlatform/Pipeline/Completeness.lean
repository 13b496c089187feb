import LocalDataPlatform.Pipeline.Dag

/-!
# Staging below the cursor

What an extract copies is bounded by a maximum it read earlier, while the source moves on.  Nothing
is missed as long as no row version becomes visible at or below a bound that was already read.

* `Watermark.reached` — the cursor of a table: its watermark or its candidate, the greater one.
* `Bounds` — the upper bounds that the extracts of each table have read; `Fresh` — a time above them.
* `History` — the states reached while every new row version is `Fresh`.
* `Reading` — an attempt of an extract that has read its bounds.

Principal results: `CursorInv.move` (one step), `staging_complete` (staging carries the source up to
the cursor, and no step lowers a watermark).
-/

set_option autoImplicit false

namespace LocalDataPlatform.Pipeline

open Relational Sales

/-! ## Cursors and bounds -/

/-- `GREATEST(watermark_value, candidate_value)`. -/
def Watermark.reached (w : Watermark) : Instant :=
  max w.watermark_value (w.candidate_value.getD w.watermark_value)

/-- The upper bounds read so far. -/
abbrev Bounds := TableName → List Instant

/-- The upper bound that an extract of an incremental run reads when it starts. -/
def readBound (s : State) : Action → Option (TableName × Instant)
  | .start (.extract t) =>
    match s.run.map Run.mode with
    | some .incremental =>
      some (t, highWater (updatedAt t) (s.watermarks t).watermark_value (s.source t).rows)
    | _ => none
  | _ => none

def Bounds.after (bounds : Bounds) (s : State) (action : Action) : Bounds :=
  match readBound s action with
  | some (t, upper) => Function.update bounds t (upper :: bounds t)
  | none => bounds

/-- After the epoch and above every bound read so far. -/
def Fresh (bounds : Bounds) (t : TableName) (x : Instant) : Prop := 0 < x ∧ ∀ b ∈ bounds t, b < x

/-- A source whose new row versions are fresh. -/
def NewRowsFresh (bounds : Bounds) (source source' : Source) : Prop :=
  ∀ t, ∀ row ∈ (source' t).rows, row ∉ (source t).rows → Fresh bounds t (updatedAt t row)

/-- A running attempt of an extract, and the bounds it has read. -/
def State.Reading (s : State) (mode : Mode) (t : TableName) (lower upper : Instant) : Prop :=
  ∃ run, s.run = some run ∧ run.mode = mode ∧
    run.state (.extract t) = .running (.extract lower upper)

section Cursor

variable {w : Watermark} {upper x : Instant} {mode : Mode}

theorem watermark_le_reached : w.watermark_value ≤ w.reached := le_max_left _ _

/-- **An incremental extract raises the cursor to its bound.** -/
theorem reached_raiseCandidate : (raiseCandidate .incremental upper w).reached = max w.reached upper := by
  unfold raiseCandidate Watermark.reached
  cases w.candidate_value with
  | none => simp only [Option.getD_none, Option.getD_some, max_self]
  | some c => simp only [Option.getD_some, max_assoc]

/-- The commit of a candidate leaves the cursor where it is. -/
theorem reached_promote : (promote w).reached = w.reached := by
  unfold promote Watermark.reached
  simp only [Option.getD_none, max_self]

theorem watermark_le_promote : w.watermark_value ≤ (promote w).watermark_value := le_max_left _ _

theorem raiseCandidate_watermark : (raiseCandidate mode upper w).watermark_value = w.watermark_value := by
  cases mode <;> rfl

end Cursor

section Advanced

variable {mode : Mode} {w w' : Watermarks} {t : TableName}

theorem advanced_cases (h : advanced mode w = some w') : w' t = w t ∨ w' t = promote (w t) := by
  cases mode with
  | backfill start stop =>
    cases h
    exact Or.inl rfl
  | incremental =>
    obtain ⟨-, rfl⟩ := advanced_incremental.mp h
    exact Or.inr rfl

theorem reached_advanced (h : advanced mode w = some w') : (w' t).reached = (w t).reached := by
  rcases advanced_cases (t := t) h with he | he
  · rw [he]
  · rw [he, reached_promote]

theorem watermark_le_advanced (h : advanced mode w = some w') :
    (w t).watermark_value ≤ (w' t).watermark_value := by
  rcases advanced_cases (t := t) h with he | he
  · rw [he]
  · rw [he]
    exact watermark_le_promote

end Advanced

section Staged

variable {st : Staging} {now : Instant} {t t' : TableName} {batch : Table (Row t) (key t)}

theorem staged_loadTable : staged (loadTable st now t batch) t = load (staged st t) batch now := by
  cases t <;> rfl

theorem staged_loadTable_of_ne (h : t' ≠ t) : staged (loadTable st now t batch) t' = staged st t' := by
  cases t <;> cases t' <;> first
    | exact absurd rfl h
    | rfl

end Staged

/-! ## Histories without late rows -/

section History

variable (day : Instant → Int)

/-- No row version becomes visible at or below a bound that was read before. -/
def NoLateRow (bounds : Bounds) (s : State) (s' : State) : Prop := NewRowsFresh bounds s.source s'.source

/-- The states reached without late rows, with the bounds read on the way. -/
inductive History : Bounds → State → Prop
  | initial : History (fun _ => []) State.initial
  | step {bounds : Bounds} {s s' : State} {action : Action} (h : History bounds s)
      (hstep : step day s action = some s') (hok : NoLateRow bounds s s') :
      History (bounds.after s action) s'

end History

variable {day : Instant → Int} {bounds : Bounds} {s s' : State} {action : Action}

/-- A step that leaves the source alone shows no new row version. -/
theorem History.keep (h : History day bounds s) (action : Action)
    (hstep : Pipeline.step day s action = some s') (hsource : s'.source = s.source) :
    History day (bounds.after s action) s' :=
  h.step hstep fun _ _ hrow hnew => absurd (hsource ▸ hrow) hnew

/-- A table that gains fresh row versions only. -/
theorem History.changeSource (h : History day bounds s) (t : TableName) (table : Table (Row t) (key t))
    (hfresh : ∀ row ∈ table.rows, row ∉ (s.source t).rows → Fresh bounds t (updatedAt t row)) :
    History day bounds { s with source := Function.update s.source t table } := by
  suffices hrows : NewRowsFresh bounds s.source (Function.update s.source t table) from
    @History.step day _ _ _ (.changeSource t table) h rfl hrows
  intro t' row hrow hnew
  by_cases ht : t' = t
  · subst ht
    rw [Function.update_self] at hrow
    exact hfresh row hrow hnew
  · rw [Function.update_of_ne ht] at hrow
    exact absurd hrow hnew

theorem History.reaches (h : History day bounds s) : Reaches day (fun _ _ _ => True) s := by
  induction h with
  | initial => exact Reaches.initial
  | step _ hstep _ ih => exact ih.step hstep trivial

/-- Staging carries the source up to the cursors. -/
def CarriesReached (s : State) : Prop :=
  ∀ t, CarriesUpTo (key t) (updatedAt t) (s.watermarks t).reached (fun r => key t r.row) Staged.row
    (s.source t).rows (staged s.staging t).rows

/-- The invariant of a history without late rows. -/
structure CursorInv (bounds : Bounds) (s : State) : Prop where
  /-- A fresh row is above the cursor. -/
  known : ∀ t x, Fresh bounds t x → (s.watermarks t).reached < x
  /-- What an attempt has read is behind a fresh row, and it starts where the watermark is. -/
  reading : ∀ t lower upper, s.Reading .incremental t lower upper →
    lower ≤ (s.watermarks t).watermark_value ∧ ∀ x, Fresh bounds t x → upper < x
  carries : CarriesReached s

section Fresh

variable {t : TableName} {x : Instant}

/-- Reading further bounds makes fewer times fresh. -/
theorem Fresh.of_after (h : Fresh (bounds.after s action) t x) : Fresh bounds t x := by
  refine ⟨h.1, fun b hb => h.2 b ?_⟩
  unfold Bounds.after
  cases readBound s action with
  | none => exact hb
  | some read =>
    by_cases ht : t = read.1
    · subst ht
      dsimp only
      rw [Function.update_self]
      exact List.mem_cons_of_mem _ hb
    · dsimp only
      rwa [Function.update_of_ne ht]

/-- A bound that was read is behind what is fresh. -/
theorem Fresh.of_read {upper : Instant} (hread : readBound s action = some (t, upper))
    (h : Fresh (bounds.after s action) t x) : upper < x := by
  refine h.2 upper ?_
  unfold Bounds.after
  rw [hread]
  dsimp only
  rw [Function.update_self]
  exact List.mem_cons_self

end Fresh

section Reading

variable {run : Run} {task : Task} {state : TaskState} {mode : Mode} {t : TableName}
variable {lower upper : Instant}

/-- A task that does not read bounds leaves the reading attempts alone. -/
theorem State.Reading.of_set (h : s'.Reading mode t lower upper) (hrun : s.run = some run)
    (hrun' : s'.run = some (run.set task state)) (hstate : state ≠ .running (.extract lower upper)) :
    s.Reading mode t lower upper := by
  obtain ⟨run', hr, hmode, hreading⟩ := h
  rw [hrun'] at hr
  cases hr
  by_cases htask : .extract t = task
  · subst htask
    rw [Run.set_state_self] at hreading
    exact absurd hreading hstate
  · rw [Run.set_state_of_ne htask] at hreading
    exact ⟨run, hrun, hmode, hreading⟩

/-- A quiet run reads nothing. -/
theorem Run.Quiet.not_reading (h : run.Quiet) (hrun : s.run = some run) :
    ¬ s.Reading mode t lower upper := by
  rintro ⟨run', hr, -, hreading⟩
  rw [hrun] at hr
  cases hr
  exact h _ _ hreading

/-- **An attempt that has read its bounds has just read them, or had read them before.** -/
theorem Move.reading (hmove : Move day s action s') (hlayered : LayeredRuns s)
    (hr : s'.Reading mode t lower upper) : s.Reading mode t lower upper ∨
      action = .start (.extract t) ∧ (∃ run, s.run = some run ∧ run.mode = mode) ∧
        extractWindow mode t (s.source t) (s.watermarks t) = some (lower, upper) := by
  cases hmove with
  | changeSource t table => exact Or.inl hr
  | changeCustomers ids => exact Or.inl hr
  | trigger mode hnone =>
    obtain ⟨run', hr', -, hreading⟩ := hr
    cases hr'
    cases hreading
  | @start run task hrun _ _ =>
    by_cases hstate : startAttempt s run.mode task = .extract lower upper
    · obtain ⟨run', hr', hmode, hreading⟩ := hr
      cases hr'
      by_cases htask : .extract t = task
      · subst htask
        replace hmode : run.mode = mode := hmode
        refine Or.inr ⟨rfl, ⟨run, hrun, hmode⟩, ?_⟩
        rw [hmode] at hstate
        unfold startAttempt at hstate
        dsimp only at hstate
        split at hstate
        · rename_i hwindow
          cases hstate
          exact hwindow
        · cases hstate
      · rw [Run.set_state_of_ne htask] at hreading
        exact Or.inl ⟨run, hrun, hmode, hreading⟩
    · exact Or.inl (hr.of_set hrun rfl fun he => hstate (TaskState.running.inj he))
  | @crash run task attempt outcome hrun _ _ =>
    exact Or.inl (hr.of_set hrun rfl (by cases outcome <;> exact nofun))
  | validateRunConfig hrun _ _ => exact Or.inl (hr.of_set hrun rfl nofun)
  | @upsert run t' lower' upper' now outcome hrun _ _ =>
    exact Or.inl (hr.of_set hrun rfl (by cases outcome <;> exact nofun))
  | validateRecordCount hrun _ _ => exact Or.inl (hr.of_set hrun rfl nofun)
  | validateRelationships hrun _ _ => exact Or.inl (hr.of_set hrun rfl nofun)
  | @dbtBuild run snapshot view versions stops outcome hrun _ _ _ =>
    exact Or.inl (hr.of_set hrun rfl (by cases outcome <;> exact nofun))
  | @icebergBatch run snapshot table outcome hrun _ _ _ =>
    exact Or.inl (hr.of_set hrun rfl (by cases outcome <;> exact nofun))
  | acknowledge hrun _ _ => exact Or.inl (hr.of_set hrun rfl nofun)
  | flushed hrun _ => exact Or.inl (hr.of_set hrun rfl nofun)
  | @advance run attempt w outcome hrun _ _ =>
    exact Or.inl (hr.of_set hrun rfl (by cases outcome <;> exact nofun))
  | close _ _ =>
    obtain ⟨run', hr', -⟩ := hr
    cases hr'
  | @clear run index task hnone hindex _ =>
    have hquiet : run.Quiet := (hlayered.failed run (List.mem_of_getElem? hindex)).2
    exact absurd hr (hquiet.clear.not_reading rfl)

end Reading

/-! ## One step -/

/-- **A source that only gains fresh row versions is carried as before.** -/
theorem CursorInv.carries_changeSource {source : Source} (h : CursorInv bounds s)
    (hfresh : NewRowsFresh bounds s.source source) : CarriesReached { s with source := source } := by
  intro t
  refine (h.carries t).mono fun row hrow hle => ?_
  by_contra hnew
  exact absurd (h.known t _ (hfresh t row hrow hnew)) (not_lt.mpr hle)

/-- What a window of the source leaves in staging. -/
theorem carries_load {t : TableName} {mark mark' now : Instant} {p : Row t → Bool}
    (h : CarriesUpTo (key t) (updatedAt t) mark (fun r => key t r.row) Staged.row (s.source t).rows
      (staged s.staging t).rows)
    (hcover : ∀ row ∈ (s.source t).rows, mark < updatedAt t row → updatedAt t row ≤ mark' → p row = true) :
    CarriesUpTo (key t) (updatedAt t) mark' (fun r => key t r.row) Staged.row (s.source t).rows
      (load (staged s.staging t) ((s.source t).filter p) now).rows := by
  refine h.upsert (fun _ => rfl) (s.source t).unique ?_ ?_
  · intro r hr
    obtain ⟨row, hrow, rfl⟩ := List.mem_map.mp hr
    exact List.mem_of_mem_filter hrow
  · intro row hrow hlt hle
    refine ⟨⟨row, now⟩, List.mem_map_of_mem ?_, rfl⟩
    exact List.mem_filter.mpr ⟨hrow, hcover row hrow hlt hle⟩

/-- **A committed extract keeps staging complete up to the cursor**, which it raises to its bound. -/
theorem CursorInv.carries_upsert {run : Run} {t : TableName} {lower upper now : Instant}
    (h : CursorInv bounds s) (hreading : s.Reading run.mode t lower upper) (t' : TableName) :
    CarriesUpTo (key t') (updatedAt t')
      (Function.update s.watermarks t (raiseCandidate run.mode upper (s.watermarks t)) t').reached
      (fun r => key t' r.row) Staged.row (s.source t').rows
      (staged (loadTable s.staging now t (extracted run.mode t (s.source t) lower upper)) t').rows := by
  by_cases ht : t' = t
  · subst ht
    rw [Function.update_self, staged_loadTable]
    cases hm : run.mode with
    | backfill start stop =>
      exact carries_load (h.carries t') fun row _ hlt hle => absurd (hle.trans_lt hlt) (lt_irrefl _)
    | incremental =>
      rw [hm] at hreading
      rw [reached_raiseCandidate]
      refine carries_load (h.carries t') fun row _ hlt hle => ?_
      have hlower : lower < updatedAt t' row :=
        ((h.reading t' lower upper hreading).1.trans watermark_le_reached).trans_lt hlt
      have hupper : updatedAt t' row ≤ upper := (le_max_iff.mp hle).resolve_left (not_le.mpr hlt)
      exact Bool.and_eq_true_iff.mpr ⟨decide_eq_true hlower, decide_eq_true hupper⟩
  · rw [Function.update_of_ne ht, staged_loadTable_of_ne ht]
    exact h.carries t'

/-- **No step lowers a watermark.** -/
theorem Move.watermark_le (hmove : Move day s action s') (t : TableName) :
    (s.watermarks t).watermark_value ≤ (s'.watermarks t).watermark_value := by
  cases hmove with
  | @upsert run t' lower upper now outcome _ _ _ =>
    change _ ≤ (Function.update s.watermarks t' _ t).watermark_value
    by_cases ht : t = t'
    · subst ht
      rw [Function.update_self, raiseCandidate_watermark]
    · rw [Function.update_of_ne ht]
  | advance _ _ hw => exact watermark_le_advanced hw
  | _ => exact le_refl _

/-- **A step raises a cursor only to the bound of a committed extract.** -/
theorem Move.reached (hmove : Move day s action s') (t : TableName) :
    (s'.watermarks t).reached = (s.watermarks t).reached ∨
      ∃ lower upper, s.Reading .incremental t lower upper ∧
        (s'.watermarks t).reached = max (s.watermarks t).reached upper := by
  cases hmove with
  | @upsert run t' lower upper now outcome hrun hstate _ =>
    change (Function.update s.watermarks t' _ t).reached = _ ∨
      ∃ lower upper, _ ∧ (Function.update s.watermarks t' _ t).reached = _
    by_cases ht : t = t'
    · subst ht
      rw [Function.update_self]
      cases hm : run.mode with
      | backfill start stop => exact Or.inl rfl
      | incremental => exact Or.inr ⟨lower, upper, ⟨run, hrun, hm, hstate⟩, reached_raiseCandidate⟩
    · rw [Function.update_of_ne ht]
      exact Or.inl rfl
  | advance _ _ hw => exact Or.inl (reached_advanced hw)
  | _ => exact Or.inl rfl

/-- **One step without late rows keeps staging complete up to the cursors.** -/
theorem CursorInv.move (h : CursorInv bounds s) (hlayered : LayeredRuns s)
    (hmove : Move day s action s') (hok : NoLateRow bounds s s') :
    CursorInv (bounds.after s action) s' := by
  refine ⟨fun t x hx => ?_, fun t lower upper hr => ?_, ?_⟩
  · have hold := h.known t x hx.of_after
    rcases hmove.reached t with he | ⟨lower, upper, hr, he⟩
    · rwa [he]
    · rw [he]
      exact max_lt hold ((h.reading t lower upper hr).2 x hx.of_after)
  · rcases hmove.reading hlayered hr with hr | ⟨rfl, ⟨run, hrun, hmode⟩, hwindow⟩
    · obtain ⟨hlower, hupper⟩ := h.reading t lower upper hr
      exact ⟨hlower.trans (hmove.watermark_le t), fun x hx => hupper x hx.of_after⟩
    · have hread : readBound s (.start (.extract t)) =
          some (t, highWater (updatedAt t) (s.watermarks t).watermark_value (s.source t).rows) := by
        unfold readBound
        rw [hrun, Option.map_some, hmode]
      cases hwindow
      exact ⟨hmove.watermark_le t, fun x hx => hx.of_read hread⟩
  · cases hmove with
    | changeSource t table => exact h.carries_changeSource hok
    | upsert hrun hstate _ => exact h.carries_upsert ⟨_, hrun, rfl, hstate⟩
    | @advance run attempt w outcome _ _ hw =>
      intro t
      change CarriesUpTo _ _ (w t).reached _ _ _ _
      rw [reached_advanced hw]
      exact h.carries t
    | _ => exact h.carries

theorem CursorInv.initial : CursorInv (fun _ => []) State.initial := by
  refine ⟨fun _ x hx => hx.1, fun t lower upper hr => ?_, fun _ row hrow => ?_⟩
  · obtain ⟨run, hrun, -⟩ := hr
    cases hrun
  · exact absurd hrow List.not_mem_nil

/-- The invariant holds throughout a history without late rows. -/
theorem History.cursorInv (h : History day bounds s) : CursorInv bounds s := by
  induction h with
  | initial => exact CursorInv.initial
  | step hprev hstep hok ih => exact ih.move hprev.reaches.layered (move_of_step hstep) hok

/-- **Staging is complete below the cursor.**  Without late rows, whatever fails, is retried or is
backfilled, staging holds the current values of every source row up to the watermark or candidate of
its table, and no step lowers a watermark. -/
theorem staging_complete (h : History day bounds s) :
    (∀ t, ∀ row ∈ (s.source t).rows,
      updatedAt t row ≤ max (s.watermarks t).watermark_value
        ((s.watermarks t).candidate_value.getD (s.watermarks t).watermark_value) →
      ∃ loaded_at, (staged s.staging t).find? (key t row) = some ⟨row, loaded_at⟩) ∧
    ∀ action s', step day s action = some s' →
      ∀ t, (s.watermarks t).watermark_value ≤ (s'.watermarks t).watermark_value := by
  refine ⟨fun t row hrow hle => ?_, fun action s' hstep t => (move_of_step hstep).watermark_le t⟩
  have hcarried := h.cursorInv.carries t row hrow hle
  obtain ⟨r, hr, rfl⟩ := Option.map_eq_some_iff.mp hcarried
  exact ⟨r.loaded_at, hr⟩

/-! ## An order that is updated while it is extracted -/

/-- The source with the one order, before anything is extracted. -/
theorem history_loaded : History toDate (fun _ => []) { State.initial with
    source := Function.update State.initial.source .orders (tableOf (sampleOrder 100 "pending")) } := by
  refine History.initial.changeSource .orders _ fun row hrow _ => ?_
  refine ⟨?_, fun b hb => absurd hb List.not_mem_nil⟩
  rw [List.mem_singleton.mp hrow]
  decide

/-- The extract reads 100, the order moves on to 200, the attempt copies nothing and is retried. -/
theorem staging_complete_moved : ∃ s : State, (s.watermarks .orders).candidate_value = some 200 ∧
    ∃ loaded_at, s.staging.orders.find? 1 = some ⟨sampleOrder 200 "confirmed", loaded_at⟩ := by
  have htriggered := history_loaded.keep (.trigger .incremental) rfl rfl
  have hstarted := htriggered.keep (.start .validate_run_config) rfl rfl
  have hvalid := hstarted.keep Action.validateRunConfig rfl rfl
  have hread := hvalid.keep (.start (.extract .orders)) rfl rfl
  have hmoved := hread.changeSource .orders (tableOf (sampleOrder 200 "confirmed")) (by
    intro row hrow _
    rw [List.mem_singleton.mp hrow]
    refine ⟨by decide, fun b hb => ?_⟩
    rw [List.mem_singleton.mp hb]
    decide)
  have hcopied := hmoved.keep (.upsert .orders 1 .retried) rfl rfl
  have hagain := hcopied.keep (.start (.extract .orders)) rfl rfl
  have hdone := hagain.keep (.upsert .orders 2 .succeeded) rfl rfl
  refine ⟨_, rfl, (staging_complete hdone).1 .orders (sampleOrder 200 "confirmed") ?_ ?_⟩
  · exact List.mem_singleton_self _
  · decide

end LocalDataPlatform.Pipeline

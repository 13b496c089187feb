import LocalDataPlatform.Pipeline.Extract
import LocalDataPlatform.Sales.IcebergFacts
import LocalDataPlatform.Sales.IcebergJobs

/-!
# The high-water filter of the Iceberg job under concurrent extracts

An extract writes the time its transaction began, and its rows appear when it commits.  A run of the
Iceberg job reads the mark of its table and the three staging relations one after the other.

* `icebergSink` — the job over the columns as the extracts fill them.
* `System`, `Event` — the extracts in flight beside the runs of the job.
* `SkipsNothing` — each row of the join at or below the mark is in the table, and one more run gives the
  whole join.
* `Orderly` — what an extract commits is later than the mark and than what a run has read, and a run
  reads one state of the join.

Principal results: `write_carries` (a run of orderly reads keeps what is represented),
`skips_nothing` (over every orderly interleaving), `changesAfter_load` (an extract that began after all
it may overtake is orderly).
-/

set_option autoImplicit false

namespace LocalDataPlatform.Sales.HighWater

open Relational Jobs
open Pipeline (TableName Row key loadTable PaymentsKeepOrder olderKept_loadTable)

/-- The staging relations the job reads. -/
abbrev Source := Reads (StagingTable OrderRow.order_id) (StagingTable OrderItemRow.order_item_id)
  (StagingTable PaymentRow.payment_id)

/-- Staging, as far as the job reads it. -/
def stagingOf (r : Source) : Staging := ⟨Table.empty, r.orders, r.order_items, r.payments⟩

/-- `transform_sales` of what is read. -/
def join (r : Source) : List IcebergRow := (stagingOf r).transformSales

/-- The job over columns that are not null. -/
def icebergSink : Sink (StagingTable OrderRow.order_id) (StagingTable OrderItemRow.order_item_id)
    (StagingTable PaymentRow.payment_id) IcebergRow where
  order_item_id := IcebergRow.order_item_id
  transform_sales := join
  unique _ := uniqueOn_transformSales
  high_watermark := icebergHighWater
  isNewer mark r := decide (mark < r.source_loaded_at)
  validate_sales rows := decide (SalesValid rows)
  contract _ := true
  notOlder := notOlder

abbrev Runs := Machine (StagingTable OrderRow.order_id) (StagingTable OrderItemRow.order_item_id)
  (StagingTable PaymentRow.payment_id) IcebergRow

abbrev Read := Loaded (StagingTable OrderRow.order_id) (StagingTable OrderItemRow.order_item_id)
  (StagingTable PaymentRow.payment_id)

/-! ## Extracts in flight -/

/-- The runs of the job, the wall clock, and the `CURRENT_TIMESTAMP` of each open transaction. -/
structure System where
  runs : Runs
  clock : Instant
  transactions : Nat → Option Instant

inductive Event
  | begin_extract (tx : Nat) (now : Instant)
  | commit_extract (tx : Nat) (t : TableName) (batch : Table (Row t) (key t))
  | rollback_extract (tx : Nat)
  | launch (job : Nat) (origin : Origin)
  | step (job : Nat)
  | stop (job : Nat)

/-- What the job can read once `batch` is committed with the load time `stamp`. -/
def committed (r : Source) (stamp : Instant) (t : TableName) (batch : Table (Row t) (key t)) : Source :=
  let st := loadTable (stagingOf r) stamp t batch
  ⟨st.orders, st.order_items, st.payments⟩

namespace System

def next (s : System) : Event → System
  | .begin_extract tx now =>
    if s.transactions tx = none ∧ s.clock ≤ now then
      { s with clock := now, transactions := Function.update s.transactions tx (some now) }
    else s
  | .commit_extract tx t batch =>
    match s.transactions tx with
    | some stamp =>
      { s with
        runs := icebergSink.step s.runs (.stage (committed s.runs.staging stamp t batch))
        transactions := Function.update s.transactions tx none }
    | none => s
  | .rollback_extract tx => { s with transactions := Function.update s.transactions tx none }
  | .launch job origin => { s with runs := icebergSink.step s.runs (.launch job origin) }
  | .step job => { s with runs := icebergSink.step s.runs (.step job) }
  | .stop job => { s with runs := icebergSink.step s.runs (.stop job) }

/-- Empty stores, and nothing under way. -/
def initial : System := ⟨Sink.initial ⟨Table.empty, Table.empty, Table.empty⟩, 0, fun _ => none⟩

def run (s : System) (events : List Event) : System := events.foldl next s

end System

/-- Every row of the join at or below the mark is in the table, and one more run makes the table the
join, if its rows pass `validate_sales`. -/
structure SkipsNothing (m : Runs) : Prop where
  represented : ∀ r ∈ join m.staging, r.source_loaded_at ≤ icebergHighWater m.table → r ∈ m.table
  next_run : ∀ job, m.jobs job = .idle → SalesValid (updates (stagingOf m.staging) m.table) →
    ((Sink.wholeRun job).foldl icebergSink.step m).table.Perm (join m.staging)

/-! ## Orderly interleavings -/

/-- The rows of the join that differ are later than `bound`. -/
def ChangesAfter (bound : Instant) (before after : Source) : Prop :=
  ∀ r ∈ join after, r ∉ join before → bound < r.source_loaded_at

/-- No item leaves the join. -/
def ItemsStay (before after : Source) : Prop :=
  ∀ r ∈ join before, ∃ r' ∈ join after, r'.order_item_id = r.order_item_id

/-- What was read is the join of `now`, as far as the highest load time that was read. -/
structure ReadsJoin (reads now : Source) : Prop where
  current : ∀ r ∈ join now, r.source_loaded_at ≤ icebergHighWater (join reads) → r ∈ join reads
  items : ItemsStay reads now

/-- What a run has read, from its last read to its write. -/
def holds : Phase (StagingTable OrderRow.order_id) (StagingTable OrderItemRow.order_item_id)
    (StagingTable PaymentRow.payment_id) IcebergRow → Option Read
  | .loaded l => some l
  | .validated l => some l
  | .merging l _ => some l
  | _ => none

/-- A commit changes rows of the join only to later load times than the mark and than all a run has
read; the last read of a run completes a state of the join; an append finds none of its keys. -/
def Orderly (s : System) : Event → Prop
  | .commit_extract tx t batch => ∀ stamp, s.transactions tx = some stamp →
    ItemsStay s.runs.staging (committed s.runs.staging stamp t batch) ∧
    ChangesAfter (icebergHighWater s.runs.table) s.runs.staging (committed s.runs.staging stamp t batch) ∧
    ∀ job l, holds (s.runs.jobs job) = some l →
      ChangesAfter (icebergHighWater (join l.reads)) s.runs.staging (committed s.runs.staging stamp t batch)
  | .step job => icebergSink.AppendsApart s.runs (.step job) ∧
    ∀ e mark orders order_items, s.runs.jobs job = .items_read e mark orders order_items →
      ReadsJoin ⟨orders, order_items, s.runs.staging.payments⟩ s.runs.staging
  | _ => True

/-- Every event of a run of the system is orderly. -/
def OrderlyRun : System → List Event → Prop
  | _, [] => True
  | s, event :: events => Orderly s event ∧ OrderlyRun (s.next event) events

/-! ## The invariant -/

/-- The mark a run has read. -/
def markOf : Phase (StagingTable OrderRow.order_id) (StagingTable OrderItemRow.order_item_id)
    (StagingTable PaymentRow.payment_id) IcebergRow → Option Instant
  | .marked _ mark => some mark
  | .orders_read _ mark _ => some mark
  | .items_read _ mark _ _ => some mark
  | .loaded l => some l.current_high_watermark
  | .validated l => some l.current_high_watermark
  | .merging l _ => some l.current_high_watermark
  | _ => none

/-- The table carries the join up to its mark, and so does what each run has read. -/
structure Sound (m : Runs) : Prop where
  unique : UniqueOn IcebergRow.order_item_id m.table
  floor : beforeEveryLoad ≤ icebergHighWater m.table
  carries : CarriesUpTo IcebergRow.order_item_id IcebergRow.source_loaded_at (icebergHighWater m.table)
    IcebergRow.order_item_id id (join m.staging) m.table
  items : ∀ t ∈ m.table, ∃ r ∈ join m.staging, r.order_item_id = t.order_item_id
  marks : ∀ job mark, markOf (m.jobs job) = some mark →
    beforeEveryLoad ≤ mark ∧ mark ≤ icebergHighWater m.table
  reads : ∀ job l, holds (m.jobs job) = some l → ReadsJoin l.reads m.staging

section Write

variable {m : Runs} {l : Read} {job : Nat}

theorem mem_updates {r : IcebergRow} : r ∈ icebergSink.updates l ↔
    r ∈ join l.reads ∧ l.current_high_watermark < r.source_loaded_at := by
  unfold Sink.updates icebergSink
  rw [List.mem_filter, decide_eq_true_eq]

/-- What a run writes: its rows, merged into the table. -/
def written (table : List IcebergRow) (l : Read) : List IcebergRow :=
  mergeInto IcebergRow.order_item_id notOlder table (icebergSink.updates l)

/-- A write never lowers the mark. -/
theorem highWater_le_written (h : Sound m) (hmark : markOf (m.jobs job) = some l.current_high_watermark) :
    icebergHighWater m.table ≤ icebergHighWater (written m.table l) := by
  by_cases hempty : m.table = []
  · have hrows : written m.table l = icebergSink.updates l := by
      unfold written
      rw [hempty, mergeInto_of_apart fun _ _ _ ht => absurd ht List.not_mem_nil, List.nil_append]
    rw [hrows, hempty]
    cases hups : icebergSink.updates l with
    | nil => exact le_rfl
    | cons r more =>
      have hr : r ∈ icebergSink.updates l := hups ▸ List.mem_cons_self
      have hle : r.source_loaded_at ≤ icebergHighWater (r :: more) := le_highWater List.mem_cons_self
      exact (h.marks job _ hmark).1.trans ((mem_updates.mp hr).2.le.trans hle)
  · exact highWater_le_merge (fun _ _ ha => of_decide_eq_true ha) hempty

/-- **A run of orderly reads keeps what is represented**, and represents the rest up to its new mark. -/
theorem write_carries (h : Sound m) (hl : holds (m.jobs job) = some l)
    (hmark : markOf (m.jobs job) = some l.current_high_watermark) :
    CarriesUpTo IcebergRow.order_item_id IcebergRow.source_loaded_at (icebergHighWater (written m.table l))
      IcebergRow.order_item_id id (join m.staging) (written m.table l) := by
  have hreads := h.reads job l hl
  refine h.carries.merge (fun f t => decide_eq_true_iff) (fun t ht => le_highWater ht)
    (@uniqueOn_updates _ _ _ _ icebergSink l) ?_ ?_
  · -- a row read at least as new as the current one is the current one
    intro f hf s hs hk hle
    have hread := (mem_updates.mp hf).1
    have hfhigh : f.source_loaded_at ≤ icebergHighWater (join l.reads) := le_highWater hread
    exact uniqueOn_transformSales.eq_of_key (hreads.current s hs (hle.trans hfhigh)) hread hk
  · intro s hs hnew hle
    have hread : s.source_loaded_at ≤ icebergHighWater (join l.reads) := by
      have hne : written m.table l ≠ [] := fun he => by
        rw [he] at hle
        exact absurd (hle.trans h.floor) (not_le.mpr hnew)
      have hreached : ∃ r ∈ written m.table l, r.source_loaded_at = icebergHighWater (written m.table l) :=
        exists_highWater hne
      obtain ⟨r, hr, he⟩ := hreached
      rcases mem_mergeInto hr with hr | hr
      · have hlow : r.source_loaded_at ≤ icebergHighWater m.table := le_highWater hr
        exact absurd (hle.trans (he ▸ hlow)) (not_le.mpr hnew)
      · have hhigh : r.source_loaded_at ≤ icebergHighWater (join l.reads) :=
          le_highWater (mem_updates.mp hr).1
        exact hle.trans (he ▸ hhigh)
    exact mem_updates.mpr ⟨hreads.current s hs hread, (h.marks job _ hmark).2.trans_lt hnew⟩

/-- The step of a run changes the table only to what the run writes. -/
theorem step_written (happend : icebergSink.AppendsApart m (.step job)) :
    (icebergSink.step m (.step job)).table = m.table ∨
      ∃ l, holds (m.jobs job) = some l ∧ markOf (m.jobs job) = some l.current_high_watermark ∧
        (icebergSink.step m (.step job)).table = written m.table l := by
  rcases main_cases m.staging m.table (m.jobs job) with he | ⟨l, hphase, hempty, hcontract, he⟩ | ⟨l, hphase, he⟩
  · exact Or.inl he
  · refine Or.inr ⟨l, by rw [hphase]; rfl, by rw [hphase]; rfl, he.trans ?_⟩
    exact (mergeInto_of_apart (happend l hphase hempty hcontract)).symm
  · exact Or.inr ⟨l, by rw [hphase]; rfl, by rw [hphase]; rfl, he⟩

theorem markOf_main {staging : Source} {table : List IcebergRow} {mark : Instant}
    {phase : Phase (StagingTable OrderRow.order_id) (StagingTable OrderItemRow.order_item_id)
      (StagingTable PaymentRow.payment_id) IcebergRow}
    (h : markOf (icebergSink.main staging table phase).1 = some mark) :
    markOf phase = some mark ∨ mark = icebergHighWater table := by
  cases phase with
  | tested e => exact Or.inr (Option.some.inj h).symm
  | loaded l =>
    unfold Sink.main at h
    dsimp only at h
    split at h
    · split at h
      · cases h
      · exact Or.inl h
    · cases h
  | validated l =>
    unfold Sink.main at h
    dsimp only at h
    split at h
    · cases h
    · exact Or.inl h
  | merging l target =>
    unfold Sink.main at h
    dsimp only at h
    split at h <;> cases h
  | idle => cases h
  | launched => cases h
  | done => cases h
  | _ => exact Or.inl h

theorem holds_main {staging : Source} {table : List IcebergRow}
    {phase : Phase (StagingTable OrderRow.order_id) (StagingTable OrderItemRow.order_item_id)
      (StagingTable PaymentRow.payment_id) IcebergRow}
    (h : holds (icebergSink.main staging table phase).1 = some l) :
    holds phase = some l ∨ ∃ e mark orders order_items, phase = .items_read e mark orders order_items ∧
      l.reads = ⟨orders, order_items, staging.payments⟩ := by
  cases phase with
  | items_read e mark orders order_items =>
    cases h
    exact Or.inr ⟨e, mark, orders, order_items, rfl, rfl⟩
  | loaded l =>
    unfold Sink.main at h
    dsimp only at h
    split at h
    · split at h
      · cases h
      · exact Or.inl h
    · cases h
  | validated l =>
    unfold Sink.main at h
    dsimp only at h
    split at h
    · cases h
    · exact Or.inl h
  | merging l target =>
    unfold Sink.main at h
    dsimp only at h
    split at h <;> cases h
  | _ => cases h

end Write

/-! ## What an event preserves -/

section Events

variable {m : Runs} {s : System} {job : Nat}

/-- **A step of a run keeps the invariant.** -/
theorem Sound.step (h : Sound m) (happend : icebergSink.AppendsApart m (.step job))
    (hread : ∀ e mark orders order_items, m.jobs job = .items_read e mark orders order_items →
      ReadsJoin ⟨orders, order_items, m.staging.payments⟩ m.staging) :
    Sound (icebergSink.step m (.step job)) := by
  have hmarks : ∀ job' mark, markOf ((icebergSink.step m (.step job)).jobs job') = some mark →
      beforeEveryLoad ≤ mark ∧ mark ≤ icebergHighWater m.table := by
    intro job' mark hmark
    change markOf (Function.update m.jobs job _ job') = some mark at hmark
    by_cases hjob : job' = job
    · rw [hjob, Function.update_self] at hmark
      rcases markOf_main hmark with hmark | rfl
      · exact h.marks job mark hmark
      · exact ⟨h.floor, le_rfl⟩
    · rw [Function.update_of_ne hjob] at hmark
      exact h.marks job' mark hmark
  have hreads : ∀ job' l, holds ((icebergSink.step m (.step job)).jobs job') = some l →
      ReadsJoin l.reads m.staging := by
    intro job' l hl
    change holds (Function.update m.jobs job _ job') = some l at hl
    by_cases hjob : job' = job
    · rw [hjob, Function.update_self] at hl
      rcases holds_main hl with hl | ⟨e, mark, orders, order_items, hphase, he⟩
      · exact h.reads job l hl
      · rw [he]
        exact hread e mark orders order_items hphase
    · rw [Function.update_of_ne hjob] at hl
      exact h.reads job' l hl
  rcases step_written happend with he | ⟨l, hl, hmark, he⟩
  · refine ⟨?_, ?_, ?_, ?_, fun job' mark hm => ?_, hreads⟩
    · rw [he]
      exact h.unique
    · rw [he]
      exact h.floor
    · rw [he]
      exact h.carries
    · rw [he]
      exact h.items
    · rw [he]
      exact hmarks job' mark hm
  · have hmono := highWater_le_written h hmark
    refine ⟨?_, ?_, ?_, ?_, fun job' mark hm => ?_, hreads⟩
    · rw [he]
      exact h.unique.mergeInto (@uniqueOn_updates _ _ _ _ icebergSink l)
    · rw [he]
      exact h.floor.trans hmono
    · rw [he]
      exact write_carries h hl hmark
    · rw [he]
      intro t ht
      rcases mem_mergeInto ht with ht | ht
      · exact h.items t ht
      · exact (h.reads job l hl).items t (mem_updates.mp ht).1
    · rw [he]
      exact ⟨(hmarks job' mark hm).1, (hmarks job' mark hm).2.trans hmono⟩

/-- The start or the end of a run has read nothing. -/
theorem Sound.of_jobs {m' : Runs} (h : Sound m) (htable : m'.table = m.table)
    (hstaging : m'.staging = m.staging)
    (hjobs : ∀ job, m'.jobs job = m.jobs job ∨ m'.jobs job = .idle ∨ m'.jobs job = .launched) :
    Sound m' := by
  refine ⟨htable ▸ h.unique, htable ▸ h.floor, ?_, ?_, fun job mark hm => ?_, fun job l hl => ?_⟩
  · rw [htable, hstaging]
    exact h.carries
  · rw [htable, hstaging]
    exact h.items
  · rw [htable]
    rcases hjobs job with he | he | he <;> rw [he] at hm
    · exact h.marks job mark hm
    · cases hm
    · cases hm
  · rw [hstaging]
    rcases hjobs job with he | he | he <;> rw [he] at hl
    · exact h.reads job l hl
    · cases hl
    · cases hl

/-- **An orderly commit keeps the invariant.** -/
theorem Sound.stage {after : Source} (h : Sound m) (hitems : ItemsStay m.staging after)
    (hmark : ChangesAfter (icebergHighWater m.table) m.staging after)
    (hreads : ∀ job l, holds (m.jobs job) = some l →
      ChangesAfter (icebergHighWater (join l.reads)) m.staging after) :
    Sound (icebergSink.step m (.stage after)) := by
  refine ⟨h.unique, h.floor, ?_, fun t ht => ?_, h.marks, fun job l hl => ⟨fun r hr hle => ?_, fun r hr => ?_⟩⟩
  · refine h.carries.mono fun r hr hle => ?_
    by_contra hnew
    exact absurd hle (not_le.mpr (hmark r hr hnew))
  · obtain ⟨r, hr, hid⟩ := h.items t ht
    obtain ⟨r', hr', hid'⟩ := hitems r hr
    exact ⟨r', hr', hid'.trans hid⟩
  · refine (h.reads job l hl).current r ?_ hle
    by_contra hnew
    exact absurd hle (not_le.mpr (hreads job l hl r hr hnew))
  · obtain ⟨r', hr', hid⟩ := (h.reads job l hl).items r hr
    obtain ⟨r'', hr'', hid'⟩ := hitems r' hr'
    exact ⟨r'', hr'', hid'.trans hid⟩

theorem Sound.next {event : Event} (h : Sound s.runs) (horderly : Orderly s event) :
    Sound (s.next event).runs := by
  cases event with
  | begin_extract tx now =>
    unfold System.next
    dsimp only
    split <;> exact h
  | commit_extract tx t batch =>
    unfold System.next
    dsimp only
    split
    · rename_i stamp hstamp
      obtain ⟨hitems, hmark, hreads⟩ := horderly stamp hstamp
      exact h.stage hitems hmark hreads
    · exact h
  | rollback_extract tx => exact h
  | launch job origin =>
    have hlaunched : ∀ job', Function.update s.runs.jobs job .launched job' = s.runs.jobs job' ∨
        Function.update s.runs.jobs job .launched job' = .idle ∨
        Function.update s.runs.jobs job .launched job' = .launched := by
      intro job'
      by_cases hjob : job' = job
      · rw [hjob, Function.update_self]
        exact Or.inr (Or.inr rfl)
      · exact Or.inl (Function.update_of_ne hjob _ _)
    unfold System.next Sink.step
    dsimp only
    split
    · exact h.of_jobs rfl rfl hlaunched
    · exact h.of_jobs rfl rfl hlaunched
    · exact h
  | step job => exact h.step horderly.1 horderly.2
  | stop job =>
    refine h.of_jobs rfl rfl fun job' => ?_
    by_cases hjob : job' = job
    · exact Or.inr (Or.inl (hjob ▸ Function.update_self ..))
    · exact Or.inl (Function.update_of_ne hjob _ _)

theorem sound_initial : Sound System.initial.runs where
  unique := UniqueOn.nil
  floor := le_rfl
  carries := fun _ hr => absurd hr List.not_mem_nil
  items := fun _ ht => absurd ht List.not_mem_nil
  marks := fun _ _ hm => by cases hm
  reads := fun _ _ hl => by cases hl

theorem Sound.run {events : List Event} (h : Sound s.runs) (horderly : OrderlyRun s events) :
    Sound (s.run events).runs := by
  induction events generalizing s with
  | nil => exact h
  | cons event events ih => exact ih (h.next horderly.1) horderly.2

/-- A whole run of the job is the job of the DAG. -/
theorem once_eq (r : Source) (table : List IcebergRow) :
    icebergSink.once r table = (runJob (stagingOf r) table).getD table := by
  have hcommit : ∀ rows table' : List IcebergRow, icebergSink.commit rows table table' = table' :=
    fun rows _ => if_pos (List.all_eq_true.mpr fun _ _ => rfl)
  have hrows : icebergSink.updates ⟨table.isEmpty, icebergSink.high_watermark table, r⟩ =
      updates (stagingOf r) table := rfl
  have hcheck : ∀ rows, icebergSink.validate_sales rows = decide (SalesValid rows) := fun _ => rfl
  unfold Sink.once runJob
  dsimp only
  rw [hrows, hcheck]
  by_cases hvalid : SalesValid (updates (stagingOf r) table)
  · rw [if_pos (decide_eq_true hvalid), if_pos hvalid]
    by_cases hnone : (updates (stagingOf r) table).length = 0
    · rw [if_pos hnone, if_pos hnone]
      rfl
    · rw [if_neg hnone, if_neg hnone, hcommit, hcommit]
      unfold writeSales
      cases table with
      | nil => rfl
      | cons t table => rfl
  · rw [if_neg fun h => hvalid (of_decide_eq_true h), if_neg hvalid]
    rfl

/-- What is represented makes one more run complete. -/
theorem Sound.skipsNothing (h : Sound m) : SkipsNothing m where
  represented r hr hle := by
    have hfound := h.carries r hr hle
    rw [Option.map_id] at hfound
    exact mem_of_lookup hfound
  next_run job hidle hvalid := by
    rw [table_wholeRun hidle, once_eq]
    obtain ⟨table', hjob⟩ : ∃ table', runJob (stagingOf m.staging) m.table = some table' :=
      exists_runJob hvalid
    rw [hjob]
    have hmirrors := mirrors_runJob hjob h.carries h.items
    have hunique : UniqueOn IcebergRow.order_item_id table' := by
      rw [runJob_eq_some hjob]
      exact h.unique.mergeInto (uniqueOn_transformSales.sublist List.filter_sublist)
    have hperm := hmirrors.perm (fun _ => rfl) uniqueOn_transformSales hunique
    rwa [List.map_id] at hperm

/-- **Over every orderly interleaving the filter skips nothing.** -/
theorem skips_nothing {events : List Event} (h : OrderlyRun System.initial events) :
    SkipsNothing (System.initial.run events).runs :=
  (sound_initial.run h).skipsNothing

end Events

/-! ## Load times -/

section LoadTimes

variable {r : Source} {stamp bound : Instant} {t : TableName} {batch : Table (Row t) (key t)}

/-- **An extract that began after `bound` changes the join only to later rows**, if payments stay with
their order. -/
theorem changesAfter_load (hbegan : bound < stamp)
    (hkeep : PaymentsKeepOrder (stagingOf r) (loadTable (stagingOf r) stamp t batch)) :
    ChangesAfter bound r (committed r stamp t batch) := by
  intro row hrow hnew
  by_contra hold
  refine hnew ?_
  have hsame : (stagingOf (committed r stamp t batch)).transformSales =
      (loadTable (stagingOf r) stamp t batch).transformSales := rfl
  unfold join at hrow ⊢
  rw [hsame, transformSales_eq] at hrow
  rw [transformSales_eq]
  obtain ⟨s, hs, rfl⟩ := List.mem_map.mp hrow
  have hlt : s.source_loaded_at < stamp := (not_lt.mp hold).trans_lt hbegan
  exact List.mem_map_of_mem (mem_salesRows_of_olderKept (olderKept_loadTable hkeep) hs hlt)

end LoadTimes

/-! ## Orderly events -/

section OrderlyEvents

variable {s : System} {job tx : Nat}

/-- The commit of an extract that began after the mark, and after all that a run holds. -/
theorem orderly_commit {stamp : Instant} {t : TableName} {batch : Table (Row t) (key t)}
    (htx : s.transactions tx = some stamp) (hbegan : icebergHighWater s.runs.table < stamp)
    (hheld : ∀ job l, holds (s.runs.jobs job) = some l → icebergHighWater (join l.reads) < stamp)
    (hkeep : PaymentsKeepOrder (stagingOf s.runs.staging) (loadTable (stagingOf s.runs.staging) stamp t batch))
    (hitems : ItemsStay s.runs.staging (committed s.runs.staging stamp t batch)) :
    Orderly s (.commit_extract tx t batch) := by
  intro stamp' hstamp
  cases htx.symm.trans hstamp
  exact ⟨hitems, changesAfter_load hbegan hkeep, fun job l hl => changesAfter_load (hheld job l hl) hkeep⟩

/-- A step that neither reads `payments` nor appends. -/
theorem orderly_step {phase : Phase _ _ _ IcebergRow} (hphase : s.runs.jobs job = phase)
    (hread : ∀ e mark orders order_items, phase ≠ .items_read e mark orders order_items)
    (happend : ∀ l, phase ≠ .validated l) : Orderly s (.step job) :=
  ⟨fun l hl => absurd (hphase.symm.trans hl) (happend l),
    fun e mark orders order_items hl => absurd (hphase.symm.trans hl) (hread e mark orders order_items)⟩

/-- The last read of a run that no commit has overtaken. -/
theorem orderly_last_read {e : Bool} {mark : Instant}
    (hphase : s.runs.jobs job = .items_read e mark s.runs.staging.orders s.runs.staging.order_items) :
    Orderly s (.step job) := by
  constructor
  · intro l hl
    rw [hphase] at hl
    cases hl
  · intro e' mark' orders order_items hl
    rw [hphase] at hl
    cases hl
    exact ⟨fun r hr _ => hr, fun r hr => ⟨r, hr, rfl⟩⟩

/-- An append to a table that is still empty. -/
theorem orderly_first_append {l : Read} (hphase : s.runs.jobs job = .validated l) (hempty : s.runs.table = []) :
    Orderly s (.step job) := by
  constructor
  · intro l' _ _ _ r _ t ht
    rw [hempty] at ht
    cases ht
  · intro e mark orders order_items hl
    rw [hphase] at hl
    cases hl

end OrderlyEvents

/-! ## An item that commits late -/

section Late

/-- An order of customer 7. -/
def sampleOrder : Table (Row .orders) (key .orders) := Table.empty.put ⟨1, 7, 5, "pending", 1000, 5, 5⟩

/-- Its item, with a quantity. -/
def sampleItem (quantity : Int) : Table (Row .order_items) (key .order_items) :=
  Table.empty.put ⟨1, 1, 9, quantity, 1000, 5, 5⟩

/-- The order and its item are extracted, and a run of the job writes them.  An extract of the item begins
after the run, and commits between what the run reads and its write. -/
def firstRun : List Event :=
  [.begin_extract 0 10, .commit_extract 0 .order_items (sampleItem 1),
    .begin_extract 0 20, .commit_extract 0 .orders sampleOrder, .launch 0 .gateway, .begin_extract 1 30] ++
  List.replicate 6 (.step 0) ++ [.commit_extract 1 .order_items (sampleItem 2), .step 0, .stop 0]

/-- An extract of the item begins at 15, but commits after the run. -/
def lateItem : List Event :=
  [.begin_extract 0 10, .commit_extract 0 .order_items (sampleItem 1), .begin_extract 1 15,
    .begin_extract 0 20, .commit_extract 0 .orders sampleOrder, .launch 0 .gateway] ++
  List.replicate 7 (.step 0) ++ [.stop 0, .commit_extract 1 .order_items (sampleItem 2)]

/-- The new quantity is at the mark, and not in the table. -/
theorem skips_nothing_late :
    (∃ r ∈ join (System.initial.run lateItem).runs.staging, r.quantity = 2 ∧
      r.source_loaded_at ≤ icebergHighWater (System.initial.run lateItem).runs.table ∧
      r ∉ (System.initial.run lateItem).runs.table) ∧
    ¬ SkipsNothing (System.initial.run lateItem).runs := by
  have hskipped : ∃ r ∈ join (System.initial.run lateItem).runs.staging, r.quantity = 2 ∧
      r.source_loaded_at ≤ icebergHighWater (System.initial.run lateItem).runs.table ∧
      r ∉ (System.initial.run lateItem).runs.table := by
    decide
  refine ⟨hskipped, fun h => ?_⟩
  obtain ⟨r, hr, -, hle, hmissing⟩ := hskipped
  exact hmissing (h.represented r hr hle)

theorem firstRun_orderly : OrderlyRun System.initial firstRun := by
  refine ⟨trivial, ?_, trivial, ?_, trivial, trivial, ?_, ?_, ?_, ?_, ?_, ?_, ?_, ?_, trivial, trivial⟩
  · exact orderly_commit rfl (by decide) (fun _ _ h => by cases h) (by decide) (by unfold ItemsStay; decide)
  · exact orderly_commit rfl (by decide) (fun _ _ h => by cases h) (by decide) (by unfold ItemsStay; decide)
  · exact orderly_step rfl (fun _ _ _ _ h => by cases h) (fun _ h => by cases h)
  · exact orderly_step rfl (fun _ _ _ _ h => by cases h) (fun _ h => by cases h)
  · exact orderly_step rfl (fun _ _ _ _ h => by cases h) (fun _ h => by cases h)
  · exact orderly_step rfl (fun _ _ _ _ h => by cases h) (fun _ h => by cases h)
  · exact orderly_last_read rfl
  · exact orderly_step rfl (fun _ _ _ _ h => by cases h) (fun _ h => by cases h)
  · -- the run holds what it read up to 20
    refine orderly_commit rfl (by decide) (fun job l h => ?_) (by decide) (by unfold ItemsStay; decide)
    cases job with
    | zero =>
      cases h
      decide
    | succ job => cases h
  · exact orderly_first_append rfl rfl

/-- What the run has written is not the join any more; the next run makes it that. -/
theorem skips_nothing_first : SkipsNothing (System.initial.run firstRun).runs ∧
    (System.initial.run firstRun).runs.table ≠ [] ∧
    ∃ r ∈ join (System.initial.run firstRun).runs.staging, r ∉ (System.initial.run firstRun).runs.table :=
  ⟨skips_nothing firstRun_orderly, by decide, by decide⟩

end Late

end LocalDataPlatform.Sales.HighWater

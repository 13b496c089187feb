import LocalDataPlatform.Pipeline.Backfill
import LocalDataPlatform.Stream.Drained
import LocalDataPlatform.Stream.EventNames

/-!
# Backfills of adjacent windows

Staging may hold a row of the first window whose source row lies in the second one.  Two adjacent
backfills then publish a row that a single one does not; the newer row of the second supersedes it.

* `ReadsOrders` — what the producer's cursor returns of a row.
* `backfillRun` — the actions of a backfill, for an example.

Principal results: `contents_adjacent` (staging), `published_of_single` and `superseded_by_single` (what
the two ways publish), `eq_of_version` (no version twice), `adjacent_backfills_compose`.
-/

set_option autoImplicit false

namespace LocalDataPlatform.Pipeline

open Relational Sales Text
open LocalDataPlatform.Stream (StagingOrder Spark Drained OneVersion RowsBelow OneData)

/-! ## Two adjacent backfills -/

/-- What the producer's cursor returns of a row has its key, and its `updated_at` as a datetime. -/
structure ReadsOrders (read : OrderRow → StagingOrder) (rows : Set OrderRow) : Prop where
  order_id : ∀ row ∈ rows, (read row).orderId = row.order_id
  updated_at : ∀ row ∈ rows, (read row).updatedInstant = some row.updated_at

/-- The orders of the source and of staging. -/
def State.orders (s : State) : Set OrderRow :=
  {row | row ∈ (s.source .orders).rows ∨ Holds s.staging .orders row}

section Adjacent

variable {day : Instant → Int} {a b c : Instant} {s s₁ s₂ s₃ : State} {p₁ p₂ p₃ : List OrderRow}
variable {read : OrderRow → StagingOrder}

/-- A backfilled order is one of the source or of staging. -/
theorem mem_orders_of_backfilled {start stop : Instant} {id : Uuid} {row : OrderRow}
    (h : backfilled s.source start stop s.staging .orders id = some row) : row ∈ s.orders := by
  rcases backfilled_eq_some.mp h with ⟨hsource, -⟩ | ⟨hstaged, -⟩
  · exact Or.inl (Table.find?_eq_some.mp hsource).1
  · obtain ⟨r, hr, rfl⟩ := Option.map_eq_some_iff.mp hstaged
    exact Or.inr ⟨r, (Table.find?_eq_some.mp hr).1, rfl⟩

/-- **Both ways leave the same contents of staging.** -/
theorem contents_adjacent (hab : a ≤ b) (hbc : b ≤ c) (hfirst : BackfillResult a b s p₁ s₁)
    (hsecond : BackfillResult b c s₁ p₂ s₂) (hsingle : BackfillResult a c s p₃ s₃) (t : TableName) (id : Uuid) :
    contents s₂.staging t id = contents s₃.staging t id := by
  rw [hsecond.staging, hfirst.source, hsingle.staging]
  exact backfilled_trans hab hbc (hfirst.staging t id)

/-- **What the single backfill publishes, one of the adjacent ones publishes.** -/
theorem published_of_single (hab : a ≤ b) (hbc : b ≤ c) (hfirst : BackfillResult a b s p₁ s₁)
    (hsecond : BackfillResult b c s₁ p₂ s₂) (hsingle : BackfillResult a c s p₃ s₃) {row : OrderRow}
    (hrow : row ∈ p₃) : row ∈ p₁ ++ p₂ := by
  obtain ⟨hheld, hin⟩ := mem_published.mp ((hsingle.published row).mp hrow)
  rw [← contents_adjacent hab hbc hfirst hsecond hsingle] at hheld
  rw [List.mem_append]
  rcases (inRange_split hab hbc).mp hin with hearly | hlate
  · have hheld₁ : contents s₁.staging .orders row.order_id = some row := by
      rw [hsecond.staging] at hheld
      rcases backfilled_eq_some.mp hheld with ⟨-, hlate⟩ | ⟨hheld₁, -⟩
      · exact absurd hlate.1 (not_le.mpr hearly.2)
      · exact hheld₁
    exact Or.inl ((hfirst.published row).mpr (mem_published.mpr ⟨hheld₁, hearly⟩))
  · exact Or.inr ((hsecond.published row).mpr (mem_published.mpr ⟨hheld, hlate⟩))

/-- **What the adjacent backfills publish is published by the single one, or superseded there.** -/
theorem superseded_by_single (hab : a ≤ b) (hbc : b ≤ c) (hfirst : BackfillResult a b s p₁ s₁)
    (hsecond : BackfillResult b c s₁ p₂ s₂) (hsingle : BackfillResult a c s p₃ s₃) {row : OrderRow}
    (hrow : row ∈ p₁ ++ p₂) :
    ∃ row' ∈ p₃, row'.order_id = row.order_id ∧ row.updated_at ≤ row'.updated_at := by
  have hmem : ∀ {row' : OrderRow}, contents s₂.staging .orders row'.order_id = some row' →
      InRange a b row'.updated_at ∨ InRange b c row'.updated_at → row' ∈ p₃ := by
    intro row' hheld hin
    rw [contents_adjacent hab hbc hfirst hsecond hsingle] at hheld
    exact (hsingle.published row').mpr (mem_published.mpr ⟨hheld, (inRange_split hab hbc).mpr hin⟩)
  rcases List.mem_append.mp hrow with hrow | hrow
  · obtain ⟨hheld, hearly⟩ := mem_published.mp ((hfirst.published row).mp hrow)
    -- the source row of the order may lie in the second window, and is newer then
    by_cases hnewer : ∃ r, (s₁.source .orders).find? row.order_id = some r ∧ InRange b c r.updated_at
    · obtain ⟨r, hr, hlate⟩ := hnewer
      have hid : r.order_id = row.order_id := Table.key_of_find? hr
      refine ⟨r, hmem ?_ (Or.inr hlate), hid, (hearly.2.trans_le hlate.1).le⟩
      rw [hsecond.staging, hid]
      exact backfilled_eq_some.mpr (Or.inl ⟨hr, hlate⟩)
    · refine ⟨row, hmem ?_ (Or.inl hearly), rfl, le_refl _⟩
      rw [hsecond.staging]
      exact backfilled_eq_some.mpr (Or.inr ⟨hheld, fun r hr hlate => hnewer ⟨r, hr, hlate⟩⟩)
  · obtain ⟨hheld, hlate⟩ := mem_published.mp ((hsecond.published row).mp hrow)
    exact ⟨row, hmem hheld (Or.inr hlate), rfl, le_refl _⟩

/-- A backfill leaves no other orders in staging. -/
theorem BackfillResult.orders_subset (h : BackfillResult a b s p₁ s₁) : s₁.orders ⊆ s.orders := by
  rintro row (hsource | ⟨r, hr, rfl⟩)
  · rw [h.source] at hsource
    exact Or.inl hsource
  · have hheld : contents s₁.staging .orders r.row.order_id = some r.row :=
      Option.map_eq_some_iff.mpr ⟨r, Table.find?_eq_some.mpr ⟨hr, rfl⟩, rfl⟩
    rw [h.staging] at hheld
    exact mem_orders_of_backfilled hheld

theorem BackfillResult.log_subset (h : BackfillResult a b s p₁ s₁) {row : OrderRow} (hrow : row ∈ p₁) :
    row ∈ s.orders := by
  obtain ⟨hheld, -⟩ := mem_published.mp ((h.published row).mp hrow)
  rw [h.staging] at hheld
  exact mem_orders_of_backfilled hheld

/-- Rows that are superseded are read as rows that are. -/
theorem rowsBelow_read {rows rows' : List OrderRow} (hread : ReadsOrders read s.orders)
    (hrows : ∀ row ∈ rows, row ∈ s.orders) (hrows' : ∀ row ∈ rows', row ∈ s.orders)
    (h : ∀ row ∈ rows, ∃ row' ∈ rows', row'.order_id = row.order_id ∧ row.updated_at ≤ row'.updated_at) :
    RowsBelow (rows.map read) (rows'.map read) := by
  intro r hr
  obtain ⟨row, hrow, rfl⟩ := List.mem_map.mp hr
  obtain ⟨row', hrow', hid, hle⟩ := h row hrow
  refine ⟨read row', List.mem_map_of_mem hrow', ?_, fun t ht => ?_⟩
  · rw [hread.order_id row (hrows row hrow), hread.order_id row' (hrows' row' hrow'), hid]
  · rw [hread.updated_at row (hrows row hrow)] at ht
    cases ht
    exact ⟨_, hread.updated_at row' (hrows' row' hrow'), hle⟩

/-- **No order version is published twice**, and the rows of a version are one. -/
theorem eq_of_version (hfirst : BackfillResult a b s p₁ s₁) (hsecond : BackfillResult b c s₁ p₂ s₂)
    {row row' : OrderRow} (hrow : row ∈ p₁ ++ p₂) (hrow' : row' ∈ p₁ ++ p₂)
    (hid : row.order_id = row'.order_id) (hsame : row.updated_at = row'.updated_at) :
    row = row' ∧ ¬ (row ∈ p₁ ∧ row' ∈ p₂) := by
  have hearly : ∀ {r : OrderRow}, r ∈ p₁ → contents s₁.staging .orders r.order_id = some r ∧ r.updated_at < b := by
    intro r hr
    obtain ⟨hheld, hin⟩ := mem_published.mp ((hfirst.published r).mp hr)
    exact ⟨hheld, hin.2⟩
  have hlate : ∀ {r : OrderRow}, r ∈ p₂ → contents s₂.staging .orders r.order_id = some r ∧ b ≤ r.updated_at := by
    intro r hr
    obtain ⟨hheld, hin⟩ := mem_published.mp ((hsecond.published r).mp hr)
    exact ⟨hheld, hin.1⟩
  have hapart : ∀ {r r' : OrderRow}, r ∈ p₁ → r' ∈ p₂ → r.updated_at ≠ r'.updated_at :=
    fun hr hr' => ((hearly hr).2.trans_le (hlate hr').2).ne
  refine ⟨?_, fun ⟨h₁, h₂⟩ => hapart h₁ h₂ hsame⟩
  rcases List.mem_append.mp hrow with h | h <;> rcases List.mem_append.mp hrow' with h' | h'
  · have hheld := (hearly h).1
    rw [hid, (hearly h').1] at hheld
    exact (Option.some.inj hheld).symm
  · exact absurd hsame (hapart h h')
  · exact absurd hsame.symm (hapart h' h)
  · have hheld := (hlate h).1
    rw [hid, (hlate h').1] at hheld
    exact (Option.some.inj hheld).symm

/-- The rows of one version are read alike. -/
theorem oneVersion_read {rows : List OrderRow} (hread : ReadsOrders read s.orders)
    (hrows : ∀ row ∈ rows, row ∈ s.orders)
    (hone : ∀ row ∈ rows, ∀ row' ∈ rows, row.order_id = row'.order_id → row.updated_at = row'.updated_at →
      row = row') : OneVersion (rows.map read) := by
  intro r hr r' hr' hid hsame
  obtain ⟨row, hrow, rfl⟩ := List.mem_map.mp hr
  obtain ⟨row', hrow', rfl⟩ := List.mem_map.mp hr'
  rw [hread.order_id row (hrows row hrow), hread.order_id row' (hrows row' hrow')] at hid
  rw [hread.updated_at row (hrows row hrow), hread.updated_at row' (hrows row' hrow')] at hsame
  rw [hone row hrow row' hrow' hid (Option.some.inj hsame)]

/-- **Adjacent backfills compose.**  On a fixed source they leave staging, the watermarks and
`current_orders` as the single backfill does, and publish no order version twice. -/
theorem adjacent_backfills_compose {sp : Spark} {uuid5 : String → Uuid}
    {attempts attempts' : List Stream.Attempt} (hab : a < b) (hbc : b < c)
    (hfirst : Backfill day a b s p₁ s₁) (hsecond : Backfill day b c s₁ p₂ s₂)
    (hsingle : Backfill day a c s p₃ s₃) (hread : ReadsOrders read s.orders) (hsp : sp.Documented)
    (hdrained : Drained uuid5 ((p₁ ++ p₂).map read) attempts)
    (hdrained' : Drained uuid5 (p₃.map read) attempts')
    (hdata : OneData (Stream.committedEvents sp 1 attempts ∪ Stream.committedEvents sp 1 attempts'))
    (t : Stream.Tables) :
    (∀ table id, contents s₂.staging table id = contents s₃.staging table id) ∧
    s₂.watermarks = s₃.watermarks ∧
    ((Stream.runAttempts sp t attempts).currentOrders.map Stream.currentView).Perm
      ((Stream.runAttempts sp t attempts').currentOrders.map Stream.currentView) ∧
    ∀ row ∈ p₁, ∀ row' ∈ p₂, ¬ (row'.order_id = row.order_id ∧ row'.updated_at = row.updated_at) := by
  have h₁ := hfirst.result
  have h₂ := hsecond.result
  have h₃ := hsingle.result
  have hrows : ∀ row ∈ p₁ ++ p₂, row ∈ s.orders := by
    intro row hrow
    rcases List.mem_append.mp hrow with hrow | hrow
    · exact h₁.log_subset hrow
    · exact h₁.orders_subset (h₂.log_subset hrow)
  have hrows' : ∀ row ∈ p₃, row ∈ s.orders := fun row hrow => h₃.log_subset hrow
  refine ⟨contents_adjacent hab.le hbc.le h₁ h₂ h₃, ?_, ?_, ?_⟩
  · rw [h₂.watermarks, h₁.watermarks, h₃.watermarks]
  · refine Stream.drained_perm hsp hdrained hdrained' ?_ hdata ?_ ?_ t
    · rw [← List.map_append]
      have hall : ∀ row ∈ p₁ ++ p₂ ++ p₃, row ∈ p₁ ++ p₂ := fun row hrow =>
        (List.mem_append.mp hrow).elim id (published_of_single hab.le hbc.le h₁ h₂ h₃)
      refine oneVersion_read hread (fun row hrow => hrows row (hall row hrow)) ?_
      exact fun row hrow row' hrow' hid hsame =>
        (eq_of_version h₁ h₂ (hall row hrow) (hall row' hrow') hid hsame).1
    · exact rowsBelow_read hread hrows hrows' fun row hrow =>
        superseded_by_single hab.le hbc.le h₁ h₂ h₃ hrow
    · refine rowsBelow_read hread hrows' hrows fun row hrow => ?_
      exact ⟨row, published_of_single hab.le hbc.le h₁ h₂ h₃ hrow, rfl, le_refl _⟩
  · rintro row hrow row' hrow' ⟨hid, hsame⟩
    exact (eq_of_version h₁ h₂ (List.mem_append_left _ hrow) (List.mem_append_right _ hrow') hid.symm
      hsame.symm).2 ⟨hrow, hrow'⟩

end Adjacent

/-! ## An order that was staged before it moved on -/

section Moved

/-- Actions that neither change the source nor end the run. -/
def Action.withinRun : Action → Bool
  | .changeSource _ _ => false
  | .close => false
  | _ => true

theorem Move.source {day : Instant → Int} {s s' : State} {action : Action} (hmove : Move day s action s')
    (h : action.withinRun = true) : s'.source = s.source := by
  cases hmove with
  | changeSource t table => cases h
  | _ => rfl

/-- Actions one after another. -/
theorem Backfilling.actions {day : Instant → Int} {start stop : Instant} {s : State} :
    ∀ {actions : List Action} {log : List OrderRow} {s₁ s₂ : State}, Backfilling day start stop s log s₁ →
      actions.all Action.withinRun = true → actions.foldlM (Pipeline.step day) s₁ = some s₂ →
      Backfilling day start stop s (actions.foldl (fun log action => action.publishes ++ log) log) s₂
  | [], _, _, _, h, _, hrun => Option.some.inj hrun ▸ h
  | action :: actions, _, s₁, _, h, hwithin, hrun => by
    rw [List.foldlM_cons] at hrun
    obtain ⟨s', hstep, hrun⟩ := Option.bind_eq_some_iff.mp hrun
    rw [List.all_cons, Bool.and_eq_true] at hwithin
    have hopen : action ≠ .close := fun he => by
      rw [he] at hwithin
      cases hwithin.1
    exact (h.step hstep ((move_of_step hstep).source hwithin.1) hopen).actions hwithin.2 hrun

/-- A run of a backfill that loads at `now` and publishes `orders`, from its first task on. -/
def backfillRun (now : Instant) (orders : List OrderRow) : List Action :=
  [.start .validate_run_config, .validateRunConfig] ++ extractTable .products now ++
    extractTable .orders now ++ extractTable .order_items now ++ extractTable .payments now ++
    validateStaging ++ transform ++ lakehouse ++ [.start .publish_order_events] ++
    orders.map .acknowledge ++ [.flushed, .start .advance_watermarks, .advance .succeeded]

theorem backfill_of_actions {day : Instant → Int} (start stop now : Instant) (orders : List OrderRow)
    {s s₁ s₂ s₃ : State} {run : Run} (htrigger : step day s (.trigger (Mode.ofRange start stop)) = some s₁)
    (hwithin : (backfillRun now orders).all Action.withinRun = true)
    (hrun : (backfillRun now orders).foldlM (step day) s₁ = some s₂) (hactive : s₂.run = some run)
    (hdone : run.state .advance_watermarks = .succeeded) (hclose : step day s₂ .close = some s₃) :
    Backfill day start stop s
      ((backfillRun now orders).foldl (fun log action => action.publishes ++ log) []) s₃ :=
  ⟨s₂, run, (Backfilling.trigger htrigger).actions hwithin hrun, hactive, hdone, hclose⟩

/-- Staging holds an order as it was at 100; in the source it is at 200. -/
def movedOn : State := { State.initial with
  source := fun
    | .products => tableOf ⟨5, "Laptop", "Electronics", 2000, 10, 10⟩
    | .orders => tableOf (sampleOrder 200 "confirmed")
    | .order_items => tableOf ⟨1, 1, 5, 1, 2000, 10, 10⟩
    | .payments => tableOf ⟨1, 1, 2000, "cash", "pending", none, 10, 10⟩
  customers := [7]
  staging := ⟨Table.empty, tableOf ⟨sampleOrder 100 "pending", 1⟩, Table.empty, Table.empty⟩
  clock := 1 }

/-- 1970-01-01 00:00:00.0001 and 00:00:00.0002 in UTC. -/
def readUpdatedAt (updated_at : Instant) : Datetime :=
  if updated_at = 100 then ⟨⟨1970, 1, 1, 0, 0, 0, 100, 0⟩, by decide⟩
  else ⟨⟨1970, 1, 1, 0, 0, 0, 200, 0⟩, by decide⟩

/-- A row as the cursor returns it. -/
def readSample (row : OrderRow) : StagingOrder :=
  ⟨row.order_id, some row.customer_id, some row.status, none, none, some (readUpdatedAt row.updated_at)⟩

/-- Two identifiers for the two versions of the order. -/
def uuid5Sample (name : String) : Uuid :=
  if name = Stream.eventName 1 (readUpdatedAt 100) then 100 else 200

theorem orders_movedOn {row : OrderRow} (h : row ∈ movedOn.orders) :
    row = sampleOrder 100 "pending" ∨ row = sampleOrder 200 "confirmed" := by
  rcases h with hsource | ⟨r, hr, rfl⟩
  · exact Or.inr (List.mem_singleton.mp hsource)
  · rw [List.mem_singleton.mp hr]
    exact Or.inl rfl

theorem readsOrders_movedOn : ReadsOrders readSample movedOn.orders where
  order_id _ _ := rfl
  updated_at row hrow := by
    rcases orders_movedOn hrow with rfl | rfl
    · decide
    · decide

/-- The two versions have two identifiers. -/
theorem uuid5Sample_versions : Stream.eventId uuid5Sample 1 (readUpdatedAt 100) = 100 ∧
    Stream.eventId uuid5Sample 1 (readUpdatedAt 200) = 200 := by
  have hdiffers : Stream.eventName 1 (readUpdatedAt 200) ≠ Stream.eventName 1 (readUpdatedAt 100) := by
    intro h
    exact absurd (Stream.eventName_inj.mp h).2 (by decide)
  rw [Stream.eventId_eq, Stream.eventId_eq]
  unfold uuid5Sample
  exact ⟨if_pos rfl, if_neg hdiffers⟩

theorem oneRow_movedOn {rows : List OrderRow} (hrows : ∀ row ∈ rows, row ∈ movedOn.orders) :
    Stream.OneRow uuid5Sample (rows.map readSample) := by
  intro r hr r' hr' d hd d' hd' hid
  obtain ⟨row, hrow, rfl⟩ := List.mem_map.mp hr
  obtain ⟨row', hrow', rfl⟩ := List.mem_map.mp hr'
  obtain ⟨hfirst, hsecond⟩ := uuid5Sample_versions
  cases hd
  cases hd'
  rcases orders_movedOn (hrows row hrow) with rfl | rfl <;>
    rcases orders_movedOn (hrows row' hrow') with rfl | rfl
  · rfl
  · exact absurd (hfirst.symm.trans (hid.trans hsecond)) (by decide)
  · exact absurd (hsecond.symm.trans (hid.trans hfirst)) (by decide)
  · rfl

/-- The first backfill publishes the version at 100, which the single one does not; the second one
supersedes it. -/
theorem adjacent_backfills_moved : ∃ s₁ s₂ s₃ attempts attempts',
    Backfill toDate 0 150 movedOn [sampleOrder 100 "pending"] s₁ ∧
    Backfill toDate 150 300 s₁ [sampleOrder 200 "confirmed"] s₂ ∧
    Backfill toDate 0 300 movedOn [sampleOrder 200 "confirmed"] s₃ ∧
    (∀ id, contents s₂.staging .orders id = contents s₃.staging .orders id) ∧
    ((Stream.runAttempts Spark.reading Stream.Tables.empty attempts).currentOrders.map
        Stream.currentView).Perm
      ((Stream.runAttempts Spark.reading Stream.Tables.empty attempts').currentOrders.map
        Stream.currentView) := by
  obtain ⟨s₁, s₂, s₃, hfirst, hsecond, hsingle⟩ : ∃ s₁ s₂ s₃,
      Backfill toDate 0 150 movedOn [sampleOrder 100 "pending"] s₁ ∧
      Backfill toDate 150 300 s₁ [sampleOrder 200 "confirmed"] s₂ ∧
      Backfill toDate 0 300 movedOn [sampleOrder 200 "confirmed"] s₃ :=
    ⟨_, _, _, backfill_of_actions 0 150 2 [sampleOrder 100 "pending"] rfl rfl rfl rfl rfl rfl,
      backfill_of_actions 150 300 3 [sampleOrder 200 "confirmed"] rfl rfl rfl rfl rfl rfl,
      backfill_of_actions 0 300 2 [sampleOrder 200 "confirmed"] rfl rfl rfl rfl rfl rfl⟩
  have hdated : ∀ rows : List OrderRow, ∀ row ∈ rows.map readSample, ∃ d, row.updatedAt = some d := by
    intro rows row hrow
    obtain ⟨o, -, rfl⟩ := List.mem_map.mp hrow
    exact ⟨_, rfl⟩
  obtain ⟨attempts, hdrained⟩ := Stream.exists_drained uuid5Sample Stream.Execution.inOrder
    (hdated ([sampleOrder 100 "pending"] ++ [sampleOrder 200 "confirmed"]))
  obtain ⟨attempts', hdrained'⟩ := Stream.exists_drained uuid5Sample Stream.Execution.inOrder
    (hdated [sampleOrder 200 "confirmed"])
  have hdata : OneData (Stream.committedEvents Spark.reading 1 attempts ∪
      Stream.committedEvents Spark.reading 1 attempts') := by
    refine Stream.oneData_of_rows ?_ (Stream.eventOf_union Spark.reading_documented hdrained hdrained')
    rw [← List.map_append]
    refine oneRow_movedOn fun row hrow => ?_
    have hcases : row = sampleOrder 100 "pending" ∨ row = sampleOrder 200 "confirmed" := by
      simpa using hrow
    rcases hcases with rfl | rfl
    · exact Or.inr ⟨⟨sampleOrder 100 "pending", 1⟩, List.mem_singleton_self _, rfl⟩
    · exact Or.inl (List.mem_singleton_self _)
  obtain ⟨hstaging, -, hcurrent, -⟩ := adjacent_backfills_compose (by decide) (by decide) hfirst hsecond
    hsingle readsOrders_movedOn Spark.reading_documented hdrained hdrained' hdata Stream.Tables.empty
  exact ⟨s₁, s₂, s₃, attempts, attempts', hfirst, hsecond, hsingle, hstaging .orders, hcurrent⟩

end Moved

end LocalDataPlatform.Pipeline

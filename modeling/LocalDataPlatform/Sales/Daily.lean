import LocalDataPlatform.Sales.Facts

/-!
# `daily_sales`

The incremental aggregate of `fact_sales`.  A run recomputes the dates touched by the facts above
its own high-water mark, merges them, and its post-hook deletes the dates without facts.

* `dailyTotals` — the group-by of the whole table for one date.
* `affectedDates`, `dailyMetrics`, `buildDaily` — one run of the model.
* `Marts`, `Build`, `next` — `dbt build` after `dbt build`; a build may stop once `fact_sales` is
  merged.
* `Reconciles` — one row for each date, with the totals of the whole fact table.
* `LeftDatesRemembered` — every date an item has left since `daily_sales` last completed is empty,
  or a fact above the mark is on it or remembers it.

Principal results: `buildDaily_current` (a run over an evolved fact table is right on every date),
`dailySales_reconciles` (every completed build reconciles, if left dates are remembered),
`dailySales_stale` (two merges between completed builds lose a left date).
-/

set_option autoImplicit false

namespace LocalDataPlatform.Sales

open Relational

/-- The measures of one date. -/
structure DailyTotals where
  total_orders : Nat
  total_items : Int
  total_sales : Cents
  paid_sales : Cents
  deriving DecidableEq, Repr

/-- A row of `daily_sales`. -/
structure DailyRow extends DailyTotals where
  sales_date : Int
  max_source_loaded_at : Instant
  deriving DecidableEq, Repr

/-- `sum(quantity)` is a bigint, the amounts are cast to `numeric(16, 2)`. -/
def DailyTotals.Fits (t : DailyTotals) : Prop :=
  t.total_items.natAbs < 2 ^ 63 ∧ FitsNumeric 16 t.total_sales ∧ FitsNumeric 16 t.paid_sales

instance (t : DailyTotals) : Decidable t.Fits := inferInstanceAs (Decidable (_ ∧ _))

/-- `case when payment_status = 'paid' then sales_amount else 0 end`. -/
def FactRow.paidAmount (f : FactRow) : Cents := if f.payment_status = .paid then f.sales_amount else 0

section Model

-- `day` is the cast `::date` in the time zone of the dbt session.
variable (day : Instant → Int)

/-- The fact belongs to the date. -/
def FactRow.isOn (f : FactRow) (date : Int) : Bool := decide (day f.order_date = date)

/-- The facts of a date. -/
def factsOn (facts : List FactRow) (date : Int) : List FactRow := facts.filter (fun f => f.isOn day date)

/-- `group by order_date::date`, the group of a date. -/
def dailyTotals (facts : List FactRow) (date : Int) : DailyTotals where
  total_orders := ((factsOn day facts date).map (fun f => f.order_id)).dedup.length
  total_items := ((factsOn day facts date).map (fun f => f.quantity)).sum
  total_sales := ((factsOn day facts date).map (fun f => f.sales_amount)).sum
  paid_sales := ((factsOn day facts date).map FactRow.paidAmount).sum

/-- A row of `daily_metrics`. -/
def dailyRow (facts : List FactRow) (date : Int) : DailyRow where
  toDailyTotals := dailyTotals day facts date
  sales_date := date
  max_source_loaded_at := factHighWater (factsOn day facts date)

/-- The high-water mark of `daily_sales`. -/
def dailyHighWater (daily : List DailyRow) : Instant :=
  highWater DailyRow.max_source_loaded_at beforeEveryLoad daily

/-- The facts above the mark of `daily_sales`. -/
def newFacts (facts : List FactRow) (daily : List DailyRow) : List FactRow :=
  newerThan (fun f => f.source_loaded_at) (dailyHighWater daily) facts

/-- `affected_dates`. -/
def affectedDates (facts : List FactRow) : Option (List DailyRow) → List Int
  | none => (facts.map (fun f => day f.order_date)).dedup
  | some daily => ((newFacts facts daily).map (fun f => day f.order_date) ++
      (newFacts facts daily).filterMap (fun f => f.previous_order_date.map day)).dedup

/-- `daily_metrics`: the affected dates that have facts; the casts raise when a total does not fit. -/
def dailyMetrics (facts : List FactRow) (dates : List Int) : Option (List DailyRow) :=
  let rows := (dates.filter (fun date => facts.any (·.isOn day date))).map (dailyRow day facts)
  if ∀ r ∈ rows, r.toDailyTotals.Fits then some rows else none

/-- The post-hook: `delete from daily_sales where not exists (..)`. -/
def deleteEmptyDates (facts : List FactRow) (daily : List DailyRow) : List DailyRow :=
  daily.filter (fun r => facts.any (·.isOn day r.sales_date))

/-- The first run creates the table, a later run merges by `sales_date`. -/
def writeDaily (metrics : List DailyRow) : Option (List DailyRow) → Option (List DailyRow)
  | none => some metrics
  | some daily => mergeOnce DailyRow.sales_date (fun _ _ => true) daily metrics

/-- One run of the model and its post-hook, in one transaction. -/
def buildDaily (facts : List FactRow) (daily : Option (List DailyRow)) : Option (List DailyRow) := do
  let metrics ← dailyMetrics day facts (affectedDates day facts daily)
  let merged ← writeDaily metrics daily
  some (deleteEmptyDates day facts merged)

/-! ## Builds -/

/-- The two tables, and `fact_sales` as it was when `daily_sales` last completed. -/
structure Marts where
  facts : Option (List FactRow)
  daily : Option (List DailyRow)
  built : List FactRow

/-- No build has run. -/
def Marts.fresh : Marts := ⟨none, none, []⟩

/-- What a `dbt build` reads, and whether it stops between the two models. -/
structure Build where
  versions : List CustomerVersion
  view : List SalesItem
  stops : Bool

/-- A build completes `daily_sales`: the fact merge and its tests pass, and nothing stops it. -/
def Completes (m : Marts) (b : Build) (facts : List FactRow) (daily : List DailyRow) : Prop :=
  buildFacts b.versions b.view m.facts = some facts ∧ b.stops = false ∧ UniqueGrain facts ∧
    buildDaily day facts m.daily = some daily

/-- What a build leaves. -/
def next (m : Marts) (b : Build) : Marts :=
  match buildFacts b.versions b.view m.facts with
  | none => m
  | some facts =>
    if b.stops = false ∧ UniqueGrain facts then
      match buildDaily day facts m.daily with
      | none => { m with facts := some facts }
      | some daily => ⟨some facts, some daily, facts⟩
    else { m with facts := some facts }

/-- Whether a build completes `daily_sales`. -/
def completes (m : Marts) (b : Build) : Bool :=
  match buildFacts b.versions b.view m.facts with
  | none => false
  | some facts =>
    decide (b.stops = false ∧ UniqueGrain facts) && (buildDaily day facts m.daily).isSome

/-- What builds one after another reach, if every completed one meets a condition on the tables
before it and on the merged facts. -/
inductive Built (ok : Marts → List FactRow → Prop) : Marts → Prop
  | fresh : Built ok Marts.fresh
  | build {m : Marts} (h : Built ok m) (b : Build)
      (hok : ∀ facts daily, Completes day m b facts daily → ok m facts) : Built ok (next day m b)

/-- One row for each date of `fact_sales`, with the totals of the whole table. -/
structure Reconciles (facts : List FactRow) (daily : List DailyRow) : Prop where
  unique : UniqueOn DailyRow.sales_date daily
  dates : ∀ date, (∃ r ∈ daily, r.sales_date = date) ↔ ∃ f ∈ facts, day f.order_date = date
  totals : ∀ r ∈ daily, r.toDailyTotals = dailyTotals day facts r.sales_date

/-- An item was on the date when `daily_sales` last completed and is on another date now. -/
def Left (m : Marts) (facts : List FactRow) (date : Int) : Prop :=
  ∃ old ∈ m.built, day old.order_date = date ∧
    ∃ new ∈ facts, new.order_item_id = old.order_item_id ∧ day new.order_date ≠ date

/-- Every date that was left has no fact any more, or a fact above the mark of `daily_sales` is on
it or carries it as its previous date. -/
def LeftDatesRemembered (m : Marts) (facts : List FactRow) : Prop :=
  ∀ date, Left day m facts date → (∀ f ∈ facts, day f.order_date ≠ date) ∨
    ∃ f ∈ newFacts facts (m.daily.getD []),
      day f.order_date = date ∨ f.previous_order_date.map day = some date

end Model

section Run

variable {day : Instant → Int} {facts built : List FactRow} {daily daily' : List DailyRow} {date : Int}

theorem any_isOn : facts.any (·.isOn day date) = true ↔ ∃ f ∈ facts, day f.order_date = date := by
  unfold FactRow.isOn
  simp

/-- `daily_sales` is the group-by of the facts, load times included. -/
structure Current (day : Instant → Int) (facts : List FactRow) (daily : List DailyRow) : Prop where
  unique : UniqueOn DailyRow.sales_date daily
  dates : ∀ date, (∃ r ∈ daily, r.sales_date = date) ↔ ∃ f ∈ facts, day f.order_date = date
  rows : ∀ r ∈ daily, r = dailyRow day facts r.sales_date

theorem Current.reconciles (h : Current day facts daily) : Reconciles day facts daily :=
  ⟨h.unique, h.dates, fun r hr => congrArg DailyRow.toDailyTotals (h.rows r hr)⟩

/-- The mark of `daily_sales` stays within that of the facts it aggregates. -/
theorem Current.dailyHighWater_le (h : Current day facts daily) :
    dailyHighWater daily ≤ factHighWater facts := by
  unfold dailyHighWater
  refine highWater_le ?_ ?_
  · intro hnil
    have hfacts : facts = [] := by
      refine List.eq_nil_iff_forall_not_mem.mpr fun f hf => ?_
      obtain ⟨r, hr, -⟩ := (h.dates (day f.order_date)).mpr ⟨f, hf, rfl⟩
      rw [hnil] at hr
      cases hr
    rw [hfacts]
    exact le_refl _
  · intro r hr
    obtain ⟨f, hf, hon⟩ := (h.dates r.sales_date).mp ⟨r, hr, rfl⟩
    rw [h.rows r hr]
    have hmem : f ∈ factsOn day facts r.sales_date := List.mem_filter.mpr ⟨hf, decide_eq_true hon⟩
    refine highWater_le (fun hnil => ?_) fun g hg => le_factHighWater (List.mem_of_mem_filter hg)
    rw [hnil] at hmem
    cases hmem

theorem dailyMetrics_eq_some {dates : List Int} {rows : List DailyRow}
    (h : dailyMetrics day facts dates = some rows) :
    rows = (dates.filter (fun date => facts.any (·.isOn day date))).map (dailyRow day facts) := by
  unfold dailyMetrics at h
  dsimp only at h
  split at h
  · exact (Option.some.inj h).symm
  · cases h

theorem nodup_affectedDates (daily : Option (List DailyRow)) :
    (affectedDates day facts daily).Nodup := by
  cases daily <;> exact List.nodup_dedup _

/-- The metrics of a date are those of the whole table. -/
theorem lookup_dailyMetrics {dates : List Int} {rows : List DailyRow}
    (h : dailyMetrics day facts dates = some rows) (hon : ∃ f ∈ facts, day f.order_date = date) :
    lookup DailyRow.sales_date rows date =
      if date ∈ dates then some (dailyRow day facts date) else none := by
  have hrows := dailyMetrics_eq_some h
  cases hl : lookup DailyRow.sales_date rows date with
  | none =>
    have hnot : date ∉ dates := by
      intro hd
      have hmem : dailyRow day facts date ∈ rows := by
        rw [hrows]
        exact List.mem_map_of_mem (List.mem_filter.mpr ⟨hd, any_isOn.mpr hon⟩)
      exact lookup_eq_none.mp hl _ hmem rfl
    rw [if_neg hnot]
  | some r =>
    have hr := mem_of_lookup hl
    rw [hrows] at hr
    obtain ⟨d, hd, rfl⟩ := List.mem_map.mp hr
    have hdate : d = date := key_of_lookup hl
    subst hdate
    rw [if_pos (List.mem_of_mem_filter hd)]

theorem unique_dailyMetrics {dates : List Int} {rows : List DailyRow} (hd : dates.Nodup)
    (h : dailyMetrics day facts dates = some rows) : UniqueOn DailyRow.sales_date rows := by
  rw [dailyMetrics_eq_some h]
  unfold UniqueOn
  rw [List.map_map]
  have hid : DailyRow.sales_date ∘ dailyRow day facts = id := rfl
  rw [hid, List.map_id]
  exact hd.filter _

/-- **What a run leaves**: each date that has facts is recomputed if affected, else as it was. -/
theorem lookup_buildDaily {old : Option (List DailyRow)}
    (hu : UniqueOn DailyRow.sales_date (old.getD [])) (h : buildDaily day facts old = some daily') :
    UniqueOn DailyRow.sales_date daily' ∧ (∀ r ∈ daily', ∃ f ∈ facts, day f.order_date = r.sales_date) ∧
      ∀ date, (∃ f ∈ facts, day f.order_date = date) →
        lookup DailyRow.sales_date daily' date =
          if date ∈ affectedDates day facts old then some (dailyRow day facts date)
          else lookup DailyRow.sales_date (old.getD []) date := by
  unfold buildDaily at h
  obtain ⟨metrics, hmetrics, h⟩ := Option.bind_eq_some_iff.mp h
  obtain ⟨merged, hmerged, h⟩ := Option.bind_eq_some_iff.mp h
  cases h
  have humetrics := unique_dailyMetrics (nodup_affectedDates old) hmetrics
  have heq : merged = mergeInto DailyRow.sales_date (fun _ _ => true) (old.getD []) metrics := by
    cases old with
    | none =>
      cases hmerged
      exact (List.filter_eq_self.mpr fun _ _ => rfl).symm
    | some daily => exact (mergeOnce_eq_some hmerged).2
  have humerged : UniqueOn DailyRow.sales_date merged := heq ▸ hu.mergeInto humetrics
  refine ⟨humerged.sublist List.filter_sublist, fun r hr => ?_, fun date hon => ?_⟩
  · exact any_isOn.mp (List.mem_filter.mp hr).2
  · unfold deleteEmptyDates
    rw [humerged.lookup_filter, heq, lookup_upsert, lookup_dailyMetrics hmetrics hon]
    have hkeep : ∀ x : Option DailyRow, (∀ r ∈ x, r.sales_date = date) →
        x.filter (fun r => facts.any (·.isOn day r.sales_date)) = x := by
      intro x hx
      cases x with
      | none => rfl
      | some r => rw [Option.filter_some, if_pos (any_isOn.mpr (by rwa [hx r rfl]))]
    rw [hkeep]
    · split <;> rfl
    · intro r hr
      split at hr
      · cases hr
        rfl
      · exact key_of_lookup hr

/-- The first run aggregates everything. -/
theorem buildDaily_first (h : buildDaily day facts none = some daily') : Current day facts daily' := by
  obtain ⟨hu, hfacts, hrow⟩ := lookup_buildDaily UniqueOn.nil h
  have hall : ∀ date, (∃ f ∈ facts, day f.order_date = date) →
      lookup DailyRow.sales_date daily' date = some (dailyRow day facts date) := by
    intro date hon
    have hmem : date ∈ affectedDates day facts none := by
      obtain ⟨f, hf, rfl⟩ := hon
      exact List.mem_dedup.mpr (List.mem_map_of_mem hf)
    rw [hrow date hon, if_pos hmem]
  refine ⟨hu, fun date => ⟨?_, fun hon => ?_⟩, fun r hr => ?_⟩
  · rintro ⟨r, hr, rfl⟩
    exact hfacts r hr
  · exact lookup_isSome.mp (by rw [hall date hon]; rfl)
  · exact Option.some.inj ((hu.lookup_self hr).symm.trans (hall _ (hfacts r hr)))

theorem mem_affectedDates : date ∈ affectedDates day facts (some daily) ↔
    ∃ f ∈ newFacts facts daily, day f.order_date = date ∨ f.previous_order_date.map day = some date := by
  unfold affectedDates
  rw [List.mem_dedup, List.mem_append, List.mem_map, List.mem_filterMap]
  constructor
  · rintro (⟨f, hf, h⟩ | ⟨f, hf, h⟩)
    · exact ⟨f, hf, Or.inl h⟩
    · exact ⟨f, hf, Or.inr h⟩
  · rintro ⟨f, hf, h | h⟩
    · exact Or.inl ⟨f, hf, h⟩
    · exact Or.inr ⟨f, hf, h⟩

/-- The fact table since `daily_sales` last completed. -/
abbrev FactsEvolved (mark : Instant) (built facts : List FactRow) : Prop :=
  Evolved (fun f : FactRow => f.order_item_id) (fun f => f.source_loaded_at) mark built facts

variable {m : Marts} {b : Build}

/-- A date that is not affected, and that nothing left for good, has the facts it had. -/
theorem factsOn_of_not_affected (hd : m.daily = some daily)
    (hev : FactsEvolved (dailyHighWater daily) m.built facts) (hleft : LeftDatesRemembered day m facts)
    (hon : ∃ f ∈ facts, day f.order_date = date) (hnot : date ∉ affectedDates day facts m.daily) :
    factsOn day facts date = factsOn day m.built date := by
  rw [hd, mem_affectedDates] at hnot
  unfold factsOn
  refine hev.filter_eq ?_ ?_
  · intro n hn hlt
    refine decide_eq_false fun hdate => hnot ⟨n, ?_, Or.inl hdate⟩
    exact mem_newerThan.mpr ⟨hn, hlt⟩
  · intro o ho n hn hk hodate
    refine decide_eq_true (by_contra fun hndate => ?_)
    rcases hleft date ⟨o, ho, of_decide_eq_true hodate, n, hn, hk, hndate⟩ with hempty | hnamed
    · obtain ⟨f, hf, hfdate⟩ := hon
      exact hempty f hf hfdate
    · rw [hd] at hnamed
      exact hnot hnamed

/-- **A run over an evolved fact table is right on every date.** -/
theorem buildDaily_current (hd : m.daily = some daily) (hcur : Current day m.built daily)
    (hev : FactsEvolved (dailyHighWater daily) m.built facts) (hleft : LeftDatesRemembered day m facts)
    (h : buildDaily day facts m.daily = some daily') : Current day facts daily' := by
  have hu : UniqueOn DailyRow.sales_date (m.daily.getD []) := by
    rw [hd]
    exact hcur.unique
  obtain ⟨hu', hfacts, hrow⟩ := lookup_buildDaily hu h
  have hall : ∀ date, (∃ f ∈ facts, day f.order_date = date) →
      lookup DailyRow.sales_date daily' date = some (dailyRow day facts date) := by
    intro date hon
    rw [hrow date hon]
    split
    · rfl
    · rename_i hnot
      have hsame := factsOn_of_not_affected hd hev hleft hon hnot
      have hbuilt : ∃ f ∈ m.built, day f.order_date = date := by
        obtain ⟨f, hf, hdate⟩ := hon
        have hmem : f ∈ factsOn day facts date := List.mem_filter.mpr ⟨hf, decide_eq_true hdate⟩
        rw [hsame] at hmem
        exact ⟨f, List.mem_of_mem_filter hmem, hdate⟩
      obtain ⟨r, hr, hdate⟩ := (hcur.dates date).mpr hbuilt
      have heq : dailyRow day facts date = dailyRow day m.built date := by
        unfold dailyRow dailyTotals
        rw [hsame]
      rw [hd, heq, ← hdate, ← hcur.rows r hr]
      exact hcur.unique.lookup_self hr
  refine ⟨hu', fun date => ⟨?_, fun hon => ?_⟩, fun r hr => ?_⟩
  · rintro ⟨r, hr, rfl⟩
    exact hfacts r hr
  · exact lookup_isSome.mp (by rw [hall date hon]; rfl)
  · exact Option.some.inj ((hu'.lookup_self hr).symm.trans (hall _ (hfacts r hr)))

/-- What holds between builds: `daily_sales` aggregates the facts of its last completed build, and
since then only facts above its mark were written. -/
def Marts.Inv (day : Instant → Int) (m : Marts) : Prop :=
  ∀ daily, m.daily = some daily → Current day m.built daily ∧
    ∃ facts, m.facts = some facts ∧ dailyHighWater daily ≤ factHighWater facts ∧
      FactsEvolved (dailyHighWater daily) m.built facts

/-- A merge of `fact_sales` alone. -/
theorem buildFacts_evolved {versions : List CustomerVersion} {view : List SalesItem} (hinv : m.Inv day)
    (h : buildFacts versions view m.facts = some facts) (hd : m.daily = some daily) :
    Current day m.built daily ∧ dailyHighWater daily ≤ factHighWater facts ∧
      FactsEvolved (dailyHighWater daily) m.built facts := by
  obtain ⟨hcur, old, hold, hle, hev⟩ := hinv daily hd
  rw [hold] at h
  obtain ⟨newer, hnewer, -, rfl⟩ := buildFacts_eq_some h
  have hnew : ∀ f ∈ newer, factHighWater old < f.source_loaded_at := fun f hf => (hnewer f hf).2
  refine ⟨hcur, hle.trans ?_, hev.mergeInto fun f hf => hle.trans_lt (hnew f hf)⟩
  exact highWater_le_mergeInto hnew fun _ _ _ _ _ => rfl

/-- What a completed build leaves. -/
theorem Completes.current (hinv : m.Inv day) (hc : Completes day m b facts daily)
    (hleft : LeftDatesRemembered day m facts) : Current day facts daily := by
  obtain ⟨hfacts, -, -, hdaily⟩ := hc
  cases hd : m.daily with
  | none =>
    rw [hd] at hdaily
    exact buildDaily_first hdaily
  | some old =>
    obtain ⟨hcur, -, hev⟩ := buildFacts_evolved hinv hfacts hd
    exact buildDaily_current hd hcur hev hleft hdaily

/-- The three ways a build ends. -/
theorem next_cases (day : Instant → Int) (m : Marts) (b : Build) : next day m b = m ∨
    (∃ facts, buildFacts b.versions b.view m.facts = some facts ∧
      next day m b = { m with facts := some facts }) ∨
    ∃ facts daily, Completes day m b facts daily ∧ next day m b = ⟨some facts, some daily, facts⟩ := by
  unfold next
  cases hfacts : buildFacts b.versions b.view m.facts with
  | none => exact Or.inl rfl
  | some facts =>
    refine Or.inr ?_
    dsimp only
    split
    · rename_i hgo
      cases hdaily : buildDaily day facts m.daily with
      | none => exact Or.inl ⟨facts, rfl, rfl⟩
      | some daily => exact Or.inr ⟨facts, daily, ⟨hfacts, hgo.1, hgo.2, hdaily⟩, rfl⟩
    · exact Or.inl ⟨facts, rfl, rfl⟩

theorem completes_eq_true (h : completes day m b = true) :
    ∃ facts daily, Completes day m b facts daily := by
  unfold completes at h
  cases hfacts : buildFacts b.versions b.view m.facts with
  | none =>
    rw [hfacts] at h
    cases h
  | some facts =>
    rw [hfacts] at h
    obtain ⟨hgo, hdaily⟩ := Bool.and_eq_true_iff.mp h
    obtain ⟨daily, hdaily⟩ := Option.isSome_iff_exists.mp hdaily
    exact ⟨facts, daily, hfacts, (of_decide_eq_true hgo).1, (of_decide_eq_true hgo).2, hdaily⟩

theorem Completes.next_eq (hc : Completes day m b facts daily) :
    next day m b = ⟨some facts, some daily, facts⟩ := by
  obtain ⟨hfacts, hstops, hunique, hdaily⟩ := hc
  unfold next
  rw [hfacts]
  dsimp only
  rw [if_pos ⟨hstops, hunique⟩, hdaily]

theorem Built.inv (h : Built day (LeftDatesRemembered day) m) : m.Inv day := by
  induction h with
  | fresh => exact fun _ hd => by cases hd
  | @build m _ b hok ih =>
    rcases next_cases day m b with hn | ⟨facts, hfacts, hn⟩ | ⟨facts, daily, hc, hn⟩
    · rw [hn]
      exact ih
    · rw [hn]
      intro daily hd
      obtain ⟨hcur, hle, hev⟩ := buildFacts_evolved ih hfacts hd
      exact ⟨hcur, facts, rfl, hle, hev⟩
    · rw [hn]
      have hcur := Completes.current ih hc (hok facts daily hc)
      intro daily' hd
      cases hd
      exact ⟨hcur, facts, rfl, hcur.dailyHighWater_le, Evolved.refl facts⟩

/-- **Every completed build reconciles**, in a history whose completed builds find every left date
empty or remembered. -/
theorem dailySales_reconciles (hrun : Built day (LeftDatesRemembered day) m)
    (hc : Completes day m b facts daily) (hleft : LeftDatesRemembered day m facts) :
    Reconciles day facts daily :=
  (Completes.current hrun.inv hc hleft).reconciles

/-- Only the dates of the last completed build can have been left. -/
theorem leftDatesRemembered_iff : LeftDatesRemembered day m facts ↔
    ∀ old ∈ m.built, (∃ new ∈ facts, new.order_item_id = old.order_item_id ∧
      day new.order_date ≠ day old.order_date) →
      (∀ f ∈ facts, day f.order_date ≠ day old.order_date) ∨
        ∃ f ∈ newFacts facts (m.daily.getD []), day f.order_date = day old.order_date ∨
          f.previous_order_date.map day = some (day old.order_date) := by
  constructor
  · intro h old hold hnew
    exact h _ ⟨old, hold, rfl, hnew⟩
  · rintro h date ⟨old, hold, rfl, hnew⟩
    exact h old hold hnew

instance : Decidable (LeftDatesRemembered day m facts) :=
  decidable_of_iff _ leftDatesRemembered_iff.symm

end Run

/-! ## Two orders of one day, one of which moves to the next -/

/-- One item of order `k`, ordered at `date` and loaded at `loaded`. -/
def soldItem (k : Uuid) (date loaded : Instant) : SalesItem where
  order_id := k
  order_item_id := k
  customer_id := 7
  product_id := 5
  order_date := date
  order_status := "confirmed"
  quantity := 1
  unit_price := 2000
  sales_amount := 2000
  payment_status := .unpaid
  payment_attempt_count := 0
  source_loaded_at := loaded

/-- A build that sees order 1 at `date`, loaded at `loaded`. -/
def ordersBuild (date loaded : Instant) (stops : Bool) : Build where
  versions := [⟨"v", 7, 0, none⟩]
  view := [soldItem 1 date loaded, soldItem 2 10 100]
  stops := stops

/-- The first build loads both orders on 1970-01-01, the second moves order 1 to the next day and
stops before `daily_sales`. -/
def movedOrder : Marts :=
  next toDate (next toDate Marts.fresh (ordersBuild 10 100 false)) (ordersBuild 86400000010 200 true)

theorem built_movedOrder {ok : Marts → List FactRow → Prop}
    (hfresh : ∀ facts, ok Marts.fresh facts) : Built toDate ok movedOrder := by
  unfold movedOrder
  refine Built.build (Built.build Built.fresh _ fun facts _ _ => hfresh facts) _ ?_
  intro _ _ hc
  cases hc.2.1

/-- The moved order is not merged again: its previous date names the day it left. -/
theorem dailySales_reconciles_moved : ∃ facts daily,
    Completes toDate movedOrder (ordersBuild 86400000010 200 false) facts daily ∧
      Reconciles toDate facts daily := by
  have hc : Completes toDate movedOrder (ordersBuild 86400000010 200 false) _ _ := ⟨rfl, rfl, by decide, rfl⟩
  have hrun : Built toDate (LeftDatesRemembered toDate) movedOrder :=
    built_movedOrder fun _ _ ⟨_, h, _⟩ => by cases h
  exact ⟨_, _, hc, dailySales_reconciles hrun hc (by decide)⟩

/-- **A left date is forgotten.**  Order 1 is merged again on its new date before `daily_sales`
runs; the day it left keeps two orders. -/
theorem dailySales_stale : Built toDate (fun _ _ => True) movedOrder ∧
    ∃ facts daily, Completes toDate movedOrder (ordersBuild 86400000010 300 false) facts daily ∧
      ¬ Reconciles toDate facts daily := by
  have hc : Completes toDate movedOrder (ordersBuild 86400000010 300 false) _ _ := ⟨rfl, rfl, by decide, rfl⟩
  refine ⟨built_movedOrder fun _ => trivial, _, _, hc, fun h => ?_⟩
  have htotals := h.totals _ List.mem_cons_self
  exact absurd htotals (by decide)

end LocalDataPlatform.Sales

import LocalDataPlatform.Stream.Views

/-!
# `current_orders` is the latest version of every order

Latest-wins is applied three times, with three orders: `dropDuplicates` on the event id, the
`row_number` window inside a batch and the `>=` guard of the merge.  Over any run of batches they
compose to one maximum that depends only on the set of events seen.

* `runBatches` — the batches a query completes, one after another; `seen` — the accepted events
  they carry, in any order and with any repetition.

Principal results: `runBatches_latest` (the table describes the set of events seen),
`currentOrders_latest` (one row for each order, with the data and id of its newest event, and no
batch lowers a stored version).
-/

set_option autoImplicit false

namespace LocalDataPlatform.Stream

open Relational

/-- The batches of a query, one after another. -/
def runBatches (sp : Spark) (t : Tables) (batches : List (Execution × List ParsedEvent)) : Tables :=
  batches.foldl (fun t b => mergeBatch sp b.1 b.2 t) t

/-- The accepted events of some batches. -/
def seen (batches : List (Execution × List ParsedEvent)) : Set OrderEvent :=
  {e | ∃ b ∈ batches, e ∈ eventsOf b.2}

theorem seen_cons {b : Execution × List ParsedEvent} {batches : List (Execution × List ParsedEvent)} :
    seen (b :: batches) = eventsOf b.2 ∪ seen batches := by
  ext e
  simp [seen]

/-- One batch adds its events to what the table describes. -/
theorem mergeBatch_latest {sp : Spark} {ex : Execution} {batch : List ParsedEvent} {t : Tables}
    {S : Set OrderEvent} (h : LatestOrders S t.currentOrders) (hid : EventIdentity (eventsOf batch)) :
    LatestOrders (S ∪ eventsOf batch) (mergeBatch sp ex batch t).currentOrders := by
  rw [mergeBatch_currentOrders]
  exact h.merge (currentUpdates_latest hid)

/-- **A run of batches describes the set of events seen.** -/
theorem runBatches_latest (sp : Spark) :
    ∀ (batches : List (Execution × List ParsedEvent)) (t : Tables) (S : Set OrderEvent),
      LatestOrders S t.currentOrders → EventIdentity (seen batches) →
      LatestOrders (S ∪ seen batches) (runBatches sp t batches).currentOrders
  | [], t, S, h, _ => by
    have hempty : seen [] = ∅ := by
      ext e
      simp [seen]
    rw [hempty, Set.union_empty]
    exact h
  | b :: batches, t, S, h, hid => by
    rw [seen_cons] at hid ⊢
    rw [← Set.union_assoc]
    exact runBatches_latest sp batches _ _
      (mergeBatch_latest h (hid.mono Set.subset_union_left)) (hid.mono Set.subset_union_right)

theorem runBatches_append (sp : Spark) (t : Tables) (done rest : List (Execution × List ParsedEvent)) :
    runBatches sp t (done ++ rest) = runBatches sp (runBatches sp t done) rest := by
  simp [runBatches]

/-- **`current_orders` holds the newest event of every order seen**, for every run of batches,
and no batch lowers the stored version of an order. -/
theorem currentOrders_latest (sp : Spark) (batches : List (Execution × List ParsedEvent))
    (hid : EventIdentity (seen batches)) :
    UniqueOn CurrentOrder.orderId (runBatches sp Tables.empty batches).currentOrders ∧
    (∀ o, (∃ row ∈ (runBatches sp Tables.empty batches).currentOrders, row.orderId = o) ↔
      ∃ e ∈ seen batches, e.orderId = o) ∧
    (∀ e, IsLatest OrderEvent.sourceVersion (ofOrder (seen batches) e.orderId) e →
      ∃ row ∈ (runBatches sp Tables.empty batches).currentOrders,
        row.order = e.order ∧ row.latestEventId = e.eventId) ∧
    (∀ done b rest, batches = done ++ b :: rest →
      ∀ row ∈ (runBatches sp Tables.empty done).currentOrders,
        ∃ row' ∈ (runBatches sp Tables.empty (done ++ [b])).currentOrders,
          row'.orderId = row.orderId ∧ row.order.sourceUpdatedAt ≤ row'.order.sourceUpdatedAt) := by
  have hlatest := runBatches_latest sp batches Tables.empty ∅ LatestOrders.empty hid
  rw [Set.empty_union] at hlatest
  refine ⟨hlatest.unique, fun o => ?_, fun e he => ?_, ?_⟩
  · rw [← lookup_isSome]
    have hrow := hlatest.row o
    cases hl : lookup CurrentOrder.orderId (runBatches sp Tables.empty batches).currentOrders o with
    | none =>
      rw [hl] at hrow
      simp only [Option.isSome_none, Bool.false_eq_true, false_iff]
      rintro ⟨e, he, ho⟩
      exact Set.eq_empty_iff_forall_notMem.mp hrow e ⟨he, ho⟩
    | some row =>
      rw [hl] at hrow
      obtain ⟨m, hm, -, -⟩ := hrow
      simp only [Option.isSome_some, true_iff]
      exact ⟨m, hm.mem.1, hm.mem.2⟩
  · have hrow := hlatest.row e.orderId
    cases hl : lookup CurrentOrder.orderId (runBatches sp Tables.empty batches).currentOrders
        e.orderId with
    | none =>
      rw [hl] at hrow
      exact absurd he.mem (Set.eq_empty_iff_forall_notMem.mp hrow e)
    | some row =>
      rw [hl] at hrow
      obtain ⟨m, hm, hdata, hmid⟩ := hrow
      -- one version of an order is one event id, so the stored event is the given one
      have heq : m.eventId = e.eventId :=
        (hid.version m hm.mem.1 e he.mem.1).mpr ⟨hm.mem.2, hm.stamp_eq he⟩
      have hord : m.order = e.order := hid.data m hm.mem.1 e he.mem.1 heq
      exact ⟨row, mem_of_lookup hl, hdata.trans hord, hmid.trans heq⟩
  · rintro done b rest rfl row hrow
    have hdone : EventIdentity (seen done) := by
      refine hid.mono ?_
      rintro e ⟨c, hc, he⟩
      exact ⟨c, List.mem_append_left _ hc, he⟩
    have hu := (runBatches_latest sp done Tables.empty ∅ LatestOrders.empty hdone).unique
    rw [runBatches_append]
    obtain ⟨row', hl', hle⟩ := sourceUpdatedAt_le_merge (currentUpdates b.1 b.2)
      (hu.lookup_self hrow)
    have hmerge : (runBatches sp (runBatches sp Tables.empty done) [b]).currentOrders =
        mergeInto CurrentOrder.orderId notOlder (runBatches sp Tables.empty done).currentOrders
          (currentUpdates b.1 b.2) := mergeBatch_currentOrders
    rw [hmerge]
    exact ⟨row', mem_of_lookup hl', key_of_lookup hl', hle⟩

/-! ## A late event after a newer one -/

/-- A parsed event of order `o1`, at version `version` and offset `offset`. -/
def sampleEvent (eventId : String) (status : String) (version : Instant) (offset : Int) :
    ParsedEvent where
  messageKey := some "o1"
  rawValue := none
  coord := ⟨"orders", 0, offset⟩
  kafkaTimestamp := 0
  eventId := some eventId
  eventType := some EVENT_TYPE
  schemaVersion := some SCHEMA_VERSION
  occurredAt := none
  producedAt := none
  orderId := some "o1"
  customerId := none
  status := some status
  totalAmount := none
  orderDate := none
  sourceUpdatedAt := some version
  ingestedAt := 0

/-- The newer version arrives first, then the older one, then the newer one again. -/
def lateBatches : List (Execution × List ParsedEvent) :=
  [(Execution.inOrder, [sampleEvent "e2" "shipped" 20 1]),
    (Execution.inOrder, [sampleEvent "e1" "pending" 10 0, sampleEvent "e2" "shipped" 20 2])]

/-- Identity of the events of a list of batches, checked event by event. -/
theorem eventIdentity_of_forall {batches : List (Execution × List ParsedEvent)}
    (h : ∀ a ∈ batches.flatMap (fun b => accepted b.2), ∀ b ∈ batches.flatMap (fun b => accepted b.2),
      (a.eventId = b.eventId ↔ a.orderId = b.orderId ∧ a.sourceVersion = b.sourceVersion) ∧
        (a.eventId = b.eventId → a.order = b.order)) : EventIdentity (seen batches) where
  version a ha b hb := (h a (List.mem_flatMap.mpr ha) b (List.mem_flatMap.mpr hb)).1
  data a ha b hb := (h a (List.mem_flatMap.mpr ha) b (List.mem_flatMap.mpr hb)).2

theorem currentOrders_latest_late :
    ∃ row ∈ (runBatches (Spark.onTexts [] [] []) Tables.empty lateBatches).currentOrders,
      row.orderId = "o1" := by
  have hlatest := currentOrders_latest (Spark.onTexts [] [] []) lateBatches
    (eventIdentity_of_forall (by decide))
  refine (hlatest.2.1 "o1").mpr ?_
  have hseen : ∃ e ∈ lateBatches.flatMap (fun b => accepted b.2), e.orderId = "o1" := by decide
  obtain ⟨e, he, ho⟩ := hseen
  exact ⟨e, List.mem_flatMap.mp he, ho⟩

end LocalDataPlatform.Stream

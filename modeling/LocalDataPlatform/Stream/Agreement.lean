import LocalDataPlatform.Stream.Producer
import LocalDataPlatform.Stream.Replay

/-!
# Whether `current_orders` agrees with `order_events`

`order_events` keeps the first event of an id, `current_orders` takes the last event that is not older
than its row, and each commit deduplicates the batch for itself. They agree as long as no event that takes
the row of its order carries other order data than the history has, or is given, under its id.

* `ViewsAgree` — each row of `current_orders` is the order data of its event in `order_events`.
* `Takes`, `KeepsPayload` — the events that take the row of their order, and the condition on an attempt.

Principal results: `agree_run_iff` (one attempt), `views_agree_iff` (over every run of attempts),
`republish_disagrees` (an order published again with other data and the same `updated_at`).
-/

set_option autoImplicit false

namespace LocalDataPlatform.Stream

open Relational Text

/-- Each row of `current_orders` has its event in `order_events`, with the same order data. -/
def ViewsAgree (t : Tables) : Prop :=
  ∀ row ∈ t.currentOrders, ∃ e ∈ t.orderEvents, e.eventId = row.latestEventId ∧ e.order = row.order

/-- The event is kept for its id, ranks first for its order, and the row of the order is not newer. -/
def Takes (ex : Execution) (batch : List ParsedEvent) (t : Tables) (e : OrderEvent) : Prop :=
  e ∈ ex.firstRanked (valid ex .currentOrders batch) ∧
    ∀ row ∈ t.currentOrders, row.orderId = e.orderId → row.order.sourceUpdatedAt ≤ e.sourceVersion

/-- An event that takes the row of its order carries the data that the history has under its id, or, if
the id is new, the data of the event that the commit of `order_events` keeps for it. -/
def KeepsPayload (sp : Spark) (t : Tables) (a : Attempt) : Prop :=
  a.committed 1 → ∀ e, Takes a.execution (a.batch sp) t e →
    (∀ h ∈ t.orderEvents, h.eventId = e.eventId → h.order = e.order) ∧
      ((∀ h ∈ t.orderEvents, h.eventId ≠ e.eventId) →
        ∀ h ∈ valid a.execution .orderEvents (a.batch sp), h.eventId = e.eventId → h.order = e.order)

/-- One row for each event id, and one for each order. -/
structure UniqueViews (t : Tables) : Prop where
  orderEvents : UniqueOn OrderEvent.eventId t.orderEvents
  currentOrders : UniqueOn CurrentOrder.orderId t.currentOrders

section Step

variable {sp : Spark} {a : Attempt} {t : Tables}

theorem UniqueViews.run (h : UniqueViews t) : UniqueViews (a.run sp t) := by
  obtain ⟨hevents, horders, -⟩ := run_cases sp t a
  constructor
  · rcases hevents with ⟨-, he⟩ | ⟨-, he⟩ <;> rw [he]
    · exact h.orderEvents.insertNew (a.execution.kept_unique _ _)
    · exact h.orderEvents
  · rcases horders with ⟨-, he⟩ | ⟨-, he⟩ <;> rw [he]
    · exact h.currentOrders.mergeInto currentUpdates_unique
    · exact h.currentOrders

/-- The history only grows. -/
theorem mem_orderEvents_run {e : OrderEvent} (h : e ∈ t.orderEvents) : e ∈ (a.run sp t).orderEvents := by
  obtain ⟨hevents, -, -⟩ := run_cases sp t a
  rcases hevents with ⟨-, he⟩ | ⟨-, he⟩ <;> rw [he]
  · exact mem_insertNew_of_mem h
  · exact h

/-- An attempt that commits `current_orders` has committed `order_events`. -/
theorem committed_zero (h : a.committed 1) : a.committed 0 := fun n hn => Nat.zero_lt_of_lt (h n hn)

/-- An event that the commit of `order_events` keeps for its id is in the history, unless one of its id was
there. -/
theorem exists_orderEvent_run {e : OrderEvent} (hc : a.committed 0)
    (he : e ∈ valid a.execution .orderEvents (a.batch sp)) :
    e ∈ (a.run sp t).orderEvents ∨ ∃ h ∈ t.orderEvents, h.eventId = e.eventId := by
  obtain ⟨hevents, -, -⟩ := run_cases sp t a
  rcases hevents with ⟨-, hrun⟩ | ⟨hnot, -⟩
  · by_cases hold : ∃ h ∈ t.orderEvents, h.eventId = e.eventId
    · exact Or.inr hold
    · left
      rw [hrun]
      exact mem_mergeInto_of_taken (a.execution.kept_unique _ _) he
        fun h hmem hk => absurd ⟨h, hmem, hk⟩ hold
  · exact absurd hc hnot

/-- An event that takes the row of its order is there afterwards. -/
theorem mem_currentOrders_run {e : OrderEvent} (hc : a.committed 1)
    (htakes : Takes a.execution (a.batch sp) t e) : currentOrder e ∈ (a.run sp t).currentOrders := by
  obtain ⟨-, horders, -⟩ := run_cases sp t a
  rcases horders with ⟨-, hrun⟩ | ⟨hnot, -⟩
  · rw [hrun]
    exact mem_mergeInto_of_taken currentUpdates_unique (List.mem_map_of_mem htakes.1)
      fun row hrow hk => decide_eq_true (htakes.2 row hrow hk)
  · exact absurd hc hnot

/-- What the rows of `current_orders` are after an attempt. -/
theorem currentOrders_run_cases {row : CurrentOrder} (h : UniqueViews t)
    (hrow : row ∈ (a.run sp t).currentOrders) : row ∈ t.currentOrders ∨
      a.committed 1 ∧ ∃ e, Takes a.execution (a.batch sp) t e ∧ row = currentOrder e := by
  obtain ⟨-, horders, -⟩ := run_cases sp t a
  rcases horders with ⟨hc, hrun⟩ | ⟨-, hrun⟩
  · rw [hrun] at hrow
    rcases mem_mergeInto_cases h.currentOrders currentUpdates_unique hrow with hrow | ⟨hrow, htaken⟩
    · exact Or.inl hrow
    · obtain ⟨e, he, rfl⟩ := List.mem_map.mp hrow
      exact Or.inr ⟨hc, e, ⟨he, fun row' hrow' hk => of_decide_eq_true (htaken row' hrow' hk)⟩, rfl⟩
  · rw [hrun] at hrow
    exact Or.inl hrow

/-- **One attempt keeps the views in agreement exactly if it keeps the payloads.** -/
theorem agree_run_iff (hunique : UniqueViews t) (h : ViewsAgree t) :
    ViewsAgree (a.run sp t) ↔ KeepsPayload sp t a := by
  constructor
  · intro hagree hc e htakes
    obtain ⟨e', he', hid, horder⟩ := hagree _ (mem_currentOrders_run hc htakes)
    have hid : e'.eventId = e.eventId := hid
    -- the history has one event under the id
    have hsame : ∀ old ∈ (a.run sp t).orderEvents, old.eventId = e.eventId → old.order = e.order := by
      intro old hold hk
      rw [(@UniqueViews.run sp a t hunique).orderEvents.eq_of_key hold he' (hk.trans hid.symm)]
      exact horder
    refine ⟨fun old hold hk => hsame old (mem_orderEvents_run hold) hk, fun hnew kept hkept hk => ?_⟩
    rcases exists_orderEvent_run (committed_zero hc) hkept with hin | ⟨old, hold, hko⟩
    · exact hsame kept hin hk
    · exact absurd (hko.trans hk) (hnew old hold)
  · intro hkeeps row hrow
    rcases currentOrders_run_cases hunique hrow with hrow | ⟨hc, e, htakes, rfl⟩
    · obtain ⟨e, he, hid, horder⟩ := h row hrow
      exact ⟨e, mem_orderEvents_run he, hid, horder⟩
    · obtain ⟨hheld, hnew⟩ := hkeeps hc e htakes
      by_cases hold : ∃ old ∈ t.orderEvents, old.eventId = e.eventId
      · obtain ⟨old, hold, hk⟩ := hold
        exact ⟨old, mem_orderEvents_run hold, hk, hheld old hold hk⟩
      · -- the id is new, and the commit of the history keeps an event of the batch for it
        have haccepted := mem_valid (a.execution.ranked_mem htakes.1)
        obtain ⟨kept, hkept, hk⟩ := a.execution.kept_cover .orderEvents haccepted
        have hnone : ∀ old ∈ t.orderEvents, old.eventId ≠ e.eventId :=
          fun old hmem hko => hold ⟨old, hmem, hko⟩
        refine ⟨kept, ?_, hk, hnew hnone kept hkept hk⟩
        exact (exists_orderEvent_run (committed_zero hc) hkept).resolve_right
          fun ⟨old, hmem, hko⟩ => hnone old hmem (hko.trans hk)

/-- An attempt keeps the payloads when the id of an event, in the batch or in the history, tells its data. -/
theorem keepsPayload_of_data (h : ∀ x, x ∈ t.orderEvents ∨ x ∈ accepted (a.batch sp) →
    ∀ y ∈ accepted (a.batch sp), x.eventId = y.eventId → x.order = y.order) : KeepsPayload sp t a := by
  intro _ e htakes
  have he : e ∈ accepted (a.batch sp) := mem_valid (a.execution.ranked_mem htakes.1)
  exact ⟨fun old hold hk => h old (Or.inl hold) e he hk,
    fun _ kept hkept hk => h kept (Or.inr (mem_valid hkept)) e he hk⟩

end Step

/-! ## Runs -/

section Run

variable {sp : Spark}

theorem runAttempts_append (sp : Spark) (t : Tables) (done : List Attempt) (a : Attempt) :
    runAttempts sp t (done ++ [a]) = a.run sp (runAttempts sp t done) := by
  unfold runAttempts
  rw [List.foldl_append]
  rfl

theorem uniqueViews_runAttempts (attempts : List Attempt) :
    UniqueViews (runAttempts sp Tables.empty attempts) := by
  induction attempts using List.reverseRecOn with
  | nil => exact ⟨UniqueOn.nil, UniqueOn.nil⟩
  | append_singleton done a ih =>
    rw [runAttempts_append]
    exact ih.run

/-- **Over every run of attempts, completed or not, the views agree exactly as long as every attempt keeps
the payloads.** -/
theorem views_agree_iff (sp : Spark) (attempts : List Attempt) :
    (∀ done, done <+: attempts → ViewsAgree (runAttempts sp Tables.empty done)) ↔
      ∀ done a, done ++ [a] <+: attempts → KeepsPayload sp (runAttempts sp Tables.empty done) a := by
  constructor
  · intro h done a hprefix
    have hbefore := h done ((List.prefix_append done [a]).trans hprefix)
    refine (agree_run_iff (uniqueViews_runAttempts done) hbefore).mp ?_
    rw [← runAttempts_append]
    exact h _ hprefix
  · intro h done hprefix
    induction done using List.reverseRecOn with
    | nil => exact fun row hrow => absurd hrow List.not_mem_nil
    | append_singleton done a ih =>
      rw [runAttempts_append]
      refine (agree_run_iff (uniqueViews_runAttempts done) ?_).mpr (h done a hprefix)
      exact ih ((List.prefix_append done [a]).trans hprefix)

end Run

/-! ## An order that changes without a new `updated_at` -/

section Republish

variable {sp : Spark} {uuid5 : String → Uuid} {row row' : StagingOrder} {message message' : Message}
variable {produced_at produced_at' : Datetime} {a a' : Attempt}

/-- The order data an event of a row carries. -/
def orderFacts (row : StagingOrder) (updated_at : Datetime) : OrderFacts where
  orderId := uuidText row.orderId
  customerId := row.customerId.map uuidText
  status := row.status
  totalAmount := row.totalAmount.map Subtype.val
  orderDate := row.orderDate.map fun d : Datetime => d.instant
  sourceUpdatedAt := updated_at.instant

/-- The columns an event takes from its record. -/
theorem columns_orderEvent {e : ParsedEvent} {v : OrderEvent} (h : e.orderEvent = some v) :
    e.eventId = some v.eventId ∧ e.orderId = some v.order.orderId ∧ e.customerId = v.order.customerId ∧
      e.status = v.order.status ∧ e.totalAmount = v.order.totalAmount ∧ e.orderDate = v.order.orderDate ∧
      e.sourceUpdatedAt = some v.order.sourceUpdatedAt := by
  unfold ParsedEvent.orderEvent at h
  split at h
  · rename_i hid _ _ horder hupdated
    cases h
    exact ⟨hid, horder, rfl, rfl, rfl, rfl, hupdated⟩
  · cases h

/-- The event is that of the row. -/
def EventOf (uuid5 : String → Uuid) (row : StagingOrder) (e : OrderEvent) : Prop :=
  ∃ updated_at, row.updatedAt = some updated_at ∧
    e.eventId = uuidText (eventId uuid5 row.orderId updated_at) ∧ e.order = orderFacts row updated_at

/-- A message of a row is read as the event of the row. -/
theorem eventOf_publishRow (hsp : sp.Documented) (h : publishRow uuid5 produced_at row = .ok message)
    {now timestamp : Instant} {coord : Coord} {e : OrderEvent}
    (he : (parseKafkaEvent sp now (message.record coord timestamp)).orderEvent = some e) :
    EventOf uuid5 row e := by
  have hdecodes := decodes_publishRow hsp h now coord timestamp
  obtain ⟨hid, horder, hcustomer, hstatus, hamount, hdate, hsource⟩ := columns_orderEvent he
  have hupdated := hdecodes.sourceUpdatedAt.symm.trans hsource
  obtain ⟨updated_at, hrow, hinstant⟩ := Option.map_eq_some_iff.mp hupdated
  refine ⟨updated_at, hrow, ?_, ?_⟩
  · have hboth := hid.symm.trans hdecodes.eventId
    rw [hrow] at hboth
    exact Option.some.inj hboth
  · have hfacts : e.order = ⟨e.order.orderId, e.order.customerId, e.order.status, e.order.totalAmount,
        e.order.orderDate, e.order.sourceUpdatedAt⟩ := rfl
    rw [hfacts, Option.some.inj (horder.symm.trans hdecodes.orderId), ← hcustomer, hdecodes.customerId,
      ← hstatus, hdecodes.status, ← hamount, hdecodes.totalAmount, ← hdate, hdecodes.orderDate, ← hinstant]
    rfl

/-- An attempt at the message of a row has one event, that of the row. -/
theorem exists_accepted (hsp : sp.Documented) (h : publishRow uuid5 produced_at row = .ok message)
    {coord : Coord} {timestamp : Instant} (ha : a.records = [message.record coord timestamp]) :
    ∃ e, EventOf uuid5 row e ∧ ∀ x, x ∈ accepted (a.batch sp) ↔ x = e := by
  have hvalid := (decodes_publishRow hsp h a.now coord timestamp).isValid
  obtain ⟨e, he⟩ := orderEvent_of_isValid hvalid
  refine ⟨e, eventOf_publishRow hsp h he, fun x => ?_⟩
  have hbatch : a.batch sp = [parseKafkaEvent sp a.now (message.record coord timestamp)] := by
    unfold Attempt.batch parseKafkaEvents
    rw [ha]
    rfl
  rw [mem_accepted, hbatch]
  constructor
  · rintro ⟨e', he', -, hx⟩
    rw [List.mem_singleton.mp he', he] at hx
    exact (Option.some.inj hx).symm
  · rintro rfl
    exact ⟨_, List.mem_singleton_self _, hvalid, he⟩

/-- The only event of a batch is kept for every action. -/
theorem mem_valid_of_single {ex : Execution} {batch : List ParsedEvent} {e : OrderEvent}
    (h : ∀ x, x ∈ accepted batch ↔ x = e) (reader : ValidReader) : e ∈ valid ex reader batch := by
  obtain ⟨kept, hkept, -⟩ := ex.kept_cover reader ((h e).mpr rfl)
  have hsame : kept = e := (h kept).mp (ex.kept_mem hkept)
  exact hsame ▸ hkept

/-- The only event of a batch ranks first. -/
theorem mem_firstRanked_of_single {ex : Execution} {batch : List ParsedEvent} {e : OrderEvent}
    (h : ∀ x, x ∈ accepted batch ↔ x = e) : e ∈ ex.firstRanked (valid ex .currentOrders batch) := by
  obtain ⟨first, hfirst, -⟩ := ex.ranked_cover (mem_valid_of_single h .currentOrders)
  have hsame : first = e := (h first).mp (mem_valid (ex.ranked_mem hfirst))
  exact hsame ▸ hfirst

/-- **An order published again with other data and the same `updated_at` makes the views disagree.** -/
theorem republish_disagrees (hsp : sp.Documented) (h : publishRow uuid5 produced_at row = .ok message)
    (h' : publishRow uuid5 produced_at' row' = .ok message') (horder : row'.orderId = row.orderId)
    (hupdated : row'.updatedAt = row.updatedAt) (hdiffers : ∀ d, orderFacts row d ≠ orderFacts row' d)
    {coord coord' : Coord} {timestamp timestamp' : Instant}
    (ha : a.records = [message.record coord timestamp])
    (ha' : a'.records = [message'.record coord' timestamp']) (hc : a.committed 1) (hc' : a'.committed 1) :
    ViewsAgree (a.run sp Tables.empty) ∧ ¬ ViewsAgree (a'.run sp (a.run sp Tables.empty)) := by
  obtain ⟨e, ⟨d, hd, hid, hdata⟩, honly⟩ := exists_accepted hsp h ha
  obtain ⟨e', ⟨d', hd', hid', hdata'⟩, honly'⟩ := exists_accepted hsp h' ha'
  have hsame : d' = d := Option.some.inj (hd'.symm.trans (hupdated.trans hd))
  subst hsame
  have hempty : UniqueViews Tables.empty := ⟨UniqueOn.nil, UniqueOn.nil⟩
  have hagree : ViewsAgree (a.run sp Tables.empty) := by
    refine (agree_run_iff hempty fun row hrow => absurd hrow List.not_mem_nil).mpr ?_
    refine keepsPayload_of_data fun x hx y hy _ => ?_
    have hx : x = e := (honly x).mp (hx.resolve_left List.not_mem_nil)
    rw [hx, (honly y).mp hy]
  have hhistory : e ∈ (a.run sp Tables.empty).orderEvents := by
    have hkept : e ∈ valid a.execution .orderEvents (a.batch sp) := mem_valid_of_single honly _
    exact (exists_orderEvent_run (committed_zero hc) hkept).resolve_right
      fun ⟨old, hold, _⟩ => absurd hold List.not_mem_nil
  -- the row of the order is as old as the event that comes again
  have htakes : Takes a'.execution (a'.batch sp) (a.run sp Tables.empty) e' := by
    refine ⟨mem_firstRanked_of_single honly', fun current hcurrent _ => ?_⟩
    rcases currentOrders_run_cases hempty hcurrent with hcurrent | ⟨-, first, hfirst, rfl⟩
    · exact absurd hcurrent List.not_mem_nil
    · have hfirst : first = e := (honly first).mp (mem_valid (a.execution.ranked_mem hfirst.1))
      rw [hfirst]
      unfold currentOrder OrderEvent.sourceVersion
      rw [hdata, hdata']
      exact le_rfl
  refine ⟨hagree, fun hagree' => ?_⟩
  have hkeeps := (agree_run_iff hempty.run hagree).mp hagree'
  have hfacts := (hkeeps hc' e' htakes).1 e hhistory (by rw [hid, hid', horder])
  rw [hdata, hdata'] at hfacts
  exact hdiffers d' hfacts

/-- An order with a given status. -/
def sampleOrder (status : String) : StagingOrder :=
  ⟨1, some 7, some status, some ⟨1000, by decide⟩, some sampleDate, some sampleUpdate⟩

/-- A completed attempt at one message. -/
def attemptOn (message : Message) (offset : Int) : Attempt :=
  ⟨[message.record ⟨"orders", 0, offset⟩ offset], Execution.inOrder, offset, none⟩

/-- The order ships, its `updated_at` stays, and a backfill publishes it again. -/
theorem views_agree_republished :
    ∃ first second, publishRow (fun _ => 9) sampleUpdate (sampleOrder "pending") = .ok first ∧
      publishRow (fun _ => 9) sampleUpdate (sampleOrder "shipped") = .ok second ∧
      ¬ ViewsAgree (runAttempts Spark.reading Tables.empty [attemptOn first 0, attemptOn second 1]) := by
  obtain ⟨first, hfirst⟩ : ∃ m, publishRow (fun _ => 9) sampleUpdate (sampleOrder "pending") = .ok m :=
    ⟨_, publishRow_eq rfl⟩
  obtain ⟨second, hsecond⟩ : ∃ m, publishRow (fun _ => 9) sampleUpdate (sampleOrder "shipped") = .ok m :=
    ⟨_, publishRow_eq rfl⟩
  have hstatus : some "pending" ≠ some "shipped" := by decide
  have hdiffers : ∀ d, orderFacts (sampleOrder "pending") d ≠ orderFacts (sampleOrder "shipped") d :=
    fun d h => hstatus (congrArg OrderFacts.status h)
  have hcommitted : ∀ message offset, (attemptOn message offset).committed 1 := fun _ _ _ h => by cases h
  exact ⟨first, second, hfirst, hsecond, (republish_disagrees Spark.reading_documented hfirst hsecond rfl rfl
    hdiffers rfl rfl (hcommitted first 0) (hcommitted second 1)).2⟩

end Republish

end LocalDataPlatform.Stream

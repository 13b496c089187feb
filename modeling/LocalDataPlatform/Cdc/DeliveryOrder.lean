import LocalDataPlatform.Cdc.Silver

/-!
# Silver does not depend on delivery order or repetition

* `CustomerRecord` — a record with a key whose event, if it has one, is a complete r, c, u or d
  event of that key.
* `CustomerRecords` — such records, at distinct positions, each customer in one partition.
* `runBatches` — batches of deliveries, one transaction after another.

Principal results: `brings_carries` (what Silver takes from a complete event), `version_injOn` (one
version of a customer is one record), `runBatches_reflects` (after any deliveries of a set of
records Silver reflects that set), `silver_order_independent`.
-/

set_option autoImplicit false

namespace LocalDataPlatform.Cdc

open Relational

/-! ## Complete records -/

/-- A complete data event of the customer `key`. -/
structure CompleteEvent (key : Uuid) (event : ChangeEvent) : Prop where
  lsn : ∃ lsn, event.lsn = some lsn
  op : event.op = .known .d ∨
    (event.op = .known .r ∨ event.op = .known .c ∨ event.op = .known .u) ∧
      ∃ after, event.after = some after ∧ after.customerId = key

/-- A record of the customers topic: a complete data event or a tombstone, under a key. -/
structure CustomerRecord (m : Message) : Prop where
  keyed : ∃ key, m.key = some key
  event : ∀ key event, m.key = some key → m.value = some event → CompleteEvent key event

/-- Records at distinct positions, all records of a customer in one partition. -/
structure CustomerRecords (S : Set Message) : Prop where
  record : ∀ m ∈ S, CustomerRecord m
  position : ∀ m ∈ S, ∀ m' ∈ S, m.coord = m'.coord → m = m'
  partition : ∀ m ∈ S, ∀ m' ∈ S, m.key = m'.key → m.partition = m'.partition

/-- What Silver takes from a data event. -/
structure CarriesRow (m : Message) (event : ChangeEvent) (row : SilverRow) : Prop where
  value : m.value = some event
  key : m.key = some row.customerId
  lsn : event.lsn = some row.sourceLsn
  tsMs : row.sourceTsMs = event.tsMs
  op : event.op = .known row.sourceOperation
  coord : row.coord = m.coord
  deleted : row.isDeleted = decide (row.sourceOperation = .d)
  after : row.isDeleted = false → event.after = some ⟨row.customerId, row.attributes⟩

section Record

variable {m : Message} {key : Uuid} {event : ChangeEvent} {row : SilverRow}

theorem carries_deleted {lsn : Int} (hk : m.key = some key) (hv : m.value = some event)
    (hl : event.lsn = some lsn) (ho : event.op = .known .d) :
    Brings m (deletedRow m event key lsn) ∧ CarriesRow m event (deletedRow m event key lsn) := by
  refine ⟨⟨key, hk, ?_⟩, ⟨hv, hk, hl, rfl, ho, rfl, rfl, fun h => nomatch h⟩⟩
  simp only [silverRow, hv, hl, ho]

theorem carries_live {lsn : Int} {operation : Operation} {after : Customer}
    (hk : m.key = some after.customerId) (hv : m.value = some event) (hl : event.lsn = some lsn)
    (ho : event.op = .known operation) (hop : operation = .r ∨ operation = .c ∨ operation = .u)
    (ha : event.after = some after) :
    Brings m (liveRow m event operation lsn after) ∧
      CarriesRow m event (liveRow m event operation lsn after) := by
  refine ⟨⟨_, hk, ?_⟩, ⟨hv, hk, hl, rfl, ho, rfl, ?_, fun _ => ha⟩⟩
  · rcases hop with rfl | rfl | rfl <;> simp only [silverRow, hv, hl, ho, ha]
  · rcases hop with rfl | rfl | rfl <;> rfl

/-- **A complete data event brings one row, and its columns are those of the event.** -/
theorem CustomerRecord.exists_carries (h : CustomerRecord m) (hv : m.value = some event) :
    ∃ row, Brings m row ∧ CarriesRow m event row := by
  obtain ⟨key, hk⟩ := h.keyed
  obtain ⟨⟨lsn, hl⟩, hop⟩ := h.event key event hk hv
  rcases hop with ho | ⟨ho, after, ha, rfl⟩
  · exact ⟨_, carries_deleted hk hv hl ho⟩
  · rcases ho with ho | ho | ho
    · exact ⟨_, carries_live hk hv hl ho (Or.inl rfl) ha⟩
    · exact ⟨_, carries_live hk hv hl ho (Or.inr (Or.inl rfl)) ha⟩
    · exact ⟨_, carries_live hk hv hl ho (Or.inr (Or.inr rfl)) ha⟩

theorem CustomerRecord.brings_carries (h : CustomerRecord m) (hb : Brings m row) :
    ∃ event, CarriesRow m event row := by
  cases hv : m.value with
  | none =>
    obtain ⟨key, -, hs⟩ := hb
    simp only [silverRow, hv] at hs
    cases hs
  | some event =>
    obtain ⟨row', hb', hc⟩ := h.exists_carries hv
    rw [brings_unique hb hb']
    exact ⟨event, hc⟩

theorem CustomerRecord.readable (h : CustomerRecord m) : Readable m := by
  refine ⟨h.keyed, ?_, ?_⟩
  · cases hv : m.value with
    | none => exact ⟨_, rfl⟩
    | some event =>
      obtain ⟨row, -, hc⟩ := h.exists_carries hv
      simp only [bronzeOperation, hc.op]
      exact ⟨_, rfl⟩
  · intro key hk
    cases hv : m.value with
    | none => exact ⟨none, by simp only [silverRow, hv]⟩
    | some event =>
      obtain ⟨row, ⟨key', hk', hs⟩, -⟩ := h.exists_carries hv
      rw [hk] at hk'
      cases hk'
      exact ⟨some row, hs⟩

end Record

/-- **One version of a customer is one record.** -/
theorem version_injOn {S : Set Message} (hS : CustomerRecords S) (id : Uuid) :
    Set.InjOn SilverRow.version (ofCustomer (brought S) id) := by
  rintro row ⟨⟨m, hm, hb⟩, hid⟩ row' ⟨⟨m', hm', hb'⟩, hid'⟩ hver
  obtain ⟨event, hc⟩ := (hS.record m hm).brings_carries hb
  obtain ⟨event', hc'⟩ := (hS.record m' hm').brings_carries hb'
  have hpart := hS.partition m hm m' hm' (by rw [hc.key, hc'.key, hid, hid'])
  have hoff : row.coord.offset = row'.coord.offset := congrArg (fun v => (ofLex v).2) hver
  rw [hc.coord, hc'.coord] at hoff
  have hcoord : m.coord = m'.coord := by
    simp only [Message.partition, TopicPartition.mk.injEq] at hpart
    cases hmc : m.coord
    cases hmc' : m'.coord
    simp_all
  have hmm := hS.position m hm m' hm' hcoord
  subst hmm
  exact brings_unique hb hb'

/-! ## Batches of deliveries -/

/-- Batches of deliveries, one transaction after another. -/
def runBatches (store : Store) (batches : List (List Message)) : Except String Store :=
  batches.foldlM (fun store batch => (processBatch store batch).map (·.store)) store

section Run

variable {S : Set Message} {batches : List (List Message)} {store : Store}

theorem map_ok {result : Except String BatchResult} (h : result.map (·.store) = .ok store) :
    ∃ r, result = .ok r ∧ r.store = store := by
  cases result with
  | error text => cases h
  | ok r => exact ⟨r, rfl, Except.ok.inj h⟩

theorem runBatches_materialized (h : runBatches Store.empty batches = .ok store) :
    Materialized batches.flatten store := by
  refine Runs.foldlM_invariant (P := fun (done : List (List Message)) store =>
    Materialized done.flatten store) ?_ batches [] Materialized.empty h
  intro done batch store store' hdone hturn
  obtain ⟨result, hok, rfl⟩ := map_ok hturn
  rw [List.flatten_append, List.flatten_singleton]
  exact processBatch_materialized hdone hok

/-- **After any deliveries of a set of records Silver reflects that set.** -/
theorem runBatches_reflects (hS : CustomerRecords S) (hset : ∀ m, m ∈ batches.flatten ↔ m ∈ S) :
    ∃ store, runBatches Store.empty batches = .ok store ∧ Reflects (brought S) store.silver := by
  have hok : ∃ store, runBatches Store.empty batches = .ok store := by
    refine Runs.foldlM_total batches _ fun batch hb store => ?_
    have hread : ∀ m ∈ batch, Readable m := fun m hm =>
      (hS.record m ((hset m).mp (List.mem_flatten.mpr ⟨batch, hb, hm⟩))).readable
    obtain ⟨result, hr⟩ := processBatch_ok hread store
    exact ⟨result.store, by rw [hr]; rfl⟩
  obtain ⟨store, hrun⟩ := hok
  have hfirst : {m | m ∈ firstDeliveries batches.flatten} = S := by
    ext m
    constructor
    · exact fun hm => (hset m).mp (mem_firstDeliveries hm)
    · intro hm
      obtain ⟨m', hm', hc⟩ : ∃ m' ∈ firstDeliveries batches.flatten, m'.coord = m.coord :=
        exists_mem_dedup ((hset m).mpr hm)
      have hmm := hS.position m' ((hset m').mp (mem_firstDeliveries hm')) m hm hc
      exact hmm ▸ hm'
  have hreflects := reflects_fold (runBatches_materialized hrun).silver
  rw [hfirst] at hreflects
  exact ⟨store, hrun, hreflects⟩

end Run

/-- The data events of a customer. -/
def dataEvents (S : Set Message) (id : Uuid) : Set Message :=
  {m | m ∈ S ∧ m.key = some id ∧ m.value ≠ none}

/-- `(source_lsn, kafka_offset)` of a data event. -/
def Message.version (m : Message) : Int ×ₗ Int := toLex (((m.value.bind (·.lsn)).getD 0), m.offset)

theorem CarriesRow.version_eq {m : Message} {event : ChangeEvent} {row : SilverRow}
    (h : CarriesRow m event row) : m.version = row.version := by
  simp only [Message.version, SilverRow.version, h.value, Option.bind_some, h.lsn, Option.getD_some,
    h.coord, Message.offset]

/-- The newest row of a customer is the row of its newest data event. -/
theorem isLatest_dataEvent {S : Set Message} (hS : CustomerRecords S) {id : Uuid} {w : SilverRow}
    (hw : IsLatest SilverRow.version (ofCustomer (brought S) id) w) :
    ∃ m event, IsLatest Message.version (dataEvents S id) m ∧ CarriesRow m event w := by
  obtain ⟨⟨⟨m, hm, hb⟩, hid⟩, hle⟩ := hw
  obtain ⟨event, hc⟩ := (hS.record m hm).brings_carries hb
  refine ⟨m, event, ⟨⟨hm, by rw [hc.key, hid], by simp [hc.value]⟩, ?_⟩, hc⟩
  rintro m' ⟨hm', hk', hv'⟩
  obtain ⟨event', hev'⟩ := Option.ne_none_iff_exists'.mp hv'
  obtain ⟨row', hb', hc'⟩ := (hS.record m' hm').exists_carries hev'
  rw [hc'.version_eq, hc.version_eq]
  refine hle row' ⟨⟨m', hm', hb'⟩, ?_⟩
  exact Option.some.inj (hc'.key.symm.trans hk')

/-- **Silver does not depend on delivery order or repetition.**  Two runs over the same records
leave the same visible rows, each taken from the newest data event of its customer, and applying
any of the records again changes nothing. -/
theorem silver_order_independent (S : Set Message) (hS : CustomerRecords S)
    (run₁ run₂ : List (List Message)) (h₁ : ∀ m, m ∈ run₁.flatten ↔ m ∈ S)
    (h₂ : ∀ m, m ∈ run₂.flatten ↔ m ∈ S) :
    ∃ store₁ store₂, runBatches Store.empty run₁ = .ok store₁ ∧
      runBatches Store.empty run₂ = .ok store₂ ∧
      (∀ id, (store₁.silver.find? id).map SilverRow.visible =
        (store₂.silver.find? id).map SilverRow.visible) ∧
      (∀ id, (store₁.silver.find? id).isSome ↔ (dataEvents S id).Nonempty) ∧
      (∀ id row, store₁.silver.find? id = some row →
        ∃ m event, IsLatest Message.version (dataEvents S id) m ∧ m.value = some event ∧
          event.op = .known row.sourceOperation ∧ event.lsn = some row.sourceLsn ∧
          row.coord = m.coord ∧ row.isDeleted = decide (row.sourceOperation = .d) ∧
          (row.isDeleted = false → event.after = some ⟨id, row.attributes⟩)) ∧
      ∀ m ∈ S, applyMessage store₁.silver m = .ok store₁.silver := by
  obtain ⟨store₁, hrun₁, hr₁⟩ := runBatches_reflects hS h₁
  obtain ⟨store₂, hrun₂, hr₂⟩ := runBatches_reflects hS h₂
  refine ⟨store₁, store₂, hrun₁, hrun₂, hr₁.visible_eq hr₂ (version_injOn hS), fun id => ?_,
    fun id row hf => ?_, fun m hm => hr₁.applyMessage_of_mem hm (hS.record m hm).readable⟩
  · have hrow := hr₁ id
    cases hf : store₁.silver.find? id with
    | none =>
      rw [hf] at hrow
      refine iff_of_false Bool.false_ne_true ?_
      rintro ⟨m, hm, hk, hv⟩
      obtain ⟨event, hev⟩ := Option.ne_none_iff_exists'.mp hv
      obtain ⟨row, hb, hc⟩ := (hS.record m hm).exists_carries hev
      have hid : row.customerId = id := Option.some.inj (hc.key.symm.trans hk)
      exact Set.eq_empty_iff_forall_notMem.mp hrow row ⟨⟨m, hm, hb⟩, hid⟩
    | some row =>
      rw [hf] at hrow
      obtain ⟨w, hw, -⟩ := hrow
      obtain ⟨m, event, hm, -⟩ := isLatest_dataEvent hS hw
      exact iff_of_true rfl ⟨m, hm.mem⟩
  · have hrow := hr₁ id
    rw [hf] at hrow
    obtain ⟨w, hw, hvis⟩ := hrow
    obtain ⟨m, event, hm, hc⟩ := isLatest_dataEvent hS hw
    obtain ⟨hdel, hop, hlsn, hcoord, hattr⟩ := fields_of_visible hvis
    refine ⟨m, event, hm, hc.value, by rw [hop, hc.op], by rw [hlsn, hc.lsn], by rw [hcoord, hc.coord],
      by rw [hdel, hop, hc.deleted], fun hlive => ?_⟩
    rw [hc.after (hdel.symm.trans hlive), hattr hlive, hw.mem.2]

/-! ## A late update after a delete -/

def sampleMessage (offset : Int) (op : Operation) (lsn : Int) (email : Option String) : Message where
  coord := ⟨"shop.public.customers", 0, offset⟩
  key := some 7
  value := some {
    op := .known op
    before := none
    after := email.map (fun e => ⟨7, { Attributes.null with email := some e }⟩)
    source := some ⟨some lsn, some 0⟩
    transactionId := none }
  timestampMs := some 0

/-- A customer is created, deleted and created again. -/
def sampleRecords : List Message :=
  [sampleMessage 0 .c 10 (some "a@x.org"), sampleMessage 1 .d 20 none,
    sampleMessage 2 .c 30 (some "b@x.org")]

theorem sampleRecords_customerRecords : CustomerRecords {m | m ∈ sampleRecords} where
  record m hm := by
    have hcomplete : ∀ m ∈ sampleRecords, m.key = some 7 ∧ ∃ event, m.value = some event ∧
        CompleteEvent 7 event := by
      intro m hm
      rcases List.mem_cons.mp hm with rfl | hm
      · exact ⟨rfl, _, rfl, ⟨⟨10, rfl⟩, Or.inr ⟨Or.inr (Or.inl rfl), _, rfl, rfl⟩⟩⟩
      rcases List.mem_cons.mp hm with rfl | hm
      · exact ⟨rfl, _, rfl, ⟨⟨20, rfl⟩, Or.inl rfl⟩⟩
      · rw [List.mem_singleton.mp hm]
        exact ⟨rfl, _, rfl, ⟨⟨30, rfl⟩, Or.inr ⟨Or.inr (Or.inl rfl), _, rfl, rfl⟩⟩⟩
    obtain ⟨hk, event, hv, hc⟩ := hcomplete m hm
    refine ⟨⟨7, hk⟩, fun key event' hk' hv' => ?_⟩
    rw [hk] at hk'
    rw [hv] at hv'
    cases hk'
    cases hv'
    exact hc
  position := by
    have h : ∀ m ∈ sampleRecords, ∀ m' ∈ sampleRecords, m.coord = m'.coord → m = m' := by decide
    exact h
  partition := by
    have h : ∀ m ∈ sampleRecords, ∀ m' ∈ sampleRecords, m.key = m'.key → m.partition = m'.partition := by
      decide
    exact h

theorem silver_order_independent_late :
    ∃ store₁ store₂, runBatches Store.empty [sampleRecords] = .ok store₁ ∧
      runBatches Store.empty [sampleRecords.reverse, sampleRecords] = .ok store₂ ∧
      ∀ id, (store₁.silver.find? id).map SilverRow.visible =
        (store₂.silver.find? id).map SilverRow.visible := by
  obtain ⟨store₁, store₂, h₁, h₂, hvis, -⟩ := silver_order_independent {m | m ∈ sampleRecords}
    sampleRecords_customerRecords [sampleRecords] [sampleRecords.reverse, sampleRecords]
    (by simp) (by simp)
  exact ⟨store₁, store₂, h₁, h₂, hvis⟩

end LocalDataPlatform.Cdc

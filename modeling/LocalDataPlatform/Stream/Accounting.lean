import LocalDataPlatform.Stream.MergeBatch

/-!
# Where the records of a batch end up

`merge_batch` promises that an accepted record reaches `order_events` and that an unsupported or
unparsable one is retained in `dead_letter_events`.  The two filters of the split are not
complementary: a record whose `is_valid` is NULL passes neither.

* `Accounted` — the record is in the one table its classification names.

Principal results: `mergeBatch_accounts_iff` (all records of a batch are accounted for exactly
when each undecided record has a dead letter from elsewhere), `mergeBatch_loses_undecided` (a
well-formed JSON object without `event_type` is in neither table).
-/

set_option autoImplicit false

namespace LocalDataPlatform.Stream

open Relational

variable {sp : Spark} {ex : Execution} {t : Tables}

/-- The record is accepted and in the event history, or not accepted and in the dead letters. -/
def Accounted (sp : Spark) (t : Tables) (e : ParsedEvent) : Prop :=
  (e.isValid = some true ∧ ∃ row ∈ t.orderEvents, e.eventId = some row.eventId) ∨
    (e.isValid ≠ some true ∧ ∃ row ∈ t.deadLetterEvents, row.deadLetterId = deadLetterId sp e.coord)

/-- **An accepted record reaches the event history.** -/
theorem accepted_in_orderEvents {batch : List ParsedEvent} {e : ParsedEvent} (he : e ∈ batch)
    (hv : e.isValid = some true) :
    ∃ row ∈ (mergeBatch sp ex batch t).orderEvents, e.eventId = some row.eventId := by
  obtain ⟨v, hrow⟩ := orderEvent_of_isValid hv
  obtain ⟨y, hy, hid⟩ := ex.kept_cover .orderEvents (mem_accepted.mpr ⟨e, he, hv, hrow⟩)
  rw [mergeBatch_orderEvents]
  obtain ⟨row, hmem, hk⟩ := exists_key_insertNew.mpr (Or.inr ⟨y, hy, hid⟩)
  exact ⟨row, hmem, by rw [hk]; exact eventId_orderEvent hrow⟩

/-- The dead letters after a batch: those from before and those of its rejected records. -/
theorem mem_deadLetterIds (ex : Execution) {batch : List ParsedEvent} {id : String} :
    (∃ row ∈ (mergeBatch sp ex batch t).deadLetterEvents, row.deadLetterId = id) ↔
      (∃ row ∈ t.deadLetterEvents, row.deadLetterId = id) ∨
        ∃ e ∈ batch, e.isValid = some false ∧ deadLetterId sp e.coord = id := by
  rw [mergeBatch_deadLetterEvents, exists_key_insertNew]
  refine or_congr_right ?_
  constructor
  · rintro ⟨d, hd, hid⟩
    obtain ⟨e, he, hv, rfl⟩ := mem_invalid.mp hd
    exact ⟨e, he, hv, hid⟩
  · rintro ⟨e, he, hv, hid⟩
    exact ⟨deadLetter sp e, mem_invalid.mpr ⟨e, he, hv, rfl⟩, hid⟩

/-- **A rejected record reaches the dead letters.** -/
theorem rejected_in_deadLetterEvents {batch : List ParsedEvent} {e : ParsedEvent} (he : e ∈ batch)
    (hv : e.isValid = some false) :
    ∃ row ∈ (mergeBatch sp ex batch t).deadLetterEvents, row.deadLetterId = deadLetterId sp e.coord :=
  (mem_deadLetterIds ex).mpr (Or.inr ⟨e, he, hv, rfl⟩)

/-- **A record that is not undecided passes one of the two filters**, and is accounted for. -/
theorem accounted_of_decided {batch : List ParsedEvent} {e : ParsedEvent} (he : e ∈ batch) (h : ¬ e.Undecided) :
    Accounted sp (mergeBatch sp ex batch t) e := by
  have hpasses : e ∈ sqlFilter (·.isValid) batch ∨ e ∈ sqlFilter (fun e => sqlNot e.isValid) batch :=
    (filter_or_filter_not he).mpr fun hnone => h (isValid_eq_none.mp hnone)
  rcases hpasses with haccepted | hrejected
  · have hv : e.isValid = some true := (mem_sqlFilter.mp haccepted).2
    exact Or.inl ⟨hv, accepted_in_orderEvents he hv⟩
  · have hv : e.isValid = some false := sqlNot_eq_true.mp (mem_sqlFilter.mp hrejected).2
    exact Or.inr ⟨by simp [hv], rejected_in_deadLetterEvents he hv⟩

/-- An undecided record is accounted for only by a dead letter from elsewhere. -/
theorem accounted_iff_of_undecided {batch : List ParsedEvent} {e : ParsedEvent} (h : e.Undecided) :
    Accounted sp (mergeBatch sp ex batch t) e ↔
      (∃ row ∈ t.deadLetterEvents, row.deadLetterId = deadLetterId sp e.coord) ∨
        ∃ e' ∈ batch, e'.isValid = some false ∧ deadLetterId sp e'.coord = deadLetterId sp e.coord := by
  have hnone := isValid_eq_none.mpr h
  rw [← mem_deadLetterIds ex]
  simp [Accounted, hnone]

/-- **Every record of a batch is accounted for exactly when each undecided record already has a
dead letter, or shares its dead-letter id with a rejected record of the batch.** -/
theorem mergeBatch_accounts_iff (sp : Spark) (ex : Execution) (now : Instant) (t : Tables)
    (records : List KafkaRecord) :
    (∀ r ∈ records, Accounted sp (mergeBatch sp ex (parseKafkaEvents sp now records) t)
        (parseKafkaEvent sp now r)) ↔
      ∀ r ∈ records, (parseKafkaEvent sp now r).Undecided →
        (∃ row ∈ t.deadLetterEvents, row.deadLetterId = deadLetterId sp r.coord) ∨
          ∃ r' ∈ records, (parseKafkaEvent sp now r').isValid = some false ∧
            deadLetterId sp r'.coord = deadLetterId sp r.coord := by
  refine forall₂_congr fun r hr => ?_
  have hmem : parseKafkaEvent sp now r ∈ parseKafkaEvents sp now records :=
    List.mem_map_of_mem hr
  by_cases hu : (parseKafkaEvent sp now r).Undecided
  · rw [accounted_iff_of_undecided hu]
    simp only [hu, true_implies, parseKafkaEvents, List.mem_map, exists_exists_and_eq_and]
    rfl
  · simp only [hu, false_implies, iff_true]
    exact accounted_of_decided hmem hu

/-! ## A record in neither table -/

/-- A well-formed order event whose `event_type` is missing. -/
def untypedText : String :=
  "\x7b\"event_id\":\"e1\",\"schema_version\":1,\"data\":\x7b\"order_id\":\"o1\"," ++
    "\"source_updated_at\":\"2026-01-02T10:00:30+00:00\"\x7d\x7d"

def untypedJson : Json :=
  .obj [("event_id", .str "e1"), ("schema_version", .num 1 0),
    ("data", .obj [("order_id", .str "o1"),
      ("source_updated_at", .str "2026-01-02T10:00:30+00:00")])]

def sparkOnUntyped : Spark :=
  Spark.onTexts [(untypedText, untypedJson)] [("2026-01-02T10:00:30+00:00", 1767348030000000)]
    [("ecommerce.order-events.v1:0:0",
      "2fa517d20368792abd7e63b95757c3c1a032ab5136ef79f93bc8d4df2a011ad2")]

def untypedRecord : KafkaRecord where
  key := none
  value := some (asciiBytes untypedText)
  coord := ⟨"ecommerce.order-events.v1", 0, 0⟩
  timestamp := 1767348031000000

set_option maxRecDepth 2000 in
/-- **A record without `event_type` is in neither table.** -/
theorem mergeBatch_loses_undecided :
    ¬ ∀ (sp : Spark) (ex : Execution) (now : Instant) (t : Tables) (records : List KafkaRecord),
      ∀ r ∈ records, Accounted sp (mergeBatch sp ex (parseKafkaEvents sp now records) t)
        (parseKafkaEvent sp now r) := by
  intro h
  have hacc := h sparkOnUntyped Execution.inOrder 0 Tables.empty [untypedRecord] untypedRecord
    (List.mem_singleton_self _)
  have hnone : (parseKafkaEvent sparkOnUntyped 0 untypedRecord).isValid = none := by decide
  have hund := isValid_eq_none.mp hnone
  rcases (accounted_iff_of_undecided hund).mp hacc with ⟨row, hrow, -⟩ | ⟨e, he, hv, -⟩
  · cases hrow
  · rw [List.mem_singleton.mp he, hnone] at hv
    cases hv

end LocalDataPlatform.Stream

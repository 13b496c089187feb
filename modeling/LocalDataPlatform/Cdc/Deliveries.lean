import LocalDataPlatform.Cdc.Materialize
import LocalDataPlatform.Runs.ExceptFold

/-!
# The tables after any deliveries

Records reach `process_batch` in any order and any number of times.  What the two tables hold
depends on the first delivery of each position alone.

* `firstDeliveries` — the deliveries that Bronze keeps.
* `Materialized delivered store` — Bronze has one row for each first delivery, and Silver is the
  fold of `apply_silver` over them.

Principal results: `processMessage_cases` (all that one record can do), `processBatch_materialized`
(a batch extends what was materialized by its deliveries), `processBatch_ok` (a batch of readable
records is never refused).
-/

set_option autoImplicit false

namespace LocalDataPlatform.Cdc

open Relational

/-- `apply_silver` on a record, whatever Bronze remembers. -/
def applyMessage (silver : Silver) (m : Message) : Except String Silver :=
  match m.key with
  | none => .error "Customer CDC record has no business key"
  | some key => applySilver silver m key

/-- The Bronze row of a record that Bronze accepts. -/
def RecordedAs (m : Message) (row : BronzeRow) : Prop :=
  ∃ key operation, m.key = some key ∧ bronzeOperation m.value = .ok operation ∧
    row = bronzeRow m key operation

/-- The first delivery of each position. -/
def firstDeliveries (delivered : List Message) : List Message := dedup Message.coord delivered

/-- The tables hold the deliveries: Bronze row by row, Silver as their fold. -/
structure Materialized (delivered : List Message) (store : Store) : Prop where
  bronze : List.Forall₂ RecordedAs (firstDeliveries delivered) store.bronze.rows
  silver : (firstDeliveries delivered).foldlM applyMessage Table.empty = .ok store.silver

theorem Materialized.empty : Materialized [] Store.empty := ⟨List.Forall₂.nil, rfl⟩

section Message

variable {store store' : Store} {m : Message} {inserted : Bool} {delivered : List Message}

/-- **All that one record can do**: a new record is written to Bronze and folded into Silver, a
known one changes nothing. -/
theorem processMessage_cases (h : processMessage store m = .ok (store', inserted)) :
    (inserted = true ∧ store.bronze.find? m.coord = none ∧
        (∃ row, RecordedAs m row ∧ store'.bronze.rows = store.bronze.rows ++ [row]) ∧
        applyMessage store.silver m = .ok store'.silver) ∨
      (inserted = false ∧ (store.bronze.find? m.coord).isSome ∧ store' = store) := by
  unfold processMessage at h
  cases hk : m.key with
  | none =>
    rw [hk] at h
    cases h
  | some key =>
    rw [hk] at h
    cases ho : bronzeOperation m.value with
    | error text =>
      simp only [insertBronze, ho] at h
      cases h
    | ok operation =>
      have hcoord : (bronzeRow m key operation).coord = m.coord := rfl
      cases hf : store.bronze.find? m.coord with
      | none =>
        left
        cases hs : applySilver store.silver m key with
        | error text =>
          simp [insertBronze, ho, hcoord, hf, hs, bind, Except.bind, pure, Except.pure] at h
        | ok silver =>
          simp [insertBronze, ho, hcoord, hf, hs, bind, Except.bind, pure, Except.pure] at h
          obtain ⟨rfl, rfl⟩ := h
          refine ⟨rfl, rfl, ⟨_, ⟨key, operation, hk, ho, rfl⟩, ?_⟩, ?_⟩
          · rw [Table.rows_putNew, hcoord, hf]
            rfl
          · simp only [applyMessage, hk, hs]
      | some row =>
        right
        simp [insertBronze, ho, hcoord, hf, bind, Except.bind, pure, Except.pure] at h
        obtain ⟨rfl, rfl⟩ := h
        refine ⟨rfl, rfl, ?_⟩
        rw [Table.putNew_of_isSome (by rw [hcoord, hf]; rfl)]

theorem mem_firstDeliveries (h : m ∈ firstDeliveries delivered) : m ∈ delivered := mem_of_mem_dedup h

theorem coord_firstDeliveries {c : Coord} :
    c ∈ (firstDeliveries delivered).map Message.coord ↔ c ∈ delivered.map Message.coord := by
  rw [List.mem_map, List.mem_map]
  constructor
  · exact fun ⟨m, hm, hc⟩ => ⟨m, mem_firstDeliveries hm, hc⟩
  · rintro ⟨m, hm, rfl⟩
    exact exists_mem_dedup hm

/-- The rows stand under the positions of the records. -/
theorem coord_of_recorded {ms : List Message} {rows : List BronzeRow}
    (h : List.Forall₂ RecordedAs ms rows) : rows.map BronzeRow.coord = ms.map Message.coord := by
  induction h with
  | nil => rfl
  | cons hr _ ih =>
    obtain ⟨key, operation, -, -, rfl⟩ := hr
    rw [List.map_cons, List.map_cons, ih]
    rfl

/-- Bronze remembers exactly the delivered positions. -/
theorem Materialized.knows (h : Materialized delivered store) {c : Coord} :
    (store.bronze.find? c).isSome ↔ ∃ m ∈ delivered, m.coord = c := by
  unfold Table.find?
  rw [lookup_isSome, ← List.mem_map, coord_of_recorded h.bronze, coord_firstDeliveries, List.mem_map]

/-- **One record extends what was materialized.** -/
theorem Materialized.process (h : Materialized delivered store)
    (hp : processMessage store m = .ok (store', inserted)) : Materialized (delivered ++ [m]) store' := by
  have hknows := h.knows (c := m.coord)
  rcases processMessage_cases hp with ⟨-, hf, ⟨row, hrow, hrows⟩, hsilver⟩ | ⟨-, hf, rfl⟩
  · have hnew : ¬ ∃ m' ∈ delivered, m'.coord = m.coord := by
      rw [← hknows, hf]
      exact Bool.false_ne_true
    have hfirst : firstDeliveries (delivered ++ [m]) = firstDeliveries delivered ++ [m] := by
      unfold firstDeliveries
      rw [dedup_concat, if_neg hnew]
    refine ⟨?_, ?_⟩
    · rw [hfirst, hrows]
      exact List.rel_append h.bronze (List.Forall₂.cons hrow List.Forall₂.nil)
    · rw [hfirst, List.foldlM_append, h.silver]
      simp only [List.foldlM_cons, List.foldlM_nil, bind_pure]
      exact hsilver
  · have hfirst : firstDeliveries (delivered ++ [m]) = firstDeliveries delivered := by
      unfold firstDeliveries
      rw [dedup_concat, if_pos (hknows.mp hf)]
    exact ⟨hfirst ▸ h.bronze, hfirst ▸ h.silver⟩

theorem process_ok {result result' : BatchResult} (h : result.process m = .ok result') :
    ∃ inserted, processMessage result.store m = .ok (result'.store, inserted) := by
  unfold BatchResult.process at h
  cases hp : processMessage result.store m with
  | error text =>
    rw [hp] at h
    cases h
  | ok out =>
    obtain ⟨store', inserted⟩ := out
    rw [hp] at h
    cases inserted <;> cases h <;> exact ⟨_, rfl⟩

/-- **A batch extends what was materialized by its deliveries.** -/
theorem processBatch_materialized {batch : List Message} {result : BatchResult}
    (h : Materialized delivered store) (hb : processBatch store batch = .ok result) :
    Materialized (delivered ++ batch) result.store := by
  refine Runs.foldlM_invariant (P := fun done (result : BatchResult) => Materialized done result.store)
    ?_ batch delivered h hb
  intro done m result result' hdone hturn
  obtain ⟨inserted, hp⟩ := process_ok hturn
  exact hdone.process hp

/-! ## Batches that are never refused -/

/-- Nothing in the record makes `process_batch` raise. -/
structure Readable (m : Message) : Prop where
  keyed : ∃ key, m.key = some key
  operation : ∃ operation, bronzeOperation m.value = .ok operation
  silver : ∀ key, m.key = some key → ∃ row?, silverRow m key = .ok row?

theorem processMessage_ok (h : Readable m) (store : Store) :
    ∃ out, processMessage store m = .ok out := by
  obtain ⟨key, hk⟩ := h.keyed
  obtain ⟨operation, ho⟩ := h.operation
  obtain ⟨row?, hs⟩ := h.silver key hk
  have hsilver : applySilver store.silver m key = .ok (foldRow? store.silver row?) := by
    rw [applySilver_eq, hs]
    rfl
  unfold processMessage
  simp only [hk, insertBronze, ho, bind, Except.bind, pure, Except.pure]
  split
  · rw [hsilver]
    exact ⟨_, rfl⟩
  · exact ⟨_, rfl⟩

theorem process_total (h : Readable m) (result : BatchResult) :
    ∃ result', result.process m = .ok result' := by
  obtain ⟨⟨store', inserted⟩, hp⟩ := processMessage_ok h result.store
  unfold BatchResult.process
  rw [hp]
  cases inserted <;> exact ⟨_, rfl⟩

theorem processBatch_ok {batch : List Message} (h : ∀ m ∈ batch, Readable m) (store : Store) :
    ∃ result, processBatch store batch = .ok result :=
  Runs.foldlM_total batch _ (fun m hm result => process_total (h m hm) result)

end Message

end LocalDataPlatform.Cdc

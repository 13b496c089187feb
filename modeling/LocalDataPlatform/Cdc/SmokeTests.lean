import LocalDataPlatform.Cdc.Progress
import Mathlib.Data.List.Perm.Subperm

/-!
# The smoke tests of the customer pipeline

Each creates, updates and deletes one fresh customer while other customers may change: `cdc/verify_cdc.py`
waits for the four records on the topic, `cdc/verify_materialization.py` for their effect on the tables.

* `SmokeHistory` — what the source sees: of the test's customer these three statements alone.
* `PollResult`, `watch` — the consumer loop of `verify_cdc`; `ReadFrom` — what it polls, from the tails that
  `assign_topic_tail` pinned.
* `createdQuery`, `updatedQuery`, `deletedQuery`, `waitFor` — the queries of `verify_materialization`.

Principal results: `watch_passed_iff` (what the loop accepts), `verify_cdc_iff` (it passes exactly if it polls
all four records, and can only miss one before the tail it pinned), `verify_materialization_iff` (each wait ends
exactly once its statement, and no later one, is applied).
-/

set_option autoImplicit false

namespace LocalDataPlatform.Cdc

open Relational Runs

/-! ## The changes of one customer -/

/-- The customer of a statement. -/
def SourceOp.customerId : SourceOp → Uuid
  | .insert row => row.customerId
  | .update row => row.customerId
  | .delete customerId => customerId

/-- The statements on one customer. -/
def opsFor (id : Uuid) (ops : List SourceOp) : List SourceOp := ops.filter fun op => decide (op.customerId = id)

section Changes

variable {t t' : SourceTable} {op : SourceOp} {id : Uuid}

theorem changesFor_emit_of_ne (h : op.customerId ≠ id) : changesFor id (emit t op) = [] := by
  refine List.filter_eq_nil_iff.mpr fun c hc => ?_
  have hkey : c.key = op.customerId := by
    cases op <;> (simp only [emit] at hc; split at hc) <;> simp_all [SourceOp.customerId]
    rcases hc with rfl | rfl <;> rfl
  simpa [hkey] using h

theorem changesFor_emit_of_eq (h : op.customerId = id) (hrow : t.find? id = t'.find? id) :
    changesFor id (emit t op) = emit t' op := by
  subst h
  cases op <;> simp only [SourceOp.customerId] at hrow <;> simp only [emit, hrow, SourceOp.customerId] <;>
    split <;> simp [changesFor]

/-- **The changes of a customer are those of its own statements.** -/
theorem changesFor_changesOf : ∀ (ops : List SourceOp) (t t' : SourceTable), t.find? id = t'.find? id →
    changesFor id (changesOf t ops) = changesOf t' (opsFor id ops)
  | [], _, _, _ => rfl
  | op :: ops, t, t', hrow => by
    have hnext : ∀ t : SourceTable, (applyOp t op).find? id =
        (changesFor id (emit t op)).foldl follow (t.find? id) := fun _ => foldl_follow_emit.symm
    rw [changesOf, changesFor_append]
    by_cases hid : op.customerId = id
    · have hops : opsFor id (op :: ops) = op :: opsFor id ops := List.filter_cons_of_pos (decide_eq_true hid)
      have happly : (applyOp t op).find? id = (applyOp t' op).find? id := by
        rw [hnext, hnext, changesFor_emit_of_eq hid hrow, changesFor_emit_of_eq hid (rfl : t'.find? id = _), hrow]
      rw [hops, changesOf, changesFor_emit_of_eq hid hrow, changesFor_changesOf ops _ _ happly]
    · have hops : opsFor id (op :: ops) = opsFor id ops := List.filter_cons_of_neg (by simpa using hid)
      have happly : (applyOp t op).find? id = t'.find? id := by
        rw [hnext, changesFor_emit_of_ne hid]
        exact hrow
      rw [hops, changesFor_emit_of_ne hid, List.nil_append, changesFor_changesOf ops _ _ happly]

end Changes

/-! ## The customer of the test -/

/-- The rows that the test inserts and updates its customer to. -/
structure TestCustomer where
  created : Customer
  updated : Customer
  same : updated.customerId = created.customerId

def TestCustomer.customerId (c : TestCustomer) : Uuid := c.created.customerId

/-- `mutate_customer`. -/
def TestCustomer.mutate (c : TestCustomer) : List SourceOp :=
  [.insert c.created, .update c.updated, .delete c.customerId]

/-- A history in which the customer is new, and no other statement is on it. -/
structure SmokeHistory (initial : SourceTable) (ops : List SourceOp) (c : TestCustomer) : Prop where
  fresh : initial.find? c.customerId = none
  statements : opsFor c.customerId ops = c.mutate

/-- The changes of the test, the last of which is a tombstone. -/
def TestCustomer.changes (c : TestCustomer) : List Change :=
  [⟨c.customerId, some (.c, some c.created)⟩, ⟨c.customerId, some (.u, some c.updated)⟩,
    ⟨c.customerId, some (.d, none)⟩, ⟨c.customerId, none⟩]

section History

variable {initial : SourceTable} {ops : List SourceOp} {c : TestCustomer} {logs : Logs}

/-- **Debezium reports the customer of the test by four records.** -/
theorem SmokeHistory.changesFor_eq (h : SmokeHistory initial ops c) :
    changesFor c.customerId (Cdc.changes initial ops) = c.changes := by
  have hsnapshot : changesFor c.customerId (snapshot initial.rows) = [] := by
    refine List.filter_eq_nil_iff.mpr fun change hchange => ?_
    obtain ⟨row, hrow, rfl⟩ := List.mem_map.mp hchange
    simpa using lookup_eq_none.mp h.fresh row hrow
  have hempty : initial.find? c.customerId = (Table.empty : SourceTable).find? c.customerId := h.fresh
  unfold Cdc.changes
  rw [changesFor_append, hsnapshot, List.nil_append, changesFor_changesOf ops _ _ hempty, h.statements]
  -- the row is there for the update, and for the deletion
  have hcreated : ((Table.empty : SourceTable).putNew c.created).find? c.customerId = some c.created := by
    rw [Table.find?_putNew, Table.find?_empty, if_pos (show c.created.customerId = c.customerId from rfl)]
    rfl
  have hupdated : (((Table.empty : SourceTable).putNew c.created).put c.updated).find? c.customerId =
      some c.updated := by
    rw [Table.find?_put, if_pos (show c.updated.customerId = c.customerId from c.same)]
  have hsame : c.updated.customerId = c.customerId := c.same
  simp only [TestCustomer.mutate, changesOf, emit, applyOp, Table.find?_empty, hsame, hcreated, hupdated,
    Option.isSome_some, Option.isSome_none, Bool.false_eq_true, if_true, if_false]
  rfl

/-- The records of the customer carry these changes. -/
theorem SmokeHistory.publishes (h : SmokeHistory initial ops c) (hd : Delivers (Cdc.changes initial ops) logs) :
    List.Forall₂ Publishes c.changes (recordsFor c.customerId (logs.records (hd.home c.customerId))) :=
  h.changesFor_eq ▸ hd.content c.customerId

end History

/-! ## The consumer of `verify_cdc` -/

/-- What `consumer.poll(1.0)` returns. -/
inductive PollResult where
  | nothing
  | partitionEof
  | failed (error : String)
  | record (m : Message)

/-- The operations seen so far, and whether a tombstone was. -/
structure Observed where
  operations : List Operation
  saw_tombstone : Bool
  deriving DecidableEq, Repr

/-- `operations == ["c", "u", "d"] and saw_tombstone`. -/
def Observed.complete (o : Observed) : Bool := o.operations == [.c, .u, .d] && o.saw_tombstone

/-- The operation of a data event, if it counts. -/
def counted (m : Message) : Option Operation :=
  match m.value.map ChangeEvent.op with
  | some (.known .c) => some .c
  | some (.known .u) => some .u
  | some (.known .d) => some .d
  | _ => none

/-- A record of the customer is noted. -/
def Observed.note (o : Observed) (m : Message) : Observed :=
  match m.value with
  | none => { o with saw_tombstone := true }
  | some _ => { o with operations := o.operations ++ (counted m).toList }

/-- How `main` ends. -/
inductive Verdict where
  | passed
  | raised (error : String)
  | timedOut (o : Observed)
  deriving DecidableEq, Repr

/-- The loop of `main` over the polls that begin before the deadline. -/
def watch (id : Uuid) : Observed → List PollResult → Verdict
  | o, [] => .timedOut o
  | o, .nothing :: polls => watch id o polls
  | o, .partitionEof :: polls => watch id o polls
  | _, .failed error :: _ => .raised error
  | o, .record m :: polls =>
    -- `is_target_key`
    if m.key = some id then
      if (o.note m).complete then .passed else watch id (o.note m) polls
    else watch id o polls

/-- The records among what was polled. -/
def polledRecords (polls : List PollResult) : List Message :=
  polls.filterMap fun poll => match poll with
    | .record m => some m
    | _ => none

/-- No poll returned an error. -/
def Clean (polls : List PollResult) : Prop := ∀ error, .failed error ∉ polls

section Watch

variable {id : Uuid} {o : Observed} {polls : List PollResult} {ms : List Message}

theorem Observed.not_complete_nil : (⟨[], false⟩ : Observed).complete = false := rfl

/-- A nonempty stretch begins with the first poll. -/
theorem exists_prefix_cons {α : Type} {P : List α → Prop} {x : α} {xs : List α} (hnil : ¬ P []) :
    (∃ pre, pre <+: x :: xs ∧ P pre) ↔ ∃ pre, pre <+: xs ∧ P (x :: pre) := by
  constructor
  · rintro ⟨pre, hpre, hp⟩
    cases pre with
    | nil => exact absurd hp hnil
    | cons y pre =>
      obtain ⟨rfl, htail⟩ := List.cons_prefix_cons.mp hpre
      exact ⟨pre, htail, hp⟩
  · rintro ⟨pre, hpre, hp⟩
    exact ⟨x :: pre, List.cons_prefix_cons.mpr ⟨rfl, hpre⟩, hp⟩

/-- The polls have no error, and their records of the customer complete what was seen. -/
def Completes (id : Uuid) (o : Observed) (pre : List PollResult) : Prop :=
  Clean pre ∧ ((recordsFor id (polledRecords pre)).foldl Observed.note o).complete = true

theorem completes_nil : Completes id o [] ↔ o.complete = true := by
  simp [Completes, Clean, polledRecords, recordsFor]

theorem completes_nothing {pre : List PollResult} : Completes id o (.nothing :: pre) ↔ Completes id o pre := by
  simp [Completes, Clean, polledRecords]

theorem completes_partitionEof {pre : List PollResult} :
    Completes id o (.partitionEof :: pre) ↔ Completes id o pre := by
  simp [Completes, Clean, polledRecords]

theorem not_completes_failed {pre : List PollResult} {error : String} :
    ¬ Completes id o (.failed error :: pre) := fun h => h.1 error List.mem_cons_self

theorem completes_record {pre : List PollResult} {m : Message} : Completes id o (.record m :: pre) ↔
    Completes id (if m.key = some id then o.note m else o) pre := by
  by_cases hk : m.key = some id <;> simp [Completes, Clean, polledRecords, recordsFor, hk]

/-- **What the loop accepts**: a stretch of polls without an error whose records of the customer complete
what was seen. -/
theorem watch_passed_iff : ∀ (polls : List PollResult) (o : Observed), o.complete = false →
    (watch id o polls = .passed ↔ ∃ pre, pre <+: polls ∧ Completes id o pre)
  | [], o, ho => by
    refine ⟨nofun, ?_⟩
    rintro ⟨pre, hpre, hcompletes⟩
    rw [List.prefix_nil.mp hpre, completes_nil, ho] at hcompletes
    cases hcompletes
  | poll :: polls, o, ho => by
    have hnil : ¬ Completes id o [] := by simp [completes_nil, ho]
    rw [exists_prefix_cons hnil]
    cases poll with
    | nothing =>
      simp only [completes_nothing]
      exact watch_passed_iff polls o ho
    | partitionEof =>
      simp only [completes_partitionEof]
      exact watch_passed_iff polls o ho
    | failed error => exact ⟨nofun, fun ⟨_, _, h⟩ => absurd h not_completes_failed⟩
    | record m =>
      simp only [completes_record, watch]
      split
      · cases hdone : (o.note m).complete with
        | true => exact ⟨fun _ => ⟨[], List.nil_prefix, completes_nil.mpr hdone⟩, fun _ => rfl⟩
        | false => exact watch_passed_iff polls _ hdone
      · exact watch_passed_iff polls o ho

/-- A data event is noted by its operation, a tombstone as such. -/
theorem foldl_note : ∀ (ms : List Message) (o : Observed), ms.foldl Observed.note o =
    ⟨o.operations ++ ms.filterMap counted, o.saw_tombstone || ms.any fun m => m.value.isNone⟩
  | [], o => by simp
  | m :: ms, o => by
    rw [List.foldl_cons, foldl_note ms]
    cases hv : m.value with
    | none => simp [Observed.note, hv, counted]
    | some event => cases hc : counted m <;> simp [Observed.note, hv, hc]

end Watch

/-! ## The four records -/

section Records

variable {c : TestCustomer} {rs ms : List Message} {key : Uuid} {m : Message}

theorem counted_event {operation : Operation} {after : Option Customer}
    (h : Publishes ⟨key, some (operation, after)⟩ m) (hop : operation = .c ∨ operation = .u ∨ operation = .d) :
    counted m = some operation ∧ m.value.isSome = true := by
  obtain ⟨event, lsn, hv, ho, -, -⟩ := h.event _ _ rfl
  rcases hop with rfl | rfl | rfl <;> simp [counted, hv, ho]

theorem counted_tombstone (h : Publishes ⟨key, none⟩ m) : counted m = none ∧ m.value = none := by
  simp [counted, h.tombstone rfl]

/-- What the loop notes of each. -/
theorem counted_records (h : List.Forall₂ Publishes c.changes rs) :
    rs.filterMap counted = [.c, .u, .d] ∧ rs.length = 4 ∧ (rs.any fun m => m.value.isNone) = true ∧
      ∀ m ∈ rs, (counted m).isSome = m.value.isSome := by
  unfold TestCustomer.changes at h
  rcases h with _ | ⟨h₁, _ | ⟨h₂, _ | ⟨h₃, _ | ⟨h₄, _ | _⟩⟩⟩⟩
  obtain ⟨hc, hc'⟩ := counted_event h₁ (Or.inl rfl)
  obtain ⟨hu, hu'⟩ := counted_event h₂ (Or.inr (Or.inl rfl))
  obtain ⟨hd, hd'⟩ := counted_event h₃ (Or.inr (Or.inr rfl))
  obtain ⟨ht, ht'⟩ := counted_tombstone h₄
  refine ⟨?_, rfl, ?_, ?_⟩ <;> simp [hc, hu, hd, ht, hc', hu', hd', ht']

/-- **Only all four of them are complete.** -/
theorem complete_iff (h : List.Forall₂ Publishes c.changes rs) (hsub : ms.Sublist rs) :
    (ms.foldl Observed.note ⟨[], false⟩).complete = true ↔ ms = rs := by
  obtain ⟨hcounted, hlength, htombstone, hone⟩ := counted_records h
  rw [foldl_note]
  unfold Observed.complete
  simp only [List.nil_append, Bool.false_or, Bool.and_eq_true, beq_iff_eq]
  constructor
  · rintro ⟨hoperations, hseen⟩
    -- a record counts as an operation or as a tombstone, not as both
    have hsome : ms.countP (fun m => (counted m).isSome) = 3 := by
      rw [← List.length_filterMap_eq_countP, hoperations]
      rfl
    have hnone : 0 < ms.countP fun m => m.value.isNone := by
      rw [List.countP_pos_iff]
      simpa using hseen
    have hsplit : ms.length = ms.countP (fun m => (counted m).isSome) + ms.countP (fun m => m.value.isNone) := by
      rw [List.length_eq_countP_add_countP fun m => (counted m).isSome]
      congr 1
      refine List.countP_congr fun m hm => ?_
      simp [hone m (hsub.subset hm)]
    exact hsub.eq_of_length_le (by omega)
  · rintro rfl
    exact ⟨hcounted, htombstone⟩

end Records

/-! ## The test over the logs -/

/-- The consumer reads each partition from a tail on: no poll failed, and it got the next records, the
partitions interleaved in any way. -/
structure ReadFrom (logs : Logs) (tail : TopicPartition → Nat) (polls : List PollResult) : Prop where
  clean : Clean polls
  next : ∀ p, ofPartition p (polledRecords polls) <+: (logs.records p).drop (tail p)

section Verify

variable {initial : SourceTable} {ops : List SourceOp} {c : TestCustomer} {logs : Logs}
variable {tail : TopicPartition → Nat} {polls pre : List PollResult} {m : Message}

theorem prefix_polledRecords (h : pre <+: polls) : polledRecords pre <+: polledRecords polls := h.filterMap _

/-- What is polled of the customer are records of its log, in order. -/
theorem ReadFrom.sublist (h : ReadFrom logs tail polls) (hd : Delivers (Cdc.changes initial ops) logs) (id : Uuid) :
    (recordsFor id (polledRecords polls)).Sublist
      (recordsFor id ((logs.records (hd.home id)).drop (tail (hd.home id)))) := by
  have hlog : ∀ m ∈ polledRecords polls, m ∈ logs.records m.partition := fun m hm =>
    List.mem_of_mem_drop ((h.next m.partition).subset (mem_ofPartition.mpr ⟨hm, rfl⟩))
  rw [← recordsFor_ofPartition fun m hm hk => hd.home_of_key (hlog m hm) hk]
  exact (h.next _).sublist.filter _

/-- The loop passes exactly if it polls the four records, whatever else happens to other customers. -/
theorem passed_iff_polled (hd : Delivers (Cdc.changes initial ops) logs) (h : SmokeHistory initial ops c)
    (hread : ReadFrom logs tail polls) : watch c.customerId ⟨[], false⟩ polls = .passed ↔
      ∀ m ∈ logs.records (hd.home c.customerId), m.key = some c.customerId → m ∈ polledRecords polls := by
  have hpublishes := h.publishes hd
  have hsub : (recordsFor c.customerId (polledRecords polls)).Sublist
      (recordsFor c.customerId (logs.records (hd.home c.customerId))) :=
    (hread.sublist hd c.customerId).trans ((List.drop_sublist _ _).filter _)
  rw [watch_passed_iff polls _ Observed.not_complete_nil]
  constructor
  · rintro ⟨pre, hpre, -, hcomplete⟩ m hm hk
    have hpolled : (recordsFor c.customerId (polledRecords pre)).Sublist
        (recordsFor c.customerId (polledRecords polls)) := ((prefix_polledRecords hpre).filter _).sublist
    have hall := (complete_iff hpublishes (hpolled.trans hsub)).mp hcomplete
    have hmem : m ∈ recordsFor c.customerId (polledRecords pre) := by
      rw [hall]
      exact List.mem_filter.mpr ⟨hm, decide_eq_true hk⟩
    exact (prefix_polledRecords hpre).subset (List.mem_of_mem_filter hmem)
  · intro hall
    refine ⟨polls, List.prefix_refl _, hread.clean, (complete_iff hpublishes hsub).mpr ?_⟩
    have hordered : Ordered Message.offset (recordsFor c.customerId (logs.records (hd.home c.customerId))) :=
      (logs.ordered _).sublist List.filter_sublist
    refine hordered.eq_of_sublist hsub (List.Sublist.refl _) (hsub.subperm.antisymm ?_)
    refine List.Nodup.subperm hordered.nodup_map.of_map fun m hm => ?_
    obtain ⟨hm, hk⟩ := List.mem_filter.mp hm
    exact List.mem_filter.mpr ⟨hall m hm (of_decide_eq_true hk), hk⟩

/-- **`verify_cdc` passes exactly if it polls the four records**, whatever else happens to other customers
and however the partitions are interleaved; and once it has polled everything from its tail on, exactly if
no record of the customer lies before the tail.  So the tail is resolved before the customer is created. -/
theorem verify_cdc_iff (hd : Delivers (Cdc.changes initial ops) logs) (h : SmokeHistory initial ops c)
    (hread : ReadFrom logs tail polls) :
    (watch c.customerId ⟨[], false⟩ polls = .passed ↔
      ∀ m ∈ logs.records (hd.home c.customerId), m.key = some c.customerId → m ∈ polledRecords polls) ∧
    (ofPartition (hd.home c.customerId) (polledRecords polls) =
        (logs.records (hd.home c.customerId)).drop (tail (hd.home c.customerId)) →
      (watch c.customerId ⟨[], false⟩ polls = .passed ↔
        ∀ m ∈ (logs.records (hd.home c.customerId)).take (tail (hd.home c.customerId)),
          m.key ≠ some c.customerId)) := by
  refine ⟨passed_iff_polled hd h hread, fun hall => ?_⟩
  have hsplit := List.take_append_drop (tail (hd.home c.customerId)) (logs.records (hd.home c.customerId))
  have hordered := logs.ordered (hd.home c.customerId)
  rw [← hsplit] at hordered
  obtain ⟨-, -, hbefore⟩ := List.pairwise_append.mp hordered
  have hpolled : ∀ m ∈ logs.records (hd.home c.customerId), m ∈ polledRecords polls ↔
      m ∈ (logs.records (hd.home c.customerId)).drop (tail (hd.home c.customerId)) := by
    intro m hm
    rw [← hall, mem_ofPartition]
    exact ⟨fun hp => ⟨hp, logs.partition _ m hm⟩, And.left⟩
  rw [passed_iff_polled hd h hread]
  constructor
  · intro hread m hm hk
    have hlog := List.mem_of_mem_take hm
    exact absurd (hbefore m hm m ((hpolled m hlog).mp (hread m hlog hk))) (lt_irrefl _)
  · intro hnone m hm hk
    rw [hpolled m hm]
    rw [← hsplit] at hm
    exact (List.mem_append.mp hm).resolve_left fun hearly => hnone m hearly hk

end Verify

/-! ## The queries of `verify_materialization` -/

/-- `SELECT COUNT(*) = 1 FROM cdc_silver.customers_current WHERE customer_id = .. AND last_name = ..`. -/
def namedQuery (id : Uuid) (lastName : String) (store : Store) : Bool :=
  ((customersCurrent store.silver).countP fun row =>
    decide (row.customerId = id) && decide (row.attributes.lastName = some lastName)) == 1

def createdQuery (id : Uuid) : Store → Bool := namedQuery id "Created"

def updatedQuery (id : Uuid) : Store → Bool := namedQuery id "Updated"

/-- The customer is gone from the view, deleted in Silver, and Bronze has all its operations. -/
def deletedQuery (id : Uuid) (store : Store) : Bool :=
  !((customersCurrent store.silver).any fun row => decide (row.customerId = id)) &&
    (store.silver.rows.any fun row => decide (row.customerId = id) && row.isDeleted) &&
      [Operation.c, .u, .d, .t].all fun operation =>
        store.bronze.rows.any fun row => decide (row.customerId = id) && decide (row.operation = operation)

/-- `wait_for`, over the tables at the polls that begin before the deadline. -/
def waitFor (query : Store → Bool) (polls : List Store) : Bool := polls.any query

/-- `main`: a statement, then its wait. -/
def verifyMaterialization (id : Uuid) (created updated deleted : List Store) : Bool :=
  waitFor (createdQuery id) created && waitFor (updatedQuery id) updated && waitFor (deletedQuery id) deleted

/-- The names of the test. -/
structure Named (c : TestCustomer) : Prop where
  created : c.created.attributes.lastName = some "Created"
  updated : c.updated.attributes.lastName = some "Updated"

section Materialization

variable {initial : SourceTable} {ops : List SourceOp} {c : TestCustomer} {logs : Logs} {s : State}
variable {id : Uuid} {lastName : String} {store : Store}

/-- The count is that of the one row of the customer. -/
theorem namedQuery_iff : namedQuery id lastName s.store = true ↔
    ∃ row, shown s id = some row ∧ row.attributes.lastName = some lastName := by
  have hrow : (customersCurrent s.store.silver).filter (fun row => decide (row.customerId = id)) =
      (shown s id).toList := (customersCurrent_unique s.store.silver).filter_key
  have hcount : (customersCurrent s.store.silver).countP (fun row =>
      decide (row.customerId = id) && decide (row.attributes.lastName = some lastName)) =
        (shown s id).toList.countP fun row => decide (row.attributes.lastName = some lastName) := by
    rw [← hrow, List.countP_filter]
    exact List.countP_congr fun row _ => by rw [Bool.and_comm]
  unfold namedQuery
  rw [hcount]
  cases shown s id with
  | none => simp
  | some row => by_cases hname : row.attributes.lastName = some lastName <;> simp [hname]

/-- What the view shows of the customer, by the number of its records that are applied. -/
theorem SmokeHistory.shown_eq (h : SmokeHistory initial ops c) (hd : Delivers (Cdc.changes initial ops) logs)
    (hs : Reachable logs s) : shown s c.customerId =
      match (appliedFor c.customerId s).length with
      | 1 => some c.created
      | 2 => some c.updated
      | _ => none := by
  have hlength : (appliedFor c.customerId s).length ≤ 4 := by
    have hle : (appliedFor c.customerId s).length ≤ _ := (prefix_appliedFor hd hs).length_le
    rwa [← (h.publishes hd).length_eq] at hle
  rw [Cdc.shown_eq hd hs, h.changesFor_eq]
  obtain hn | hn | hn | hn | hn : (appliedFor c.customerId s).length = 0 ∨ (appliedFor c.customerId s).length = 1 ∨
    (appliedFor c.customerId s).length = 2 ∨ (appliedFor c.customerId s).length = 3 ∨
      (appliedFor c.customerId s).length = 4 := by omega
  all_goals rw [hn]; rfl

/-- The operation of a change in Bronze. -/
def Change.operation (change : Change) : Operation :=
  match change.value with
  | none => .t
  | some (operation, _) => operation

theorem Publishes.bronzeOperation {change : Change} {m : Message} (h : Publishes change m) :
    bronzeOperation m.value = .ok change.operation := by
  unfold Change.operation
  cases hv : change.value with
  | none =>
    rw [h.tombstone hv]
    rfl
  | some value =>
    obtain ⟨event, lsn, he, hop, -, -⟩ := h.event _ _ hv
    unfold Cdc.bronzeOperation
    rw [he]
    simp only [hop]

/-- The applied records carry the first changes. -/
theorem appliedFor_publishes (hd : Delivers (Cdc.changes initial ops) logs) (hs : Reachable logs s) (id : Uuid) :
    List.Forall₂ Publishes ((changesFor id (Cdc.changes initial ops)).take (appliedFor id s).length)
      (appliedFor id s) := by
  have htake := List.forall₂_take (appliedFor id s).length (hd.content id)
  rwa [← List.prefix_iff_eq_take.mp (prefix_appliedFor hd hs)] at htake

/-- **Bronze has the operations of the applied changes of a customer.** -/
theorem bronze_operation_iff (hd : Delivers (Cdc.changes initial ops) logs) (hs : Reachable logs s)
    {operation : Operation} :
    (∃ row ∈ s.store.bronze.rows, row.customerId = id ∧ row.operation = operation) ↔
      operation ∈ ((changesFor id (Cdc.changes initial ops)).take (appliedFor id s).length).map
        Change.operation := by
  have hbronze := (inv_of_reachable hs).materialized.bronze
  have hpublishes := appliedFor_publishes hd hs id
  constructor
  · rintro ⟨row, hrow, rfl, rfl⟩
    obtain ⟨m, hm, key, operation, hk, hop, rfl⟩ := exists_of_forall₂ hbronze hrow
    obtain ⟨change, hchange, hpub⟩ := exists_of_forall₂ hpublishes
      (List.mem_filter.mpr ⟨hm, decide_eq_true hk⟩)
    refine List.mem_map.mpr ⟨change, hchange, ?_⟩
    exact Except.ok.inj (hpub.bronzeOperation.symm.trans hop)
  · intro hoperation
    obtain ⟨change, hchange, rfl⟩ := List.mem_map.mp hoperation
    obtain ⟨m, hm, hpub⟩ := exists_of_forall₂ hpublishes.flip hchange
    obtain ⟨hm, hk⟩ := List.mem_filter.mp hm
    obtain ⟨row, hrow, key, operation, hk', hop, rfl⟩ := exists_of_forall₂ hbronze.flip hm
    have hk := of_decide_eq_true hk
    refine ⟨_, hrow, ?_, ?_⟩
    · exact Option.some.inj (hk'.symm.trans hk)
    · exact Except.ok.inj (hop.symm.trans hpub.bronzeOperation)

/-- A data event of the customer leaves it a row in Silver. -/
theorem isSome_foldl_arriveFor : ∀ (ms : List Message) (old? : Option SilverRow),
    (old?.isSome ∨ ∃ m ∈ ms, ∃ row, Brings m row ∧ row.customerId = id) →
    (ms.foldl (arriveFor id) old?).isSome
  | [], _, h => h.resolve_right fun ⟨_, hm, _⟩ => absurd hm List.not_mem_nil
  | m :: ms, old?, h => by
    refine isSome_foldl_arriveFor ms _ ?_
    rcases h with hold | ⟨m', hm', row, hb, hid⟩
    · refine Or.inl ?_
      unfold arriveFor
      split
      · split
        · rfl
        · exact hold
      · exact hold
    · rcases List.mem_cons.mp hm' with rfl | hm'
      · refine Or.inl ?_
        unfold arriveFor
        rw [brings_iff.mp hb]
        dsimp only
        rw [if_pos hid]
        rfl
      · exact Or.inr ⟨m', hm', row, hb, hid⟩

/-- Once a data event of a customer is applied, Silver has a row of it, deleted if the view shows none. -/
theorem deleted_of_applied (hd : Delivers (Cdc.changes initial ops) logs) (hs : Reachable logs s)
    (hdata : ∃ m ∈ appliedFor id s, m.value ≠ none) (hshown : shown s id = none) :
    ∃ row ∈ s.store.silver.rows, row.customerId = id ∧ row.isDeleted = true := by
  obtain ⟨m, hm, hvalue⟩ := hdata
  obtain ⟨event, hvalue⟩ := Option.ne_none_iff_exists'.mp hvalue
  obtain ⟨change, hchange, hpub⟩ := exists_of_forall₂ (appliedFor_publishes hd hs id) hm
  have hcomplete := changes_complete change (List.mem_of_mem_filter (List.mem_of_mem_take hchange))
  obtain ⟨hfirst, hk⟩ := List.mem_filter.mp hm
  obtain ⟨row, hb, hcarries⟩ := (hpub.customerRecord hcomplete).exists_carries hvalue
  have hid : row.customerId = id := Option.some.inj (hcarries.key.symm.trans (of_decide_eq_true hk))
  have hsome := isSome_foldl_arriveFor _ none (Or.inr ⟨m, hfirst, row, hb, hid⟩)
  rw [← find?_fold (inv_of_reachable hs).materialized.silver] at hsome
  obtain ⟨row, hrow⟩ := Option.isSome_iff_exists.mp hsome
  unfold shown at hshown
  rw [lookup_customersCurrent, hrow] at hshown
  obtain ⟨hmem, hid⟩ := Table.find?_eq_some.mp hrow
  refine ⟨row, hmem, hid, ?_⟩
  cases hdeleted : row.isDeleted with
  | true => rfl
  | false => simp [live, hdeleted] at hshown

theorem createdQuery_iff (h : SmokeHistory initial ops c) (hnames : Named c)
    (hd : Delivers (Cdc.changes initial ops) logs) (hs : Reachable logs s) :
    createdQuery c.customerId s.store = true ↔ (appliedFor c.customerId s).length = 1 := by
  unfold createdQuery
  rw [namedQuery_iff, h.shown_eq hd hs]
  split <;> simp_all [hnames.created, hnames.updated]

theorem updatedQuery_iff (h : SmokeHistory initial ops c) (hnames : Named c)
    (hd : Delivers (Cdc.changes initial ops) logs) (hs : Reachable logs s) :
    updatedQuery c.customerId s.store = true ↔ (appliedFor c.customerId s).length = 2 := by
  unfold updatedQuery
  rw [namedQuery_iff, h.shown_eq hd hs]
  split <;> simp_all [hnames.created, hnames.updated]

/-- **`deletedQuery` waits for the tombstone**, the last record of the customer. -/
theorem deletedQuery_iff (h : SmokeHistory initial ops c) (hd : Delivers (Cdc.changes initial ops) logs)
    (hs : Reachable logs s) :
    deletedQuery c.customerId s.store = true ↔ (appliedFor c.customerId s).length = 4 := by
  have hbronze : ∀ operation, (s.store.bronze.rows.any fun row =>
      decide (row.customerId = c.customerId) && decide (row.operation = operation)) = true ↔
        operation ∈ [Operation.c, .u, .d, .t].take (appliedFor c.customerId s).length := by
    intro operation
    have hcodes : [Operation.c, .u, .d, .t] = c.changes.map Change.operation := rfl
    rw [hcodes, ← List.map_take, ← h.changesFor_eq, ← bronze_operation_iff hd hs]
    simp
  have hle : (appliedFor c.customerId s).length ≤ _ := (prefix_appliedFor hd hs).length_le
  rw [← (h.publishes hd).length_eq] at hle
  unfold deletedQuery
  simp only [Bool.and_eq_true, List.all_eq_true, hbronze]
  constructor
  · rintro ⟨-, hoperations⟩
    have htombstone := hoperations .t (by decide)
    have hlength : c.changes.length = 4 := rfl
    -- fewer records have other operations only
    by_contra hne
    have hfew := List.take_prefix_take_left (l := [Operation.c, .u, .d, .t])
      (show (appliedFor c.customerId s).length ≤ 3 by omega)
    exact absurd (hfew.subset htombstone) (by decide)
  · intro hall
    have hshown : shown s c.customerId = none := by
      rw [h.shown_eq hd hs, hall]
      rfl
    have hpublishes := appliedFor_publishes hd hs c.customerId
    rw [h.changesFor_eq, hall] at hpublishes
    obtain ⟨m, hm, hpub⟩ := exists_of_forall₂ hpublishes.flip (List.mem_cons_self (l := List.tail c.changes))
    obtain ⟨event, lsn, hvalue, -⟩ := hpub.event _ _ rfl
    obtain ⟨row, hrow, hid, hdeleted⟩ := deleted_of_applied hd hs ⟨m, hm, by simp [hvalue]⟩ hshown
    refine ⟨⟨?_, ?_⟩, fun operation hoperation => ?_⟩
    · have hnone := lookup_eq_none.mp hshown
      simpa using hnone
    · rw [List.any_eq_true]
      exact ⟨row, hrow, by simp [hid, hdeleted]⟩
    · rw [hall]
      exact hoperation

/-- **Each wait of `verify_materialization` ends exactly once its statement is applied and the next one is
not**: over any run of the materializer, at whatever points the tables are polled. -/
theorem verify_materialization_iff (h : SmokeHistory initial ops c) (hnames : Named c)
    (hd : Delivers (Cdc.changes initial ops) logs) (created updated deleted : List State)
    (hs : ∀ s, s ∈ created ∨ s ∈ updated ∨ s ∈ deleted → Reachable logs s) :
    verifyMaterialization c.customerId (created.map State.store) (updated.map State.store)
        (deleted.map State.store) = true ↔
      (∃ s ∈ created, (appliedFor c.customerId s).length = 1) ∧
        (∃ s ∈ updated, (appliedFor c.customerId s).length = 2) ∧
          ∃ s ∈ deleted, (appliedFor c.customerId s).length = 4 := by
  unfold verifyMaterialization waitFor
  simp only [Bool.and_eq_true, List.any_map, List.any_eq_true, Function.comp_apply, and_assoc]
  refine and_congr ?_ (and_congr ?_ ?_)
  · exact exists_congr fun s => and_congr_right fun hmem => createdQuery_iff h hnames hd (hs s (Or.inl hmem))
  · exact exists_congr fun s => and_congr_right fun hmem =>
      updatedQuery_iff h hnames hd (hs s (Or.inr (Or.inl hmem)))
  · exact exists_congr fun s => and_congr_right fun hmem => deletedQuery_iff h hd (hs s (Or.inr (Or.inr hmem)))

end Materialization

/-! ## A test run -/

def smokeCustomer : TestCustomer where
  created := ⟨7, { Attributes.null with lastName := some "Created" }⟩
  updated := ⟨7, { Attributes.null with lastName := some "Updated" }⟩
  same := rfl

/-- A record of the test, with the row after it. -/
def smokeRecord (offset : Int) (value : Option (Operation × Option Customer)) : Message where
  coord := ⟨"shop.public.customers", 0, offset⟩
  key := some 7
  value := value.map fun event => ⟨.known event.1, none, event.2, some ⟨some offset, some 0⟩, none⟩
  timestampMs := some 0

def smokeRecords : List Message :=
  [smokeRecord 0 (some (.c, some smokeCustomer.created)), smokeRecord 1 (some (.u, some smokeCustomer.updated)),
    smokeRecord 2 (some (.d, none)), smokeRecord 3 none]

theorem smokeRecords_partition : OnePartition sampleHome smokeRecords where
  partition := by decide
  ordered := by
    have hordered : smokeRecords.Pairwise fun a b => a.offset < b.offset := by decide
    exact hordered
  nonneg := by decide

theorem smokeHistory : SmokeHistory Table.empty smokeCustomer.mutate smokeCustomer where
  fresh := rfl
  statements := rfl

theorem smokeRecord_publishes (offset : Int) (value : Option (Operation × Option Customer)) :
    Publishes ⟨7, value⟩ (smokeRecord offset value) where
  key := rfl
  tombstone h := by
    dsimp only at h
    rw [h]
    rfl
  event operation after h := by
    dsimp only at h
    rw [h]
    exact ⟨_, offset, rfl, rfl, rfl, rfl⟩

theorem smokeRecords_publish : List.Forall₂ Publishes (Cdc.changes Table.empty smokeCustomer.mutate) smokeRecords :=
  .cons (smokeRecord_publishes _ _) (.cons (smokeRecord_publishes _ _) (.cons (smokeRecord_publishes _ _)
    (.cons (smokeRecord_publishes _ _) .nil)))

def smokeLogs : Logs := oneLog sampleHome smokeRecords smokeRecords_partition

theorem smokeRecords_key : ∀ m ∈ smokeRecords, m.key = some 7 := by decide

theorem smokeChanges_key : ∀ c ∈ Cdc.changes Table.empty smokeCustomer.mutate, c.key = 7 := by decide

theorem smokeRecords_lsn : LsnOrdered smokeRecords := by
  have hlsn : smokeRecords.Pairwise fun m m' => m.key = m'.key → ∀ l ∈ m.lsn, ∀ l' ∈ m'.lsn, l < l' := by decide
  exact hlsn

def smokeDelivers : Delivers (Cdc.changes Table.empty smokeCustomer.mutate) smokeLogs :=
  oneLogDelivers smokeChanges_key smokeRecords_key smokeRecords_publish smokeRecords_lsn

/-- Empty polls and the end of the partition come between the records. -/
def smokePolls : List PollResult := .nothing :: (smokeRecords.flatMap fun m => [.record m, .partitionEof])

theorem smokePolls_read : ReadFrom smokeLogs (fun _ => 0) smokePolls where
  clean error h := by simp [smokePolls, smokeRecords] at h
  next p := by
    have hrecords : polledRecords smokePolls = smokeRecords := rfl
    rw [hrecords, List.drop_zero]
    by_cases hp : p = sampleHome
    · subst hp
      exact List.prefix_rfl
    · have hnone : ofPartition p smokeRecords = [] := List.filter_eq_nil_iff.mpr fun m hm he =>
        hp ((of_decide_eq_true he).symm.trans (smokeRecords_partition.partition m hm))
      rw [hnone]
      exact List.nil_prefix

theorem verify_cdc_smoke : watch 7 ⟨[], false⟩ smokePolls = .passed := by
  refine (verify_cdc_iff smokeDelivers smokeHistory smokePolls_read).1.mpr fun m hm _ => ?_
  exact (mem_oneLog hm).2

/-- The tables are polled once after each of the first, the second and the last record. -/
theorem verify_materialization_smoke : ∃ created updated deleted : State,
    verifyMaterialization 7 [created.store] [updated.store] [deleted.store] = true := by
  have hread : ∀ m ∈ smokeRecords, Readable m := by
    intro m hm
    obtain ⟨change, hchange, hpub⟩ := exists_of_forall₂ smokeRecords_publish hm
    exact (hpub.customerRecord (changes_complete change hchange)).readable
  have hstate : ∀ n, ∃ s, Reachable smokeLogs s ∧ s.delivered = smokeRecords.take n := fun n =>
    reachable_oneLog (List.take_prefix n _) (by rw [List.length_take]; exact (min_le_right _ _).trans (by decide))
      fun m hm => hread m (List.mem_of_mem_take hm)
  obtain ⟨created, hcreated, hone⟩ := hstate 1
  obtain ⟨updated, hupdated, htwo⟩ := hstate 2
  obtain ⟨deleted, hdeleted, hfour⟩ := hstate 4
  refine ⟨created, updated, deleted, (verify_materialization_iff smokeHistory ⟨rfl, rfl⟩ smokeDelivers
    [created] [updated] [deleted] fun s hs => ?_).mpr ⟨?_, ?_, ?_⟩⟩
  · simp only [List.mem_singleton] at hs
    rcases hs with rfl | rfl | rfl
    · exact hcreated
    · exact hupdated
    · exact hdeleted
  · refine ⟨created, List.mem_singleton_self _, ?_⟩
    unfold appliedFor
    rw [hone]
    rfl
  · refine ⟨updated, List.mem_singleton_self _, ?_⟩
    unfold appliedFor
    rw [htwo]
    rfl
  · refine ⟨deleted, List.mem_singleton_self _, ?_⟩
    unfold appliedFor
    rw [hfour]
    rfl

end LocalDataPlatform.Cdc

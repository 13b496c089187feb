import Mathlib.Data.List.Induction
import Mathlib.Logic.Relation
import LocalDataPlatform.Cdc.CustomerFold
import LocalDataPlatform.Runs.OrderedLog

/-!
# The materializer as a machine

`main` of `cdc/materialize_customers.py`: poll at most 500 records from the current positions,
write them in one database transaction, commit it, then commit the next offsets to Kafka.  The
process may end at any point, by a crash or a raised error, and starts again from the committed
offsets.

* `Logs` — the partition logs.
* `State` — the committed tables and offsets, the deliveries of all committed transactions, and
  what the process is doing.
* `Step` — one move: start, poll, one record of the transaction, database commit, offset commit, a
  partial offset commit, and the end of the process.
* `Inv` — the invariant that ties offsets, Bronze and Silver to the deliveries.

Principal results: `inv_of_reachable`, `order_extend` (a polled batch extends what is in Bronze in
log order), `fold_of_logOrder` (customers that stay in one partition make Silver independent of how
the partitions interleave), `no_offset_without_data`.
-/

set_option autoImplicit false

namespace LocalDataPlatform.Cdc

open Relational Runs

/-- Records polled at most at once. -/
def BATCH_SIZE : Nat := 500

/-- The partition logs: each in strictly increasing offsets, possibly with gaps. -/
structure Logs where
  records : TopicPartition → List Message
  partition : ∀ p, ∀ m ∈ records p, m.partition = p
  ordered : ∀ p, Ordered Message.offset (records p)
  nonneg : ∀ p, ∀ m ∈ records p, 0 ≤ m.offset

/-- Offsets to read next; `none` for the earliest. -/
abbrev Offsets := TopicPartition → Option Int

/-- The record lies before the offset to read next. -/
def Behind (offsets : Offsets) (m : Message) : Prop := ∃ o ∈ offsets m.partition, m.offset < o

instance (offsets : Offsets) (m : Message) : Decidable (Behind offsets m) :=
  match h : offsets m.partition with
  | none => isFalse (fun ⟨_, ho, _⟩ => by rw [h] at ho; cases ho)
  | some o => decidable_of_iff (m.offset < o)
      ⟨fun hlt => ⟨o, h, hlt⟩, fun ⟨_, ho, hlt⟩ => by rw [h] at ho; cases ho; exact hlt⟩

/-- The records of one partition. -/
def ofPartition (p : TopicPartition) (ms : List Message) : List Message :=
  ms.filter (fun m => decide (m.partition = p))

/-- What a partition holds from the current position on. -/
def unread (logs : Logs) (position : Offsets) (p : TopicPartition) : List Message :=
  (logs.records p).filter (fun m => decide (¬ Behind position m))

/-- A polled batch: of each partition the next records, the partitions interleaved in any way. -/
structure Polled (logs : Logs) (position : Offsets) (batch : List Message) : Prop where
  size : batch.length ≤ BATCH_SIZE
  next : ∀ p, ofPartition p batch <+: unread logs position p

/-- What the process is doing. -/
inductive Process where
  | down
  /-- Between two polls. -/
  | running (position : Offsets)
  /-- In the transaction of a polled batch, with the records done and to do. -/
  | transaction (position : Offsets) (done rest : List Message) (result : BatchResult)
  /-- The transaction is committed, its offsets are not. -/
  | acknowledging (position : Offsets) (batch : List Message)

structure State where
  store : Store
  committed : Offsets
  /-- The records of all committed transactions, in order of delivery. -/
  delivered : List Message
  process : Process

def State.initial : State := ⟨Store.empty, fun _ => none, [], .down⟩

/-- One move of the materializer. -/
inductive Step (logs : Logs) : State → State → Prop
  | start (s : State) (h : s.process = .down) :
    Step logs s { s with process := .running s.committed }
  | poll (s : State) (position : Offsets) (batch : List Message) (h : s.process = .running position)
      (hp : Polled logs position batch) :
    Step logs s { s with process := .transaction position [] batch ⟨s.store, 0, 0⟩ }
  | record (s : State) (position : Offsets) (done : List Message) (m : Message) (rest : List Message)
      (result result' : BatchResult) (h : s.process = .transaction position done (m :: rest) result)
      (hr : result.process m = .ok result') :
    Step logs s { s with process := .transaction position (done ++ [m]) rest result' }
  | commit (s : State) (position : Offsets) (batch : List Message) (result : BatchResult)
      (h : s.process = .transaction position batch [] result) :
    Step logs s { s with
      store := result.store
      delivered := s.delivered ++ batch
      process := .acknowledging position batch }
  | acknowledge (s : State) (position : Offsets) (batch : List Message)
      (h : s.process = .acknowledging position batch) :
    Step logs s { s with
      committed := commitOffsets s.committed batch
      process := .running (commitOffsets position batch) }
  /-- Only some partitions are acknowledged before the process ends. -/
  | acknowledgePart (s : State) (position : Offsets) (batch : List Message)
      (acked : TopicPartition → Bool) (h : s.process = .acknowledging position batch) :
    Step logs s { s with
      committed := fun p => if acked p then commitOffsets s.committed batch p else s.committed p
      process := .down }
  /-- A crash, a raised error or a clean stop; an open transaction is rolled back. -/
  | stop (s : State) : Step logs s { s with process := .down }

/-- The states of all runs from an empty database. -/
def Reachable (logs : Logs) (s : State) : Prop := Relation.ReflTransGen (Step logs) State.initial s

/-! ## The invariant -/

/-- Every record before the offsets was delivered. -/
def Delivered (logs : Logs) (offsets : Offsets) (delivered : List Message) : Prop :=
  ∀ p, ∀ m ∈ logs.records p, Behind offsets m → m ∈ delivered

/-- What the process relies on. -/
def ProcessInv (logs : Logs) (s : State) : Process → Prop
  | .down => True
  | .running position => Delivered logs position s.delivered
  | .transaction position done rest result =>
    Delivered logs position s.delivered ∧ Polled logs position (done ++ rest) ∧
      processBatch s.store done = .ok result
  | .acknowledging position batch =>
    Delivered logs position s.delivered ∧ Delivered logs (nextOffsets batch) s.delivered

structure Inv (logs : Logs) (s : State) : Prop where
  materialized : Materialized s.delivered s.store
  inLog : ∀ m ∈ s.delivered, m ∈ logs.records m.partition
  inOrder : ∀ p, ofPartition p (firstDeliveries s.delivered) <+: logs.records p
  committed : Delivered logs s.committed s.delivered
  process : ProcessInv logs s s.process

section Batch

variable {logs : Logs} {position : Offsets} {batch delivered : List Message} {m : Message}

theorem Delivered.mono {offsets : Offsets} {delivered' : List Message}
    (h : Delivered logs offsets delivered) (hsub : delivered ⊆ delivered') :
    Delivered logs offsets delivered' :=
  fun p m hm hb => hsub (h p m hm hb)

theorem Delivered.commitOffsets {offsets : Offsets} (h : Delivered logs offsets delivered)
    (hb : Delivered logs (nextOffsets batch) delivered) :
    Delivered logs (commitOffsets offsets batch) delivered := by
  rintro p m hm ⟨o, ho, hlt⟩
  unfold Cdc.commitOffsets at ho
  cases hn : nextOffsets batch m.partition with
  | none =>
    rw [hn] at ho
    exact h p m hm ⟨o, ho, hlt⟩
  | some o' =>
    rw [hn] at ho
    cases ho
    exact hb p m hm ⟨_, hn, hlt⟩

theorem nextOffsets_concat : nextOffsets (batch ++ [m]) =
    Function.update (nextOffsets batch) m.partition
      (some (max ((nextOffsets batch m.partition).getD 0) (m.offset + 1))) := by
  unfold nextOffsets
  rw [List.foldl_append, List.foldl_cons, List.foldl_nil]

/-- The offset to read next lies just after a record of the batch. -/
theorem nextOffsets_spec (hpos : ∀ m ∈ batch, 0 ≤ m.offset) {p : TopicPartition} {o : Int}
    (h : nextOffsets batch p = some o) : ∃ m ∈ batch, m.partition = p ∧ o = m.offset + 1 := by
  induction batch using List.reverseRecOn generalizing p o with
  | nil => cases h
  | append_singleton batch m ih =>
    have hpos' : ∀ m' ∈ batch, 0 ≤ m'.offset := fun m' hm => hpos m' (List.mem_append_left _ hm)
    have hm : 0 ≤ m.offset := hpos m (by simp)
    rw [nextOffsets_concat] at h
    by_cases hp : p = m.partition
    · subst hp
      rw [Function.update_self] at h
      cases hn : nextOffsets batch m.partition with
      | none =>
        rw [hn, Option.getD_none, Option.some.injEq] at h
        exact ⟨m, by simp, rfl, by omega⟩
      | some o' =>
        rw [hn, Option.getD_some, Option.some.injEq] at h
        obtain ⟨m', hm', hp', ho'⟩ := ih hpos' hn
        rcases le_total o' (m.offset + 1) with hle | hle
        · exact ⟨m, by simp, rfl, by omega⟩
        · exact ⟨m', List.mem_append_left _ hm', hp', by omega⟩
    · rw [Function.update_of_ne hp] at h
      obtain ⟨m', hm', hp', ho'⟩ := ih hpos' h
      exact ⟨m', List.mem_append_left _ hm', hp', ho'⟩

theorem mem_ofPartition {p : TopicPartition} {ms : List Message} :
    m ∈ ofPartition p ms ↔ m ∈ ms ∧ m.partition = p := by
  simp [ofPartition]

theorem mem_unread {p : TopicPartition} :
    m ∈ unread logs position p ↔ m ∈ logs.records p ∧ ¬ Behind position m := by
  simp [unread]

theorem unread_ordered (p : TopicPartition) : Ordered Message.offset (unread logs position p) :=
  (logs.ordered p).sublist List.filter_sublist

theorem Polled.mem_records (h : Polled logs position batch) (hm : m ∈ batch) :
    m ∈ logs.records m.partition := by
  have hmem := (h.next m.partition).subset (mem_ofPartition.mpr ⟨hm, rfl⟩)
  exact (mem_unread.mp hmem).1

/-- A polled batch holds every unread record up to any of its own. -/
theorem Polled.mem_of_le (h : Polled logs position batch) {x : Message} (hm : m ∈ batch)
    (hx : x ∈ logs.records m.partition) (hunread : ¬ Behind position x) (hle : x.offset ≤ m.offset) :
    x ∈ ofPartition m.partition batch :=
  (unread_ordered m.partition).prefix_mem (h.next m.partition) (mem_ofPartition.mpr ⟨hm, rfl⟩)
    (mem_unread.mpr ⟨hx, hunread⟩) hle

/-- A batch keeps the order of each partition. -/
theorem Polled.le_of_mem_cons {done rest : List Message} (h : Polled logs position (done ++ m :: rest))
    {y : Message} (hy : y ∈ m :: rest) (hp : y.partition = m.partition) : m.offset ≤ y.offset := by
  have hord : Ordered Message.offset (ofPartition m.partition (done ++ m :: rest)) :=
    (unread_ordered m.partition).sublist (h.next m.partition).sublist
  unfold ofPartition at hord
  rw [List.filter_append, List.filter_cons_of_pos (by simp)] at hord
  rcases List.mem_cons.mp hy with rfl | hy
  · exact le_refl _
  · exact ((List.pairwise_cons.mp (List.pairwise_append.mp hord).2.1).1 y
      (mem_ofPartition.mpr ⟨hy, hp⟩)).le

/-- **The offsets of a batch acknowledge delivered records only.** -/
theorem Polled.delivered_nextOffsets (h : Polled logs position batch)
    (hd : Delivered logs position delivered) :
    Delivered logs (nextOffsets batch) (delivered ++ batch) := by
  rintro p x hx ⟨o, ho, hlt⟩
  have hxp : x.partition = p := logs.partition p x hx
  have hpos : ∀ m ∈ batch, 0 ≤ m.offset :=
    fun m hm => logs.nonneg m.partition m (h.mem_records hm)
  obtain ⟨m, hm, hp, rfl⟩ := nextOffsets_spec hpos ho
  by_cases hb : Behind position x
  · exact List.mem_append_left _ (hd p x hx hb)
  · have hxm : x ∈ logs.records m.partition := by rw [hp, hxp]; exact hx
    have hmem := h.mem_of_le hm hxm hb (by omega)
    exact List.mem_append_right _ (mem_ofPartition.mp hmem).1

end Batch

/-! ## Bronze fills up in log order -/

section Order

variable {logs : Logs} {position : Offsets} {delivered : List Message} {m : Message}

/-- Records of the logs are told apart by their positions. -/
theorem Logs.eq_of_coord {m' : Message} (hm : m ∈ logs.records m.partition)
    (hm' : m' ∈ logs.records m'.partition) (hc : m.coord = m'.coord) : m = m' := by
  have hp : m.partition = m'.partition := by unfold Message.partition; rw [hc]
  rw [← hp] at hm'
  exact (logs.ordered m.partition).eq_of_pos hm hm' (congrArg Coord.offset hc)

/-- A delivered record is its own first delivery. -/
theorem mem_firstDeliveries_of_inLog (hlog : ∀ m ∈ delivered, m ∈ logs.records m.partition)
    (hm : m ∈ delivered) : m ∈ firstDeliveries delivered := by
  obtain ⟨m', hm', hc⟩ : ∃ m' ∈ firstDeliveries delivered, m'.coord = m.coord := exists_mem_dedup hm
  have heq := Logs.eq_of_coord (hlog m' (mem_firstDeliveries hm')) (hlog m hm) hc
  exact heq ▸ hm'

/-- The next record of a transaction extends what Bronze holds of its partition. -/
theorem order_step {done rest : List Message}
    (hlog : ∀ x ∈ delivered ++ done, x ∈ logs.records x.partition)
    (hdel : Delivered logs position delivered) (hpoll : Polled logs position (done ++ m :: rest))
    (horder : ∀ p, ofPartition p (firstDeliveries (delivered ++ done)) <+: logs.records p)
    (p : TopicPartition) :
    ofPartition p (firstDeliveries (delivered ++ done ++ [m])) <+: logs.records p := by
  have hm : m ∈ done ++ m :: rest := by simp
  have hmlog := hpoll.mem_records hm
  unfold firstDeliveries
  rw [dedup_concat]
  split
  · exact horder p
  · rename_i hnew
    unfold ofPartition
    rw [List.filter_append]
    by_cases hp : m.partition = p
    · have hone : [m].filter (fun m => decide (m.partition = p)) = [m] := by simp [hp]
      rw [hone]
      subst hp
      refine (logs.ordered m.partition).prefix_concat (horder m.partition) hmlog ?_ ?_
      · intro hmem
        exact hnew ⟨m, mem_firstDeliveries (mem_ofPartition.mp hmem).1, rfl⟩
      · intro y hy hlt
        refine mem_ofPartition.mpr ⟨mem_firstDeliveries_of_inLog hlog ?_, logs.partition _ y hy⟩
        by_cases hb : Behind position y
        · exact List.mem_append_left _ (hdel _ y hy hb)
        · -- `y` was polled with `m`, and the batch keeps the order of the partition
          have hbatch := (mem_ofPartition.mp (hpoll.mem_of_le hm hy hb hlt.le)).1
          rcases List.mem_append.mp hbatch with hdone | hrest
          · exact List.mem_append_right _ hdone
          · exact absurd hlt (not_lt_of_ge (hpoll.le_of_mem_cons hrest (logs.partition _ y hy)))
    · have hnone : [m].filter (fun m => decide (m.partition = p)) = [] := by simp [hp]
      rw [hnone, List.append_nil]
      exact horder p

/-- **A polled batch extends what is in Bronze in log order.** -/
theorem order_extend : ∀ (rest done : List Message),
    (∀ x ∈ delivered ++ done, x ∈ logs.records x.partition) → Delivered logs position delivered →
    Polled logs position (done ++ rest) →
    (∀ p, ofPartition p (firstDeliveries (delivered ++ done)) <+: logs.records p) →
    ∀ p, ofPartition p (firstDeliveries (delivered ++ (done ++ rest))) <+: logs.records p
  | [], done, _, _, _, horder => by
    rw [List.append_nil]
    exact horder
  | m :: rest, done, hlog, hdel, hpoll, horder => by
    have hm := hpoll.mem_records (show m ∈ done ++ m :: rest by simp)
    have hstep := order_step hlog hdel hpoll horder
    rw [List.append_assoc] at hstep
    have hlog' : ∀ x ∈ delivered ++ (done ++ [m]), x ∈ logs.records x.partition := by
      intro x hx
      rw [← List.append_assoc] at hx
      rcases List.mem_append.mp hx with hx | hx
      · exact hlog x hx
      · rw [List.mem_singleton.mp hx]
        exact hm
    have hrest := order_extend rest (done ++ [m]) hlog' hdel (by simpa using hpoll) hstep
    simpa using hrest

end Order

/-! ## The invariant is kept -/

theorem inv_initial (logs : Logs) : Inv logs State.initial where
  materialized := Materialized.empty
  inLog m hm := by cases hm
  inOrder p := List.nil_prefix
  committed p m _ hb := by
    obtain ⟨o, ho, -⟩ := hb
    cases ho
  process := trivial

/-- The invariant of the committed part with a process that relies on what is given. -/
theorem Inv.withProcess {logs : Logs} {s : State} (h : Inv logs s) {process : Process}
    (hp : ProcessInv logs s process) : Inv logs { s with process := process } := by
  refine ⟨h.materialized, h.inLog, h.inOrder, h.committed, ?_⟩
  cases process <;> exact hp

/-- **Every move keeps the invariant.** -/
theorem inv_step {logs : Logs} {s s' : State} (h : Inv logs s) (hstep : Step logs s s') :
    Inv logs s' := by
  have hproc := h.process
  cases hstep with
  | start hs => exact h.withProcess h.committed
  | poll position batch hs hpoll =>
    rw [hs] at hproc
    exact h.withProcess ⟨hproc, hpoll, rfl⟩
  | record position done m rest result result' hs hr =>
    rw [hs] at hproc
    obtain ⟨hdel, hpoll, hok⟩ := hproc
    refine h.withProcess ⟨hdel, by simpa using hpoll, ?_⟩
    unfold processBatch at hok ⊢
    rw [List.foldlM_append, hok]
    simp only [List.foldlM_cons, List.foldlM_nil, bind_pure]
    exact hr
  | commit position batch result hs =>
    rw [hs] at hproc
    obtain ⟨hdel, hpoll, hok⟩ := hproc
    rw [List.append_nil] at hpoll
    have hsub : s.delivered ⊆ s.delivered ++ batch := List.subset_append_left _ _
    have horder := order_extend batch [] (by simpa using h.inLog) hdel hpoll (by simpa using h.inOrder)
    refine ⟨processBatch_materialized h.materialized hok, ?_, by simpa using horder,
      h.committed.mono hsub, hdel.mono hsub, hpoll.delivered_nextOffsets hdel⟩
    intro x hx
    rcases List.mem_append.mp hx with hx | hx
    · exact h.inLog x hx
    · exact hpoll.mem_records hx
  | acknowledge position batch hs =>
    rw [hs] at hproc
    obtain ⟨hdel, hnext⟩ := hproc
    exact ⟨h.materialized, h.inLog, h.inOrder, h.committed.commitOffsets hnext,
      hdel.commitOffsets hnext⟩
  | acknowledgePart position batch acked hs =>
    rw [hs] at hproc
    obtain ⟨-, hnext⟩ := hproc
    refine ⟨h.materialized, h.inLog, h.inOrder, ?_, trivial⟩
    rintro p m hm ⟨o, ho, hlt⟩
    dsimp only at ho
    split at ho
    · exact h.committed.commitOffsets hnext p m hm ⟨o, ho, hlt⟩
    · exact h.committed p m hm ⟨o, ho, hlt⟩
  | stop => exact h.withProcess trivial

/-- **The invariant holds in every reachable state.** -/
theorem inv_of_reachable {logs : Logs} {s : State} (h : Reachable logs s) : Inv logs s := by
  induction h with
  | refl => exact inv_initial logs
  | tail _ hstep ih => exact inv_step ih hstep

/-! ## Silver does not depend on how partitions interleave -/

variable {ms : List Message} {id : Uuid}

/-- A customer whose records stay in one partition is folded from that partition alone. -/
theorem foldl_ofPartition {p : TopicPartition} (old? : Option SilverRow)
    (hhome : ∀ m ∈ ms, ∀ row, Brings m row → row.customerId = id → m.partition = p) :
    ms.foldl (arriveFor id) old? = (ofPartition p ms).foldl (arriveFor id) old? := by
  refine foldl_filter_of_skip ms old? fun m hm hp old? => arriveFor_skip (fun row hb hid => ?_) old?
  exact absurd (hhome m hm row hb hid) (of_decide_eq_false hp)

/-- An order of the applied records that keeps the order of each partition log. -/
structure LogOrder (logs : Logs) (applied order : List Message) : Prop where
  perm : order.Perm applied
  inOrder : ∀ p, (ofPartition p order).Sublist (logs.records p)

/-- All records that write one customer are in one partition. -/
def Keyed (logs : Logs) : Prop :=
  ∀ p p', ∀ m ∈ logs.records p, ∀ m' ∈ logs.records p', ∀ row row', Brings m row → Brings m' row' →
    row.customerId = row'.customerId → p = p'

/-- Whether a record is refused does not depend on Silver. -/
theorem applyMessage_ok {silver silver' : Silver} {m : Message}
    (h : applyMessage silver m = .ok silver') (other : Silver) :
    ∃ other', applyMessage other m = .ok other' := by
  unfold applyMessage at h ⊢
  cases hk : m.key with
  | none =>
    rw [hk] at h
    cases h
  | some key =>
    rw [hk] at h
    dsimp only at h ⊢
    rw [applySilver_eq] at h ⊢
    cases hs : silverRow m key with
    | error text =>
      rw [hs] at h
      cases h
    | ok row? => exact ⟨_, rfl⟩

/-- A fold that succeeds accepts each of its records. -/
theorem accepted_of_fold : ∀ {ms : List Message} {silver silver' : Silver},
    ms.foldlM applyMessage silver = .ok silver' → ∀ m ∈ ms, ∀ other, ∃ other', applyMessage other m = .ok other'
  | [], _, _, _, m, hm => by cases hm
  | m₀ :: ms, silver, silver', h, m, hm => by
    rw [List.foldlM_cons] at h
    obtain ⟨next, hfirst, hrest⟩ := bind_eq_ok.mp h
    rcases List.mem_cons.mp hm with rfl | hm
    · exact applyMessage_ok hfirst
    · exact accepted_of_fold hrest m hm

/-- **Every order of the applied records that keeps the partition logs gives the same Silver**,
when each customer stays in one partition. -/
theorem fold_of_logOrder {logs : Logs} {applied order : List Message} {silver : Silver}
    (hkeyed : Keyed logs) (happlied : LogOrder logs applied applied)
    (horder : LogOrder logs applied order)
    (h : applied.foldlM applyMessage Table.empty = .ok silver) :
    ∃ silver', order.foldlM applyMessage Table.empty = .ok silver' ∧
      ∀ id, silver'.find? id = silver.find? id := by
  have hmem : ∀ m ∈ order, m ∈ applied := fun m hm => horder.perm.subset hm
  obtain ⟨silver', hok⟩ := foldlM_total order (Table.empty : Silver)
    (fun m hm => accepted_of_fold h m (hmem m hm))
  refine ⟨silver', hok, fun id => ?_⟩
  rw [find?_fold hok, find?_fold h]
  have hlog : ∀ m ∈ applied, m ∈ logs.records m.partition := fun m hm =>
    (happlied.inOrder m.partition).subset (mem_ofPartition.mpr ⟨hm, rfl⟩)
  -- the partition of the customer, if any record writes it
  obtain ⟨p, hp⟩ : ∃ p, ∀ m ∈ applied, ∀ row, Brings m row → row.customerId = id → m.partition = p := by
    by_cases hex : ∃ m₀ ∈ applied, ∃ row₀, Brings m₀ row₀ ∧ row₀.customerId = id
    · obtain ⟨m₀, hm₀, row₀, hb₀, rfl⟩ := hex
      exact ⟨m₀.partition, fun m hm row hb hid =>
        hkeyed _ _ m (hlog m hm) m₀ (hlog m₀ hm₀) row row₀ hb hb₀ hid⟩
    · exact ⟨⟨"", 0⟩, fun m hm row hb hid => absurd ⟨m, hm, row, hb, hid⟩ hex⟩
  rw [foldl_ofPartition none hp, foldl_ofPartition none (fun m hm => hp m (hmem m hm)),
    (logs.ordered p).eq_of_sublist (horder.inOrder p) (happlied.inOrder p) (horder.perm.filter _)]

/-! ## Readable batches go through -/

/-- An open transaction of readable records reaches its end. -/
theorem reachable_transaction {logs : Logs} {position : Offsets} : ∀ (rest done : List Message)
    (result : BatchResult) (s : State), Reachable logs s →
    s.process = .transaction position done rest result → (∀ m ∈ rest, Readable m) →
    ∃ result', Reachable logs { s with process := .transaction position (done ++ rest) [] result' }
  | [], done, result, s, h, hs, _ => by
    refine ⟨result, ?_⟩
    rw [List.append_nil, ← hs]
    exact h
  | m :: rest, done, result, s, h, hs, hread => by
    obtain ⟨result', hr⟩ := process_total (hread m List.mem_cons_self) result
    have hnext := h.tail (Step.record s position done m rest result result' hs hr)
    obtain ⟨final, hfinal⟩ := reachable_transaction rest (done ++ [m]) result' _ hnext rfl
      (fun m' hm' => hread m' (List.mem_cons_of_mem _ hm'))
    exact ⟨final, by simpa using hfinal⟩

/-- **A polled batch of readable records can be written.** -/
theorem reachable_commit {logs : Logs} {position : Offsets} {batch : List Message} {s : State}
    (h : Reachable logs s) (hs : s.process = .running position) (hp : Polled logs position batch)
    (hread : ∀ m ∈ batch, Readable m) :
    ∃ s', Reachable logs s' ∧ s'.process = .acknowledging position batch ∧
      s'.committed = s.committed ∧ s'.delivered = s.delivered ++ batch := by
  obtain ⟨result, hdone⟩ := reachable_transaction batch [] _ _
    (h.tail (Step.poll s position batch hs hp)) rfl hread
  exact ⟨_, hdone.tail (Step.commit _ position batch result rfl), rfl, rfl, rfl⟩

/-! ## The main result -/

/-- **No committed offset without the data, at every point of every run.**  In every reachable
state, with `firstDeliveries s.delivered` the records applied so far in the order they were applied:
committed offsets cover applied records only; Bronze has exactly one row for each of them, with its
columns; Silver is their fold in log order; and the next move changes the database by a whole
batch or not at all. -/
theorem no_offset_without_data (logs : Logs) (s : State) (h : Reachable logs s) :
    (∀ p, ∀ m ∈ logs.records p, ∀ o, s.committed p = some o → m.offset < o →
      ∃ row ∈ s.store.bronze.rows, row.coord = m.coord) ∧
    (List.Forall₂ RecordedAs (firstDeliveries s.delivered) s.store.bronze.rows ∧
      (∀ m, m ∈ firstDeliveries s.delivered ↔ m ∈ s.delivered) ∧
      ∀ m ∈ s.delivered, m ∈ logs.records m.partition) ∧
    (LogOrder logs (firstDeliveries s.delivered) (firstDeliveries s.delivered) ∧
      (firstDeliveries s.delivered).foldlM applyMessage Table.empty = .ok s.store.silver ∧
      (Keyed logs → ∀ order, LogOrder logs (firstDeliveries s.delivered) order →
        ∃ silver, order.foldlM applyMessage Table.empty = .ok silver ∧
          ∀ id, silver.find? id = s.store.silver.find? id)) ∧
    ∀ s', Step logs s s' →
      (s'.store = s.store ∧ s'.delivered = s.delivered) ∨
        (s'.committed = s.committed ∧ ∃ position batch result, Polled logs position batch ∧
          processBatch s.store batch = .ok result ∧ s'.store = result.store ∧
          s'.delivered = s.delivered ++ batch) := by
  have hinv := inv_of_reachable h
  have happlied : LogOrder logs (firstDeliveries s.delivered) (firstDeliveries s.delivered) :=
    ⟨List.Perm.refl _, fun p => (hinv.inOrder p).sublist⟩
  refine ⟨?_, ⟨hinv.materialized.bronze, fun m => ⟨mem_firstDeliveries,
    mem_firstDeliveries_of_inLog hinv.inLog⟩, hinv.inLog⟩, ⟨happlied, hinv.materialized.silver,
    fun hkeyed order horder => fold_of_logOrder hkeyed happlied horder hinv.materialized.silver⟩, ?_⟩
  · intro p m hm o ho hlt
    have hp : m.partition = p := logs.partition p m hm
    have hdel := hinv.committed p m hm ⟨o, by rw [hp]; exact ho, hlt⟩
    have hknown : (s.store.bronze.find? m.coord).isSome :=
      hinv.materialized.knows.mpr ⟨m, hdel, rfl⟩
    exact lookup_isSome.mp hknown
  · intro s' hstep
    have hproc := hinv.process
    cases hstep with
    | commit position batch result hs =>
      rw [hs] at hproc
      obtain ⟨-, hpoll, hok⟩ := hproc
      rw [List.append_nil] at hpoll
      exact Or.inr ⟨rfl, position, batch, result, hpoll, hok, rfl, rfl⟩
    | start | poll | record | acknowledge | acknowledgePart | stop => exact Or.inl ⟨rfl, rfl⟩

/-! ## A batch that is acknowledged -/

/-- A customer is created and deleted. -/
def sampleLogs : Logs where
  records p := if p = ⟨"shop.public.customers", 0⟩ then
    [sampleMessage 0 .c 10 (some "a@x.org"), sampleMessage 1 .d 20 none] else []
  partition p m hm := by
    split at hm
    · rename_i hp
      rw [hp]
      rcases List.mem_cons.mp hm with rfl | hm
      · rfl
      · rw [List.mem_singleton.mp hm]
        rfl
    · cases hm
  ordered p := by
    split
    · exact List.pairwise_pair.mpr (by decide)
    · exact List.Pairwise.nil
  nonneg p m hm := by
    split at hm
    · rcases List.mem_cons.mp hm with rfl | hm
      · decide
      · rw [List.mem_singleton.mp hm]
        decide
    · cases hm

def sampleCreate : Message := sampleMessage 0 .c 10 (some "a@x.org")

theorem sampleCreate_polled : Polled sampleLogs (fun _ => none) [sampleCreate] where
  size := by decide
  next p := by
    by_cases hp : p = ⟨"shop.public.customers", 0⟩
    · subst hp
      decide
    · have hnone : ofPartition p [sampleCreate] = [] :=
        List.filter_cons_of_neg (by simpa using fun h => hp h.symm)
      rw [hnone]
      exact List.nil_prefix

/-- The first record is polled, written and acknowledged. -/
theorem reachable_acknowledged : ∃ s, Reachable sampleLogs s ∧
    s.committed ⟨"shop.public.customers", 0⟩ = some 1 := by
  have hread : Readable sampleCreate :=
    (sampleRecords_customerRecords.record sampleCreate List.mem_cons_self).readable
  have hrunning : Reachable sampleLogs ⟨Store.empty, fun _ => none, [], .running (fun _ => none)⟩ :=
    Relation.ReflTransGen.refl.tail (Step.start _ rfl)
  obtain ⟨s, hs, hproc, hcommitted, -⟩ := reachable_commit hrunning rfl sampleCreate_polled
    (fun m hm => by rw [List.mem_singleton.mp hm]; exact hread)
  refine ⟨_, hs.tail (Step.acknowledge s _ _ hproc), ?_⟩
  dsimp only
  rw [hcommitted]
  rfl

theorem no_offset_without_data_acknowledged :
    ∃ s : State, s.committed ⟨"shop.public.customers", 0⟩ = some 1 ∧
      ∃ row ∈ s.store.bronze.rows, row.coord = ⟨"shop.public.customers", 0, 0⟩ := by
  obtain ⟨s, hs, hc⟩ := reachable_acknowledged
  have hall := no_offset_without_data sampleLogs s hs
  have hmem : sampleCreate ∈ sampleLogs.records ⟨"shop.public.customers", 0⟩ := List.mem_cons_self
  exact ⟨s, hc, hall.1 _ sampleCreate hmem 1 hc (by decide)⟩

end LocalDataPlatform.Cdc

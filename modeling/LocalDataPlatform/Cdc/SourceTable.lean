import LocalDataPlatform.Cdc.Materializer

/-!
# `customers_current` is the source table

A history of `public.customers` reaches the topic as a snapshot of the rows followed by one change
event for each insert and update, and by a delete event and a tombstone for each delete.

* `SourceOp`, `applyOp` — the history; `changes` — what it emits.
* `Delivers` — partition logs that carry the changes: keyed by customer, one customer in one
  partition, complete images, `source.lsn` strictly increasing for each customer.
* `follow` — the row of a customer after one more of its changes.

Principal results: `foldl_follow_changes` (following the changes of a customer gives its source
row), `live_foldl` (the Silver fold follows the changes), `customersCurrent_eq_source`.
-/

set_option autoImplicit false

namespace LocalDataPlatform.Cdc

open Relational Runs

/-! ## The source -/

abbrev SourceTable := Table Customer Customer.customerId

/-- A statement on one row of `public.customers`. -/
inductive SourceOp where
  | insert (row : Customer)
  | update (row : Customer)
  | delete (customerId : Uuid)

/-- The effect of a statement: an insert of a known key is refused, an update or delete of an
unknown one touches no row. -/
def applyOp (t : SourceTable) : SourceOp → SourceTable
  | .insert row => t.putNew row
  | .update row => if (t.find? row.customerId).isSome then t.put row else t
  | .delete customerId => t.erase customerId

/-- A change as Debezium reports it: the operation and the full row after it, or a tombstone. -/
structure Change where
  key : Uuid
  value : Option (Operation × Option Customer)

/-- What a statement emits. -/
def emit (t : SourceTable) : SourceOp → List Change
  | .insert row =>
    if (t.find? row.customerId).isSome then [] else [⟨row.customerId, some (.c, some row)⟩]
  | .update row =>
    if (t.find? row.customerId).isSome then [⟨row.customerId, some (.u, some row)⟩] else []
  | .delete customerId =>
    if (t.find? customerId).isSome then [⟨customerId, some (.d, none)⟩, ⟨customerId, none⟩] else []

def changesOf (t : SourceTable) : List SourceOp → List Change
  | [] => []
  | op :: ops => emit t op ++ changesOf (applyOp t op) ops

/-- The initial snapshot. -/
def snapshot (rows : List Customer) : List Change :=
  rows.map (fun row => ⟨row.customerId, some (.r, some row)⟩)

/-- All changes of a history that starts with a table. -/
def changes (initial : SourceTable) (ops : List SourceOp) : List Change :=
  snapshot initial.rows ++ changesOf initial ops

/-- The source table at the end of a history. -/
def finalTable (initial : SourceTable) (ops : List SourceOp) : SourceTable := ops.foldl applyOp initial

/-- A change reports a complete image of its key, a deletion, or nothing. -/
def Change.Complete (c : Change) : Prop :=
  c.value = none ∨ c.value = some (.d, none) ∨
    ∃ operation row, c.value = some (operation, some row) ∧ row.customerId = c.key ∧
      (operation = .r ∨ operation = .c ∨ operation = .u)

/-- The row of a customer after one more of its changes. -/
def follow (row? : Option Customer) (c : Change) : Option Customer :=
  match c.value with
  | none => row?
  | some (_, after) => after

/-- The changes of one customer. -/
def changesFor (id : Uuid) (cs : List Change) : List Change := cs.filter (fun c => decide (c.key = id))

section Source

variable {t : SourceTable} {op : SourceOp} {id : Uuid}

theorem emit_complete : ∀ c ∈ emit t op, c.Complete := by
  intro c hc
  cases op with
  | insert row =>
    simp only [emit] at hc
    split at hc
    · cases hc
    · rw [List.mem_singleton.mp hc]
      exact Or.inr (Or.inr ⟨.c, row, rfl, rfl, Or.inr (Or.inl rfl)⟩)
  | update row =>
    simp only [emit] at hc
    split at hc
    · rw [List.mem_singleton.mp hc]
      exact Or.inr (Or.inr ⟨.u, row, rfl, rfl, Or.inr (Or.inr rfl)⟩)
    · cases hc
  | delete customerId =>
    simp only [emit] at hc
    split at hc
    · rcases List.mem_cons.mp hc with rfl | hc
      · exact Or.inr (Or.inl rfl)
      · rw [List.mem_singleton.mp hc]
        exact Or.inl rfl
    · cases hc

theorem changesOf_complete : ∀ (ops : List SourceOp) (t : SourceTable), ∀ c ∈ changesOf t ops, c.Complete
  | [], _, c, hc => by cases hc
  | op :: ops, t, c, hc => by
    rcases List.mem_append.mp hc with hc | hc
    · exact emit_complete c hc
    · exact changesOf_complete ops _ c hc

theorem changes_complete {initial : SourceTable} {ops : List SourceOp} :
    ∀ c ∈ changes initial ops, c.Complete := by
  intro c hc
  rcases List.mem_append.mp hc with hc | hc
  · obtain ⟨row, -, rfl⟩ := List.mem_map.mp hc
    exact Or.inr (Or.inr ⟨.r, row, rfl, rfl, Or.inl rfl⟩)
  · exact changesOf_complete ops initial c hc

theorem changesFor_append {cs cs' : List Change} :
    changesFor id (cs ++ cs') = changesFor id cs ++ changesFor id cs' :=
  List.filter_append ..

theorem changesFor_cons {c : Change} {cs : List Change} :
    changesFor id (c :: cs) = if c.key = id then c :: changesFor id cs else changesFor id cs := by
  unfold changesFor
  rw [List.filter_cons]
  simp only [decide_eq_true_eq]

/-- **What a statement emits says what it does to a row.** -/
theorem foldl_follow_emit :
    (changesFor id (emit t op)).foldl follow (t.find? id) = (applyOp t op).find? id := by
  cases op with
  | insert row =>
    simp only [emit, applyOp, Table.find?_putNew]
    cases hf : t.find? row.customerId with
    | some old =>
      by_cases hid : row.customerId = id
      · rw [← hid, hf]
        rfl
      · simp [hid, changesFor]
    | none =>
      by_cases hid : row.customerId = id
      · rw [← hid, hf]
        simp [changesFor, follow]
      · simp [hid, changesFor]
  | update row =>
    simp only [emit, applyOp]
    cases hf : t.find? row.customerId with
    | none => rfl
    | some old =>
      simp only [Option.isSome_some, if_true, Table.find?_put, changesFor_cons]
      split <;> rfl
  | delete customerId =>
    simp only [emit, applyOp, Table.find?_erase, eq_comm (a := id)]
    cases hf : t.find? customerId with
    | none =>
      by_cases hid : customerId = id
      · rw [if_pos hid, ← hid, hf]
        rfl
      · rw [if_neg hid]
        rfl
    | some old =>
      simp only [Option.isSome_some, if_true, changesFor_cons]
      split <;> rfl

theorem foldl_follow_changesOf : ∀ (ops : List SourceOp) (t : SourceTable),
    (changesFor id (changesOf t ops)).foldl follow (t.find? id) = (finalTable t ops).find? id
  | [], _ => rfl
  | op :: ops, t => by
    rw [changesOf, changesFor_append, List.foldl_append, foldl_follow_emit]
    exact foldl_follow_changesOf ops (applyOp t op)

/-- Following a snapshot of unique rows looks the row up. -/
theorem foldl_follow_snapshot : ∀ {rows : List Customer} (row? : Option Customer),
    UniqueOn Customer.customerId rows →
    (changesFor id (snapshot rows)).foldl follow row? = (lookup Customer.customerId rows id).or row?
  | [], _, _ => rfl
  | row :: rows, row?, hu => by
    have hrows : UniqueOn Customer.customerId rows := (List.nodup_cons.mp hu).2
    change (changesFor id (⟨row.customerId, some (.r, some row)⟩ :: snapshot rows)).foldl follow row? = _
    rw [changesFor_cons, lookup_cons]
    by_cases hid : row.customerId = id
    · have hnone : lookup Customer.customerId rows id = none := by
        refine lookup_eq_none.mpr fun row' hrow' he => ?_
        exact (List.nodup_cons.mp hu).1 (List.mem_map.mpr ⟨row', hrow', he.trans hid.symm⟩)
      rw [if_pos hid, if_pos hid, List.foldl_cons, foldl_follow_snapshot _ hrows, hnone]
      rfl
    · rw [if_neg hid, if_neg hid]
      exact foldl_follow_snapshot row? hrows

/-- **Following the changes of a customer gives its source row.** -/
theorem foldl_follow_changes {initial : SourceTable} {ops : List SourceOp} :
    (changesFor id (changes initial ops)).foldl follow none = (finalTable initial ops).find? id := by
  unfold changes
  rw [changesFor_append, List.foldl_append, foldl_follow_snapshot none initial.unique, Option.or_none]
  exact foldl_follow_changesOf ops initial

end Source

/-! ## Delivery -/

/-- The record carries the change. -/
structure Publishes (c : Change) (m : Message) : Prop where
  key : m.key = some c.key
  tombstone : c.value = none → m.value = none
  event : ∀ operation after, c.value = some (operation, after) → ∃ event lsn, m.value = some event ∧
    event.op = .known operation ∧ event.after = after ∧ event.lsn = some lsn

/-- Partition logs that carry changes: the records of a customer are its changes, in order, in one
partition, with increasing `source.lsn`. -/
structure Delivers (cs : List Change) (logs : Logs) where
  home : Uuid → TopicPartition
  keyed : ∀ p, ∀ m ∈ logs.records p, ∃ id, m.key = some id ∧ home id = p
  content : ∀ id, List.Forall₂ Publishes (changesFor id cs) (recordsFor id (logs.records (home id)))
  lsn : ∀ p, LsnOrdered (logs.records p)

section Follow

variable {c : Change} {m : Message} {id : Uuid}

theorem Publishes.customerRecord (h : Publishes c m) (hc : c.Complete) : CustomerRecord m := by
  refine ⟨⟨c.key, h.key⟩, fun key event hk hv => ?_⟩
  rw [h.key] at hk
  cases hk
  rcases hc with hnone | hdel | ⟨operation, row, hval, hrow, hop⟩
  · rw [h.tombstone hnone] at hv
    cases hv
  · obtain ⟨event', lsn, hv', ho, -, hl⟩ := h.event _ _ hdel
    rw [hv] at hv'
    cases hv'
    exact ⟨⟨lsn, hl⟩, Or.inl ho⟩
  · obtain ⟨event', lsn, hv', ho, ha, hl⟩ := h.event _ _ hval
    rw [hv] at hv'
    cases hv'
    refine ⟨⟨lsn, hl⟩, Or.inr ⟨?_, row, ha, hrow⟩⟩
    rcases hop with rfl | rfl | rfl
    · exact Or.inl ho
    · exact Or.inr (Or.inl ho)
    · exact Or.inr (Or.inr ho)

/-- The visible row of a record is what its change says. -/
theorem Publishes.live_rowOf (h : Publishes c m) (hc : c.Complete) {operation : Operation}
    {after : Option Customer} (hval : c.value = some (operation, after)) : live (rowOf m) = after := by
  obtain ⟨event, lsn, hv, ho, ha, -⟩ := h.event _ _ hval
  obtain ⟨row, hb, hcarries⟩ := (h.customerRecord hc).exists_carries hv
  rw [brings_iff.mp hb, hcarries.live_eq, ho, ha]
  split
  · rename_i hd
    cases hd
    rcases hc with hnone | hd' | ⟨operation', row', hval', -, hop'⟩
    · rw [hval] at hnone
      cases hnone
    · rw [hval] at hd'
      cases hd'
      rfl
    · rw [hval] at hval'
      cases hval'
      rcases hop' with hop' | hop' | hop' <;> cases hop'
  · rfl

/-- One record does to the visible row what its change says. -/
theorem Publishes.live_follow (h : Publishes c m) (hc : c.Complete) {row? : Option Customer} :
    (if m.value = none then row? else live (rowOf m)) = follow row? c := by
  unfold follow
  cases hval : c.value with
  | none => rw [if_pos (h.tombstone hval)]
  | some change =>
    obtain ⟨operation, after⟩ := change
    obtain ⟨event, lsn, hv, -⟩ := h.event _ _ hval
    rw [if_neg (by rw [hv]; exact Option.some_ne_none event), h.live_rowOf hc hval]

/-- **The Silver fold of a customer follows its changes.** -/
theorem live_foldl {cs : List Change} {ms : List Message} (h : List.Forall₂ Publishes cs ms) :
    ∀ old? : Option SilverRow, (∀ c ∈ cs, c.Complete ∧ c.key = id) →
      ms.Pairwise (fun m m' => ∀ l ∈ m.lsn, ∀ l' ∈ m'.lsn, l < l') →
      (∀ old ∈ old?, ∀ m ∈ ms, ∀ l ∈ m.lsn, old.sourceLsn < l) →
      live (ms.foldl (arriveFor id) old?) = cs.foldl follow (live old?) := by
  induction h with
  | nil => exact fun _ _ _ _ => rfl
  | @cons c m cs ms hpub hrest ih =>
    intro old? hcs hlsn hnewer
    obtain ⟨hc, hid⟩ := hcs c List.mem_cons_self
    obtain ⟨hfirst, hlsn⟩ := List.pairwise_cons.mp hlsn
    obtain ⟨hlive, hrows⟩ := live_arriveFor (hpub.customerRecord hc) (hid ▸ hpub.key)
      (fun old hold => hnewer old hold m List.mem_cons_self)
    rw [hpub.live_follow hc] at hlive
    rw [List.foldl_cons, List.foldl_cons, ← hlive]
    refine ih _ (fun c' hc' => hcs c' (List.mem_cons_of_mem _ hc')) hlsn ?_
    intro row hrow m' hm' l' hl'
    rcases hrows row hrow with hold | hl
    · exact hnewer row hold m' (List.mem_cons_of_mem _ hm') l' hl'
    · exact hfirst m' hm' _ hl l' hl'

end Follow

theorem exists_of_forall₂ {α β : Type} {R : α → β → Prop} {xs : List α} {ys : List β}
    (h : List.Forall₂ R xs ys) {y : β} (hy : y ∈ ys) : ∃ x ∈ xs, R x y := by
  induction h with
  | nil => cases hy
  | cons hr _ ih =>
    rcases List.mem_cons.mp hy with rfl | hy
    · exact ⟨_, List.mem_cons_self, hr⟩
    · obtain ⟨x, hx, hxy⟩ := ih hy
      exact ⟨x, List.mem_cons_of_mem _ hx, hxy⟩

section Refinement

variable {initial : SourceTable} {ops : List SourceOp} {logs : Logs}

/-- A delivered record writes the customer of its key. -/
theorem Delivers.customerId_eq (hd : Delivers (changes initial ops) logs) {p : TopicPartition}
    {m : Message} (hm : m ∈ logs.records p) {row : SilverRow} (hb : Brings m row) :
    m.key = some row.customerId ∧ hd.home row.customerId = p := by
  obtain ⟨id, hk, rfl⟩ := hd.keyed p m hm
  have hmem : m ∈ recordsFor id (logs.records (hd.home id)) :=
    List.mem_filter.mpr ⟨hm, decide_eq_true hk⟩
  obtain ⟨c, hc, hpub⟩ := exists_of_forall₂ (hd.content id) hmem
  have hcomplete := changes_complete c (List.mem_of_mem_filter hc)
  obtain ⟨event, hcarries⟩ := (hpub.customerRecord hcomplete).brings_carries hb
  have hid : row.customerId = id := Option.some.inj (hcarries.key.symm.trans hk)
  exact ⟨hcarries.key, by rw [hid]⟩

/-- **Customer by customer, `customers_current` shows the source row** once each record of the logs has
been applied. -/
theorem lookup_customersCurrent_source (hd : Delivers (changes initial ops) logs) {s : State}
    (hs : Reachable logs s) (hall : ∀ p, ∀ m ∈ logs.records p, m ∈ s.delivered) (id : Uuid) :
    lookup Customer.customerId (customersCurrent s.store.silver) id = (finalTable initial ops).find? id := by
  have hinv := inv_of_reachable hs
  rw [lookup_customersCurrent, find?_fold hinv.materialized.silver]
  have hlog : ∀ m ∈ firstDeliveries s.delivered, m ∈ logs.records m.partition :=
    fun m hm => hinv.inLog m (mem_firstDeliveries hm)
  -- the records of the customer all come from its home partition
  have hhome : ∀ m ∈ firstDeliveries s.delivered, ∀ row, Brings m row → row.customerId = id →
      m.partition = hd.home id := by
    intro m hm row hb hid
    rw [← hid]
    exact (hd.customerId_eq (hlog m hm) hb).2.symm
  -- and all of that partition has been applied, in log order
  have hwhole : ofPartition (hd.home id) (firstDeliveries s.delivered) = logs.records (hd.home id) := by
    refine (logs.ordered _).prefix_eq (hinv.inOrder _) fun m hm => ?_
    exact mem_ofPartition.mpr ⟨mem_firstDeliveries_of_inLog hinv.inLog (hall _ m hm),
      logs.partition _ m hm⟩
  have hskip : ∀ m ∈ logs.records (hd.home id), decide (m.key = some id) = false →
      ∀ old?, arriveFor id old? m = old? := by
    intro m hm hk old?
    refine arriveFor_skip (fun row hb hid => ?_) old?
    exact of_decide_eq_false hk (hid ▸ (hd.customerId_eq hm hb).1)
  have hchanges : ∀ c ∈ changesFor id (changes initial ops), c.Complete ∧ c.key = id := fun c hc =>
    ⟨changes_complete c (List.mem_of_mem_filter hc), of_decide_eq_true (List.mem_filter.mp hc).2⟩
  have hlsn : (recordsFor id (logs.records (hd.home id))).Pairwise
      (fun m m' => ∀ l ∈ m.lsn, ∀ l' ∈ m'.lsn, l < l') := by
    have hkey : ∀ m ∈ recordsFor id (logs.records (hd.home id)), m.key = some id :=
      fun m hm => of_decide_eq_true (List.mem_filter.mp hm).2
    refine ((hd.lsn (hd.home id)).sublist List.filter_sublist).imp_of_mem ?_
    exact fun hm hm' h => h ((hkey _ hm).trans (hkey _ hm').symm)
  calc live ((firstDeliveries s.delivered).foldl (arriveFor id) none)
      = live ((logs.records (hd.home id)).foldl (arriveFor id) none) := by
        rw [foldl_ofPartition none hhome, hwhole]
    _ = live ((recordsFor id (logs.records (hd.home id))).foldl (arriveFor id) none) := by
        rw [foldl_filter_of_skip _ none hskip]
        rfl
    _ = (changesFor id (changes initial ops)).foldl follow none :=
        live_foldl (hd.content id) none hchanges hlsn (fun _ h => nomatch h)
    _ = (finalTable initial ops).find? id := foldl_follow_changes

/-- **`customers_current` is the source table**: for every history, every delivery of it and every
run of the materializer, once each record of the logs has been applied. -/
theorem customersCurrent_eq_source (initial : SourceTable) (ops : List SourceOp) (logs : Logs)
    (hd : Delivers (changes initial ops) logs) (s : State) (hs : Reachable logs s)
    (hall : ∀ p, ∀ m ∈ logs.records p, m ∈ s.delivered) :
    (customersCurrent s.store.silver).Perm (finalTable initial ops).rows :=
  perm_of_lookup_eq (customersCurrent_unique _) (finalTable initial ops).unique
    (lookup_customersCurrent_source hd hs hall)

end Refinement

/-! ## A customer that is deleted and created again -/

def sampleCustomer (email : String) : Customer := ⟨7, { Attributes.null with email := some email }⟩

def sampleHistory : List SourceOp :=
  [.insert (sampleCustomer "a@x.org"), .delete 7, .insert (sampleCustomer "b@x.org")]

def sampleHome : TopicPartition := ⟨"shop.public.customers", 0⟩

/-- The creation, the deletion with its tombstone, and the second creation. -/
def historyRecords : List Message :=
  [sampleMessage 0 .c 10 (some "a@x.org"), sampleMessage 1 .d 20 none,
    { sampleMessage 2 .t 0 none with value := none }, sampleMessage 3 .c 30 (some "b@x.org")]

def historyLogs : Logs where
  records p := if p = sampleHome then historyRecords else []
  partition p m hm := by
    split at hm
    · rename_i hp
      have hall : ∀ m ∈ historyRecords, m.partition = sampleHome := by decide
      rw [hp, hall m hm]
    · cases hm
  ordered p := by
    split
    · have hall : historyRecords.Pairwise (fun a b => a.offset < b.offset) := by decide
      exact hall
    · exact List.Pairwise.nil
  nonneg p m hm := by
    split at hm
    · have hall : ∀ m ∈ historyRecords, 0 ≤ m.offset := by decide
      exact hall m hm
    · cases hm

theorem publishes_event {key : Uuid} {operation : Operation} {after : Option Customer} {m : Message}
    {event : ChangeEvent} {lsn : Int} (hk : m.key = some key) (hv : m.value = some event)
    (ho : event.op = .known operation) (ha : event.after = after) (hl : event.lsn = some lsn) :
    Publishes ⟨key, some (operation, after)⟩ m where
  key := hk
  tombstone h := by cases h
  event operation' after' h := by
    cases h
    exact ⟨event, lsn, hv, ho, ha, hl⟩

theorem historyRecords_publish :
    List.Forall₂ Publishes (changes Table.empty sampleHistory) historyRecords := by
  have hchanges : changes Table.empty sampleHistory =
      [⟨7, some (.c, some (sampleCustomer "a@x.org"))⟩, ⟨7, some (.d, none)⟩, ⟨7, none⟩,
        ⟨7, some (.c, some (sampleCustomer "b@x.org"))⟩] := by rfl
  have htombstone : Publishes ⟨7, none⟩ { sampleMessage 2 .t 0 none with value := none } := by
    refine ⟨rfl, fun _ => rfl, fun operation after h => ?_⟩
    cases h
  rw [hchanges]
  exact .cons (publishes_event rfl rfl rfl rfl rfl) (.cons (publishes_event rfl rfl rfl rfl rfl)
    (.cons htombstone (.cons (publishes_event rfl rfl rfl rfl rfl) .nil)))

/-- The history as it is delivered. -/
def historyDelivers : Delivers (changes Table.empty sampleHistory) historyLogs where
  home _ := sampleHome
  keyed p m hm := by
    refine ⟨7, ?_, ?_⟩
    · have hall : ∀ m ∈ historyRecords, m.key = some 7 := by decide
      simp only [historyLogs] at hm
      split at hm
      · exact hall m hm
      · cases hm
    · simp only [historyLogs] at hm
      split at hm
      · rename_i hp
        exact hp.symm
      · cases hm
  content id := by
    have hkeys : ∀ m ∈ historyRecords, m.key = some 7 := by decide
    have hchanges : ∀ c ∈ changes Table.empty sampleHistory, c.key = 7 := by decide
    have hhome : historyLogs.records sampleHome = historyRecords := rfl
    unfold changesFor recordsFor
    rw [hhome]
    by_cases hid : id = 7
    · subst hid
      rw [List.filter_eq_self.mpr (fun c hc => decide_eq_true (hchanges c hc)),
        List.filter_eq_self.mpr (fun m hm => decide_eq_true (hkeys m hm))]
      exact historyRecords_publish
    · rw [List.filter_eq_nil_iff.mpr, List.filter_eq_nil_iff.mpr]
      · exact .nil
      · intro m hm hk
        rw [hkeys m hm] at hk
        exact hid (Option.some.inj (of_decide_eq_true hk)).symm
      · intro c hc hk
        rw [hchanges c hc] at hk
        exact hid (of_decide_eq_true hk).symm
  lsn p := by
    simp only [historyLogs]
    split
    · have hall : historyRecords.Pairwise (fun m m' => m.key = m'.key →
        ∀ l ∈ m.lsn, ∀ l' ∈ m'.lsn, l < l') := by decide
      exact hall
    · exact List.Pairwise.nil

theorem historyRecords_polled : Polled historyLogs (fun _ => none) historyRecords where
  size := by decide
  next p := by
    by_cases hp : p = sampleHome
    · subst hp
      decide
    · have hnone : ofPartition p historyRecords = [] := by
        have hall : ∀ m ∈ historyRecords, m.partition = sampleHome := by decide
        refine List.filter_eq_nil_iff.mpr fun m hm hk => hp ?_
        rw [← of_decide_eq_true hk, hall m hm]
      rw [hnone]
      exact List.nil_prefix

theorem customersCurrent_eq_source_recreated :
    ∃ s : State, (customersCurrent s.store.silver).Perm [sampleCustomer "b@x.org"] := by
  have hread : ∀ m ∈ historyRecords, Readable m := by
    intro m hm
    obtain ⟨c, hc, hpub⟩ := exists_of_forall₂ historyRecords_publish hm
    exact (hpub.customerRecord (changes_complete c hc)).readable
  have hrunning : Reachable historyLogs ⟨Store.empty, fun _ => none, [], .running (fun _ => none)⟩ :=
    Relation.ReflTransGen.refl.tail (Step.start _ rfl)
  obtain ⟨s, hs, -, -, hdelivered⟩ := reachable_commit hrunning rfl historyRecords_polled hread
  have hsource := customersCurrent_eq_source Table.empty sampleHistory historyLogs historyDelivers s hs
  refine ⟨s, hsource fun p m hm => ?_⟩
  rw [hdelivered]
  simp only [historyLogs] at hm
  split at hm
  · exact hm
  · cases hm

end LocalDataPlatform.Cdc

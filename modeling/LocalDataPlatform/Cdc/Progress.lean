import LocalDataPlatform.Cdc.SourceTable

/-!
# A customer in `customers_current` goes through the history of its source row

Every state has one position in the history of each customer, and the view shows the customer's source
row as it was there.  Over a run the position only goes forward: crashes, redeliveries and the order in
which the partitions are polled never take a customer back.

* `appliedFor` — the records of a customer that have been applied.
* `opsUpTo` — the statements that a number of changes of a customer reach.
* `position` — the statements that a state has come to.

Principal results: `shown_eq` (the view shows what the applied changes say), `foldl_follow_opsUpTo` (a
number of changes is a number of statements), `position_mono`, `customer_advances`.
-/

set_option autoImplicit false

namespace LocalDataPlatform.Cdc

open Relational Runs

/-- What `customers_current` shows of a customer. -/
def shown (s : State) (id : Uuid) : Option Customer :=
  lookup Customer.customerId (customersCurrent s.store.silver) id

/-- The records of a customer that have been applied, in the order they were. -/
def appliedFor (id : Uuid) (s : State) : List Message := recordsFor id (firstDeliveries s.delivered)

/-! ## The applied records are a prefix -/

section Applied

variable {initial : SourceTable} {ops : List SourceOp} {logs : Logs} {s s' : State} {id : Uuid}

/-- The records of a customer are those in its home partition. -/
theorem recordsFor_ofPartition {ms : List Message} {p : TopicPartition}
    (hhome : ∀ m ∈ ms, m.key = some id → m.partition = p) :
    recordsFor id (ofPartition p ms) = recordsFor id ms := by
  unfold recordsFor ofPartition
  rw [List.filter_filter]
  refine List.filter_congr fun m hm => ?_
  by_cases hk : m.key = some id
  · simp [hk, hhome m hm hk]
  · simp [hk]

theorem Delivers.home_of_key (hd : Delivers (changes initial ops) logs) {m : Message}
    (hm : m ∈ logs.records m.partition) (hk : m.key = some id) : m.partition = hd.home id := by
  obtain ⟨id', hk', hhome⟩ := hd.keyed _ m hm
  rw [hk] at hk'
  cases hk'
  exact hhome.symm

/-- **The applied records of a customer are the first of its log.** -/
theorem prefix_appliedFor (hd : Delivers (changes initial ops) logs) (hs : Reachable logs s) :
    appliedFor id s <+: recordsFor id (logs.records (hd.home id)) := by
  have hinv := inv_of_reachable hs
  have hlog : ∀ m ∈ firstDeliveries s.delivered, m ∈ logs.records m.partition :=
    fun m hm => hinv.inLog m (mem_firstDeliveries hm)
  unfold appliedFor
  rw [← recordsFor_ofPartition fun m hm hk => hd.home_of_key (hlog m hm) hk]
  exact (hinv.inOrder _).filter _

/-- More deliveries come after the first ones. -/
theorem prefix_firstDeliveries {delivered : List Message} (batch : List Message) :
    firstDeliveries delivered <+: firstDeliveries (delivered ++ batch) := by
  induction batch using List.reverseRecOn with
  | nil => simp
  | append_singleton batch m ih =>
    refine ih.trans ?_
    unfold firstDeliveries
    rw [← List.append_assoc, dedup_concat]
    split
    · exact List.prefix_refl _
    · exact List.prefix_append _ _

/-- A step only adds to what is applied. -/
theorem appliedFor_step (hstep : Step logs s s') : appliedFor id s <+: appliedFor id s' := by
  cases hstep with
  | commit position batch result hs => exact (prefix_firstDeliveries batch).filter _
  | _ => exact List.prefix_refl _

/-- Over a run only more records are applied. -/
theorem appliedFor_run (hrun : Relation.ReflTransGen (Step logs) s s') :
    appliedFor id s <+: appliedFor id s' := by
  induction hrun with
  | refl => exact List.prefix_refl _
  | tail _ hstep ih => exact ih.trans (appliedFor_step hstep)

/-- **The view shows of a customer what its applied changes say.** -/
theorem shown_eq (hd : Delivers (changes initial ops) logs) (hs : Reachable logs s) (id : Uuid) :
    shown s id =
      ((changesFor id (changes initial ops)).take (appliedFor id s).length).foldl follow none := by
  have hinv := inv_of_reachable hs
  have hprefix : appliedFor id s <+: recordsFor id (logs.records (hd.home id)) := prefix_appliedFor hd hs
  have hlog : ∀ m ∈ firstDeliveries s.delivered, m ∈ logs.records m.partition :=
    fun m hm => hinv.inLog m (mem_firstDeliveries hm)
  have hskip : ∀ m ∈ firstDeliveries s.delivered, decide (m.key = some id) = false →
      ∀ old?, arriveFor id old? m = old? := by
    intro m hm hk old?
    refine arriveFor_skip (fun row hb hid => ?_) old?
    exact of_decide_eq_false hk (hid ▸ (hd.customerId_eq (hlog m hm) hb).1)
  -- the records carry the first changes of the customer
  have hcontent : List.Forall₂ Publishes ((changesFor id (changes initial ops)).take (appliedFor id s).length)
      (appliedFor id s) := by
    have htake := List.forall₂_take (appliedFor id s).length (hd.content id)
    rwa [← List.prefix_iff_eq_take.mp hprefix] at htake
  have hchanges : ∀ c ∈ (changesFor id (changes initial ops)).take (appliedFor id s).length,
      c.Complete ∧ c.key = id := by
    intro c hc
    obtain ⟨hmem, hkey⟩ := List.mem_filter.mp (List.mem_of_mem_take hc)
    exact ⟨changes_complete c hmem, of_decide_eq_true hkey⟩
  have hlsn : (appliedFor id s).Pairwise fun m m' => ∀ l ∈ m.lsn, ∀ l' ∈ m'.lsn, l < l' := by
    have hkey : ∀ m ∈ appliedFor id s, m.key = some id :=
      fun m hm => of_decide_eq_true (List.mem_filter.mp hm).2
    have hsub : (appliedFor id s).Sublist (logs.records (hd.home id)) :=
      hprefix.sublist.trans List.filter_sublist
    refine ((hd.lsn (hd.home id)).sublist hsub).imp_of_mem ?_
    exact fun hm hm' h => h ((hkey _ hm).trans (hkey _ hm').symm)
  unfold shown
  rw [lookup_customersCurrent, find?_fold hinv.materialized.silver, foldl_filter_of_skip _ none hskip]
  exact live_foldl hcontent none hchanges hlsn fun _ h => nomatch h

end Applied

/-! ## Changes and statements -/

/-- The statements that `n` changes of a customer reach. -/
def opsUpTo (id : Uuid) : SourceTable → List SourceOp → Nat → List SourceOp
  | _, [], _ => []
  | _, _, 0 => []
  | t, op :: ops, n + 1 =>
    op :: opsUpTo id (applyOp t op) ops (n + 1 - (changesFor id (emit t op)).length)

section Statements

variable {t : SourceTable} {op : SourceOp} {ops : List SourceOp} {id : Uuid} {n n' : Nat}

theorem opsUpTo_prefix : ∀ (ops : List SourceOp) (t : SourceTable) (n : Nat), opsUpTo id t ops n <+: ops
  | [], _, _ => List.prefix_refl _
  | _ :: _, _, 0 => List.nil_prefix
  | _ :: ops, _, _ + 1 => List.cons_prefix_cons.mpr ⟨rfl, opsUpTo_prefix ops _ _⟩

/-- More changes reach more statements. -/
theorem opsUpTo_mono : ∀ (ops : List SourceOp) (t : SourceTable) {n n' : Nat}, n ≤ n' →
    opsUpTo id t ops n <+: opsUpTo id t ops n'
  | [], _, _, _, _ => List.prefix_refl _
  | _ :: _, _, 0, _, _ => List.nil_prefix
  | _ :: ops, _, n + 1, n' + 1, h =>
    List.cons_prefix_cons.mpr ⟨rfl, opsUpTo_mono ops _ (by omega)⟩

/-- A delete emits two records, the second of which says nothing more. -/
theorem foldl_follow_take_emit (hn : 0 < n) :
    ((changesFor id (emit t op)).take n).foldl follow (t.find? id) = (applyOp t op).find? id := by
  rw [← foldl_follow_emit]
  obtain ⟨n, rfl⟩ : ∃ k, n = k + 1 := ⟨n - 1, by omega⟩
  cases op with
  | insert row =>
    simp only [emit]
    split
    · rfl
    · rw [changesFor_cons]
      split <;> simp [changesFor]
  | update row =>
    simp only [emit]
    split
    · rw [changesFor_cons]
      split <;> simp [changesFor]
    · rfl
  | delete customerId =>
    simp only [emit]
    split
    · by_cases hid : customerId = id
      · subst hid
        cases n <;> simp [changesFor, follow]
      · simp [changesFor, hid]
    · rfl

/-- **Some changes of a customer are some of the statements**, as far as its row goes. -/
theorem foldl_follow_opsUpTo : ∀ (ops : List SourceOp) (t : SourceTable) (n : Nat),
    ((changesFor id (changesOf t ops)).take n).foldl follow (t.find? id) =
      (finalTable t (opsUpTo id t ops n)).find? id
  | [], _, n => by
    rw [changesOf]
    cases n <;> rfl
  | op :: ops, t, 0 => rfl
  | op :: ops, t, n + 1 => by
    rw [changesOf, changesFor_append, List.take_append, List.foldl_append,
      foldl_follow_take_emit (Nat.succ_pos n)]
    exact foldl_follow_opsUpTo ops (applyOp t op) (n + 1 - (changesFor id (emit t op)).length)

end Statements

/-! ## The run of a customer -/

section Run

variable {initial : SourceTable} {ops : List SourceOp} {logs : Logs} {s s' : State} {id : Uuid}

/-- How many statements of the history a state has come to, as far as a customer goes: none at all before a
record of the customer is applied, and from its record of the snapshot on those that its further records reach. -/
def position (initial : SourceTable) (ops : List SourceOp) (id : Uuid) (s : State) : Option (List SourceOp) :=
  if appliedFor id s = [] then none
  else some (opsUpTo id initial ops
    ((appliedFor id s).length - (changesFor id (snapshot initial.rows)).length))

theorem position_prefix {done : List SourceOp} (h : done ∈ position initial ops id s) : done <+: ops := by
  unfold position at h
  split at h
  · cases h
  · cases h
    exact opsUpTo_prefix ops initial _

/-- **No step of a run takes a customer back.** -/
theorem position_mono {done : List SourceOp} (hrun : Relation.ReflTransGen (Step logs) s s')
    (h : done ∈ position initial ops id s) : ∃ done' ∈ position initial ops id s', done <+: done' := by
  have happlied : appliedFor id s <+: appliedFor id s' := appliedFor_run hrun
  unfold position at h ⊢
  split at h
  · cases h
  · rename_i hsome
    cases h
    have hsome' : appliedFor id s' ≠ [] := fun hnil => hsome (List.prefix_nil.mp (hnil ▸ happlied))
    rw [if_neg hsome']
    exact ⟨_, rfl, opsUpTo_mono ops initial (Nat.sub_le_sub_right happlied.length_le _)⟩

/-- A customer has at most one record of the snapshot. -/
theorem length_changesFor_snapshot : (changesFor id (snapshot initial.rows)).length ≤ 1 := by
  have hone : changesFor id (snapshot initial.rows) =
      (initial.find? id).toList.map fun row => ⟨row.customerId, some (.r, some row)⟩ := by
    unfold changesFor snapshot Table.find?
    rw [List.filter_map, ← initial.unique.filter_key]
    rfl
  rw [hone, List.length_map]
  cases initial.find? id <;> simp

/-- The view shows the row of a customer as it was at the position of the state. -/
theorem shown_position (hd : Delivers (changes initial ops) logs) (hs : Reachable logs s) (id : Uuid) :
    shown s id = (position initial ops id s).bind fun done => (finalTable initial done).find? id := by
  rw [shown_eq hd hs id]
  unfold position
  split
  · rename_i hnone
    rw [hnone]
    rfl
  · rename_i hsome
    -- what is applied begins with the record of the snapshot, if there is one
    have hpos : 0 < (appliedFor id s).length := List.length_pos_iff.mpr hsome
    have hsnapshot : (changesFor id (snapshot initial.rows)).length ≤ (appliedFor id s).length :=
      length_changesFor_snapshot.trans hpos
    rw [changes, changesFor_append, List.take_append, List.take_of_length_le hsnapshot, List.foldl_append,
      foldl_follow_snapshot none initial.unique, Option.or_none]
    exact foldl_follow_opsUpTo ops initial _

/-- **A customer advances through the history of its source row.**  Every state that is reached has one position
in the history, at which the view shows the customer's row (before any record of the customer is applied it has
none, and the view shows nothing); and whatever crashes, is delivered again or is polled first, a later state
of the run has come at least as far. -/
theorem customer_advances (hd : Delivers (changes initial ops) logs) (hs : Reachable logs s) (id : Uuid) :
    shown s id = (position initial ops id s).bind (fun done => (finalTable initial done).find? id) ∧
      (∀ done ∈ position initial ops id s, done <+: ops) ∧
        ∀ s', Relation.ReflTransGen (Step logs) s s' → ∀ done ∈ position initial ops id s,
          ∃ done' ∈ position initial ops id s', done <+: done' :=
  ⟨shown_position hd hs id, fun _ => position_prefix, fun _ hrun _ => position_mono hrun⟩

end Run

/-! ## Logs of one partition -/

/-- The records can be the log of the partition, the others being empty. -/
structure OnePartition (p₀ : TopicPartition) (rs : List Message) : Prop where
  partition : ∀ m ∈ rs, m.partition = p₀
  ordered : Ordered Message.offset rs
  nonneg : ∀ m ∈ rs, 0 ≤ m.offset

def oneLog (p₀ : TopicPartition) (rs : List Message) (h : OnePartition p₀ rs) : Logs where
  records p := if p = p₀ then rs else []
  partition p m hm := by
    split at hm
    · rename_i hp
      exact (h.partition m hm).trans hp.symm
    · cases hm
  ordered p := by
    split
    · exact h.ordered
    · exact List.Pairwise.nil
  nonneg p m hm := by
    split at hm
    · exact h.nonneg m hm
    · cases hm

section OnePartition

variable {p₀ p : TopicPartition} {rs ms : List Message} {h : OnePartition p₀ rs} {m : Message}

theorem mem_oneLog (hm : m ∈ (oneLog p₀ rs h).records p) : p = p₀ ∧ m ∈ rs := by
  simp only [oneLog] at hm
  split at hm
  · rename_i hp
    exact ⟨hp, hm⟩
  · cases hm

/-- Records of one customer deliver its changes. -/
def oneLogDelivers {cs : List Change} {id₀ : Uuid} (hcs : ∀ c ∈ cs, c.key = id₀)
    (hrs : ∀ m ∈ rs, m.key = some id₀) (hpublish : List.Forall₂ Publishes cs rs) (hlsn : LsnOrdered rs) :
    Delivers cs (oneLog p₀ rs h) where
  home _ := p₀
  keyed p m hm := ⟨id₀, hrs m (mem_oneLog hm).2, (mem_oneLog hm).1.symm⟩
  content id := by
    have hhome : (oneLog p₀ rs h).records p₀ = rs := if_pos rfl
    rw [hhome]
    unfold changesFor recordsFor
    by_cases hid : id = id₀
    · subst hid
      rw [List.filter_eq_self.mpr fun c hc => decide_eq_true (hcs c hc),
        List.filter_eq_self.mpr fun m hm => decide_eq_true (hrs m hm)]
      exact hpublish
    · rw [List.filter_eq_nil_iff.mpr fun c hc he => hid ((of_decide_eq_true he).symm.trans (hcs c hc)),
        List.filter_eq_nil_iff.mpr fun m hm he => hid (Option.some.inj ((of_decide_eq_true he).symm.trans (hrs m hm)))]
      exact .nil
  lsn p := by
    simp only [oneLog]
    split
    · exact hlsn
    · exact List.Pairwise.nil

/-- The first records can be polled in one batch, and applied. -/
theorem reachable_oneLog (hms : ms <+: rs) (hsize : ms.length ≤ BATCH_SIZE) (hread : ∀ m ∈ ms, Readable m) :
    ∃ s, Reachable (oneLog p₀ rs h) s ∧ s.delivered = ms := by
  have hpolled : Polled (oneLog p₀ rs h) (fun _ => none) ms := by
    refine ⟨hsize, fun p => ?_⟩
    have hunread : unread (oneLog p₀ rs h) (fun _ => none) p = (oneLog p₀ rs h).records p :=
      List.filter_eq_self.mpr fun m _ => decide_eq_true fun ⟨_, ho, _⟩ => nomatch ho
    rw [hunread]
    by_cases hp : p = p₀
    · have hall : ofPartition p ms = ms :=
        List.filter_eq_self.mpr fun m hm => decide_eq_true ((h.partition m (hms.subset hm)).trans hp.symm)
      have hlog : (oneLog p₀ rs h).records p = rs := if_pos hp
      rwa [hall, hlog]
    · have hnone : ofPartition p ms = [] := List.filter_eq_nil_iff.mpr fun m hm he =>
        hp ((of_decide_eq_true he).symm.trans (h.partition m (hms.subset hm)))
      rw [hnone]
      exact List.nil_prefix
  have hrunning : Reachable (oneLog p₀ rs h) ⟨Store.empty, fun _ => none, [], .running (fun _ => none)⟩ :=
    Relation.ReflTransGen.refl.tail (Step.start _ rfl)
  obtain ⟨s, hs, -, -, hdelivered⟩ := reachable_commit hrunning rfl hpolled hread
  exact ⟨s, hs, hdelivered⟩

end OnePartition

/-- Where the creation, the deletion and the second creation are applied, the position is the whole history:
the row is shown again, and the run is nowhere taken back. -/
theorem customer_advances_recreated : ∃ s, s.delivered = historyRecords ∧
    position Table.empty sampleHistory 7 s = some sampleHistory ∧
    shown s 7 = (position Table.empty sampleHistory 7 s).bind (fun done => (finalTable Table.empty done).find? 7) ∧
      (∀ done ∈ position Table.empty sampleHistory 7 s, done <+: sampleHistory) ∧
        ∀ s', Relation.ReflTransGen (Step historyLogs) s s' → ∀ done ∈ position Table.empty sampleHistory 7 s,
          ∃ done' ∈ position Table.empty sampleHistory 7 s', done <+: done' := by
  have hread : ∀ m ∈ historyRecords, Readable m := by
    intro m hm
    obtain ⟨c, hc, hpub⟩ := exists_of_forall₂ historyRecords_publish hm
    exact (hpub.customerRecord (changes_complete c hc)).readable
  have hrunning : Reachable historyLogs ⟨Store.empty, fun _ => none, [], .running (fun _ => none)⟩ :=
    Relation.ReflTransGen.refl.tail (Step.start _ rfl)
  obtain ⟨s, hs, -, -, hdelivered⟩ := reachable_commit hrunning rfl historyRecords_polled hread
  have happlied : appliedFor 7 s = historyRecords := by
    unfold appliedFor
    rw [hdelivered]
    decide
  refine ⟨s, hdelivered, ?_, customer_advances historyDelivers hs 7⟩
  unfold position
  rw [happlied]
  rfl

end LocalDataPlatform.Cdc

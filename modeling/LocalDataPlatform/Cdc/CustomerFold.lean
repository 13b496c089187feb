import LocalDataPlatform.Cdc.DeliveryOrder

/-!
# Silver, customer by customer

A record acts on the Silver row of one customer, so the fold of `apply_silver` is one fold for each
customer, and `customers_current` shows what the newest data event of the customer says.

* `rowOf`, `arriveFor` — the row a record brings, and what the record does to one customer.
* `live` — the row that `customers_current` shows for a Silver row.
* `lastData` — the last data event among records.

Principal results: `find?_fold` (the fold acts customer by customer), `lookup_customersCurrent`,
`live_arriveFor` (a newer data event decides what is shown, a tombstone nothing), `live_foldl_last`
(so the last data event of a customer decides).
-/

set_option autoImplicit false

namespace LocalDataPlatform.Cdc

open Relational Runs

/-- The row a record brings, if it brings one. -/
def rowOf (m : Message) : Option SilverRow :=
  m.key.bind (fun key => (silverRow m key).toOption.join)

/-- What a record does to the row of one customer. -/
def arriveFor (id : Uuid) (old? : Option SilverRow) (m : Message) : Option SilverRow :=
  match rowOf m with
  | some row => if row.customerId = id then some (arrive old? row) else old?
  | none => old?

section Fold

variable {silver silver' : Silver} {m : Message} {ms : List Message} {id : Uuid} {row : SilverRow}

theorem brings_iff : Brings m row ↔ rowOf m = some row := by
  unfold Brings rowOf
  cases m.key with
  | none => simp
  | some key => cases hs : silverRow m key <;> simp [hs, Except.toOption]

theorem find?_applyMessage (h : applyMessage silver m = .ok silver') :
    silver'.find? id = arriveFor id (silver.find? id) m := by
  unfold arriveFor
  rcases applyMessage_cases h with ⟨row, hrow, rfl⟩ | ⟨hno, rfl⟩
  · rw [brings_iff.mp hrow, find?_foldRow]
  · have hnone : rowOf m = none :=
      Option.eq_none_iff_forall_ne_some.mpr (fun row hrow => hno row (brings_iff.mpr hrow))
    rw [hnone]

/-- **The fold acts customer by customer.** -/
theorem find?_fold (h : ms.foldlM applyMessage Table.empty = .ok silver) :
    silver.find? id = ms.foldl (arriveFor id) none := by
  refine Runs.foldlM_invariant (P := fun done (silver : Silver) =>
    silver.find? id = done.foldl (arriveFor id) none) ?_ ms [] rfl h
  intro done m silver silver' hdone hm
  rw [List.foldl_append, ← hdone]
  exact find?_applyMessage hm

/-- A record that brings the customer no row leaves its row alone. -/
theorem arriveFor_skip (h : ∀ row, Brings m row → row.customerId ≠ id) (old? : Option SilverRow) :
    arriveFor id old? m = old? := by
  unfold arriveFor
  cases hr : rowOf m with
  | none => rfl
  | some row => exact if_neg (h row (brings_iff.mpr hr))

end Fold

/-! ## What `customers_current` shows -/

/-- `source.lsn` of a data event. -/
def Message.lsn (m : Message) : Option Int := m.value.bind (·.lsn)

/-- The records of one customer. -/
def recordsFor (id : Uuid) (ms : List Message) : List Message :=
  ms.filter (fun m => decide (m.key = some id))

/-- The row that `customers_current` shows for a Silver row. -/
def live (row? : Option SilverRow) : Option Customer :=
  (row?.filter (fun row => !row.isDeleted)).map (fun row => ⟨row.customerId, row.attributes⟩)

/-- The view shows the live rows. -/
theorem lookup_customersCurrent {silver : Silver} {id : Uuid} :
    lookup Customer.customerId (customersCurrent silver) id = live (silver.find? id) := by
  have hmap : lookup Customer.customerId (customersCurrent silver) id =
      (lookup SilverRow.customerId (silver.rows.filter (fun row => !row.isDeleted)) id).map
        (fun row => ⟨row.customerId, row.attributes⟩) := lookup_map (fun _ => rfl)
  rw [hmap, silver.unique.lookup_filter]
  rfl

theorem customersCurrent_unique (silver : Silver) :
    UniqueOn Customer.customerId (customersCurrent silver) :=
  UniqueOn.map_proj (fun _ => rfl) (silver.unique.sublist List.filter_sublist)

section Live

variable {m : Message} {id : Uuid}

theorem live_of_visible {row row' : SilverRow} (h : row.visible = row'.visible) :
    live (some row) = live (some row') := by
  obtain ⟨hdel, -, -, -, hattr⟩ := fields_of_visible h
  have hid : row.customerId = row'.customerId := by
    rw [← visible_customerId, h, visible_customerId]
  unfold live
  cases hd : row.isDeleted with
  | true => simp [Option.filter, hd, ← hdel]
  | false => simp [Option.filter, hd, ← hdel, hid, hattr hd]

/-- A tombstone brings no row. -/
theorem rowOf_tombstone (hv : m.value = none) : rowOf m = none := by
  unfold rowOf silverRow
  rw [hv]
  cases m.key <;> rfl

/-- **One record decides the visible row of its customer**, unless an older version arrives. -/
theorem live_arriveFor (h : CustomerRecord m) (hk : m.key = some id) {old? : Option SilverRow}
    (hnewer : ∀ old ∈ old?, ∀ l ∈ m.lsn, old.sourceLsn < l) :
    live (arriveFor id old? m) = (if m.value = none then live old? else live (rowOf m)) ∧
      ∀ row ∈ arriveFor id old? m, row ∈ old? ∨ row.sourceLsn ∈ m.lsn := by
  cases hv : m.value with
  | none =>
    unfold arriveFor
    rw [rowOf_tombstone hv]
    exact ⟨rfl, fun row hrow => Or.inl hrow⟩
  | some event =>
    obtain ⟨row, hb, hcarries⟩ := h.exists_carries hv
    have hlsn : row.sourceLsn ∈ m.lsn := by
      unfold Message.lsn
      rw [hv]
      exact hcarries.lsn
    have hid : row.customerId = id := Option.some.inj (hcarries.key.symm.trans hk)
    have hnew : (arrive old? row).visible = row.visible := by
      refine visible_arrive_of_newer fun old hold => ?_
      exact Prod.Lex.toLex_lt_toLex.mpr (Or.inl (hnewer old hold _ hlsn))
    unfold arriveFor
    rw [brings_iff.mp hb]
    dsimp only
    rw [if_pos hid, if_neg (Option.some_ne_none event)]
    refine ⟨live_of_visible hnew, fun row' hrow' => Or.inr ?_⟩
    cases hrow'
    rw [(fields_of_visible hnew).2.2.1]
    exact hlsn

/-- The visible row of a complete data event: none for a deletion, its image otherwise. -/
theorem CarriesRow.live_eq {event : ChangeEvent} {row : SilverRow} (h : CarriesRow m event row) :
    live (some row) = if event.op = .known .d then none else event.after := by
  rw [h.op]
  cases hdel : row.isDeleted with
  | true =>
    have hd : row.sourceOperation = .d := of_decide_eq_true (h.deleted ▸ hdel)
    simp [live, Option.filter, hdel, hd]
  | false =>
    have hd : row.sourceOperation ≠ .d := of_decide_eq_false (h.deleted ▸ hdel)
    simp [live, Option.filter, hdel, hd, h.after hdel]

/-- The last data event among records. -/
def lastData (ms : List Message) : Option Message := (ms.filter (fun m => m.value.isSome)).getLast?

theorem lastData_cons {ms : List Message} :
    lastData (m :: ms) = if m.value = none then lastData ms else some ((lastData ms).getD m) := by
  unfold lastData
  cases hv : m.value with
  | none => rw [List.filter_cons_of_neg (by simp [hv]), if_pos rfl]
  | some event =>
    rw [List.filter_cons_of_pos (by simp [hv]), List.getLast?_cons, if_neg (Option.some_ne_none event)]

/-- The records of a customer stand in increasing `source.lsn`. -/
def LsnOrdered (ms : List Message) : Prop :=
  ms.Pairwise (fun m m' => m.key = m'.key → ∀ l ∈ m.lsn, ∀ l' ∈ m'.lsn, l < l')

theorem live_foldl_recordsFor : ∀ (ms : List Message) (old? : Option SilverRow),
    (∀ m ∈ ms, CustomerRecord m ∧ m.key = some id) → LsnOrdered ms →
    (∀ old ∈ old?, ∀ m ∈ ms, ∀ l ∈ m.lsn, old.sourceLsn < l) →
    live (ms.foldl (arriveFor id) old?) =
      match lastData ms with
      | some m => live (rowOf m)
      | none => live old?
  | [], _, _, _, _ => rfl
  | m :: ms, old?, hrec, hlsn, hnewer => by
    obtain ⟨hfirst, hrest⟩ := List.pairwise_cons.mp hlsn
    obtain ⟨hm, hk⟩ := hrec m List.mem_cons_self
    obtain ⟨hlive, hrows⟩ := live_arriveFor hm hk (fun old hold => hnewer old hold m List.mem_cons_self)
    have hnext : ∀ row ∈ arriveFor id old? m, ∀ m' ∈ ms, ∀ l ∈ m'.lsn, row.sourceLsn < l := by
      intro row hrow m' hm' l' hl'
      rcases hrows row hrow with hold | hl
      · exact hnewer row hold m' (List.mem_cons_of_mem _ hm') l' hl'
      · exact hfirst m' hm' (hk.trans (hrec m' (List.mem_cons_of_mem _ hm')).2.symm) _ hl l' hl'
    rw [List.foldl_cons, live_foldl_recordsFor ms _ (fun m' hm' => hrec m' (List.mem_cons_of_mem _ hm'))
      hrest hnext, hlive, lastData_cons]
    cases lastData ms <;> by_cases hv : m.value = none <;> simp [hv]

/-- **The last data event of a customer decides what is shown**, when the records are newer than
what Silver holds. -/
theorem live_foldl_last {ms : List Message} {old? : Option SilverRow}
    (hrec : ∀ m ∈ ms, CustomerRecord m) (hlsn : LsnOrdered ms)
    (hnewer : ∀ old ∈ old?, ∀ m ∈ recordsFor id ms, ∀ l ∈ m.lsn, old.sourceLsn < l) :
    live (ms.foldl (arriveFor id) old?) =
      match lastData (recordsFor id ms) with
      | some m => live (rowOf m)
      | none => live old? := by
  have hskip : ∀ m ∈ ms, decide (m.key = some id) = false → ∀ old?, arriveFor id old? m = old? := by
    intro m hm hk old?
    refine arriveFor_skip (fun row hb hid => ?_) old?
    obtain ⟨event, hcarries⟩ := (hrec m hm).brings_carries hb
    exact of_decide_eq_false hk (hid ▸ hcarries.key)
  rw [foldl_filter_of_skip ms old? hskip]
  refine live_foldl_recordsFor _ old? (fun m hm => ?_) (hlsn.sublist List.filter_sublist) hnewer
  obtain ⟨hm, hk⟩ := List.mem_filter.mp hm
  exact ⟨hrec m hm, of_decide_eq_true hk⟩

end Live

end LocalDataPlatform.Cdc

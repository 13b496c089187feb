import LocalDataPlatform.Sales.NullableJoin

/-!
# What an upsert into staging changes

Both sales sinks look for rows whose `source_loaded_at` is above their mark.  An upsert stamps what it
writes, and the stamp reaches every row of the join that it changes, except where a payment leaves an
order.

* `Batch`, `Staging.upsert` — an upsert into one of the three tables the join reads.
* `LoadedBefore` — the stamp is later than every load time present.
* `PaymentsStay` — an order that loses a payment gains one; `ItemsStay` — no item leaves the join.

Principal results: `source_loaded_at_of_stamped` (a stamped part stamps the row),
`attempts_upsert_lost` (an order that only loses payments keeps an old stamp), `changes_visible_iff`.
-/

set_option autoImplicit false

namespace LocalDataPlatform.Sales.Nullable

open Relational

/-! ## Upserts -/

/-- The rows of an upsert, and the table it goes to. -/
inductive Batch where
  | orders (rows : Table OrderRow OrderRow.order_id)
  | order_items (rows : Table OrderItemRow OrderItemRow.order_item_id)
  | payments (rows : Table PaymentRow PaymentRow.payment_id)

section Upsert

variable {ρ : Type} {key : ρ → Uuid} {stamp : ρ → ρ}

/-- `INSERT .. ON CONFLICT DO UPDATE SET .., loaded_at = CURRENT_TIMESTAMP`. -/
def upsertStamped (t batch : Table ρ key) (stamp : ρ → ρ) (hstamp : ∀ r, key (stamp r) = key r) :
    Table ρ key :=
  t.merge ⟨batch.rows.map stamp, batch.unique.map_proj hstamp⟩

variable {t batch : Table ρ key} {hstamp : ∀ r, key (stamp r) = key r} {r : ρ}

/-- What the upsert leaves: its own rows, and the others of the table. -/
theorem mem_upsertStamped : r ∈ (upsertStamped t batch stamp hstamp).rows ↔
    (∃ b ∈ batch.rows, r = stamp b) ∨ r ∈ t.rows ∧ ∀ b ∈ batch.rows, key b ≠ key r := by
  have hself : r ∈ (upsertStamped t batch stamp hstamp).rows ↔
      (upsertStamped t batch stamp hstamp).find? (key r) = some r := by
    rw [Table.find?_eq_some]
    exact ⟨fun h => ⟨h, rfl⟩, And.left⟩
  have hbatch : (⟨batch.rows.map stamp, batch.unique.map_proj hstamp⟩ : Table ρ key).find? (key r) =
      (batch.find? (key r)).map stamp := by
    unfold Table.find?
    exact lookup_map hstamp
  rw [hself]
  unfold upsertStamped
  rw [Table.find?_merge, hbatch]
  cases hb : batch.find? (key r) with
  | some b =>
    obtain ⟨hmem, hk⟩ := Table.find?_eq_some.mp hb
    rw [Option.map_some, Option.some_or, Option.some.injEq]
    constructor
    · rintro rfl
      exact Or.inl ⟨b, hmem, rfl⟩
    · rintro (⟨b', hb', rfl⟩ | ⟨-, hno⟩)
      · rw [hstamp] at hk
        rw [batch.unique.eq_of_key hmem hb' hk]
      · exact absurd hk (hno b hmem)
  | none =>
    have hno : ∀ b ∈ batch.rows, key b ≠ key r := lookup_eq_none.mp hb
    rw [Option.map_none, Option.none_or, Table.find?_eq_some]
    constructor
    · rintro ⟨hr, -⟩
      exact Or.inr ⟨hr, hno⟩
    · rintro (⟨b, hb', rfl⟩ | ⟨hr, -⟩)
      · exact absurd (hstamp b).symm (hno b hb')
      · exact ⟨hr, rfl⟩

end Upsert

/-- The row as the upsert writes it at `now`. -/
def OrderRow.stamped (now : Instant) (r : OrderRow) : OrderRow := { r with loaded_at := some now }

def OrderItemRow.stamped (now : Instant) (r : OrderItemRow) : OrderItemRow := { r with loaded_at := some now }

def PaymentRow.stamped (now : Instant) (r : PaymentRow) : PaymentRow := { r with loaded_at := some now }

/-- Staging after an upsert at `now`. -/
def Staging.upsert (st : Staging) (now : Instant) : Batch → Staging
  | .orders rows =>
    { st with orders := upsertStamped st.orders rows (OrderRow.stamped now) fun _ => rfl }
  | .order_items rows =>
    { st with order_items := upsertStamped st.order_items rows (OrderItemRow.stamped now) fun _ => rfl }
  | .payments rows =>
    { st with payments := upsertStamped st.payments rows (PaymentRow.stamped now) fun _ => rfl }

section Members

variable {st : Staging} {now : Instant}

theorem mem_upsert_orders {rows : Table OrderRow OrderRow.order_id} {r : OrderRow} :
    r ∈ (st.upsert now (.orders rows)).orders.rows ↔
      (∃ b ∈ rows.rows, r = b.stamped now) ∨
        r ∈ st.orders.rows ∧ ∀ b ∈ rows.rows, b.order_id ≠ r.order_id :=
  @mem_upsertStamped _ _ (OrderRow.stamped now) _ _ (fun _ => rfl) _

theorem mem_upsert_order_items {rows : Table OrderItemRow OrderItemRow.order_item_id} {r : OrderItemRow} :
    r ∈ (st.upsert now (.order_items rows)).order_items.rows ↔
      (∃ b ∈ rows.rows, r = b.stamped now) ∨
        r ∈ st.order_items.rows ∧ ∀ b ∈ rows.rows, b.order_item_id ≠ r.order_item_id :=
  @mem_upsertStamped _ _ (OrderItemRow.stamped now) _ _ (fun _ => rfl) _

theorem mem_upsert_payments {rows : Table PaymentRow PaymentRow.payment_id} {r : PaymentRow} :
    r ∈ (st.upsert now (.payments rows)).payments.rows ↔
      (∃ b ∈ rows.rows, r = b.stamped now) ∨
        r ∈ st.payments.rows ∧ ∀ b ∈ rows.rows, b.payment_id ≠ r.payment_id :=
  @mem_upsertStamped _ _ (PaymentRow.stamped now) _ _ (fun _ => rfl) _

end Members

/-- Every load time present is at most `bound`. -/
structure Staging.LoadedBy (st : Staging) (bound : Instant) : Prop where
  orders : ∀ r ∈ st.orders.rows, ∀ x ∈ r.loaded_at, x ≤ bound
  order_items : ∀ r ∈ st.order_items.rows, ∀ x ∈ r.loaded_at, x ≤ bound
  payments : ∀ r ∈ st.payments.rows, ∀ x ∈ r.loaded_at, x ≤ bound

/-- Every load time present is before `now`. -/
structure Staging.LoadedBefore (st : Staging) (now : Instant) : Prop where
  orders : ∀ r ∈ st.orders.rows, ∀ x ∈ r.loaded_at, x < now
  order_items : ∀ r ∈ st.order_items.rows, ∀ x ∈ r.loaded_at, x < now
  payments : ∀ r ∈ st.payments.rows, ∀ x ∈ r.loaded_at, x < now

section Stamps

variable {st : Staging} {now bound : Instant} {batch : Batch} {order : OrderRow} {item : OrderItemRow}

theorem Staging.LoadedBefore.loadedBy (h : st.LoadedBefore now) : st.LoadedBy (now - 1) where
  orders r hr x hx := Int.le_sub_one_of_lt (h.orders r hr x hx)
  order_items r hr x hx := Int.le_sub_one_of_lt (h.order_items r hr x hx)
  payments r hr x hx := Int.le_sub_one_of_lt (h.payments r hr x hx)

/-- An upsert brings no later load time than its own. -/
theorem Staging.LoadedBefore.upsert (h : st.LoadedBefore now) : (st.upsert now batch).LoadedBy now := by
  have horders : ∀ r ∈ st.orders.rows, ∀ x ∈ r.loaded_at, x ≤ now := fun r hr x hx => (h.orders r hr x hx).le
  have hitems : ∀ r ∈ st.order_items.rows, ∀ x ∈ r.loaded_at, x ≤ now :=
    fun r hr x hx => (h.order_items r hr x hx).le
  have hpayments : ∀ r ∈ st.payments.rows, ∀ x ∈ r.loaded_at, x ≤ now :=
    fun r hr x hx => (h.payments r hr x hx).le
  cases batch with
  | orders rows =>
    refine ⟨fun r hr x hx => ?_, hitems, hpayments⟩
    rcases mem_upsert_orders.mp hr with ⟨b, -, rfl⟩ | ⟨hr, -⟩
    · exact (Option.some.inj hx).symm.le
    · exact horders r hr x hx
  | order_items rows =>
    refine ⟨horders, fun r hr x hx => ?_, hpayments⟩
    rcases mem_upsert_order_items.mp hr with ⟨b, -, rfl⟩ | ⟨hr, -⟩
    · exact (Option.some.inj hx).symm.le
    · exact hitems r hr x hx
  | payments rows =>
    refine ⟨horders, hitems, fun r hr x hx => ?_⟩
    rcases mem_upsert_payments.mp hr with ⟨b, -, rfl⟩ | ⟨hr, -⟩
    · exact (Option.some.inj hx).symm.le
    · exact hpayments r hr x hx

/-- The attempts of an order with a payment. -/
theorem exists_attempts {p : PaymentRow} (hp : p ∈ st.payments.rows)
    (hown : p.order_id = some order.order_id) : ∃ group, st.attempts order.order_id = some group := by
  unfold Staging.attempts groupOf
  dsimp only
  refine ⟨_, if_neg fun hempty => ?_⟩
  have hmem : p ∈ st.payments.rows.filter fun p => decide (p.order_id = some order.order_id) :=
    List.mem_filter.mpr ⟨hp, decide_eq_true hown⟩
  rw [List.isEmpty_iff.mp hempty] at hmem
  cases hmem

/-- The load time of a row of the join. -/
def sourceLoadedAt (st : Staging) (order : OrderRow) (item : OrderItemRow) : Option Instant :=
  (Staging.salesRow order item ((st.attempts order.order_id).map paymentsByOrder)).source_loaded_at

/-- **The load time of a row is bounded by those of its parts.** -/
theorem sourceLoadedAt_le (ho : ∀ x ∈ order.loaded_at, x ≤ bound) (hi : ∀ x ∈ item.loaded_at, x ≤ bound)
    (hp : ∀ p ∈ st.payments.rows, p.order_id = some order.order_id → ∀ x ∈ p.loaded_at, x ≤ bound)
    (hbase : beforeEveryLoad ≤ bound) : ∃ x, sourceLoadedAt st order item = some x ∧ x ≤ bound := by
  have hpayments : ((((st.attempts order.order_id).map paymentsByOrder).bind
      PaymentsByOrder.source_loaded_at).getD beforeEveryLoad) ≤ bound := by
    cases hgroup : st.attempts order.order_id with
    | none => exact hbase
    | some group =>
      rw [Option.map_some, Option.bind_some]
      cases hm : (paymentsByOrder group).source_loaded_at with
      | none => exact hbase
      | some m =>
        obtain ⟨p, hpm, hm⟩ := List.mem_map.mp (sqlMax_eq_some.mp hm).1
        obtain ⟨hmem, hown⟩ := ((mem_attempts hgroup).2 p).mp hpm
        exact hp p hmem hown m hm
  -- the load time of the payments is never NULL, so neither is the greatest
  have hsome : ∃ m, sourceLoadedAt st order item = some m ∧ _ :=
    le_sqlMax (List.mem_cons_of_mem _ (List.mem_cons_of_mem _ List.mem_cons_self))
  obtain ⟨m, hm, -⟩ := hsome
  refine ⟨m, hm, ?_⟩
  have hmem := (sqlMax_eq_some.mp hm).1
  simp only [List.mem_cons, List.not_mem_nil, or_false] at hmem
  rcases hmem with he | he | he
  · exact ho m he.symm
  · exact hi m he.symm
  · exact Option.some.inj he ▸ hpayments

theorem Staging.LoadedBy.source_le (h : st.LoadedBy bound) (hbase : beforeEveryLoad ≤ bound)
    (hpair : (order, item) ∈ st.orderedItems) :
    ∃ x, sourceLoadedAt st order item = some x ∧ x ≤ bound := by
  obtain ⟨ho, hi, -⟩ := mem_orderedItems.mp hpair
  exact sourceLoadedAt_le (h.orders order ho) (h.order_items item hi) (fun p hp _ => h.payments p hp) hbase

/-- **A stamped part stamps the row.** -/
theorem source_loaded_at_of_stamped (h : st.LoadedBy now) (hbase : beforeEveryLoad ≤ now)
    (hpair : (order, item) ∈ st.orderedItems)
    (hpart : order.loaded_at = some now ∨ item.loaded_at = some now ∨
      ∃ p ∈ st.payments.rows, p.order_id = some order.order_id ∧ p.loaded_at = some now) :
    sourceLoadedAt st order item = some now := by
  obtain ⟨x, hx, hle⟩ := h.source_le hbase hpair
  suffices hge : now ≤ x by rw [hx, le_antisymm hle hge]
  have hmax := (sqlMax_eq_some.mp hx).2
  rcases hpart with hpart | hpart | ⟨p, hp, hown, hloaded⟩
  · exact hmax now (by simp [hpart])
  · exact hmax now (by simp [hpart])
  · obtain ⟨group, hgroup⟩ := exists_attempts hp hown
    have hmem : p ∈ group := ((mem_attempts hgroup).2 p).mpr ⟨hp, hown⟩
    obtain ⟨m, hm, hle'⟩ := le_sqlMax (List.mem_map.mpr ⟨p, hmem, hloaded⟩)
    refine hle'.trans (hmax m ?_)
    have hpaid : (paymentsByOrder group).source_loaded_at = some m := hm
    simp [hgroup, hpaid]

end Stamps

/-! ## What an upsert takes out of the join -/

/-- Every order of the join that the batch takes a payment from gets a payment from it too. -/
def Batch.PaymentsStay (st : Staging) : Batch → Prop
  | .payments rows => ∀ order item, (order, item) ∈ st.orderedItems →
    (∃ p ∈ st.payments.rows, p.order_id = some order.order_id ∧
      ∃ b ∈ rows.rows, b.payment_id = p.payment_id ∧ b.order_id ≠ some order.order_id) →
    ∃ b ∈ rows.rows, b.order_id = some order.order_id
  | _ => True

/-- No item of the join is moved to an order that staging does not have. -/
def Batch.ItemsStay (st : Staging) : Batch → Prop
  | .order_items rows => ∀ order item, (order, item) ∈ st.orderedItems →
    ∀ b ∈ rows.rows, b.order_item_id = item.order_item_id →
      ∃ order ∈ st.orders.rows, b.order_id = some order.order_id
  | _ => True

section Changes

variable {st : Staging} {now : Instant} {rows : Table PaymentRow PaymentRow.payment_id}
variable {order : OrderRow} {item : OrderItemRow} {batch : Batch}

/-- The number of attempts of a row. -/
theorem payment_attempt_count_eq (st : Staging) (order : OrderRow) (item : OrderItemRow) :
    (Staging.salesRow order item ((st.attempts order.order_id).map paymentsByOrder)).payment_attempt_count =
      (st.payments.rows.filter fun p => decide (p.order_id = some order.order_id)).length := by
  unfold Staging.salesRow Staging.attempts groupOf
  dsimp only
  split
  · rename_i hempty
    rw [List.isEmpty_iff.mp hempty]
    rfl
  · rfl

/-- What the batch does to the attempts of an order that gains none and loses none. -/
theorem attempts_upsert_kept (hgain : ∀ b ∈ rows.rows, b.order_id ≠ some order.order_id)
    (hloss : ∀ p ∈ st.payments.rows, p.order_id = some order.order_id →
      ∀ b ∈ rows.rows, b.payment_id ≠ p.payment_id) :
    (st.upsert now (.payments rows)).attempts order.order_id = st.attempts order.order_id := by
  have hfilter : (st.upsert now (.payments rows)).payments.rows.filter
        (fun p => decide (p.order_id = some order.order_id)) =
      st.payments.rows.filter fun p => decide (p.order_id = some order.order_id) := by
    refine filter_mergeInto (fun t ht s hs hk => ?_) fun s hs _ => ?_
    · obtain ⟨b, hb, rfl⟩ := List.mem_map.mp hs
      have hnew : decide ((b.stamped now).order_id = some order.order_id) = false := decide_eq_false (hgain b hb)
      rw [hnew]
      exact (decide_eq_false fun hown => hloss t ht hown b hb hk).symm
    · obtain ⟨b, hb, rfl⟩ := List.mem_map.mp hs
      exact decide_eq_false (hgain b hb)
  unfold Staging.attempts groupOf
  rw [hfilter]

/-- **An order that only loses payments keeps an old load time**, and its rows change. -/
theorem attempts_upsert_lost (hstamps : st.LoadedBefore now) (hnow : beforeEveryLoad < now)
    (hpair : (order, item) ∈ st.orderedItems) (hgain : ∀ b ∈ rows.rows, b.order_id ≠ some order.order_id)
    (hloss : ∃ p ∈ st.payments.rows, p.order_id = some order.order_id ∧
      ∃ b ∈ rows.rows, b.payment_id = p.payment_id) :
    ∃ s ∈ (st.upsert now (.payments rows)).salesRows, s ∉ st.salesRows ∧ s.source_loaded_at ≠ some now := by
  set after := st.upsert now (.payments rows) with hafter
  have hpair' : (order, item) ∈ after.orderedItems := hpair
  refine ⟨_, mem_salesRows.mpr ⟨order, item, hpair', rfl⟩, fun hs => ?_, fun he => ?_⟩
  · -- the only old row of this item counts more attempts
    obtain ⟨order', item', hold, he⟩ := mem_salesRows.mp hs
    have hsame : (order, item) = (order', item') :=
      (uniqueOn_orderedItems st).eq_of_key hpair hold (congrArg SalesItem.order_item_id he)
    cases hsame
    have hcount := congrArg SalesItem.payment_attempt_count he
    rw [payment_attempt_count_eq, payment_attempt_count_eq] at hcount
    obtain ⟨p, hp, hown, b, hb, hid⟩ := hloss
    refine absurd hcount (Nat.ne_of_lt ?_)
    refine length_filter_upsert_lt (fun s hs => ?_)
      ⟨p, hp, decide_eq_true hown, b.stamped now, List.mem_map_of_mem hb, hid⟩
    obtain ⟨b, hb, rfl⟩ := List.mem_map.mp hs
    exact decide_eq_false (hgain b hb)
  · -- no part of the row carries the new load time
    obtain ⟨ho, hi, -⟩ := mem_orderedItems.mp hpair
    have hbefore := hstamps.loadedBy
    have hbound : ∃ x, sourceLoadedAt after order item = some x ∧ x ≤ now - 1 := by
      refine sourceLoadedAt_le (hbefore.orders order ho) (hbefore.order_items item hi) (fun p hp hown => ?_)
        (Int.le_sub_one_of_lt hnow)
      rcases mem_upsert_payments.mp hp with ⟨b, hb, rfl⟩ | ⟨hp, -⟩
      · exact absurd hown (hgain b hb)
      · exact hbefore.payments p hp
    obtain ⟨x, hx, hle⟩ := hbound
    rw [Option.some.inj (hx.symm.trans he)] at hle
    exact absurd hle (not_le.mpr (Int.sub_one_lt_of_le le_rfl))

/-- **What a changed row carries**, where the batch takes no payment away. -/
theorem changed_is_stamped (hstamps : st.LoadedBefore now) (hnow : beforeEveryLoad < now)
    (hstay : batch.PaymentsStay st) {s : SalesItem} (hs : s ∈ (st.upsert now batch).salesRows)
    (hnew : s ∉ st.salesRows) : s.source_loaded_at = some now := by
  obtain ⟨order, item, hpair, rfl⟩ := mem_salesRows.mp hs
  obtain ⟨ho, hi, hown⟩ := mem_orderedItems.mp hpair
  refine source_loaded_at_of_stamped hstamps.upsert hnow.le hpair ?_
  cases batch with
  | orders rows =>
    rcases mem_upsert_orders.mp ho with ⟨b, -, rfl⟩ | ⟨hold, -⟩
    · exact Or.inl rfl
    · exact (hnew (mem_salesRows.mpr ⟨order, item, mem_orderedItems.mpr ⟨hold, hi, hown⟩, rfl⟩)).elim
  | order_items rows =>
    rcases mem_upsert_order_items.mp hi with ⟨b, -, rfl⟩ | ⟨hold, -⟩
    · exact Or.inr (Or.inl rfl)
    · exact (hnew (mem_salesRows.mpr ⟨order, item, mem_orderedItems.mpr ⟨ho, hold, hown⟩, rfl⟩)).elim
  | payments rows =>
    have hold : (order, item) ∈ st.orderedItems := hpair
    by_cases hgain : ∃ b ∈ rows.rows, b.order_id = some order.order_id
    · obtain ⟨b, hb, hbown⟩ := hgain
      exact Or.inr (Or.inr ⟨b.stamped now, mem_upsert_payments.mpr (Or.inl ⟨b, hb, rfl⟩), hbown, rfl⟩)
    · -- the batch has no payment of this order: its attempts are as they were
      have hnone : ∀ b ∈ rows.rows, b.order_id ≠ some order.order_id := fun b hb he => hgain ⟨b, hb, he⟩
      have hkept : (st.upsert now (.payments rows)).attempts order.order_id = st.attempts order.order_id := by
        refine attempts_upsert_kept hnone fun p hp hpown b hb hid => hgain ?_
        exact hstay order item hold ⟨p, hp, hpown, b, hb, hid, hnone b hb⟩
      exact absurd (mem_salesRows.mpr ⟨order, item, hold, by rw [hkept]⟩) hnew

/-- An order of the join stays in it under an upsert that moves no item out. -/
theorem id_stays (hstay : batch.ItemsStay st) {s : SalesItem} (hs : s ∈ st.salesRows) :
    ∃ s' ∈ (st.upsert now batch).salesRows, s'.order_item_id = s.order_item_id := by
  obtain ⟨order, item, hpair, rfl⟩ := mem_salesRows.mp hs
  obtain ⟨ho, hi, hown⟩ := mem_orderedItems.mp hpair
  refine exists_salesRow_iff.mpr ?_
  cases batch with
  | orders rows =>
    refine ⟨item, hi, rfl, ?_⟩
    by_cases hb : ∃ b ∈ rows.rows, b.order_id = order.order_id
    · obtain ⟨b, hb, hid⟩ := hb
      exact ⟨b.stamped now, mem_upsert_orders.mpr (Or.inl ⟨b, hb, rfl⟩), hown.trans (congrArg some hid.symm)⟩
    · exact ⟨order, mem_upsert_orders.mpr (Or.inr ⟨ho, fun b hmem he => hb ⟨b, hmem, he⟩⟩), hown⟩
  | order_items rows =>
    by_cases hb : ∃ b ∈ rows.rows, b.order_item_id = item.order_item_id
    · obtain ⟨b, hb, hid⟩ := hb
      exact ⟨b.stamped now, mem_upsert_order_items.mpr (Or.inl ⟨b, hb, rfl⟩), hid,
        hstay order item hpair b hb hid⟩
    · exact ⟨item, mem_upsert_order_items.mpr (Or.inr ⟨hi, fun b hmem he => hb ⟨b, hmem, he⟩⟩), rfl,
        order, ho, hown⟩
  | payments rows => exact ⟨item, hi, rfl, order, ho, hown⟩

/-- An item that the batch moves to no staged order leaves the join. -/
theorem itemsStay_of_ids (h : ∀ s ∈ st.salesRows,
    ∃ s' ∈ (st.upsert now batch).salesRows, s'.order_item_id = s.order_item_id) : batch.ItemsStay st := by
  cases batch with
  | orders rows => exact trivial
  | payments rows => exact trivial
  | order_items rows =>
    intro order item hpair b hb hid
    obtain ⟨s', hs', he⟩ := h _ (mem_salesRows.mpr ⟨order, item, hpair, rfl⟩)
    obtain ⟨item', hi', hid', order', ho', hown⟩ := exists_salesRow_iff.mp ⟨s', hs', he⟩
    rcases mem_upsert_order_items.mp hi' with ⟨b', hb', rfl⟩ | ⟨-, hno⟩
    · have hsame : b' = b := rows.unique.eq_of_key hb' hb (hid'.trans hid.symm)
      exact ⟨order', ho', hsame ▸ hown⟩
    · exact absurd (hid.trans hid'.symm) (hno b hb)

/-- **A changed row carries the new load time exactly when no order of the join only loses payments**,
and an item whose row is gone has none. -/
theorem changes_visible_iff (hstamps : st.LoadedBefore now) (hnow : beforeEveryLoad < now) :
    ((∀ s ∈ (st.upsert now batch).salesRows, s ∉ st.salesRows → s.source_loaded_at = some now) ↔
      batch.PaymentsStay st) ∧
    ((∀ id, lookup SalesItem.order_item_id (st.upsert now batch).salesRows id ≠
          lookup SalesItem.order_item_id st.salesRows id →
        ∃ s ∈ (st.upsert now batch).salesRows, s.order_item_id = id ∧ s.source_loaded_at = some now) ↔
      batch.PaymentsStay st ∧ batch.ItemsStay st) ∧
    ∀ s ∈ st.salesRows, ∃ x, s.source_loaded_at = some x ∧ x < now := by
  have hrows : (∀ s ∈ (st.upsert now batch).salesRows, s ∉ st.salesRows → s.source_loaded_at = some now) ↔
      batch.PaymentsStay st := by
    refine ⟨fun h => ?_, fun hstay s hs hnew => changed_is_stamped hstamps hnow hstay hs hnew⟩
    cases batch with
    | orders rows => exact trivial
    | order_items rows => exact trivial
    | payments rows =>
      rintro order item hpair ⟨p, hp, hown, b, hb, hid, -⟩
      by_contra hgain
      have hlost : ∃ s ∈ (st.upsert now (.payments rows)).salesRows,
          s ∉ st.salesRows ∧ s.source_loaded_at ≠ some now :=
        attempts_upsert_lost hstamps hnow hpair (fun b hb he => hgain ⟨b, hb, he⟩) ⟨p, hp, hown, b, hb, hid⟩
      obtain ⟨s, hs, hnew, hne⟩ := hlost
      exact hne (h s hs hnew)
  have hu := uniqueOn_salesRows st
  have hu' := uniqueOn_salesRows (st.upsert now batch)
  refine ⟨hrows, ⟨fun h => ?_, fun ⟨hstay, hitems⟩ id hdiff => ?_⟩, fun s hs => ?_⟩
  · constructor
    · refine hrows.mp fun s hs hnew => ?_
      have hdiff : lookup SalesItem.order_item_id (st.upsert now batch).salesRows s.order_item_id ≠
          lookup SalesItem.order_item_id st.salesRows s.order_item_id := by
        rw [hu'.lookup_self hs]
        exact fun he => hnew (mem_of_lookup he.symm)
      obtain ⟨s', hs', hid, hstamp⟩ := h _ hdiff
      exact hu'.eq_of_key hs' hs hid ▸ hstamp
    · refine @itemsStay_of_ids st now batch fun s hs => ?_
      by_contra hgone
      have hdiff : lookup SalesItem.order_item_id (st.upsert now batch).salesRows s.order_item_id ≠
          lookup SalesItem.order_item_id st.salesRows s.order_item_id := by
        rw [hu.lookup_self hs, lookup_eq_none.mpr fun s' hs' hid => hgone ⟨s', hs', hid⟩]
        exact Option.some_ne_none s |>.symm
      obtain ⟨s', hs', hid, -⟩ := h _ hdiff
      exact hgone ⟨s', hs', hid⟩
  · cases hafter : lookup SalesItem.order_item_id (st.upsert now batch).salesRows id with
    | some s =>
      have hnew : s ∉ st.salesRows := fun hs => hdiff (by
        rw [hafter, ← key_of_lookup hafter, hu.lookup_self hs])
      exact ⟨s, mem_of_lookup hafter, key_of_lookup hafter, hrows.mpr hstay s (mem_of_lookup hafter) hnew⟩
    | none =>
      cases hbefore : lookup SalesItem.order_item_id st.salesRows id with
      | none => exact absurd (hafter.trans hbefore.symm) hdiff
      | some s =>
        obtain ⟨s', hs', hid⟩ := @id_stays st now batch hitems s (mem_of_lookup hbefore)
        exact absurd (hid.trans (key_of_lookup hbefore)) (lookup_eq_none.mp hafter s' hs')
  · obtain ⟨order, item, hpair, rfl⟩ := mem_salesRows.mp hs
    have hbound : ∃ x, sourceLoadedAt st order item = some x ∧ x ≤ now - 1 :=
      hstamps.loadedBy.source_le (Int.le_sub_one_of_lt hnow) hpair
    obtain ⟨x, hx, hle⟩ := hbound
    exact ⟨x, hx, Int.lt_of_le_sub_one hle⟩

/-- Orders 1 and 2, an item of order 1 and its payment, all loaded at 10. -/
def paidOrder : Staging where
  orders := (Table.empty.put ⟨1, some 7, some 5, some "pending", some 1000, none, none, some 10⟩).put
    ⟨2, some 7, some 5, some "pending", some 1000, none, none, some 10⟩
  order_items := Table.empty.put ⟨1, some 1, some 5, some 1, some 1000, none, none, some 10⟩
  payments := Table.empty.put ⟨1, some 1, some 1000, some "cash", some "completed", none, none, none, some 10⟩

/-- The payment, booked on order 2. -/
def rebooked : Batch :=
  .payments (Table.empty.put ⟨1, some 2, some 1000, some "cash", some "completed", none, none, none, none⟩)

/-- The same payment, changed to failed. -/
def failed : Table PaymentRow PaymentRow.payment_id :=
  Table.empty.put ⟨1, some 1, some 1000, some "cash", some "failed", none, none, none, none⟩

theorem paidOrder_loadedBefore : paidOrder.LoadedBefore 20 :=
  ⟨by decide, by decide, by decide⟩

/-- The item of order 1 is no longer paid, and its load time is still 10. -/
theorem changes_visible_rebooked : paidOrder.LoadedBefore 20 ∧ beforeEveryLoad < 20 ∧
    ∃ s ∈ (paidOrder.upsert 20 rebooked).salesRows, s ∉ paidOrder.salesRows ∧
      s.payment_status = .unpaid ∧ s.source_loaded_at = some 10 :=
  ⟨paidOrder_loadedBefore, by decide, by decide⟩

theorem changes_visible_failed :
    (∀ s ∈ (paidOrder.upsert 20 (.payments failed)).salesRows, s ∉ paidOrder.salesRows →
      s.source_loaded_at = some 20) ∧
    ∃ s ∈ (paidOrder.upsert 20 (.payments failed)).salesRows, s ∉ paidOrder.salesRows := by
  refine ⟨(changes_visible_iff paidOrder_loadedBefore (by decide)).1.mpr ?_, by decide⟩
  rintro order item hpair ⟨p, hp, hown, b, hb, hid, hne⟩
  have hpaid : ∀ p ∈ paidOrder.payments.rows, p.order_id = some 1 := by decide
  have hfailed : ∀ b ∈ failed.rows, b.order_id = some 1 := by decide
  exact absurd ((hfailed b hb).trans ((hpaid p hp).symm.trans hown)) hne

end Changes

end LocalDataPlatform.Sales.Nullable

import LocalDataPlatform.Stream.Agreement

/-!
# What a drained stream leaves in `current_orders`

Rows are published, perhaps several times and in any order, and the stream runs until it has processed
them.  What becomes of a `current_orders` that was there before depends on the newest version of each
order among them, and on nothing else.

* `RowAfter` — a row that was there before, after events of its order came.
* `LatestFrom` — the table, from the one before and the events that came.
* `Sends` — a record of a message that the producer makes of a row.
* `Drained` — the attempts are at records of the published rows, and have completed one of each.

Principal results: `LatestFrom.merge` (one batch), `runAttempts_latestFrom` (over every run of
attempts), `drained_perm` (which rows were published matters only through the newest of each order).
-/

set_option autoImplicit false

namespace LocalDataPlatform.Stream

open Relational

/-! ## A table that was there before -/

/-- A row after the events `S`: as it was, or the latest event of its order that is not older. -/
def RowAfter (S : Set OrderEvent) (before row : CurrentOrder) : Prop :=
  row = before ∧ (∀ e ∈ ofOrder S before.orderId, e.sourceVersion < before.order.sourceUpdatedAt) ∨
  ∃ e, IsLatest OrderEvent.sourceVersion (ofOrder S before.orderId) e ∧
    before.order.sourceUpdatedAt ≤ e.sourceVersion ∧ row.order = e.order ∧ row.latestEventId = e.eventId

/-- The events of orders that have no row. -/
def newOrders (rows : List CurrentOrder) (S : Set OrderEvent) : Set OrderEvent :=
  {e | e ∈ S ∧ lookup CurrentOrder.orderId rows e.orderId = none}

/-- The rows that were there, each after the events of its order, and the latest events of the others. -/
def LatestFrom (before : List CurrentOrder) (S : Set OrderEvent) (rows : List CurrentOrder) : Prop :=
  ∃ old new, rows = old ++ new ∧ List.Forall₂ (RowAfter S) before old ∧ LatestOrders (newOrders before S) new

section Merge

variable {S T : Set OrderEvent} {before row : CurrentOrder} {rows updates : List CurrentOrder}

theorem RowAfter.orderId (h : RowAfter S before row) : row.orderId = before.orderId := by
  rcases h with ⟨rfl, -⟩ | ⟨e, he, -, hdata, -⟩
  · rfl
  · exact (congrArg OrderFacts.orderId hdata).trans he.mem.2

theorem RowAfter.refl (row : CurrentOrder) : RowAfter ∅ row row :=
  Or.inl ⟨rfl, fun _ he => absurd he.1 (Set.notMem_empty _)⟩

/-- **A merge brings a row on** to the events that were merged. -/
theorem RowAfter.resolve (h : RowAfter S before row) (hu : LatestOrders T updates) :
    RowAfter (S ∪ T) before (resolve CurrentOrder.orderId notOlder updates row) := by
  have hlatest := hu.row before.orderId
  unfold RowAfter
  rw [ofOrder_union]
  unfold Relational.resolve
  rw [h.orderId]
  cases hl : lookup CurrentOrder.orderId updates before.orderId with
  | none =>
    rw [hl] at hlatest
    have hempty : ofOrder T before.orderId = ∅ := hlatest
    rw [hempty, Set.union_empty]
    exact h
  | some s =>
    rw [hl] at hlatest
    obtain ⟨b, hb, hsb, hib⟩ := hlatest
    dsimp only
    rcases h with ⟨rfl, hold⟩ | ⟨a, ha, hle, hra, hia⟩
    · by_cases hg : row.order.sourceUpdatedAt ≤ b.sourceVersion
      · have hnot : notOlder s row = true := by
          simpa [notOlder, hsb, OrderEvent.sourceVersion] using hg
        rw [if_pos hnot]
        refine Or.inr ⟨b, ⟨Or.inr hb.mem, ?_⟩, hg, hsb, hib⟩
        rintro e (he | he)
        · exact ((hold e he).trans_le hg).le
        · exact hb.le e he
      · have hnot : ¬ notOlder s row = true := by
          simpa [notOlder, hsb, OrderEvent.sourceVersion] using hg
        rw [if_neg hnot]
        refine Or.inl ⟨rfl, ?_⟩
        rintro e (he | he)
        · exact hold e he
        · exact (hb.le e he).trans_lt (not_le.mp hg)
    · by_cases hg : a.sourceVersion ≤ b.sourceVersion
      · have hnot : notOlder s row = true := by
          simpa [notOlder, hsb, hra, OrderEvent.sourceVersion] using hg
        rw [if_pos hnot]
        exact Or.inr ⟨b, ha.union_right hb hg, hle.trans hg, hsb, hib⟩
      · have hnot : ¬ notOlder s row = true := by
          simpa [notOlder, hsb, hra, OrderEvent.sourceVersion] using hg
        rw [if_neg hnot]
        exact Or.inr ⟨a, ha.union_left hb (le_of_not_ge hg), hle, hra, hia⟩

/-- The rows that were there keep their orders. -/
theorem map_orderId_eq {old : List CurrentOrder} {before : List CurrentOrder}
    (h : List.Forall₂ (RowAfter S) before old) :
    old.map CurrentOrder.orderId = before.map CurrentOrder.orderId := by
  induction h with
  | nil => rfl
  | cons hrow _ ih => rw [List.map_cons, List.map_cons, hrow.orderId, ih]

theorem lookup_old_eq_none {old : List CurrentOrder} {before : List CurrentOrder} {o : String}
    (h : List.Forall₂ (RowAfter S) before old) :
    lookup CurrentOrder.orderId old o = none ↔ lookup CurrentOrder.orderId before o = none := by
  have hnone : ∀ rows : List CurrentOrder, lookup CurrentOrder.orderId rows o = none ↔
      o ∉ rows.map CurrentOrder.orderId := by
    intro rows
    simp [lookup_eq_none]
  rw [hnone, hnone, map_orderId_eq h]

/-- The updates of orders that have no row are the latest of their events. -/
theorem LatestOrders.newOrders (hu : LatestOrders T updates) (old : List CurrentOrder) :
    LatestOrders (newOrders old T)
      (updates.filter fun s => (lookup CurrentOrder.orderId old s.orderId).isNone) where
  unique := hu.unique.sublist List.filter_sublist
  row o := by
    cases ho : lookup CurrentOrder.orderId old o with
    | none =>
      have hset : ofOrder (Stream.newOrders old T) o = ofOrder T o := by
        ext e
        constructor
        · exact fun he => ⟨he.1.1, he.2⟩
        · rintro ⟨he, rfl⟩
          exact ⟨⟨he, ho⟩, rfl⟩
      rw [lookup_filter_unmatched ho, hset]
      exact hu.row o
    | some r =>
      have hnone : lookup CurrentOrder.orderId
          (updates.filter fun s => (lookup CurrentOrder.orderId old s.orderId).isNone) o = none := by
        rw [lookup_eq_none]
        rintro s hs rfl
        have hfree := List.of_mem_filter hs
        rw [ho] at hfree
        cases hfree
      rw [hnone]
      refine Set.eq_empty_iff_forall_notMem.mpr ?_
      rintro e ⟨⟨-, hfree⟩, rfl⟩
      rw [ho] at hfree
      cases hfree

theorem newOrders_union : newOrders rows (S ∪ T) = newOrders rows S ∪ newOrders rows T := by
  ext e
  simp only [newOrders, Set.mem_union, Set.mem_ofPred_eq, or_and_right]

/-- **A batch brings the table on** to its events, whatever was there before. -/
theorem LatestFrom.merge {before : List CurrentOrder} (h : LatestFrom before S rows)
    (hu : LatestOrders T updates) :
    LatestFrom before (S ∪ T) (mergeInto CurrentOrder.orderId notOlder rows updates) := by
  obtain ⟨old, new, rfl, hold, hnew⟩ := h
  have hfree : ∀ r ∈ new, lookup CurrentOrder.orderId old r.orderId = none := by
    intro r hr
    have hrow := hnew.row r.orderId
    rw [hnew.unique.lookup_self hr] at hrow
    obtain ⟨e, he, -, -⟩ := hrow
    exact (lookup_old_eq_none hold).mpr (he.mem.2 ▸ he.mem.1.2)
  have hsame : Stream.newOrders old T = Stream.newOrders before T := by
    ext e
    exact and_congr_right fun _ => lookup_old_eq_none hold
  rw [mergeInto_append hfree]
  refine ⟨_, _, rfl, ?_, ?_⟩
  · rw [List.forall₂_map_right_iff]
    exact hold.imp fun before row hrow => hrow.resolve hu
  · rw [newOrders_union, ← hsame]
    exact hnew.merge (hu.newOrders old)

theorem LatestFrom.refl (rows : List CurrentOrder) : LatestFrom rows ∅ rows := by
  refine ⟨rows, [], (List.append_nil rows).symm, ?_, ?_⟩
  · exact List.forall₂_same.mpr fun row _ => RowAfter.refl row
  · have hempty : newOrders rows ∅ = ∅ := by
      ext e
      simp [newOrders]
    rw [hempty]
    exact LatestOrders.empty

end Merge

/-- **Over any run of attempts** the table follows from the one before and the events committed to it. -/
theorem runAttempts_latestFrom {sp : Spark} (t : Tables) (attempts : List Attempt)
    (hid : EventIdentity (committedEvents sp 1 attempts)) :
    LatestFrom t.currentOrders (committedEvents sp 1 attempts) (runAttempts sp t attempts).currentOrders := by
  induction attempts using List.reverseRecOn with
  | nil =>
    have hempty : committedEvents sp 1 [] = ∅ :=
      Set.eq_empty_iff_forall_notMem.mpr (by simp [committedEvents])
    rw [hempty]
    exact LatestFrom.refl t.currentOrders
  | append_singleton attempts a ih =>
    rw [committedEvents_append] at hid ⊢
    have hprev := ih (hid.mono Set.subset_union_left)
    have hrun : runAttempts sp t (attempts ++ [a]) = a.run sp (runAttempts sp t attempts) := by
      simp [runAttempts]
    rw [hrun]
    obtain ⟨-, horders, -⟩ := run_cases sp (runAttempts sp t attempts) a
    rcases horders with ⟨hc, he⟩ | ⟨hc, he⟩
    · rw [eq_of_true hc] at hid ⊢
      rw [he]
      exact hprev.merge (currentUpdates_latest (hid.mono Set.subset_union_right))
    · rw [he, eq_empty_of_not hc, Set.union_empty]
      exact hprev

section Agree

variable {S T U : Set OrderEvent} {before a b : CurrentOrder} {rows rows' : List CurrentOrder}

/-- The rows of one order agree. -/
theorem RowAfter.view_eq (ha : RowAfter S before a) (hb : RowAfter T before b) (hid : EventIdentity U)
    (hS : S ⊆ U) (hT : T ⊆ U) (hST : Below S T) (hTS : Below T S) : currentView a = currentView b := by
  rcases ha with ⟨rfl, hnone⟩ | ⟨e, he, hle, hdata, hlatest⟩
  · rcases hb with ⟨rfl, -⟩ | ⟨e, he, hle, -, -⟩
    · rfl
    · obtain ⟨e', he', ho, hge⟩ := hTS e he.mem.1
      have hlt := hnone e' ⟨he', ho.trans he.mem.2⟩
      exact absurd (hle.trans hge) (not_le.mpr hlt)
  · rcases hb with ⟨rfl, hnone⟩ | ⟨e', he', -, hdata', hlatest'⟩
    · obtain ⟨e', he', ho, hge⟩ := hST e he.mem.1
      have hlt := hnone e' ⟨he', ho.trans he.mem.2⟩
      exact absurd (hle.trans hge) (not_le.mpr hlt)
    · obtain ⟨hee, hfacts⟩ := latest_eq hid hS hT hST hTS he he'
      simp only [currentView, hdata, hdata', hlatest, hlatest', hee, hfacts]

theorem Below.newOrders (h : Below S T) (rows : List CurrentOrder) :
    Below (newOrders rows S) (newOrders rows T) := by
  rintro e ⟨he, hfree⟩
  obtain ⟨e', he', ho, hle⟩ := h e he
  exact ⟨e', ⟨he', ho ▸ hfree⟩, ho, hle⟩

/-- **Two tables from the same rows agree when their events are below each other.** -/
theorem LatestFrom.perm_map {before : List CurrentOrder} (h : LatestFrom before S rows)
    (h' : LatestFrom before T rows') (hid : EventIdentity U) (hS : S ⊆ U) (hT : T ⊆ U)
    (hST : Below S T) (hTS : Below T S) : (rows.map currentView).Perm (rows'.map currentView) := by
  obtain ⟨old, new, rfl, hold, hnew⟩ := h
  obtain ⟨old', new', rfl, hold', hnew'⟩ := h'
  have hsame : old.map currentView = old'.map currentView := by
    clear hnew hnew'
    induction hold generalizing old' with
    | nil =>
      cases hold'
      rfl
    | cons hrow _ ih =>
      cases hold' with
      | cons hrow' hrest =>
        rw [List.map_cons, List.map_cons, hrow.view_eq hrow' hid hS hT hST hTS, ih _ hrest]
  rw [List.map_append, List.map_append, hsame]
  refine List.Perm.append_left _ ?_
  exact hnew.perm_map hnew' (fun _ he => hS he.1) (fun _ he => hT he.1) hid (hST.newOrders before)
    (hTS.newOrders before)

end Agree

/-! ## Rows and their events -/

/-- A record of a message that the producer makes of the row. -/
def Sends (uuid5 : String → Uuid) (row : StagingOrder) (r : KafkaRecord) : Prop :=
  ∃ produced_at message coord timestamp,
    publishRow uuid5 produced_at row = .ok message ∧ r = message.record coord timestamp

/-- The attempts are at records of the published rows, and completed one of each row. -/
structure Drained (uuid5 : String → Uuid) (published : List StagingOrder) (attempts : List Attempt) : Prop where
  sent : ∀ a ∈ attempts, ∀ r ∈ a.records, ∃ row ∈ published, Sends uuid5 row r
  all : ∀ row ∈ published, ∃ a ∈ attempts, a.stoppedAfter = none ∧ ∃ r ∈ a.records, Sends uuid5 row r

/-- An order version has one `updated_at`, with one offset. -/
def OneVersion (rows : List StagingOrder) : Prop :=
  ∀ row ∈ rows, ∀ row' ∈ rows, row.orderId = row'.orderId → row.updatedInstant = row'.updatedInstant →
    row.updatedAt = row'.updatedAt

/-- Every row has one of its order in `rows'` that is not older. -/
def RowsBelow (rows rows' : List StagingOrder) : Prop :=
  ∀ row ∈ rows, ∃ row' ∈ rows', row'.orderId = row.orderId ∧
    ∀ t ∈ row.updatedInstant, ∃ t' ∈ row'.updatedInstant, t ≤ t'

/-- Events of one id carry one order data. -/
def OneData (S : Set OrderEvent) : Prop := ∀ a ∈ S, ∀ b ∈ S, a.eventId = b.eventId → a.order = b.order

/-- The ids of the rows' events tell the rows apart. -/
def OneRow (uuid5 : String → Uuid) (rows : List StagingOrder) : Prop :=
  ∀ row ∈ rows, ∀ row' ∈ rows, ∀ d ∈ row.updatedAt, ∀ d' ∈ row'.updatedAt,
    eventId uuid5 row.orderId d = eventId uuid5 row'.orderId d' → row = row'

section Events

variable {sp : Spark} {uuid5 : String → Uuid} {row row' : StagingOrder} {r : KafkaRecord}
variable {e e' : OrderEvent} {published published' rows : List StagingOrder} {attempts attempts' : List Attempt}

theorem EventOf.orderId (h : EventOf uuid5 row e) : e.orderId = uuidText row.orderId := by
  obtain ⟨updated_at, -, -, hdata⟩ := h
  simp only [OrderEvent.orderId, hdata, orderFacts]

theorem EventOf.version (h : EventOf uuid5 row e) : row.updatedInstant = some e.sourceVersion := by
  obtain ⟨updated_at, hupdated, -, hdata⟩ := h
  simp only [StagingOrder.updatedInstant, OrderEvent.sourceVersion, hupdated, hdata, orderFacts, Option.map_some]

/-- A record of a row is parsed as the event of the row. -/
theorem Sends.eventOf (hsp : sp.Documented) (h : Sends uuid5 row r) {now : Instant}
    (he : (parseKafkaEvent sp now r).orderEvent = some e) : EventOf uuid5 row e := by
  obtain ⟨produced_at, message, coord, timestamp, hpublish, rfl⟩ := h
  exact eventOf_publishRow hsp hpublish he

theorem EventOf.of_committed (hsp : sp.Documented) (h : Drained uuid5 published attempts)
    (he : e ∈ committedEvents sp 1 attempts) : ∃ row ∈ published, EventOf uuid5 row e := by
  obtain ⟨a, ha, -, he⟩ := he
  obtain ⟨r, hr, -, hparsed⟩ := mem_eventsOf_batch.mp he
  obtain ⟨row, hrow, hsends⟩ := h.sent a ha r hr
  exact ⟨row, hrow, hsends.eventOf hsp hparsed⟩

/-- Every published row has its event committed. -/
theorem exists_eventOf (hsp : sp.Documented) (h : Drained uuid5 published attempts) (hrow : row ∈ published) :
    ∃ e ∈ committedEvents sp 1 attempts, EventOf uuid5 row e := by
  obtain ⟨a, ha, hdone, r, hr, hsends⟩ := h.all row hrow
  obtain ⟨produced_at, message, coord, timestamp, hpublish, rfl⟩ := hsends
  have hvalid := (decodes_publishRow hsp hpublish a.now coord timestamp).isValid
  obtain ⟨e, he⟩ := orderEvent_of_isValid hvalid
  refine ⟨e, ⟨a, ha, ?_, mem_eventsOf_batch.mpr ⟨_, hr, hvalid, he⟩⟩, ?_⟩
  · intro n hn
    rw [hdone] at hn
    cases hn
  · exact eventOf_publishRow hsp hpublish he

/-- **Rows that are below each other have events that are.** -/
theorem RowsBelow.events (hsp : sp.Documented) (h : RowsBelow published published')
    (hd : Drained uuid5 published attempts) (hd' : Drained uuid5 published' attempts') :
    Below (committedEvents sp 1 attempts) (committedEvents sp 1 attempts') := by
  intro e he
  obtain ⟨row, hrow, hof⟩ := EventOf.of_committed hsp hd he
  obtain ⟨row', hrow', ho, hle⟩ := h row hrow
  obtain ⟨t', ht', hle⟩ := hle _ hof.version
  obtain ⟨e', he', hof'⟩ := exists_eventOf hsp hd' hrow'
  cases Option.some.inj (hof'.version.symm.trans ht')
  refine ⟨e', he', ?_, hle⟩
  rw [hof'.orderId, hof.orderId, ho]

/-- Events of rows with one `updated_at` for each order version have one id for it. -/
theorem eventIdentity_of_rows {S : Set OrderEvent} (hversion : OneVersion rows) (hdata : OneData S)
    (hof : ∀ e ∈ S, ∃ row ∈ rows, EventOf uuid5 row e) : EventIdentity S where
  data := hdata
  version a ha b hb := by
    constructor
    · intro hid
      have horder := hdata a ha b hb hid
      exact ⟨congrArg OrderFacts.orderId horder, congrArg OrderFacts.sourceUpdatedAt horder⟩
    · rintro ⟨ho, hv⟩
      obtain ⟨row, hrow, hrowof⟩ := hof a ha
      obtain ⟨row', hrow', hrowof'⟩ := hof b hb
      have hkey : row.orderId = row'.orderId :=
        uuidText_injective (hrowof.orderId.symm.trans (ho.trans hrowof'.orderId))
      have hupdated : row.updatedAt = row'.updatedAt := by
        refine hversion row hrow row' hrow' hkey ?_
        rw [hrowof.version, hrowof'.version, hv]
      obtain ⟨d, hd, hid, -⟩ := hrowof
      obtain ⟨d', hd', hid', -⟩ := hrowof'
      rw [hupdated, hd'] at hd
      cases hd
      rw [hid, hid', hkey]

/-- Rows that their ids tell apart have one order data for each id. -/
theorem oneData_of_rows {S : Set OrderEvent} (hids : OneRow uuid5 rows)
    (hof : ∀ e ∈ S, ∃ row ∈ rows, EventOf uuid5 row e) : OneData S := by
  intro a ha b hb hab
  obtain ⟨row, hrow, d, hd, hid, hdata⟩ := hof a ha
  obtain ⟨row', hrow', d', hd', hid', hdata'⟩ := hof b hb
  have hsame := hids row hrow row' hrow' d hd d' hd' (uuidText_injective (hid.symm.trans (hab.trans hid')))
  subst hsame
  cases Option.some.inj (hd.symm.trans hd')
  rw [hdata, hdata']

/-- The events of two drains are those of the rows of both. -/
theorem eventOf_union (hsp : sp.Documented) (hd : Drained uuid5 published attempts)
    (hd' : Drained uuid5 published' attempts') :
    ∀ e ∈ committedEvents sp 1 attempts ∪ committedEvents sp 1 attempts',
      ∃ row ∈ published ++ published', EventOf uuid5 row e := by
  rintro e (he | he)
  · obtain ⟨row, hrow, hof⟩ := EventOf.of_committed hsp hd he
    exact ⟨row, List.mem_append_left _ hrow, hof⟩
  · obtain ⟨row, hrow, hof⟩ := EventOf.of_committed hsp hd' he
    exact ⟨row, List.mem_append_right _ hrow, hof⟩

/-- **Only the newest row of each order matters**, whatever the table was, however often and in whatever
order the messages came. -/
theorem drained_perm (hsp : sp.Documented) (hd : Drained uuid5 published attempts)
    (hd' : Drained uuid5 published' attempts') (hversion : OneVersion (published ++ published'))
    (hdata : OneData (committedEvents sp 1 attempts ∪ committedEvents sp 1 attempts'))
    (hbelow : RowsBelow published published') (hbelow' : RowsBelow published' published) (t : Tables) :
    ((runAttempts sp t attempts).currentOrders.map currentView).Perm
      ((runAttempts sp t attempts').currentOrders.map currentView) := by
  have hid := eventIdentity_of_rows hversion hdata (eventOf_union hsp hd hd')
  have hfrom := runAttempts_latestFrom t attempts (hid.mono Set.subset_union_left)
  have hfrom' := runAttempts_latestFrom t attempts' (hid.mono Set.subset_union_right)
  exact hfrom.perm_map hfrom' hid Set.subset_union_left Set.subset_union_right
    (hbelow.events hsp hd hd') (hbelow'.events hsp hd' hd)

/-- Rows with an `updated_at` are drained by an attempt at a message of each. -/
theorem exists_drained (uuid5 : String → Uuid) (ex : Execution) (h : ∀ row ∈ rows, ∃ d, row.updatedAt = some d) :
    ∃ attempts, Drained uuid5 rows attempts := by
  have hrecord : ∀ row ∈ rows, ∃ r, Sends uuid5 row r := by
    intro row hrow
    obtain ⟨d, hd⟩ := h row hrow
    exact ⟨_, d, _, ⟨"orders", 0, 0⟩, 0, publishRow_eq hd, rfl⟩
  choose record hrecord using hrecord
  refine ⟨[⟨rows.attach.map fun row => record row.1 row.2, ex, 0, none⟩], ?_, ?_⟩
  · intro a ha r hr
    rw [List.mem_singleton.mp ha] at hr
    obtain ⟨row, -, rfl⟩ := List.mem_map.mp hr
    exact ⟨row.1, row.2, hrecord row.1 row.2⟩
  · intro row hrow
    refine ⟨_, List.mem_singleton_self _, rfl, record row hrow, ?_, hrecord row hrow⟩
    exact List.mem_map.mpr ⟨⟨row, hrow⟩, List.mem_attach _ _, rfl⟩

end Events

end LocalDataPlatform.Stream

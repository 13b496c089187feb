import LocalDataPlatform.Cdc.SourceTable

/-!
# Lagging behind a compacted topic

The customers topic is created with `cleanup.policy=compact`: Kafka may remove a record that has a
later retained record with the same key.  A delete event always has one, its tombstone, and
`apply_silver` ignores tombstones because the delete event before them was applied.

* `Compacts suffix kept` — `kept` is what a compaction leaves of `suffix`.
* `CustomerLog` — an uncompacted log, in which every delete event is followed by a tombstone.
* `DeletionSurvives` — a customer whose records end in a tombstone keeps a delete event as its last
  data event, or keeps none and is not live already.

Principal results: `Compacts.getLast?_recordsFor` (the last record of a key is kept),
`shown_after` (what the view shows of a customer after more records), `compaction_agrees_iff` (the
compacted suffix gives the same view exactly when every deletion survives),
`compaction_loses_delete`.
-/

set_option autoImplicit false

namespace LocalDataPlatform.Cdc

open Relational Runs

/-- What a compaction may leave: a record is dropped only if a later one of its key is kept. -/
inductive Compacts : List Message → List Message → Prop
  | nil : Compacts [] []
  | keep (m : Message) {suffix kept : List Message} (h : Compacts suffix kept) :
    Compacts (m :: suffix) (m :: kept)
  | drop (m : Message) {suffix kept : List Message} (h : Compacts suffix kept)
      (hlater : ∃ m' ∈ kept, m'.key = m.key) : Compacts (m :: suffix) kept

/-- A delete event. -/
def Message.IsDelete (m : Message) : Prop := ∃ event, m.value = some event ∧ event.op = .known .d

/-- A data event that is no delete. -/
def Message.IsUpsert (m : Message) : Prop := ∃ event, m.value = some event ∧ event.op ≠ .known .d

/-- Records of one customer in which each delete event is followed by a tombstone. -/
inductive Tombstoned : List Message → Prop
  | nil : Tombstoned []
  | upsert {m : Message} {ms : List Message} (hm : m.IsUpsert) (h : Tombstoned ms) :
    Tombstoned (m :: ms)
  | delete {d t : Message} {ms : List Message} (hd : d.IsDelete) (ht : t.value = none)
      (h : Tombstoned ms) : Tombstoned (d :: t :: ms)

/-- An uncompacted customer log. -/
structure CustomerLog (log : List Message) : Prop where
  records : CustomerRecords {m | m ∈ log}
  distinct : UniqueOn Message.coord log
  lsn : LsnOrdered log
  tombstones : ∀ id, Tombstoned (recordsFor id log)

section Keys

variable {suffix kept log : List Message} {id : Uuid} {m : Message}

theorem recordsFor_cons : recordsFor id (m :: log) =
    if m.key = some id then m :: recordsFor id log else recordsFor id log := by
  unfold recordsFor
  rw [List.filter_cons]
  simp only [decide_eq_true_eq]

theorem Compacts.sublist (h : Compacts suffix kept) : kept.Sublist suffix := by
  induction h with
  | nil => exact List.Sublist.refl _
  | keep m _ ih => exact ih.cons_cons m
  | drop m _ _ ih => exact ih.cons m

/-- **The last record of a key is kept.** -/
theorem Compacts.getLast?_recordsFor (h : Compacts suffix kept) (id : Uuid) :
    (recordsFor id kept).getLast? = (recordsFor id suffix).getLast? := by
  induction h with
  | nil => rfl
  | keep m _ ih =>
    rw [recordsFor_cons, recordsFor_cons]
    split
    · rw [List.getLast?_cons, List.getLast?_cons, ih]
    · exact ih
  | @drop m suffix kept _ hlater ih =>
    rw [recordsFor_cons]
    split
    · rename_i hk
      obtain ⟨m', hm', hk'⟩ := hlater
      have hmem : m' ∈ recordsFor id kept := List.mem_filter.mpr ⟨hm', decide_eq_true (hk'.trans hk)⟩
      rw [List.getLast?_cons, ← ih]
      cases hx : (recordsFor id kept).getLast? with
      | none => exact absurd (List.getLast?_eq_none_iff.mp hx) (List.ne_nil_of_mem hmem)
      | some x => rfl
    · exact ih

/-- A last record that is a data event is the last data event. -/
theorem lastData_of_getLast? {ms : List Message} (h : ms.getLast? = some m) (hv : m.value.isSome) :
    lastData ms = some m := by
  obtain ⟨front, rfl⟩ := List.getLast?_eq_some_iff.mp h
  have hone : [m].filter (fun m => m.value.isSome) = [m] := by simp [hv]
  unfold lastData
  rw [List.filter_append, hone, List.getLast?_concat]

/-- **A last record that is a tombstone follows a delete event.** -/
theorem Tombstoned.lastData {ms : List Message} (h : Tombstoned ms) (hlast : ms.getLast? = some m)
    (hv : m.value = none) : ∃ d, Cdc.lastData ms = some d ∧ d.IsDelete := by
  induction h with
  | nil => cases hlast
  | @upsert u ms hu _ ih =>
    obtain ⟨event, hev, -⟩ := hu
    rw [List.getLast?_cons] at hlast
    rw [lastData_cons, if_neg (by rw [hev]; exact Option.some_ne_none event)]
    cases hms : ms.getLast? with
    | none =>
      rw [hms] at hlast
      cases hlast
      have hu : u.value = none := hv
      rw [hev] at hu
      cases hu
    | some x =>
      rw [hms] at hlast
      cases hlast
      obtain ⟨d, hd, hdel⟩ := ih hms
      exact ⟨d, by rw [hd]; rfl, hdel⟩
  | @delete d t ms hd ht _ ih =>
    obtain ⟨event, hev, hop⟩ := hd
    have hdata : Cdc.lastData (d :: t :: ms) = some ((Cdc.lastData ms).getD d) := by
      rw [lastData_cons, if_neg (by rw [hev]; exact Option.some_ne_none event), lastData_cons, if_pos ht]
    rw [hdata]
    cases hms : ms.getLast? with
    | none =>
      have hnil : ms = [] := List.getLast?_eq_none_iff.mp hms
      subst hnil
      exact ⟨d, rfl, event, hev, hop⟩
    | some x =>
      rw [List.getLast?_cons, List.getLast?_cons, hms] at hlast
      cases hlast
      obtain ⟨d', hd', hdel⟩ := ih hms
      exact ⟨d', by rw [hd']; rfl, hdel⟩

/-- A complete data event shows nothing exactly when it is a delete event. -/
theorem live_rowOf_eq_none (h : CustomerRecord m) (hv : m.value.isSome) :
    live (rowOf m) = none ↔ m.IsDelete := by
  obtain ⟨event, hev⟩ := Option.isSome_iff_exists.mp hv
  obtain ⟨row, hb, hcarries⟩ := h.exists_carries hev
  obtain ⟨key, hk⟩ := h.keyed
  rw [brings_iff.mp hb, hcarries.live_eq]
  constructor
  · intro hnone
    split at hnone
    · rename_i hd
      exact ⟨event, hev, hd⟩
    · rename_i hd
      obtain ⟨-, ⟨after, ha, -⟩⟩ := (h.event key event hk hev).op.resolve_left hd
      rw [ha] at hnone
      cases hnone
  · rintro ⟨event', hev', hd⟩
    rw [hev] at hev'
    cases hev'
    rw [if_pos hd]

end Keys

section After

variable {before suffix kept more : List Message} {r₀ r : BatchResult}

/-- Distinct records are all first deliveries. -/
theorem CustomerLog.materialized (hlog : CustomerLog (before ++ suffix)) (hsub : more.Sublist suffix)
    (h₀ : processBatch Store.empty before = .ok r₀) (h : processBatch r₀.store more = .ok r) (id : Uuid) :
    r₀.store.silver.find? id = before.foldl (arriveFor id) none ∧
      r.store.silver.find? id = more.foldl (arriveFor id) (r₀.store.silver.find? id) := by
  have hbefore := processBatch_materialized Materialized.empty h₀
  have hboth := processBatch_materialized hbefore h
  have hsub' : (before ++ more).Sublist (before ++ suffix) := (List.Sublist.refl before).append hsub
  have hfirst : firstDeliveries ([] ++ before) = before :=
    (hlog.distinct.sublist (List.sublist_append_left before suffix)).dedup_eq
  have hfirst' : firstDeliveries ([] ++ before ++ more) = before ++ more :=
    (hlog.distinct.sublist hsub').dedup_eq
  have hfold := hbefore.silver
  have hfold' := hboth.silver
  rw [hfirst] at hfold
  rw [hfirst'] at hfold'
  refine ⟨find?_fold hfold, ?_⟩
  rw [find?_fold hfold', List.foldl_append, find?_fold hfold]

/-- What Silver holds of a customer was brought by one of its records. -/
theorem sourceLsn_of_find? {ms : List Message} {silver : Silver} (hrec : ∀ m ∈ ms, CustomerRecord m)
    (hfold : ms.foldlM applyMessage Table.empty = .ok silver) {id : Uuid} {row : SilverRow}
    (hrow : silver.find? id = some row) : ∃ m ∈ ms, m.key = some id ∧ row.sourceLsn ∈ m.lsn := by
  have hreflects := reflects_fold hfold id
  rw [hrow] at hreflects
  obtain ⟨w, ⟨⟨⟨m, hm, hb⟩, hid⟩, -⟩, hvis⟩ := hreflects
  obtain ⟨event, hcarries⟩ := (hrec m hm).brings_carries hb
  refine ⟨m, hm, by rw [hcarries.key, hid], ?_⟩
  rw [(fields_of_visible hvis).2.2.1]
  unfold Message.lsn
  rw [hcarries.value]
  exact hcarries.lsn

/-- **What the view shows of a customer after more records**: its last data event among them, or
what it showed before. -/
theorem CustomerLog.shown_after (hlog : CustomerLog (before ++ suffix)) (hsub : more.Sublist suffix)
    (h₀ : processBatch Store.empty before = .ok r₀) (h : processBatch r₀.store more = .ok r) (id : Uuid) :
    live (r.store.silver.find? id) =
      match lastData (recordsFor id more) with
      | some m => live (rowOf m)
      | none => live (r₀.store.silver.find? id) := by
  have hrec : ∀ m ∈ before ++ suffix, CustomerRecord m := hlog.records.record
  obtain ⟨hlsn₀, hlsn, hcross⟩ := List.pairwise_append.mp hlog.lsn
  rw [(hlog.materialized hsub h₀ h id).2]
  refine live_foldl_last (fun m hm => hrec m (List.mem_append_right _ (hsub.subset hm)))
    (hlsn.sublist hsub) ?_
  intro old hold m hm l hl
  have hfirst : firstDeliveries ([] ++ before) = before :=
    (hlog.distinct.sublist (List.sublist_append_left before suffix)).dedup_eq
  have hfold := (processBatch_materialized Materialized.empty h₀).silver
  rw [hfirst] at hfold
  obtain ⟨m₀, hm₀, hk₀, hl₀⟩ := sourceLsn_of_find?
    (fun m hm => hrec m (List.mem_append_left _ hm)) hfold hold
  obtain ⟨hm, hk⟩ := List.mem_filter.mp hm
  exact hcross m₀ hm₀ m (hsub.subset hm) (hk₀.trans (of_decide_eq_true hk).symm) _ hl₀ l hl

/-- The same for the whole log. -/
theorem CustomerLog.shown_whole (hlog : CustomerLog (before ++ suffix))
    (h₀ : processBatch Store.empty before = .ok r₀) (h : processBatch r₀.store suffix = .ok r)
    (id : Uuid) : live (r.store.silver.find? id) =
      match lastData (recordsFor id (before ++ suffix)) with
      | some m => live (rowOf m)
      | none => none := by
  obtain ⟨hfold₀, hfold⟩ := hlog.materialized (List.Sublist.refl _) h₀ h id
  rw [hfold, hfold₀, ← List.foldl_append]
  exact live_foldl_last hlog.records.record hlog.lsn (fun _ hold => nomatch hold)

end After

/-- A customer whose records end in a tombstone keeps a delete event as its last data event, or
keeps no data event and is not live already. -/
def DeletionSurvives (silver : Silver) (suffix kept : List Message) (id : Uuid) : Prop :=
  ∀ t, (recordsFor id suffix).getLast? = some t → t.value = none →
    match lastData (recordsFor id kept) with
    | some m => m.IsDelete
    | none => lookup Customer.customerId (customersCurrent silver) id = none

section Main

variable {before suffix kept : List Message} {r₀ r₁ r₂ : BatchResult}

/-- **The view agrees on a customer exactly when its deletion survives.** -/
theorem shown_agrees_iff (hlog : CustomerLog (before ++ suffix)) (hc : Compacts suffix kept)
    (h₀ : processBatch Store.empty before = .ok r₀) (h₁ : processBatch r₀.store suffix = .ok r₁)
    (h₂ : processBatch r₀.store kept = .ok r₂) (id : Uuid) :
    live (r₂.store.silver.find? id) = live (r₁.store.silver.find? id) ↔
      DeletionSurvives r₀.store.silver suffix kept id := by
  have hshown₁ := hlog.shown_after (List.Sublist.refl _) h₀ h₁ id
  have hshown₂ := hlog.shown_after hc.sublist h₀ h₂ id
  have hlast := hc.getLast?_recordsFor id
  unfold DeletionSurvives
  rw [lookup_customersCurrent]
  cases ht : (recordsFor id suffix).getLast? with
  | none =>
    -- no record of the customer at all
    have hsuffix := List.getLast?_eq_none_iff.mp ht
    have hkept := List.getLast?_eq_none_iff.mp (hlast.trans ht)
    rw [hshown₁, hshown₂, hsuffix, hkept]
    exact iff_of_true rfl (fun t h => nomatch h)
  | some t =>
    cases hv : t.value with
    | some event =>
      -- the last record is a data event, and it is kept
      have hsome : t.value.isSome := by rw [hv]; rfl
      rw [hshown₁, hshown₂, lastData_of_getLast? ht hsome, lastData_of_getLast? (hlast.trans ht) hsome]
      refine iff_of_true rfl ?_
      rintro t' ht' hv'
      cases ht'
      rw [hv] at hv'
      cases hv'
    | none =>
      -- the last record is a tombstone, so the uncompacted log ends in a delete event
      have hwhole : (recordsFor id (before ++ suffix)).getLast? = some t := by
        unfold recordsFor at ht ⊢
        rw [List.filter_append, List.getLast?_append, ht]
        rfl
      obtain ⟨d, hd, hdel⟩ := (hlog.tombstones id).lastData hwhole hv
      obtain ⟨hdrec, hdval⟩ : CustomerRecord d ∧ d.value.isSome := by
        have hmem := List.mem_filter.mp (List.mem_of_getLast? hd)
        exact ⟨hlog.records.record d (List.mem_of_mem_filter hmem.1), hmem.2⟩
      have hgone : live (r₁.store.silver.find? id) = none := by
        rw [hlog.shown_whole h₀ h₁ id, hd]
        exact (live_rowOf_eq_none hdrec hdval).mpr hdel
      rw [hgone, hshown₂]
      cases hk : lastData (recordsFor id kept) with
      | none => exact ⟨fun h _ _ _ => h, fun h => h t rfl hv⟩
      | some m =>
        obtain ⟨hmrec, hmval⟩ : CustomerRecord m ∧ m.value.isSome := by
          have hmem := List.mem_filter.mp (List.mem_of_getLast? hk)
          have hkept : m ∈ kept := List.mem_of_mem_filter hmem.1
          exact ⟨hlog.records.record m (List.mem_append_right _ (hc.sublist.subset hkept)), hmem.2⟩
        dsimp only
        rw [live_rowOf_eq_none hmrec hmval]
        exact ⟨fun h _ _ _ => h, fun h => h t rfl hv⟩

/-- **The compacted suffix gives the same view exactly when every deletion survives.** -/
theorem compaction_agrees_iff (before suffix kept : List Message) (hlog : CustomerLog (before ++ suffix))
    (hc : Compacts suffix kept) :
    ∃ r₀ r₁ r₂, processBatch Store.empty before = .ok r₀ ∧ processBatch r₀.store suffix = .ok r₁ ∧
      processBatch r₀.store kept = .ok r₂ ∧
      ((customersCurrent r₂.store.silver).Perm (customersCurrent r₁.store.silver) ↔
        ∀ id, DeletionSurvives r₀.store.silver suffix kept id) := by
  have hread : ∀ m ∈ before ++ suffix, Readable m := fun m hm => (hlog.records.record m hm).readable
  obtain ⟨r₀, h₀⟩ := processBatch_ok (fun m hm => hread m (List.mem_append_left _ hm)) Store.empty
  obtain ⟨r₁, h₁⟩ := processBatch_ok (fun m hm => hread m (List.mem_append_right _ hm)) r₀.store
  obtain ⟨r₂, h₂⟩ := processBatch_ok
    (fun m hm => hread m (List.mem_append_right _ (hc.sublist.subset hm))) r₀.store
  refine ⟨r₀, r₁, r₂, h₀, h₁, h₂, ?_⟩
  have hagree := shown_agrees_iff hlog hc h₀ h₁ h₂
  constructor
  · intro hperm id
    rw [← hagree, ← lookup_customersCurrent, ← lookup_customersCurrent]
    exact (customersCurrent_unique _).lookup_of_perm hperm
  · intro h
    refine perm_of_lookup_eq (customersCurrent_unique _) (customersCurrent_unique _) fun id => ?_
    rw [lookup_customersCurrent, lookup_customersCurrent]
    exact (hagree id).mpr (h id)

end Main

/-! ## A delete event that the consumer never sees -/

def deleteEvent : Message := sampleMessage 1 .d 20 none

def tombstone : Message := { sampleMessage 2 .t 0 none with value := none }

/-- A customer is created and deleted. -/
def deletedLog : List Message := [sampleCreate, deleteEvent, tombstone]

theorem deletedLog_customerLog : CustomerLog deletedLog where
  records := by
    have hkey : ∀ m ∈ deletedLog, m.key = some 7 := by decide
    refine ⟨fun m hm => ?_, ?_, ?_⟩
    · refine ⟨⟨7, hkey m hm⟩, fun key event hk hv => ?_⟩
      rw [hkey m hm] at hk
      cases hk
      rcases List.mem_cons.mp hm with rfl | hm
      · cases hv
        exact ⟨⟨10, rfl⟩, Or.inr ⟨Or.inr (Or.inl rfl), _, rfl, rfl⟩⟩
      rcases List.mem_cons.mp hm with rfl | hm
      · cases hv
        exact ⟨⟨20, rfl⟩, Or.inl rfl⟩
      · rw [List.mem_singleton.mp hm] at hv
        cases hv
    · have hall : ∀ m ∈ deletedLog, ∀ m' ∈ deletedLog, m.coord = m'.coord → m = m' := by decide
      exact hall
    · have hall : ∀ m ∈ deletedLog, ∀ m' ∈ deletedLog, m.key = m'.key → m.partition = m'.partition := by
        decide
      exact hall
  distinct := by
    unfold UniqueOn
    decide
  lsn := by
    unfold LsnOrdered
    decide
  tombstones id := by
    have hkey : ∀ m ∈ deletedLog, m.key = some 7 := by decide
    unfold recordsFor
    by_cases hid : id = 7
    · subst hid
      rw [List.filter_eq_self.mpr (fun m hm => decide_eq_true (hkey m hm))]
      refine .upsert ⟨_, rfl, ?_⟩ (.delete ⟨_, rfl, rfl⟩ rfl .nil)
      decide
    · rw [List.filter_eq_nil_iff.mpr]
      · exact .nil
      · intro m hm hk
        rw [hkey m hm] at hk
        exact hid (Option.some.inj (of_decide_eq_true hk)).symm

/-- Only the tombstone is left. -/
theorem deletedLog_compacts : Compacts [deleteEvent, tombstone] [tombstone] :=
  .drop deleteEvent (.keep tombstone .nil) ⟨tombstone, List.mem_singleton_self _, rfl⟩

/-- **A compaction can lose a deletion.**  The creation is applied, the delete event is compacted
away before it is read, and the tombstone alone leaves the customer live. -/
theorem compaction_loses_delete :
    ¬ ∀ (before suffix kept : List Message) (r₀ r₁ r₂ : BatchResult), CustomerLog (before ++ suffix) →
      Compacts suffix kept → processBatch Store.empty before = .ok r₀ →
      processBatch r₀.store suffix = .ok r₁ → processBatch r₀.store kept = .ok r₂ →
      (customersCurrent r₂.store.silver).Perm (customersCurrent r₁.store.silver) := by
  intro h
  have hperm := h [sampleCreate] [deleteEvent, tombstone] [tombstone] _ _ _ deletedLog_customerLog
    deletedLog_compacts rfl rfl rfl
  exact absurd hperm.length_eq (by decide)

theorem compaction_agrees_iff_deleted :
    ∃ r₀ r₁ r₂, processBatch Store.empty [sampleCreate] = .ok r₀ ∧
      processBatch r₀.store [deleteEvent, tombstone] = .ok r₁ ∧
      processBatch r₀.store [tombstone] = .ok r₂ ∧
      ((customersCurrent r₂.store.silver).Perm (customersCurrent r₁.store.silver) ↔
        ∀ id, DeletionSurvives r₀.store.silver [deleteEvent, tombstone] [tombstone] id) :=
  compaction_agrees_iff [sampleCreate] [deleteEvent, tombstone] [tombstone] deletedLog_customerLog
    deletedLog_compacts

end LocalDataPlatform.Cdc

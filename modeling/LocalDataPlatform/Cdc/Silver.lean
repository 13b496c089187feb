import LocalDataPlatform.Cdc.Deliveries
import LocalDataPlatform.Relational.Latest

/-!
# Silver depends on the set of records alone

The two upserts of `apply_silver` write different columns under one ordering guard.  Up to the
attributes of deleted customers they compute, for each customer, the record with the greatest
`(source_lsn, kafka_offset)`, so neither the order nor the repetition of deliveries matters.

* `SilverRow.visible` — a row without the attributes of a deleted customer.
* `Reflects R silver` — Silver holds, for each customer, the newest row of `R`.
* `CustomerRecords` — positions are unique, a customer stays in one partition and every data event
  is complete.

Principal results: `Reflects.foldRow` (an arriving row is added to what Silver reflects),
`Reflects.foldRow_of_mem` (a row that arrived before changes nothing), `silver_order_independent`.
-/

set_option autoImplicit false

namespace LocalDataPlatform.Cdc

open Relational

/-- A row without the attributes of a deleted customer. -/
def SilverRow.visible (row : SilverRow) : SilverRow :=
  if row.isDeleted then { row with attributes := Attributes.null } else row

/-- The rows of one customer. -/
def ofCustomer (R : Set SilverRow) (id : Uuid) : Set SilverRow := {row | row ∈ R ∧ row.customerId = id}

/-- The row of one customer, given the rows that arrived for it. -/
def ReflectsRow (R : Set SilverRow) : Option SilverRow → Prop
  | none => R = ∅
  | some row => ∃ w, IsLatest SilverRow.version R w ∧ row.visible = w.visible

/-- Silver holds the newest row of each customer. -/
def Reflects (R : Set SilverRow) (silver : Silver) : Prop :=
  ∀ id, ReflectsRow (ofCustomer R id) (silver.find? id)

section Row

variable {R : Set SilverRow} {row old : SilverRow} {silver : Silver}

@[simp] theorem visible_customerId : row.visible.customerId = row.customerId := by
  unfold SilverRow.visible
  split <;> rfl

@[simp] theorem visible_isDeleted : row.visible.isDeleted = row.isDeleted := by
  unfold SilverRow.visible
  split <;> rfl

@[simp] theorem visible_version : row.visible.version = row.version := by
  unfold SilverRow.visible
  split <;> rfl

theorem version_of_visible (h : row.visible = old.visible) : row.version = old.version := by
  rw [← visible_version, h, visible_version]

/-- Rows that look the same agree outside the attributes, and there too when they are live. -/
theorem fields_of_visible (h : row.visible = old.visible) :
    row.isDeleted = old.isDeleted ∧ row.sourceOperation = old.sourceOperation ∧
      row.sourceLsn = old.sourceLsn ∧ row.coord = old.coord ∧
      (row.isDeleted = false → row.attributes = old.attributes) := by
  have hd : row.isDeleted = old.isDeleted := by rw [← visible_isDeleted, h, visible_isDeleted]
  unfold SilverRow.visible at h
  rw [hd] at h ⊢
  cases hod : old.isDeleted with
  | true =>
    simp only [hod, if_true, SilverRow.mk.injEq] at h
    exact ⟨rfl, h.2.2.2.1, h.2.2.2.2.1, h.2.2.2.2.2.2, fun hf => nomatch hf⟩
  | false =>
    simp only [hod, Bool.false_eq_true, if_false] at h
    subst h
    exact ⟨rfl, rfl, rfl, rfl, fun _ => rfl⟩

/-- Keeping the attributes of a deleted customer does not show. -/
theorem visible_keep : (if row.isDeleted then { row with attributes := old.attributes } else row).visible
    = row.visible := by
  cases h : row.isDeleted <;> simp [SilverRow.visible, h]

/-- A newer row replaces what was there, up to what a deletion keeps. -/
theorem visible_arrive_of_newer {old? : Option SilverRow} (h : ∀ old ∈ old?, old.version < row.version) :
    (arrive old? row).visible = row.visible := by
  cases old? with
  | none => rfl
  | some old =>
    unfold arrive SilverRow.over
    dsimp only
    rw [if_pos (h old rfl)]
    exact visible_keep

/-- **An arriving row is compared with the newest one.** -/
theorem ReflectsRow.arrive {old? : Option SilverRow} (h : ReflectsRow R old?) (row : SilverRow) :
    ReflectsRow (insert row R) (some (arrive old? row)) := by
  cases old? with
  | none =>
    have hempty : R = ∅ := h
    subst hempty
    refine ⟨row, ?_, rfl⟩
    rw [insert_empty_eq]
    exact IsLatest.singleton row
  | some old =>
    obtain ⟨w, hw, hvis⟩ := h
    have hver := version_of_visible hvis
    unfold Cdc.arrive SilverRow.over
    dsimp only
    split
    · rename_i hlt
      rw [hver] at hlt
      exact ⟨row, hw.insert_newer hlt.le, visible_keep⟩
    · rename_i hge
      rw [hver] at hge
      exact ⟨w, hw.insert_older (le_of_not_gt hge), hvis⟩

theorem ofCustomer_insert_self : ofCustomer (insert row R) row.customerId =
    insert row (ofCustomer R row.customerId) := by
  ext x
  simp only [ofCustomer, Set.mem_insert_iff, Set.mem_ofPred_eq]
  constructor
  · exact fun h => h.1.imp id (fun hx => ⟨hx, h.2⟩)
  · rintro (rfl | h)
    · exact ⟨Or.inl rfl, rfl⟩
    · exact ⟨Or.inr h.1, h.2⟩

theorem ofCustomer_insert_ne {id : Uuid} (h : row.customerId ≠ id) :
    ofCustomer (insert row R) id = ofCustomer R id := by
  ext x
  simp only [ofCustomer, Set.mem_insert_iff, Set.mem_ofPred_eq]
  constructor
  · rintro ⟨rfl | hx, hid⟩
    · exact absurd hid h
    · exact ⟨hx, hid⟩
  · exact fun hx => ⟨Or.inr hx.1, hx.2⟩

/-- **An arriving row is added to what Silver reflects.** -/
theorem Reflects.foldRow (h : Reflects R silver) (row : SilverRow) :
    Reflects (insert row R) (foldRow silver row) := by
  intro id
  rw [find?_foldRow]
  split
  · rename_i hid
    subst hid
    rw [ofCustomer_insert_self]
    exact (h _).arrive row
  · rename_i hid
    rw [ofCustomer_insert_ne hid]
    exact h id

/-- **A row that arrived before changes nothing.** -/
theorem Reflects.foldRow_of_mem (h : Reflects R silver) (hrow : row ∈ R) : Cdc.foldRow silver row = silver := by
  have hid := h row.customerId
  unfold Cdc.foldRow upsertNewer
  cases hold : silver.find? row.customerId with
  | none =>
    rw [hold] at hid
    exact absurd (show row ∈ ofCustomer R row.customerId from ⟨hrow, rfl⟩)
      (Set.eq_empty_iff_forall_notMem.mp hid row)
  | some old =>
    rw [hold] at hid
    obtain ⟨w, hw, hvis⟩ := hid
    have hle : row.version ≤ old.version := (hw.le row ⟨hrow, rfl⟩).trans (version_of_visible hvis).ge
    dsimp only
    rw [if_neg (not_lt_of_ge hle)]

/-- **Two tables that reflect the same rows look the same**, when a version is one row. -/
theorem Reflects.visible_eq {silver' : Silver} (h : Reflects R silver) (h' : Reflects R silver')
    (hinj : ∀ id, Set.InjOn SilverRow.version (ofCustomer R id)) (id : Uuid) :
    (silver.find? id).map SilverRow.visible = (silver'.find? id).map SilverRow.visible := by
  have hrow := h id
  have hrow' := h' id
  cases hf : silver.find? id with
  | none =>
    rw [hf] at hrow
    cases hf' : silver'.find? id with
    | none => rfl
    | some row' =>
      rw [hf'] at hrow'
      obtain ⟨w, hw, -⟩ := hrow'
      exact absurd hw.mem (Set.eq_empty_iff_forall_notMem.mp hrow w)
  | some row =>
    rw [hf] at hrow
    obtain ⟨w, hw, hvis⟩ := hrow
    cases hf' : silver'.find? id with
    | none =>
      rw [hf'] at hrow'
      exact absurd hw.mem (Set.eq_empty_iff_forall_notMem.mp hrow' w)
    | some row' =>
      rw [hf'] at hrow'
      obtain ⟨w', hw', hvis'⟩ := hrow'
      rw [Option.map_some, Option.map_some, hvis, hvis', hw.eq hw' (hinj id)]

theorem Reflects.empty : Reflects ∅ Table.empty := by
  intro id
  exact Set.eq_empty_iff_forall_notMem.mpr (fun _ h => h.1)

end Row

/-! ## Records -/

/-- The record brings `row` to Silver. -/
def Brings (m : Message) (row : SilverRow) : Prop :=
  ∃ key, m.key = some key ∧ silverRow m key = .ok (some row)

/-- The rows that records bring. -/
def brought (S : Set Message) : Set SilverRow := {row | ∃ m ∈ S, Brings m row}

section Fold

variable {S : Set Message} {silver silver' : Silver} {m : Message}

/-- **All that `apply_silver` can do**: a row arrives, or nothing does. -/
theorem applyMessage_cases (h : applyMessage silver m = .ok silver') :
    (∃ row, Brings m row ∧ silver' = foldRow silver row) ∨
      ((∀ row, ¬ Brings m row) ∧ silver' = silver) := by
  unfold applyMessage at h
  cases hk : m.key with
  | none =>
    rw [hk] at h
    cases h
  | some key =>
    rw [hk] at h
    dsimp only at h
    rw [applySilver_eq] at h
    cases hs : silverRow m key with
    | error text =>
      rw [hs] at h
      cases h
    | ok row? =>
      rw [hs] at h
      cases h
      cases row? with
      | none =>
        refine Or.inr ⟨?_, rfl⟩
        rintro row ⟨key', hk', hs'⟩
        rw [hk] at hk'
        cases hk'
        rw [hs] at hs'
        cases hs'
      | some row => exact Or.inl ⟨row, ⟨key, hk, hs⟩, rfl⟩

theorem brings_unique {row row' : SilverRow} (h : Brings m row) (h' : Brings m row') : row = row' := by
  obtain ⟨key, hk, hs⟩ := h
  obtain ⟨key', hk', hs'⟩ := h'
  rw [hk] at hk'
  cases hk'
  rw [hs] at hs'
  cases hs'
  rfl

/-- The step of the fold of `apply_silver`. -/
theorem Reflects.applyMessage (h : Reflects (brought S) silver)
    (hm : Cdc.applyMessage silver m = .ok silver') : Reflects (brought (insert m S)) silver' := by
  rcases applyMessage_cases hm with ⟨row, hrow, rfl⟩ | ⟨hno, rfl⟩
  · have hset : brought (insert m S) = insert row (brought S) := by
      ext x
      simp only [brought, Set.mem_insert_iff, Set.mem_ofPred_eq, exists_eq_or_imp]
      exact or_congr_left ⟨fun hx => brings_unique hx hrow, fun hx => hx ▸ hrow⟩
    rw [hset]
    exact h.foldRow row
  · have hset : brought (insert m S) = brought S := by
      ext x
      simp only [brought, Set.mem_insert_iff, Set.mem_ofPred_eq, exists_eq_or_imp]
      exact or_iff_right (hno x)
    rwa [hset]

/-- **A record that was applied before changes nothing.** -/
theorem Reflects.applyMessage_of_mem (h : Reflects (brought S) silver) (hm : m ∈ S)
    (hr : Readable m) : Cdc.applyMessage silver m = .ok silver := by
  obtain ⟨key, hk⟩ := hr.keyed
  obtain ⟨row?, hs⟩ := hr.silver key hk
  unfold Cdc.applyMessage
  rw [hk]
  dsimp only
  rw [applySilver_eq, hs]
  cases row? with
  | none => rfl
  | some row =>
    have hfold : Cdc.foldRow silver row = silver := h.foldRow_of_mem ⟨m, hm, key, hk, hs⟩
    exact congrArg Except.ok hfold

/-- **Silver reflects the records folded into it.** -/
theorem reflects_fold {ms : List Message} (h : ms.foldlM Cdc.applyMessage Table.empty = .ok silver) :
    Reflects (brought {m | m ∈ ms}) silver := by
  have hstart : Reflects (brought {m | m ∈ ([] : List Message)}) Table.empty := by
    have hset : brought {m | m ∈ ([] : List Message)} = ∅ :=
      Set.eq_empty_iff_forall_notMem.mpr (fun row hrow => by
        obtain ⟨m, hm, -⟩ := hrow
        cases hm)
    rw [hset]
    exact Reflects.empty
  refine Runs.foldlM_invariant (P := fun done silver => Reflects (brought {m | m ∈ done}) silver)
    ?_ ms [] hstart h
  intro done m silver silver' hdone hm
  have hset : {m' | m' ∈ done ++ [m]} = insert m {m' | m' ∈ done} := by
    ext x
    simp [or_comm]
  rw [hset]
  exact hdone.applyMessage hm

end Fold

end LocalDataPlatform.Cdc

import LocalDataPlatform.Relational.KeyedRows
import LocalDataPlatform.Relational.Periods
import LocalDataPlatform.Sales.Facts

/-!
# The customer history behind `dim_customer`

Source changes reach Silver late, customer by customer in order, and a dbt snapshot turns what Silver
holds into versions: a version starts at the `updated_at` of its row, and ends at the `updated_at` of
the next one, or, when the key is gone from Silver, at the time of the snapshot run.

* `CustomerRow`, `SnapshotRow` — a row of `stg_customers` and of `snap_customers`.
* `snapshotRun` — one run of the snapshot; `dimCustomer` — the view over it.
* `Timeline`, `CustomerEvent`, `next` — source changes, their application and snapshot runs.
* `DisjointVersions` — the versions of a customer are proper periods, pairwise apart.
* `OpensAfterClosed` — a version that no open one precedes starts after those that ended.

Principal results: `snapshot_disjoint_iff` (one run), `versions_disjoint_iff` (over every run),
`length_matchingVersions_le_one` (disjoint versions match an order at most once).
-/

set_option autoImplicit false

namespace LocalDataPlatform.Sales

open Relational

/-- A row of `stg_customers`. -/
structure CustomerRow where
  customer_id : Uuid
  first_name : Option String
  last_name : Option String
  email : Option String
  created_at : Option Instant
  updated_at : Instant
  deriving DecidableEq, Repr

/-- A row of `snap_customers`. -/
structure SnapshotRow extends CustomerRow where
  dbt_scd_id : String
  dbt_valid_from : Instant
  dbt_valid_to : Option Instant
  deriving DecidableEq, Repr

namespace SnapshotRow

/-- `dbt_valid_to is null`. -/
def is_current (v : SnapshotRow) : Bool := v.dbt_valid_to.isNone

/-- A column of `check_cols` differs. -/
def differs (v : SnapshotRow) (row : CustomerRow) : Bool :=
  decide (v.first_name ≠ row.first_name) || decide (v.last_name ≠ row.last_name) ||
    decide (v.email ≠ row.email)

def period (v : SnapshotRow) : Period Instant := ⟨v.dbt_valid_from, v.dbt_valid_to⟩

/-- A row of `dim_customer`. -/
def toVersion (v : SnapshotRow) : CustomerVersion :=
  ⟨v.dbt_scd_id, v.customer_id, v.dbt_valid_from, v.dbt_valid_to⟩

end SnapshotRow

abbrev SilverCustomers := Table CustomerRow CustomerRow.customer_id

/-- `dim_customer`. -/
def dimCustomer (versions : List SnapshotRow) : List CustomerVersion := versions.map SnapshotRow.toVersion

/-! ## The snapshot -/

/-- What a run at `now` makes of a version: `hard_deletes: invalidate`, and the check of its columns. -/
def updateVersion (silver : SilverCustomers) (now : Instant) (v : SnapshotRow) : SnapshotRow :=
  if v.is_current then
    match silver.find? v.customer_id with
    | none => { v with dbt_valid_to := some now }
    | some row => if v.differs row then { v with dbt_valid_to := some row.updated_at } else v
  else v

/-- The key has no open version, or its columns differ from it. -/
def opens (versions : List SnapshotRow) (row : CustomerRow) : Bool :=
  versions.all fun v => !(decide (v.customer_id = row.customer_id) && v.is_current && !v.differs row)

/-- A new version; dbt derives its identifier from the key and `updated_at`. -/
def openVersion (scdId : Uuid → Instant → String) (row : CustomerRow) : SnapshotRow :=
  ⟨row, scdId row.customer_id row.updated_at, row.updated_at, none⟩

/-- A run of `snap_customers`. -/
def snapshotRun (scdId : Uuid → Instant → String) (silver : SilverCustomers) (now : Instant)
    (versions : List SnapshotRow) : List SnapshotRow :=
  versions.map (updateVersion silver now) ++
    (silver.rows.filter (opens versions)).map (openVersion scdId)

/-! ## Changes, their application, and runs -/

/-- A change of one customer. -/
inductive CustomerChange where
  | upsert (row : CustomerRow)
  | delete
  deriving DecidableEq, Repr

/-- The wall clock, the last `updated_at` of each customer, the changes not applied yet, Silver, and the
versions. -/
structure Timeline where
  clock : Instant
  last_update : Uuid → Option Instant
  pending : Uuid → List CustomerChange
  silver : SilverCustomers
  versions : List SnapshotRow

inductive CustomerEvent where
  | change (row : CustomerRow)
  | delete (customer_id : Uuid) (now : Instant)
  | apply (customer_id : Uuid)
  | snapshot (now : Instant)
  deriving DecidableEq, Repr

namespace Timeline

/-- What an applied change does to Silver. -/
def applyChange (silver : SilverCustomers) (customer_id : Uuid) : CustomerChange → SilverCustomers
  | .upsert row => silver.put row
  | .delete => silver.erase customer_id

/-- One event; a change carries the time it is made as its `updated_at`, later than the last one of its
customer. -/
def next (scdId : Uuid → Instant → String) (s : Timeline) : CustomerEvent → Timeline
  | .change row =>
    if s.clock ≤ row.updated_at ∧ ∀ t ∈ s.last_update row.customer_id, t < row.updated_at then
      { s with
        clock := row.updated_at
        last_update := Function.update s.last_update row.customer_id (some row.updated_at)
        pending := Function.update s.pending row.customer_id (s.pending row.customer_id ++ [.upsert row]) }
    else s
  | .delete customer_id now =>
    if s.clock ≤ now then
      { s with
        clock := now
        pending := Function.update s.pending customer_id (s.pending customer_id ++ [.delete]) }
    else s
  | .apply customer_id =>
    match s.pending customer_id with
    | [] => s
    | change :: more =>
      { s with
        silver := applyChange s.silver customer_id change
        pending := Function.update s.pending customer_id more }
  | .snapshot now =>
    if s.clock < now then
      { s with clock := now, versions := snapshotRun scdId s.silver now s.versions }
    else s

/-- Nothing has happened. -/
def initial (start : Instant) : Timeline := ⟨start, fun _ => none, fun _ => [], Table.empty, []⟩

def run (scdId : Uuid → Instant → String) (start : Instant) (events : List CustomerEvent) : Timeline :=
  events.foldl (next scdId) (initial start)

end Timeline

/-! ## Disjoint versions -/

/-- The versions of each customer are proper periods, pairwise apart. -/
structure DisjointVersions (versions : List SnapshotRow) : Prop where
  proper : ∀ v ∈ versions, v.period.Proper
  apart : versions.Pairwise fun v w => v.customer_id = w.customer_id → v.period.Apart w.period

/-- Where a customer of Silver has no open version, each of its versions ended by the `updated_at` of its
row. -/
def OpensAfterClosed (silver : SilverCustomers) (versions : List SnapshotRow) : Prop :=
  ∀ row ∈ silver.rows, (∀ v ∈ versions, v.customer_id = row.customer_id → v.is_current = false) →
    ∀ v ∈ versions, v.customer_id = row.customer_id → ∀ t ∈ v.dbt_valid_to, t ≤ row.updated_at

instance (silver : SilverCustomers) (versions : List SnapshotRow) :
    Decidable (OpensAfterClosed silver versions) :=
  inferInstanceAs (Decidable (∀ row ∈ silver.rows, _))

/-- The condition on an event: a run of the snapshot opens no version before an end. -/
def OrderlyEvent (s : Timeline) : CustomerEvent → Prop
  | .snapshot now => s.clock < now → OpensAfterClosed s.silver s.versions
  | _ => True

/-! ## One run of the snapshot -/

/-- The rows of the changes not applied yet. -/
def upserts (changes : List CustomerChange) : List CustomerRow :=
  changes.filterMap fun | .upsert row => some row | .delete => none

/-- What strictly increasing `updated_at` gives in every state. -/
structure Ordered (s : Timeline) : Prop where
  keys : ∀ id, ∀ row ∈ upserts (s.pending id), row.customer_id = id
  sorted : ∀ id, (upserts (s.pending id)).Pairwise fun a b => a.updated_at < b.updated_at
  last_clock : ∀ id, ∀ t ∈ s.last_update id, t ≤ s.clock
  pending_last : ∀ id, ∀ row ∈ upserts (s.pending id), ∃ t ∈ s.last_update id, row.updated_at ≤ t
  silver_last : ∀ row ∈ s.silver.rows, ∃ t ∈ s.last_update row.customer_id, row.updated_at ≤ t
  versions_last : ∀ v ∈ s.versions, ∃ t ∈ s.last_update v.customer_id, v.dbt_valid_from ≤ t
  silver_pending : ∀ row ∈ s.silver.rows, ∀ next ∈ upserts (s.pending row.customer_id),
    row.updated_at < next.updated_at
  versions_pending : ∀ v ∈ s.versions, ∀ next ∈ upserts (s.pending v.customer_id),
    v.dbt_valid_from < next.updated_at
  versions_silver : ∀ v ∈ s.versions, ∀ row ∈ s.silver.rows, v.customer_id = row.customer_id →
    v.dbt_valid_from < row.updated_at ∨ v.is_current = true ∧ v.differs row = false
  one_open : ∀ v ∈ s.versions, ∀ w ∈ s.versions, v.customer_id = w.customer_id → v.is_current = true →
    w.is_current = true → v = w

section Snapshot

variable {scdId : Uuid → Instant → String} {s : Timeline} {silver : SilverCustomers} {now : Instant}
variable {versions : List SnapshotRow} {v : SnapshotRow} {row : CustomerRow}

/-- What a run makes of a version. -/
theorem updateVersion_cases (silver : SilverCustomers) (now : Instant) (v : SnapshotRow) :
    (updateVersion silver now v = v ∧
      (v.is_current = true → ∃ row, silver.find? v.customer_id = some row ∧ v.differs row = false)) ∨
    (v.is_current = true ∧ silver.find? v.customer_id = none ∧
      updateVersion silver now v = { v with dbt_valid_to := some now }) ∨
    ∃ row, v.is_current = true ∧ silver.find? v.customer_id = some row ∧ v.differs row = true ∧
      updateVersion silver now v = { v with dbt_valid_to := some row.updated_at } := by
  unfold updateVersion
  cases hcurrent : v.is_current with
  | false => exact Or.inl ⟨rfl, fun h => by cases h⟩
  | true =>
    rw [if_pos rfl]
    cases hrow : silver.find? v.customer_id with
    | none => exact Or.inr (Or.inl ⟨rfl, rfl, rfl⟩)
    | some row =>
      dsimp only
      cases hdiffers : v.differs row with
      | true => exact Or.inr (Or.inr ⟨row, rfl, rfl, hdiffers, if_pos rfl⟩)
      | false => exact Or.inl ⟨if_neg Bool.false_ne_true, fun _ => ⟨row, rfl, hdiffers⟩⟩

@[simp] theorem updateVersion_customer_id : (updateVersion silver now v).customer_id = v.customer_id := by
  rcases updateVersion_cases silver now v with ⟨he, -⟩ | ⟨-, -, he⟩ | ⟨row, -, -, -, he⟩ <;> rw [he]

@[simp] theorem updateVersion_valid_from :
    (updateVersion silver now v).dbt_valid_from = v.dbt_valid_from := by
  rcases updateVersion_cases silver now v with ⟨he, -⟩ | ⟨-, -, he⟩ | ⟨row, -, -, -, he⟩ <;> rw [he]

@[simp] theorem updateVersion_scd_id : (updateVersion silver now v).dbt_scd_id = v.dbt_scd_id := by
  rcases updateVersion_cases silver now v with ⟨he, -⟩ | ⟨-, -, he⟩ | ⟨row, -, -, -, he⟩ <;> rw [he]

theorem SnapshotRow.is_current_iff : v.is_current = true ↔ v.dbt_valid_to = none := Option.isNone_iff_eq_none

/-- A run only takes instants away from a version. -/
theorem contains_of_updateVersion {t : Instant} (h : (updateVersion silver now v).period.Contains t) :
    v.period.Contains t := by
  rcases updateVersion_cases silver now v with ⟨he, -⟩ | ⟨hcurrent, -, he⟩ | ⟨row, hcurrent, -, -, he⟩ <;>
    rw [he] at h
  · exact h
  · exact @Period.Contains.of_close _ _ v.period t now h (SnapshotRow.is_current_iff.mp hcurrent)
  · exact @Period.Contains.of_close _ _ v.period t row.updated_at h (SnapshotRow.is_current_iff.mp hcurrent)

theorem opens_eq_true : opens versions row = true ↔
    ∀ v ∈ versions, v.customer_id = row.customer_id → v.is_current = true → v.differs row = true := by
  unfold opens
  simp only [List.all_eq_true, Bool.not_eq_true', Bool.and_eq_false_iff, decide_eq_false_iff_not,
    Bool.not_eq_false']
  constructor
  · intro h v hv hid hcurrent
    rcases h v hv with (hne | hclosed) | hdiffers
    · exact absurd hid hne
    · rw [hcurrent] at hclosed
      cases hclosed
    · exact hdiffers
  · intro h v hv
    by_cases hid : v.customer_id = row.customer_id
    · cases hcurrent : v.is_current with
      | true => exact Or.inr (h v hv hid hcurrent)
      | false => exact Or.inl (Or.inr rfl)
    · exact Or.inl (Or.inl hid)

/-- A version ends after it starts. -/
theorem proper_updateVersion (hordered : Ordered s) (hnow : s.clock < now) (hv : v ∈ s.versions)
    (h : v.period.Proper) : (updateVersion s.silver now v).period.Proper := by
  rcases updateVersion_cases s.silver now v with ⟨he, -⟩ | ⟨-, -, he⟩ | ⟨row, -, hrow, hdiffers, he⟩ <;> rw [he]
  · exact h
  · intro u hu
    cases hu
    obtain ⟨t, ht, hle⟩ := hordered.versions_last v hv
    exact (hle.trans (hordered.last_clock _ t ht)).trans_lt hnow
  · intro u hu
    cases hu
    obtain ⟨hmem, hid⟩ := Table.find?_eq_some.mp hrow
    rcases hordered.versions_silver v hv row hmem hid.symm with hlt | ⟨-, hsame⟩
    · exact hlt
    · rw [hdiffers] at hsame
      cases hsame

/-- Two versions of one customer are apart. -/
theorem DisjointVersions.apart_of_mem {v w : SnapshotRow} (h : DisjointVersions versions)
    (hv : v ∈ versions) (hw : w ∈ versions) (hne : v ≠ w) (hid : v.customer_id = w.customer_id) :
    v.period.Apart w.period := by
  have hsymm : Std.Symm fun a b : SnapshotRow => a.customer_id = b.customer_id → a.period.Apart b.period :=
    ⟨fun a b hab hba => (hab hba.symm).symm⟩
  exact h.apart.forall hv hw hne hid

/-- An open version that the row replaces started before it. -/
theorem replaced_before (hordered : Ordered s) (hv : v ∈ s.versions) (hrow : row ∈ s.silver.rows)
    (hid : v.customer_id = row.customer_id) (hdiffers : v.differs row = true) :
    v.dbt_valid_from < row.updated_at := by
  rcases hordered.versions_silver v hv row hrow hid with hlt | ⟨-, hsame⟩
  · exact hlt
  · rw [hdiffers] at hsame
    cases hsame

/-- **What a run opens is apart from what it leaves** if it starts after the ends there. -/
theorem apart_openVersion (hordered : Ordered s) (h : DisjointVersions s.versions)
    (hclosed : OpensAfterClosed s.silver s.versions) (hv : v ∈ s.versions) (hrow : row ∈ s.silver.rows)
    (hopens : opens s.versions row = true) (hid : v.customer_id = row.customer_id) :
    (updateVersion s.silver now v).period.Apart (openVersion scdId row).period := by
  have hfind : s.silver.find? v.customer_id = some row := Table.find?_eq_some.mpr ⟨hrow, hid.symm⟩
  rcases updateVersion_cases s.silver now v with ⟨he, hsame⟩ | ⟨-, hnone, -⟩ | ⟨row', -, hrow', -, he⟩
  · -- the version had ended: by the start of an open one, or by the row
    rw [he]
    cases hto : v.dbt_valid_to with
    | none =>
      obtain ⟨row', hrow', hdiffers⟩ := hsame (SnapshotRow.is_current_iff.mpr hto)
      cases hfind.symm.trans hrow'
      rw [opens_eq_true.mp hopens v hv hid (SnapshotRow.is_current_iff.mpr hto)] at hdiffers
      cases hdiffers
    | some t =>
      refine Period.apart_of_stop_le hto ?_
      by_cases hopen : ∃ u ∈ s.versions, u.customer_id = row.customer_id ∧ u.is_current = true
      · obtain ⟨u, hu, huid, hcurrent⟩ := hopen
        have hto' := SnapshotRow.is_current_iff.mp hcurrent
        have hne : v ≠ u := fun he => by
          rw [he, hto'] at hto
          cases hto
        have hapart := h.apart_of_mem hv hu hne (hid.trans huid.symm)
        obtain ⟨t', ht', hle⟩ := hapart.stop_le (h.proper v hv) (h.proper u hu) hto'
        cases hto.symm.trans ht'
        exact hle.trans (replaced_before hordered hu hrow huid (opens_eq_true.mp hopens u hu huid hcurrent)).le
      · refine hclosed row hrow (fun u hu huid => ?_) v hv hid t hto
        exact Bool.eq_false_iff.mpr fun hcurrent => hopen ⟨u, hu, huid, hcurrent⟩
  · rw [hfind] at hnone
    cases hnone
  · cases hfind.symm.trans hrow'
    rw [he]
    exact Period.apart_of_stop_le rfl le_rfl

/-- **A run keeps the versions disjoint exactly if what it opens starts after what has ended.** -/
theorem snapshot_disjoint_iff (hordered : Ordered s) (h : DisjointVersions s.versions)
    (hnow : s.clock < now) :
    DisjointVersions (snapshotRun scdId s.silver now s.versions) ↔ OpensAfterClosed s.silver s.versions := by
  unfold snapshotRun
  constructor
  · intro hafter row hrow hclosed v hv hid t ht
    have hopens : opens s.versions row = true :=
      opens_eq_true.mpr fun u hu huid hcurrent => by
        rw [hclosed u hu huid] at hcurrent
        cases hcurrent
    have hkept : updateVersion s.silver now v = v := by
      rcases updateVersion_cases s.silver now v with ⟨he, -⟩ | ⟨hcurrent, -⟩ | ⟨_, hcurrent, -⟩
      · exact he
      · rw [hclosed v hv hid] at hcurrent
        cases hcurrent
      · rw [hclosed v hv hid] at hcurrent
        cases hcurrent
    have hleft : v ∈ s.versions.map (updateVersion s.silver now) := List.mem_map.mpr ⟨v, hv, hkept⟩
    have hright : openVersion scdId row ∈ (s.silver.rows.filter (opens s.versions)).map (openVersion scdId) :=
      List.mem_map_of_mem (List.mem_filter.mpr ⟨hrow, hopens⟩)
    have hapart := (List.pairwise_append.mp hafter.apart).2.2 v hleft _ hright hid
    obtain ⟨t', ht', hle⟩ := hapart.stop_le (h.proper v hv)
      (hafter.proper _ (List.mem_append_right _ hright)) rfl
    cases ht.symm.trans ht'
    exact hle
  · intro hclosed
    constructor
    · intro w hw
      rcases List.mem_append.mp hw with hw | hw
      · obtain ⟨v, hv, rfl⟩ := List.mem_map.mp hw
        exact proper_updateVersion hordered hnow hv (h.proper v hv)
      · obtain ⟨row, -, rfl⟩ := List.mem_map.mp hw
        exact fun u hu => by cases hu
    · refine List.pairwise_append.mpr ⟨?_, ?_, ?_⟩
      · refine List.pairwise_map.mpr (h.apart.imp fun {v w} hvw hid t hv hw => ?_)
        rw [updateVersion_customer_id, updateVersion_customer_id] at hid
        exact hvw hid t (contains_of_updateVersion hv) (contains_of_updateVersion hw)
      · have hkeys : (s.silver.rows.filter (opens s.versions)).Pairwise
            fun a b => a.customer_id ≠ b.customer_id :=
          List.pairwise_map.mp (s.silver.unique.sublist List.filter_sublist)
        exact List.pairwise_map.mpr (hkeys.imp fun hne hid => absurd hid hne)
      · intro left hleft right hright hid
        obtain ⟨v, hv, rfl⟩ := List.mem_map.mp hleft
        obtain ⟨row, hrow, rfl⟩ := List.mem_map.mp hright
        obtain ⟨hrow, hopens⟩ := List.mem_filter.mp hrow
        exact apart_openVersion hordered h hclosed hv hrow hopens (updateVersion_customer_id.symm.trans hid)

end Snapshot

/-! ## Every event keeps the order -/

section Events

variable {scdId : Uuid → Instant → String} {s : Timeline} {row : CustomerRow} {id : Uuid}

theorem ordered_initial (start : Instant) : Ordered (Timeline.initial start) where
  keys := fun _ _ h => by cases h
  sorted := fun _ => List.Pairwise.nil
  last_clock := fun _ _ h => by cases h
  pending_last := fun _ _ h => by cases h
  silver_last := fun _ h => by cases h
  versions_last := fun _ h => by cases h
  silver_pending := fun _ h => by cases h
  versions_pending := fun _ h => by cases h
  versions_silver := fun _ h => by cases h
  one_open := fun _ h => by cases h

theorem upserts_append {changes more : List CustomerChange} :
    upserts (changes ++ more) = upserts changes ++ upserts more :=
  List.filterMap_append

/-- **A source change comes after everything its customer has.** -/
theorem Ordered.change (h : Ordered s) (hclock : s.clock ≤ row.updated_at)
    (hlater : ∀ t ∈ s.last_update row.customer_id, t < row.updated_at) :
    Ordered (s.next scdId (.change row)) := by
  have hnext : s.next scdId (.change row) =
      { s with
        clock := row.updated_at
        last_update := Function.update s.last_update row.customer_id (some row.updated_at)
        pending := Function.update s.pending row.customer_id (s.pending row.customer_id ++ [.upsert row]) } :=
    if_pos ⟨hclock, hlater⟩
  have hahead : ∀ id next, next ∈ upserts (Function.update s.pending row.customer_id
      (s.pending row.customer_id ++ [.upsert row]) id) →
      next ∈ upserts (s.pending id) ∨ id = row.customer_id ∧ next = row := by
    intro id next hmem
    by_cases hid : id = row.customer_id
    · rw [hid, Function.update_self, upserts_append] at hmem
      rcases List.mem_append.mp hmem with hmem | hmem
      · exact Or.inl (hid ▸ hmem)
      · exact Or.inr ⟨hid, List.mem_singleton.mp hmem⟩
    · rw [Function.update_of_ne hid] at hmem
      exact Or.inl hmem
  have hlast : ∀ id t, (∃ t' ∈ s.last_update id, t ≤ t') →
      ∃ t' ∈ Function.update s.last_update row.customer_id (some row.updated_at) id, t ≤ t' := by
    rintro id t ⟨t', ht', hle⟩
    by_cases hid : id = row.customer_id
    · subst hid
      exact ⟨row.updated_at, by rw [Function.update_self]; rfl, hle.trans (hlater t' ht').le⟩
    · exact ⟨t', by rwa [Function.update_of_ne hid], hle⟩
  have hbefore : ∀ t, (∃ t' ∈ s.last_update row.customer_id, t ≤ t') → t < row.updated_at :=
    fun t ⟨t', ht', hle⟩ => hle.trans_lt (hlater t' ht')
  rw [hnext]
  refine ⟨fun id next hmem => ?_, fun id => ?_, fun id t ht => ?_, fun id next hmem => ?_, fun r hr => ?_,
    fun v hv => ?_, fun r hr next hmem => ?_, fun v hv next hmem => ?_, h.versions_silver, h.one_open⟩
  · rcases hahead id next hmem with hmem | ⟨rfl, rfl⟩
    · exact h.keys id next hmem
    · rfl
  · dsimp only
    by_cases hid : id = row.customer_id
    · rw [hid, Function.update_self, upserts_append]
      refine List.pairwise_append.mpr ⟨h.sorted _, List.pairwise_singleton _ _, fun a ha b hb => ?_⟩
      rw [List.mem_singleton.mp hb]
      exact hbefore _ (h.pending_last _ a ha)
    · rw [Function.update_of_ne hid]
      exact h.sorted id
  · change t ∈ Function.update s.last_update row.customer_id (some row.updated_at) id at ht
    by_cases hid : id = row.customer_id
    · rw [hid, Function.update_self] at ht
      cases ht
      exact le_rfl
    · rw [Function.update_of_ne hid] at ht
      exact (h.last_clock id t ht).trans hclock
  · rcases hahead id next hmem with hmem | ⟨rfl, rfl⟩
    · exact hlast id _ (h.pending_last id next hmem)
    · exact ⟨next.updated_at, by dsimp only; rw [Function.update_self]; rfl, le_rfl⟩
  · exact hlast _ _ (h.silver_last r hr)
  · exact hlast _ _ (h.versions_last v hv)
  · rcases hahead _ next hmem with hmem | ⟨hid, rfl⟩
    · exact h.silver_pending r hr next hmem
    · exact hbefore _ (hid ▸ h.silver_last r hr)
  · rcases hahead _ next hmem with hmem | ⟨hid, rfl⟩
    · exact h.versions_pending v hv next hmem
    · exact hbefore _ (hid ▸ h.versions_last v hv)

theorem Ordered.delete {now : Instant} (h : Ordered s) (hclock : s.clock ≤ now) :
    Ordered (s.next scdId (.delete id now)) := by
  have hnext : s.next scdId (.delete id now) =
      { s with
        clock := now
        pending := Function.update s.pending id (s.pending id ++ [.delete]) } :=
    if_pos hclock
  have hahead : ∀ id', upserts (Function.update s.pending id (s.pending id ++ [.delete]) id') =
      upserts (s.pending id') := by
    intro id'
    by_cases hid : id' = id
    · rw [hid, Function.update_self, upserts_append]
      exact List.append_nil _
    · rw [Function.update_of_ne hid]
  rw [hnext]
  refine ⟨fun id' => ?_, fun id' => ?_, fun id' t ht => (h.last_clock id' t ht).trans hclock,
    fun id' => ?_, h.silver_last, h.versions_last, fun r hr => ?_, fun v hv => ?_, h.versions_silver,
    h.one_open⟩
  · rw [hahead]
    exact h.keys id'
  · rw [hahead]
    exact h.sorted id'
  · rw [hahead]
    exact h.pending_last id'
  · rw [hahead]
    exact h.silver_pending r hr
  · rw [hahead]
    exact h.versions_pending v hv

/-- The rows of Silver after a change is applied. -/
theorem mem_applyChange {silver : SilverCustomers} {change : CustomerChange} {r : CustomerRow}
    (hkey : ∀ row, change = .upsert row → row.customer_id = id)
    (hr : r ∈ (Timeline.applyChange silver id change).rows) :
    r ∈ silver.rows ∧ r.customer_id ≠ id ∨ change = .upsert r := by
  cases change with
  | delete =>
    obtain ⟨hmem, hne⟩ := List.mem_filter.mp hr
    exact Or.inl ⟨hmem, of_decide_eq_true hne⟩
  | upsert row =>
    have hfind : (silver.put row).find? r.customer_id = some r := Table.find?_eq_some.mpr ⟨hr, rfl⟩
    rw [Table.find?_put] at hfind
    by_cases hid : row.customer_id = r.customer_id
    · rw [if_pos hid] at hfind
      cases hfind
      exact Or.inr rfl
    · rw [if_neg hid] at hfind
      refine Or.inl ⟨(Table.find?_eq_some.mp hfind).1, fun he => hid ?_⟩
      rw [hkey row rfl, he]

/-- **Silver moves to the next change of a customer**, which is later than all before it. -/
theorem Ordered.apply (h : Ordered s) : Ordered (s.next scdId (.apply id)) := by
  cases hpending : s.pending id with
  | nil =>
    have hnext : s.next scdId (.apply id) = s := by
      unfold Timeline.next
      dsimp only
      rw [hpending]
    rw [hnext]
    exact h
  | cons change more =>
    have hnext : s.next scdId (.apply id) =
        { s with
          silver := Timeline.applyChange s.silver id change
          pending := Function.update s.pending id more } := by
      unfold Timeline.next
      dsimp only
      rw [hpending]
    have hsub : ∀ id', (upserts (Function.update s.pending id more id')).Sublist (upserts (s.pending id')) := by
      intro id'
      by_cases hid : id' = id
      · rw [hid, Function.update_self, hpending]
        exact (List.sublist_cons_self change more).filterMap _
      · rw [Function.update_of_ne hid]
    have hmem : ∀ id' next, next ∈ upserts (Function.update s.pending id more id') →
        next ∈ upserts (s.pending id') := fun id' next hnext => (hsub id').subset hnext
    have hhead : ∀ row, change = .upsert row → row ∈ upserts (s.pending id) := by
      rintro row rfl
      rw [hpending]
      exact List.mem_cons_self
    have hkey : ∀ row, change = .upsert row → row.customer_id = id :=
      fun row he => h.keys id row (hhead row he)
    rw [hnext]
    refine ⟨fun id' next hn => h.keys id' next (hmem id' next hn), fun id' => (h.sorted id').sublist (hsub id'),
      h.last_clock, fun id' next hn => h.pending_last id' next (hmem id' next hn), fun r hr => ?_,
      h.versions_last, fun r hr next hn => ?_,
      fun v hv next hn => h.versions_pending v hv next (hmem _ next hn), fun v hv r hr hid => ?_, h.one_open⟩
    · rcases mem_applyChange hkey hr with ⟨hr, -⟩ | he
      · exact h.silver_last r hr
      · rw [hkey r he]
        exact h.pending_last id r (hhead r he)
    · rcases mem_applyChange hkey hr with ⟨hr, -⟩ | he
      · exact h.silver_pending r hr next (hmem _ next hn)
      · -- the changes of a customer that follow its row
        have hsorted := h.sorted id
        subst he
        rw [hpending] at hsorted
        dsimp only at hn
        rw [hkey r rfl, Function.update_self] at hn
        exact (List.pairwise_cons.mp hsorted).1 next hn
    · rcases mem_applyChange hkey hr with ⟨hr, -⟩ | he
      · exact h.versions_silver v hv r hr hid
      · refine Or.inl (h.versions_pending v hv r ?_)
        rw [hid, hkey r he]
        exact hhead r he

theorem mem_snapshotRun {silver : SilverCustomers} {now : Instant} {versions : List SnapshotRow}
    {w : SnapshotRow} (hw : w ∈ snapshotRun scdId silver now versions) :
    (∃ v ∈ versions, w = updateVersion silver now v) ∨
      ∃ row ∈ silver.rows, opens versions row = true ∧ w = openVersion scdId row := by
  rcases List.mem_append.mp hw with hw | hw
  · obtain ⟨v, hv, rfl⟩ := List.mem_map.mp hw
    exact Or.inl ⟨v, hv, rfl⟩
  · obtain ⟨row, hrow, rfl⟩ := List.mem_map.mp hw
    obtain ⟨hrow, hopens⟩ := List.mem_filter.mp hrow
    exact Or.inr ⟨row, hrow, hopens, rfl⟩

/-- A version that a run leaves open is one that its row matches. -/
theorem current_updateVersion {silver : SilverCustomers} {now : Instant} {v : SnapshotRow}
    (hopen : (updateVersion silver now v).is_current = true) :
    updateVersion silver now v = v ∧ v.is_current = true ∧
      ∃ row, silver.find? v.customer_id = some row ∧ v.differs row = false := by
  rcases updateVersion_cases silver now v with ⟨he, hsame⟩ | ⟨-, -, he⟩ | ⟨row, -, -, -, he⟩
  · rw [he] at hopen
    exact ⟨he, hopen, hsame hopen⟩
  · rw [he] at hopen
    cases hopen
  · rw [he] at hopen
    cases hopen

/-- No version is opened beside one that stays open. -/
theorem not_opens_of_current {silver : SilverCustomers} {now : Instant} {versions : List SnapshotRow}
    {v : SnapshotRow} (hopen : (updateVersion silver now v).is_current = true) (hv : v ∈ versions)
    (hrow : row ∈ silver.rows) (hopens : opens versions row = true)
    (hid : (updateVersion silver now v).customer_id = row.customer_id) : False := by
  obtain ⟨-, hcurrent, row', hrow', hsame⟩ := current_updateVersion hopen
  rw [updateVersion_customer_id] at hid
  have hfind : silver.find? v.customer_id = some row := Table.find?_eq_some.mpr ⟨hrow, hid.symm⟩
  cases hfind.symm.trans hrow'
  rw [opens_eq_true.mp hopens v hv hid hcurrent] at hsame
  cases hsame

theorem Ordered.snapshot {now : Instant} (h : Ordered s) (hnow : s.clock < now) :
    Ordered (s.next scdId (.snapshot now)) := by
  have hnext : s.next scdId (.snapshot now) =
      { s with clock := now, versions := snapshotRun scdId s.silver now s.versions } := if_pos hnow
  rw [hnext]
  refine ⟨h.keys, h.sorted, fun id t ht => (h.last_clock id t ht).trans hnow.le, h.pending_last, h.silver_last,
    fun w hw => ?_, h.silver_pending, fun w hw next hn => ?_, fun w hw r hr hid => ?_,
    fun w hw w' hw' hid hopen hopen' => ?_⟩
  · rcases mem_snapshotRun hw with ⟨v, hv, rfl⟩ | ⟨row, hrow, -, rfl⟩
    · rw [updateVersion_customer_id, updateVersion_valid_from]
      exact h.versions_last v hv
    · exact h.silver_last row hrow
  · rcases mem_snapshotRun hw with ⟨v, hv, rfl⟩ | ⟨row, hrow, -, rfl⟩
    · rw [updateVersion_customer_id] at hn
      rw [updateVersion_valid_from]
      exact h.versions_pending v hv next hn
    · exact h.silver_pending row hrow next hn
  · rcases mem_snapshotRun hw with ⟨v, hv, rfl⟩ | ⟨row, hrow, -, rfl⟩
    · rw [updateVersion_customer_id] at hid
      rw [updateVersion_valid_from]
      rcases h.versions_silver v hv r hr hid with hlt | ⟨hcurrent, hsame⟩
      · exact Or.inl hlt
      · -- a version that its row still matches is left open
        have hfind : s.silver.find? v.customer_id = some r := Table.find?_eq_some.mpr ⟨hr, hid.symm⟩
        have hkept : updateVersion s.silver now v = v := by
          rcases updateVersion_cases s.silver now v with ⟨he, -⟩ | ⟨-, hnone, -⟩ | ⟨row, -, hrow, hdiffers, -⟩
          · exact he
          · rw [hfind] at hnone
            cases hnone
          · cases hfind.symm.trans hrow
            rw [hsame] at hdiffers
            cases hdiffers
        rw [hkept]
        exact Or.inr ⟨hcurrent, hsame⟩
    · have hsame : row = r := s.silver.unique.eq_of_key hrow hr hid
      subst hsame
      refine Or.inr ⟨rfl, ?_⟩
      unfold SnapshotRow.differs openVersion
      simp
  · rcases mem_snapshotRun hw with ⟨v, hv, rfl⟩ | ⟨row, hrow, hopens, rfl⟩ <;>
      rcases mem_snapshotRun hw' with ⟨v', hv', rfl⟩ | ⟨row', hrow', hopens', rfl⟩
    · obtain ⟨hkept, hcurrent, -⟩ := current_updateVersion hopen
      obtain ⟨hkept', hcurrent', -⟩ := current_updateVersion hopen'
      rw [hkept, hkept'] at hid ⊢
      exact h.one_open v hv v' hv' hid hcurrent hcurrent'
    · exact (not_opens_of_current hopen hv hrow' hopens' hid).elim
    · exact (not_opens_of_current hopen' hv' hrow hopens hid.symm).elim
    · rw [s.silver.unique.eq_of_key hrow hrow' hid]

theorem Ordered.next (h : Ordered s) (event : CustomerEvent) : Ordered (s.next scdId event) := by
  cases event with
  | change row =>
    by_cases hok : s.clock ≤ row.updated_at ∧ ∀ t ∈ s.last_update row.customer_id, t < row.updated_at
    · exact h.change hok.1 hok.2
    · rw [show s.next scdId (.change row) = s from if_neg hok]
      exact h
  | delete id now =>
    by_cases hok : s.clock ≤ now
    · exact h.delete hok
    · rw [show s.next scdId (.delete id now) = s from if_neg hok]
      exact h
  | apply id => exact h.apply
  | snapshot now =>
    by_cases hok : s.clock < now
    · exact h.snapshot hok
    · rw [show s.next scdId (.snapshot now) = s from if_neg hok]
      exact h

/-- Time passes. -/
theorem Ordered.tick {now : Instant} (h : Ordered s) (hnow : s.clock ≤ now) :
    Ordered { s with clock := now } :=
  { h with last_clock := fun id t ht => (h.last_clock id t ht).trans hnow }

/-- Only a run of the snapshot changes versions, and no event turns the clock back. -/
theorem next_versions {event : CustomerEvent} (hevent : ∀ now, event ≠ .snapshot now) :
    (s.next scdId event).versions = s.versions ∧ s.clock ≤ (s.next scdId event).clock := by
  cases event with
  | change row =>
    unfold Timeline.next
    dsimp only
    split
    · rename_i hok
      exact ⟨rfl, hok.1⟩
    · exact ⟨rfl, le_rfl⟩
  | delete id now =>
    unfold Timeline.next
    dsimp only
    split
    · rename_i hok
      exact ⟨rfl, hok⟩
    · exact ⟨rfl, le_rfl⟩
  | apply id =>
    unfold Timeline.next
    dsimp only
    split <;> exact ⟨rfl, le_rfl⟩
  | snapshot now => exact absurd rfl (hevent now)

/-- **One event keeps the versions disjoint exactly if it is orderly.** -/
theorem next_disjoint_iff {event : CustomerEvent} (hordered : Ordered s) (h : DisjointVersions s.versions) :
    DisjointVersions (s.next scdId event).versions ↔ OrderlyEvent s event := by
  cases event with
  | change row =>
    refine iff_of_true ?_ trivial
    unfold Timeline.next
    dsimp only
    split <;> exact h
  | delete id now =>
    refine iff_of_true ?_ trivial
    unfold Timeline.next
    dsimp only
    split <;> exact h
  | apply id =>
    refine iff_of_true ?_ trivial
    unfold Timeline.next
    dsimp only
    split <;> exact h
  | snapshot now =>
    by_cases hnow : s.clock < now
    · rw [show s.next scdId (.snapshot now) =
        { s with clock := now, versions := snapshotRun scdId s.silver now s.versions } from if_pos hnow]
      rw [snapshot_disjoint_iff hordered h hnow]
      exact ⟨fun hclosed _ => hclosed, fun hclosed => hclosed hnow⟩
    · rw [show s.next scdId (.snapshot now) = s from if_neg hnow]
      exact iff_of_true h fun hlt => absurd hlt hnow

/-- **Disjoint versions match an order at most once.** -/
theorem length_matchingVersions_le_one {versions : List SnapshotRow} (h : DisjointVersions versions)
    (sale : SalesItem) : (matchingVersions (dimCustomer versions) sale).length ≤ 1 := by
  have hcovers : ∀ v : SnapshotRow, v.toVersion.covers sale = true →
      v.customer_id = sale.customer_id ∧ v.period.Contains sale.order_date := by
    intro v hv
    unfold CustomerVersion.covers SnapshotRow.toVersion at hv
    simp only [Bool.and_eq_true, decide_eq_true_eq, Option.all_eq_true] at hv
    exact ⟨hv.1.1, hv.1.2, fun u hu => hv.2 u hu⟩
  refine length_filter_le_one (List.pairwise_map.mpr (h.apart.imp fun {v w} hvw hv => ?_))
  obtain ⟨hvid, hvt⟩ := hcovers v hv
  refine Bool.eq_false_iff.mpr fun hw => ?_
  obtain ⟨hwid, hwt⟩ := hcovers w hw
  exact hvw (hvid.trans hwid.symm) _ hvt hwt

theorem run_append (scdId : Uuid → Instant → String) (start : Instant) (done : List CustomerEvent)
    (event : CustomerEvent) : Timeline.run scdId start (done ++ [event]) =
      (Timeline.run scdId start done).next scdId event := by
  unfold Timeline.run
  rw [List.foldl_append]
  rfl

theorem ordered_run (scdId : Uuid → Instant → String) (start : Instant) (events : List CustomerEvent) :
    Ordered (Timeline.run scdId start events) := by
  induction events using List.reverseRecOn with
  | nil => exact ordered_initial start
  | append_singleton done event ih =>
    rw [run_append]
    exact ih.next event

/-- **Over every history the versions of each customer stay proper and disjoint, and no order has two,
exactly as long as no run of the snapshot opens a version before the end of another.** -/
theorem versions_disjoint_iff (scdId : Uuid → Instant → String) (start : Instant)
    (events : List CustomerEvent) :
    (∀ done, done <+: events → DisjointVersions (Timeline.run scdId start done).versions ∧
        ∀ sale, (matchingVersions (dimCustomer (Timeline.run scdId start done).versions) sale).length ≤ 1) ↔
      ∀ done event, done ++ [event] <+: events → OrderlyEvent (Timeline.run scdId start done) event := by
  constructor
  · intro h done event hprefix
    have hbefore := (h done ((List.prefix_append done [event]).trans hprefix)).1
    refine (@next_disjoint_iff scdId _ _ (ordered_run scdId start done) hbefore).mp ?_
    rw [← run_append]
    exact (h _ hprefix).1
  · intro h done hprefix
    have hdisjoint : DisjointVersions (Timeline.run scdId start done).versions := by
      induction done using List.reverseRecOn with
      | nil => exact ⟨fun _ hv => absurd hv List.not_mem_nil, List.Pairwise.nil⟩
      | append_singleton done event ih =>
        rw [run_append]
        refine (next_disjoint_iff (ordered_run scdId start done) ?_).mpr (h done event hprefix)
        exact ih ((List.prefix_append done [event]).trans hprefix)
    exact ⟨hdisjoint, length_matchingVersions_le_one hdisjoint⟩

end Events

/-! ## A customer that is created again while its deletion is on its way -/

section Recreated

/-- Identifiers that differ from version to version of a customer. -/
def sampleScdId (_customer_id : Uuid) (updated_at : Instant) : String := toString updated_at

/-- Customer 7 with a given email. -/
def sampleCustomer (email : String) (updated_at : Instant) : CustomerRow :=
  ⟨7, some "An", some "Le", some email, some 10, updated_at⟩

/-- Created at 10, deleted at 20, created again at 30; a run at 50 sees the deletion, one at 70 the
new row. -/
def recreated : List CustomerEvent :=
  [.change (sampleCustomer "a@x.org" 10), .apply 7, .snapshot 15, .delete 7 20,
    .change (sampleCustomer "b@x.org" 30), .apply 7, .snapshot 50, .apply 7, .snapshot 70]

/-- An order of customer 7 at 40. -/
def sampleSale : SalesItem :=
  ⟨1, 1, 7, 9, 40, "pending", 1, 1000, 1000, .unpaid, 0, 45⟩

/-- The versions `[10, 50)` and `[30, ∞)` both own 40. -/
theorem versions_disjoint_recreated :
    (Timeline.run sampleScdId 0 recreated).versions.map SnapshotRow.period = [⟨10, some 50⟩, ⟨30, none⟩] ∧
    (matchingVersions (dimCustomer (Timeline.run sampleScdId 0 recreated).versions) sampleSale).length = 2 ∧
    ¬ DisjointVersions (Timeline.run sampleScdId 0 recreated).versions := by
  have htwo : (matchingVersions (dimCustomer (Timeline.run sampleScdId 0 recreated).versions)
      sampleSale).length = 2 := rfl
  refine ⟨rfl, htwo, fun h => ?_⟩
  have hone := length_matchingVersions_le_one h sampleSale
  omega

end Recreated

end LocalDataPlatform.Sales

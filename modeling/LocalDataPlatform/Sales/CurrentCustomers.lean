import LocalDataPlatform.Cdc.Progress
import LocalDataPlatform.Relational.Joins
import LocalDataPlatform.Sales.CustomerHistory

/-!
# The open versions of `dim_customer`

What the runs of the snapshot leave open, whatever Silver held at each of them, and the tests of
`dim_customer` over it.

* `snapshots` — runs of the snapshot one after another.
* `current` — the versions with `is_current`; `Described` — the columns a version describes a customer by.
* `currentKeysMismatch`, `multipleCurrent`, `invalidRange` — the rows the singular tests return.
* `stgCustomers` — `stg_customers` over a Silver table that the materializer writes.

Principal results: `unique_snapshots` (no customer has two open versions), `current_snapshot` (after a run
the open versions are the rows of Silver), `dim_customer_tests` (right after a run the tests return no row),
`current_source` (once the materializer has applied every record, they are the customers of the source).
-/

set_option autoImplicit false

namespace LocalDataPlatform.Sales

open Relational

/-! ## The dimension and its tests -/

/-- The open versions. -/
def current (versions : List SnapshotRow) : List SnapshotRow := versions.filter SnapshotRow.is_current

/-- Runs of the snapshot, each with the rows of Silver it sees and its time. -/
def snapshots (scdId : Uuid → Instant → String) (runs : List (SilverCustomers × Instant)) :
    List SnapshotRow :=
  runs.foldl (fun versions run => snapshotRun scdId run.1 run.2 versions) []

/-- A customer and the columns of `check_cols`. -/
structure Described where
  customer_id : Uuid
  first_name : Option String
  last_name : Option String
  email : Option String
  deriving DecidableEq, Repr

def CustomerRow.described (row : CustomerRow) : Described :=
  ⟨row.customer_id, row.first_name, row.last_name, row.email⟩

/-- `assert_dim_customer_current_keys_match_cdc_silver`. -/
def currentKeysMismatch (silver : SilverCustomers) (versions : List SnapshotRow) : List (Option Uuid) :=
  ((fullOuterJoin (fun row : CustomerRow => some row.customer_id)
      (fun v : SnapshotRow => some v.customer_id) silver.rows (current versions)).filter fun pair =>
        pair.1.isNone || pair.2.isNone).map
    (coalesceKey CustomerRow.customer_id fun v : SnapshotRow => v.customer_id)

/-- `assert_dim_customer_one_current_record`. -/
def multipleCurrent (versions : List SnapshotRow) : List (Option Uuid × Nat) :=
  ((groupBy (fun v : SnapshotRow => some v.customer_id) versions).map fun group =>
    (group.1, group.2.countP SnapshotRow.is_current)).filter fun group => decide (1 < group.2)

/-- `assert_dim_customer_valid_range`. -/
def invalidRange (versions : List SnapshotRow) : List SnapshotRow :=
  versions.filter fun v => v.dbt_valid_to.any fun stop => decide (stop ≤ v.dbt_valid_from)

/-! ## What a run leaves open -/

section Current

variable {scdId : Uuid → Instant → String} {silver : SilverCustomers} {now : Instant}
variable {versions : List SnapshotRow} {v : SnapshotRow} {row : CustomerRow} {id : Uuid}

/-- No customer has two open versions. -/
abbrev OneOpen (versions : List SnapshotRow) : Prop :=
  UniqueOn (fun v : SnapshotRow => v.customer_id) (current versions)

theorem differs_eq_false : v.differs row = false ↔
    v.first_name = row.first_name ∧ v.last_name = row.last_name ∧ v.email = row.email := by
  unfold SnapshotRow.differs
  simp [and_assoc]

/-- A version stays open when its row is there and does not differ. -/
theorem is_current_updateVersion : (updateVersion silver now v).is_current = true ↔
    v.is_current = true ∧ ∃ row, silver.find? v.customer_id = some row ∧ v.differs row = false := by
  constructor
  · intro h
    obtain ⟨-, hcurrent, hrow⟩ := current_updateVersion h
    exact ⟨hcurrent, hrow⟩
  · rintro ⟨hcurrent, row, hrow, hsame⟩
    unfold updateVersion
    rw [if_pos hcurrent, hrow]
    dsimp only
    rw [hsame, if_neg Bool.false_ne_true]
    exact hcurrent

/-- The open versions after a run: those that stay open, and the new ones. -/
theorem current_snapshotRun : current (snapshotRun scdId silver now versions) =
    (current versions).filter (fun v => (silver.find? v.customer_id).any fun row => !v.differs row) ++
      (silver.rows.filter (opens versions)).map (openVersion scdId) := by
  have hkept : ∀ v ∈ versions, (SnapshotRow.is_current ∘ updateVersion silver now) v =
      (((silver.find? v.customer_id).any fun row => !v.differs row) && v.is_current) := by
    intro v _
    rw [Function.comp_apply, Bool.eq_iff_iff, is_current_updateVersion, Bool.and_eq_true, Option.any_eq_true]
    simp [and_comm]
  have hsame : ∀ v ∈ versions.filter (SnapshotRow.is_current ∘ updateVersion silver now),
      updateVersion silver now v = v := fun v hv => (current_updateVersion (List.mem_filter.mp hv).2).1
  have hnew : ∀ w ∈ (silver.rows.filter (opens versions)).map (openVersion scdId), w.is_current = true := by
    intro w hw
    obtain ⟨row, -, rfl⟩ := List.mem_map.mp hw
    rfl
  unfold current snapshotRun
  rw [List.filter_append, List.filter_map, List.map_congr_left hsame, List.map_id', List.filter_congr hkept,
    List.filter_filter, List.filter_eq_self.mpr hnew]

/-- **A run leaves no customer two open versions.** -/
theorem OneOpen.snapshotRun (h : OneOpen versions) : OneOpen (snapshotRun scdId silver now versions) := by
  unfold OneOpen
  rw [current_snapshotRun]
  refine UniqueOn.append (h.sublist List.filter_sublist) ?_ ?_
  · exact (silver.unique.sublist List.filter_sublist).map_proj fun _ => rfl
  · intro v hv w hw hid
    obtain ⟨hv, hsame⟩ := List.mem_filter.mp hv
    obtain ⟨hv, hcurrent⟩ := List.mem_filter.mp hv
    obtain ⟨row, hrow, rfl⟩ := List.mem_map.mp hw
    obtain ⟨hrow, hopens⟩ := List.mem_filter.mp hrow
    -- an open version beside a new one would match the row of its customer
    have hfind : silver.find? v.customer_id = some row := Table.find?_eq_some.mpr ⟨hrow, hid.symm⟩
    rw [hfind, Option.any_some, opens_eq_true.mp hopens v hv hid hcurrent] at hsame
    cases hsame

theorem unique_snapshots (scdId : Uuid → Instant → String) (runs : List (SilverCustomers × Instant)) :
    OneOpen (snapshots scdId runs) := by
  induction runs using List.reverseRecOn with
  | nil => exact UniqueOn.nil
  | append_singleton runs run ih =>
    unfold snapshots
    rw [List.foldl_append]
    exact ih.snapshotRun

/-- **After a run the open version of a customer describes its row in Silver**, and there is one only if
there is a row. -/
theorem lookup_snapshotRun (h : OneOpen versions) (id : Uuid) :
    (lookup (fun v : SnapshotRow => v.customer_id) (current (Sales.snapshotRun scdId silver now versions)) id).map
        (fun v => v.described) = (silver.find? id).map CustomerRow.described := by
  have hunique : OneOpen (Sales.snapshotRun scdId silver now versions) := h.snapshotRun
  unfold OneOpen at hunique
  rw [current_snapshotRun] at hunique ⊢
  cases hfind : silver.find? id with
  | none =>
    have hnone : lookup (fun v : SnapshotRow => v.customer_id)
        ((current versions).filter (fun v => (silver.find? v.customer_id).any fun row => !v.differs row) ++
          (silver.rows.filter (opens versions)).map (openVersion scdId)) id = none := by
      refine lookup_eq_none.mpr fun v hv hid => ?_
      rcases List.mem_append.mp hv with hv | hv
      · have hrow := (List.mem_filter.mp hv).2
        rw [hid, hfind] at hrow
        cases hrow
      · obtain ⟨row, hrow, rfl⟩ := List.mem_map.mp hv
        have hrow : silver.find? id = some row :=
          Table.find?_eq_some.mpr ⟨List.mem_of_mem_filter hrow, hid⟩
        cases hfind.symm.trans hrow
    rw [hnone]
    rfl
  | some row =>
    obtain ⟨hrow, hid⟩ := Table.find?_eq_some.mp hfind
    cases hopens : opens versions row with
    | true =>
      have hmem := List.mem_append_right ((current versions).filter fun v =>
        (silver.find? v.customer_id).any fun row => !v.differs row)
        (List.mem_map_of_mem (f := openVersion scdId) (List.mem_filter.mpr ⟨hrow, hopens⟩))
      have hlookup := hunique.lookup_self hmem
      change lookup _ _ row.customer_id = _ at hlookup
      rw [← hid, hlookup]
      rfl
    | false =>
      -- an open version already describes the row
      have hopen : ∃ v ∈ versions, v.customer_id = row.customer_id ∧ v.is_current = true ∧
          v.differs row = false := by
        by_contra hnone
        rw [Bool.eq_false_iff] at hopens
        refine hopens (opens_eq_true.mpr fun v hv hvid hcurrent => ?_)
        by_contra hdiffers
        exact hnone ⟨v, hv, hvid, hcurrent, Bool.eq_false_iff.mpr hdiffers⟩
      obtain ⟨v, hv, hvid, hcurrent, hsame⟩ := hopen
      have hmem : v ∈ (current versions).filter fun v =>
          (silver.find? v.customer_id).any fun row => !v.differs row := by
        refine List.mem_filter.mpr ⟨List.mem_filter.mpr ⟨hv, hcurrent⟩, ?_⟩
        rw [hvid, hid, hfind, Option.any_some, hsame]
        rfl
      have hlookup := hunique.lookup_self (List.mem_append_left _ hmem)
      change lookup _ _ v.customer_id = _ at hlookup
      rw [← hid, ← hvid, hlookup]
      obtain ⟨hfirst, hlast, hemail⟩ := differs_eq_false.mp hsame
      unfold CustomerRow.described
      rw [Option.map_some, Option.map_some, hvid, hfirst, hlast, hemail]

/-- The open versions after a run are the rows of Silver. -/
theorem current_snapshot (h : OneOpen versions) :
    ((current (Sales.snapshotRun scdId silver now versions)).map fun v => v.described).Perm
      (silver.rows.map CustomerRow.described) := by
  have hcurrent : UniqueOn Described.customer_id
      ((current (Sales.snapshotRun scdId silver now versions)).map fun v => v.described) :=
    h.snapshotRun.map_proj fun _ => rfl
  have hsilver : UniqueOn Described.customer_id (silver.rows.map CustomerRow.described) :=
    silver.unique.map_proj fun _ => rfl
  refine perm_of_lookup_eq hcurrent hsilver fun id => ?_
  have hleft : lookup Described.customer_id
      ((current (Sales.snapshotRun scdId silver now versions)).map fun v => v.described) id =
        (lookup (fun v => v.customer_id) (current (Sales.snapshotRun scdId silver now versions)) id).map
          fun v => v.described := lookup_map fun _ => rfl
  have hright : lookup Described.customer_id (silver.rows.map CustomerRow.described) id =
      (lookup CustomerRow.customer_id silver.rows id).map CustomerRow.described := lookup_map fun _ => rfl
  rw [hleft, hright, lookup_snapshotRun h id]
  rfl

/-! ## The tests -/

/-- The keys of Silver and of the open versions agree after a run. -/
theorem currentKeysMismatch_eq_nil (h : OneOpen versions) :
    currentKeysMismatch silver (Sales.snapshotRun scdId silver now versions) = [] := by
  unfold currentKeysMismatch
  rw [List.map_eq_nil_iff, List.filter_eq_nil_iff]
  intro pair hpair
  obtain ⟨id, rfl, hpresent⟩ := (mem_fullOuterJoin silver.unique h.snapshotRun).mp hpair
  have hlookup : (lookup (fun v => v.customer_id) (current (Sales.snapshotRun scdId silver now versions)) id).map
      (fun v => v.described) = (silver.find? id).map CustomerRow.described := lookup_snapshotRun h id
  unfold joined at hpresent ⊢
  unfold Table.find? at hlookup
  cases hrow : lookup CustomerRow.customer_id silver.rows id with
  | none =>
    rw [hrow] at hlookup hpresent
    rw [Option.map_none, Option.map_eq_none_iff] at hlookup
    rw [hlookup] at hpresent
    exact absurd rfl hpresent
  | some row =>
    rw [hrow] at hlookup
    obtain ⟨v, hv, -⟩ := Option.map_eq_some_iff.mp hlookup
    rw [hv]
    exact Bool.false_ne_true

/-- One open version a customer leaves no group of two. -/
theorem multipleCurrent_eq_nil (h : OneOpen versions) : multipleCurrent versions = [] := by
  unfold multipleCurrent groupBy
  rw [List.filter_eq_nil_iff]
  intro group hgroup
  rw [List.map_map] at hgroup
  obtain ⟨key, -, rfl⟩ := List.mem_map.mp hgroup
  have hcount : (versions.filter fun v => decide (some v.customer_id = key)).countP SnapshotRow.is_current ≤ 1 := by
    rw [List.countP_eq_length_filter, List.filter_filter]
    have hswap : versions.filter (fun v => v.is_current && decide (some v.customer_id = key)) =
        (current versions).filter fun v => decide (some v.customer_id = key) := by
      unfold current
      rw [List.filter_filter]
      exact List.filter_congr fun v _ => Bool.and_comm _ _
    rw [hswap]
    refine length_filter_le_one ((List.pairwise_map.mp h).imp fun {v w} hne hv => ?_)
    refine decide_eq_false fun hw => hne (Option.some.inj ((of_decide_eq_true hv).trans hw.symm))
  exact fun hlt => absurd (of_decide_eq_true hlt) (Nat.not_lt_of_ge hcount)

/-- The test of the ranges asks for proper periods. -/
theorem invalidRange_eq_nil : invalidRange versions = [] ↔ ∀ v ∈ versions, v.period.Proper := by
  unfold invalidRange
  rw [List.filter_eq_nil_iff]
  refine forall_congr' fun v => imp_congr_right fun _ => ?_
  rw [Option.any_eq_true]
  constructor
  · intro h stop hstop
    exact lt_of_not_ge fun hle => h ⟨stop, hstop, decide_eq_true hle⟩
  · rintro h ⟨stop, hstop, hle⟩
    exact absurd (h stop hstop) (not_lt_of_ge (of_decide_eq_true hle))

end Current

/-! ## Every history -/

section Runs

variable {scdId : Uuid → Instant → String} {start : Instant} {events : List CustomerEvent}

/-- In every history no customer has two open versions, and every version ends after it starts. -/
theorem versions_run (scdId : Uuid → Instant → String) (start : Instant) (events : List CustomerEvent) :
    OneOpen (Timeline.run scdId start events).versions ∧
      ∀ v ∈ (Timeline.run scdId start events).versions, v.period.Proper := by
  induction events using List.reverseRecOn with
  | nil => exact ⟨UniqueOn.nil, fun _ h => absurd h List.not_mem_nil⟩
  | append_singleton done event ih =>
    rw [run_append]
    by_cases hevent : ∃ now, event = .snapshot now
    · obtain ⟨now, rfl⟩ := hevent
      unfold Timeline.next
      dsimp only
      split
      · rename_i hnow
        refine ⟨ih.1.snapshotRun, fun w hw => ?_⟩
        rcases mem_snapshotRun hw with ⟨v, hv, rfl⟩ | ⟨row, -, -, rfl⟩
        · exact proper_updateVersion (ordered_run scdId start done) hnow hv (ih.2 v hv)
        · exact fun u hu => by cases hu
      · exact ih
    · rw [(next_versions fun now he => hevent ⟨now, he⟩).1]
      exact ih

/-- **Right after a run of the snapshot the tests of `dim_customer` return no row**, in every history in which
the `updated_at` of a customer grows with each change: changes applied late, customers deleted and created
again. -/
theorem dim_customer_tests {now : Instant} (hnow : (Timeline.run scdId start events).clock < now) :
    let s := Timeline.run scdId start (events ++ [.snapshot now])
    currentKeysMismatch s.silver s.versions = [] ∧ multipleCurrent s.versions = [] ∧ invalidRange s.versions = [] := by
  dsimp only
  obtain ⟨hone, hproper⟩ := versions_run scdId start (events ++ [.snapshot now])
  refine ⟨?_, multipleCurrent_eq_nil hone, invalidRange_eq_nil.mpr hproper⟩
  rw [run_append]
  unfold Timeline.next
  dsimp only
  rw [if_pos hnow]
  exact currentKeysMismatch_eq_nil (versions_run scdId start events).1

/-- A customer that is created again while its deletion is on its way. -/
theorem dim_customer_tests_recreated :
    currentKeysMismatch (Timeline.run sampleScdId 0 recreated).silver
        (Timeline.run sampleScdId 0 recreated).versions = [] ∧
      (current (Timeline.run sampleScdId 0 recreated).versions).map (fun v => v.email) = [some "b@x.org"] :=
  ⟨(@dim_customer_tests sampleScdId 0 recreated.dropLast 70 (by decide)).1, rfl⟩

end Runs

/-! ## From the source to the dimension -/

/-- A row of `stg_customers`; `updated_at` is not null in the source. -/
def stgCustomer (c : Cdc.Customer) : Option CustomerRow :=
  c.attributes.updatedAt.map fun updated_at =>
    ⟨c.customerId, c.attributes.firstName, c.attributes.lastName, c.attributes.email, c.attributes.createdAt,
      updated_at⟩

/-- `stg_customers`. -/
def stgCustomers (silver : Cdc.Silver) : SilverCustomers where
  rows := (Cdc.customersCurrent silver).filterMap stgCustomer
  unique := (Cdc.customersCurrent_unique silver).filterMap fun c row h => by
    obtain ⟨updated_at, -, rfl⟩ := Option.map_eq_some_iff.mp h
    rfl

def describedSource (c : Cdc.Customer) : Described :=
  ⟨c.customerId, c.attributes.firstName, c.attributes.lastName, c.attributes.email⟩

section Source

variable {initial : Cdc.SourceTable} {ops : List Cdc.SourceOp} {logs : Cdc.Logs} {c : Cdc.State}

/-- Customers with an `updated_at` lose nothing in `stg_customers`. -/
theorem described_stgCustomers {customers : List Cdc.Customer}
    (h : ∀ c ∈ customers, c.attributes.updatedAt.isSome) :
    (customers.filterMap stgCustomer).map CustomerRow.described = customers.map describedSource := by
  induction customers with
  | nil => rfl
  | cons c customers ih =>
    obtain ⟨updated_at, hupdated⟩ := Option.isSome_iff_exists.mp (h c List.mem_cons_self)
    have hrow : stgCustomer c = some ⟨c.customerId, c.attributes.firstName, c.attributes.lastName,
        c.attributes.email, c.attributes.createdAt, updated_at⟩ := by
      unfold stgCustomer
      rw [hupdated]
      rfl
    rw [List.filterMap_cons_some hrow, List.map_cons, List.map_cons,
      ih fun c hc => h c (List.mem_cons_of_mem _ hc)]
    rfl

/-- **`dim_customer` shows the customers of the source.**  Whatever was delivered how often and in which
order, and whatever earlier runs of the snapshot saw: once the materializer has applied every record, a run
leaves one open version for each customer of the source, with its name and address. -/
theorem current_source (hdelivers : Cdc.Delivers (Cdc.changes initial ops) logs) (hreach : Cdc.Reachable logs c)
    (hall : ∀ p, ∀ m ∈ logs.records p, m ∈ c.delivered)
    (hupdated : ∀ row ∈ (Cdc.finalTable initial ops).rows, row.attributes.updatedAt.isSome)
    (scdId : Uuid → Instant → String) (runs : List (SilverCustomers × Instant)) (now : Instant) :
    ((current (snapshots scdId (runs ++ [(stgCustomers c.store.silver, now)]))).map fun v => v.described).Perm
      ((Cdc.finalTable initial ops).rows.map describedSource) := by
  have hcustomers : (Cdc.customersCurrent c.store.silver).Perm (Cdc.finalTable initial ops).rows :=
    perm_of_lookup_eq (Cdc.customersCurrent_unique _) (Cdc.finalTable initial ops).unique
      (Cdc.lookup_customersCurrent_source hdelivers hreach hall)
  have hstaged : ((stgCustomers c.store.silver).rows.map CustomerRow.described).Perm
      ((Cdc.finalTable initial ops).rows.map describedSource) := by
    have hrows := described_stgCustomers fun c hc => hupdated c (hcustomers.mem_iff.mp hc)
    exact (List.Perm.of_eq hrows).trans (hcustomers.map describedSource)
  unfold snapshots
  rw [List.foldl_append]
  exact (current_snapshot (unique_snapshots scdId runs)).trans hstaged

def annLee : Cdc.Customer := ⟨7, some "Ann", some "Lee", some "ann@shop.org", some 5, some 5⟩

/-- Her creation. -/
def annRecord : Cdc.Message where
  coord := ⟨"shop.public.customers", 0, 0⟩
  key := some 7
  value := some ⟨.known .c, none, some annLee, some ⟨some 10, some 0⟩, none⟩
  timestampMs := some 0

theorem annRecord_partition : Cdc.OnePartition Cdc.sampleHome [annRecord] where
  partition := by decide
  ordered := List.pairwise_singleton _ _
  nonneg := by decide

def annLogs : Cdc.Logs := Cdc.oneLog Cdc.sampleHome [annRecord] annRecord_partition

theorem annRecord_publishes : List.Forall₂ Cdc.Publishes (Cdc.changes Table.empty [.insert annLee]) [annRecord] :=
  .cons (Cdc.publishes_event rfl rfl rfl rfl rfl) .nil

theorem annRecord_key : ∀ m ∈ [annRecord], m.key = some 7 := by decide

theorem annChanges_key : ∀ c ∈ Cdc.changes Table.empty [.insert annLee], c.key = 7 := by decide

def annDelivers : Cdc.Delivers (Cdc.changes Table.empty [.insert annLee]) annLogs :=
  Cdc.oneLogDelivers annChanges_key annRecord_key annRecord_publishes (List.pairwise_singleton _ _)

/-- An earlier run saw another address of her; the source has this one. -/
theorem current_source_ann : ∃ c, Cdc.Reachable annLogs c ∧
    ((current (snapshots sampleScdId ([(Table.empty.put (sampleCustomer "a@x.org" 3), 4)] ++
      [(stgCustomers c.store.silver, 20)]))).map fun v => v.described).Perm [describedSource annLee] := by
  have hread : ∀ m ∈ [annRecord], Cdc.Readable m := by
    intro m hm
    obtain ⟨change, hchange, hpub⟩ := Cdc.exists_of_forall₂ annRecord_publishes hm
    exact (hpub.customerRecord (Cdc.changes_complete change hchange)).readable
  obtain ⟨c, hreach, hdelivered⟩ : ∃ c, Cdc.Reachable annLogs c ∧ c.delivered = [annRecord] :=
    Cdc.reachable_oneLog List.prefix_rfl (by decide) hread
  refine ⟨c, hreach, current_source annDelivers hreach (fun p m hm => ?_) (by decide) sampleScdId _ 20⟩
  rw [hdelivered]
  exact (Cdc.mem_oneLog hm).2

end Source

end LocalDataPlatform.Sales

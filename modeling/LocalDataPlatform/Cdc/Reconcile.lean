import LocalDataPlatform.Cdc.SourceTable
import LocalDataPlatform.Relational.Joins

/-!
# The customer reconciliation

`cdc/reconcile_customers.py` compares `public.customers` with `cdc_silver.customers_current` in one query
and fails on a difference.

* `differs` — the WHERE clause over one row of the full outer join; `differences` — the common table
  expression; `duplicateOffsets` — the positions with several Bronze rows.
* `reconciliation` — the row the query returns; `required`, `main` — the script, with what it prints.
* `sourceMap`, `liveMap` — both tables as partial maps from `customer_id` to the other columns.

Principal results: `differs_joined` (a joined row is a difference exactly when the maps differ),
`duplicateOffsets_eq_nil` (the Bronze key leaves no duplicate), `reconciliation_exact` (the count and the
verdict), `main_of_delivered` (the script succeeds on what the materializer leaves once it has applied every
record).
-/

set_option autoImplicit false

namespace LocalDataPlatform.Cdc

open Relational

/-! ## The query -/

/-- A row of `public.customers FULL OUTER JOIN cdc_silver.customers_current`. -/
abbrev JoinedCustomer := Option Customer × Option Customer

/-- A column of a row that the join may have padded with NULL. -/
def column {α : Type} (field : Attributes → Option α) (row? : Option Customer) : Option α :=
  row?.bind fun row => field row.attributes

/-- The WHERE clause of `differences`; none of its comparisons is NULL. -/
def differs (pair : JoinedCustomer) : Bool :=
  let (source, silver) := pair
  (source.map Customer.customerId).isNone || (silver.map Customer.customerId).isNone ||
    isDistinctFrom (column Attributes.firstName source) (column Attributes.firstName silver) ||
    isDistinctFrom (column Attributes.lastName source) (column Attributes.lastName silver) ||
    isDistinctFrom (column Attributes.email source) (column Attributes.email silver) ||
    isDistinctFrom (column Attributes.createdAt source) (column Attributes.createdAt silver) ||
    isDistinctFrom (column Attributes.updatedAt source) (column Attributes.updatedAt silver)

/-- The join of both tables `USING (customer_id)`. -/
def joinedCustomers (customers : SourceTable) (silver : Silver) : List JoinedCustomer :=
  fullOuterJoin (fun row => some row.customerId) (fun row => some row.customerId) customers.rows
    (customersCurrent silver)

/-- `differences`: the `customer_id` of each row that differs. -/
def differences (customers : SourceTable) (silver : Silver) : List (Option Uuid) :=
  ((joinedCustomers customers silver).filter differs).map
    (coalesceKey Customer.customerId Customer.customerId)

/-- `GROUP BY kafka_topic, kafka_partition, kafka_offset HAVING COUNT(*) > 1`. -/
def duplicateOffsets (bronze : Bronze) : List (Option Coord × List BronzeRow) :=
  (groupBy (fun row => some row.coord) bronze.rows).filter fun group => decide (1 < group.2.length)

/-- The row the query returns. -/
structure Reconciliation where
  sourceCount : Nat
  silverCount : Nat
  differenceCount : Nat
  duplicateOffsetCount : Nat
  deriving DecidableEq, Repr

def reconciliation (customers : SourceTable) (store : Store) : Reconciliation where
  sourceCount := customers.rows.length
  silverCount := (customersCurrent store.silver).length
  differenceCount := (differences customers store.silver).length
  duplicateOffsetCount := (duplicateOffsets store.bronze).length

/-! ## The script -/

/-- `required`: an empty variable counts as missing. -/
def required (env : String → Option String) (name : String) : Except String String :=
  match env name with
  | some value =>
    if value = "" then .error ("Missing required environment variable: " ++ name) else .ok value
  | none => .error ("Missing required environment variable: " ++ name)

/-- The variables of the connection, in the order they are read. -/
def connectionVariables : List String :=
  ["ECOMMERCE_POSTGRES_HOST", "ECOMMERCE_POSTGRES_PORT", "ECOMMERCE_POSTGRES_USER",
    "ECOMMERCE_POSTGRES_PASSWORD", "ECOMMERCE_POSTGRES_DB"]

/-- The line that is printed. -/
def Reconciliation.report (r : Reconciliation) : String :=
  "Customer reconciliation: source=" ++ toString r.sourceCount ++ ", silver_current=" ++
    toString r.silverCount ++ ", differences=" ++ toString r.differenceCount ++
    ", duplicate_offsets=" ++ toString r.duplicateOffsetCount

/-- The check after the report. -/
def Reconciliation.verdict (r : Reconciliation) : Except String Unit :=
  if r.differenceCount ≠ 0 ∨ r.duplicateOffsetCount ≠ 0 then .error "CDC customer reconciliation failed"
  else .ok ()

/-- `main`, with the lines it prints. -/
def main (env : String → Option String) (customers : SourceTable) (store : Store) :
    List String × Except String Unit :=
  match connectionVariables.mapM (required env) with
  | .error e => ([], .error e)
  | .ok _ =>
    let r := reconciliation customers store
    ([r.report], r.verdict)

/-- Every variable of the connection is set. -/
def Configured (env : String → Option String) : Prop :=
  ∀ name ∈ connectionVariables, ∃ value, env name = some value ∧ value ≠ ""

/-! ## Both tables as maps -/

/-- `public.customers` as a map from `customer_id`. -/
def sourceMap (customers : SourceTable) (id : Uuid) : Option Attributes :=
  (customers.find? id).map Customer.attributes

/-- The live part of `cdc_silver.customers` as a map from `customer_id`. -/
def liveMap (silver : Silver) (id : Uuid) : Option Attributes :=
  match silver.find? id with
  | none => none
  | some row => if row.isDeleted then none else some row.attributes

section Differences

variable {customers : SourceTable} {silver : Silver} {bronze : Bronze} {store : Store} {id : Uuid}

theorem liveMap_eq : liveMap silver id =
    (lookup Customer.customerId (customersCurrent silver) id).map Customer.attributes := by
  rw [lookup_customersCurrent]
  unfold liveMap live
  cases silver.find? id with
  | none => rfl
  | some row => cases hd : row.isDeleted <;> simp [Option.filter, hd]

theorem isDistinctFrom_eq_false {α : Type} [DecidableEq α] {x y : Option α} :
    isDistinctFrom x y = false ↔ x = y := by
  simp [isDistinctFrom]

/-- Two rows that are there differ in a column. -/
theorem differs_some {row row' : Customer} :
    differs (some row, some row') = false ↔ row.attributes = row'.attributes := by
  obtain ⟨_, first, last, email, created, updated⟩ := row
  obtain ⟨_, first', last', email', created', updated'⟩ := row'
  simp only [differs, column, Option.map_some, Option.isNone_some, Option.bind_some, Bool.or_eq_false_iff,
    isDistinctFrom_eq_false, true_and, Attributes.mk.injEq, and_assoc]

/-- **A joined row is a difference exactly when the maps differ.** -/
theorem differs_joined : (joined Customer.customerId Customer.customerId customers.rows
      (customersCurrent silver) id ≠ (none, none) ∧
    differs (joined Customer.customerId Customer.customerId customers.rows (customersCurrent silver) id) =
      true) ↔ sourceMap customers id ≠ liveMap silver id := by
  rw [liveMap_eq]
  unfold sourceMap joined Table.find?
  cases hsource : lookup Customer.customerId customers.rows id with
  | none =>
    cases hsilver : lookup Customer.customerId (customersCurrent silver) id with
    | none => simp
    | some row' => simp [differs]
  | some row =>
    cases hsilver : lookup Customer.customerId (customersCurrent silver) id with
    | none => simp [differs]
    | some row' =>
      have hrows : differs (some row, some row') = true ↔ row.attributes ≠ row'.attributes := by
        rw [Ne, ← differs_some, Bool.not_eq_false]
      simp [hrows]

/-- The differences are as many as the customers on which the maps differ. -/
theorem length_differences : ((differences customers silver).length : ℕ∞) =
    {id | sourceMap customers id ≠ liveMap silver id}.encard := by
  have hset : {id | sourceMap customers id ≠ liveMap silver id} =
      {id | joined Customer.customerId Customer.customerId customers.rows (customersCurrent silver) id ≠
          (none, none) ∧
        differs (joined Customer.customerId Customer.customerId customers.rows (customersCurrent silver) id) =
          true} :=
    Set.ext fun id => differs_joined.symm
  unfold differences joinedCustomers
  rw [List.length_map, hset]
  exact encard_filter_fullOuterJoin customers.unique (customersCurrent_unique silver) differs

/-- No difference is reported exactly when the maps are equal. -/
theorem length_differences_eq_zero : (differences customers silver).length = 0 ↔
    sourceMap customers = liveMap silver := by
  have hcount := @length_differences customers silver
  constructor
  · intro hzero
    rw [hzero, Nat.cast_zero, eq_comm, Set.encard_eq_zero] at hcount
    refine funext fun id => ?_
    by_contra hne
    exact Set.notMem_empty id (hcount ▸ hne)
  · intro heq
    have hempty : {id | sourceMap customers id ≠ liveMap silver id} = ∅ := by
      refine Set.eq_empty_iff_forall_notMem.mpr fun id hne => hne ?_
      rw [heq]
    rw [hempty, Set.encard_empty] at hcount
    exact_mod_cast hcount

/-- **The Bronze key leaves no duplicate position.** -/
theorem duplicateOffsets_eq_nil : duplicateOffsets bronze = [] := by
  refine List.filter_eq_nil_iff.mpr fun group hgroup hmany => ?_
  unfold groupBy at hgroup
  obtain ⟨position, -, rfl⟩ := List.mem_map.mp hgroup
  have hunique : UniqueOn (fun row => some row.coord) bronze.rows :=
    bronze.unique.comp_injective (Option.some_injective Coord)
  have hone : (bronze.rows.filter fun row => decide (some row.coord = position)).length ≤ 1 := by
    rw [hunique.filter_key]
    cases lookup (fun row : BronzeRow => some row.coord) bronze.rows position <;> simp
  exact absurd (of_decide_eq_true hmany) (not_lt.mpr hone)

theorem verdict_eq_ok : (reconciliation customers store).verdict = .ok () ↔
    sourceMap customers = liveMap store.silver := by
  have hduplicates : (reconciliation customers store).duplicateOffsetCount = 0 := by
    unfold reconciliation
    rw [duplicateOffsets_eq_nil]
    rfl
  rw [← length_differences_eq_zero]
  unfold Reconciliation.verdict
  rw [hduplicates]
  by_cases hzero : (reconciliation customers store).differenceCount = 0
  · rw [if_neg (by omega)]
    exact ⟨fun _ => hzero, fun _ => rfl⟩
  · rw [if_pos (Or.inl hzero)]
    exact ⟨fun h => (nomatch h), fun h => absurd h hzero⟩

end Differences

section Main

variable {env : String → Option String} {customers : SourceTable} {store : Store} {name : String}

theorem required_eq_ok {value : String} :
    required env name = .ok value ↔ env name = some value ∧ value ≠ "" := by
  unfold required
  cases henv : env name with
  | none => simp
  | some v =>
    by_cases hempty : v = ""
    · simp only [if_pos hempty]
      constructor
      · exact fun h => nomatch h
      · rintro ⟨hv, hne⟩
        exact absurd ((Option.some.inj hv).symm.trans hempty) hne
    · simp only [if_neg hempty, Except.ok.injEq, Option.some.injEq]
      constructor
      · rintro rfl
        exact ⟨rfl, hempty⟩
      · exact And.left

/-- The reads of a list of variables succeed exactly when each is set. -/
theorem mapM_required : ∀ names : List String, (∃ values, names.mapM (required env) = .ok values) ↔
    ∀ name ∈ names, ∃ value, env name = some value ∧ value ≠ ""
  | [] => ⟨fun _ _ h => (nomatch h), fun _ => ⟨[], rfl⟩⟩
  | name :: names => by
    have ih := mapM_required names
    rw [List.forall_mem_cons, ← ih, List.mapM_cons]
    constructor
    · rintro ⟨values, h⟩
      cases hone : required env name with
      | error e =>
        rw [hone] at h
        cases h
      | ok value =>
        refine ⟨⟨value, required_eq_ok.mp hone⟩, ?_⟩
        rw [hone] at h
        cases hrest : names.mapM (required env) with
        | error e =>
          rw [hrest] at h
          cases h
        | ok rest => exact ⟨rest, rfl⟩
    · rintro ⟨⟨value, hvalue⟩, rest, hrest⟩
      rw [required_eq_ok.mpr hvalue, hrest]
      exact ⟨value :: rest, rfl⟩

/-- A configured script reports the reconciliation. -/
theorem main_eq (h : Configured env) : main env customers store =
    ([(reconciliation customers store).report], (reconciliation customers store).verdict) := by
  obtain ⟨values, hvalues⟩ := (mapM_required connectionVariables).mpr h
  unfold main
  rw [hvalues]

theorem main_eq_error (h : ¬ Configured env) : ∃ e, main env customers store = ([], .error e) := by
  unfold main
  cases hread : connectionVariables.mapM (required env) with
  | error e => exact ⟨e, rfl⟩
  | ok values => exact absurd ((mapM_required connectionVariables).mp ⟨values, hread⟩) h

/-- **The reconciliation is exact**: it counts the customers on which the maps differ, and the script
succeeds when there is none. -/
theorem reconciliation_exact (env : String → Option String) (customers : SourceTable) (store : Store) :
    ((reconciliation customers store).differenceCount : ℕ∞) =
        {id | sourceMap customers id ≠ liveMap store.silver id}.encard ∧
      ((main env customers store).2 = .ok () ↔
        Configured env ∧ sourceMap customers = liveMap store.silver) := by
  refine ⟨length_differences, ?_⟩
  by_cases hconfigured : Configured env
  · rw [main_eq hconfigured, verdict_eq_ok, and_iff_right hconfigured]
  · obtain ⟨e, hmain⟩ := @main_eq_error env customers store hconfigured
    rw [hmain]
    exact ⟨fun h => (nomatch h), fun h => absurd h.1 hconfigured⟩

/-- A customer that Silver lacks. -/
example : main (fun _ => some "shop") (Table.empty.put (sampleCustomer "a@x.org")) Store.empty =
    (["Customer reconciliation: source=1, silver_current=0, differences=1, duplicate_offsets=0"],
      .error "CDC customer reconciliation failed") := rfl

end Main

/-! ## After the materializer -/

/-- **The script succeeds once every record of the logs has been applied.** -/
theorem main_of_delivered {env : String → Option String} {initial : SourceTable} {ops : List SourceOp}
    {logs : Logs} {s : State} (henv : Configured env) (hd : Delivers (changes initial ops) logs)
    (hs : Reachable logs s) (hall : ∀ p, ∀ m ∈ logs.records p, m ∈ s.delivered) :
    (main env (finalTable initial ops) s.store).2 = .ok () := by
  rw [main_eq henv, verdict_eq_ok]
  refine funext fun id => ?_
  rw [liveMap_eq, lookup_customersCurrent_source hd hs hall]
  rfl

end LocalDataPlatform.Cdc

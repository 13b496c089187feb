import LocalDataPlatform.Sales.SalesItems

/-!
# `fact_sales`

The incremental model that keeps one enriched row for each order item.

* `CustomerVersion` — a validity range of `dim_customer`; `matchingVersions` and
  `earliestVersion` — the two temporal joins.
* `candidates` — the rows newer than the table; `resolvedSales` — the same rows enriched, with the
  date an item had before.
* `buildFacts` — one run of the model: the first run creates the table, a later run merges.

Principal results: `buildFacts_eq_some` (what a run writes), `mirrors_buildFacts` (a run that
starts from every older row of the view ends with the whole view).
-/

set_option autoImplicit false

namespace LocalDataPlatform.Sales

open Relational

/-- A row of `dim_customer`. -/
structure CustomerVersion where
  customer_sk : String
  customer_id : Uuid
  valid_from : Instant
  valid_to : Option Instant
  deriving DecidableEq, Repr

/-- How the customer version of a fact was found. -/
inductive KeyResolution where
  | as_of
  | earliest_available
  | unresolved
  deriving DecidableEq, Repr

/-- A row of `fact_sales`. -/
structure FactRow extends SalesItem where
  customer_sk : Option String
  previous_order_date : Option Instant
  customer_key_resolution : KeyResolution
  deriving DecidableEq, Repr

/-! ## The temporal joins -/

/-- The version owns the order date, in a half-open range. -/
def CustomerVersion.covers (v : CustomerVersion) (s : SalesItem) : Bool :=
  decide (v.customer_id = s.customer_id) && decide (v.valid_from ≤ s.order_date) &&
    v.valid_to.all (fun t => decide (s.order_date < t))

/-- The versions `matching_customer_version` joins to a row. -/
def matchingVersions (versions : List CustomerVersion) (s : SalesItem) : List CustomerVersion :=
  versions.filter (·.covers s)

/-- `v` comes before `w` in `order by valid_from, customer_sk`. -/
def CustomerVersion.ranksBefore (v w : CustomerVersion) : Bool :=
  decide (v.valid_from < w.valid_from) ||
    decide (v.valid_from = w.valid_from) && decide (v.customer_sk < w.customer_sk)

/-- `earliest_customer_versions`: the version of a customer with `version_number = 1`. -/
def earliestVersion (customer_id : Uuid) : List CustomerVersion → Option CustomerVersion
  | [] => none
  | v :: versions =>
    match earliestVersion customer_id versions with
    | none => if v.customer_id = customer_id then some v else none
    | some w => if v.customer_id = customer_id ∧ !w.ranksBefore v then some v else some w

/-- The surrogate keys a row is joined to, each with how it was found. -/
def resolveCustomer (versions : List CustomerVersion) (s : SalesItem) :
    List (Option String × KeyResolution) :=
  match matchingVersions versions s with
  | [] =>
    match earliestVersion s.customer_id versions with
    | some v => if s.order_date < v.valid_from then [(some v.customer_sk, .earliest_available)]
      else [(none, .unresolved)]
    | none => [(none, .unresolved)]
  | v :: more => (v :: more).map fun w => (some w.customer_sk, .as_of)

/-! ## The model -/

/-- The high-water mark of the table. -/
def factHighWater (facts : List FactRow) : Instant :=
  highWater (fun f => f.source_loaded_at) beforeEveryLoad facts

theorem le_factHighWater {facts : List FactRow} {f : FactRow} (h : f ∈ facts) :
    f.source_loaded_at ≤ factHighWater facts :=
  @le_highWater _ _ _ (fun f : FactRow => f.source_loaded_at) _ _ _ h

/-- `sales_order_items`: the delta of an incremental run. -/
def candidates (facts : List FactRow) (view : List SalesItem) : List SalesItem :=
  newerThan SalesItem.source_loaded_at (factHighWater facts) view

/-- `existing_facts`: the dates an item has in the table, one null row when it has none. -/
def existingDates (facts : List FactRow) (order_item_id : Uuid) : List (Option Instant) :=
  match facts.filter (fun f => decide (f.order_item_id = order_item_id)) with
  | [] => [none]
  | f :: more => (f :: more).map fun f => some f.order_date

/-- `case when existing_facts.order_date is distinct from sales.order_date then .. end`. -/
def previousOrderDate (existing : Option Instant) (s : SalesItem) : Option Instant :=
  if existing = some s.order_date then none else existing

/-- A row of `resolved_sales`. -/
def factRow (s : SalesItem) (customer : Option String × KeyResolution) (previous : Option Instant) :
    FactRow where
  toSalesItem := s
  customer_sk := customer.1
  previous_order_date := previous
  customer_key_resolution := customer.2

/-- `resolved_sales` of an incremental run. -/
def resolvedSales (facts : List FactRow) (versions : List CustomerVersion) (sales : List SalesItem) :
    List FactRow :=
  sales.flatMap fun s => (resolveCustomer versions s).flatMap fun customer =>
    (existingDates facts s.order_item_id).map fun existing =>
      factRow s customer (previousOrderDate existing s)

/-- `resolved_sales` of the first run. -/
def firstSales (versions : List CustomerVersion) (sales : List SalesItem) : List FactRow :=
  sales.flatMap fun s => (resolveCustomer versions s).map fun customer => factRow s customer none

/-- One run of the model on `int_sales_order_items` and `dim_customer`. -/
def buildFacts (versions : List CustomerVersion) (view : List SalesItem) :
    Option (List FactRow) → Option (List FactRow)
  | none => some (firstSales versions view)
  | some facts => mergeOnce (fun f => f.order_item_id) (fun _ _ => true) facts
      (resolvedSales facts versions (candidates facts view))

/-- The test `unique` on `order_item_id`; a build whose test fails runs nothing downstream. -/
def UniqueGrain (facts : List FactRow) : Prop := UniqueOn (fun f => f.order_item_id) facts

instance (facts : List FactRow) : Decidable (UniqueGrain facts) :=
  inferInstanceAs (Decidable (List.Nodup _))

section Lemmas

variable {versions : List CustomerVersion} {view sales : List SalesItem} {facts facts' : List FactRow}
variable {f : FactRow} {s : SalesItem} {c : Uuid}

theorem resolveCustomer_ne_nil (versions : List CustomerVersion) (s : SalesItem) :
    resolveCustomer versions s ≠ [] := by
  unfold resolveCustomer
  split
  · split
    · split <;> exact List.cons_ne_nil _ _
    · exact List.cons_ne_nil _ _
  · exact List.cons_ne_nil _ _

theorem mem_of_earliestVersion {w : CustomerVersion} (h : earliestVersion c versions = some w) :
    w ∈ versions ∧ w.customer_id = c := by
  induction versions generalizing w with
  | nil => cases h
  | cons v versions ih =>
    unfold earliestVersion at h
    cases he : earliestVersion c versions with
    | none =>
      rw [he] at h
      dsimp only at h
      split at h
      · rename_i hid
        cases h
        exact ⟨List.mem_cons_self, hid⟩
      · cases h
    | some u =>
      rw [he] at h
      dsimp only at h
      split at h
      · rename_i hid
        cases h
        exact ⟨List.mem_cons_self, hid.1⟩
      · cases h
        exact ⟨List.mem_cons_of_mem _ (ih he).1, (ih he).2⟩

theorem exists_earliestVersion {v : CustomerVersion} (hv : v ∈ versions) (hid : v.customer_id = c) :
    ∃ w, earliestVersion c versions = some w := by
  induction versions with
  | nil => cases hv
  | cons u versions ih =>
    unfold earliestVersion
    rcases List.mem_cons.mp hv with rfl | hv
    · cases earliestVersion c versions with
      | none => exact ⟨v, if_pos hid⟩
      | some w =>
        dsimp only
        split <;> exact ⟨_, rfl⟩
    · obtain ⟨w, hw⟩ := ih hv
      rw [hw]
      dsimp only
      split <;> exact ⟨_, rfl⟩

theorem existingDates_ne_nil (facts : List FactRow) (id : Uuid) : existingDates facts id ≠ [] := by
  unfold existingDates
  split <;> exact List.cons_ne_nil _ _

/-- Enrichment keeps the columns of the join. -/
theorem mem_resolvedSales (h : f ∈ resolvedSales facts versions sales) : f.toSalesItem ∈ sales := by
  obtain ⟨s, hs, h⟩ := List.mem_flatMap.mp h
  obtain ⟨customer, -, h⟩ := List.mem_flatMap.mp h
  obtain ⟨existing, -, rfl⟩ := List.mem_map.mp h
  exact hs

theorem mem_firstSales (h : f ∈ firstSales versions sales) : f.toSalesItem ∈ sales := by
  obtain ⟨s, hs, h⟩ := List.mem_flatMap.mp h
  obtain ⟨customer, -, rfl⟩ := List.mem_map.mp h
  exact hs

/-- The left joins drop no row. -/
theorem exists_mem_resolvedSales (h : s ∈ sales) :
    ∃ f ∈ resolvedSales facts versions sales, f.toSalesItem = s := by
  obtain ⟨customer, hcustomer⟩ := List.exists_mem_of_ne_nil _ (resolveCustomer_ne_nil versions s)
  obtain ⟨existing, hexisting⟩ :=
    List.exists_mem_of_ne_nil _ (existingDates_ne_nil facts s.order_item_id)
  refine ⟨factRow s customer (previousOrderDate existing s), ?_, rfl⟩
  exact List.mem_flatMap.mpr ⟨s, h, List.mem_flatMap.mpr ⟨customer, hcustomer,
    List.mem_map_of_mem hexisting⟩⟩

theorem exists_mem_firstSales (h : s ∈ sales) :
    ∃ f ∈ firstSales versions sales, f.toSalesItem = s := by
  obtain ⟨customer, hcustomer⟩ := List.exists_mem_of_ne_nil _ (resolveCustomer_ne_nil versions s)
  exact ⟨factRow s customer none, List.mem_flatMap.mpr ⟨s, h, List.mem_map_of_mem hcustomer⟩, rfl⟩

/-- **What an incremental run writes**: a merge of rows newer than the table. -/
theorem buildFacts_eq_some (h : buildFacts versions view (some facts) = some facts') :
    ∃ newer : List FactRow, (∀ f ∈ newer, f.toSalesItem ∈ view ∧ factHighWater facts < f.source_loaded_at) ∧
      (∀ s ∈ view, factHighWater facts < s.source_loaded_at → ∃ f ∈ newer, f.toSalesItem = s) ∧
      facts' = mergeInto (fun f => f.order_item_id) (fun _ _ => true) facts newer := by
  refine ⟨resolvedSales facts versions (candidates facts view), ?_, ?_, (mergeOnce_eq_some h).2⟩
  · intro f hf
    exact mem_newerThan.mp (mem_resolvedSales hf)
  · intro s hs hlt
    exact exists_mem_resolvedSales (mem_newerThan.mpr ⟨hs, hlt⟩)

theorem buildFacts_none (h : buildFacts versions view none = some facts') :
    facts' = firstSales versions view :=
  (Option.some.inj h).symm

variable {old : Option (List FactRow)}

/-- A run keeps rows of the table or takes them from the view. -/
theorem mem_buildFacts (h : buildFacts versions view old = some facts') (hf : f ∈ facts') :
    f ∈ old.getD [] ∨ f.toSalesItem ∈ view := by
  cases old with
  | none =>
    rw [buildFacts_none h] at hf
    exact Or.inr (mem_firstSales hf)
  | some facts =>
    obtain ⟨newer, hnewer, -, rfl⟩ := buildFacts_eq_some h
    exact (mem_mergeInto hf).imp_right fun hf => (hnewer f hf).1

/-- **A run that starts from every older row of the view ends with the whole view.** -/
theorem mirrors_buildFacts (hu : UniqueOn SalesItem.order_item_id view)
    (h : buildFacts versions view old = some facts')
    (hold : CarriesUpTo SalesItem.order_item_id SalesItem.source_loaded_at
      (factHighWater (old.getD [])) (fun f : FactRow => f.order_item_id) FactRow.toSalesItem view
      (old.getD []))
    (hkeys : ∀ f ∈ old.getD [], ∃ s ∈ view, s.order_item_id = f.order_item_id) :
    Mirrors SalesItem.order_item_id (fun f : FactRow => f.order_item_id) FactRow.toSalesItem view
      facts' := by
  cases old with
  | none =>
    rw [buildFacts_none h]
    exact mirrors_of_cover (fun _ => rfl) hu (fun _ hf => mem_firstSales hf)
      fun _ hs => exists_mem_firstSales hs
  | some facts =>
    obtain ⟨newer, hnewer, hcover, rfl⟩ := buildFacts_eq_some h
    exact mirrors_merge_newer (fun _ => rfl) hu hnewer hcover hold hkeys fun _ _ _ _ _ => rfl

end Lemmas

end LocalDataPlatform.Sales

import LocalDataPlatform.Pipeline.Extract
import LocalDataPlatform.Sales.CustomerHistory

/-!
# The customer keys of `fact_sales`

A fact is resolved to a customer version when it is loaded, and again only when its staging rows are.
A full refresh resolves it against the versions there are now.

* `Warehouse`, `Event`, `build` — customer changes, staging loads and completed dbt builds.
* `FullRefreshKeys` — each fact has the key and the resolution that a full refresh gives its item.
* `KeepsResolution` — the condition on a build: for what it does not read again, no version starts or
  ends by the order date.

Principal results: `resolveCustomer_snapshot` (what a run of the snapshot leaves resolved),
`keyInv_build` (one build), `keys_eq_full_refresh` (over every orderly run).
-/

set_option autoImplicit false

namespace LocalDataPlatform.Sales.CustomerKeys

open Relational
open Pipeline (TableName Row key staged loadTable mem_loadTable)

/-! ## The warehouse -/

/-- Customers, staging, `fact_sales` once it is built, and the time of the last build. -/
structure Warehouse where
  customers : Timeline
  staging : Staging
  facts : Option (List FactRow)
  built_at : Instant

inductive Event where
  | change (row : CustomerRow)
  | delete (customer_id : Uuid) (now : Instant)
  | apply (customer_id : Uuid)
  | load (t : TableName) (batch : Table (Row t) (key t)) (now : Instant)
  | build (now : Instant)

namespace Warehouse

variable (scdId : Uuid → Instant → String)

/-- The versions a build at `now` works with. -/
def snapshot (w : Warehouse) (now : Instant) : List SnapshotRow :=
  snapshotRun scdId w.customers.silver now w.customers.versions

/-- A build: the snapshot, `dim_customer`, `fact_sales` and the test of its grain. -/
def build (w : Warehouse) (now : Instant) : Option Warehouse :=
  if w.customers.clock < now then
    match w.staging.intSalesOrderItems with
    | none => none
    | some view =>
      match buildFacts (dimCustomer (w.snapshot scdId now)) view w.facts with
      | none => none
      | some facts =>
        if UniqueGrain facts then
          some { w with
            customers := { w.customers with clock := now, versions := w.snapshot scdId now }
            facts := some facts
            built_at := now }
        else none
  else none

/-- One event; a build that does not complete is not part of the history. -/
def next (w : Warehouse) : Event → Warehouse
  | .change row => { w with customers := w.customers.next scdId (.change row) }
  | .delete customer_id now => { w with customers := w.customers.next scdId (.delete customer_id now) }
  | .apply customer_id => { w with customers := w.customers.next scdId (.apply customer_id) }
  | .load t batch now =>
    if w.customers.clock < now then
      { w with
        customers := { w.customers with clock := now }
        staging := loadTable w.staging now t batch }
    else w
  | .build now => (w.build scdId now).getD w

/-- Empty stores. -/
def initial : Warehouse :=
  ⟨Timeline.initial 0, ⟨Table.empty, Table.empty, Table.empty, Table.empty⟩, none, 0⟩

def run (w : Warehouse) (events : List Event) : Warehouse := events.foldl (next scdId) w

end Warehouse

/-- Each fact has the key and the resolution that a full refresh gives its item. -/
def FullRefreshKeys (w : Warehouse) : Prop :=
  ∀ facts ∈ w.facts, ∀ view ∈ w.staging.intSalesOrderItems, ∀ f ∈ facts,
      (∃ g ∈ firstSales (dimCustomer w.customers.versions) view, g.order_item_id = f.order_item_id) ∧
      ∀ g ∈ firstSales (dimCustomer w.customers.versions) view, g.order_item_id = f.order_item_id →
        g.customer_sk = f.customer_sk ∧ g.customer_key_resolution = f.customer_key_resolution

instance (w : Warehouse) : Decidable (FullRefreshKeys w) :=
  inferInstanceAs (Decidable (∀ facts ∈ w.facts, _))

/-! ## The condition -/

/-- For a row of the join: a version that the run opens for its customer starts after the order date, and
is not the first; and a version that the run ends because the customer is gone ends after it. -/
def KeepsResolution (customers : Timeline) (now : Instant) (s : SalesItem) : Prop :=
  (∀ row ∈ customers.silver.rows, row.customer_id = s.customer_id → opens customers.versions row = true →
    s.order_date < row.updated_at ∧ ∃ v ∈ customers.versions, v.customer_id = s.customer_id) ∧
  ∀ v ∈ customers.versions, v.customer_id = s.customer_id → v.is_current = true →
    customers.silver.find? s.customer_id = none → s.order_date < now

instance (customers : Timeline) (now : Instant) (s : SalesItem) : Decidable (KeepsResolution customers now s) :=
  inferInstanceAs (Decidable (_ ∧ _))

/-- When a build starts, each fact has its item in the join, and the build keeps the resolution of what
it does not read again. -/
def Orderly (w : Warehouse) : Event → Prop
  | .build now => ∀ facts ∈ w.facts,
    (∀ f ∈ facts, ∃ s ∈ w.staging.salesRows, s.order_item_id = f.order_item_id) ∧
    ∀ s ∈ w.staging.salesRows, s.source_loaded_at ≤ factHighWater facts →
      KeepsResolution w.customers now s
  | _ => True

instance (w : Warehouse) : (event : Event) → Decidable (Orderly w event)
  | .build _ => inferInstanceAs (Decidable (∀ facts ∈ w.facts, _))
  | .change _ | .delete _ _ | .apply _ | .load _ _ _ => isTrue trivial

/-- Every event of a run is orderly. -/
def OrderlyRun (scdId : Uuid → Instant → String) : Warehouse → List Event → Prop
  | _, [] => True
  | w, event :: events => Orderly w event ∧ OrderlyRun scdId (w.next scdId event) events

instance instDecidableOrderlyRun (scdId : Uuid → Instant → String) : (w : Warehouse) → (events : List Event) →
    Decidable (OrderlyRun scdId w events)
  | _, [] => isTrue trivial
  | w, event :: events =>
    have := instDecidableOrderlyRun scdId (w.next scdId event) events
    inferInstanceAs (Decidable (Orderly w event ∧ _))

/-! ## What a run of the snapshot leaves resolved -/

section Resolution

variable {versions versions' : List CustomerVersion} {s s' : SalesItem} {c : Uuid}

/-- What a resolution depends on. -/
theorem resolveCustomer_congr
    (hmatching : (matchingVersions versions s).map CustomerVersion.customer_sk =
      (matchingVersions versions' s).map CustomerVersion.customer_sk)
    (hearliest : (earliestVersion s.customer_id versions).map (fun v => (v.customer_sk, v.valid_from)) =
      (earliestVersion s.customer_id versions').map fun v => (v.customer_sk, v.valid_from)) :
    resolveCustomer versions s = resolveCustomer versions' s := by
  unfold resolveCustomer
  cases hm : matchingVersions versions s with
  | nil =>
    rw [hm] at hmatching
    rw [List.map_eq_nil_iff.mp hmatching.symm]
    dsimp only
    cases he : earliestVersion s.customer_id versions with
    | none =>
      rw [he] at hearliest
      rw [Option.map_eq_none_iff.mp hearliest.symm]
    | some v =>
      rw [he] at hearliest
      obtain ⟨v', hv', hkey⟩ := Option.map_eq_some_iff.mp hearliest.symm
      obtain ⟨hsk, hfrom⟩ := Prod.mk.inj hkey
      rw [hv']
      dsimp only
      rw [hsk, hfrom]
  | cons v more =>
    cases hm' : matchingVersions versions' s with
    | nil =>
      rw [hm, hm'] at hmatching
      cases hmatching
    | cons v' more' =>
      rw [hm, hm'] at hmatching
      have hmap := congrArg (List.map fun sk => ((some sk : Option String), KeyResolution.as_of)) hmatching
      rw [List.map_map, List.map_map] at hmap
      exact hmap

/-- The resolution of a row depends on its customer and its date. -/
theorem resolveCustomer_of_eq (hid : s.customer_id = s'.customer_id) (hdate : s.order_date = s'.order_date) :
    resolveCustomer versions s = resolveCustomer versions s' := by
  unfold resolveCustomer matchingVersions CustomerVersion.covers
  rw [hid, hdate]

/-- Versions that start later do not become the earliest. -/
theorem earliestVersion_append {later : List CustomerVersion}
    (hlater : ∀ w ∈ later, w.customer_id = c → (∃ v ∈ versions, v.customer_id = c) ∧
      ∀ v ∈ versions, v.customer_id = c → v.valid_from < w.valid_from) :
    earliestVersion c (versions ++ later) = earliestVersion c versions := by
  induction versions with
  | nil =>
    cases he : earliestVersion c ([] ++ later) with
    | none => rfl
    | some w =>
      obtain ⟨hw, hid⟩ := mem_of_earliestVersion he
      obtain ⟨⟨v, hv, -⟩, -⟩ := hlater w hw hid
      cases hv
  | cons v versions ih =>
    by_cases hsome : ∃ u ∈ versions, u.customer_id = c
    · have hrest : earliestVersion c (versions ++ later) = earliestVersion c versions :=
        ih fun w hw hid => ⟨hsome, fun u hu huid => (hlater w hw hid).2 u (List.mem_cons_of_mem _ hu) huid⟩
      rw [List.cons_append]
      unfold earliestVersion
      rw [hrest]
    · have hnone : earliestVersion c versions = none := by
        cases he : earliestVersion c versions with
        | none => rfl
        | some u => exact absurd ⟨u, mem_of_earliestVersion he⟩ hsome
      rw [List.cons_append]
      unfold earliestVersion
      rw [hnone]
      cases he : earliestVersion c (versions ++ later) with
      | none => rfl
      | some w =>
        obtain ⟨hw, hid⟩ := mem_of_earliestVersion he
        have hw : w ∈ later := (List.mem_append.mp hw).resolve_left fun hw => hsome ⟨w, hw, hid⟩
        obtain ⟨⟨u, hu, huid⟩, hstart⟩ := hlater w hw hid
        -- the only version of the customer is `v`, and it starts before `w`
        have hv : v.customer_id = c := by
          rcases List.mem_cons.mp hu with rfl | hu
          · exact huid
          · exact absurd ⟨u, hu, huid⟩ hsome
        have hlt : v.valid_from < w.valid_from := hstart v List.mem_cons_self hv
        have hrank : w.ranksBefore v = false := by
          unfold CustomerVersion.ranksBefore
          rw [decide_eq_false (not_lt.mpr hlt.le), decide_eq_false hlt.ne']
          rfl
        dsimp only
        rw [if_pos ⟨hv, by rw [hrank]; rfl⟩, if_pos hv]

/-- The earliest version, as far as a resolution depends on it. -/
theorem earliestVersion_map {α : Type} {f g : α → CustomerVersion} {rows : List α}
    (hid : ∀ a, (f a).customer_id = (g a).customer_id) (hsk : ∀ a, (f a).customer_sk = (g a).customer_sk)
    (hfrom : ∀ a, (f a).valid_from = (g a).valid_from) :
    (earliestVersion c (rows.map f)).map (fun v => (v.customer_sk, v.valid_from)) =
      (earliestVersion c (rows.map g)).map fun v => (v.customer_sk, v.valid_from) := by
  induction rows with
  | nil => rfl
  | cons a rows ih =>
    rw [List.map_cons, List.map_cons]
    unfold earliestVersion
    rw [hid a]
    cases hf : earliestVersion c (rows.map f) with
    | none =>
      rw [hf] at ih
      rw [Option.map_eq_none_iff.mp ih.symm]
      dsimp only
      split
      · simp only [Option.map_some, hsk a, hfrom a]
      · rfl
    | some v =>
      rw [hf] at ih
      obtain ⟨w, hw, hkey⟩ := Option.map_eq_some_iff.mp ih.symm
      obtain ⟨hvsk, hvfrom⟩ := Prod.mk.inj hkey
      have hrank : v.ranksBefore (f a) = w.ranksBefore (g a) := by
        unfold CustomerVersion.ranksBefore
        rw [hvsk, hvfrom, hsk a, hfrom a]
      rw [hw]
      dsimp only
      rw [hrank]
      split
      · simp only [Option.map_some, hsk a, hfrom a]
      · simp only [Option.map_some, hvsk, hvfrom]

/-- A version owns a date before and after a run that ends no version by it. -/
theorem covers_updateVersion {customers : Timeline} {now : Instant} {v : SnapshotRow}
    (hordered : Ordered customers) (hkeeps : KeepsResolution customers now s) (hv : v ∈ customers.versions) :
    (updateVersion customers.silver now v).toVersion.covers s = v.toVersion.covers s := by
  by_cases hid : v.customer_id = s.customer_id
  · -- an ended version ends after the order date, so it owns the date if it did while open
    have hended : ∀ t, v.is_current = true → s.order_date < t →
        ({ v with dbt_valid_to := some t } : SnapshotRow).toVersion.covers s = v.toVersion.covers s := by
      intro t hcurrent hlt
      unfold CustomerVersion.covers SnapshotRow.toVersion
      simp only [SnapshotRow.is_current_iff.mp hcurrent, Option.all_some, Option.all_none, decide_eq_true hlt]
    rcases updateVersion_cases customers.silver now v with
      ⟨he, -⟩ | ⟨hcurrent, hgone, he⟩ | ⟨row, hcurrent, hrow, hdiffers, he⟩
    · rw [he]
    · rw [he]
      exact hended now hcurrent (hkeeps.2 v hv hid hcurrent (hid ▸ hgone))
    · rw [he]
      obtain ⟨hmem, hrid⟩ := Table.find?_eq_some.mp hrow
      have hopens : opens customers.versions row = true := by
        refine opens_eq_true.mpr fun u hu huid hopen => ?_
        rw [hordered.one_open u hu v hv (huid.trans hrid) hopen hcurrent]
        exact hdiffers
      exact hended row.updated_at hcurrent (hkeeps.1 row hmem (hrid.trans hid) hopens).1
  · have hother : ∀ w : SnapshotRow, w.customer_id ≠ s.customer_id → w.toVersion.covers s = false := by
      intro w hw
      unfold CustomerVersion.covers SnapshotRow.toVersion
      rw [decide_eq_false hw]
      rfl
    rw [hother v hid, hother _ (by rwa [updateVersion_customer_id])]

/-- **A run of the snapshot leaves the resolution of a row** for which no version starts or ends by its
order date. -/
theorem resolveCustomer_snapshot {scdId : Uuid → Instant → String} {customers : Timeline} {now : Instant}
    (hordered : Ordered customers) (hkeeps : KeepsResolution customers now s) :
    resolveCustomer (dimCustomer (snapshotRun scdId customers.silver now customers.versions)) s =
      resolveCustomer (dimCustomer customers.versions) s := by
  have hsplit : dimCustomer (snapshotRun scdId customers.silver now customers.versions) =
      customers.versions.map (fun v => (updateVersion customers.silver now v).toVersion) ++
        ((customers.silver.rows.filter (opens customers.versions)).map
          fun row => (openVersion scdId row).toVersion) := by
    unfold dimCustomer snapshotRun
    rw [List.map_append, List.map_map, List.map_map]
    rfl
  have hopened : ∀ w ∈ (customers.silver.rows.filter (opens customers.versions)).map
      (fun row => (openVersion scdId row).toVersion), w.customer_id = s.customer_id →
      s.order_date < w.valid_from ∧ (∃ v ∈ customers.versions, v.customer_id = s.customer_id) ∧
        ∀ v ∈ customers.versions, v.customer_id = s.customer_id → v.dbt_valid_from < w.valid_from := by
    intro w hw hid
    obtain ⟨row, hrow, rfl⟩ := List.mem_map.mp hw
    obtain ⟨hrow, hopens⟩ := List.mem_filter.mp hrow
    obtain ⟨hlt, hsome⟩ := hkeeps.1 row hrow hid hopens
    refine ⟨hlt, hsome, fun v hv hvid => ?_⟩
    rcases hordered.versions_silver v hv row hrow (hvid.trans hid.symm) with hbefore | ⟨hcurrent, hsame⟩
    · exact hbefore
    · rw [opens_eq_true.mp hopens v hv (hvid.trans hid.symm) hcurrent] at hsame
      cases hsame
  rw [hsplit]
  refine resolveCustomer_congr ?_ ?_
  · have hnone : ((customers.silver.rows.filter (opens customers.versions)).map
        fun row => (openVersion scdId row).toVersion).filter (·.covers s) = [] := by
      refine List.filter_eq_nil_iff.mpr fun w hw hcovers => ?_
      unfold CustomerVersion.covers at hcovers
      simp only [Bool.and_eq_true, decide_eq_true_eq] at hcovers
      exact absurd hcovers.1.2 (not_le.mpr (hopened w hw hcovers.1.1).1)
    have hkept : customers.versions.filter
          ((·.covers s) ∘ fun v => (updateVersion customers.silver now v).toVersion) =
        customers.versions.filter ((·.covers s) ∘ SnapshotRow.toVersion) :=
      List.filter_congr fun v hv => covers_updateVersion hordered hkeeps hv
    unfold matchingVersions dimCustomer
    rw [List.filter_append, hnone, List.append_nil, List.filter_map, List.filter_map, hkept,
      List.map_map, List.map_map]
    exact List.map_congr_left fun v _ => updateVersion_scd_id
  · rw [earliestVersion_append fun w hw hid => ?_]
    · exact earliestVersion_map (fun _ => updateVersion_customer_id) (fun _ => updateVersion_scd_id)
        fun _ => updateVersion_valid_from
    · obtain ⟨-, ⟨v, hv, hvid⟩, hstart⟩ := hopened w hw hid
      refine ⟨⟨_, List.mem_map_of_mem hv, updateVersion_customer_id.trans hvid⟩, fun u hu huid => ?_⟩
      obtain ⟨v', hv', rfl⟩ := List.mem_map.mp hu
      exact updateVersion_valid_from.trans_lt (hstart v' hv' (updateVersion_customer_id.symm.trans huid))

end Resolution

/-! ## What a build writes -/

section Build

variable {versions : List CustomerVersion} {view : List SalesItem} {facts facts' : List FactRow} {s : SalesItem}

/-- The rows of `resolved_sales` for one row of the join. -/
def enriched (versions : List CustomerVersion) (existing : List (Option Instant)) (s : SalesItem) :
    List FactRow :=
  (resolveCustomer versions s).flatMap fun customer =>
    existing.map fun date => factRow s customer (previousOrderDate date s)

/-- One enriched row means one resolution. -/
theorem resolve_of_enriched {existing : List (Option Instant)} (hne : existing ≠ [])
    (h : (enriched versions existing s).length ≤ 1) :
    ∃ f ∈ enriched versions existing s,
      resolveCustomer versions s = [(f.customer_sk, f.customer_key_resolution)] := by
  unfold enriched at h ⊢
  cases hresolve : resolveCustomer versions s with
  | nil => exact absurd hresolve (resolveCustomer_ne_nil versions s)
  | cons customer more =>
    cases existing with
    | nil => exact absurd rfl hne
    | cons date dates =>
      have hmore : more = [] := by
        cases more with
        | nil => rfl
        | cons customer' more =>
          rw [hresolve] at h
          simp only [List.flatMap_cons, List.map_cons, List.length_append, List.length_cons] at h
          omega
      refine ⟨factRow s customer (previousOrderDate date s), ?_, ?_⟩
      · rw [List.flatMap_cons]
        exact List.mem_append_left _ List.mem_cons_self
      · rw [hmore]
        rfl

theorem order_item_id_of_enriched {existing : List (Option Instant)} {f : FactRow}
    (hf : f ∈ enriched versions existing s) : f.order_item_id = s.order_item_id := by
  obtain ⟨customer, -, hf⟩ := List.mem_flatMap.mp hf
  obtain ⟨date, -, rfl⟩ := List.mem_map.mp hf
  rfl

/-- **A first build resolves every row of the join once.** -/
theorem resolved_first (hu : UniqueGrain (firstSales versions view)) (hs : s ∈ view) :
    ∃ f ∈ firstSales versions view, f.order_item_id = s.order_item_id ∧
      resolveCustomer versions s = [(f.customer_sk, f.customer_key_resolution)] := by
  have hsub : ((resolveCustomer versions s).map fun customer => factRow s customer none).Sublist
      (firstSales versions view) :=
    List.sublist_flatten_of_mem (List.mem_map_of_mem hs)
  have hids : ∀ f ∈ (resolveCustomer versions s).map fun customer => factRow s customer none,
      f.order_item_id = s.order_item_id := by
    intro f hf
    obtain ⟨customer, -, rfl⟩ := List.mem_map.mp hf
    rfl
  have honce := UniqueOn.length_le_one hu hsub hids
  cases hresolve : resolveCustomer versions s with
  | nil => exact absurd hresolve (resolveCustomer_ne_nil versions s)
  | cons customer more =>
    rw [hresolve, List.length_map, List.length_cons] at honce
    have hmore : more = [] := List.eq_nil_of_length_eq_zero (by omega)
    refine ⟨factRow s customer none, hsub.subset (List.mem_map_of_mem ?_), rfl, ?_⟩
    · rw [hresolve]
      exact List.mem_cons_self
    · rw [hmore]
      rfl

/-- **A later build resolves every row it reads once.** -/
theorem resolved_later (h : buildFacts versions view (some facts) = some facts') (hu : UniqueGrain facts')
    (hs : s ∈ candidates facts view) :
    ∃ f ∈ facts', f.order_item_id = s.order_item_id ∧
      resolveCustomer versions s = [(f.customer_sk, f.customer_key_resolution)] := by
  have honce := mergeOnce_source_once h hu s.order_item_id
  have hmerged := (mergeOnce_eq_some h).2
  set newer := resolvedSales facts versions (candidates facts view) with hnewer
  have hsub : (enriched versions (existingDates facts s.order_item_id) s).Sublist newer :=
    List.sublist_flatten_of_mem (List.mem_map_of_mem hs)
  have hselected : ∀ f ∈ enriched versions (existingDates facts s.order_item_id) s,
      f ∈ newer.filter fun f => decide (f.order_item_id = s.order_item_id) := fun f hf =>
    List.mem_filter.mpr ⟨hsub.subset hf, decide_eq_true (order_item_id_of_enriched hf)⟩
  have hshort : (enriched versions (existingDates facts s.order_item_id) s).length ≤ 1 := by
    have hfiltered := hsub.filter fun f => decide (f.order_item_id = s.order_item_id)
    rw [List.filter_eq_self.mpr fun f hf => decide_eq_true (order_item_id_of_enriched hf)] at hfiltered
    exact hfiltered.length_le.trans honce
  obtain ⟨f, hf, hresolve⟩ := resolve_of_enriched (existingDates_ne_nil facts s.order_item_id) hshort
  refine ⟨f, ?_, order_item_id_of_enriched hf, hresolve⟩
  -- the only row of its key that is merged is found there afterwards
  have hfound : ∃ f', lookup (fun f : FactRow => f.order_item_id) newer s.order_item_id = some f' := by
    rw [← order_item_id_of_enriched hf]
    exact exists_lookup (hsub.subset hf)
  obtain ⟨f', hf'⟩ := hfound
  have hsame : f' = f := by
    have hkey : f'.order_item_id = s.order_item_id :=
      @key_of_lookup _ _ _ (fun f : FactRow => f.order_item_id) _ _ _ hf'
    have hmem' : f' ∈ newer.filter fun f => decide (f.order_item_id = s.order_item_id) :=
      List.mem_filter.mpr ⟨mem_of_lookup hf', decide_eq_true hkey⟩
    obtain ⟨a, ha⟩ : ∃ a, (newer.filter fun f => decide (f.order_item_id = s.order_item_id)) = [a] :=
      List.length_eq_one_iff.mp (le_antisymm honce (List.length_pos_of_mem hmem'))
    have hmem := hselected f hf
    rw [ha] at hmem hmem'
    rw [List.mem_singleton.mp hmem, List.mem_singleton.mp hmem']
  have hafter : lookup (fun f : FactRow => f.order_item_id) facts' s.order_item_id = some f := by
    rw [hmerged, lookup_upsert, hf', hsame]
    rfl
  exact mem_of_lookup hafter

/-- A build keeps the facts of the rows it does not read. -/
theorem kept_later {f : FactRow} (h : buildFacts versions view (some facts) = some facts')
    (hview : UniqueOn SalesItem.order_item_id view) (hs : s ∈ view)
    (hold : s.source_loaded_at ≤ factHighWater facts) (hu : UniqueGrain facts) (hf : f ∈ facts)
    (hid : f.order_item_id = s.order_item_id) : f ∈ facts' := by
  obtain ⟨newer, hnewer, -, rfl⟩ := buildFacts_eq_some h
  have hnone : lookup (fun f : FactRow => f.order_item_id) newer f.order_item_id = none := by
    refine lookup_eq_none.mpr fun n hn hk => ?_
    obtain ⟨hmem, hlt⟩ := hnewer n hn
    have hsame : n.toSalesItem = s := hview.eq_of_key hmem hs (hk.trans hid)
    rw [hsame] at hlt
    exact absurd hold (not_le.mpr hlt)
  have hself : lookup (fun f : FactRow => f.order_item_id) facts f.order_item_id = some f :=
    UniqueOn.lookup_self hu hf
  have hafter : lookup (fun f : FactRow => f.order_item_id)
      (mergeInto (fun f : FactRow => f.order_item_id) (fun _ _ => true) facts newer) f.order_item_id =
        some f := by
    rw [lookup_upsert, hnone, hself]
    rfl
  exact mem_of_lookup hafter

end Build

/-! ## The invariant -/

/-- What was staged by the last build is resolved as the versions resolve it. -/
structure KeyInv (w : Warehouse) : Prop where
  ordered : Ordered w.customers
  built : beforeEveryLoad ≤ w.built_at ∧ w.built_at ≤ w.customers.clock
  loaded : ∀ t, ∀ r ∈ (staged w.staging t).rows, r.loaded_at ≤ w.customers.clock
  facts : ∀ facts ∈ w.facts, UniqueGrain facts ∧ ∀ f ∈ facts, f.source_loaded_at ≤ w.built_at
  resolved : ∀ facts ∈ w.facts, ∀ item ∈ w.staging.order_items.rows, ∀ order,
    w.staging.orders.find? item.row.order_id = some order →
    order.loaded_at ≤ w.built_at → item.loaded_at ≤ w.built_at →
    ∃ f ∈ facts, f.order_item_id = item.row.order_item_id ∧
      resolveCustomer (dimCustomer w.customers.versions) (w.staging.salesRow order item) =
        [(f.customer_sk, f.customer_key_resolution)]

section Invariant

variable {scdId : Uuid → Instant → String} {w w' : Warehouse} {now : Instant}

theorem keyInv_initial : KeyInv Warehouse.initial where
  ordered := ordered_initial 0
  built := ⟨by decide, le_rfl⟩
  loaded := fun t r hr => by cases t <;> cases hr
  facts := fun _ h => by cases h
  resolved := fun _ h => by cases h

/-- A change of customers leaves versions and facts. -/
theorem KeyInv.customer (h : KeyInv w) {event : CustomerEvent} (hevent : ∀ now, event ≠ .snapshot now) :
    KeyInv { w with customers := w.customers.next scdId event } := by
  obtain ⟨hversions, hclock⟩ := @next_versions scdId w.customers _ hevent
  refine ⟨h.ordered.next event, ⟨h.built.1, h.built.2.trans hclock⟩,
    fun t r hr => (h.loaded t r hr).trans hclock, h.facts, ?_⟩
  dsimp only
  rw [hversions]
  exact h.resolved

/-- **A load leaves what was staged by the last build.** -/
theorem KeyInv.load {t : TableName} {batch : Table (Row t) (key t)} (h : KeyInv w)
    (hnow : w.customers.clock < now) : KeyInv { w with
      customers := { w.customers with clock := now }
      staging := loadTable w.staging now t batch } := by
  have hlater : w.built_at < now := h.built.2.trans_lt hnow
  have horders : ∀ k r, (loadTable w.staging now t batch).orders.find? k = some r → r.loaded_at ≤ w.built_at →
      w.staging.orders.find? k = some r := by
    intro k r hr hle
    cases t with
    | orders => exact find?_of_load hr (hle.trans_lt hlater)
    | _ => exact hr
  have hitems : ∀ r ∈ (loadTable w.staging now t batch).order_items.rows, r.loaded_at ≤ w.built_at →
      r ∈ w.staging.order_items.rows := by
    intro r hr hle
    have hstaged : r ∈ (staged (loadTable w.staging now t batch) .order_items).rows := hr
    rcases mem_loadTable hstaged with hr | he
    · exact hr
    · exact absurd (he ▸ hle) (not_le.mpr hlater)
  refine ⟨h.ordered.tick hnow.le, ⟨h.built.1, hlater.le⟩, fun t' r hr => ?_, h.facts,
    fun facts hfacts item hitem order horder hle hle' => ?_⟩
  · rcases mem_loadTable hr with hr | he
    · exact (h.loaded t' r hr).trans hnow.le
    · exact he.le
  · obtain ⟨f, hf, hid, hresolve⟩ :=
      h.resolved facts hfacts item (hitems item hitem hle') order (horders _ order horder hle) hle hle'
    exact ⟨f, hf, hid, (resolveCustomer_of_eq rfl rfl).trans hresolve⟩

/-- What a completed build has done. -/
theorem build_eq_some (h : w.build scdId now = some w') : w.customers.clock < now ∧
    ∃ facts, w.staging.intSalesOrderItems = some w.staging.salesRows ∧
      buildFacts (dimCustomer (w.snapshot scdId now)) w.staging.salesRows w.facts = some facts ∧
      UniqueGrain facts ∧
      w' = { w with
        customers := { w.customers with clock := now, versions := w.snapshot scdId now }
        facts := some facts
        built_at := now } := by
  unfold Warehouse.build at h
  split at h
  · rename_i hnow
    split at h
    · cases h
    · rename_i view hview
      obtain ⟨rfl, -⟩ := intSalesOrderItems_eq_some hview
      split at h
      · cases h
      · rename_i facts hfacts
        split at h
        · rename_i hunique
          cases h
          exact ⟨hnow, facts, hview, hfacts, hunique, rfl⟩
        · cases h
  · cases h

/-- **After a build every row of the join is resolved as the versions resolve it.** -/
theorem resolved_build (h : KeyInv w) (horderly : Orderly w (.build now)) {facts : List FactRow}
    (hbuild : buildFacts (dimCustomer (w.snapshot scdId now)) w.staging.salesRows w.facts = some facts)
    (hunique : UniqueGrain facts) {s : SalesItem} (hs : s ∈ w.staging.salesRows) :
    ∃ f ∈ facts, f.order_item_id = s.order_item_id ∧
      resolveCustomer (dimCustomer (w.snapshot scdId now)) s =
        [(f.customer_sk, f.customer_key_resolution)] := by
  cases hold : w.facts with
  | none =>
    rw [hold] at hbuild
    rw [buildFacts_none hbuild] at hunique ⊢
    exact resolved_first hunique hs
  | some facts₀ =>
    rw [hold] at hbuild
    rcases lt_or_ge (factHighWater facts₀) s.source_loaded_at with hnew | hread
    · exact resolved_later hbuild hunique (mem_newerThan.mpr ⟨hs, hnew⟩)
    · -- the row is not read again: its parts were staged by the last build
      obtain ⟨hunique₀, hbound⟩ := h.facts facts₀ hold
      have hmark : factHighWater facts₀ ≤ w.built_at :=
        highWater_le (fun _ => h.built.1) hbound
      obtain ⟨item, hitem, order, horder, rfl⟩ := mem_salesRows.mp hs
      obtain ⟨hle, hle', -⟩ := loaded_at_le_source w.staging order item
      obtain ⟨f, hf, hid, hresolve⟩ := h.resolved facts₀ hold item hitem order horder
        ((hle.trans hread).trans hmark) ((hle'.trans hread).trans hmark)
      refine ⟨f, kept_later hbuild uniqueOn_salesRows hs hread hunique₀ hf hid, hid, ?_⟩
      exact (resolveCustomer_snapshot h.ordered ((horderly facts₀ hold).2 _ hs hread)).trans hresolve

/-- **A completed build keeps the invariant.** -/
theorem keyInv_build (h : KeyInv w) (horderly : Orderly w (.build now)) (hbuild : w.build scdId now = some w') :
    KeyInv w' := by
  obtain ⟨hnow, facts, -, hfacts, hunique, rfl⟩ := build_eq_some hbuild
  have hordered : Ordered { w.customers with clock := now, versions := w.snapshot scdId now } := by
    have hsnapshot := @Ordered.snapshot scdId _ _ h.ordered hnow
    rwa [show w.customers.next scdId (.snapshot now) =
      { w.customers with clock := now, versions := w.snapshot scdId now } from if_pos hnow] at hsnapshot
  have hloaded : ∀ t, ∀ r ∈ (staged w.staging t).rows, r.loaded_at ≤ now :=
    fun t r hr => (h.loaded t r hr).trans hnow.le
  have hfloor : beforeEveryLoad ≤ now := h.built.1.trans (h.built.2.trans hnow.le)
  refine ⟨hordered, ⟨hfloor, le_rfl⟩, hloaded, fun facts' hfacts' => ?_, fun facts' hfacts' => ?_⟩
  · cases hfacts'
    refine ⟨hunique, fun f hf => ?_⟩
    rcases mem_buildFacts hfacts hf with hf | hf
    · cases hold : w.facts with
      | none =>
        rw [hold] at hf
        cases hf
      | some facts₀ =>
        rw [hold] at hf
        exact ((h.facts facts₀ hold).2 f hf).trans (h.built.2.trans hnow.le)
    · exact source_loaded_at_le hfloor (hloaded .orders) (hloaded .order_items) (hloaded .payments) hf
  · cases hfacts'
    intro item hitem order horder _ _
    exact resolved_build h horderly hfacts hunique (mem_salesRows.mpr ⟨item, hitem, order, horder, rfl⟩)

theorem KeyInv.next {event : Event} (h : KeyInv w) (horderly : Orderly w event) :
    KeyInv (w.next scdId event) := by
  cases event with
  | change row => exact h.customer fun _ he => by cases he
  | delete id now => exact h.customer fun _ he => by cases he
  | apply id => exact h.customer fun _ he => by cases he
  | load t batch now =>
    by_cases hnow : w.customers.clock < now
    · rw [show w.next scdId (.load t batch now) =
        { w with
          customers := { w.customers with clock := now }
          staging := loadTable w.staging now t batch } from if_pos hnow]
      exact h.load hnow
    · rw [show w.next scdId (.load t batch now) = w from if_neg hnow]
      exact h
  | build now =>
    unfold Warehouse.next
    dsimp only
    cases hbuild : w.build scdId now with
    | none => exact h
    | some w' => exact keyInv_build h horderly hbuild

theorem KeyInv.run {events : List Event} (h : KeyInv w) (horderly : OrderlyRun scdId w events) :
    KeyInv (w.run scdId events) := by
  induction events generalizing w with
  | nil => exact h
  | cons event events ih => exact ih (h.next horderly.1) horderly.2

/-- After a build each fact has its item in the join. -/
theorem facts_in_join (horderly : Orderly w (.build now)) {facts : List FactRow}
    (hbuild : buildFacts (dimCustomer (w.snapshot scdId now)) w.staging.salesRows w.facts = some facts)
    {f : FactRow} (hf : f ∈ facts) : ∃ s ∈ w.staging.salesRows, s.order_item_id = f.order_item_id := by
  rcases mem_buildFacts hbuild hf with hf | hf
  · cases hold : w.facts with
    | none =>
      rw [hold] at hf
      cases hf
    | some facts₀ =>
      rw [hold] at hf
      exact (horderly facts₀ hold).1 f hf
  · exact ⟨f.toSalesItem, hf, rfl⟩

/-- Facts that are resolved as the versions resolve them are those of a full refresh. -/
theorem KeyInv.fullRefresh (h : KeyInv w) (hbuilt : w.built_at = w.customers.clock)
    (hjoin : ∀ facts ∈ w.facts, ∀ f ∈ facts, ∃ s ∈ w.staging.salesRows, s.order_item_id = f.order_item_id) :
    FullRefreshKeys w := by
  intro facts hfacts view hview f hf
  obtain ⟨rfl, -⟩ := intSalesOrderItems_eq_some hview
  obtain ⟨hunique, -⟩ := h.facts facts hfacts
  constructor
  · obtain ⟨s, hs, hid⟩ := hjoin facts hfacts f hf
    obtain ⟨g, hg, rfl⟩ := @exists_mem_firstSales (dimCustomer w.customers.versions) _ _ hs
    exact ⟨g, hg, hid⟩
  · intro g hg hid
    obtain ⟨s, hs, hg⟩ := List.mem_flatMap.mp hg
    obtain ⟨customer, hcustomer, rfl⟩ := List.mem_map.mp hg
    obtain ⟨item, hitem, order, horder, rfl⟩ := mem_salesRows.mp hs
    obtain ⟨horder', -⟩ := Table.find?_eq_some.mp horder
    obtain ⟨f', hf', hid', hresolve⟩ := h.resolved facts hfacts item hitem order horder
      (hbuilt ▸ h.loaded .orders order horder') (hbuilt ▸ h.loaded .order_items item hitem)
    have hsame : f' = f := UniqueOn.eq_of_key hunique hf' hf (hid'.trans hid)
    rw [hresolve, hsame] at hcustomer
    rw [List.mem_singleton.mp hcustomer]
    exact ⟨rfl, rfl⟩

/-- **After every completed build of an orderly run the customer keys are those of a full refresh.** -/
theorem keys_eq_full_refresh {events : List Event} (h : OrderlyRun scdId Warehouse.initial events)
    (horderly : Orderly (Warehouse.initial.run scdId events) (.build now))
    (hbuild : (Warehouse.initial.run scdId events).build scdId now = some w) : FullRefreshKeys w := by
  have hinv := keyInv_build (keyInv_initial.run h) horderly hbuild
  obtain ⟨-, facts, -, hfacts, -, rfl⟩ := build_eq_some hbuild
  refine hinv.fullRefresh rfl fun facts' hfacts' f hf => ?_
  cases hfacts'
  exact facts_in_join horderly hfacts hf

end Invariant

/-! ## A change that is applied after the fact is built -/

section Delayed

/-- Order 1 of customer 7, made at 40, and its item. -/
def sampleOrders : Table (Row .orders) (key .orders) := Table.empty.put ⟨1, 7, 40, "pending", 1000, 40, 40⟩

def sampleItems : Table (Row .order_items) (key .order_items) := Table.empty.put ⟨1, 1, 9, 1, 1000, 40, 40⟩

/-- The customer changes at 30; the change is applied between the builds at 60 and 80. -/
def delayedChange : List Event :=
  [.change (sampleCustomer "a@x.org" 10), .apply 7, .change (sampleCustomer "b@x.org" 30),
    .load .orders sampleOrders 45, .load .order_items sampleItems 46, .build 60, .apply 7]

/-- The customer changes at 50, after the order, and the change is applied before the second build. -/
def laterChange : List Event :=
  [.change (sampleCustomer "a@x.org" 10), .apply 7, .load .orders sampleOrders 45,
    .load .order_items sampleItems 46, .change (sampleCustomer "b@x.org" 50), .build 60, .apply 7]

/-- The fact keeps the version of 10, a full refresh takes the version of 30. -/
theorem keys_eq_full_refresh_delayed :
    ∃ w, (Warehouse.initial.run sampleScdId delayedChange).build sampleScdId 80 = some w ∧
      w.facts.map (List.map FactRow.customer_sk) = some [some "10"] ∧
      (firstSales (dimCustomer w.customers.versions) w.staging.salesRows).map FactRow.customer_sk =
        [some "30"] ∧
      ¬ FullRefreshKeys w := by
  exact ⟨_, rfl, by decide, by decide, by decide⟩

/-- The change ends the first version after the order, which stays with it. -/
theorem keys_eq_full_refresh_later :
    ∃ w, (Warehouse.initial.run sampleScdId laterChange).build sampleScdId 80 = some w ∧
      w.facts.map (List.map FactRow.customer_sk) = some [some "10"] ∧ FullRefreshKeys w := by
  have horderly : OrderlyRun sampleScdId Warehouse.initial laterChange := by decide
  have hbuild : Orderly (Warehouse.initial.run sampleScdId laterChange) (.build 80) := by decide
  exact ⟨_, rfl, by decide, keys_eq_full_refresh horderly hbuild rfl⟩

end Delayed

end LocalDataPlatform.Sales.CustomerKeys

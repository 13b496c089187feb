import LocalDataPlatform.Relational.Joins
import LocalDataPlatform.Sales.CustomerHistory

/-!
# The temporal join of `fact_sales`

`resolved_sales` as the query states it: three left joins, of which the second depends on the first
one failing.

* `CustomerVersion.matches`, `CustomerVersion.precedes` — the conditions of the two customer joins.
* `earliestCustomerVersions` — the rows with `version_number = 1`.
* `resolvedJoins` — the joins and the select list, of a first run and of an incremental one.
* `RangedVersions` — the versions of each customer are non-empty ranges, pairwise disjoint.
* `DueKey` — the key and the resolution that a row is due.

Principal results: `resolvedJoins_some`, `resolvedJoins_none` (the joins are what a run of the model
merges), `resolved_sales_spec` (one row per candidate, with the key it is due).
-/

set_option autoImplicit false

namespace LocalDataPlatform.Sales

open Relational

/-! ## The query -/

/-- `sales.customer_id = v.customer_id and sales.order_date >= v.valid_from and (sales.order_date <
v.valid_to or v.valid_to is null)`. -/
def CustomerVersion.matches (s : SalesItem) (v : CustomerVersion) : Tri :=
  sqlAnd (sqlEq (some s.customer_id) (some v.customer_id))
    (sqlAnd (some (decide (v.valid_from ≤ s.order_date)))
      (sqlOr (sqlLt (some s.order_date) v.valid_to) (sqlNot (isNotNull v.valid_to))))

/-- `earliest_customer_versions`. -/
def earliestCustomerVersions (versions : List CustomerVersion) : List CustomerVersion :=
  (versions.map fun v => v.customer_id).dedup.filterMap fun c => earliestVersion c versions

/-- `sales.customer_id = v.customer_id and matching.customer_sk is null and sales.order_date <
v.valid_from`. -/
def CustomerVersion.precedes (row : SalesItem × Option CustomerVersion) (v : CustomerVersion) : Tri :=
  sqlAnd (sqlEq (some row.1.customer_id) (some v.customer_id))
    (sqlAnd (sqlNot (isNotNull (row.2.map CustomerVersion.customer_sk)))
      (sqlLt (some row.1.order_date) (some v.valid_from)))

/-- A candidate, the version that matches it, and the earliest one that stands in. -/
abbrev CustomerJoin := (SalesItem × Option CustomerVersion) × Option CustomerVersion

/-- The two customer joins. -/
def customerJoins (versions : List CustomerVersion) (sales : List SalesItem) : List CustomerJoin :=
  leftJoinOn CustomerVersion.precedes (leftJoinOn CustomerVersion.matches sales versions)
    (earliestCustomerVersions versions)

/-- `coalesce(matching.customer_sk, earliest.customer_sk)`, and `customer_key_resolution`. -/
def customerKey (row : CustomerJoin) : Option String × KeyResolution :=
  ((row.1.2.map CustomerVersion.customer_sk).or (row.2.map CustomerVersion.customer_sk),
    if (row.1.2.map CustomerVersion.customer_sk).isSome then .as_of
    else if (row.2.map CustomerVersion.customer_sk).isSome then .earliest_available
    else .unresolved)

/-- `sales.order_item_id = existing_facts.order_item_id`. -/
def sameItem (row : CustomerJoin) (f : FactRow) : Tri :=
  sqlEq (some row.1.1.order_item_id) (some f.order_item_id)

/-- `case when existing.order_date is distinct from sales.order_date then existing.order_date end`. -/
def previousDate (row : CustomerJoin) (existing : Option FactRow) : Option Instant :=
  if isDistinctFrom (existing.map fun f => f.order_date) (some row.1.1.order_date) then
    existing.map fun f => f.order_date
  else none

/-- `resolved_sales`, given the table that an incremental run finds. -/
def resolvedJoins (versions : List CustomerVersion) (sales : List SalesItem) :
    Option (List FactRow) → List FactRow
  | none => (customerJoins versions sales).map fun row => factRow row.1.1 (customerKey row) none
  | some facts => (leftJoinOn sameItem (customerJoins versions sales) facts).map fun row =>
      factRow row.1.1.1 (customerKey row.1) (previousDate row.1 row.2)

/-! ## What is due -/

/-- `[valid_from, valid_to)`. -/
def CustomerVersion.period (v : CustomerVersion) : Period Instant := ⟨v.valid_from, v.valid_to⟩

/-- The version is one of the customer's, and contains the order date. -/
def CustomerVersion.Owns (v : CustomerVersion) (s : SalesItem) : Prop :=
  v.customer_id = s.customer_id ∧ v.period.Contains s.order_date

/-- The versions of each customer are non-empty ranges, pairwise disjoint. -/
structure RangedVersions (versions : List CustomerVersion) : Prop where
  proper : ∀ v ∈ versions, v.period.Proper
  apart : versions.Pairwise fun v w => v.customer_id = w.customer_id → v.period.Apart w.period

/-- The customer has versions, and the order date precedes every one. -/
def PrecedesEvery (versions : List CustomerVersion) (s : SalesItem) : Prop :=
  (∃ v ∈ versions, v.customer_id = s.customer_id) ∧
    ∀ v ∈ versions, v.customer_id = s.customer_id → s.order_date < v.valid_from

/-- The key and the resolution a row is due. -/
inductive DueKey (versions : List CustomerVersion) (s : SalesItem) : Option String → KeyResolution → Prop
  | as_of {v : CustomerVersion} (hv : v ∈ versions) (howns : v.Owns s)
      (hunique : ∀ w ∈ versions, w.Owns s → w = v) : DueKey versions s (some v.customer_sk) .as_of
  | earliest_available {v : CustomerVersion} (hv : v ∈ versions) (hid : v.customer_id = s.customer_id)
      (hnone : ∀ w ∈ versions, ¬ w.Owns s) (hbefore : PrecedesEvery versions s)
      (hleast : ∀ w ∈ versions, w.customer_id = s.customer_id → w = v ∨ v.valid_from < w.valid_from) :
      DueKey versions s (some v.customer_sk) .earliest_available
  | unresolved (hnone : ∀ w ∈ versions, ¬ w.Owns s) (hlate : ¬ PrecedesEvery versions s) :
      DueKey versions s none .unresolved

section Joins

variable {versions : List CustomerVersion} {s : SalesItem} {v : CustomerVersion}

theorem CustomerVersion.covers_iff : v.covers s = true ↔ v.Owns s := by
  unfold CustomerVersion.covers CustomerVersion.Owns Period.Contains CustomerVersion.period
  simp only [Bool.and_eq_true, decide_eq_true_eq, Option.all_eq_true, and_assoc]
  rfl

theorem CustomerVersion.matches_eq_true : CustomerVersion.matches s v = some true ↔ v.Owns s := by
  unfold CustomerVersion.matches CustomerVersion.Owns Period.Contains CustomerVersion.period
  simp only [sqlAnd_eq_true, sqlOr_eq_true, sqlNot_eq_true, isNotNull_eq_false, sqlLt_eq_true,
    sqlEq_some_eq_true, Option.some.injEq, decide_eq_true_eq]
  cases hto : v.valid_to with
  | none => simp [eq_comm]
  | some t => simp [eq_comm]

/-- The first join is the filter of the model. -/
theorem filter_matches : sqlFilter (CustomerVersion.matches s) versions = matchingVersions versions s := by
  unfold sqlFilter matchingVersions
  refine List.filter_congr fun v _ => ?_
  rw [Bool.eq_iff_iff, CustomerVersion.covers_iff, ← CustomerVersion.matches_eq_true, beq_iff_eq]

/-- A list of customers without repetition has one earliest version of each. -/
theorem filter_earliest {ids : List Uuid} (hids : ids.Nodup) (c : Uuid) :
    (ids.filterMap fun id => earliestVersion id versions).filter (fun v => decide (v.customer_id = c)) =
      if c ∈ ids then (earliestVersion c versions).toList else [] := by
  induction ids with
  | nil => rfl
  | cons id ids ih =>
    obtain ⟨hnew, hids⟩ := List.nodup_cons.mp hids
    have ih := ih hids
    cases he : earliestVersion id versions with
    | none =>
      simp only [List.filterMap_cons, he, ih]
      by_cases hc : c = id
      · subst hc
        simp [hnew, he]
      · simp [hc]
    | some v =>
      have hid : v.customer_id = id := (mem_of_earliestVersion he).2
      simp only [List.filterMap_cons, he]
      by_cases hc : c = id
      · subst hc
        rw [List.filter_cons_of_pos (by simp [hid]), ih]
        simp [hnew, he]
      · have hother : ¬ v.customer_id = c := by
          rw [hid]
          exact fun h => hc h.symm
        rw [List.filter_cons_of_neg (by simp [hother]), ih]
        simp [hc]

/-- The second join finds the earliest version of a customer when the first one found none. -/
theorem filter_precedes (matching : Option CustomerVersion) :
    sqlFilter (CustomerVersion.precedes (s, matching)) (earliestCustomerVersions versions) =
      if matching.isSome then []
      else ((earliestVersion s.customer_id versions).filter
        fun v => decide (s.order_date < v.valid_from)).toList := by
  have hfilter : sqlFilter (CustomerVersion.precedes (s, matching)) (earliestCustomerVersions versions) =
      ((earliestCustomerVersions versions).filter fun v => decide (v.customer_id = s.customer_id)).filter
        fun v => !matching.isSome && decide (s.order_date < v.valid_from) := by
    unfold sqlFilter
    rw [List.filter_filter]
    refine List.filter_congr fun v _ => ?_
    rw [Bool.eq_iff_iff, beq_iff_eq]
    unfold CustomerVersion.precedes
    simp only [sqlAnd_eq_true, sqlNot_eq_true, isNotNull_eq_false, sqlLt_eq_true, sqlEq_some_eq_true,
      Option.some.injEq, Bool.and_eq_true, decide_eq_true_eq, Bool.not_eq_true']
    cases matching with
    | none => simp [eq_comm, and_comm]
    | some m => simp
  have hone : (earliestCustomerVersions versions).filter (fun v => decide (v.customer_id = s.customer_id)) =
      (earliestVersion s.customer_id versions).toList := by
    unfold earliestCustomerVersions
    rw [filter_earliest (List.nodup_dedup _)]
    split
    · rfl
    · rename_i hnone
      cases he : earliestVersion s.customer_id versions with
      | none => rfl
      | some v =>
        obtain ⟨hv, hid⟩ := mem_of_earliestVersion he
        refine absurd ?_ hnone
        rw [List.mem_dedup, ← hid]
        exact List.mem_map_of_mem hv
  rw [hfilter, hone]
  cases matching <;> cases earliestVersion s.customer_id versions <;> simp [Option.filter, List.filter]
  split <;> simp_all

/-- A row of the customer joins is the candidate with its key. -/
theorem customerJoins_singleton :
    (customerJoins versions [s]).map (fun row => (row.1.1, customerKey row)) =
      (resolveCustomer versions s).map fun customer => (s, customer) := by
  unfold customerJoins
  rw [leftJoinOn_singleton, filter_matches]
  unfold resolveCustomer
  cases matchingVersions versions s with
  | nil =>
    unfold padded
    rw [leftJoinOn_singleton, filter_precedes]
    cases he : earliestVersion s.customer_id versions with
    | none => rfl
    | some v =>
      by_cases hlt : s.order_date < v.valid_from
      · rw [Option.filter_some, if_pos (decide_eq_true hlt)]
        dsimp only
        rw [if_pos hlt]
        rfl
      · have hlate : ¬ decide (s.order_date < v.valid_from) = true := by simp [hlt]
        rw [Option.filter_some, if_neg hlate]
        dsimp only
        rw [if_neg hlt]
        rfl
  | cons v more =>
    have hmore : ∀ rows : List CustomerVersion,
        (leftJoinOn CustomerVersion.precedes (rows.map fun w => (s, some w))
          (earliestCustomerVersions versions)).map (fun row => (row.1.1, customerKey row)) =
        rows.map fun w => (s, some w.customer_sk, KeyResolution.as_of) := by
      intro rows
      induction rows with
      | nil => rfl
      | cons w rows ih =>
        unfold leftJoinOn at ih ⊢
        rw [List.map_cons, List.flatMap_cons, List.map_append, ih, filter_precedes]
        rfl
    unfold padded
    rw [hmore]
    simp

/-- Selecting from the customer joins what a row and its key determine. -/
theorem map_customerJoins {τ : Type} {sales : List SalesItem} (g : SalesItem → Option String × KeyResolution → τ) :
    (customerJoins versions sales).map (fun row => g row.1.1 (customerKey row)) =
      sales.flatMap fun s => (resolveCustomer versions s).map (g s) := by
  induction sales with
  | nil => rfl
  | cons s sales ih =>
    have hsplit : customerJoins versions (s :: sales) =
        customerJoins versions [s] ++ customerJoins versions sales := by
      unfold customerJoins leftJoinOn
      simp only [List.flatMap_cons, List.flatMap_append, List.flatMap_nil, List.append_nil]
    have hone := congrArg (List.map fun pair => g pair.1 pair.2) (@customerJoins_singleton versions s)
    rw [List.map_map, List.map_map] at hone
    rw [hsplit, List.map_append, ih, List.flatMap_cons]
    exact congrArg (· ++ _) hone

/-- The last join adds the dates of the item. -/
theorem map_padded_sameItem (row : CustomerJoin) (facts : List FactRow) :
    (padded row (sqlFilter (sameItem row) facts)).map (fun pair =>
        factRow pair.1.1.1 (customerKey pair.1) (previousDate pair.1 pair.2)) =
      (existingDates facts row.1.1.order_item_id).map fun date =>
        factRow row.1.1 (customerKey row) (previousOrderDate date row.1.1) := by
  have hfilter : sqlFilter (sameItem row) facts =
      facts.filter fun f => decide (f.order_item_id = row.1.1.order_item_id) := by
    unfold sqlFilter sameItem
    refine List.filter_congr fun f _ => ?_
    simp [sqlEq, eq_comm]
  have hdate : ∀ f : Option FactRow, previousDate row f =
      previousOrderDate (f.map fun f => f.order_date) row.1.1 := by
    intro f
    unfold previousDate previousOrderDate isDistinctFrom
    by_cases hsame : f.map (fun f => f.order_date) = some row.1.1.order_date <;> simp [hsame]
  rw [hfilter]
  unfold existingDates padded
  cases facts.filter fun f => decide (f.order_item_id = row.1.1.order_item_id) with
  | nil => simp [hdate]
  | cons f more => simp [hdate]

end Joins

section Refinement

variable {versions : List CustomerVersion} {sales : List SalesItem} {facts : List FactRow}

/-- **The joins of a first run are its enrichment.** -/
theorem resolvedJoins_none : resolvedJoins versions sales none = firstSales versions sales :=
  map_customerJoins fun s customer => factRow s customer none

/-- **The joins of an incremental run are its enrichment.** -/
theorem resolvedJoins_some :
    resolvedJoins versions sales (some facts) = resolvedSales facts versions sales := by
  have hrows := @map_customerJoins versions _ sales fun s customer =>
    (existingDates facts s.order_item_id).map fun date =>
      factRow s customer (previousOrderDate date s)
  unfold resolvedJoins leftJoinOn resolvedSales
  dsimp only
  rw [List.map_flatMap]
  simp only [map_padded_sameItem]
  rw [List.flatMap_def, hrows]
  simp only [List.flatMap_def, List.flatten_flatten, List.map_map]
  rfl

end Refinement

/-! ## The right version -/

section Due

variable {versions : List CustomerVersion} {s : SalesItem} {v w : CustomerVersion} {c : Uuid}

/-- The earliest version of a customer starts no later than another. -/
theorem earliestVersion_le (h : earliestVersion c versions = some v) (hw : w ∈ versions)
    (hid : w.customer_id = c) : v.valid_from ≤ w.valid_from := by
  induction versions generalizing v w with
  | nil => cases hw
  | cons u versions ih =>
    unfold earliestVersion at h
    cases he : earliestVersion c versions with
    | none =>
      simp only [he] at h
      split at h
      · cases h
        rcases List.mem_cons.mp hw with rfl | hw
        · exact le_refl _
        · obtain ⟨x, hx⟩ := exists_earliestVersion hw hid
          rw [he] at hx
          cases hx
      · cases h
    | some x =>
      simp only [he] at h
      split at h
      · rename_i hfirst
        cases h
        have hle : u.valid_from ≤ x.valid_from := by
          have hnot := hfirst.2
          unfold CustomerVersion.ranksBefore at hnot
          simp only [Bool.not_eq_true', Bool.or_eq_false_iff, decide_eq_false_iff_not] at hnot
          exact not_lt.mp hnot.1
        rcases List.mem_cons.mp hw with rfl | hw
        · exact le_refl _
        · exact hle.trans (ih he hw hid)
      · rename_i hother
        cases h
        rcases List.mem_cons.mp hw with rfl | hw
        · have hranks : v.ranksBefore w = true := by
            by_contra hnot
            exact hother ⟨hid, by simp [hnot]⟩
          unfold CustomerVersion.ranksBefore at hranks
          simp only [Bool.or_eq_true, Bool.and_eq_true, decide_eq_true_eq] at hranks
          rcases hranks with hlt | ⟨heq, -⟩
          · exact hlt.le
          · exact heq.le
        · exact ih he hw hid

/-- Versions of one customer that share an instant are the same. -/
theorem RangedVersions.eq_of_contains {t : Instant} (h : RangedVersions versions) (hv : v ∈ versions)
    (hw : w ∈ versions) (hid : v.customer_id = w.customer_id) (hvt : v.period.Contains t)
    (hwt : w.period.Contains t) : v = w := by
  by_contra hne
  have hsymm : Std.Symm fun v w : CustomerVersion =>
      v.customer_id = w.customer_id → v.period.Apart w.period :=
    ⟨fun _ _ hapart hid => (hapart hid.symm).symm⟩
  exact h.apart.forall hv hw hne hid t hvt hwt

/-- **The customer joins give one row, with the key that is due.** -/
theorem resolveCustomer_due (h : RangedVersions versions) (s : SalesItem) :
    ∃ customer, resolveCustomer versions s = [customer] ∧ DueKey versions s customer.1 customer.2 := by
  unfold resolveCustomer
  cases hm : matchingVersions versions s with
  | nil =>
    have hnone : ∀ w ∈ versions, ¬ w.Owns s := by
      intro w hw howns
      have hmem : w ∈ matchingVersions versions s :=
        List.mem_filter.mpr ⟨hw, CustomerVersion.covers_iff.mpr howns⟩
      rw [hm] at hmem
      cases hmem
    dsimp only
    cases he : earliestVersion s.customer_id versions with
    | none =>
      refine ⟨_, rfl, DueKey.unresolved hnone ?_⟩
      rintro ⟨⟨w, hw, hid⟩, -⟩
      obtain ⟨v, hv⟩ := exists_earliestVersion hw hid
      rw [he] at hv
      cases hv
    | some v =>
      obtain ⟨hv, hid⟩ := mem_of_earliestVersion he
      dsimp only
      split
      · rename_i hlt
        refine ⟨_, rfl, DueKey.earliest_available hv hid hnone ⟨⟨v, hv, hid⟩, ?_⟩ ?_⟩
        · intro w hw hwid
          exact hlt.trans_le (earliestVersion_le he hw hwid)
        · intro w hw hwid
          rcases (earliestVersion_le he hw hwid).lt_or_eq with hlt | heq
          · exact Or.inr hlt
          · -- two ranges that start together are not disjoint
            refine Or.inl (h.eq_of_contains hw hv (hwid.trans hid.symm) (h.proper w hw).contains_start ?_)
            have hstart := (h.proper v hv).contains_start
            change v.period.Contains v.valid_from at hstart
            rw [heq] at hstart
            exact hstart
      · rename_i hlate
        refine ⟨_, rfl, DueKey.unresolved hnone ?_⟩
        rintro ⟨-, hbefore⟩
        exact hlate (hbefore v hv hid)
  | cons v more =>
    have hmem : ∀ w ∈ v :: more, w ∈ versions ∧ w.Owns s := by
      intro w hw
      rw [← hm] at hw
      obtain ⟨hw, hcovers⟩ := List.mem_filter.mp hw
      exact ⟨hw, CustomerVersion.covers_iff.mp hcovers⟩
    obtain ⟨hv, howns⟩ := hmem v List.mem_cons_self
    have hunique : ∀ w ∈ versions, w.Owns s → w = v := fun w hw hw' =>
      h.eq_of_contains hw hv (hw'.1.trans howns.1.symm) hw'.2 howns.2
    have hmore : more = [] := by
      have hlength : (matchingVersions versions s).length ≤ 1 := by
        refine length_filter_le_one (h.apart.imp fun {a b} hab ha => ?_)
        have ha' := CustomerVersion.covers_iff.mp ha
        refine Bool.eq_false_iff.mpr fun hb => ?_
        have hb' := CustomerVersion.covers_iff.mp hb
        exact hab (ha'.1.trans hb'.1.symm) _ ha'.2 hb'.2
      rw [hm] at hlength
      exact List.eq_nil_of_length_eq_zero (by simpa using hlength)
    subst hmore
    exact ⟨_, rfl, DueKey.as_of hv howns hunique⟩

/-- A table with the grain has at most one date of an item. -/
theorem existingDates_unique {facts : List FactRow} (h : UniqueGrain facts) (id : Uuid) :
    ∃ date, existingDates facts id = [date] ∧
      ∀ t, date = some t ↔ ∃ f ∈ facts, f.order_item_id = id ∧ f.order_date = t := by
  unfold existingDates
  cases hf : facts.filter (fun f => decide (f.order_item_id = id)) with
  | nil =>
    refine ⟨none, rfl, fun t => ⟨nofun, ?_⟩⟩
    rintro ⟨f, hmem, hid, -⟩
    have hmem' := List.filter_eq_nil_iff.mp hf f hmem
    exact absurd hid (by simpa using hmem')
  | cons f more =>
    have hmem : ∀ g ∈ f :: more, g ∈ facts ∧ g.order_item_id = id := by
      intro g hg
      rw [← hf] at hg
      simpa using hg
    obtain ⟨hfacts, hid⟩ := hmem f List.mem_cons_self
    have hmore : more = [] := by
      refine List.eq_nil_iff_forall_not_mem.mpr fun g hg => ?_
      obtain ⟨hg', hgid⟩ := hmem g (List.mem_cons_of_mem _ hg)
      have hsame : f = g := h.eq_of_key hfacts hg' (hid.trans hgid.symm)
      have hnodup : (f :: more).Nodup := hf ▸ h.nodup.filter _
      exact (List.nodup_cons.mp hnodup).1 (hsame ▸ hg)
    subst hmore
    refine ⟨some f.order_date, rfl, fun t => ?_⟩
    constructor
    · intro ht
      exact ⟨f, hfacts, hid, Option.some.inj ht⟩
    · rintro ⟨g, hg, hgid, rfl⟩
      rw [h.eq_of_key hfacts hg (hid.trans hgid.symm)]

/-- The previous date is the stored one when it changed. -/
theorem previousOrderDate_eq_some {date : Option Instant} {t : Instant} :
    previousOrderDate date s = some t ↔ date = some t ∧ t ≠ s.order_date := by
  unfold previousOrderDate
  split
  · rename_i hsame
    rw [hsame]
    simp [eq_comm]
  · rename_i hother
    constructor
    · intro ht
      refine ⟨ht, ?_⟩
      rintro rfl
      exact hother ht
    · exact And.left

end Due

/-- The disjoint versions of a snapshot are ranged versions of the dimension. -/
theorem DisjointVersions.ranged {rows : List SnapshotRow} (h : DisjointVersions rows) :
    RangedVersions (dimCustomer rows) := by
  refine ⟨fun v hv => ?_, List.pairwise_map.mpr h.apart⟩
  obtain ⟨row, hrow, rfl⟩ := List.mem_map.mp hv
  exact h.proper row hrow

/-! ## The grain -/

section Grain

variable {versions : List CustomerVersion} {sales : List SalesItem} {old : Option (List FactRow)}

/-- Each candidate gives one row. -/
theorem resolvedJoins_eq_map (hversions : RangedVersions versions)
    (hold : ∀ facts ∈ old, UniqueGrain facts) :
    ∃ row : SalesItem → FactRow, resolvedJoins versions sales old = sales.map row ∧
      ∀ s, (row s).toSalesItem = s ∧
        DueKey versions s (row s).customer_sk (row s).customer_key_resolution ∧
        ∀ t, (row s).previous_order_date = some t ↔
          t ≠ s.order_date ∧ ∃ facts ∈ old, ∃ f ∈ facts, f.order_item_id = s.order_item_id ∧
            f.order_date = t := by
  choose customer hresolve hdue using resolveCustomer_due hversions
  cases old with
  | none =>
    refine ⟨fun s => factRow s (customer s) none, ?_, fun s => ⟨rfl, hdue s, fun t => ?_⟩⟩
    · rw [resolvedJoins_none]
      unfold firstSales
      simp only [hresolve]
      exact List.flatMap_pure_eq_map _ sales
    · simp [factRow]
  | some facts =>
    choose date hdates hdate using existingDates_unique (hold facts rfl)
    refine ⟨fun s => factRow s (customer s) (previousOrderDate (date s.order_item_id) s), ?_,
      fun s => ⟨rfl, hdue s, fun t => ?_⟩⟩
    · rw [resolvedJoins_some]
      unfold resolvedSales
      simp only [hresolve, hdates]
      exact List.flatMap_pure_eq_map _ sales
    · change previousOrderDate _ _ = some t ↔ _
      rw [previousOrderDate_eq_some, hdate]
      simp [and_comm]

/-- **`resolved_sales` keeps the grain and picks the right version.**  Over versions that are disjoint
ranges for each customer, every candidate has one row; its key is that of the version that owns the
order date, or of the earliest one when the date precedes all, or null; and its previous date is the
stored one exactly when the item is stored with another date. -/
theorem resolved_sales_spec (hversions : RangedVersions versions)
    (hold : ∀ facts ∈ old, UniqueGrain facts) (hsales : UniqueOn SalesItem.order_item_id sales) :
    (resolvedJoins versions sales old).map FactRow.toSalesItem = sales ∧
      UniqueGrain (resolvedJoins versions sales old) ∧
      ∀ f ∈ resolvedJoins versions sales old,
        DueKey versions f.toSalesItem f.customer_sk f.customer_key_resolution ∧
        ∀ t, f.previous_order_date = some t ↔
          t ≠ f.order_date ∧ ∃ facts ∈ old, ∃ x ∈ facts, x.order_item_id = f.order_item_id ∧
            x.order_date = t := by
  obtain ⟨row, hrows, hrow⟩ := @resolvedJoins_eq_map versions sales old hversions hold
  have hitems : (sales.map row).map FactRow.toSalesItem = sales := by
    rw [List.map_map]
    exact (List.map_congr_left fun s _ => (hrow s).1).trans (List.map_id sales)
  rw [hrows]
  refine ⟨hitems, ?_, fun f hf => ?_⟩
  · exact hsales.map_proj fun s => by rw [(hrow s).1]
  · obtain ⟨s, -, rfl⟩ := List.mem_map.mp hf
    obtain ⟨hitem, hdue, hprevious⟩ := hrow s
    rw [hitem]
    exact ⟨hdue, hprevious⟩

/-- Two versions of customer 7 with a gap between them; an item that moved from day 5 to day 40. -/
theorem resolved_sales_spec_gap :
    (resolvedJoins [⟨"a", 7, 10, some 20⟩, ⟨"b", 7, 30, none⟩]
        [⟨1, 1, 7, 9, 40, "pending", 1, 1000, 1000, .unpaid, 0, 45⟩]
        (some [⟨⟨1, 1, 7, 9, 5, "pending", 1, 1000, 1000, .unpaid, 0, 6⟩, some "a", none,
          .earliest_available⟩])).map FactRow.toSalesItem =
      [⟨1, 1, 7, 9, 40, "pending", 1, 1000, 1000, .unpaid, 0, 45⟩] := by
  refine (resolved_sales_spec ⟨?_, ?_⟩ ?_ ?_).1
  · intro v hv
    fin_cases hv <;> intro u hu <;> cases hu
    decide
  · refine List.pairwise_pair.mpr fun _ => ?_
    exact Period.apart_of_stop_le rfl (by decide)
  · intro facts hfacts
    cases hfacts
    decide
  · exact List.nodup_singleton _

end Grain

end LocalDataPlatform.Sales

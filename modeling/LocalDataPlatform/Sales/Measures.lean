import LocalDataPlatform.Sales.Daily

/-!
# Valid daily measures

What the test `assert_daily_sales_valid_measures` asks of `daily_sales`, in terms of the lines that the
rows aggregate.

* `DailyTotals.Valid` — the paid sales lie between zero and the sales, no item count is negative, and a
  date has an order; `invalidMeasures` — the rows that the test returns.
* `groupSales` — the amounts of the fully paid, or of the other, lines of a date.
* `Marts.Measured` — no fact is negative and every daily row is valid.

Principal results: `dailyTotals_valid_iff` (a row is valid when neither group of its date is negative),
`Current.valid_iff`, `Marts.Measured.next` (builds from lines that are not negative keep every row valid,
however they end).
-/

set_option autoImplicit false

namespace LocalDataPlatform.Sales

open Relational

/-- `0 <= paid_sales <= total_sales`, `total_items >= 0` and `total_orders >= 1`. -/
structure DailyTotals.Valid (t : DailyTotals) : Prop where
  paid_sales_nonneg : 0 ≤ t.paid_sales
  paid_sales_le : t.paid_sales ≤ t.total_sales
  total_items_nonneg : 0 ≤ t.total_items
  total_orders_pos : 1 ≤ t.total_orders

instance (t : DailyTotals) : Decidable t.Valid :=
  decidable_of_iff (0 ≤ t.paid_sales ∧ t.paid_sales ≤ t.total_sales ∧ 0 ≤ t.total_items ∧ 1 ≤ t.total_orders)
    ⟨fun ⟨h₁, h₂, h₃, h₄⟩ => ⟨h₁, h₂, h₃, h₄⟩, fun ⟨h₁, h₂, h₃, h₄⟩ => ⟨h₁, h₂, h₃, h₄⟩⟩

/-- The rows that `assert_daily_sales_valid_measures` returns. -/
def invalidMeasures (daily : List DailyRow) : List DailyRow :=
  daily.filter fun r => decide (r.total_orders < 0) || decide (r.total_items < 0) ||
    decide (r.total_sales < 0) || decide (r.paid_sales < 0) || decide (r.total_sales < r.paid_sales)

section Groups

variable (day : Instant → Int)

/-- The line is on the date, and is fully paid or not. -/
def SalesItem.inGroup (date : Int) (paid : Bool) (s : SalesItem) : Bool :=
  decide (day s.order_date = date) && (decide (s.payment_status = .paid) == paid)

/-- The amounts of a group of lines. -/
def groupSales (sales : List SalesItem) (date : Int) (paid : Bool) : Cents :=
  ((sales.filter (SalesItem.inGroup day date paid)).map SalesItem.sales_amount).sum

end Groups

/-- A sum is that of a selection and that of the rest. -/
theorem sum_filter_add {α : Type} (p : α → Bool) (f : α → Int) (l : List α) :
    ((l.filter p).map f).sum + ((l.filter fun a => !p a).map f).sum = (l.map f).sum := by
  have hperm := (List.filter_append_perm p l).map f
  rw [← hperm.sum_eq, List.map_append, List.sum_append]

/-- A sum of what is selected and zero otherwise. -/
theorem sum_map_ite {α : Type} (p : α → Prop) [DecidablePred p] (f : α → Int) :
    ∀ l : List α, (l.map fun a => if p a then f a else 0).sum = ((l.filter fun a => decide (p a)).map f).sum
  | [] => rfl
  | a :: l => by
    have ih := sum_map_ite p f l
    rw [List.map_cons, List.sum_cons, ih, List.filter_cons]
    by_cases h : p a <;> simp [h]

theorem sum_map_nonneg {α : Type} {f : α → Int} {l : List α} (h : ∀ a ∈ l, 0 ≤ f a) : 0 ≤ (l.map f).sum := by
  refine List.sum_nonneg fun x hx => ?_
  obtain ⟨a, ha, rfl⟩ := List.mem_map.mp hx
  exact h a ha

section Totals

variable {day : Instant → Int} {facts : List FactRow} {daily : List DailyRow} {date : Int}

theorem groupSales_perm {sales sales' : List SalesItem} (h : sales.Perm sales') (paid : Bool) :
    groupSales day sales date paid = groupSales day sales' date paid :=
  ((h.filter _).map _).sum_eq

theorem groupSales_nonneg {sales : List SalesItem} (h : ∀ s ∈ sales, 0 ≤ s.sales_amount) (paid : Bool) :
    0 ≤ groupSales day sales date paid :=
  sum_map_nonneg fun s hs => h s (List.mem_of_mem_filter hs)

/-- A group of the facts of a date. -/
theorem groupSales_facts (paid : Bool) : groupSales day (facts.map FactRow.toSalesItem) date paid =
    (((factsOn day facts date).filter fun f => decide (f.payment_status = .paid) == paid).map
      fun f => f.sales_amount).sum := by
  unfold groupSales factsOn
  rw [List.filter_map, List.map_map, List.filter_filter]
  refine congrArg (fun l : List FactRow => (l.map fun f => f.sales_amount).sum) (List.filter_congr fun f _ => ?_)
  rw [Function.comp_apply, SalesItem.inGroup, FactRow.isOn, Bool.and_comm]

theorem paid_sales_eq : (dailyTotals day facts date).paid_sales =
    groupSales day (facts.map FactRow.toSalesItem) date true := by
  rw [groupSales_facts]
  have hsum := sum_map_ite (fun f : FactRow => f.payment_status = .paid) (fun f => f.sales_amount)
    (factsOn day facts date)
  simp only [beq_true]
  exact hsum

theorem total_sales_eq : (dailyTotals day facts date).total_sales =
    groupSales day (facts.map FactRow.toSalesItem) date true +
      groupSales day (facts.map FactRow.toSalesItem) date false := by
  have hsum := sum_filter_add (fun f : FactRow => decide (f.payment_status = .paid)) (fun f => f.sales_amount)
    (factsOn day facts date)
  rw [groupSales_facts, groupSales_facts]
  simp only [beq_true, beq_false]
  exact hsum.symm

/-- **A row is valid when neither group of its date is negative.** -/
theorem dailyTotals_valid_iff (hquantity : ∀ f ∈ facts, 0 ≤ f.quantity)
    (hon : ∃ f ∈ facts, day f.order_date = date) : (dailyTotals day facts date).Valid ↔
      ∀ paid, 0 ≤ groupSales day (facts.map FactRow.toSalesItem) date paid := by
  have hitems : 0 ≤ (dailyTotals day facts date).total_items :=
    sum_map_nonneg fun f hf => hquantity f (List.mem_of_mem_filter hf)
  have horders : 1 ≤ (dailyTotals day facts date).total_orders := by
    obtain ⟨f, hf, hdate⟩ := hon
    have hmem : f.order_id ∈ ((factsOn day facts date).map fun f => f.order_id).dedup :=
      List.mem_dedup.mpr (List.mem_map_of_mem (List.mem_filter.mpr ⟨hf, decide_eq_true hdate⟩))
    exact List.length_pos_of_mem hmem
  have hpaid := @paid_sales_eq day facts date
  have htotal := @total_sales_eq day facts date
  constructor
  · rintro ⟨hnonneg, hle, -, -⟩ paid
    cases paid with
    | true => rwa [← hpaid]
    | false =>
      rw [htotal, hpaid] at hle
      exact (le_add_iff_nonneg_right _).mp hle
  · intro h
    refine ⟨hpaid ▸ h true, ?_, hitems, horders⟩
    rw [htotal, hpaid]
    exact (le_add_iff_nonneg_right _).mpr (h false)

/-- The rows of a table that is up to date are valid when no group is negative. -/
theorem Current.valid_iff (hcur : Current day facts daily) (hquantity : ∀ f ∈ facts, 0 ≤ f.quantity) :
    (∀ r ∈ daily, r.Valid) ↔
      ∀ date paid, 0 ≤ groupSales day (facts.map FactRow.toSalesItem) date paid := by
  constructor
  · intro h date paid
    by_cases hon : ∃ f ∈ facts, day f.order_date = date
    · obtain ⟨r, hr, rfl⟩ := (hcur.dates date).mpr hon
      have hvalid := h r hr
      rw [hcur.rows r hr] at hvalid
      exact (dailyTotals_valid_iff hquantity hon).mp hvalid paid
    · -- a date without facts has no lines to add up
      have hnone : factsOn day facts date = [] := by
        refine List.filter_eq_nil_iff.mpr fun f hf hdate => hon ⟨f, hf, of_decide_eq_true hdate⟩
      rw [groupSales_facts, hnone]
      exact le_refl _
  · intro h r hr
    have hon := (hcur.dates r.sales_date).mp ⟨r, hr, rfl⟩
    have hvalid := (dailyTotals_valid_iff hquantity hon).mpr (h r.sales_date)
    rw [hcur.rows r hr]
    exact hvalid

/-- The test returns no row exactly when the rows that have an order are valid. -/
theorem invalidMeasures_eq_nil (horders : ∀ r ∈ daily, 1 ≤ r.total_orders) :
    invalidMeasures daily = [] ↔ ∀ r ∈ daily, r.Valid := by
  unfold invalidMeasures
  rw [List.filter_eq_nil_iff]
  simp only [Bool.or_eq_true, decide_eq_true_eq, not_or, not_lt]
  constructor
  · intro h r hr
    obtain ⟨⟨⟨⟨-, hitems⟩, -⟩, hpaid⟩, hle⟩ := h r hr
    exact ⟨hpaid, hle, hitems, horders r hr⟩
  · intro h r hr
    obtain ⟨hpaid, hle, hitems, -⟩ := h r hr
    exact ⟨⟨⟨⟨Nat.zero_le _, hitems⟩, hpaid.trans hle⟩, hpaid⟩, hle⟩

end Totals

/-! ## Builds -/

section Builds

variable {day : Instant → Int} {facts : List FactRow} {daily daily' : List DailyRow} {m : Marts} {b : Build}

/-- The facts of the first build are the lines of the view. -/
theorem perm_firstBuild (hu : UniqueOn SalesItem.order_item_id b.view)
    (hc : Completes day Marts.fresh b facts daily) : (facts.map FactRow.toSalesItem).Perm b.view := by
  obtain ⟨hfacts, -, hgrain, -⟩ := hc
  have hmirrors := mirrors_of_cover (fun _ : FactRow => rfl) hu (fun _ hf => mem_firstSales hf)
    fun s hs => @exists_mem_firstSales b.versions b.view s hs
  rw [← buildFacts_none hfacts] at hmirrors
  exact hmirrors.perm (fun _ => rfl) hu hgrain

/-- A run keeps rows of `daily_sales`, or aggregates a date that has facts. -/
theorem mem_buildDaily {old : Option (List DailyRow)} {r : DailyRow}
    (h : buildDaily day facts old = some daily') (hr : r ∈ daily') :
    r ∈ old.getD [] ∨ r = dailyRow day facts r.sales_date ∧ ∃ f ∈ facts, day f.order_date = r.sales_date := by
  unfold buildDaily at h
  obtain ⟨metrics, hmetrics, h⟩ := Option.bind_eq_some_iff.mp h
  obtain ⟨merged, hmerged, h⟩ := Option.bind_eq_some_iff.mp h
  cases h
  obtain ⟨hr, hon⟩ := List.mem_filter.mp hr
  have hmetric : r ∈ metrics → r = dailyRow day facts r.sales_date := by
    intro hr
    rw [dailyMetrics_eq_some hmetrics] at hr
    obtain ⟨date, -, rfl⟩ := List.mem_map.mp hr
    rfl
  cases old with
  | none =>
    cases hmerged
    exact Or.inr ⟨hmetric hr, any_isOn.mp hon⟩
  | some daily =>
    rw [(mergeOnce_eq_some hmerged).2] at hr
    exact (mem_mergeInto hr).imp_right fun hr => ⟨hmetric hr, any_isOn.mp hon⟩

/-- No fact is negative, and every daily row is valid. -/
structure Marts.Measured (m : Marts) : Prop where
  facts : ∀ f ∈ m.facts.getD [], 0 ≤ f.quantity ∧ 0 ≤ f.sales_amount
  daily : ∀ r ∈ m.daily.getD [], r.Valid

theorem Marts.Measured.fresh : Marts.fresh.Measured := ⟨fun _ h => absurd h List.not_mem_nil, fun _ h => absurd h List.not_mem_nil⟩

/-- **A build from lines that are not negative keeps every row valid**, however it ends. -/
theorem Marts.Measured.next (h : m.Measured) (hview : ∀ s ∈ b.view, 0 ≤ s.quantity ∧ 0 ≤ s.sales_amount) :
    (Sales.next day m b).Measured := by
  have hmerged : ∀ facts, buildFacts b.versions b.view m.facts = some facts →
      ∀ f ∈ facts, 0 ≤ f.quantity ∧ 0 ≤ f.sales_amount := by
    intro facts hfacts f hf
    rcases mem_buildFacts hfacts hf with hold | hnew
    · exact h.facts f hold
    · exact hview f.toSalesItem hnew
  rcases next_cases day m b with hn | ⟨facts, hfacts, hn⟩ | ⟨facts, daily, ⟨hfacts, -, -, hdaily⟩, hn⟩
  · rwa [hn]
  · rw [hn]
    exact ⟨hmerged facts hfacts, h.daily⟩
  · rw [hn]
    refine ⟨hmerged facts hfacts, fun r hr => ?_⟩
    rcases mem_buildDaily hdaily hr with hold | ⟨hrow, hon⟩
    · exact h.daily r hold
    · rw [hrow]
      refine (dailyTotals_valid_iff (fun f hf => (hmerged facts hfacts f hf).1) hon).mpr fun paid => ?_
      refine groupSales_nonneg (fun s hs => ?_) paid
      obtain ⟨f, hf, rfl⟩ := List.mem_map.mp hs
      exact (hmerged facts hfacts f hf).2

end Builds

end LocalDataPlatform.Sales

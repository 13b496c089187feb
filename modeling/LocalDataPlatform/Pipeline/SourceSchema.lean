import LocalDataPlatform.Pipeline.Measures
import LocalDataPlatform.Runs.Batches

/-!
# Statements on many rows of the source

`COPY` and `UPDATE` write many rows at once; PostgreSQL checks the constraints of `001_schema.sql` when the
statement is over, and a failure ends the transaction.

* `RowConstraints` — the constraints of a row, given the tables it refers to; `CustomersAdmissible` — those
  of `customers`.
* `accept` — a statement whose outcome is checked.
* `NewRow` — a row that waits for its key; `copy` — a `COPY` of such rows; `copy_customers` — one into
  `customers`.
* `Grown` — a source that has grown in one table.

Principal results: `admissible_iff` (the schema, row by row), `Admissible.update` (what a statement on one
table has to keep), `Grown.copy` (a `COPY` of rows that meet their constraints is refused for a key only).
-/

set_option autoImplicit false

namespace LocalDataPlatform.Pipeline

open Relational Sales Runs

/-! ## Constraints -/

/-- The key of `order_items_order_product_unique`. -/
def itemPair (i : OrderItemRow) : Uuid × Uuid := (i.order_id, i.product_id)

/-- What the schema asks of a row, besides its key. -/
def RowConstraints (customers : Cdc.SourceTable) (tables : Source) : (t : TableName) → Row t → Prop
  | .products, p => (p.name.length ≤ 255 ∧ p.category.length ≤ 100 ∧ FitsNumeric 12 p.price) ∧ 0 ≤ p.price
  | .orders, o => (customers.find? o.customer_id).isSome ∧ o.status ∈ orderStatuses ∧
      FitsNumeric 14 o.total_amount ∧ 0 ≤ o.total_amount
  | .order_items, i => (((tables .orders).find? i.order_id).isSome ∧ ((tables .products).find? i.product_id).isSome) ∧
      (-2 ^ 31 ≤ i.quantity ∧ i.quantity < 2 ^ 31) ∧ 0 ≤ i.quantity ∧ FitsNumeric 12 i.unit_price
  | .payments, p => ((tables .orders).find? p.order_id).isSome ∧ FitsNumeric 14 p.amount ∧ 0 < p.amount ∧
      p.payment_method ∈ paymentMethods ∧ p.payment_status ∈ paymentStatuses

section Constraints

variable {customers : Cdc.SourceTable} {tables tables' : Source} {t : TableName} {row : Row t}

/-- **The schema, row by row.** -/
theorem admissible_iff : Admissible customers tables ↔
    (∀ t, ∀ row ∈ (tables t).rows, RowConstraints customers tables t row) ∧
      UniqueOn itemPair (tables .order_items).rows := by
  constructor
  · intro h
    refine ⟨fun t row hrow => ?_, h.order_items_order_product_unique⟩
    cases t with
    | products =>
      exact ⟨⟨h.column_types.name row hrow, h.column_types.category row hrow, h.column_types.price row hrow⟩,
        h.products_price_non_negative row hrow⟩
    | orders =>
      exact ⟨h.foreign_keys.orders_customer_fk row hrow, h.orders_status_check row hrow,
        h.column_types.total_amount row hrow, h.orders_total_amount_non_negative row hrow⟩
    | order_items =>
      exact ⟨⟨h.foreign_keys.order_items_order_fk row hrow, h.foreign_keys.order_items_product_fk row hrow⟩,
        h.column_types.quantity row hrow, h.order_items_quantity_non_negative row hrow,
        h.column_types.unit_price row hrow⟩
    | payments =>
      exact ⟨h.foreign_keys.payments_order_id_fk row hrow, h.column_types.amount row hrow,
        h.payments_amount_positive row hrow, h.payments_method row hrow, h.payments_status row hrow⟩
  · rintro ⟨hrows, hpairs⟩
    exact
      { column_types :=
          { name := fun p hp => (hrows .products p hp).1.1
            category := fun p hp => (hrows .products p hp).1.2.1
            price := fun p hp => (hrows .products p hp).1.2.2
            total_amount := fun o ho => (hrows .orders o ho).2.2.1
            quantity := fun i hi => (hrows .order_items i hi).2.1
            unit_price := fun i hi => (hrows .order_items i hi).2.2.2
            amount := fun p hp => (hrows .payments p hp).2.1 }
        foreign_keys :=
          { orders_customer_fk := fun o ho => (hrows .orders o ho).1
            order_items_order_fk := fun i hi => (hrows .order_items i hi).1.1
            order_items_product_fk := fun i hi => (hrows .order_items i hi).1.2
            payments_order_id_fk := fun p hp => (hrows .payments p hp).1 }
        products_price_non_negative := fun p hp => (hrows .products p hp).2
        orders_status_check := fun o ho => (hrows .orders o ho).2.1
        orders_total_amount_non_negative := fun o ho => (hrows .orders o ho).2.2.2
        order_items_quantity_non_negative := fun i hi => (hrows .order_items i hi).2.2.1
        order_items_order_product_unique := hpairs
        payments_amount_positive := fun p hp => (hrows .payments p hp).2.2.1
        payments_method := fun p hp => (hrows .payments p hp).2.2.2.1
        payments_status := fun p hp => (hrows .payments p hp).2.2.2.2 }

instance (customers : Cdc.SourceTable) (tables : Source) (t : TableName) (row : Row t) :
    Decidable (RowConstraints customers tables t row) :=
  match t, row with
  | .products, _ => inferInstanceAs (Decidable (_ ∧ _))
  | .orders, _ => inferInstanceAs (Decidable (_ ∧ _))
  | .order_items, _ => inferInstanceAs (Decidable (_ ∧ _))
  | .payments, _ => inferInstanceAs (Decidable (_ ∧ _))

theorem forall_tableName {P : TableName → Prop} :
    (∀ t, P t) ↔ P .products ∧ P .orders ∧ P .order_items ∧ P .payments := by
  constructor
  · exact fun h => ⟨h _, h _, h _, h _⟩
  · rintro ⟨hproducts, horders, hitems, hpayments⟩ t
    cases t <;> assumption

instance {ρ κ : Type} [DecidableEq κ] (key : ρ → κ) (rows : List ρ) : Decidable (UniqueOn key rows) :=
  inferInstanceAs (Decidable (List.Nodup _))

instance (customers : Cdc.SourceTable) (tables : Source) : Decidable (Admissible customers tables) :=
  decidable_of_iff ((_ ∧ _ ∧ _ ∧ _) ∧ UniqueOn itemPair (tables .order_items).rows)
    ((and_congr_left fun _ => forall_tableName.symm).trans admissible_iff.symm)

/-- Where every row stays that is referred to, the constraints of a row stay. -/
theorem RowConstraints.mono (h : RowConstraints customers tables t row)
    (hkeeps : ∀ t id, ((tables t).find? id).isSome → ((tables' t).find? id).isSome) :
    RowConstraints customers tables' t row := by
  cases t with
  | products => exact h
  | orders => exact h
  | order_items => exact ⟨⟨hkeeps .orders _ h.1.1, hkeeps .products _ h.1.2⟩, h.2⟩
  | payments => exact ⟨hkeeps .orders _ h.1, h.2⟩

/-- **A statement on one table** keeps the schema if no key goes, its rows meet their constraints, and no
order has a product twice. -/
theorem Admissible.update (h : Admissible customers tables) {table : Table (Row t) (key t)}
    (hkeeps : ∀ id, ((tables t).find? id).isSome → (table.find? id).isSome)
    (hrows : ∀ row ∈ table.rows, RowConstraints customers tables t row)
    (hpairs : UniqueOn itemPair (Function.update tables t table .order_items).rows) :
    Admissible customers (Function.update tables t table) := by
  obtain ⟨hall, -⟩ := admissible_iff.mp h
  have hfind : ∀ t' id, ((tables t').find? id).isSome → ((Function.update tables t table t').find? id).isSome := by
    intro t' id hid
    by_cases ht : t' = t
    · subst ht
      rw [Function.update_self]
      exact hkeeps id hid
    · rwa [Function.update_of_ne ht]
  refine admissible_iff.mpr ⟨fun t' row hrow => ?_, hpairs⟩
  refine RowConstraints.mono ?_ hfind
  by_cases ht : t' = t
  · subst ht
    rw [Function.update_self] at hrow
    exact hrows row hrow
  · rw [Function.update_of_ne ht] at hrow
    exact hall t' row hrow

/-- Where every customer stays, the orders of a source stay admissible. -/
theorem Admissible.of_customers {customers' : Cdc.SourceTable} (h : Admissible customers tables)
    (hkeeps : ∀ id, (customers.find? id).isSome → (customers'.find? id).isSome) : Admissible customers' tables := by
  obtain ⟨hrows, hpairs⟩ := admissible_iff.mp h
  refine admissible_iff.mpr ⟨fun t row hrow => ?_, hpairs⟩
  have hrow := hrows t row hrow
  cases t with
  | products => exact hrow
  | orders => exact ⟨hkeeps _ hrow.1, hrow.2⟩
  | order_items => exact hrow
  | payments => exact hrow

end Constraints

/-- `VARCHAR(100) NOT NULL`. -/
def Varchar100 (column : Option String) : Prop := ∃ text ∈ column, text.length ≤ 100

instance (column : Option String) : Decidable (Varchar100 column) :=
  match column with
  | none => isFalse fun ⟨_, h, _⟩ => nomatch h
  | some text => decidable_of_iff (text.length ≤ 100) ⟨fun h => ⟨text, rfl, h⟩, fun ⟨_, h, hle⟩ => by cases h; exact hle⟩

/-- The columns of a row of `customers`. -/
structure CustomerColumns (c : Cdc.Customer) : Prop where
  first_name : Varchar100 c.attributes.firstName
  last_name : Varchar100 c.attributes.lastName
  email : Varchar100 c.attributes.email
  created_at : c.attributes.createdAt.isSome = true
  updated_at : c.attributes.updatedAt.isSome = true

instance (c : Cdc.Customer) : Decidable (CustomerColumns c) :=
  decidable_of_iff (Varchar100 c.attributes.firstName ∧ Varchar100 c.attributes.lastName ∧
      Varchar100 c.attributes.email ∧ c.attributes.createdAt.isSome = true ∧ c.attributes.updatedAt.isSome = true)
    ⟨fun ⟨h₁, h₂, h₃, h₄, h₅⟩ => ⟨h₁, h₂, h₃, h₄, h₅⟩, fun ⟨h₁, h₂, h₃, h₄, h₅⟩ => ⟨h₁, h₂, h₃, h₄, h₅⟩⟩

/-- The key of `UNIQUE (email)`. -/
def customerEmail (c : Cdc.Customer) : Option String := c.attributes.email

/-- What the schema asks of `customers`, besides the key. -/
structure CustomersAdmissible (customers : Cdc.SourceTable) : Prop where
  columns : ∀ c ∈ customers.rows, CustomerColumns c
  email_unique : UniqueOn customerEmail customers.rows

/-- Why a statement fails: a key or an address is there already, or another constraint does not hold. -/
inductive Refusal
  | duplicate_key (t : TableName)
  | duplicate_customer
  | duplicate_email
  | constraint
  deriving DecidableEq, Repr

/-- A statement, checked at its end. -/
def accept (customers : Cdc.SourceTable) (tables : Source) : Except Refusal Source :=
  if Admissible customers tables then .ok tables else .error .constraint

theorem accept_eq_ok {customers : Cdc.SourceTable} {tables : Source} (h : Admissible customers tables) :
    accept customers tables = .ok tables := if_pos h

/-! ## COPY -/

/-- A row without its key, which the table gives it. -/
structure NewRow (t : TableName) where
  withKey : Uuid → Row t
  key_withKey : ∀ id, key t (withKey id) = id

/-- The rows of a `COPY` with the keys that `gen_random_uuid()` returns; `count` rows have got theirs
before. -/
def written {t : TableName} (gen_random_uuid : Nat → Uuid) : Nat → List (NewRow t) → List (Row t)
  | _, [] => []
  | count, r :: rows => r.withKey (gen_random_uuid count) :: written gen_random_uuid (count + 1) rows

/-- `COPY t FROM STDIN`. -/
def copy (customers : Cdc.SourceTable) (gen_random_uuid : TableName → Nat → Uuid) (t : TableName)
    (rows : List (NewRow t)) (tables : Source) : Except Refusal Source :=
  let all := (tables t).rows ++ written (gen_random_uuid t) (tables t).rows.length rows
  if h : UniqueOn (key t) all then accept customers (Function.update tables t ⟨all, h⟩)
  else .error (.duplicate_key t)

/-- `COPY customers FROM STDIN`, of rows that have got their keys. -/
def copy_customers (new : List Cdc.Customer) (customers : Cdc.SourceTable) : Except Refusal Cdc.SourceTable :=
  let all := customers.rows ++ new
  if h : UniqueOn Cdc.Customer.customerId all then
    if UniqueOn customerEmail all then
      if ∀ c ∈ all, CustomerColumns c then .ok ⟨all, h⟩ else .error .constraint
    else .error .duplicate_email
  else .error .duplicate_customer

section Copy

variable {customers : Cdc.SourceTable} {gen_random_uuid : TableName → Nat → Uuid} {base tables : Source}
variable {t : TableName} {rows : List (NewRow t)} {uuid : Nat → Uuid} {count : Nat}

/-- What is written, whatever the keys. -/
theorem map_written {β : Type} {f : Row t → β} {g : NewRow t → β} (h : ∀ r ∈ rows, ∀ id, f (r.withKey id) = g r) :
    (written uuid count rows).map f = rows.map g := by
  induction rows generalizing count with
  | nil => rfl
  | cons r rows ih =>
    unfold written
    rw [List.map_cons, List.map_cons, h r List.mem_cons_self, ih fun r hr => h r (List.mem_cons_of_mem _ hr)]

theorem mem_written {row : Row t} (h : row ∈ written uuid count rows) : ∃ r ∈ rows, ∃ id, row = r.withKey id := by
  induction rows generalizing count with
  | nil => cases h
  | cons r rows ih =>
    rcases List.mem_cons.mp h with rfl | h
    · exact ⟨r, List.mem_cons_self, _, rfl⟩
    · obtain ⟨r', hr', id, rfl⟩ := ih h
      exact ⟨r', List.mem_cons_of_mem _ hr', id, rfl⟩

theorem length_written : (written uuid count rows).length = rows.length := by
  induction rows generalizing count with
  | nil => rfl
  | cons r rows ih =>
    unfold written
    rw [List.length_cons, List.length_cons, ih]

/-- The statement was refused for a key of one of the four tables. -/
def DuplicateKey (e : Refusal) : Prop := ∃ t, e = .duplicate_key t

/-- **A `COPY` of customers whose columns fit is refused for a key or an address only.** -/
theorem copy_customers_spec {E : Refusal → Prop} {new : List Cdc.Customer}
    (hcolumns : ∀ c ∈ customers.rows ++ new, CustomerColumns c) (hkey : E .duplicate_customer)
    (hemail : ¬ UniqueOn customerEmail (customers.rows ++ new) → E .duplicate_email) :
    Yields E (fun customers' => customers'.rows = customers.rows ++ new ∧ CustomersAdmissible customers')
      (copy_customers new customers) := by
  unfold copy_customers
  dsimp only
  by_cases hid : UniqueOn Cdc.Customer.customerId (customers.rows ++ new)
  · rw [dif_pos hid]
    by_cases hunique : UniqueOn customerEmail (customers.rows ++ new)
    · rw [if_pos hunique, if_pos hcolumns]
      exact yields_ok ⟨rfl, hcolumns, hunique⟩
    · rw [if_neg hunique]
      exact yields_error (hemail hunique)
  · rw [dif_neg hid]
    exact yields_error hkey

/-- A source that has grown in one table only. -/
structure Grown (customers : Cdc.SourceTable) (base : Source) (t : TableName) (tables : Source) : Prop where
  admissible : Admissible customers tables
  others : ∀ t', t' ≠ t → tables t' = base t'

/-- The constraints of a row are about other tables. -/
theorem RowConstraints.congr {row : Row t} (h : RowConstraints customers base t row)
    (hothers : ∀ t', t' ≠ t → tables t' = base t') : RowConstraints customers tables t row := by
  cases t with
  | products => exact h
  | orders => exact h
  | order_items =>
    unfold RowConstraints
    rw [hothers .orders nofun, hothers .products nofun]
    exact h
  | payments =>
    unfold RowConstraints
    rw [hothers .orders nofun]
    exact h

/-- A table that is not `order_items` does not touch the pairs. -/
theorem Grown.pairs (h : Grown customers base t tables) (ht : t ≠ .order_items) (table : Table (Row t) (key t)) :
    UniqueOn itemPair (Function.update tables t table .order_items).rows := by
  rw [Function.update_of_ne (Ne.symm ht)]
  exact h.admissible.order_items_order_product_unique

/-- **A `COPY` of rows that meet their constraints is refused for a key only.** -/
theorem Grown.copy (h : Grown customers base t tables)
    (hrows : ∀ r ∈ rows, ∀ id, RowConstraints customers base t (r.withKey id))
    (hpairs : ∀ table : Table (Row t) (key t),
      table.rows = (tables t).rows ++ written (gen_random_uuid t) (tables t).rows.length rows →
        UniqueOn itemPair (Function.update tables t table .order_items).rows) :
    Yields DuplicateKey (fun tables' => Grown customers base t tables' ∧
        (tables' t).rows = (tables t).rows ++ written (gen_random_uuid t) (tables t).rows.length rows)
      (Pipeline.copy customers gen_random_uuid t rows tables) := by
  unfold Pipeline.copy
  dsimp only
  split
  · rename_i hunique
    have hadmissible : Admissible customers (Function.update tables t ⟨_, hunique⟩) := by
      refine h.admissible.update (fun id hid => ?_) (fun row hrow => ?_) (hpairs _ rfl)
      · obtain ⟨row, hrow, hkey⟩ := lookup_isSome.mp hid
        exact lookup_isSome.mpr ⟨row, List.mem_append_left _ hrow, hkey⟩
      · rcases List.mem_append.mp hrow with hold | hnew
        · exact (admissible_iff.mp h.admissible).1 t row hold
        · obtain ⟨r, hr, id, rfl⟩ := mem_written hnew
          exact (hrows r hr id).congr h.others
    rw [accept_eq_ok hadmissible]
    refine yields_ok ⟨⟨hadmissible, fun t' ht => ?_⟩, ?_⟩
    · rw [Function.update_of_ne ht]
      exact h.others t' ht
    · rw [Function.update_self]
  · exact yields_error ⟨t, rfl⟩

end Copy

end LocalDataPlatform.Pipeline

import LocalDataPlatform.Pipeline.DirectSales
import LocalDataPlatform.Pipeline.SourceSchema
import LocalDataPlatform.Relational.OneToMany
import LocalDataPlatform.Runs.Batches

/-!
# The generated source

`data-generator` fills the source, parents before children, and `001_correction.sql` replaces the amounts
that orders and payments were given at random.  All of it is one transaction, so `NOW()` is one instant.

* `Draws` — what `random` and `Faker` return.
* `generate_products`, `generate_customers`, `generate_orders`, `generate_order_items`, `generate_payments` —
  the loops.
* `correct_orders`, `correct_payments` — the correction; `mismatched_orders` — the check of
  `002_validation.sql`.
* `main` — the script.
* `Seeded` — what it leaves.

Principal results: `generate_customers_spec`, `generate_order_items_spec`, `generate_payments_spec` (the loops
over batches), `main_seeded` (over a database without orders, whatever is drawn: a row is refused for a key or
an address that is taken only, no total mismatches, and no order is paid after a failed attempt).
-/

set_option autoImplicit false

namespace LocalDataPlatform.Pipeline.DataGenerator

open Relational Sales Runs

/-! ## What is drawn -/

def TOTAL_PRODUCTS : Nat := 10000

def TOTAL_CUSTOMERS : Nat := 100000

def BATCH_SIZE_CUSTOMER : Nat := 10000

def TOTAL_ORDERS : Nat := 500000

def BATCH_SIZE_ORDERS : Nat := 20000

/-- The batches of orders whose items, or payments, are generated. -/
def BATCH_SIZE : Nat := 10000

def CATEGORIES : List String :=
  ["Electronics", "Clothing", "Home", "Beauty", "Sports", "Books", "Toys", "Food"]

def ORDER_STATUS : List String :=
  ["pending", "confirmed", "processing", "shipped", "delivered", "canceled"]

def PAYMENT_METHODS : List String := ["credit_card", "cash", "debit_card", "bank_transfer", "e_wallet"]

/-- A product; the price is `round(random.uniform(5, 2000), 2)`. -/
structure ProductDraw where
  name : String
  category : String
  price : Cents
  name_fits : name.length ≤ 255
  category_mem : category ∈ CATEGORIES
  price_range : 500 ≤ price ∧ price ≤ 200000

/-- A customer, as `fake.first_name()`, `fake.last_name()` and `fake.unique.email()` name it. -/
structure CustomerDraw where
  first_name : String
  last_name : String
  email : String
  first_name_fits : first_name.length ≤ 100
  last_name_fits : last_name.length ≤ 100
  email_fits : email.length ≤ 100

/-- An order, without its customer. -/
structure OrderDraw where
  order_date : Instant
  status : String
  order_amount : Cents
  status_mem : status ∈ ORDER_STATUS
  amount_range : 1000 ≤ order_amount ∧ order_amount ≤ 500000

/-- `random.randint(1, 5)` and `round(random.uniform(5, 2000), 2)` of an item. -/
structure ItemDraw where
  quantity : Int
  unit_price : Cents
  quantity_range : 1 ≤ quantity ∧ quantity ≤ 5
  price_range : 500 ≤ unit_price ∧ unit_price ≤ 200000

/-- An attempt to pay; `status` is what `random.choices` returns if it is asked. -/
structure AttemptDraw where
  status : String
  payment_method : String
  minutes : Int
  status_mem : status ∈ ["completed", "failed"]
  method_mem : payment_method ∈ PAYMENT_METHODS
  minutes_range : 1 ≤ minutes ∧ minutes ≤ 60

/-- The attempts to pay an order: one, or `random.randint(2, 3)`. -/
structure PaymentDraw where
  payment_count : Nat
  attempt : Nat → AttemptDraw
  count_range : 1 ≤ payment_count ∧ payment_count ≤ 3

/-- What the script draws, by the position of the product, customer or order it is for. -/
structure Draws where
  product : Nat → ProductDraw
  newCustomer : Nat → CustomerDraw
  /-- `fake.unique` returns no address twice. -/
  email_unique : ∀ i j, i < TOTAL_CUSTOMERS → j < TOTAL_CUSTOMERS →
    (newCustomer i).email = (newCustomer j).email → i = j
  /-- `random.choice(customer_ids)`. -/
  customer : Nat → List Uuid → Uuid
  order : Nat → OrderDraw
  /-- `random.sample(product_ids, item_count)` with `item_count = random.randint(1, 5)`. -/
  sample : Nat → List Uuid → List Uuid
  item : Nat → Uuid → ItemDraw
  payment : Nat → PaymentDraw
  customer_mem : ∀ i {customer_ids}, customer_ids ≠ [] → customer i customer_ids ∈ customer_ids
  sample_subperm : ∀ i product_ids, (sample i product_ids).Subperm product_ids
  sample_count : ∀ i {product_ids : List Uuid}, 5 ≤ product_ids.length →
    1 ≤ (sample i product_ids).length ∧ (sample i product_ids).length ≤ 5

/-! ## The script -/

section Script

-- `gen_random_uuid()` as the default of the key of `customers` is `customer_uuid`.
variable (customers : Cdc.SourceTable) (gen_random_uuid : TableName → Nat → Uuid) (customer_uuid : Nat → Uuid)
variable (draws : Draws) (now : Instant)

def productRow (draw : ProductDraw) : NewRow .products :=
  ⟨fun id => ⟨id, draw.name, draw.category, draw.price, now, now⟩, fun _ => rfl⟩

def generate_products : Source → Except Refusal Source :=
  copy customers gen_random_uuid .products ((List.range TOTAL_PRODUCTS).map fun i => productRow now (draws.product i))

def customerRow (id : Uuid) (draw : CustomerDraw) : Cdc.Customer :=
  ⟨id, ⟨some draw.first_name, some draw.last_name, some draw.email, some now, some now⟩⟩

/-- The customers from a position on, with the keys the table gives them. -/
def customerRows (customers : Cdc.SourceTable) (total_inserted current_batch_size : Nat) : List Cdc.Customer :=
  (List.range current_batch_size).map fun i =>
    customerRow now (customer_uuid (customers.rows.length + i)) (draws.newCustomer (total_inserted + i))

def generate_customers : Cdc.SourceTable → Except Refusal Cdc.SourceTable :=
  inBatches BATCH_SIZE_CUSTOMER TOTAL_CUSTOMERS (fun total_inserted current_batch_size customers =>
    copy_customers (customerRows customer_uuid draws now customers total_inserted current_batch_size) customers) 0

/-- `load_customer_ids`. -/
def load_customer_ids : List Uuid := customers.rows.map Cdc.Customer.customerId

def orderRow (customer_id : Uuid) (draw : OrderDraw) : NewRow .orders :=
  ⟨fun id => ⟨id, customer_id, draw.order_date, draw.status, draw.order_amount, now, now⟩, fun _ => rfl⟩

def generate_orders (customer_ids : List Uuid) : Source → Except Refusal Source :=
  inBatches BATCH_SIZE_ORDERS TOTAL_ORDERS (fun total_inserted current_batch_size =>
    copy customers gen_random_uuid .orders ((List.range current_batch_size).map fun i =>
      orderRow now (draws.customer (total_inserted + i) customer_ids) (draws.order (total_inserted + i)))) 0

/-- `load_ids`. -/
def load_ids (tables : Source) : List Uuid × List Uuid :=
  ((tables .orders).rows.map OrderRow.order_id, (tables .products).rows.map ProductRow.product_id)

def itemRow (order_id product_id : Uuid) (draw : ItemDraw) : NewRow .order_items :=
  ⟨fun id => ⟨id, order_id, product_id, draw.quantity, draw.unit_price, now, now⟩, fun _ => rfl⟩

/-- The items of the order at a position. -/
def itemsOfOrder (product_ids : List Uuid) (order : Uuid × Nat) : List (NewRow .order_items) :=
  (draws.sample order.2 product_ids).map fun product_id =>
    itemRow now order.1 product_id (draws.item order.2 product_id)

/-- The positions `processed .. processed + size` of a list, as the loops index them. -/
def batchOf {α : Type} (xs : List α) (processed size : Nat) : List (α × Nat) := (xs.zipIdx.drop processed).take size

def generate_order_items (order_ids product_ids : List Uuid) : Source → Except Refusal Source :=
  inBatches BATCH_SIZE order_ids.length (fun processed_orders current_batch_size =>
    copy customers gen_random_uuid .order_items
      ((batchOf order_ids processed_orders current_batch_size).flatMap (itemsOfOrder draws now product_ids))) 0

/-- The status of an attempt. -/
def attemptStatus (payment_count attempt : Nat) (drawn : String) : String :=
  if payment_count = 1 then drawn
  else if ¬ attempt = payment_count - 1 then "failed"
  else drawn

/-- An attempt to pay; `order_date` moves on by some minutes when it is completed. -/
def paymentRow (order : OrderRow) (draw : PaymentDraw) (attempt : Nat) : NewRow .payments :=
  let drawn := draw.attempt attempt
  let status := attemptStatus draw.payment_count attempt drawn.status
  ⟨fun id => ⟨id, order.order_id, order.total_amount, drawn.payment_method, status,
    if status = "completed" then some (order.order_date + drawn.minutes * 60000000) else none, now, now⟩, fun _ => rfl⟩

/-- The attempts to pay the order at a position. -/
def attemptsOfOrder (order : OrderRow × Nat) : List (NewRow .payments) :=
  (List.range (draws.payment order.2).payment_count).map (paymentRow now order.1 (draws.payment order.2))

/-- `generate_payments`; `load_orders` returns the rows of `orders`. -/
def generate_payments (orders : List OrderRow) : Source → Except Refusal Source :=
  inBatches BATCH_SIZE orders.length (fun processed_orders current_batch_size =>
    copy customers gen_random_uuid .payments
      ((batchOf orders processed_orders current_batch_size).flatMap (attemptsOfOrder draws now))) 0

/-- The items of an order. -/
def itemsOf (tables : Source) (order_id : Uuid) : List OrderItemRow :=
  (tables .order_items).rows.filter fun i => decide (i.order_id = order_id)

/-- `SUM(quantity * unit_price) .. GROUP BY order_id`, for an order that has items. -/
def calculated_amount (tables : Source) (order_id : Uuid) : Option Cents :=
  if (itemsOf tables order_id).isEmpty then none else some ((itemsOf tables order_id).map lineAmount).sum

/-- The first statement of `001_correction.sql`, on one order. -/
def correctOrder (tables : Source) (order : OrderRow) : OrderRow :=
  match calculated_amount tables order.order_id with
  | none => order
  | some calculated_amount => { order with total_amount := calculated_amount, updated_at := now }

theorem order_id_correctOrder (tables : Source) (order : OrderRow) :
    (correctOrder now tables order).order_id = order.order_id := by
  unfold correctOrder
  split <;> rfl

def correct_orders (tables : Source) : Except Refusal Source :=
  accept customers (Function.update tables .orders
    ⟨(tables .orders).rows.map (correctOrder now tables),
      (tables .orders).unique.map_proj (order_id_correctOrder now tables)⟩)

/-- The second statement, on one payment. -/
def correctPayment (tables : Source) (payment : PaymentRow) : PaymentRow :=
  match (tables .orders).find? payment.order_id with
  | none => payment
  | some order => { payment with amount := order.total_amount, updated_at := now }

theorem payment_id_correctPayment (tables : Source) (payment : PaymentRow) :
    (correctPayment now tables payment).payment_id = payment.payment_id := by
  unfold correctPayment
  split <;> rfl

def correct_payments (tables : Source) : Except Refusal Source :=
  accept customers (Function.update tables .payments
    ⟨(tables .payments).rows.map (correctPayment now tables),
      (tables .payments).unique.map_proj (payment_id_correctPayment now tables)⟩)

/-- `main`. -/
def main (tables : Source) : Except Refusal (Cdc.SourceTable × Source) := do
  let tables ← generate_products customers gen_random_uuid draws now tables
  let customers ← generate_customers customer_uuid draws now customers
  let tables ← generate_orders customers gen_random_uuid draws now (load_customer_ids customers) tables
  let (order_ids, product_ids) := load_ids tables
  let tables ← generate_order_items customers gen_random_uuid draws now order_ids product_ids tables
  let tables ← generate_payments customers gen_random_uuid draws now (tables .orders).rows tables
  let tables ← correct_orders customers now tables
  let tables ← correct_payments customers now tables
  return (customers, tables)

end Script

/-- The orders that the first query of `002_validation.sql` counts. -/
def mismatched_orders (tables : Source) : List OrderRow :=
  (tables .orders).rows.filter fun o =>
    (calculated_amount tables o.order_id).any fun calculated_total => decide (o.total_amount ≠ calculated_total)

section Spec

variable {customers : Cdc.SourceTable} {gen_random_uuid : TableName → Nat → Uuid} {draws : Draws}
variable {now : Instant} {base tables : Source}

/-! ## Products -/

theorem fitsNumeric_of_le {precision : Nat} {amount bound : Int} (hnonneg : 0 ≤ amount) (hle : amount ≤ bound)
    (hbound : bound.natAbs < 10 ^ precision) : FitsNumeric precision amount := by
  have habs : amount.natAbs ≤ bound.natAbs := by omega
  exact Nat.lt_of_le_of_lt habs hbound

theorem productRow_constraints (draw : ProductDraw) (id : Uuid) :
    RowConstraints customers base .products ((productRow now draw).withKey id) := by
  obtain ⟨hlow, hhigh⟩ := draw.price_range
  have hnonneg : 0 ≤ draw.price := Int.le_trans (by decide) hlow
  refine ⟨⟨draw.name_fits, ?_, fitsNumeric_of_le hnonneg hhigh (by decide)⟩, hnonneg⟩
  have hall : ∀ category ∈ CATEGORIES, category.length ≤ 100 := by decide
  exact hall _ draw.category_mem

/-- **The products are written in one batch.** -/
theorem generate_products_spec (h : Admissible customers tables) :
    Yields DuplicateKey (fun tables' => Grown customers tables .products tables' ∧
        5 ≤ (tables' .products).rows.length)
      (generate_products customers gen_random_uuid draws now tables) := by
  have hconstraints : ∀ r ∈ (List.range TOTAL_PRODUCTS).map fun i => productRow now (draws.product i), ∀ id,
      RowConstraints customers tables .products (r.withKey id) := by
    intro r hr id
    obtain ⟨i, -, rfl⟩ := List.mem_map.mp hr
    exact productRow_constraints _ _
  have hgrown : Grown customers tables .products tables := ⟨h, fun _ _ => rfl⟩
  refine (hgrown.copy hconstraints fun table _ => hgrown.pairs nofun table).mono fun tables' ⟨hgrown', hrows⟩ => ⟨hgrown', ?_⟩
  rw [hrows, List.length_append, length_written, List.length_map, List.length_range]
  unfold TOTAL_PRODUCTS
  omega

/-! ## Customers -/

/-- The address of the customer at a position. -/
def drawnEmail (draws : Draws) (i : Nat) : Option String := some (draws.newCustomer i).email

/-- An address that is drawn belongs to a customer that was there before. -/
def EmailTaken (customers : Cdc.SourceTable) (draws : Draws) : Prop :=
  ∃ c ∈ customers.rows, ∃ i, i < TOTAL_CUSTOMERS ∧ customerEmail c = drawnEmail draws i

/-- What a statement of the script is refused for: a key that is returned twice, or an address that is taken. -/
def Refused (customers : Cdc.SourceTable) (draws : Draws) (e : Refusal) : Prop :=
  DuplicateKey e ∨ e = .duplicate_customer ∨ e = .duplicate_email ∧ EmailTaken customers draws

/-- The customers before a position, after those that were there. -/
structure CustomersInv (before : Cdc.SourceTable) (draws : Draws) (done : Nat) (customers : Cdc.SourceTable) :
    Prop where
  admissible : CustomersAdmissible customers
  emails : customers.rows.map customerEmail = before.rows.map customerEmail ++ (List.range done).map (drawnEmail draws)
  keeps : ∀ id, (before.find? id).isSome → (customers.find? id).isSome

section Customers

variable {before : Cdc.SourceTable} {customer_uuid : Nat → Uuid} {done size : Nat}

theorem customerRow_columns (draw : CustomerDraw) (id : Uuid) : CustomerColumns (customerRow now id draw) :=
  ⟨⟨_, rfl, draw.first_name_fits⟩, ⟨_, rfl, draw.last_name_fits⟩, ⟨_, rfl, draw.email_fits⟩, rfl, rfl⟩

/-- The addresses up to a position are apart unless one is taken. -/
theorem nodup_emails (hbefore : CustomersAdmissible before) (hdone : done ≤ TOTAL_CUSTOMERS)
    (hfree : ¬ EmailTaken before draws) :
    (before.rows.map customerEmail ++ (List.range done).map (drawnEmail draws)).Nodup := by
  have hdrawn : ((List.range done).map (drawnEmail draws)).Nodup := by
    refine List.Nodup.map_on (fun i hi j hj he => ?_) List.nodup_range
    have hlt : ∀ n ∈ List.range done, n < TOTAL_CUSTOMERS := fun n hn =>
      Nat.lt_of_lt_of_le (List.mem_range.mp hn) hdone
    exact draws.email_unique i j (hlt i hi) (hlt j hj) (Option.some.inj he)
  refine List.Nodup.append hbefore.email_unique hdrawn fun email hold hnew => hfree ?_
  obtain ⟨c, hc, rfl⟩ := List.mem_map.mp hold
  obtain ⟨i, hi, he⟩ := List.mem_map.mp hnew
  exact ⟨c, hc, i, Nat.lt_of_lt_of_le (List.mem_range.mp hi) hdone, he.symm⟩

/-- One batch. -/
theorem CustomersInv.batch (hbefore : CustomersAdmissible before) (hsize : done + size ≤ TOTAL_CUSTOMERS)
    (h : CustomersInv before draws done customers) :
    Yields (Refused before draws) (CustomersInv before draws (done + size))
      (copy_customers (customerRows customer_uuid draws now customers done size) customers) := by
  have hemails : (customers.rows ++ customerRows customer_uuid draws now customers done size).map customerEmail =
      before.rows.map customerEmail ++ (List.range (done + size)).map (drawnEmail draws) := by
    rw [List.map_append, h.emails, List.append_assoc, List.range_add, List.map_append, List.map_map]
    unfold customerRows
    rw [List.map_map]
    rfl
  have hcolumns : ∀ c ∈ customers.rows ++ customerRows customer_uuid draws now customers done size,
      CustomerColumns c := by
    intro c hc
    rcases List.mem_append.mp hc with hold | hnew
    · exact h.admissible.columns c hold
    · obtain ⟨i, -, rfl⟩ := List.mem_map.mp hnew
      exact customerRow_columns _ _
  have htaken : ¬ UniqueOn customerEmail (customers.rows ++ customerRows customer_uuid draws now customers done size) →
      EmailTaken before draws := by
    intro hclash
    by_contra hfree
    refine hclash ?_
    unfold UniqueOn
    rw [hemails]
    exact nodup_emails hbefore hsize hfree
  refine (copy_customers_spec hcolumns (Or.inr (Or.inl rfl)) fun hclash => Or.inr (Or.inr ⟨rfl, htaken hclash⟩)).mono
    fun customers' ⟨hrows, hadmissible⟩ => ⟨hadmissible, by rw [hrows]; exact hemails, fun id hid => ?_⟩
  obtain ⟨c, hc, hkey⟩ := lookup_isSome.mp (h.keeps id hid)
  exact lookup_isSome.mpr ⟨c, hrows ▸ List.mem_append_left _ hc, hkey⟩

/-- **The customers**, batch by batch, are refused for a key or for an address that is taken. -/
theorem generate_customers_spec (hbefore : CustomersAdmissible before) :
    Yields (Refused before draws) (CustomersInv before draws TOTAL_CUSTOMERS)
      (generate_customers customer_uuid draws now before) := by
  refine inBatches_rule (P := CustomersInv before draws) (by decide)
    (fun _ _ _ hsize hinv => hinv.batch hbefore hsize) (Nat.zero_le _) ⟨hbefore, ?_, fun _ => id⟩
  rw [List.range_zero, List.map_nil, List.append_nil]

/-- There are customers to order. -/
theorem CustomersInv.rows_ne_nil (h : CustomersInv before draws TOTAL_CUSTOMERS customers) : customers.rows ≠ [] := by
  intro hnil
  have hlength := congrArg List.length h.emails
  rw [hnil, List.map_nil, List.length_nil, List.length_append, List.length_map, List.length_map,
    List.length_range] at hlength
  unfold TOTAL_CUSTOMERS at hlength
  omega

end Customers

/-! ## Orders -/

theorem orderRow_constraints {customer_id : Uuid} (hcustomer : customer_id ∈ load_customer_ids customers)
    (draw : OrderDraw) (id : Uuid) :
    RowConstraints customers base .orders ((orderRow now customer_id draw).withKey id) := by
  obtain ⟨hlow, hhigh⟩ := draw.amount_range
  obtain ⟨c, hc, hid⟩ := List.mem_map.mp hcustomer
  have hnonneg : 0 ≤ draw.order_amount := Int.le_trans (by decide) hlow
  exact ⟨lookup_isSome.mpr ⟨c, hc, hid⟩, draw.status_mem, fitsNumeric_of_le hnonneg hhigh (by decide), hnonneg⟩

/-- Every order has an amount. -/
def AmountsPositive (tables : Source) : Prop := ∀ o ∈ (tables .orders).rows, 0 < o.total_amount

/-- **The orders**, batch by batch, refer to customers. -/
theorem generate_orders_spec (hcustomers : customers.rows ≠ []) (h : Admissible customers tables)
    (hpositive : AmountsPositive tables) :
    Yields DuplicateKey (fun tables' => Grown customers tables .orders tables' ∧ AmountsPositive tables')
      (generate_orders customers gen_random_uuid draws now (load_customer_ids customers) tables) := by
  have hids : load_customer_ids customers ≠ [] := fun he => hcustomers (List.map_eq_nil_iff.mp he)
  refine inBatches_rule (P := fun _ tables' => Grown customers tables .orders tables' ∧ AmountsPositive tables')
    (by decide) (fun done size tables' _ ⟨hgrown, hpositive⟩ => ?_) (Nat.zero_le _) ⟨⟨h, fun _ _ => rfl⟩, hpositive⟩
  have hconstraints : ∀ r ∈ (List.range size).map fun i => orderRow now
      (draws.customer (done + i) (load_customer_ids customers)) (draws.order (done + i)), ∀ id,
      RowConstraints customers tables .orders (r.withKey id) := by
    intro r hr id
    obtain ⟨i, -, rfl⟩ := List.mem_map.mp hr
    exact orderRow_constraints (draws.customer_mem _ hids) _ _
  refine (hgrown.copy hconstraints fun table _ => hgrown.pairs nofun table).mono
    fun tables'' ⟨hgrown', hrows⟩ => ⟨hgrown', fun o ho => ?_⟩
  rw [hrows] at ho
  rcases List.mem_append.mp ho with hold | hwritten
  · exact hpositive o hold
  · obtain ⟨r, hr, id, rfl⟩ := mem_written hwritten
    obtain ⟨i, -, rfl⟩ := List.mem_map.mp hr
    exact Int.lt_of_lt_of_le (by decide) (draws.order (done + i)).amount_range.1

/-! ## Items -/

/-- The pairs that the items of an order have. -/
def pairsOf (draws : Draws) (product_ids : List Uuid) (order : Uuid × Nat) : List (Uuid × Uuid) :=
  (draws.sample order.2 product_ids).map fun product_id => (order.1, product_id)

/-- The quantity and the price of a generated item. -/
def ItemRange (i : OrderItemRow) : Prop := (1 ≤ i.quantity ∧ i.quantity ≤ 5) ∧ 500 ≤ i.unit_price ∧ i.unit_price ≤ 200000

/-- The items of the orders before a position. -/
structure ItemsInv (customers : Cdc.SourceTable) (draws : Draws) (base : Source) (order_ids product_ids : List Uuid)
    (done : Nat) (tables : Source) : Prop where
  grown : Grown customers base .order_items tables
  pairs : (tables .order_items).rows.map itemPair =
    (order_ids.zipIdx.take done).flatMap (pairsOf draws product_ids)
  range : ∀ i ∈ (tables .order_items).rows, ItemRange i

section Items

variable {order_ids product_ids : List Uuid} {done size : Nat}

/-- The positions of a batch continue those before it. -/
theorem take_batchOf {α : Type} (xs : List α) (done size : Nat) :
    xs.zipIdx.take (done + size) = xs.zipIdx.take done ++ batchOf xs done size := List.take_add

theorem mem_of_batchOf {α : Type} {xs : List α} {x : α × Nat} (h : x ∈ batchOf xs done size) : x.1 ∈ xs := by
  have hmem := List.mem_of_mem_drop (List.mem_of_mem_take h)
  rw [← List.zipIdx_map_fst 0 xs]
  exact List.mem_map_of_mem hmem

theorem uniqueOn_take {α : Type} {xs : List α} {κ : Type} {key : α → κ} (h : UniqueOn key xs) (n : Nat) :
    UniqueOn (fun x : α × Nat => key x.1) (xs.zipIdx.take n) := by
  refine UniqueOn.sublist ?_ (List.take_sublist n _)
  unfold UniqueOn
  rw [← Function.comp_def key Prod.fst, ← List.map_map, List.zipIdx_map_fst]
  exact h

/-- `random.sample` draws no product twice. -/
theorem nodup_sample (hproducts : product_ids.Nodup) (i : Nat) : (draws.sample i product_ids).Nodup := by
  obtain ⟨drawn, hperm, hsub⟩ := draws.sample_subperm i product_ids
  exact hperm.nodup_iff.mp (hsub.nodup hproducts)

/-- The pairs of an order carry its key. -/
theorem carries_pairsOf (draws : Draws) (product_ids : List Uuid) :
    Carries Prod.fst Prod.fst (pairsOf draws product_ids) := by
  intro order pair hpair
  obtain ⟨product_id, -, rfl⟩ := List.mem_map.mp hpair
  rfl

/-- No order has a product twice. -/
theorem nodup_pairs (horders : order_ids.Nodup) (hproducts : product_ids.Nodup) (n : Nat) :
    ((order_ids.zipIdx.take n).flatMap (pairsOf draws product_ids)).Nodup := by
  have hids : UniqueOn id order_ids := by rwa [UniqueOn, List.map_id]
  refine nodup_children (carries_pairsOf draws product_ids) (uniqueOn_take hids n) fun order => ?_
  exact (nodup_sample hproducts order.2).map fun _ _ he => (Prod.mk.inj he).2

theorem itemRow_constraints {order_id product_id : Uuid} (horder : ((base .orders).find? order_id).isSome)
    (hproduct : ((base .products).find? product_id).isSome) (draw : ItemDraw) (id : Uuid) :
    RowConstraints customers base .order_items ((itemRow now order_id product_id draw).withKey id) := by
  obtain ⟨hfew, hmany⟩ := draw.quantity_range
  obtain ⟨hlow, hhigh⟩ := draw.price_range
  have hnonneg : 0 ≤ draw.unit_price := Int.le_trans (by decide) hlow
  exact ⟨⟨horder, hproduct⟩, ⟨Int.le_trans (by decide) hfew, Int.lt_of_le_of_lt hmany (by decide)⟩,
    Int.le_trans (by decide) hfew, fitsNumeric_of_le hnonneg hhigh (by decide)⟩

/-- One batch. -/
theorem ItemsInv.batch (horders : order_ids.Nodup) (hproducts : product_ids.Nodup)
    (hof : ∀ id ∈ order_ids, ((base .orders).find? id).isSome)
    (hpf : ∀ id ∈ product_ids, ((base .products).find? id).isSome)
    (h : ItemsInv customers draws base order_ids product_ids done tables) :
    Yields DuplicateKey (ItemsInv customers draws base order_ids product_ids (done + size))
      (copy customers gen_random_uuid .order_items
        ((batchOf order_ids done size).flatMap (itemsOfOrder draws now product_ids)) tables) := by
  let rows := (batchOf order_ids done size).flatMap (itemsOfOrder draws now product_ids)
  have hnew : ∀ r ∈ rows, ∃ order ∈ batchOf order_ids done size, ∃ product_id ∈ draws.sample order.2 product_ids,
      r = itemRow now order.1 product_id (draws.item order.2 product_id) := by
    intro r hr
    obtain ⟨order, horder, hr⟩ := List.mem_flatMap.mp hr
    obtain ⟨product_id, hproduct, rfl⟩ := List.mem_map.mp hr
    exact ⟨order, horder, product_id, hproduct, rfl⟩
  have hconstraints : ∀ r ∈ rows, ∀ id, RowConstraints customers base .order_items (r.withKey id) := by
    intro r hr id
    obtain ⟨order, horder, product_id, hproduct, rfl⟩ := hnew r hr
    exact itemRow_constraints (hof _ (mem_of_batchOf horder))
      (hpf _ ((draws.sample_subperm order.2 product_ids).subset hproduct)) _ _
  have hpairs : ∀ count, (written (gen_random_uuid .order_items) count rows).map itemPair =
      (batchOf order_ids done size).flatMap (pairsOf draws product_ids) := by
    intro count
    have hkey : ∀ r ∈ rows, ∀ id, itemPair (r.withKey id) = itemPair (r.withKey 0) := by
      intro r hr id
      obtain ⟨order, -, product_id, -, rfl⟩ := hnew r hr
      rfl
    rw [map_written hkey, List.map_flatMap]
    refine List.flatMap_congr fun order _ => ?_
    unfold itemsOfOrder pairsOf
    rw [List.map_map]
    rfl
  have hall : ∀ table : Table OrderItemRow OrderItemRow.order_item_id,
      table.rows = (tables .order_items).rows ++
          written (gen_random_uuid .order_items) (tables .order_items).rows.length rows →
        table.rows.map itemPair = (order_ids.zipIdx.take (done + size)).flatMap (pairsOf draws product_ids) := by
    intro table he
    rw [he, List.map_append, h.pairs, hpairs, take_batchOf, List.flatMap_append]
  have hunique : ∀ table : Table OrderItemRow OrderItemRow.order_item_id,
      table.rows = (tables .order_items).rows ++
          written (gen_random_uuid .order_items) (tables .order_items).rows.length rows →
        UniqueOn itemPair (Function.update tables .order_items table .order_items).rows := by
    intro table he
    rw [Function.update_self]
    unfold UniqueOn
    rw [hall table he]
    exact nodup_pairs horders hproducts _
  refine (h.grown.copy hconstraints hunique).mono fun tables' ⟨hgrown, hrows⟩ => ⟨hgrown, hall _ hrows, fun i hi => ?_⟩
  rw [hrows] at hi
  rcases List.mem_append.mp hi with hold | hwritten
  · exact h.range i hold
  · obtain ⟨r, hr, id, rfl⟩ := mem_written hwritten
    obtain ⟨order, -, product_id, -, rfl⟩ := hnew r hr
    exact ⟨(draws.item order.2 product_id).quantity_range, (draws.item order.2 product_id).price_range⟩

/-- **The items of all orders**, batch by batch. -/
theorem generate_order_items_spec (horders : order_ids.Nodup) (hproducts : product_ids.Nodup)
    (hof : ∀ id ∈ order_ids, ((base .orders).find? id).isSome)
    (hpf : ∀ id ∈ product_ids, ((base .products).find? id).isSome)
    (h : ItemsInv customers draws base order_ids product_ids 0 tables) :
    Yields DuplicateKey (ItemsInv customers draws base order_ids product_ids order_ids.length)
      (generate_order_items customers gen_random_uuid draws now order_ids product_ids tables) :=
  inBatches_rule (by decide) (fun _ _ _ _ hinv => hinv.batch horders hproducts hof hpf) (Nat.zero_le _) h

end Items

/-! ## Payments -/

/-- The order and the status of the attempts to pay an order. -/
def statusesOf (draws : Draws) (order : OrderRow × Nat) : List (Uuid × String) :=
  (List.range (draws.payment order.2).payment_count).map fun attempt =>
    (order.1.order_id, attemptStatus (draws.payment order.2).payment_count attempt
      ((draws.payment order.2).attempt attempt).status)

/-- The attempts to pay an order carry its key. -/
theorem carries_statusesOf (draws : Draws) :
    Carries (fun order : OrderRow × Nat => order.1.order_id) Prod.fst (statusesOf draws) := by
  intro order pair hpair
  obtain ⟨attempt, -, rfl⟩ := List.mem_map.mp hpair
  rfl

/-- The order and the status of a payment. -/
def orderStatus (p : PaymentRow) : Uuid × String := (p.order_id, p.payment_status)

/-- The payments of the orders before a position. -/
structure PaymentsInv (customers : Cdc.SourceTable) (draws : Draws) (base : Source) (orders : List OrderRow)
    (done : Nat) (tables : Source) : Prop where
  grown : Grown customers base .payments tables
  attempts : (tables .payments).rows.map orderStatus = (orders.zipIdx.take done).flatMap (statusesOf draws)

section Payments

variable {orders : List OrderRow} {done size : Nat}

theorem attemptStatus_mem {payment_count attempt : Nat} {drawn : String} (h : drawn ∈ ["completed", "failed"]) :
    attemptStatus payment_count attempt drawn ∈ ["completed", "failed"] := by
  unfold attemptStatus
  split
  · exact h
  · split
    · exact List.mem_cons_of_mem _ List.mem_cons_self
    · exact h

theorem paymentRow_constraints {order : OrderRow} (horder : ((base .orders).find? order.order_id).isSome)
    (hfits : FitsNumeric 14 order.total_amount) (hpositive : 0 < order.total_amount) (draw : PaymentDraw)
    (attempt : Nat) (id : Uuid) :
    RowConstraints customers base .payments ((paymentRow now order draw attempt).withKey id) := by
  have hstatus : ∀ status ∈ ["completed", "failed"], status ∈ paymentStatuses := by decide
  exact ⟨horder, hfits, hpositive, (draw.attempt attempt).method_mem,
    hstatus _ (attemptStatus_mem (draw.attempt attempt).status_mem)⟩

/-- One batch. -/
theorem PaymentsInv.batch (horders : ∀ o ∈ orders, o ∈ (base .orders).rows) (hadmissible : Admissible customers base)
    (hpositive : AmountsPositive base) (h : PaymentsInv customers draws base orders done tables) :
    Yields DuplicateKey (PaymentsInv customers draws base orders (done + size))
      (copy customers gen_random_uuid .payments
        ((batchOf orders done size).flatMap (attemptsOfOrder draws now)) tables) := by
  let rows := (batchOf orders done size).flatMap (attemptsOfOrder draws now)
  have hnew : ∀ r ∈ rows, ∃ order ∈ batchOf orders done size, ∃ attempt,
      r = paymentRow now order.1 (draws.payment order.2) attempt := by
    intro r hr
    obtain ⟨order, horder, hr⟩ := List.mem_flatMap.mp hr
    obtain ⟨attempt, -, rfl⟩ := List.mem_map.mp hr
    exact ⟨order, horder, attempt, rfl⟩
  have hconstraints : ∀ r ∈ rows, ∀ id, RowConstraints customers base .payments (r.withKey id) := by
    intro r hr id
    obtain ⟨order, horder, attempt, rfl⟩ := hnew r hr
    have hmem := horders _ (mem_of_batchOf horder)
    exact paymentRow_constraints (lookup_isSome.mpr ⟨_, hmem, rfl⟩) (hadmissible.column_types.total_amount _ hmem)
      (hpositive _ hmem) _ _ _
  have hstatuses : ∀ count, (written (gen_random_uuid .payments) count rows).map orderStatus =
      (batchOf orders done size).flatMap (statusesOf draws) := by
    intro count
    have hkey : ∀ r ∈ rows, ∀ id, orderStatus (r.withKey id) = orderStatus (r.withKey 0) := by
      intro r hr id
      obtain ⟨order, -, attempt, rfl⟩ := hnew r hr
      rfl
    rw [map_written hkey, List.map_flatMap]
    refine List.flatMap_congr fun order _ => ?_
    unfold attemptsOfOrder statusesOf
    rw [List.map_map]
    rfl
  refine (h.grown.copy hconstraints fun table _ => h.grown.pairs nofun table).mono
    fun tables' ⟨hgrown, hrows⟩ => ⟨hgrown, ?_⟩
  rw [hrows, List.map_append, h.attempts, hstatuses, take_batchOf, List.flatMap_append]

/-- **The payments of all orders**, batch by batch. -/
theorem generate_payments_spec (horders : ∀ o ∈ orders, o ∈ (base .orders).rows)
    (hadmissible : Admissible customers base) (hpositive : AmountsPositive base)
    (h : PaymentsInv customers draws base orders 0 tables) :
    Yields DuplicateKey (PaymentsInv customers draws base orders orders.length)
      (generate_payments customers gen_random_uuid draws now orders tables) :=
  inBatches_rule (by decide) (fun _ _ _ _ hinv => hinv.batch horders hadmissible hpositive) (Nat.zero_le _) h

end Payments

/-! ## Order by order -/

/-- The attempts to pay an order: all but the last have failed. -/
def Retried (statuses : List String) : Prop :=
  (1 ≤ statuses.length ∧ statuses.length ≤ 3) ∧ ∀ status ∈ statuses.dropLast, status = "failed"

/-- What the generator leaves, before the correction. -/
structure Generated (customers : Cdc.SourceTable) (tables : Source) : Prop where
  admissible : Admissible customers tables
  items : ∀ o ∈ (tables .orders).rows, 1 ≤ (itemsOf tables o.order_id).length ∧ (itemsOf tables o.order_id).length ≤ 5
  range : ∀ i ∈ (tables .order_items).rows, ItemRange i
  attempts : ∀ o ∈ (tables .orders).rows,
    Retried ((sourceAttempts tables o.order_id).map PaymentRow.payment_status)

theorem exists_mem_zipIdx {α : Type} {xs : List α} {x : α} (h : x ∈ xs) : ∃ i, (x, i) ∈ xs.zipIdx := by
  rw [← List.zipIdx_map_fst 0 xs] at h
  obtain ⟨⟨x', i⟩, hmem, rfl⟩ := List.mem_map.mp h
  exact ⟨i, hmem⟩

theorem ItemsInv.items {order_ids product_ids : List Uuid} (horders : order_ids.Nodup)
    (hproducts : 5 ≤ product_ids.length)
    (h : ItemsInv customers draws base order_ids product_ids order_ids.length tables) {id : Uuid} (hid : id ∈ order_ids) :
    1 ≤ (itemsOf tables id).length ∧ (itemsOf tables id).length ≤ 5 := by
  obtain ⟨i, hi⟩ := exists_mem_zipIdx hid
  have hpairs := h.pairs
  rw [← List.length_zipIdx (i := 0), List.take_length] at hpairs
  have hunique : UniqueOn Prod.fst order_ids.zipIdx := by
    unfold UniqueOn
    rw [List.zipIdx_map_fst]
    exact horders
  have hown : ((tables .order_items).rows.map itemPair).filter (fun pair => decide (pair.1 = id)) =
      pairsOf draws product_ids (id, i) := by
    rw [hpairs]
    exact filter_children (carries_pairsOf draws product_ids) hunique hi
  have hlength : (itemsOf tables id).length = (draws.sample i product_ids).length := by
    rw [List.filter_map] at hown
    have hcount := congrArg List.length hown
    rw [List.length_map, pairsOf, List.length_map] at hcount
    exact hcount
  rw [hlength]
  exact draws.sample_count i hproducts

/-- The attempts that are drawn for an order. -/
theorem retried_drawn (draw : PaymentDraw) : Retried ((List.range draw.payment_count).map fun attempt =>
    attemptStatus draw.payment_count attempt (draw.attempt attempt).status) := by
  refine ⟨?_, fun status hstatus => ?_⟩
  · rw [List.length_map, List.length_range]
    exact draw.count_range
  · obtain ⟨n, hn⟩ := Nat.exists_eq_succ_of_ne_zero (Nat.ne_of_gt draw.count_range.1)
    rw [← List.map_dropLast, hn, List.range_succ, List.dropLast_concat] at hstatus
    obtain ⟨attempt, hattempt, rfl⟩ := List.mem_map.mp hstatus
    have hlt := List.mem_range.mp hattempt
    unfold attemptStatus
    rw [if_neg (by omega), if_pos (by omega)]

theorem PaymentsInv.attempts_of {orders : List OrderRow} (horders : UniqueOn OrderRow.order_id orders)
    (h : PaymentsInv customers draws base orders orders.length tables) {o : OrderRow} (ho : o ∈ orders) :
    Retried ((sourceAttempts tables o.order_id).map PaymentRow.payment_status) := by
  obtain ⟨i, hi⟩ := exists_mem_zipIdx ho
  have hall := h.attempts
  rw [← List.length_zipIdx (i := 0), List.take_length] at hall
  have hunique : UniqueOn (fun order : OrderRow × Nat => order.1.order_id) orders.zipIdx := by
    have hmap : orders.zipIdx.map (fun order => order.1.order_id) = orders.map OrderRow.order_id := by
      rw [← Function.comp_def OrderRow.order_id Prod.fst, ← List.map_map, List.zipIdx_map_fst]
    unfold UniqueOn
    rw [hmap]
    exact horders
  have hown : ((tables .payments).rows.map orderStatus).filter (fun pair => decide (pair.1 = o.order_id)) =
      statusesOf draws (o, i) := by
    rw [hall]
    exact filter_children (carries_statusesOf draws) hunique hi
  have hstatuses : (sourceAttempts tables o.order_id).map PaymentRow.payment_status =
      (statusesOf draws (o, i)).map Prod.snd := by
    rw [← hown, List.filter_map, List.map_map]
    rfl
  rw [hstatuses, statusesOf, List.map_map]
  exact retried_drawn (draws.payment i)

/-! ## The correction -/

section Correction

theorem lineAmount_range {i : OrderItemRow} (h : ItemRange i) : 500 ≤ lineAmount i ∧ lineAmount i ≤ 1000000 := by
  obtain ⟨⟨hone, hfive⟩, hlow, hhigh⟩ := h
  unfold lineAmount
  constructor
  · calc (500 : Int) = 1 * 500 := rfl
      _ ≤ i.quantity * i.unit_price := Int.mul_le_mul hone hlow (by decide) (Int.le_trans (by decide) hone)
  · calc i.quantity * i.unit_price ≤ 5 * 200000 :=
          Int.mul_le_mul hfive hhigh (Int.le_trans (by decide) hlow) (by decide)
      _ = 1000000 := rfl

/-- The total of an order. -/
theorem Generated.total (h : Generated customers tables) {o : OrderRow} (ho : o ∈ (tables .orders).rows) :
    ∃ total, calculated_amount tables o.order_id = some total ∧ 500 ≤ total ∧ total ≤ 5000000 := by
  obtain ⟨hone, hfive⟩ := h.items o ho
  have hrange : ∀ amount ∈ (itemsOf tables o.order_id).map lineAmount, 500 ≤ amount ∧ amount ≤ 1000000 := by
    intro amount hamount
    obtain ⟨i, hi, rfl⟩ := List.mem_map.mp hamount
    exact lineAmount_range (h.range i (List.mem_of_mem_filter hi))
  have hlow := List.card_nsmul_le_sum _ _ fun amount hamount => (hrange amount hamount).1
  have hhigh := List.sum_le_card_nsmul _ _ fun amount hamount => (hrange amount hamount).2
  rw [List.length_map, nsmul_eq_mul] at hlow hhigh
  refine ⟨_, if_neg fun hempty => ?_, ?_, ?_⟩
  · rw [List.isEmpty_iff] at hempty
    rw [hempty] at hone
    exact absurd hone (by decide)
  · exact Int.le_trans (Int.mul_le_mul_of_nonneg_right (c := 500) (Int.ofNat_le.mpr hone) (by decide)) hlow
  · exact Int.le_trans hhigh (Int.mul_le_mul_of_nonneg_right (c := 1000000) (Int.ofNat_le.mpr hfive) (by decide))

/-- **The first statement succeeds**: every order gets the total of its items. -/
theorem correct_orders_spec (now : Instant) (h : Generated customers tables) : ∃ tables',
    correct_orders customers now tables = .ok tables' ∧ Admissible customers tables' ∧
      (tables' .orders).rows = (tables .orders).rows.map (correctOrder now tables) ∧
      ∀ t, t ≠ .orders → tables' t = tables t := by
  let table : Table OrderRow OrderRow.order_id := ⟨(tables .orders).rows.map (correctOrder now tables),
    (tables .orders).unique.map_proj (order_id_correctOrder now tables)⟩
  have hgrown : Grown customers tables .orders tables := ⟨h.admissible, fun _ _ => rfl⟩
  have hadmissible : Admissible customers (Function.update tables .orders table) := by
    refine h.admissible.update (fun id hid => ?_) (fun row hrow => ?_) (hgrown.pairs nofun table)
    · have hlookup : table.find? id = ((tables .orders).find? id).map (correctOrder now tables) :=
        lookup_map (order_id_correctOrder now tables)
      rw [hlookup, Option.isSome_map]
      exact hid
    · obtain ⟨o, ho, rfl⟩ := List.mem_map.mp hrow
      obtain ⟨total, htotal, hlow, hhigh⟩ := h.total ho
      obtain ⟨hcustomer, hstatus, -⟩ := (admissible_iff.mp h.admissible).1 .orders o ho
      have hnonneg : 0 ≤ total := Int.le_trans (by decide) hlow
      unfold correctOrder
      rw [htotal]
      exact ⟨hcustomer, hstatus, fitsNumeric_of_le hnonneg hhigh (by decide), hnonneg⟩
  refine ⟨_, accept_eq_ok hadmissible, hadmissible, ?_, fun t ht => Function.update_of_ne ht _ _⟩
  rw [Function.update_self]

/-- Every order has the total of its items. -/
def Totalled (tables : Source) : Prop := ∀ o ∈ (tables .orders).rows,
  calculated_amount tables o.order_id = some o.total_amount ∧ 500 ≤ o.total_amount ∧ o.total_amount ≤ 5000000

/-- **The second statement succeeds**: every payment gets the total of its order. -/
theorem correct_payments_spec (now : Instant) (h : Admissible customers tables) (htotalled : Totalled tables) : ∃ tables',
    correct_payments customers now tables = .ok tables' ∧ Admissible customers tables' ∧
      (tables' .payments).rows = (tables .payments).rows.map (correctPayment now tables) ∧
      ∀ t, t ≠ .payments → tables' t = tables t := by
  let table : Table PaymentRow PaymentRow.payment_id := ⟨(tables .payments).rows.map (correctPayment now tables),
    (tables .payments).unique.map_proj (payment_id_correctPayment now tables)⟩
  have hgrown : Grown customers tables .payments tables := ⟨h, fun _ _ => rfl⟩
  have hadmissible : Admissible customers (Function.update tables .payments table) := by
    refine h.update (fun id hid => ?_) (fun row hrow => ?_) (hgrown.pairs nofun table)
    · have hlookup : table.find? id = ((tables .payments).find? id).map (correctPayment now tables) :=
        lookup_map (payment_id_correctPayment now tables)
      rw [hlookup, Option.isSome_map]
      exact hid
    · obtain ⟨p, hp, rfl⟩ := List.mem_map.mp hrow
      obtain ⟨horder, -, -, hmethod, hstatus⟩ := (admissible_iff.mp h).1 .payments p hp
      obtain ⟨o, ho⟩ := Option.isSome_iff_exists.mp horder
      obtain ⟨-, hlow, hhigh⟩ := htotalled o (Table.find?_eq_some.mp ho).1
      unfold correctPayment
      rw [ho]
      exact ⟨horder, fitsNumeric_of_le (Int.le_trans (by decide) hlow) hhigh (by decide),
        Int.lt_of_lt_of_le (by decide) hlow, hmethod, hstatus⟩
  refine ⟨_, accept_eq_ok hadmissible, hadmissible, ?_, fun t ht => Function.update_of_ne ht _ _⟩
  rw [Function.update_self]

/-- What the script leaves. -/
structure Seeded (customers : Cdc.SourceTable) (tables : Source) : Prop where
  admissible : Admissible customers tables
  lines : LinesNonNegative tables
  totals : mismatched_orders tables = []
  amounts : ∀ p ∈ (tables .payments).rows, ∃ o, (tables .orders).find? p.order_id = some o ∧ p.amount = o.total_amount
  attempts : ∀ o ∈ (tables .orders).rows,
    Retried ((sourceAttempts tables o.order_id).map PaymentRow.payment_status)

theorem itemsOf_congr {tables' : Source} (h : tables' .order_items = tables .order_items) (order_id : Uuid) :
    itemsOf tables' order_id = itemsOf tables order_id := by
  unfold itemsOf
  rw [h]

theorem calculated_amount_congr {tables' : Source} (h : tables' .order_items = tables .order_items)
    (order_id : Uuid) : calculated_amount tables' order_id = calculated_amount tables order_id := by
  unfold calculated_amount
  rw [itemsOf_congr h]

/-- The correction leaves which order a payment is for, and its status. -/
theorem orderStatus_correctPayment (p : PaymentRow) :
    orderStatus (correctPayment now tables p) = orderStatus p := by
  unfold correctPayment
  split <;> rfl

/-- **The correction** of what the generator leaves. -/
theorem correction_spec (now : Instant) (h : Generated customers tables) : ∃ tables',
    (correct_orders customers now tables >>= correct_payments customers now) = .ok tables' ∧
      Seeded customers tables' := by
  obtain ⟨corrected, hfirst, hadmissible, horders, hothers⟩ := correct_orders_spec now h
  have hitems : corrected .order_items = tables .order_items := hothers _ nofun
  have htotalled : Totalled corrected := by
    intro o ho
    rw [horders] at ho
    obtain ⟨order, horder, rfl⟩ := List.mem_map.mp ho
    obtain ⟨total, htotal, hlow, hhigh⟩ := h.total horder
    rw [order_id_correctOrder, calculated_amount_congr hitems, htotal]
    unfold correctOrder
    rw [htotal]
    exact ⟨rfl, hlow, hhigh⟩
  obtain ⟨tables', hsecond, hadmissible', hpayments, hothers'⟩ := correct_payments_spec now hadmissible htotalled
  have horders' : tables' .orders = corrected .orders := hothers' _ nofun
  have hitems' : tables' .order_items = corrected .order_items := hothers' _ nofun
  refine ⟨tables', ?_, hadmissible', fun i hi => ?_, ?_, fun p hp => ?_, fun o ho => ?_⟩
  · rw [hfirst]
    exact hsecond
  · rw [hitems', hitems] at hi
    obtain ⟨⟨hone, -⟩, hlow, -⟩ := h.range i hi
    exact ⟨Int.le_trans (by decide) hone, Int.le_trans (by decide) hlow⟩
  · refine List.filter_eq_nil_iff.mpr fun o ho => ?_
    rw [horders'] at ho
    rw [calculated_amount_congr hitems', (htotalled o ho).1, Option.any_some]
    exact fun hne => of_decide_eq_true hne rfl
  · rw [hpayments] at hp
    obtain ⟨payment, hpayment, rfl⟩ := List.mem_map.mp hp
    obtain ⟨o, ho⟩ := Option.isSome_iff_exists.mp (hadmissible.foreign_keys.payments_order_id_fk payment hpayment)
    have hid : (correctPayment now corrected payment).order_id = payment.order_id :=
      congrArg Prod.fst (orderStatus_correctPayment payment)
    refine ⟨o, ?_, ?_⟩
    · rw [horders', hid]
      exact ho
    · unfold correctPayment
      rw [ho]
  · rw [horders', horders] at ho
    obtain ⟨order, horder, rfl⟩ := List.mem_map.mp ho
    have hkept : corrected .payments = tables .payments := hothers _ nofun
    have hsame : ((tables' .payments).rows.map orderStatus) = (tables .payments).rows.map orderStatus := by
      rw [hpayments, hkept, List.map_map]
      exact List.map_congr_left fun p _ => orderStatus_correctPayment p
    have hstatuses : ∀ tables : Source, (sourceAttempts tables order.order_id).map PaymentRow.payment_status =
        (((tables .payments).rows.map orderStatus).filter fun pair =>
          decide (pair.1 = order.order_id)).map Prod.snd := by
      intro tables
      rw [List.filter_map, List.map_map]
      rfl
    rw [order_id_correctOrder, hstatuses, hsame, ← hstatuses]
    exact h.attempts order horder

end Correction

/-! ## The whole script -/

/-- A source without orders has no items and no payments. -/
theorem no_children (h : Admissible customers tables) (hnone : (tables .orders).rows = []) :
    (tables .order_items).rows = [] ∧ (tables .payments).rows = [] := by
  have hfind : ∀ id, ((tables .orders).find? id).isSome = false := by
    intro id
    unfold Table.find?
    rw [hnone]
    rfl
  constructor
  · refine List.eq_nil_iff_forall_not_mem.mpr fun i hi => ?_
    exact absurd ((hfind _).symm.trans (h.foreign_keys.order_items_order_fk i hi)) nofun
  · refine List.eq_nil_iff_forall_not_mem.mpr fun p hp => ?_
    exact absurd ((hfind _).symm.trans (h.foreign_keys.payments_order_id_fk p hp)) nofun

/-- The items, the payments and the correction, over orders that have neither. -/
theorem children_spec (gen_random_uuid : TableName → Nat → Uuid) (draws : Draws) (now : Instant)
    (h : Admissible customers tables) (hpositive : AmountsPositive tables)
    (hproducts : 5 ≤ (tables .products).rows.length) (hitems : (tables .order_items).rows = [])
    (hpayments : (tables .payments).rows = []) :
    Yields DuplicateKey (Generated customers) (do
      let tables ← generate_order_items customers gen_random_uuid draws now (load_ids tables).1 (load_ids tables).2 tables
      generate_payments customers gen_random_uuid draws now (tables .orders).rows tables) := by
  have horderIds : (load_ids tables).1.Nodup := (tables .orders).unique
  have hproductIds : (load_ids tables).2.Nodup := (tables .products).unique
  have hstart : ItemsInv customers draws tables (load_ids tables).1 (load_ids tables).2 0 tables := by
    refine ⟨⟨h, fun _ _ => rfl⟩, ?_, fun i hi => ?_⟩
    · rw [hitems]
      rfl
    · rw [hitems] at hi
      cases hi
  refine (generate_order_items_spec horderIds hproductIds (fun id hid => lookup_isSome.mpr (List.mem_map.mp hid))
    (fun id hid => lookup_isSome.mpr (List.mem_map.mp hid)) hstart).bind fun tables₁ hinv => ?_
  have horders₁ : tables₁ .orders = tables .orders := hinv.grown.others _ nofun
  have hpayments₁ : tables₁ .payments = tables .payments := hinv.grown.others _ nofun
  have hpositive₁ : AmountsPositive tables₁ := by
    unfold AmountsPositive
    rw [horders₁]
    exact hpositive
  have hnext : PaymentsInv customers draws tables₁ (tables₁ .orders).rows 0 tables₁ := by
    refine ⟨⟨hinv.grown.admissible, fun _ _ => rfl⟩, ?_⟩
    rw [hpayments₁, hpayments]
    rfl
  refine (generate_payments_spec (fun _ ho => ho) hinv.grown.admissible hpositive₁ hnext).mono fun tables₂ hinv₂ => ?_
  have horders₂ : tables₂ .orders = tables₁ .orders := hinv₂.grown.others _ nofun
  have hitems₂ : tables₂ .order_items = tables₁ .order_items := hinv₂.grown.others _ nofun
  refine ⟨hinv₂.grown.admissible, fun o ho => ?_, fun i hi => ?_, fun o ho => ?_⟩
  · rw [itemsOf_congr hitems₂]
    refine hinv.items horderIds ?_ ?_
    · rw [load_ids, List.length_map]
      exact hproducts
    · rw [horders₂, horders₁] at ho
      exact List.mem_map_of_mem ho
  · rw [hitems₂] at hi
    exact hinv.range i hi
  · rw [horders₂] at ho
    exact hinv₂.attempts_of (tables₁ .orders).unique ho

/-- What the script leaves, whatever is drawn. -/
theorem main_spec (customers : Cdc.SourceTable) (gen_random_uuid : TableName → Nat → Uuid)
    (customer_uuid : Nat → Uuid) (draws : Draws) (now : Instant) (tables : Source)
    (h : Admissible customers tables) (hcustomers : CustomersAdmissible customers)
    (hnone : (tables .orders).rows = []) :
    Yields (Refused customers draws) (fun p => CustomersAdmissible p.1 ∧ Seeded p.1 p.2)
      (main customers gen_random_uuid customer_uuid draws now tables) := by
  have hrefused : ∀ e, DuplicateKey e → Refused customers draws e := fun _ he => Or.inl he
  obtain ⟨hitems, hpayments⟩ := no_children h hnone
  refine ((generate_products_spec h).weaken hrefused).bind fun tables₁ ⟨hgrown₁, hproducts⟩ => ?_
  have hnone₁ : AmountsPositive tables₁ := by
    unfold AmountsPositive
    rw [hgrown₁.others .orders nofun, hnone]
    exact nofun
  refine (generate_customers_spec hcustomers).bind fun customers₁ hinv => ?_
  have hadmissible₁ : Admissible customers₁ tables₁ := hgrown₁.admissible.of_customers hinv.keeps
  refine ((generate_orders_spec hinv.rows_ne_nil hadmissible₁ hnone₁).weaken hrefused).bind
    fun tables₂ ⟨hgrown₂, hpositive⟩ => ?_
  have hchildren := children_spec gen_random_uuid draws now hgrown₂.admissible hpositive ?_ ?_ ?_
  · have hcorrected := (hchildren.weaken hrefused).bind (f := fun tables => correct_orders customers₁ now tables >>=
        fun tables => correct_payments customers₁ now tables >>= fun tables => pure (customers₁, tables))
        (P := fun p => CustomersAdmissible p.1 ∧ Seeded p.1 p.2) fun tables₃ hgenerated => by
      obtain ⟨tables', he, hseeded⟩ := correction_spec now hgenerated
      rw [← bind_assoc, he]
      exact yields_ok ⟨hinv.admissible, hseeded⟩
    rw [bind_assoc] at hcorrected
    exact hcorrected
  · rw [hgrown₂.others .products nofun]
    exact hproducts
  · rw [hgrown₂.others .order_items nofun, hgrown₁.others .order_items nofun]
    exact hitems
  · rw [hgrown₂.others .payments nofun, hgrown₁.others .payments nofun]
    exact hpayments

/-- What the attempts say of the payment status: paid at once, or failed before. -/
theorem status_of_retried {attempts : List PaymentRow} (h : Retried (attempts.map PaymentRow.payment_status)) :
    (sourcePaymentStatus attempts = .paid → attempts.length = 1) ∧
      (sourcePaymentStatus attempts = .partially_paid → 2 ≤ attempts.length) := by
  obtain ⟨⟨hone, -⟩, hfailed⟩ := h
  rw [List.length_map] at hone
  unfold sourcePaymentStatus
  cases attempts with
  | nil => exact absurd hone (by decide)
  | cons first rest =>
    rw [if_neg (by exact Bool.false_ne_true)]
    cases rest with
    | nil =>
      refine ⟨fun _ => rfl, fun hpartial => ?_⟩
      rw [List.all_cons, List.all_nil, List.any_cons, List.any_nil, Bool.and_true, Bool.or_false] at hpartial
      split at hpartial <;> cases hpartial
    | cons second rest =>
      -- the first attempt is not the last one
      have hfirst : first.payment_status = "failed" := by
        refine hfailed _ ?_
        rw [List.map_cons, List.map_cons, List.dropLast_cons_cons]
        exact List.mem_cons_self
      have hnot : (first :: second :: rest).all (fun p => p.payment_status == "completed") = false := by
        rw [List.all_cons, hfirst]
        rfl
      rw [hnot]
      refine ⟨fun hpaid => ?_, fun _ => by rw [List.length_cons, List.length_cons]; omega⟩
      rw [if_neg Bool.false_ne_true] at hpaid
      split at hpaid <;> cases hpaid

/-- The sales of a seeded source. -/
theorem Seeded.payment_status (h : Seeded customers tables) {line : SalesItem} (hline : line ∈ directSales tables) :
    (line.payment_status = .paid → line.payment_attempt_count = 1) ∧
      (line.payment_status = .partially_paid → 2 ≤ line.payment_attempt_count) := by
  obtain ⟨item, -, hline⟩ := List.mem_filterMap.mp hline
  obtain ⟨order, horder, rfl⟩ := Option.map_eq_some_iff.mp hline
  exact status_of_retried (h.attempts order (Table.find?_eq_some.mp horder).1)

/-- **Whatever is drawn over a database without orders, nothing but a key that is returned twice, or the
address of a customer that was there, refuses a row.**  The source that is left meets its constraints, its
totals match, all attempts to pay an order but the last have failed, and so no order that was retried counts
as paid. -/
theorem main_seeded (customers : Cdc.SourceTable) (gen_random_uuid : TableName → Nat → Uuid)
    (customer_uuid : Nat → Uuid) (draws : Draws) (now : Instant) (tables : Source)
    (h : Admissible customers tables) (hcustomers : CustomersAdmissible customers)
    (hnone : (tables .orders).rows = []) :
    Yields (Refused customers draws)
      (fun p => CustomersAdmissible p.1 ∧ Seeded p.1 p.2 ∧ ∀ line ∈ directSales p.2,
        (line.payment_status = .paid → line.payment_attempt_count = 1) ∧
          (line.payment_status = .partially_paid → 2 ≤ line.payment_attempt_count))
      (main customers gen_random_uuid customer_uuid draws now tables) :=
  (main_spec customers gen_random_uuid customer_uuid draws now tables h hcustomers hnone).mono
    fun _ ⟨hadmissible, hseeded⟩ => ⟨hadmissible, hseeded, fun _ hline => hseeded.payment_status hline⟩

end Spec

/-! ## An empty source -/

/-- The customer at a position, with its own address. -/
def sampleCustomerDraw (i : Nat) : CustomerDraw where
  first_name := "Ann"
  last_name := "Lee"
  email := (i % TOTAL_CUSTOMERS).repr
  first_name_fits := by decide
  last_name_fits := by decide
  email_fits := by
    have hlt : i % TOTAL_CUSTOMERS < 10 ^ 5 := Nat.mod_lt i (by decide)
    exact Nat.le_trans ((Nat.length_repr_le_iff (by decide)).mpr hlt) (by decide)

/-- One product for every order, paid at the second attempt. -/
def sampleDraws : Draws where
  product _ := ⟨"Laptop", "Electronics", 2000, by decide, by decide, by decide⟩
  newCustomer := sampleCustomerDraw
  email_unique i j hi hj he := by
    have hmod := Nat.repr_injective he
    rwa [Nat.mod_eq_of_lt hi, Nat.mod_eq_of_lt hj] at hmod
  customer _ customer_ids := customer_ids.headD 0
  order _ := ⟨0, "confirmed", 2000, by decide, by decide⟩
  sample _ product_ids := product_ids.take 1
  item _ _ := ⟨1, 2000, by decide, by decide⟩
  payment _ := ⟨2, fun _ => ⟨"completed", "cash", 1, by decide, by decide, by decide⟩, by decide⟩
  customer_mem _ customer_ids h := by
    cases customer_ids with
    | nil => exact absurd rfl h
    | cons id ids => exact List.mem_cons_self
  sample_subperm _ product_ids := (List.take_sublist 1 product_ids).subperm
  sample_count _ product_ids h := by
    rw [List.length_take]
    omega

theorem admissible_empty : Admissible Table.empty fun _ => Table.empty :=
  admissible_iff.mpr ⟨fun _ _ h => absurd h List.not_mem_nil, UniqueOn.nil⟩

theorem main_seeded_empty : Yields (Refused Table.empty sampleDraws)
    (fun p => CustomersAdmissible p.1 ∧ Seeded p.1 p.2 ∧ ∀ line ∈ directSales p.2,
      (line.payment_status = .paid → line.payment_attempt_count = 1) ∧
        (line.payment_status = .partially_paid → 2 ≤ line.payment_attempt_count))
    (main Table.empty (fun _ n => BitVec.ofNat 128 n) (BitVec.ofNat 128) sampleDraws 10 fun _ => Table.empty) :=
  main_seeded Table.empty (fun _ n => BitVec.ofNat 128 n) (BitVec.ofNat 128) sampleDraws 10 (fun _ => Table.empty)
    admissible_empty ⟨nofun, UniqueOn.nil⟩ rfl

end LocalDataPlatform.Pipeline.DataGenerator

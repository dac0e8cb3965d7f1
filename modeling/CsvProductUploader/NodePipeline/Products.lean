import CsvProductUploader.Lib.Checks
import CsvProductUploader.Lib.Ties
import CsvProductUploader.NodePipeline.Validation
import Mathlib.Data.List.Lex

/-!
# Product pages of the NestJS API

`ProductsService.findAll` filters the products, counts them, and returns one window of them in
the order of one column.  Nothing orders products that agree in that column, and the database
may do so in another way for every page.

## Main definitions

* `Product`, `ProductTable`, `GetProductsDto` — the table and a request as the pipe lets it pass.
* `Database` — how the database compares texts and reads parameters.
* `filtered`, `findAll` — the rows that match, and the service.
* `Partitioned` — the pages up to the last contain every matching product once.

## Main results

* `findAll_eq_some_iff` — the page that is answered.
* `partitioned_iff` — the pages contain every product once exactly if none ends among products
  that the sort column does not tell apart; `partitioned_iff_lamps` — one table.
* `not_partitioned` — two products of one name.
-/

namespace CsvProductUploader.NodePipeline

open Checks Paging

/-! ### The table -/

/-- A row of `products`. -/
structure Product where
  id : JsString
  name : JsString
  /-- `DECIMAL(10, 2)` -/
  price : ℚ
  /-- The day, counted from 1970-01-01. -/
  expirationDate : ℤ
  uploadBatchId : JsString
  userId : Option JsString
  createdAt : ℤ
  deriving DecidableEq

/-- The products, whose primary key is the id. -/
structure ProductTable where
  rows : List Product
  nodup : (rows.map Product.id).Nodup
  /-- Rows are counted in `bigint`. -/
  length_lt : rows.length < 2 ^ 63

/-- What the database does with texts.  A deterministic collation orders them by keys that tell
any two of them apart. -/
structure Database (τ : Type) where
  sortKey : JsString → τ
  injective : Function.Injective sortKey
  /-- `LOWER(text) LIKE LOWER(pattern)` -/
  like : JsString → JsString → Bool
  /-- A parameter that is compared with a `DATE`; `none` is an error. -/
  castDate : JsString → Option ℤ
  /-- A parameter that is compared with a `UUID`. -/
  castUUID : JsString → Option JsString

/-! ### Requests -/

inductive SortBy
  | name
  | price
  | expirationDate
  deriving DecidableEq, Repr

inductive SortOrder
  | asc
  | desc
  deriving DecidableEq, Repr

/-- A request that the validation pipe lets pass, with its defaults filled in. -/
structure GetProductsDto where
  page : ℕ
  page_pos : 1 ≤ page
  limit : ℕ
  limit_pos : 1 ≤ limit
  sortBy : SortBy
  sortOrder : SortOrder
  filterName : Option JsString
  priceMin : Option ℚ
  priceMax : Option ℚ
  expirationFrom : Option JsString
  expirationTo : Option JsString
  batchId : Option JsString
  userId : Option JsString
  deriving DecidableEq

/-- A request with the defaults. -/
def defaultQuery : GetProductsDto :=
  ⟨1, le_rfl, 50, by omega, .name, .asc, none, none, none, none, none, none, none⟩

/-- The same request for another page. -/
def GetProductsDto.at (q : GetProductsDto) (page : ℕ) (h : 1 ≤ page) : GetProductsDto :=
  { q with page := page, page_pos := h }

section
variable {τ : Type} [LinearOrder τ] (db : Database τ)

/-- The column of the `ORDER BY` clause. -/
def orderBy (q : GetProductsDto) : Product → Product → Bool :=
  let column : Product → Product → Bool :=
    match q.sortBy with
    | .name => byKey fun p => db.sortKey p.name
    | .price => byKey Product.price
    | .expirationDate => byKey Product.expirationDate
  match q.sortOrder with
  | .asc => column
  | .desc => descending column

theorem ranks_orderBy (q : GetProductsDto) : Ranks (orderBy db q) := by
  unfold orderBy
  cases q.sortOrder with
  | asc => cases q.sortBy <;> exact Ranks.byKey _
  | desc => cases q.sortBy <;> exact (Ranks.byKey _).descending

/-- A parameter that is left out, or an empty text, is no filter; one that the database cannot
read is an error. -/
def optional {α : Type} (cast : JsString → Option α) : Option JsString → Option (Option α)
  | none => some none
  | some s => if s = [] then some none else (cast s).map some

/-- A text parameter. -/
def castText (s : JsString) : Option JsString := if 0 ∈ s then none else some s

/-- Whether a condition holds, if there is one. -/
def holds {α : Type} (cond : α → Bool) : Option α → Bool
  | none => true
  | some a => cond a

/-- The rows that the `WHERE` clause selects. -/
def filtered (t : ProductTable) (q : GetProductsDto) : Option (List Product) := do
  let filterName ← optional castText q.filterName
  let expirationFrom ← optional db.castDate q.expirationFrom
  let expirationTo ← optional db.castDate q.expirationTo
  let batchId ← optional db.castUUID q.batchId
  let userId ← optional db.castUUID q.userId
  return t.rows.filter fun p =>
    holds (fun name => db.like p.name (js "%" ++ name ++ js "%")) filterName &&
      holds (fun priceMin => decide (priceMin ≤ p.price)) q.priceMin &&
      holds (fun priceMax => decide (p.price ≤ priceMax)) q.priceMax &&
      holds (fun day => decide (day ≤ p.expirationDate)) expirationFrom &&
      holds (fun day => decide (p.expirationDate ≤ day)) expirationTo &&
      holds (fun batch => decide (p.uploadBatchId = batch)) batchId &&
      holds (fun user => decide (p.userId = some user)) userId

/-! ### `findAll` -/

structure ProductWithRates where
  id : JsString
  name : JsString
  price : Number
  expirationDate : ℤ
  uploadDate : ℤ
  exchangeRates : List (JsString × Number)
  deriving DecidableEq

structure PaginatedResponse where
  data : List ProductWithRates
  page : ℕ
  limit : ℕ
  total : ℕ
  totalPages : ℕ
  deriving DecidableEq

/-- The exchange rates of a batch, and a price in another currency,
`Math.round(price * rate * 100) / 100`. -/
structure Rates where
  ofBatch : JsString → List (JsString × Number)
  convert : Number → Number → Number

/-- A product as it is shown. -/
def productWithRates (e : Engine) (rates : Rates) (p : Product) : ProductWithRates where
  id := p.id
  name := p.name
  price := e.round p.price
  expirationDate := p.expirationDate
  uploadDate := p.createdAt
  exchangeRates := (rates.ofBatch p.uploadBatchId).map fun (currency, rate) =>
    (currency, rates.convert (e.round p.price) rate)

/-- `ProductsService.findAll`, where the database sorts as `s` does; `none` is a query that
fails.  `LIMIT` and `OFFSET` are `bigint`. -/
def findAll (e : Engine) (rates : Rates) (s : Sorter Product) (t : ProductTable)
    (q : GetProductsDto) : Option PaginatedResponse := do
  let rows ← filtered db t q
  let total := rows.length
  let skip := (q.page - 1) * q.limit
  if q.limit < 2 ^ 63 ∧ skip < 2 ^ 63 then
    let products := window q.limit skip (s.sort (orderBy db q) rows)
    some {
      data := products.map (productWithRates e rates)
      page := q.page
      limit := q.limit
      total := total
      totalPages := pageCount q.limit total }
  else none

variable {db} {e : Engine} {rates : Rates} {t : ProductTable} {q : GetProductsDto}

/-- **The page that is answered.** -/
theorem findAll_eq_some_iff {s : Sorter Product} {res : PaginatedResponse} :
    findAll db e rates s t q = some res ↔
      ∃ rows, filtered db t q = some rows ∧ q.limit < 2 ^ 63 ∧ (q.page - 1) * q.limit < 2 ^ 63 ∧
        res = ⟨(window q.limit ((q.page - 1) * q.limit) (s.sort (orderBy db q) rows)).map
          (productWithRates e rates), q.page, q.limit, rows.length,
          pageCount q.limit rows.length⟩ := by
  rw [findAll, Option.bind_eq_bind, Option.bind_eq_some_iff]
  refine exists_congr fun rows => and_congr_right fun _ => ?_
  dsimp only
  split
  · next hsize =>
    rw [Option.some.injEq, eq_comm]
    simp only [hsize.1, hsize.2, true_and]
  · next hsize =>
    refine iff_of_false (Option.some_ne_none _).symm ?_
    rintro ⟨hlimit, hskip, -⟩
    exact hsize ⟨hlimit, hskip⟩

omit [LinearOrder τ] in
theorem sublist_of_filtered {rows : List Product} (h : filtered db t q = some rows) :
    rows.Sublist t.rows := by
  simp only [filtered, Option.bind_eq_bind, Option.bind_eq_some_iff] at h
  obtain ⟨_, -, _, -, _, -, _, -, _, -, hrows⟩ := h
  rw [← Option.some.inj hrows]
  exact List.filter_sublist

/-- What the pages `1` to `last` show, one after another; the database sorts anew for each. -/
def allData (db : Database τ) (e : Engine) (rates : Rates) (s : ℕ → Sorter Product)
    (t : ProductTable) (q : GetProductsDto) (last : ℕ) : List ProductWithRates :=
  (List.range last).flatMap fun k =>
    (findAll db e rates (s k) t (q.at (k + 1) (Nat.succ_pos k))).elim [] PaginatedResponse.data

/-- Whatever order ties have in each of them, the pages contain every matching product once. -/
def Partitioned (db : Database τ) (e : Engine) (rates : Rates) (t : ProductTable)
    (q : GetProductsDto) (totalPages : ℕ) : Prop :=
  ∃ rows, filtered db t q = some rows ∧ ∀ s : ℕ → Sorter Product,
    (allData db e rates s t q totalPages).Perm (rows.map (productWithRates e rates))

/-- No page ends among products that the sort column does not tell apart. -/
def EndsBetween (db : Database τ) (t : ProductTable) (q : GetProductsDto) : Prop :=
  ∃ rows, filtered db t q = some rows ∧ Parted (orderBy db q) q.limit rows

/-- The pages are windows of the result, each sorted in its own way. -/
theorem allData_eq {rows : List Product} (hrows : filtered db t q = some rows)
    (hlimit : q.limit < 2 ^ 63) (s : ℕ → Sorter Product) :
    allData db e rates s t q (pageCount q.limit rows.length) =
      (pages (orderBy db q) q.limit rows s).map (productWithRates e rates) := by
  rw [allData, pages, List.map_flatMap]
  refine List.flatMap_congr fun k hk => ?_
  have hlt := lt_of_lt_pageCount q.limit_pos (List.mem_range.mp hk)
  have hle := (sublist_of_filtered hrows).length_le
  have hbound := t.length_lt
  have hok : findAll db e rates (s k) t (q.at (k + 1) (Nat.succ_pos k)) = some _ :=
    findAll_eq_some_iff.mpr ⟨rows, hrows, hlimit, (by show k * q.limit < _; omega), rfl⟩
  rw [hok]
  rfl

theorem endsBetween_of_partitioned {rows : List Product} (hrows : filtered db t q = some rows)
    (hlimit : q.limit < 2 ^ 63)
    (h : Partitioned db e rates t q (pageCount q.limit rows.length)) : EndsBetween db t q := by
  have hnodup : (rows.map Product.id).Nodup :=
    t.nodup.sublist ((sublist_of_filtered hrows).map _)
  obtain ⟨rows', hrows', hperm⟩ := h
  obtain rfl := Option.some.inj (hrows.symm.trans hrows')
  refine ⟨rows, hrows, parted_of_nodup (ranks_orderBy db q) q.limit_pos fun s => ?_⟩
  have hids := (hperm s).map ProductWithRates.id
  rw [allData_eq hrows hlimit, List.map_map, List.map_map] at hids
  exact (hids.nodup_iff.mpr hnodup).of_map _

theorem partitioned_of_endsBetween {rows : List Product} (hrows : filtered db t q = some rows)
    (hlimit : q.limit < 2 ^ 63) (h : EndsBetween db t q) :
    Partitioned db e rates t q (pageCount q.limit rows.length) := by
  have hnodup : (rows.map Product.id).Nodup :=
    t.nodup.sublist ((sublist_of_filtered hrows).map _)
  obtain ⟨rows', hrows', hparted⟩ := h
  obtain rfl := Option.some.inj (hrows.symm.trans hrows')
  refine ⟨rows, hrows, fun s => ?_⟩
  rw [allData_eq hrows hlimit]
  exact (hparted.pages_perm (ranks_orderBy db q) (hnodup.of_map _) q.limit_pos s).map _

/-- **The pages contain every matching product once exactly if none ends among products that the
sort column does not tell apart.** -/
theorem partitioned_iff {s : Sorter Product} {res : PaginatedResponse}
    (h : findAll db e rates s t q = some res) :
    Partitioned db e rates t q res.totalPages ↔ EndsBetween db t q := by
  obtain ⟨rows, hrows, hlimit, -, rfl⟩ := findAll_eq_some_iff.mp h
  exact ⟨endsBetween_of_partitioned hrows hlimit, partitioned_of_endsBetween hrows hlimit⟩

end

/-! ### Two tables -/

/-- Texts by their units, matched as a whole. -/
def plainDatabase : Database (List ℕ) where
  sortKey s := s.map UInt16.toNat
  injective := List.map_injective_iff.mpr fun _ _ h => UInt16.toNat_inj.mp h
  like text pattern := text = pattern
  castDate _ := none
  castUUID := some

def exactEngine : Engine := ⟨.finite, fun day => 86400000 * day⟩

def noRates : Rates := ⟨fun _ => [], fun price _ => price⟩

def product (id name : String) (price : ℚ) : Product :=
  ⟨js id, js name, price, 20000, js "b", none, 0⟩

/-- Three products, of which two have one name. -/
def lamps : ProductTable where
  rows := [product "1" "Lamp" 5, product "2" "Mug" 6, product "3" "Lamp" 7]
  nodup := by decide
  length_lt := by decide

/-- The request for so many products to a page. -/
def byLimit (limit : ℕ) (h : 1 ≤ limit) : GetProductsDto :=
  { defaultQuery with limit := limit, limit_pos := h }

/-- With two products to a page the lamps are on the first. -/
theorem partitioned_iff_lamps :
    Partitioned plainDatabase exactEngine noRates lamps (byLimit 2 (by omega)) 2 := by
  have hok : findAll plainDatabase exactEngine noRates (insertionSorter Product) lamps
      (byLimit 2 (by omega)) = some _ := rfl
  exact (partitioned_iff hok).mpr ⟨lamps.rows, rfl, by decide⟩

/-- **With one product to a page, a lamp may be shown twice and the other never.** -/
theorem not_partitioned :
    ¬∀ (t : ProductTable) (q : GetProductsDto) (s : Sorter Product) (res : PaginatedResponse),
      findAll plainDatabase exactEngine noRates s t q = some res →
        Partitioned plainDatabase exactEngine noRates t q res.totalPages := by
  intro h
  have hpartitioned := h lamps (byLimit 1 (by omega)) (insertionSorter Product) _ rfl
  obtain ⟨rows, hrows, hparted⟩ :=
    endsBetween_of_partitioned (t := lamps) rfl (by decide) hpartitioned
  obtain rfl := Option.some.inj hrows
  exact absurd hparted (by decide)

end CsvProductUploader.NodePipeline

import CsvProductUploader.Lib.Paging
import CsvProductUploader.Postgres.Products
import Mathlib.Data.List.Dedup
import Mathlib.Data.Prod.Lex

/-!
# Queries of the product projection

`ProjectionStore.ListProducts` selects the products of one import from `product_projection`,
counts them, and returns one window of them in the requested order.  How the server sorts is
left to it, from one query to the next.

## Main definitions

* `TextRules` — how the database compares and matches texts.
* `ProjectedRow`, `ProductProjection` — the table, with one row for each natural key.
* `ProductProjection.Holds` — it has the rows that `UpsertProducts` has left.
* `SortColumn`, `orderBy` — the `ORDER BY` clause.
* `matching`, `listProducts` — the two queries.

## Main results

* `holds_upsertProducts` — what the upserts leave is a table of this kind.
* `ranks_orderBy`, `orderBy_antisymm` — the order leaves no two products of the table tied.
* `listProducts_eq_ok_iff` — the answer is a window of the one ordered result.
-/

namespace CsvProductUploader

open Checks Paging

/-! ### The table -/

/-- How the database orders texts and matches them against patterns.  A deterministic collation
orders texts by keys that tell any two of them apart. -/
structure TextRules (τ : Type) where
  sortKey : GoString → τ
  injective : Function.Injective sortKey
  /-- `text ILIKE pattern` -/
  ilike : GoString → GoString → Bool

/-- A row of `product_projection`, less the times. -/
structure ProjectedRow where
  merchantID : GoString
  productID : GoString
  name : GoString
  priceCents : ℤ
  currency : GoString
  expirationDate : Option Date
  sourceJobID : Option GoString
  deriving DecidableEq, Repr

/-- The natural key. -/
def ProjectedRow.key (row : ProjectedRow) : GoString × GoString := (row.merchantID, row.productID)

/-- `product_projection`, whose primary key is the natural key. -/
structure ProductProjection where
  rows : List ProjectedRow
  nodup : (rows.map ProjectedRow.key).Nodup

/-- The row that a stored product is. -/
def ProjectedRow.of (key : GoString × GoString) (v : Stored ℤ) : ProjectedRow where
  merchantID := key.1
  productID := key.2
  name := v.name
  priceCents := v.priceCents
  currency := v.currency
  expirationDate := v.expirationDate
  sourceJobID := some v.sourceJobID

/-- The rows are those of the table that the upserts write. -/
def ProductProjection.Holds (p : ProductProjection) (t : Table ℤ) : Prop :=
  ∀ row, row ∈ p.rows ↔ ∃ v, t row.key = some v ∧ row = .of row.key v

/-- A table that has rows at the given keys only. -/
theorem exists_holds {t : Table ℤ} {keys : List (GoString × GoString)}
    (h : ∀ k v, t k = some v → k ∈ keys) : ∃ p : ProductProjection, p.Holds t := by
  have hkeys : ∀ l : List (GoString × GoString),
      (l.filterMap fun k => (t k).map (.of k)).map ProjectedRow.key =
        l.filter fun k => (t k).isSome := by
    intro l
    induction l with
    | nil => rfl
    | cons k l ih =>
      cases hk : t k with
      | none => simpa [hk] using ih
      | some v => simpa [hk, ProjectedRow.key, ProjectedRow.of] using ih
  refine ⟨⟨keys.dedup.filterMap fun k => (t k).map (.of k), ?_⟩, fun row => ?_⟩
  · rw [hkeys]
    exact (List.nodup_dedup keys).filter _
  · simp only [List.mem_filterMap, List.mem_dedup, Option.map_eq_some_iff]
    constructor
    · rintro ⟨k, -, v, hv, rfl⟩
      exact ⟨v, hv, rfl⟩
    · rintro ⟨v, hv, hrow⟩
      exact ⟨row.key, h _ v hv, v, hv, hrow.symm⟩

theorem holds_empty : (ProductProjection.mk [] List.nodup_nil).Holds fun _ => none := by
  intro row
  simp

/-- **What the upserts leave is such a table.** -/
theorem holds_upsertProducts {d : Dialect} {t t' : Table ℤ} {evts : List ProductImported}
    {p : ProductProjection} (hp : p.Holds t) (h : upsertProducts d t evts = .ok t') :
    ∃ p' : ProductProjection, p'.Holds t' := by
  have hup : t' = putAll Tuple.key (stored d projectionSchema) t (evts.map tupleOfEvent) :=
    upsert_eq_putAll (mapError_eq_ok_iff.mp h)
  refine @exists_holds t' (p.rows.map ProjectedRow.key ++ (evts.map tupleOfEvent).map Tuple.key)
    fun k v hv => ?_
  by_contra hk
  rw [List.mem_append, not_or] at hk
  have hnew : ∀ r ∈ evts.map tupleOfEvent, r.key ≠ k := fun r hr heq =>
    hk.2 (heq ▸ List.mem_map_of_mem hr)
  rw [hup, putAll_of_forall_ne hnew] at hv
  exact hk.1 (List.mem_map.mpr ⟨.of k v, (hp _).mpr ⟨v, hv, rfl⟩, rfl⟩)

/-! ### The order -/

inductive SortColumn
  | name
  | priceCents
  | expirationDate
  deriving DecidableEq, Repr

/-- `projectionSortColumns`, with the default for what it does not list. -/
def projectionSortColumns (sortBy : GoString) : SortColumn :=
  if sortBy = lit "price" then .priceCents
  else if sortBy = lit "expiration" then .expirationDate
  else .name

/-- Dates by their days. -/
def Date.key (e : Date) : ℕ ×ₗ ℕ ×ₗ ℕ := toLex (e.year, toLex (e.month, e.day))

/-- `ASC` or `DESC`. -/
def directed {α : Type} (desc : Bool) (le : α → α → Bool) : α → α → Bool :=
  if desc then descending le else le

section
variable {τ : Type} [LinearOrder τ] (txt : TextRules τ)

/-- `ORDER BY %s %s NULLS LAST` -/
def SortColumn.order (desc : Bool) : SortColumn → ProjectedRow → ProjectedRow → Bool
  | .name => directed desc (byKey fun row => txt.sortKey row.name)
  | .priceCents => directed desc (byKey ProjectedRow.priceCents)
  | .expirationDate => nullsLast (directed desc (byKey Date.key)) ProjectedRow.expirationDate

/-- `ORDER BY %s %s NULLS LAST, merchant_id, product_id` -/
def orderBy (column : SortColumn) (desc : Bool) : ProjectedRow → ProjectedRow → Bool :=
  thenBy (column.order txt desc)
    (thenBy (byKey fun row => txt.sortKey row.merchantID)
      (byKey fun row => txt.sortKey row.productID))

theorem ranks_directed {α : Type} {le : α → α → Bool} (h : Ranks le) (desc : Bool) :
    Ranks (directed desc le) := by
  cases desc with
  | false => exact h
  | true => exact h.descending

theorem ranks_orderBy (column : SortColumn) (desc : Bool) : Ranks (orderBy txt column desc) := by
  refine Ranks.thenBy ?_ ((Ranks.byKey _).thenBy (Ranks.byKey _))
  cases column with
  | name => exact ranks_directed (Ranks.byKey _) desc
  | priceCents => exact ranks_directed (Ranks.byKey _) desc
  | expirationDate => exact (ranks_directed (Ranks.byKey _) desc).nullsLast _

/-- Two rows that the order does not tell apart have one natural key. -/
theorem orderBy_antisymm {column : SortColumn} {desc : Bool} {a b : ProjectedRow}
    (hab : orderBy txt column desc a b = true) (hba : orderBy txt column desc b a = true) :
    a.key = b.key := by
  obtain ⟨hab, hba⟩ := thenBy_antisymm hab hba
  have hmerchant := byKey_antisymm (thenBy_eq_true.mp hab).1 (thenBy_eq_true.mp hba).1
  obtain ⟨hab, hba⟩ := thenBy_antisymm hab hba
  have hproduct := byKey_antisymm hab hba
  exact Prod.ext (txt.injective hmerchant) (txt.injective hproduct)

/-! ### The queries -/

structure ProductQuery where
  filterName : GoString
  sortBy : GoString
  sortOrder : GoString
  limit : ℤ
  offset : ℤ
  deriving DecidableEq, Repr

/-- The rows that the `WHERE` clause selects. -/
def matching (p : ProductProjection) (id filterName : GoString) : List ProjectedRow :=
  p.rows.filter fun row => row.sourceJobID = some id ∧
    (filterName = [] ∨ txt.ilike row.name (lit "%" ++ filterName ++ lit "%") = true)

/-- A row as it is scanned. -/
def ProjectedRow.data (row : ProjectedRow) : ProductData where
  merchantID := row.merchantID
  productID := row.productID
  name := row.name
  priceCents := row.priceCents
  currency := row.currency
  expirationDate := (row.expirationDate.map Date.format).getD []

/-- `ProjectionStore.ListProducts`, where the server sorts as `s` does. -/
def listProducts (d : Dialect) (s : Sorter ProjectedRow) (p : ProductProjection)
    (jobID : GoString) (q : ProductQuery) : Except WriteError (List ProductData × ℕ) := do
  let id ← (orError .uuid (d.castUUID jobID)).mapError (⟨"counting products", ·⟩)
  reject (¬storable q.filterName) ⟨"counting products", .text⟩
  let rows := matching txt p id q.filterName
  let order := orderBy txt (projectionSortColumns q.sortBy) (q.sortOrder = lit "DESC")
  let sorted := s.sort order rows
  return ((window q.limit.toNat q.offset.toNat sorted).map ProjectedRow.data, rows.length)

/-- The one order in which the query can return its rows. -/
def ordered (p : ProductProjection) (id filterName sortBy sortOrder : GoString) :
    List ProjectedRow :=
  (insertionSorter ProjectedRow).sort
    (orderBy txt (projectionSortColumns sortBy) (sortOrder = lit "DESC"))
    (matching txt p id filterName)

theorem ordered_spec (p : ProductProjection) (id filterName sortBy sortOrder : GoString) :
    (ordered txt p id filterName sortBy sortOrder).Perm (matching txt p id filterName) ∧
      (ordered txt p id filterName sortBy sortOrder).Pairwise fun a b =>
        orderBy txt (projectionSortColumns sortBy) (sortOrder = lit "DESC") a b = true :=
  ⟨(insertionSorter ProjectedRow).perm _ _,
    (insertionSorter ProjectedRow).sorted _ _ (ranks_orderBy txt _ _)⟩

/-- **The answer is a window of the one ordered result.** -/
theorem listProducts_eq_ok_iff {d : Dialect} {s : Sorter ProjectedRow} {p : ProductProjection}
    {jobID : GoString} {q : ProductQuery} {res : List ProductData × ℕ} :
    listProducts txt d s p jobID q = .ok res ↔
      ∃ id, d.castUUID jobID = some id ∧ storable q.filterName ∧
        res = ((window q.limit.toNat q.offset.toNat
          (ordered txt p id q.filterName q.sortBy q.sortOrder)).map ProjectedRow.data,
          (ordered txt p id q.filterName q.sortBy q.sortOrder).length) := by
  have hsort : ∀ id, s.sort (orderBy txt (projectionSortColumns q.sortBy)
      (q.sortOrder = lit "DESC")) (matching txt p id q.filterName) =
        ordered txt p id q.filterName q.sortBy q.sortOrder := by
    intro id
    obtain ⟨hperm, hsorted⟩ := ordered_spec txt p id q.filterName q.sortBy q.sortOrder
    refine s.eq_of_ranks (ranks_orderBy txt _ _) (fun a ha b hb hab hba => ?_) hperm hsorted
    -- Rows of one key are one row.
    exact List.inj_on_of_nodup_map p.nodup (List.mem_of_mem_filter ha) (List.mem_of_mem_filter hb)
      (orderBy_antisymm txt hab hba)
  have hlength : ∀ id, (ordered txt p id q.filterName q.sortBy q.sortOrder).length =
      (matching txt p id q.filterName).length :=
    fun id => (ordered_spec txt p id q.filterName q.sortBy q.sortOrder).1.length_eq
  simp only [listProducts, bind_eq_ok_iff, mapError_eq_ok_iff, orError_eq_ok_iff,
    reject_eq_ok_iff, not_not, hsort, hlength]
  constructor
  · rintro ⟨id, hid, -, hstorable, hres⟩
    exact ⟨id, hid, hstorable, (Except.ok.inj hres).symm⟩
  · rintro ⟨id, hid, hstorable, rfl⟩
    exact ⟨id, hid, (), hstorable, rfl⟩

end

end CsvProductUploader

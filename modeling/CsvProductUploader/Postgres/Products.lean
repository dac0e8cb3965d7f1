import CsvProductUploader.Catalog.Product
import CsvProductUploader.Postgres.Upsert

/-!
# The two product tables

The catalog worker's `products` and the importer's `product_projection`, each written by
the unnest upsert.

## Main definitions

* `upsertBatch` — `ProductWriter.UpsertBatch`, into `products`.
* `upsertProducts` — `ProjectionStore.UpsertProducts`, into `product_projection`.

## Main results

* `upsertBatch_ok_iff`, `upsertProducts_ok_iff` — both succeed exactly if the batch can
  be written.
* `isSome_of_upsertBatch` — what is then in the table.
-/

namespace CsvProductUploader

open Catalog

/-- A data error under the text of the method that met it. -/
structure WriteError where
  op : String
  cause : DataError
  deriving DecidableEq, Repr

/-- The columns of `products`: `currency CHAR(3)`, `CHECK (price_cents >= 0)`. -/
def productsSchema : Schema where
  currency := char3
  priceCheck := fun price => 0 ≤ price

/-- The row that `UpsertBatch` sends for a product. -/
def tupleOfProduct (p : Product) : Tuple Unit where
  merchantID := p.merchantID
  productID := p.productID
  name := p.name
  priceCents := p.priceCents
  currency := p.currency
  expiration := p.expirationDate
  jobID := p.sourceJobID
  extra := ()

/-- `ProductWriter.UpsertBatch` -/
def upsertBatch (d : Dialect) (t : Table Unit) (products : List Product) :
    Except WriteError (Table Unit) :=
  (upsert d productsSchema t (products.map tupleOfProduct)).mapError
    fun e => ⟨"applying catalog batch", e⟩

/-- The columns of `product_projection`: `currency TEXT`, no check. -/
def projectionSchema : Schema where
  currency := some
  priceCheck := fun _ => true

/-- The row that `UpsertProducts` sends for an event; the extra column is
`produced_at`. -/
def tupleOfEvent (evt : ProductImported) : Tuple ℤ where
  merchantID := evt.product.merchantID
  productID := evt.product.productID
  name := evt.product.name
  priceCents := evt.product.priceCents
  currency := evt.product.currency
  expiration := evt.product.expirationDate
  jobID := evt.jobID
  extra := evt.producedAt

/-- `ProjectionStore.UpsertProducts` -/
def upsertProducts (d : Dialect) (t : Table ℤ) (evts : List ProductImported) :
    Except WriteError (Table ℤ) :=
  (upsert d projectionSchema t (evts.map tupleOfEvent)).mapError
    fun e => ⟨"upserting product projection", e⟩

theorem upsertBatch_ok_iff {d : Dialect} {t : Table Unit} {products : List Product} :
    (∃ t', upsertBatch d t products = .ok t') ↔
      Writable d productsSchema (products.map tupleOfProduct) := by
  simp only [upsertBatch, Checks.mapError_eq_ok_iff]
  exact upsert_ok_iff

/-- After a batch its products are in the table, and what was there before still is. -/
theorem isSome_of_upsertBatch {d : Dialect} {t t' : Table Unit} {products : List Product}
    (h : upsertBatch d t products = .ok t') {k : GoString × GoString}
    (hk : (t k).isSome = true ∨ ∃ p ∈ products, (tupleOfProduct p).key = k) :
    (t' k).isSome = true := by
  rw [upsert_eq_putAll (Checks.mapError_eq_ok_iff.mp h)]
  apply isSome_putAll
  rcases hk with hk | ⟨p, hp, hk⟩
  · exact Or.inl hk
  · exact Or.inr ⟨_, List.mem_map_of_mem hp, hk⟩

theorem upsertProducts_ok_iff {d : Dialect} {t : Table ℤ} {evts : List ProductImported} :
    (∃ t', upsertProducts d t evts = .ok t') ↔
      Writable d projectionSchema (evts.map tupleOfEvent) := by
  simp only [upsertProducts, Checks.mapError_eq_ok_iff]
  exact upsert_ok_iff

end CsvProductUploader

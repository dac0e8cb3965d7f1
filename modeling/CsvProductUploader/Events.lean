import CsvProductUploader.GoString

/-!
# The event contracts

The types the importer and the catalog worker exchange over Kafka: the product
event on its way forward and the progress snapshot on its way back.

## Main definitions

* `ProductData`, `ProductImported` — the payload of the product topics.
* `ProductData.partitionKey` — the routing key, merchant and product together.
* `ImportProgress` — one worker's cumulative totals for one job.
-/

namespace CsvProductUploader

/-- The normalized product payload carried by product events. -/
structure ProductData where
  merchantID : GoString
  productID : GoString
  name : GoString
  priceCents : ℤ
  currency : GoString
  /-- The canonical `YYYY-MM-DD` date, empty when the product has no expiration. -/
  expirationDate : GoString
  deriving DecidableEq, Repr, Inhabited

/-- A product payload with its import metadata. -/
structure ProductImported where
  jobID : GoString
  rowNum : ℤ
  /-- Nanoseconds since the epoch. -/
  producedAt : ℤ
  product : ProductData
  deriving DecidableEq, Repr, Inhabited

/-- The Kafka routing key of a product: `merchant_id:product_id`. -/
def ProductData.partitionKey (p : ProductData) : GoString :=
  p.merchantID ++ lit ":" ++ p.productID

/-- One worker's cumulative snapshot for an import job.  The latency percentiles
that travel along with the totals are left out. -/
structure ImportProgress where
  jobID : GoString
  workerID : GoString
  processedRows : ℕ
  retriedRows : ℕ
  deadRows : ℕ
  deriving DecidableEq, Repr, Inhabited

/-! ### Two job ids -/

def someJobID : GoString := lit "00000000-0000-4000-8000-000000000000"

def otherJobID : GoString := lit "00000000-0000-4000-8000-000000000001"

end CsvProductUploader

import CsvProductUploader.Catalog.Service
import CsvProductUploader.ImportJob.Csv
import CsvProductUploader.ImportJob.Process

/-!
# What the importer publishes, at its consumers

The event of a valid row travels as JSON to the catalog worker and to the importer's own
projector.  Each checks it and writes it together with whatever else it has polled.

## Main definitions

* `decoded` — an event after JSON encoding and decoding.
* `projectable` — the projector's filter.
* `Applicable` — both consumers take the event, and it fails no batch of theirs.
* `PlainCells` — no cell holds what the databases do not store.

## Main results

* `valid_row_accepted` — no valid row is dead-lettered or filtered out.
* `valid_row_applicable_iff` — a valid row can be applied exactly if its cells are plain.
* `nul_name_not_applicable` — a valid row with a NUL in its name fails every batch it is in.
-/

namespace CsvProductUploader

open Catalog

/-- A product after `json.Marshal` and `json.Unmarshal`: a JSON string is valid UTF-8, and
the encoder makes it so. -/
def ProductData.decoded (p : ProductData) : ProductData where
  merchantID := Utf8.sanitize p.merchantID
  productID := Utf8.sanitize p.productID
  name := Utf8.sanitize p.name
  priceCents := p.priceCents
  currency := Utf8.sanitize p.currency
  expirationDate := Utf8.sanitize p.expirationDate

/-- An event after `json.Marshal` and `json.Unmarshal`. -/
def ProductImported.decoded (evt : ProductImported) : ProductImported :=
  { evt with jobID := Utf8.sanitize evt.jobID, product := evt.product.decoded }

/-- The filter of `ProductProjector.Run`. -/
def projectable (evt : ProductImported) : Prop :=
  isUUID evt.jobID = true ∧ evt.product.merchantID ≠ [] ∧ evt.product.productID ≠ []

instance (evt : ProductImported) : Decidable (projectable evt) :=
  inferInstanceAs (Decidable (_ ∧ _))

/-- Both consumers take the event, and a batch of theirs that can be written without it
can be written with it. -/
structure Applicable (d : Dialect) (evt : ProductImported) : Prop where
  accepted : ∃ p, fromEvent evt = .ok p
  projected : projectable evt
  catalog : ∀ t before after, (∃ t', upsertBatch d t (before ++ after) = .ok t') →
    ∃ t', upsertBatch d t (before ++ productOf evt :: after) = .ok t'
  projection : ∀ t before after, (∃ t', upsertProducts d t (before ++ after) = .ok t') →
    ∃ t', upsertProducts d t (before ++ evt :: after) = .ok t'

/-- No cell holds what the databases do not store: a NUL in one of the free texts, or a
date in a year 0. -/
def PlainCells (c : Cells) : Prop :=
  0 ∉ c.merchantID ∧ 0 ∉ c.productID ∧ 0 ∉ c.name ∧ ¬yearZero c.expiration

instance (c : Cells) : Decidable (PlainCells c) := inferInstanceAs (Decidable (_ ∧ _))

/-! ### One row at the databases -/

theorem sanitize_of_isUUID {s : GoString} (h : isUUID s = true) : Utf8.sanitize s = s :=
  Utf8.sanitize_of_ascii fun b hb => (ascii_of_matchShape h b hb).2

theorem validCurrencies_spec : ∀ c ∈ validCurrencies,
    (c ≠ [] ∧ ∀ b ∈ c, 0 < b ∧ b < 0x80) ∧ (char3 c).isSome = true := by decide +kernel

section
variable {upper : GoString → GoString} {c : Cells} {p : ProductData}

theorem decoded_currency (h : Normalized upper c p) :
    Utf8.sanitize p.currency = p.currency := by
  have hascii := (validCurrencies_spec _ h.currency).1.2
  exact Utf8.sanitize_of_ascii fun b hb => (hascii b hb).2

theorem decoded_expiration (h : Normalized upper c p) :
    Utf8.sanitize p.expirationDate = p.expirationDate ∧ storable p.expirationDate := by
  have hascii : ∀ b ∈ p.expirationDate, 0 < b ∧ b < 0x80 := by
    rcases parseExpiration_eq_ok h.expiration with ⟨hnil, -⟩ | ⟨d, hd, -⟩
    · rw [hnil]
      exact fun b hb => absurd hb List.not_mem_nil
    · rw [hd]
      exact ascii_format d
  exact ⟨Utf8.sanitize_of_ascii fun b hb => (hascii b hb).2, storable_of_ascii hascii⟩

/-- The expiration of a row can be cast exactly if its year is not 0. -/
theorem castable_iff (d : Dialect) (h : Normalized upper c p) :
    (p.expirationDate = [] ∨ (d.castDate p.expirationDate).isSome = true) ↔
      ¬yearZero c.expiration := by
  rcases parseExpiration_eq_ok h.expiration with ⟨hnil, hyear⟩ | ⟨e, he, hexists, hle, hyear⟩
  · exact iff_of_true (Or.inl hnil) hyear
  · rw [he, or_iff_right (format_ne_nil e), castDate_format hexists hle, ← hyear]
    split
    · next hpos => exact iff_of_true rfl (by omega)
    · next hzero => exact iff_of_false (by simp) (by omega)

/-- The free texts of a decoded row are storable exactly if their cells hold no NUL. -/
theorem texts_storable (h : Normalized upper c p) :
    (storable p.decoded.merchantID ∧ storable p.decoded.productID ∧ storable p.decoded.name) ↔
      0 ∉ c.merchantID ∧ 0 ∉ c.productID ∧ 0 ∉ c.name := by
  simp only [ProductData.decoded, storable_sanitize, h.merchantID, h.productID, h.name,
    zero_mem_trimSpace, zero_mem_productIDOf]

end

/-- The row that an event becomes in either table. -/
def rowOf {χ : Type} (evt : ProductImported) (extra : χ) : Tuple χ where
  merchantID := evt.product.merchantID
  productID := evt.product.productID
  name := evt.product.name
  priceCents := evt.product.priceCents
  currency := evt.product.currency
  expiration := evt.product.expirationDate
  jobID := evt.jobID
  extra := extra

/-- A decoded row can be written alone exactly if its cells are plain, into any table
that takes the platform's currencies and prices. -/
theorem writable_row_iff {χ : Type} {d : Dialect} {sch : Schema} {upper : GoString → GoString}
    {c : Cells} {evt : ProductImported} (h : Normalized upper c evt.product)
    (hid : isUUID evt.jobID = true)
    (hcurrency : ∀ cur ∈ validCurrencies, (sch.currency cur).isSome = true)
    (hprice : ∀ n, 0 ≤ n → sch.priceCheck n = true) (extra : χ) :
    Writable d sch [rowOf evt.decoded extra] ↔ PlainCells c := by
  have hidText : storable evt.jobID := storable_of_ascii (ascii_of_matchShape hid)
  have hcurText : storable evt.product.currency :=
    storable_of_ascii (validCurrencies_spec _ h.currency).1.2
  obtain ⟨hexpiration, hexpText⟩ := decoded_expiration h
  -- Of the texts only merchant, product and name are free; the others are ASCII.
  have htexts : (∀ s ∈ (rowOf evt.decoded extra).texts, storable s) ↔
      0 ∉ c.merchantID ∧ 0 ∉ c.productID ∧ 0 ∉ c.name := by
    rw [← texts_storable h]
    simp only [Tuple.texts, rowOf, ProductImported.decoded, List.forall_mem_cons,
      List.not_mem_nil, false_imp_iff, implies_true, and_true, sanitize_of_isUUID hid]
    simp [ProductData.decoded, decoded_currency h, hexpiration, hidText, hcurText, hexpText]
  have htakes : Takes d sch (rowOf evt.decoded extra) ↔ ¬yearZero c.expiration := by
    rw [← castable_iff d h]
    have hcur : (sch.currency evt.product.currency).isSome = true := hcurrency _ h.currency
    have hpos : sch.priceCheck evt.product.priceCents = true :=
      hprice _ (parsePriceCents_bounds h.price).1
    simp [Takes, rowOf, ProductImported.decoded, ProductData.decoded, sanitize_of_isUUID hid,
      castUUID_of_isUUID hid, decoded_currency h, hexpiration, hcur, hpos]
  rw [writable_singleton, htexts, htakes]
  unfold PlainCells
  tauto

/-! ### Valid rows -/

/-- No valid row is dead-lettered or filtered out. -/
theorem valid_row_accepted {upper : GoString → GoString} {c : Cells} (evt : ProductImported)
    (h : Normalized upper c evt.product) (hid : isUUID evt.jobID = true) :
    (∃ p, fromEvent evt.decoded = .ok p) ∧ projectable evt.decoded := by
  have hjob : isUUID evt.decoded.jobID = true := by
    rw [show evt.decoded.jobID = evt.jobID from sanitize_of_isUUID hid]
    exact hid
  -- Making a text valid UTF-8 leaves no empty text that was not one.
  have hmerchant : evt.decoded.product.merchantID ≠ [] :=
    fun hnil => h.merchantID_ne_nil (Utf8.sanitize_eq_nil_iff.mp hnil)
  have hproduct : evt.decoded.product.productID ≠ [] := by
    intro hnil
    apply productIDOf_ne_nil c
    rw [← h.productID]
    exact Utf8.sanitize_eq_nil_iff.mp hnil
  constructor
  · refine ⟨productOf evt.decoded, fromEvent_eq_ok_iff.mpr ⟨?_, rfl⟩⟩
    exact {
      merchantID := hmerchant
      productID := hproduct
      name := fun hnil => h.name_ne_nil (Utf8.sanitize_eq_nil_iff.mp hnil)
      priceCents := (parsePriceCents_bounds h.price).1
      currency := fun hnil =>
        (validCurrencies_spec _ h.currency).1.1 (Utf8.sanitize_eq_nil_iff.mp hnil)
      sourceJobID := hjob }
  · exact ⟨hjob, hmerchant, hproduct⟩

theorem catalog_writable_iff (d : Dialect) {upper : GoString → GoString} {c : Cells}
    (evt : ProductImported) (h : Normalized upper c evt.product) (hid : isUUID evt.jobID = true) :
    Writable d productsSchema [tupleOfProduct (productOf evt.decoded)] ↔ PlainCells c :=
  writable_row_iff h hid (fun cur hcur => (validCurrencies_spec cur hcur).2)
    (fun _ hn => decide_eq_true hn) ()

theorem projection_writable_iff (d : Dialect) {upper : GoString → GoString} {c : Cells}
    (evt : ProductImported) (h : Normalized upper c evt.product) (hid : isUUID evt.jobID = true) :
    Writable d projectionSchema [tupleOfEvent evt.decoded] ↔ PlainCells c :=
  writable_row_iff h hid (fun _ _ => rfl) (fun _ _ => rfl) evt.producedAt

/-- The event of a valid row can be applied by both consumers exactly if the cells of
the row are plain. -/
theorem valid_row_applicable_iff (d : Dialect) {upper : GoString → GoString} {num : ℕ}
    {cols : GoString → Option ℕ} {record : List GoString} {opts : StreamOptions} {row : Row}
    {c : Cells} {jobID : GoString} (now : ℤ)
    (hrow : parseRow upper num cols record opts = some row) (hvalid : row.valid = true)
    (hcells : cellsOf cols record opts = some c) (hid : isUUID jobID = true) :
    Applicable d (Goroutine.event jobID now row).decoded ↔ PlainCells c := by
  obtain ⟨c', hc', hnorm⟩ := parseRow_valid hrow hvalid
  obtain rfl : c' = c := Option.some.inj (hc'.symm.trans hcells)
  have h := normalize_eq_ok hnorm
  have hcatalog := catalog_writable_iff d (Goroutine.event jobID now row) h hid
  have hproj := projection_writable_iff d (Goroutine.event jobID now row) h hid
  constructor
  · intro happ
    -- Alone in a batch it is written next to nothing.
    obtain ⟨t', ht'⟩ := happ.catalog (fun _ => none) [] [] ⟨_, rfl⟩
    exact hcatalog.mp (upsertBatch_ok_iff.mp ⟨t', ht'⟩)
  · intro hplain
    obtain ⟨haccepted, hprojected⟩ := valid_row_accepted (Goroutine.event jobID now row) h hid
    refine ⟨haccepted, hprojected, ?_, ?_⟩
    · intro t before after hok
      rw [upsertBatch_ok_iff, List.map_append] at hok
      rw [upsertBatch_ok_iff, List.map_append, List.map_cons]
      exact writable_insert hok (hcatalog.mpr hplain)
    · intro t before after hok
      rw [upsertProducts_ok_iff, List.map_append] at hok
      rw [upsertProducts_ok_iff, List.map_append, List.map_cons]
      exact writable_insert hok (hproj.mpr hplain)

/-- The columns of a file that has all of them, in the order of the product. -/
def allColumns (name : GoString) : Option ℕ :=
  [lit "merchant_id", lit "product_id", lit "name", lit "price", lit "currency",
    lit "expiration_date"].findIdx? (· = name)

/-- A record with the given name and expiration. -/
def recordOf (name expiration : GoString) : List GoString :=
  [lit "m", lit "p", name, lit "$1.50", lit "usd", expiration]

/-- The defaults of an upload that names neither merchant nor currency. -/
def plainOptions : StreamOptions := ⟨lit "default", lit "USD"⟩

/-- The row that `recordOf name expiration` makes. -/
def rowNamed (name expiration : GoString) : Row where
  num := 2
  product := {
    merchantID := lit "m", productID := lit "p", name := name, priceCents := 150
    currency := lit "USD", expirationDate := expiration }
  reason := none

/-- A row dated 29 February 2024 reaches both tables. -/
theorem leap_day_applicable :
    Applicable canonicalDialect
        (Goroutine.event someJobID 0 (rowNamed (lit "n") (lit "2024-02-29"))).decoded := by
  have hrow : parseRow id 2 allColumns (recordOf (lit "n") (lit "2/29/2024")) plainOptions =
      some (rowNamed (lit "n") (lit "2024-02-29")) := by decide
  have hcells : ∃ c, cellsOf allColumns (recordOf (lit "n") (lit "2/29/2024"))
      plainOptions = some c ∧
      PlainCells c := ⟨_, rfl, by decide⟩
  obtain ⟨c, hc, hplain⟩ := hcells
  exact (valid_row_applicable_iff canonicalDialect 0 hrow rfl hc (by decide)).mpr hplain

/-- A row named `a\x00b` is valid, and its event fails every write. -/
theorem nul_name_not_applicable :
    parseRow id 2 allColumns (recordOf [0x61, 0, 0x62] []) plainOptions =
        some (rowNamed [0x61, 0, 0x62] []) ∧
      isUUID someJobID = true ∧
      ∀ d t, upsertBatch d t
        [productOf (Goroutine.event someJobID 0 (rowNamed [0x61, 0, 0x62] [])).decoded] =
          .error ⟨"applying catalog batch", .text⟩ := by
  have htexts : ¬∀ r ∈ [tupleOfProduct
      (productOf (Goroutine.event someJobID 0 (rowNamed [0x61, 0, 0x62] [])).decoded)],
      ∀ s ∈ r.texts, storable s := by decide
  refine ⟨by decide, by decide, ?_⟩
  intro d t
  have hup : upsert d productsSchema t [tupleOfProduct
      (productOf (Goroutine.event someJobID 0 (rowNamed [0x61, 0, 0x62] [])).decoded)] =
      .error .text := by
    rw [upsert, if_neg (List.cons_ne_nil _ _), if_neg htexts]
  simp only [upsertBatch, List.map_cons, List.map_nil, hup]
  rfl

end CsvProductUploader

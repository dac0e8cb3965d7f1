import CsvProductUploader.ImportJob.Published

/-!
# Product identity on the wire

The record of a row is keyed by the identity as the file has it, and carries the identity
as JSON can encode it.  The two agree as long as no byte of the identity reads as U+FFFD.

## Main definitions

* `ProductData.identity` — what tells two products apart.
* `ProductRecord`, `productRecord` — the key and the decoded value of a produced record.
* `ValidRow` — the rows that files yield and the importer publishes.
* `Survives` — two rows have one identity after the wire exactly if they had one before.
* `Blurred` — two identities that differ in invalid bytes and U+FFFD only.

## Main results

* `identity_survives_iff` — the identities that survive.
* `two_stray_merchants` — two merchants become one, under two keys.
-/

namespace CsvProductUploader

open Checks

/-- The identity of a product: merchant and product together. -/
def ProductData.identity (p : ProductData) : GoString × GoString := (p.merchantID, p.productID)

/-- A record on the product topic: its key, and the event that its value decodes to. -/
structure ProductRecord where
  key : GoString
  value : ProductImported
  deriving DecidableEq, Repr

/-- The record that `PublishProductImported` produces: the key is computed from the event,
the value is its JSON. -/
def productRecord (evt : ProductImported) : ProductRecord where
  key := evt.product.partitionKey
  value := evt.decoded

/-- A valid row of some file. -/
def ValidRow (upper : GoString → GoString) (row : Row) : Prop :=
  row.valid = true ∧ ∃ num cols record opts, parseRow upper num cols record opts = some row

/-- Whatever jobs and moments the two rows are published in, their records name one product
exactly if the rows do, and records that name one product have one key. -/
def Survives (row row' : Row) : Prop :=
  ∀ jobID jobID' now now',
    let record := productRecord (Goroutine.event jobID now row)
    let record' := productRecord (Goroutine.event jobID' now' row')
    (record.value.product.identity = record'.value.product.identity ↔
        row.product.identity = row'.product.identity) ∧
      (record.value.product.identity = record'.value.product.identity → record.key = record'.key)

/-- The identities differ, but in bytes that are not UTF-8 and in U+FFFD only. -/
def Blurred (p p' : ProductData) : Prop :=
  p.identity ≠ p'.identity ∧ Utf8.SameText p.merchantID p'.merchantID ∧
    Utf8.SameText p.productID p'.productID

/-- The identity holds neither a byte that is not UTF-8 nor a U+FFFD. -/
def LegibleIdentity (p : ProductData) : Prop :=
  Utf8.Legible p.merchantID ∧ Utf8.Legible p.productID

instance (p : ProductData) : Decidable (LegibleIdentity p) :=
  inferInstanceAs (Decidable (_ ∧ _))

/-! ### Two identities -/

@[simp] theorem identity_decoded (p : ProductData) :
    p.decoded.identity = (Utf8.sanitize p.merchantID, Utf8.sanitize p.productID) := rfl

theorem identity_eq_iff {p p' : ProductData} :
    p.identity = p'.identity ↔ p.merchantID = p'.merchantID ∧ p.productID = p'.productID :=
  Prod.mk_inj

/-- Products with one identity have one key. -/
theorem partitionKey_of_identity_eq {p p' : ProductData} (h : p.identity = p'.identity) :
    p.partitionKey = p'.partitionKey := by
  obtain ⟨hmerchant, hproduct⟩ := identity_eq_iff.mp h
  rw [ProductData.partitionKey, ProductData.partitionKey, hmerchant, hproduct]

/-- Two decoded identities are equal if the identities are, or are blurred. -/
theorem identity_decoded_eq_iff {p p' : ProductData} :
    p.decoded.identity = p'.decoded.identity ↔ p.identity = p'.identity ∨ Blurred p p' := by
  rw [identity_decoded, identity_decoded, Prod.mk_inj, Utf8.sanitize_eq_sanitize_iff,
    Utf8.sanitize_eq_sanitize_iff]
  constructor
  · rintro ⟨hmerchant, hproduct⟩
    by_cases heq : p.identity = p'.identity
    · exact Or.inl heq
    · exact Or.inr ⟨heq, hmerchant, hproduct⟩
  · rintro (heq | ⟨-, hmerchant, hproduct⟩)
    · obtain ⟨hmerchant, hproduct⟩ := identity_eq_iff.mp heq
      rw [← Utf8.sanitize_eq_sanitize_iff, ← Utf8.sanitize_eq_sanitize_iff, hmerchant, hproduct]
      exact ⟨rfl, rfl⟩
    · exact ⟨hmerchant, hproduct⟩

theorem survives_iff_not_blurred {row row' : Row} :
    Survives row row' ↔ ¬Blurred row.product row'.product := by
  constructor
  · intro h hblurred
    have hdecoded := identity_decoded_eq_iff.mpr (Or.inr hblurred)
    exact hblurred.1 ((h [] [] 0 0).1.mp hdecoded)
  · intro hclear jobID jobID' now now'
    have hiff : row.product.decoded.identity = row'.product.decoded.identity ↔
        row.product.identity = row'.product.identity := by
      rw [identity_decoded_eq_iff, or_iff_left hclear]
    exact ⟨hiff, fun h => partitionKey_of_identity_eq (hiff.mp h)⟩

theorem not_blurred_of_legible {p : ProductData} (h : LegibleIdentity p) (p' : ProductData) :
    ¬Blurred p p' := by
  rintro ⟨hne, hmerchant, hproduct⟩
  apply hne
  rw [identity_eq_iff]
  exact ⟨Utf8.eq_of_sanitize_eq h.1 (Utf8.sanitize_eq_sanitize_iff.mpr hmerchant),
    Utf8.eq_of_sanitize_eq h.2 (Utf8.sanitize_eq_sanitize_iff.mpr hproduct)⟩

/-! ### A row that is mistaken for another

Where an identity holds something that reads as U+FFFD, the same row with a stray byte in
its place is as valid. -/

section
variable {x : UInt8}

/-- White space does not read as U+FFFD. -/
theorem isSpace_blur (r : Utf8.Rune) : isSpace (r.blur x) = isSpace r := by
  unfold Utf8.Rune.blur
  split
  · next hrep =>
    -- Neither is a stray byte white space.
    have hstray : isSpace ⟨[x], false⟩ = false := rfl
    rw [hstray, eq_comm]
    cases hvalid : r.valid with
    | false => simp [isSpace, hvalid]
    | true =>
      rw [Utf8.Rune.clean, if_pos hvalid] at hrep
      have hcode : r.code = 0xFFFD := by
        rw [Utf8.Rune.code, if_pos hvalid, hrep]
        rfl
      simp [isSpace, hcode]
  · rfl

theorem trimSpace_blur (hx : Utf8.lead x = none) (s : GoString) :
    trimSpace (Utf8.blur x s) = Utf8.blur x (trimSpace s) := by
  have hcomp : isSpace ∘ Utf8.Rune.blur x = isSpace := funext isSpace_blur
  have hright : Utf8.blur x (trimSpace s) =
      ((((Utf8.runes s).dropWhile isSpace).rdropWhile isSpace).map (Utf8.Rune.blur x)).flatMap
        Utf8.Rune.bytes := by
    rw [Utf8.blur, runes_trimSpace]
  rw [hright, trimSpace, Utf8.runes_blur hx, List.dropWhile_map, hcomp]
  simp only [List.rdropWhile, ← List.map_reverse, List.dropWhile_map, hcomp]

theorem blur_eq_nil_iff (hx : Utf8.lead x = none) {s : GoString} :
    Utf8.blur x s = [] ↔ s = [] := by
  rw [← Utf8.sanitize_eq_nil_iff, Utf8.sanitize_blur hx, Utf8.sanitize_eq_nil_iff]

/-- The cells with the identity blurred. -/
def Cells.blur (x : UInt8) (c : Cells) : Cells :=
  { c with merchantID := Utf8.blur x c.merchantID, productID := Utf8.blur x c.productID }

/-- A derived identity is legible. -/
theorem productIDOf_blur (hx : Utf8.lead x = none) (c : Cells) :
    productIDOf (c.blur x) = Utf8.blur x (productIDOf c) := by
  have hcell : trimSpace (c.blur x).productID = Utf8.blur x (trimSpace c.productID) :=
    trimSpace_blur hx c.productID
  unfold productIDOf
  rw [hcell]
  by_cases hnil : trimSpace c.productID = []
  · rw [if_pos ((blur_eq_nil_iff hx).mpr hnil), if_pos hnil]
    have hascii := (deriveProductID_spec (trimSpace c.name)).2
    exact (Utf8.blur_of_legible (Utf8.legible_of_ascii fun b hb => (hascii b hb).2)).symm
  · rw [if_neg (mt (blur_eq_nil_iff hx).mp hnil), if_neg hnil]

/-- Blurring the identity of an accepted row does not make it any less acceptable. -/
theorem normalize_blur (hx : Utf8.lead x = none) {upper : GoString → GoString} {c : Cells}
    {p : ProductData} (h : normalize upper c = .ok p) :
    normalize upper (c.blur x) = .ok { p with
      merchantID := Utf8.blur x p.merchantID, productID := Utf8.blur x p.productID } := by
  have hmerchantID : trimSpace (c.blur x).merchantID = Utf8.blur x (trimSpace c.merchantID) :=
    trimSpace_blur hx c.merchantID
  have hshort := Utf8.length_blur_le x (trimSpace c.merchantID)
  have hshort' := Utf8.length_blur_le x (productIDOf c)
  unfold normalize at h ⊢
  simp only [bind_eq_ok_iff, reject_eq_ok_iff, mapError_eq_ok_iff, hmerchantID,
    productIDOf_blur hx] at h ⊢
  obtain ⟨_, hmerchant, _, hmerchantLen, _, hname, _, hnameLen, _, hproductLen, cents, hcents, _,
    hcurrency, expiration, hexpiration, hp⟩ := h
  obtain rfl := Except.ok.inj hp
  refine ⟨(), mt (blur_eq_nil_iff hx).mp hmerchant, (), ?_, (), hname, (), hnameLen, (), ?_, cents,
    hcents, (), hcurrency, expiration, hexpiration, rfl⟩
  · omega
  · omega

/-- The record that spells out the cells of a row, for a file with all columns. -/
def Cells.record (c : Cells) : List GoString :=
  [c.merchantID, c.productID, c.name, c.price, c.currency, c.expiration]

theorem cellsOf_record (c : Cells) :
    cellsOf allColumns c.record ⟨c.merchantID, c.currency⟩ = some c := by
  have hcols : allColumns (lit "merchant_id") = some 0 ∧ allColumns (lit "product_id") = some 1 ∧
      allColumns (lit "name") = some 2 ∧ allColumns (lit "price") = some 3 ∧
      allColumns (lit "currency") = some 4 ∧ allColumns (lit "expiration_date") = some 5 := by
    decide
  obtain ⟨h0, h1, h2, h3, h4, h5⟩ := hcols
  simp [cellsOf, column, h0, h1, h2, h3, h4, h5, Cells.record]

/-- Next to a valid row with an illegible identity there is another one whose identity
reads the same. -/
theorem exists_blurred {upper : GoString → GoString} {row : Row} (h : ValidRow upper row)
    (hillegible : ¬LegibleIdentity row.product) :
    ∃ row', ValidRow upper row' ∧ Blurred row.product row'.product := by
  obtain ⟨hvalid, num, cols, record, opts, hrow⟩ := h
  obtain ⟨c, -, hnorm⟩ := parseRow_valid hrow hvalid
  -- The row with the byte `y` for what cannot be read.
  let blurred (y : UInt8) : Row :=
    { num := num, reason := none, product := { row.product with
        merchantID := Utf8.blur y row.product.merchantID
        productID := Utf8.blur y row.product.productID } }
  have hblurred : ∀ y, Utf8.lead y = none → ValidRow upper (blurred y) := by
    intro y hy
    refine ⟨rfl, num, allColumns, (c.blur y).record,
        ⟨(c.blur y).merchantID, (c.blur y).currency⟩, ?_⟩
    rw [parseRow, cellsOf_record, Option.map_some, normalize_blur hy hnorm]
  have hsame : ∀ y, Utf8.lead y = none → row.product.identity ≠ (blurred y).product.identity →
      Blurred row.product (blurred y).product := by
    intro y hy hne
    refine ⟨hne, ?_, ?_⟩
    · exact Utf8.sanitize_eq_sanitize_iff.mp (Utf8.sanitize_blur hy _).symm
    · exact Utf8.sanitize_eq_sanitize_iff.mp (Utf8.sanitize_blur hy _).symm
  -- One of two different bytes gives another identity.
  have hff : Utf8.lead 0xFF = none := by decide
  have hfe : Utf8.lead 0xFE = none := by decide
  by_cases hne : row.product.identity = (blurred 0xFF).product.identity
  · refine ⟨blurred 0xFE, hblurred 0xFE hfe, hsame 0xFE hfe ?_⟩
    intro heq
    obtain ⟨hmerchant, hproduct⟩ := identity_eq_iff.mp (hne.symm.trans heq)
    apply hillegible
    constructor
    · by_contra hbad
      exact Utf8.blur_ne_blur hff hfe (by decide) hbad hmerchant
    · by_contra hbad
      exact Utf8.blur_ne_blur hff hfe (by decide) hbad hproduct
  · exact ⟨blurred 0xFF, hblurred 0xFF hff, hsame 0xFF hff hne⟩

end

/-! ### The identities that survive -/

/-- Two valid rows keep their identities apart, or together, unless these differ in stray
bytes and U+FFFD only; a valid row does so next to every other one exactly if its identity
holds neither. -/
theorem identity_survives_iff {upper : GoString → GoString} {row : Row} (h : ValidRow upper row) :
    (∀ row', ValidRow upper row' → (Survives row row' ↔ ¬Blurred row.product row'.product)) ∧
      ((∀ row', ValidRow upper row' → Survives row row') ↔ LegibleIdentity row.product) := by
  refine ⟨fun _ _ => survives_iff_not_blurred, ?_, ?_⟩
  · intro hall
    by_contra hillegible
    obtain ⟨row', hrow', hblurred⟩ := exists_blurred h hillegible
    exact survives_iff_not_blurred.mp (hall row' hrow') hblurred
  · intro hlegible row' _
    exact survives_iff_not_blurred.mpr (not_blurred_of_legible hlegible row'.product)

/-- The row of a merchant whose other cells are plain. -/
def rowOfMerchant (merchantID : GoString) : Row where
  num := 2
  product := { (rowNamed (lit "n") []).product with merchantID := merchantID }
  reason := none

theorem validRow_rowOfMerchant {merchantID : GoString}
    (h : parseRow id 2 allColumns
      [merchantID, lit "p", lit "n", lit "$1.50", lit "usd", []] plainOptions =
        some (rowOfMerchant merchantID)) : ValidRow id (rowOfMerchant merchantID) :=
  ⟨rfl, 2, allColumns, _, plainOptions, h⟩

/-- The identity of an ordinary merchant survives. -/
theorem plain_merchant_survives : ValidRow id (rowOfMerchant (lit "shop")) ∧
    ∀ row', ValidRow id row' → Survives (rowOfMerchant (lit "shop")) row' := by
  have hrow : ValidRow id (rowOfMerchant (lit "shop")) := validRow_rowOfMerchant (by decide)
  exact ⟨hrow, (identity_survives_iff hrow).2.mpr (by decide)⟩

/-- The merchants `\xff` and `\xfe` are two in their file and one at the consumers, where
the records of their product arrive under two keys. -/
theorem two_stray_merchants :
    ¬∀ (upper : GoString → GoString) (row row' : Row), ValidRow upper row → ValidRow upper row' →
      Survives row row' := by
  intro h
  have hff : ValidRow id (rowOfMerchant [0xFF]) := validRow_rowOfMerchant (by decide)
  have hfe : ValidRow id (rowOfMerchant [0xFE]) := validRow_rowOfMerchant (by decide)
  have hdecoded : (rowOfMerchant [0xFF]).product.decoded.identity =
      (rowOfMerchant [0xFE]).product.decoded.identity := by decide
  have hsurvives := (h id _ _ hff hfe [] [] 0 0).1.mp hdecoded
  revert hsurvives
  decide

end CsvProductUploader

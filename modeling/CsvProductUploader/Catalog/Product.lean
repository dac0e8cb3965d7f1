import CsvProductUploader.Events

/-!
# Catalog products

The record that the catalog worker materializes from a product event, and the checks it
makes of its own before writing.

## Main definitions

* `Product`, `Product.validate`, `fromEvent`.
* `accepted`, `validEvents` — the products of the events of a batch that pass, in order, and
  these events.

## Main results

* `fromEvent_eq_ok_iff`, `isOk_fromEvent_iff` — which events pass, and as what.
* `accepted_eq` — the products are those of the events.
-/

namespace CsvProductUploader.Catalog

/-- A catalog record materialized from one product event. -/
structure Product where
  merchantID : GoString
  productID : GoString
  name : GoString
  priceCents : ℤ
  currency : GoString
  expirationDate : GoString
  sourceJobID : GoString
  deriving DecidableEq, Repr, Inhabited

/-- Why the catalog rejects a product. -/
inductive Rejection
  | merchantRequired
  | productRequired
  | nameRequired
  | negativePrice
  | currencyRequired
  | notUUID (jobID : GoString)
  deriving DecidableEq, Repr

/-- The text of a rejection; `quote` renders a string as `%q` does. -/
def Rejection.text (quote : GoString → String) : Rejection → String
  | .merchantRequired => "merchant_id is required"
  | .productRequired => "product_id is required"
  | .nameRequired => "name is required"
  | .negativePrice => "price_cents cannot be negative"
  | .currencyRequired => "currency is required"
  | .notUUID jobID => "source_job_id " ++ quote jobID ++ " is not a uuid"

/-- `Product.validate`: the catalog's own write invariants. -/
def Product.validate (p : Product) : Except Rejection Unit :=
  if p.merchantID = [] then .error .merchantRequired
  else if p.productID = [] then .error .productRequired
  else if p.name = [] then .error .nameRequired
  else if p.priceCents < 0 then .error .negativePrice
  else if p.currency = [] then .error .currencyRequired
  else if isUUID p.sourceJobID = false then .error (.notUUID p.sourceJobID)
  else .ok ()

/-- The product that an event carries. -/
def productOf (evt : ProductImported) : Product where
  merchantID := evt.product.merchantID
  productID := evt.product.productID
  name := evt.product.name
  priceCents := evt.product.priceCents
  currency := evt.product.currency
  expirationDate := evt.product.expirationDate
  sourceJobID := evt.jobID

/-- `event row %d: %w` -/
structure EventError where
  rowNum : ℤ
  cause : Rejection
  deriving DecidableEq, Repr

/-- `FromEvent`: the product of an event, or why the catalog does not take it. -/
def fromEvent (evt : ProductImported) : Except EventError Product :=
  match (productOf evt).validate with
  | .error err => .error ⟨evt.rowNum, err⟩
  | .ok () => .ok (productOf evt)

/-- What `validate` asks. -/
structure Product.Valid (p : Product) : Prop where
  merchantID : p.merchantID ≠ []
  productID : p.productID ≠ []
  name : p.name ≠ []
  priceCents : 0 ≤ p.priceCents
  currency : p.currency ≠ []
  sourceJobID : isUUID p.sourceJobID = true

theorem validate_eq_ok_iff {p : Product} : p.validate = .ok () ↔ p.Valid := by
  unfold Product.validate
  constructor
  · intro h
    split_ifs at h with hm hp hn hprice hc hid
    exact ⟨hm, hp, hn, Int.not_lt.mp hprice, hc, by simpa using hid⟩
  · intro h
    rw [if_neg h.merchantID, if_neg h.productID, if_neg h.name,
      if_neg (Int.not_lt.mpr h.priceCents), if_neg h.currency, if_neg (by simp [h.sourceJobID])]

/-- Which events pass, and as what. -/
theorem fromEvent_eq_ok_iff {evt : ProductImported} {p : Product} :
    fromEvent evt = .ok p ↔ (productOf evt).Valid ∧ p = productOf evt := by
  unfold fromEvent
  rw [← validate_eq_ok_iff]
  cases (productOf evt).validate with
  | error err => simp
  | ok u => simp [eq_comm]

theorem isOk_fromEvent_iff {evt : ProductImported} :
    (fromEvent evt).isOk = true ↔ (productOf evt).Valid := by
  constructor
  · intro h
    cases hfrom : fromEvent evt with
    | ok p => exact (fromEvent_eq_ok_iff.mp hfrom).1
    | error err =>
      rw [hfrom] at h
      cases h
  · intro h
    rw [fromEvent_eq_ok_iff.mpr ⟨h, rfl⟩]
    rfl

/-- The products of the events that pass, in the order of the batch. -/
def accepted (evts : List ProductImported) : List Product :=
  evts.filterMap fun evt => (fromEvent evt).toOption

/-- The events of a batch that pass validation. -/
def validEvents (evts : List ProductImported) : List ProductImported :=
  evts.filter fun evt => (fromEvent evt).isOk

/-- What is accepted is what passes validation, in the order of the batch. -/
theorem accepted_eq (evts : List ProductImported) :
    accepted evts = (validEvents evts).map productOf := by
  induction evts with
  | nil => rfl
  | cons evt evts ih =>
    unfold accepted validEvents at ih ⊢
    cases hfrom : fromEvent evt with
    | ok p =>
      obtain ⟨-, rfl⟩ := fromEvent_eq_ok_iff.mp hfrom
      rw [List.filterMap_cons_some (by rw [hfrom]; rfl), List.filter_cons,
        if_pos (by rw [hfrom]; rfl), List.map_cons, ih]
    | error err =>
      rw [List.filterMap_cons_none (by rw [hfrom]; rfl), List.filter_cons,
        if_neg (by rw [hfrom]; exact Bool.false_ne_true), ih]

theorem valid_of_mem_accepted {evts : List ProductImported} {p : Product}
    (h : p ∈ accepted evts) : p.Valid := by
  rw [accepted_eq] at h
  obtain ⟨evt, hevt, rfl⟩ := List.mem_map.mp h
  exact isOk_fromEvent_iff.mp (List.mem_filter.mp hevt).2

end CsvProductUploader.Catalog

import CsvProductUploader.ImportJob.Price

/-!
# Importing what was exported

`normalize` is a projection: the product that it makes of a row, written out as the cells of
a row, is made of that row again.  Each field is settled by a lemma of its own; the second
pass goes through other branches than the first, since its identity is no longer derived,
its currency no longer blank and its date no longer in the American form.

## Main definitions

* `exported` — the cells that spell a product out.

## Main results

* `normalize_eq_ok_iff` — the checks of `normalize`, all of them passed.
* `normalize_exported` — importing an exported product changes nothing.
-/

namespace CsvProductUploader

open Checks

/-- The cells of a product, the price as dollars, point and cents. -/
def exported (p : ProductData) : Cells where
  merchantID := p.merchantID
  productID := p.productID
  name := p.name
  price := formatPrice p.priceCents.toNat
  currency := p.currency
  expiration := p.expirationDate

/-- What has passed every check of `normalize`. -/
theorem normalize_eq_ok_iff {upper : GoString → GoString} {c : Cells} {p : ProductData} :
    normalize upper c = .ok p ↔ ∃ cents expiration,
      trimSpace c.merchantID ≠ [] ∧ (trimSpace c.merchantID).length ≤ maxMerchantIDLen ∧
      trimSpace c.name ≠ [] ∧ (trimSpace c.name).length ≤ maxNameLen ∧
      (productIDOf c).length ≤ maxProductIDLen ∧ parsePriceCents c.price = .ok cents ∧
      currencyOf upper c ∈ validCurrencies ∧ parseExpiration c.expiration = .ok expiration ∧
      p = ⟨trimSpace c.merchantID, productIDOf c, trimSpace c.name, cents, currencyOf upper c,
        expiration⟩ := by
  unfold normalize
  simp only [bind_eq_ok_iff, reject_eq_ok_iff, mapError_eq_ok_iff, exists_const, not_lt,
    Decidable.not_not]
  constructor
  · rintro ⟨hm, hml, hn, hnl, hpl, cents, hcents, hcur, exp, hexp, hp⟩
    exact ⟨cents, exp, hm, hml, hn, hnl, hpl, hcents, hcur, hexp, (Except.ok.inj hp).symm⟩
  · rintro ⟨cents, exp, hm, hml, hn, hnl, hpl, hcents, hcur, hexp, rfl⟩
    exact ⟨hm, hml, hn, hnl, hpl, cents, hcents, hcur, exp, hexp, rfl⟩

/-! ### The fields -/

/-- A product identity is trimmed, wherever it comes from. -/
theorem trimSpace_productIDOf (c : Cells) : trimSpace (productIDOf c) = productIDOf c := by
  unfold productIDOf
  split
  · exact trimSpace_of_visible fun b hb => isVisible_of_mem_deriveProductID hb
  · exact trimSpace_trimSpace c.productID

theorem productIDOf_exported {p : ProductData} {c : Cells} (h : p.productID = productIDOf c) :
    productIDOf (exported p) = productIDOf c := by
  have htrim : trimSpace (exported p).productID = productIDOf c := by
    rw [exported, h, trimSpace_productIDOf]
  rw [productIDOf, htrim, if_neg (productIDOf_ne_nil c)]

/-- An accepted price is within what can be printed and read back. -/
theorem exists_cents_of_parsePriceCents {s : GoString} {cents : ℤ}
    (h : parsePriceCents s = .ok cents) : ∃ c : ℕ, cents = c ∧ c ≤ 100 * maxDollars + 99 := by
  rw [parsePriceCents_eq] at h
  cases hparts : priceParts s with
  | error err =>
    rw [hparts] at h
    cases h
  | ok p =>
    obtain ⟨dollars, frac⟩ := p
    rw [hparts] at h
    obtain rfl := Except.ok.inj h
    obtain ⟨ints, digits, hsplit, -, hdigits, -, hmax, rfl⟩ := priceParts_eq_ok_iff.mp hparts
    have hfrac := decimal_fraction_lt hsplit hdigits
    refine ⟨dollars * 100 + decimal digits, by push_cast; rfl, ?_⟩
    omega

/-- Visible text in upper case is its own upper case. -/
theorem toUpper_of_visible {s : GoString} (h : ∀ b ∈ s, isVisible b = true ∧ upperASCII b = b)
    (upper : GoString → GoString) : toUpper upper s = s := by
  rw [toUpper, Utf8.runes_of_ascii fun b hb => ascii_of_isVisible (h b hb).1, List.flatMap_map]
  induction s with
  | nil => rfl
  | cons b s ih =>
    rw [List.flatMap_cons, ih fun c hc => h c (List.mem_cons_of_mem _ hc)]
    exact congrArg (· :: s) (h b List.mem_cons_self).2

theorem currencyOf_exported {upper : GoString → GoString} {p : ProductData}
    (h : p.currency ∈ validCurrencies) : currencyOf upper (exported p) = p.currency := by
  have hvalid : ∀ s ∈ validCurrencies, s ≠ [] ∧ ∀ b ∈ s, isVisible b = true ∧ upperASCII b = b := by
    decide +kernel
  obtain ⟨hne, hvisible⟩ := hvalid _ h
  have htrim : trimSpace p.currency = p.currency :=
    trimSpace_of_visible fun b hb => (hvisible b hb).1
  rw [currencyOf, exported, htrim, toUpper_of_visible hvisible, if_neg hne]

theorem isVisible_of_mem_format {d : Date} {b : UInt8} (hb : b ∈ d.format) :
    isVisible b = true := by
  rcases mem_format hb with rfl | hdigit
  · decide
  · exact isVisible_of_isDigit hdigit

/-- The canonical text of an expiration is read back. -/
theorem parseExpiration_idem {s t : GoString} (h : parseExpiration s = .ok t) :
    parseExpiration t = .ok t := by
  rcases parseExpiration_eq_ok h with ⟨rfl, -⟩ | ⟨d, rfl, hexists, hyear, -⟩
  · rfl
  · have htrim : trimSpace d.format = d.format :=
      trimSpace_of_visible fun b hb => isVisible_of_mem_format hb
    rw [parseExpiration, htrim, if_neg (format_ne_nil d), dateLayouts, List.findSome?_cons,
      parseTime_format hexists hyear]

/-! ### The row -/

/-- **Importing an exported product changes nothing.** -/
theorem normalize_exported {upper : GoString → GoString} {c : Cells} {p : ProductData}
    (h : normalize upper c = .ok p) : normalize upper (exported p) = .ok p := by
  obtain ⟨cents, expiration, hmerchant, hmerchantLen, hname, hnameLen, hproductLen, hcents,
    hcurrency, hexpiration, hp⟩ := normalize_eq_ok_iff.mp h
  obtain ⟨c', rfl, hmax⟩ := exists_cents_of_parsePriceCents hcents
  have hproduct : productIDOf (exported p) = productIDOf c := productIDOf_exported (by rw [hp])
  have hcurrency' : currencyOf upper (exported p) = currencyOf upper c := by
    rw [currencyOf_exported (by rw [hp]; exact hcurrency), hp]
  rw [normalize_eq_ok_iff, hproduct, hcurrency']
  subst hp
  simp only [exported, trimSpace_trimSpace]
  exact ⟨c', expiration, hmerchant, hmerchantLen, hname, hnameLen, hproductLen,
    parsePriceCents_formatPrice hmax, hcurrency, parseExpiration_idem hexpiration, rfl⟩

/-- A row whose identity is derived, with a currency symbol, a blank currency and an American
date. -/
theorem normalize_exported_lamp :
    normalize id (exported ⟨lit "m1", lit "42", lit "Lamp #(42)", 550, lit "USD",
      lit "2026-01-02"⟩) =
        .ok ⟨lit "m1", lit "42", lit "Lamp #(42)", 550, lit "USD", lit "2026-01-02"⟩ :=
  normalize_exported (c := ⟨lit " m1", [], lit "Lamp #(42) ", lit "$5.5", lit " ",
    lit "1/2/2026"⟩) (by decide +kernel)

end CsvProductUploader

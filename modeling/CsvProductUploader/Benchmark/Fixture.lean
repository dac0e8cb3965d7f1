import CsvProductUploader.ImportJob.Columns
import CsvProductUploader.ImportJob.Handover
import CsvProductUploader.ImportJob.Records
import CsvProductUploader.ImportJob.Reimport
import CsvProductUploader.Lib.CsvWriter

/-!
# The fixtures of the benchmark

The generator writes a product file row by row from random numbers, and beside it what to
expect of its import.  Whatever the numbers are, `Stream` makes exactly that of the file.

## Main definitions

* `Draw` — the random numbers of a row.
* `fixture`, `metaOf` — the file, and what is expected of it.
* `Meets` — the rows of a file are those that were expected.

## Main results

* `openStream_write` — a written file is opened with its columns and its records.
* `fixture_meets` — **a fixture is imported as it says**.
-/

namespace CsvProductUploader.Benchmark

open Checks CsvReader Handover

/-! ### The generator -/

def adjectives : List GoString :=
  [lit "Wireless", lit "Ergonomic", lit "Compact", lit "Industrial", lit "Portable",
    lit "Precision", lit "Deluxe", lit "Classic", lit "Modern", lit "Rugged",
    lit "Sleek", lit "Heavy", lit "Duty", lit "Ultra", lit "Pro",
    lit "Standard", lit "Premium", lit "Lightweight", lit "Robust", lit "Versatile"]

def nouns : List GoString :=
  [lit "Gadget", lit "Widget", lit "Analyzer", lit "Console", lit "Module",
    lit "Router", lit "Sensor", lit "Terminal", lit "Amplifier", lit "Controller",
    lit "Monitor", lit "Adapter", lit "Converter", lit "Receiver", lit "Transmitter",
    lit "Calibrator", lit "Projector", lit "Scanner", lit "Encoder", lit "Regulator"]

def currencies : List GoString :=
  [lit "USD", lit "EUR", lit "GBP", lit "JPY", lit "INR", lit "AUD", lit "CAD", lit "CHF"]

/-- The random numbers of a row, in the order in which they are drawn. -/
structure Draw (merchants : ℕ) where
  merchant : Fin merchants
  adjective : Fin 20
  noun : Fin 20
  serial : Fin 999999
  dollars : Fin 2000
  cents : Fin 100
  currency : Fin 8
  dated : Fin 10
  /-- The date is drawn only for a row that has one. -/
  year : Fin 5
  month : Fin 12
  day : Fin 28
  permille : Fin 1000

/-- `%0wd`. -/
def formatPadded (w n : ℕ) : GoString :=
  List.replicate (w - (formatDecimal n).length) 0x30 ++ formatDecimal n

/-- `SKU-%09d` -/
def sku (i : ℕ) : GoString := lit "SKU-" ++ formatPadded 9 i

namespace Draw

variable {merchants : ℕ} (d : Draw merchants)

def merchantID : GoString := lit "bench-m" ++ formatPadded 2 d.merchant

/-- `%s %s #%d` -/
def name : GoString :=
  adjectives[d.adjective] ++ lit " " ++ nouns[d.noun] ++ lit " #" ++ formatDecimal d.serial

/-- `%d.%02d` -/
def price : GoString := formatDecimal (d.dollars + 1) ++ lit "." ++ formatPadded 2 d.cents

/-- `%d-%02d-%02d` -/
def date : GoString :=
  formatDecimal (2025 + d.year) ++ lit "-" ++ formatPadded 2 (d.month + 1) ++ lit "-" ++
    formatPadded 2 (d.day + 1)

def expiration : GoString := if d.dated < 7 then d.date else []

/-- The row violates a field rule. -/
def Broken (invalidPermille : ℤ) : Prop := (d.permille : ℤ) < invalidPermille

instance (invalidPermille : ℤ) : Decidable (d.Broken invalidPermille) :=
  inferInstanceAs (Decidable (_ < _))

/-- The fields of row `i`. -/
def record (invalidPermille : ℤ) (i : ℕ) : List GoString :=
  let currency := currencies[d.currency]
  if d.Broken invalidPermille then
    match d.permille.val % 3 with
    | 0 => [d.merchantID, sku i, [], d.price, currency, d.expiration]
    | 1 => [d.merchantID, sku i, d.name, lit "N/A", currency, d.expiration]
    | _ => [d.merchantID, sku i, d.name, d.price, currency, lit "31-31-2023"]
  else [d.merchantID, sku i, d.name, d.price, currency, d.expiration]

end Draw

def header : List GoString :=
  [lit "merchant_id", lit "product_id", lit "name", lit "price", lit "currency",
    lit "expiration_date"]

section
variable {merchants : ℕ} (invalidPermille : ℤ)

/-- The rows from number `i` on. -/
def recordsFrom : ℕ → List (Draw merchants) → List (List GoString)
  | _, [] => []
  | i, d :: ds => d.record invalidPermille i :: recordsFrom (i + 1) ds

/-- The bytes of the file. -/
def fixture (draws : List (Draw merchants)) : GoString :=
  write 0x2C (header :: recordsFrom invalidPermille 0 draws)

/-- `meta`, less the seed and the time. -/
structure Meta where
  rows : ℕ
  validRows : ℕ
  invalidRows : ℕ
  uniqueProducts : ℕ
  merchants : ℕ
  bytes : ℕ
  deriving DecidableEq, Repr

def metaOf (draws : List (Draw merchants)) : Meta :=
  let invalid := draws.countP (·.Broken invalidPermille)
  { rows := draws.length
    validRows := draws.length - invalid
    invalidRows := invalid
    uniqueProducts := draws.length - invalid
    merchants
    bytes := (fixture invalidPermille draws).length }

end

/-- The rows of the file are those that were expected. -/
structure Meets (m : Meta) (file : File) : Prop where
  ending : file.ending = none
  rows : file.rows.length = m.rows
  valid : (validRows file.rows).length = m.validRows
  invalid : (file.rows.filter fun row => !row.valid).length = m.invalidRows
  unique : ((validRows file.rows).map fun row =>
    (row.product.merchantID, row.product.productID)).dedup.length = m.uniqueProducts

/-! ### Formatted numbers -/

theorem decimal_zeros (k : ℕ) (s : GoString) :
    decimal (List.replicate k 0x30 ++ s) = decimal s := by
  induction k with
  | zero => rfl
  | succ k ih => rw [List.replicate_succ, List.cons_append, ← ih]; rfl

theorem decimal_formatPadded (w n : ℕ) : decimal (formatPadded w n) = n := by
  rw [formatPadded, decimal_zeros, decimal_formatDecimal]

theorem isDigit_of_mem_formatPadded {w n : ℕ} {b : UInt8} (hb : b ∈ formatPadded w n) :
    isDigit b = true := by
  rcases List.mem_append.mp hb with hb | hb
  · rw [List.eq_of_mem_replicate hb]
    decide
  · exact isDigit_of_mem_formatDecimal hb

theorem length_formatFrom {k n m : ℕ} (h : n < 10 ^ (m + 1)) :
    (formatFrom k n).length ≤ m + 1 := by
  induction k generalizing n m with
  | zero => exact Nat.succ_le_succ (Nat.zero_le m)
  | succ k ih =>
    unfold formatFrom
    split
    · exact Nat.succ_le_succ (Nat.zero_le m)
    · next hge =>
      cases m with
      | zero => omega
      | succ m =>
        have hlt : n / 10 < 10 ^ (m + 1) := by
          rw [Nat.div_lt_iff_lt_mul (by decide), ← Nat.pow_succ]
          exact h
        rw [List.length_append, List.length_singleton]
        exact Nat.succ_le_succ (ih hlt)

/-- A number of the machine has at most 19 digits. -/
theorem length_formatPadded {w n : ℕ} (hw : w ≤ 19) (h : n < 2 ^ 63) :
    (formatPadded w n).length ≤ 19 := by
  have hlen : (formatDecimal n).length ≤ 19 :=
    length_formatFrom (m := 18) (Nat.lt_trans h (by decide))
  rw [formatPadded, List.length_append, List.length_replicate]
  omega

theorem sku_injective : Function.Injective sku := by
  intro i j h
  rw [← decimal_formatPadded 9 i, ← decimal_formatPadded 9 j, List.append_cancel_left h]

theorem formatPadded_two : ∀ n : Fin 100, formatPadded 2 n = [digit (n / 10), digit n] := by
  decide

/-! ### The fields of a row -/

/-- The characters of a text are looked at one by one. -/
local instance decidableForallMem (P : UInt8 → Prop) [DecidablePred P] (s : GoString) :
    Decidable (∀ b ∈ s, P b) :=
  List.decidableBAll P s

/-- A visible character that means nothing to a reader of records. -/
def Sober (b : UInt8) : Prop := isVisible b = true ∧ b ≠ 0x22 ∧ b ≠ 0x2C

instance (b : UInt8) : Decidable (Sober b) := inferInstanceAs (Decidable (_ ∧ _))

theorem sober_of_isDigit {b : UInt8} (h : isDigit b = true) : Sober b := by
  refine ⟨isVisible_of_isDigit h, ?_, ?_⟩
  · rintro rfl
    revert h
    decide
  · rintro rfl
    revert h
    decide

theorem unquoted_of_sober {f : GoString} (h : ∀ b ∈ f, Sober b) : Unquoted 0x2C f := by
  intro b hb
  obtain ⟨hvisible, hquote, hcomma⟩ := h b hb
  refine ⟨hquote, hcomma, ?_, ?_⟩
  · rintro rfl
    revert hvisible
    decide
  · rintro rfl
    revert hvisible
    decide

theorem trimSpace_of_sober {f : GoString} (h : ∀ b ∈ f, Sober b) : trimSpace f = f :=
  trimSpace_of_visible fun b hb => (h b hb).1

/-- Text that starts and ends with a visible character is not trimmed. -/
theorem trimSpace_of_ends {s : GoString} (hascii : ∀ b ∈ s, b < 0x80)
    (hfirst : ∀ b ∈ s.head?, isVisible b = true) (hlast : ∀ b ∈ s.getLast?, isVisible b = true) :
    trimSpace s = s := by
  have hrunes := Utf8.runes_of_ascii hascii
  have hleft : (Utf8.runes s).dropWhile isSpace = Utf8.runes s := by
    rw [hrunes]
    cases s with
    | nil => rfl
    | cons b s =>
      rw [List.map_cons, List.dropWhile_cons_of_neg]
      rw [not_isSpace_of_isVisible (hfirst b rfl)]
      exact Bool.false_ne_true
  have hright : (Utf8.runes s).rdropWhile isSpace = Utf8.runes s := by
    rw [hrunes, List.rdropWhile_eq_self_iff]
    intro hne
    rw [List.getLast_map, not_isSpace_of_isVisible (hlast _ (List.getLast?_eq_getLast_of_ne_nil _))]
    exact Bool.false_ne_true
  rw [trimSpace, hleft, hright, Utf8.flatMap_runes]

theorem sober_sku (i : ℕ) : ∀ b ∈ sku i, Sober b := by
  have hlit : ∀ b ∈ lit "SKU-", Sober b := by decide
  intro b hb
  rcases List.mem_append.mp hb with hb | hb
  · exact hlit b hb
  · exact sober_of_isDigit (isDigit_of_mem_formatPadded hb)

theorem sober_currencies : ∀ c ∈ currencies, ∀ b ∈ c, Sober b := by decide

namespace Draw

variable {merchants : ℕ} (d : Draw merchants)

theorem sober_merchantID : ∀ b ∈ d.merchantID, Sober b := by
  have hlit : ∀ b ∈ lit "bench-m", Sober b := by decide
  intro b hb
  rcases List.mem_append.mp hb with hb | hb
  · exact hlit b hb
  · exact sober_of_isDigit (isDigit_of_mem_formatPadded hb)

theorem price_eq : d.price = formatPrice (100 * (d.dollars + 1) + d.cents) := by
  have hcents := d.cents.isLt
  have hdollars : (100 * (d.dollars.val + 1) + d.cents) / 100 = d.dollars + 1 := by omega
  have hdigits : formatPadded 2 d.cents = [digit ((100 * (d.dollars.val + 1) + d.cents) / 10),
      digit (100 * (d.dollars.val + 1) + d.cents)] := by
    rw [formatPadded_two]
    simp only [digit, List.cons.injEq, and_true]
    constructor <;> congr 2 <;> omega
  rw [price, formatPrice, hdollars, hdigits, List.append_assoc]
  rfl

theorem sober_price : ∀ b ∈ d.price, Sober b := by
  have hlit : ∀ b ∈ lit ".", Sober b := by decide
  intro b hb
  rw [price, List.append_assoc] at hb
  rcases List.mem_append.mp hb with hb | hb
  · exact sober_of_isDigit (isDigit_of_mem_formatDecimal hb)
  rcases List.mem_append.mp hb with hb | hb
  · exact hlit b hb
  · exact sober_of_isDigit (isDigit_of_mem_formatPadded hb)

theorem date_eq : d.date = Date.format ⟨2025 + d.year, d.month + 1, d.day + 1⟩ := by
  have hyear : ∀ y : Fin 5, formatDecimal (2025 + y) =
      [digit ((2025 + y) / 1000), digit ((2025 + y) / 100), digit ((2025 + y) / 10),
        digit (2025 + y)] := by decide
  have hmonth := formatPadded_two ⟨d.month + 1, by omega⟩
  have hday := formatPadded_two ⟨d.day + 1, by omega⟩
  dsimp only at hmonth hday
  rw [date, hyear, hmonth, hday]
  rfl

theorem exists_date : Date.Exists ⟨2025 + d.year, d.month + 1, d.day + 1⟩ := by
  have hdays : ∀ (y : Fin 5) (m : Fin 12), 28 ≤ daysIn (m + 1) (2025 + y) := by decide
  have hmax := hdays d.year d.month
  have hday := d.day.isLt
  have hmonth := d.month.isLt
  unfold Date.Exists
  dsimp only
  omega

/-- The expiration is read as it stands. -/
theorem parseExpiration_expiration : parseExpiration d.expiration = .ok d.expiration := by
  unfold expiration
  split
  · have htrim : trimSpace d.date = d.date := by
      rw [date_eq]
      exact trimSpace_of_visible fun b hb => isVisible_of_mem_format hb
    rw [parseExpiration, htrim, if_neg (by rw [date_eq]; exact format_ne_nil _), dateLayouts,
      List.findSome?_cons, date_eq, parseTime_format d.exists_date (by dsimp only; omega)]
  · rfl

theorem sober_expiration : ∀ b ∈ d.expiration, Sober b := by
  unfold expiration
  split
  · rw [date_eq]
    intro b hb
    rcases mem_format hb with rfl | hdigit
    · decide
    · exact sober_of_isDigit hdigit
  · exact fun b hb => absurd hb List.not_mem_nil

/-- The words of the names. -/
theorem sober_words : ∀ w ∈ adjectives ++ nouns,
    w ≠ [] ∧ w.length ≤ 11 ∧ ∀ b ∈ w, Sober b := by decide

theorem adjective_mem : adjectives[d.adjective] ∈ adjectives ++ nouns :=
  List.mem_append_left _ (List.getElem_mem _)

theorem noun_mem : nouns[d.noun] ∈ adjectives ++ nouns :=
  List.mem_append_right _ (List.getElem_mem _)

theorem mem_name {b : UInt8} (hb : b ∈ d.name) : Sober b ∨ b = 0x20 := by
  have hlit : ∀ b ∈ lit " #", Sober b ∨ b = 0x20 := by decide
  simp only [name, List.mem_append] at hb
  rcases hb with (((hb | hb) | hb) | hb) | hb
  · exact Or.inl ((sober_words _ d.adjective_mem).2.2 b hb)
  · exact Or.inr (List.mem_singleton.mp hb)
  · exact Or.inl ((sober_words _ d.noun_mem).2.2 b hb)
  · exact hlit b hb
  · exact Or.inl (sober_of_isDigit (isDigit_of_mem_formatDecimal hb))

theorem trimSpace_name : trimSpace d.name = d.name := by
  apply trimSpace_of_ends
  · intro b hb
    rcases d.mem_name hb with hsober | rfl
    · exact ascii_of_isVisible hsober.1
    · decide
  · obtain ⟨hne, -, hsober⟩ := sober_words _ d.adjective_mem
    intro b hb
    rw [name, List.append_assoc, List.append_assoc, List.append_assoc,
      List.head?_append_of_ne_nil _ hne] at hb
    exact (hsober b (List.mem_of_head? hb)).1
  · intro b hb
    rw [name, List.getLast?_append_of_ne_nil _ (formatDecimal_ne_nil _)] at hb
    exact isVisible_of_isDigit (isDigit_of_mem_formatDecimal (List.mem_of_getLast? hb))

theorem name_ne_nil : d.name ≠ [] :=
  List.append_ne_nil_of_right_ne_nil _ (formatDecimal_ne_nil _)

theorem length_name : d.name.length ≤ maxNameLen := by
  obtain ⟨-, hadjective, -⟩ := sober_words _ d.adjective_mem
  obtain ⟨-, hnoun, -⟩ := sober_words _ d.noun_mem
  have hserial : (formatDecimal d.serial).length ≤ 6 :=
    length_formatFrom (m := 5) (Nat.lt_trans d.serial.isLt (by decide))
  have hblank : (lit " ").length = 1 ∧ (lit " #").length = 2 := by decide
  simp only [name, List.length_append, hblank]
  unfold maxNameLen
  omega

end Draw

/-! ### The columns -/

/-- The columns of a header whose names are as they are filed. -/
def columnsOf (names : List GoString) (name : GoString) : Option ℕ :=
  if name ∈ names then some (names.idxOf name) else none

/-- Visible text in lower case is its own lower case. -/
theorem toLower_of_visible {s : GoString} (h : ∀ b ∈ s, isVisible b = true ∧ lowerASCII b = b)
    (lower : GoString → GoString) : toLower lower s = s := by
  rw [toLower, Utf8.runes_of_ascii fun b hb => ascii_of_isVisible (h b hb).1, List.flatMap_map]
  induction s with
  | nil => rfl
  | cons b s ih =>
    rw [List.flatMap_cons, ih fun c hc => h c (List.mem_cons_of_mem _ hc)]
    exact congrArg (· :: s) (h b List.mem_cons_self).2

theorem mapColumns_header (lower : GoString → GoString) :
    mapColumns lower header = .ok (columnsOf header) := by
  have hcells : ∀ cell ∈ header,
      (∀ b ∈ cell, isVisible b = true ∧ lowerASCII b = b) ∧ columnAlias cell = cell := by
    decide
  have hnames : header.map (canonicalName lower) = header := by
    refine (List.map_congr_left fun cell hcell => ?_).trans header.map_id
    obtain ⟨hvisible, halias⟩ := hcells cell hcell
    rw [canonicalName, trimSpace_of_visible fun b hb => (hvisible b hb).1,
      toLower_of_visible hvisible, halias]
    rfl
  rw [mapColumns_eq_ok_iff, hnames]
  exact ⟨by decide, by decide, fun name => rfl⟩

theorem cellsOf_header (opts : StreamOptions) {c : Cells} (h : trimSpace c.currency ≠ []) :
    cellsOf (columnsOf header)
      [c.merchantID, c.productID, c.name, c.price, c.currency, c.expiration] opts = some c := by
  have hcolumns : columnsOf header (lit "merchant_id") = some 0 ∧
      columnsOf header (lit "product_id") = some 1 ∧ columnsOf header (lit "name") = some 2 ∧
      columnsOf header (lit "price") = some 3 ∧ columnsOf header (lit "currency") = some 4 ∧
      columnsOf header (lit "expiration_date") = some 5 := by decide
  obtain ⟨h0, h1, h2, h3, h4, h5⟩ := hcolumns
  simp [cellsOf, column, h0, h1, h2, h3, h4, h5, h]

/-! ### The rows -/

namespace Draw

variable {merchants : ℕ} (d : Draw merchants) (invalidPermille : ℤ) (i : ℕ)

/-- The cells of row `i`. -/
def cells : Cells where
  merchantID := d.merchantID
  productID := sku i
  name := if d.Broken invalidPermille ∧ d.permille.val % 3 = 0 then [] else d.name
  price := if d.Broken invalidPermille ∧ d.permille.val % 3 = 1 then lit "N/A" else d.price
  currency := currencies[d.currency]
  expiration :=
    if d.Broken invalidPermille ∧ d.permille.val % 3 = 2 then lit "31-31-2023" else d.expiration

theorem record_eq : d.record invalidPermille i =
    [(d.cells invalidPermille i).merchantID, (d.cells invalidPermille i).productID,
      (d.cells invalidPermille i).name, (d.cells invalidPermille i).price,
      (d.cells invalidPermille i).currency, (d.cells invalidPermille i).expiration] := by
  by_cases hbroken : d.Broken invalidPermille
  · have hlt : d.permille.val % 3 < 3 := Nat.mod_lt _ (by decide)
    unfold record cells
    simp only [hbroken, if_true, true_and]
    generalize d.permille.val % 3 = r at hlt
    match r, hlt with
    | 0, _ => rfl
    | 1, _ => rfl
    | 2, _ => rfl
  · simp [record, cells, hbroken]

theorem currency_mem : currencies[d.currency] ∈ currencies := List.getElem_mem _

theorem trimSpace_currency : trimSpace currencies[d.currency] = currencies[d.currency] :=
  trimSpace_of_sober (sober_currencies _ d.currency_mem)

theorem currencies_valid : ∀ c ∈ currencies,
    c ≠ [] ∧ c ∈ validCurrencies ∧ ∀ b ∈ c, isVisible b = true ∧ upperASCII b = b := by
  decide

theorem currencyOf_cells (upper : GoString → GoString) :
    currencyOf upper (d.cells invalidPermille i) = currencies[d.currency] := by
  obtain ⟨hne, -, hvisible⟩ := currencies_valid _ d.currency_mem
  rw [currencyOf, cells, trimSpace_currency, toUpper_of_visible hvisible, if_neg hne]

theorem productIDOf_cells : productIDOf (d.cells invalidPermille i) = sku i := by
  have htrim : trimSpace (d.cells invalidPermille i).productID = sku i :=
    trimSpace_of_sober (sober_sku i)
  have hne : sku i ≠ [] := List.cons_ne_nil _ _
  rw [productIDOf, htrim, if_neg hne]

theorem length_sku {i : ℕ} (h : i < 2 ^ 63) : (sku i).length ≤ maxProductIDLen := by
  have hlen := length_formatPadded (w := 9) (by decide) h
  have hlit : (lit "SKU-").length = 4 := by decide
  rw [sku, List.length_append, hlit]
  unfold maxProductIDLen
  omega

theorem length_merchantID (h : merchants ≤ 2 ^ 63) : d.merchantID.length ≤ maxMerchantIDLen := by
  have hlen := length_formatPadded (w := 2) (by decide) (Nat.lt_of_lt_of_le d.merchant.isLt h)
  have hlit : (lit "bench-m").length = 7 := by decide
  rw [merchantID, List.length_append, hlit]
  unfold maxMerchantIDLen
  omega

/-- A row that is not broken passes every check. -/
theorem normalize_cells (upper : GoString → GoString) (hm : merchants ≤ 2 ^ 63) {i : ℕ}
    (hi : i < 2 ^ 63) (hbroken : ¬d.Broken invalidPermille) :
    ∃ p, normalize upper (d.cells invalidPermille i) = .ok p ∧ p.productID = sku i := by
  have hmerchant : trimSpace (d.cells invalidPermille i).merchantID = d.merchantID :=
    trimSpace_of_sober d.sober_merchantID
  have hname : trimSpace (d.cells invalidPermille i).name = d.name := by
    simpa [cells, hbroken] using d.trimSpace_name
  have hprice : parsePriceCents (d.cells invalidPermille i).price =
      .ok (100 * (d.dollars + 1) + d.cents : ℕ) := by
    have hcents := d.cents.isLt
    have hdollars := d.dollars.isLt
    have hmax : 2000 ≤ maxDollars := by decide
    simp only [cells, hbroken, false_and, if_false]
    rw [price_eq]
    exact parsePriceCents_formatPrice (by omega)
  have hexpiration : parseExpiration (d.cells invalidPermille i).expiration = .ok d.expiration := by
    simpa [cells, hbroken] using d.parseExpiration_expiration
  -- What is left of `normalize` are the bounds on the lengths and the currency.
  refine ⟨_, normalize_eq_ok_iff.mpr ⟨_, _, ?_, ?_, ?_, ?_, ?_, hprice, ?_, hexpiration, rfl⟩,
    d.productIDOf_cells ..⟩
  · rw [hmerchant]
    exact List.cons_ne_nil _ _
  · rw [hmerchant]
    exact d.length_merchantID hm
  · rw [hname]
    exact d.name_ne_nil
  · rw [hname]
    exact d.length_name
  · rw [productIDOf_cells]
    exact length_sku hi
  · rw [currencyOf_cells]
    exact (currencies_valid _ d.currency_mem).2.1

/-- A broken row is rejected, whichever of the three rules it violates. -/
theorem not_normalize_cells (upper : GoString → GoString)
    (hbroken : d.Broken invalidPermille) (p : ProductData) :
    normalize upper (d.cells invalidPermille i) ≠ .ok p := by
  intro hok
  obtain ⟨cents, expiration, -, -, hname, -, -, hprice, -, hexpiration, -⟩ :=
    normalize_eq_ok_iff.mp hok
  -- The generator breaks the name, the price or the date, whichever the remainder says.
  have hlt : d.permille.val % 3 < 3 := Nat.mod_lt _ (by decide)
  have hcases : d.permille.val % 3 = 0 ∨ d.permille.val % 3 = 1 ∨ d.permille.val % 3 = 2 := by
    omega
  rcases hcases with hr | hr | hr
  · simp only [cells, hbroken, hr, true_and, if_true] at hname
    exact hname rfl
  · have hbad : ∀ c, parsePriceCents (lit "N/A") ≠ .ok c := by
      have herr : parsePriceCents (lit "N/A") = .error .notDecimal := by decide
      intro c heq
      rw [herr] at heq
      cases heq
    simp only [cells, hbroken, hr, true_and, if_true] at hprice
    exact hbad _ hprice
  · have hbad : ∀ e, parseExpiration (lit "31-31-2023") ≠ .ok e := by
      have herr : (parseExpiration (lit "31-31-2023")).isOk = false := by decide
      intro e heq
      rw [heq] at herr
      cases herr
    simp only [cells, hbroken, hr, true_and, if_true] at hexpiration
    exact hbad _ hexpiration

/-- What `parseRow` makes of row `i`. -/
theorem parseRow_record (upper : GoString → GoString) (opts : StreamOptions)
    (hm : merchants ≤ 2 ^ 63) (hi : i < 2 ^ 63) (num : ℕ) :
    ∃ row, parseRow upper num (columnsOf header) (d.record invalidPermille i) opts = some row ∧
      row.valid = !decide (d.Broken invalidPermille) ∧
      (row.valid = true → row.product.productID = sku i) := by
  have hne : trimSpace (d.cells invalidPermille i).currency ≠ [] := by
    rw [cells, trimSpace_currency]
    exact (currencies_valid _ d.currency_mem).1
  rw [parseRow, record_eq, cellsOf_header opts hne, Option.map_some]
  refine ⟨_, rfl, ?_⟩
  by_cases hbroken : d.Broken invalidPermille
  · cases hnormal : normalize upper (d.cells invalidPermille i) with
    | ok p => exact absurd hnormal (d.not_normalize_cells invalidPermille i upper hbroken p)
    | error reason => simp [hbroken, Row.valid]
  · obtain ⟨p, hp, hid⟩ := d.normalize_cells invalidPermille upper hm hi hbroken
    simp [hp, hid, hbroken, Row.valid]

/-- Row `i` can be written without quotes. -/
theorem writable_record : Writable 0x2C (d.record invalidPermille i) := by
  have hsober : ∀ {f : GoString}, (∀ b ∈ f, Sober b) → Unquoted 0x2C f := unquoted_of_sober
  have hempty : Unquoted 0x2C [] := hsober fun b hb => absurd hb List.not_mem_nil
  have hcurrency := hsober (sober_currencies _ d.currency_mem)
  -- A name holds `#` beside the sober characters, and that needs no quotes either.
  have hname : Unquoted 0x2C d.name := by
    intro b hb
    rcases d.mem_name hb with hb | rfl
    · exact unquoted_of_sober (f := [b]) (by simpa using hb) b List.mem_cons_self
    · decide
  have hprice : Unquoted 0x2C (lit "N/A") := by decide
  have hexpiration : Unquoted 0x2C (lit "31-31-2023") := by decide
  rw [record_eq]
  refine ⟨?_, List.cons_ne_nil _ _, by simp⟩
  simp only [List.forall_mem_cons, List.not_mem_nil, false_imp_iff, implies_true, and_true, cells]
  refine ⟨hsober d.sober_merchantID, hsober (sober_sku i), ?_, ?_, hcurrency, ?_⟩
  · split
    · exact hempty
    · exact hname
  · split
    · exact hprice
    · exact hsober d.sober_price
  · split
    · exact hexpiration
    · exact hsober d.sober_expiration

@[simp] theorem length_record : (d.record invalidPermille i).length = header.length := by
  rw [record_eq]
  rfl

end Draw

/-! ### The file -/

section
variable {merchants : ℕ} (invalidPermille : ℤ)

theorem mem_recordsFrom {i : ℕ} {draws : List (Draw merchants)} {record : List GoString}
    (h : record ∈ recordsFrom invalidPermille i draws) :
    Writable 0x2C record ∧ record.length = header.length := by
  induction draws generalizing i with
  | nil => cases h
  | cons d draws ih =>
    rcases List.mem_cons.mp h with rfl | h
    · exact ⟨d.writable_record .., d.length_record ..⟩
    · exact ih h

/-- The rows of the records from number `i` on. -/
theorem exists_rowsFrom_recordsFrom (upper lower : GoString → GoString) (quote : GoString → String)
    (opts : StreamOptions) (hm : merchants ≤ 2 ^ 63) {i : ℕ} {draws : List (Draw merchants)}
    (hlen : i + draws.length ≤ 2 ^ 63) (num : ℕ) :
    ∃ rows, rowsFrom (strict upper lower quote) opts (columnsOf header) num
        ((recordsFrom invalidPermille i draws).map .ok) = some rows ∧
      rows.length = draws.length ∧
      (rows.filter fun row => !row.valid).length = draws.countP (·.Broken invalidPermille) ∧
      ((validRows rows).map fun row => row.product.productID).Sublist
        ((List.range' i draws.length).map sku) := by
  induction draws generalizing i num with
  | nil => exact ⟨[], rfl, rfl, rfl, List.Sublist.refl _⟩
  | cons d draws ih =>
    rw [List.length_cons] at hlen
    obtain ⟨row, hrow, hvalid, hid⟩ :=
      d.parseRow_record invalidPermille i upper opts hm (by omega) (num + 1)
    obtain ⟨rows, hrows, hcount, hinvalid, hsub⟩ := ih (i := i + 1) (by omega) (num + 1)
    refine ⟨row :: rows, ?_, by rw [List.length_cons, List.length_cons, hcount], ?_, ?_⟩
    · have hread : rowOfRead (strict upper lower quote) opts (columnsOf header) (num + 1)
          (.ok (d.record invalidPermille i)) = some row := hrow
      simp [recordsFrom, rowsFrom, hread, hrows]
    · by_cases hbroken : d.Broken invalidPermille <;>
        simp [hvalid, hbroken, hinvalid]
    · -- Of a broken record there is no product: the numbers of the valid rows are a sublist.
      rw [List.length_cons, List.range'_succ, List.map_cons]
      by_cases hok : row.valid = true
      · rw [validRows, List.filter_cons_of_pos hok, List.map_cons, hid hok]
        exact hsub.cons_cons _
      · rw [validRows, List.filter_cons_of_neg hok]
        exact hsub.cons _

/-- A written file is opened with its columns and its records. -/
theorem openStream_write (upper lower : GoString → GoString) (quote : GoString → String)
    {records : List (List GoString)}
    (h : ∀ record ∈ records, Writable 0x2C record ∧ record.length = header.length) :
    openStream (strict upper lower quote) (write 0x2C (header :: records)) =
      .ok (columnsOf header, records.map .ok) := by
  set src := write 0x2C (header :: records) with hsrc
  have hheader : Writable 0x2C header := ⟨by decide, by decide, by decide⟩
  have hwrite : src = joinFields 0x2C header ++ 0x0A :: write 0x2C records := write_cons ..
  have hstrip : stripBOM src = src := by
    rw [hwrite, stripBOM_append_lf]
    exact congrArg (· ++ _) (by decide)
  have hflat : 0x0A ∉ joinFields 0x2C header := by decide
  have hdelim : fileDelimiter src = .ok 0x2C := by
    rw [fileDelimiter_eq_ok_iff (by rw [hstrip, hwrite]; simp), hstrip, hwrite, headerLine_lf hflat]
    exact ⟨by decide, by decide +kernel⟩
  have hresults : (results 0x2C src (none : Option String)).map Entry.result =
      (header :: records).map .ok :=
    results_write (by decide) (by decide) (by decide)
      (List.forall_mem_cons.mpr ⟨hheader, fun record hrecord => (h record hrecord).1⟩)
  obtain ⟨e, es, hres, he, hes⟩ := List.map_eq_cons_iff.mp hresults
  -- Every record is as wide as the header, so that the reader has nothing to object to.
  have hreads : es.map (readOf e) = records.map .ok := by
    have hread : ∀ e' ∈ es, readOf e e' = e'.result.mapError failureText := by
      intro e' he'
      have hmem : e'.result ∈ records.map .ok := hes ▸ List.mem_map_of_mem he'
      obtain ⟨record, hrecord, heq⟩ := List.mem_map.mp hmem
      simp only [readOf, checkWidth, width, he, ← heq, (h record hrecord).2, if_true]
    calc es.map (readOf e) = (es.map Entry.result).map (Except.mapError failureText) := by
          rw [List.map_congr_left hread, List.map_map]
          rfl
      _ = records.map .ok := by
          rw [hes, List.map_map]
          rfl
  rw [openStream_of_results hdelim (by rw [hstrip]; exact hres), opened, he, hreads]
  simp [Except.mapError, mapColumns_header, bind, Except.bind, pure, Except.pure]

end

/-- **A fixture is imported as it says**: whatever is drawn, the file of less than 2⁶³ rows
yields the rows, the valid rows and the products that stand beside it. -/
theorem fixture_meets (upper lower : GoString → GoString) (quote : GoString → String)
    (opts : StreamOptions) {merchants : ℕ} (hm : merchants ≤ 2 ^ 63) (invalidPermille : ℤ)
    (draws : List (Draw merchants)) (hlen : draws.length ≤ 2 ^ 63) :
    ∃ file, stream (strict upper lower quote) opts (fixture invalidPermille draws) = some file ∧
      Meets (metaOf invalidPermille draws) file := by
  have hbound : 0 + draws.length ≤ 2 ^ 63 := by omega
  obtain ⟨rows, hrows, hcount, hinvalid, hsub⟩ := exists_rowsFrom_recordsFrom invalidPermille
    upper lower quote opts hm hbound 1
  have hopen := openStream_write upper lower quote
    fun record (hr : record ∈ recordsFrom invalidPermille 0 draws) =>
      mem_recordsFrom invalidPermille hr
  have hvalid : (validRows rows).length =
      draws.length - draws.countP (·.Broken invalidPermille) := by
    have hsum := List.length_eq_length_filter_add (l := rows) Row.valid
    rw [validRows]
    omega
  -- The numbers of the file are all different, hence the distinct products are the valid rows.
  have hnodup : ((validRows rows).map fun row =>
      (row.product.merchantID, row.product.productID)).Nodup := by
    have hskus : ((List.range' 0 draws.length).map sku).Nodup :=
      (List.nodup_range' ..).map sku_injective
    refine List.Nodup.of_map Prod.snd ?_
    rw [List.map_map]
    exact hskus.sublist hsub
  refine ⟨{ rows }, ?_, ⟨rfl, hcount, hvalid, hinvalid, ?_⟩⟩
  · rw [stream, fixture, hopen]
    dsimp only
    rw [hrows, Option.map_some]
  · rw [hnodup.dedup, List.length_map]
    exact hvalid

/-- A row that is in order, and one whose price is overwritten. -/
def twoRows : List (Draw 50) :=
  [{ merchant := 3, adjective := 0, noun := 1, serial := 742, dollars := 19, cents := 5
     currency := 1, dated := 6, year := 1, month := 2, day := 8, permille := 400 },
    { merchant := 41, adjective := 19, noun := 0, serial := 88, dollars := 1999, cents := 99
      currency := 7, dated := 8, year := 0, month := 0, day := 0, permille := 13 }]

theorem fixture_meets_two_rows :
    fixture 15 twoRows =
      lit ("merchant_id,product_id,name,price,currency,expiration_date\n" ++
        "bench-m03,SKU-000000000,Wireless Widget #742,20.05,EUR,2026-03-09\n" ++
        "bench-m41,SKU-000000001,Versatile Gadget #88,N/A,CHF,\n") ∧
    metaOf 15 twoRows = ⟨2, 1, 1, 1, 50, 179⟩ ∧
    ∃ file, stream (strict id id fun _ => "") ⟨[], lit "USD"⟩ (fixture 15 twoRows) = some file ∧
      Meets (metaOf 15 twoRows) file :=
  ⟨by decide +kernel, by decide +kernel,
    fixture_meets id id _ ⟨[], lit "USD"⟩ (by decide) 15 twoRows (by decide)⟩

end CsvProductUploader.Benchmark

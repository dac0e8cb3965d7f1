import CsvProductUploader.Calendar
import CsvProductUploader.ImportJob.Entity
import CsvProductUploader.Lib.Checks
import CsvProductUploader.Lib.Utf8
import Mathlib.Algebra.Group.Int.Defs
import Mathlib.Algebra.Group.Nat.Defs
import Mathlib.Data.List.DropRight

/-!
# The rows of a product file

How one CSV record becomes a product: the cells are trimmed, defaulted and checked field
by field, and the first field that fails rejects the row.

## Main definitions

* `trimSpace`, `trimLeft`, `toUpper` — the text operations.
* `parsePriceCents`, `parseExpiration`, `deriveProductID` — the fields with a syntax.
* `normalize`, `Cells`, `parseRow`.

## Main results

* `zero_mem_trimSpace` — trimming removes no NUL.
* `parsePriceCents_bounds` — an accepted price is a non-negative `int64`.
* `parseExpiration_eq_ok` — an accepted expiration is empty or the canonical text of a
  day that exists, in year 0 exactly if the cell says so.
* `normalize_eq_ok` — what an accepted product is made of.
-/

namespace CsvProductUploader

open Checks

/-! ### Text -/

/-- `unicode.IsSpace`. -/
def isSpace (r : Utf8.Rune) : Bool :=
  r.valid && (r.code ∈ [0x09, 0x0A, 0x0B, 0x0C, 0x0D, 0x20, 0x85, 0xA0, 0x1680, 0x2028, 0x2029,
    0x202F, 0x205F, 0x3000] || (0x2000 ≤ r.code && r.code ≤ 0x200A))

/-- `strings.TrimSpace` -/
def trimSpace (s : GoString) : GoString :=
  (((Utf8.runes s).dropWhile isSpace).rdropWhile isSpace).flatMap Utf8.Rune.bytes

/-- Trimming cuts a string between two of its pieces. -/
theorem runes_trimSpace (s : GoString) :
    Utf8.runes (trimSpace s) = ((Utf8.runes s).dropWhile isSpace).rdropWhile isSpace := by
  have hleft := Utf8.runes_flatMap_bytes
    (List.takeWhile_append_dropWhile (p := isSpace) (l := Utf8.runes s)).symm
  have hright : ((Utf8.runes s).dropWhile isSpace).rdropWhile isSpace ++
      ((Utf8.runes s).dropWhile isSpace).rtakeWhile isSpace = (Utf8.runes s).dropWhile isSpace :=
    List.rdropWhile_append_rtakeWhile
  exact (Utf8.runes_flatMap_bytes (hleft.2.trans hright.symm)).1

theorem mem_dropWhile_of_not {α : Type} {p : α → Bool} {a : α} {l : List α} (h : a ∈ l)
    (hp : ¬p a = true) : a ∈ l.dropWhile p := by
  rw [← List.takeWhile_append_dropWhile (p := p) (l := l), List.mem_append] at h
  rcases h with h | h
  · exact absurd (List.mem_takeWhile_imp h) hp
  · exact h

/-- White space holds no NUL. -/
theorem zero_notMem_of_isSpace {s : GoString} {r : Utf8.Rune} (hr : r ∈ Utf8.runes s)
    (h : isSpace r = true) : 0 ∉ r.bytes := by
  intro hzero
  rcases Utf8.runes_spec hr with ⟨hvalid, hseq⟩ | ⟨hvalid, -⟩
  · rcases hseq.ascii_or with ⟨b, hb, -⟩ | hhigh
    · rw [hb, List.mem_singleton] at hzero
      have hcode : r.code = 0 := by rw [Utf8.Rune.code, if_pos hvalid, hb, ← hzero]; rfl
      simp [isSpace, hcode] at h
    · exact hhigh 0 hzero (by decide)
  · simp [isSpace, hvalid] at h

/-- Trimming removes no NUL. -/
theorem zero_mem_trimSpace (s : GoString) : 0 ∈ trimSpace s ↔ 0 ∈ s := by
  have hs : 0 ∈ s ↔ ∃ r ∈ Utf8.runes s, 0 ∈ r.bytes := by
    conv_lhs => rw [← Utf8.flatMap_runes s]
    exact List.mem_flatMap
  rw [trimSpace, List.mem_flatMap, hs]
  constructor
  · rintro ⟨r, hr, hzero⟩
    have hkept := (List.rdropWhile_prefix isSpace _).subset hr
    exact ⟨r, (List.dropWhile_suffix isSpace).subset hkept, hzero⟩
  · rintro ⟨r, hr, hzero⟩
    have hspace : ¬isSpace r = true := fun h => zero_notMem_of_isSpace hr h hzero
    have hleft : r ∈ (Utf8.runes s).dropWhile isSpace := mem_dropWhile_of_not hr hspace
    refine ⟨r, ?_, hzero⟩
    rw [List.rdropWhile, List.mem_reverse]
    exact mem_dropWhile_of_not (List.mem_reverse.mpr hleft) hspace

theorem dropWhile_rdropWhile {α : Type} (p : α → Bool) (l : List α) :
    ((l.dropWhile p).rdropWhile p).dropWhile p = (l.dropWhile p).rdropWhile p := by
  cases hl : (l.dropWhile p).rdropWhile p with
  | nil => rfl
  | cons a t =>
    obtain ⟨rest, hrest⟩ := List.rdropWhile_prefix p (l.dropWhile p)
    rw [hl, List.cons_append] at hrest
    -- The head has survived the first cut.
    have hhead : ¬p a = true := by
      have hne : 0 < (l.dropWhile p).length := by
        rw [← hrest]
        exact Nat.succ_pos _
      have hzero := List.dropWhile_get_zero_not p l hne
      simpa [← hrest] using hzero
    exact List.dropWhile_cons_of_neg hhead

/-- What has been trimmed has nothing left to trim. -/
@[simp] theorem trimSpace_trimSpace (s : GoString) : trimSpace (trimSpace s) = trimSpace s := by
  rw [trimSpace, runes_trimSpace, dropWhile_rdropWhile, List.rdropWhile_idempotent]
  rfl

/-- A visible ASCII character. -/
def isVisible (b : UInt8) : Bool := 0x21 ≤ b && b ≤ 0x7E

theorem ascii_of_isVisible {b : UInt8} (h : isVisible b = true) : b < 0x80 := by
  simp only [isVisible, Bool.and_eq_true, decide_eq_true_eq] at h
  exact UInt8.lt_of_le_of_lt h.2 (by decide)

theorem isVisible_of_isDigit {b : UInt8} (h : isDigit b = true) : isVisible b = true := by
  simp only [isDigit, Bool.and_eq_true, decide_eq_true_eq] at h
  simp only [isVisible, Bool.and_eq_true, decide_eq_true_eq]
  exact ⟨UInt8.le_trans (by decide) h.1, UInt8.le_trans h.2 (by decide)⟩

theorem not_isSpace_of_isVisible {b : UInt8} (h : isVisible b = true) :
    isSpace ⟨[b], true⟩ = false := by
  simp only [isVisible, Bool.and_eq_true, decide_eq_true_eq, UInt8.le_iff_toNat_le] at h
  have hge : 33 ≤ b.toNat := h.1
  have hle : b.toNat ≤ 126 := h.2
  clear h
  simp only [isSpace, Utf8.Rune.code, Bool.true_and, if_true, List.mem_cons, List.not_mem_nil,
    or_false, Bool.or_eq_false_iff, decide_eq_false_iff_not, Bool.and_eq_false_iff]
  omega

/-- Text of visible characters is not trimmed. -/
theorem trimSpace_of_visible {s : GoString} (h : ∀ b ∈ s, isVisible b = true) :
    trimSpace s = s := by
  have hascii : ∀ b ∈ s, b < 0x80 := fun b hb => ascii_of_isVisible (h b hb)
  have hspace : ∀ r ∈ Utf8.runes s, ¬isSpace r = true := by
    rw [Utf8.runes_of_ascii hascii]
    intro r hr
    obtain ⟨b, hb, rfl⟩ := List.mem_map.mp hr
    rw [not_isSpace_of_isVisible (h b hb)]
    exact Bool.false_ne_true
  have hleft : (Utf8.runes s).dropWhile isSpace = Utf8.runes s :=
    List.dropWhile_eq_self_iff.mpr fun hpos => hspace _ (List.getElem_mem hpos)
  have hright : (Utf8.runes s).rdropWhile isSpace = Utf8.runes s :=
    List.rdropWhile_eq_self_iff.mpr fun hne => hspace _ (List.getLast_mem hne)
  rw [trimSpace, hleft, hright, Utf8.flatMap_runes]

/-- `strings.TrimLeft` -/
def trimLeft (s cutset : GoString) : GoString :=
  ((Utf8.runes s).dropWhile fun r => r.valid && r ∈ Utf8.runes cutset).flatMap Utf8.Rune.bytes

/-- The upper case of an ASCII character. -/
def upperASCII (b : UInt8) : UInt8 := if 0x61 ≤ b ∧ b ≤ 0x7A then b - 0x20 else b

/-- `strings.ToUpper`; `upper` is the upper case of the characters beyond ASCII. -/
def toUpper (upper : GoString → GoString) (s : GoString) : GoString :=
  (Utf8.runes s).flatMap fun r =>
    if r.valid then
      match r.bytes with
      | [b] => [upperASCII b]
      | q => upper q
    else Utf8.replacement

/-- `isDigits`: non-empty and ASCII digits only. -/
def isDigits (s : GoString) : Bool := s ≠ [] && s.all isDigit

/-! ### Product identity -/

/-- The digits of `\((\d+)\)` at the head of the string, after the `#`. -/
def skuDigits : GoString → Option GoString
  | 0x28 :: s =>
    let digits := s.takeWhile isDigit
    if digits ≠ [] ∧ (s.dropWhile isDigit).head? = some 0x29 then some digits else none
  | _ => none

/-- `skuPattern.FindStringSubmatch`: the number in the leftmost `#(…)`. -/
def findSku : GoString → Option GoString
  | [] => none
  | b :: s =>
    if b = 0x23 then
      match skuDigits s with
      | some digits => some digits
      | none => findSku s
    else findSku s

/-- FNV-1a over 64 bits. -/
def fnv64a (s : GoString) : UInt64 :=
  s.foldl (fun h b => (h ^^^ b.toUInt64) * 1099511628211) 14695981039346656037

/-- A hexadecimal digit in lower case. -/
def hexDigit (n : ℕ) : UInt8 := if n < 10 then digit n else UInt8.ofNat (0x57 + n % 16)

/-- `strconv.FormatUint(n, 16)` -/
def formatHex (n : UInt64) : GoString :=
  match ((List.range 16).reverse.map fun i => n.toNat / 16 ^ i % 16).dropWhile (· = 0) with
  | [] => [hexDigit 0]
  | ds => ds.map hexDigit

/-- `deriveProductID`: the number embedded in the name, else a hash of the name. -/
def deriveProductID (name : GoString) : GoString :=
  match findSku name with
  | some sku => sku
  | none => lit "p-" ++ formatHex (fnv64a name)

theorem findSku_spec {name sku : GoString} (h : findSku name = some sku) :
    sku ≠ [] ∧ ∀ b ∈ sku, isDigit b = true := by
  induction name with
  | nil => cases h
  | cons b s ih =>
    unfold findSku at h
    split at h
    · split at h
      · next digits hdigits =>
        obtain rfl := Option.some.inj h
        unfold skuDigits at hdigits
        split at hdigits
        · dsimp only at hdigits
          split_ifs at hdigits with hc
          obtain rfl := Option.some.inj hdigits
          exact ⟨hc.1, fun b hb => List.mem_takeWhile_imp hb⟩
        · cases hdigits
      · exact ih h
    · exact ih h

theorem isVisible_hexDigit (n : ℕ) : isVisible (hexDigit n) = true := by
  unfold hexDigit
  split
  · exact isVisible_of_isDigit (isDigit_digit n)
  · have hlt : n % 16 < 16 := Nat.mod_lt n (by omega)
    simp only [isVisible, Bool.and_eq_true, decide_eq_true_eq, UInt8.le_iff_toNat_le,
      UInt8.toNat_ofNat']
    change 33 ≤ (87 + n % 16) % 256 ∧ (87 + n % 16) % 256 ≤ 126
    omega

/-- A derived identity holds visible characters only. -/
theorem isVisible_of_mem_deriveProductID {name : GoString} {b : UInt8}
    (hb : b ∈ deriveProductID name) : isVisible b = true := by
  unfold deriveProductID at hb
  cases hsku : findSku name with
  | some sku =>
    rw [hsku] at hb
    exact isVisible_of_isDigit ((findSku_spec hsku).2 b hb)
  | none =>
    rw [hsku] at hb
    rcases List.mem_append.mp hb with hb | hb
    · have hprefix : ∀ c ∈ lit "p-", isVisible c = true := by decide +kernel
      exact hprefix b hb
    · unfold formatHex at hb
      split at hb
      · rw [List.mem_singleton.mp hb]
        exact isVisible_hexDigit 0
      · obtain ⟨n, -, rfl⟩ := List.mem_map.mp hb
        exact isVisible_hexDigit n

/-- A derived identity is not empty, and holds printable ASCII characters only. -/
theorem deriveProductID_spec (name : GoString) :
    deriveProductID name ≠ [] ∧ ∀ b ∈ deriveProductID name, 0 < b ∧ b < 0x80 := by
  constructor
  · unfold deriveProductID
    cases hsku : findSku name with
    | some sku => exact (findSku_spec hsku).1
    | none => exact List.cons_ne_nil _ _
  · intro b hb
    have hvisible := isVisible_of_mem_deriveProductID hb
    refine ⟨?_, ascii_of_isVisible hvisible⟩
    simp only [isVisible, Bool.and_eq_true, decide_eq_true_eq] at hvisible
    exact UInt8.lt_of_lt_of_le (by decide) hvisible.1

/-! ### Price -/

/-- `maxDollars`: the largest amount whose cents fit an `int64`. -/
def maxDollars : ℕ := (2 ^ 63 - 1 - 99) / 100

/-- `currencySymbols` -/
def currencySymbols : GoString := lit "$€£¥₹"

/-- `strconv.ParseInt(s, 10, 64)` of a string of digits. -/
def parseInt64 (s : GoString) : Except String ℕ :=
  if decimal s < 2 ^ 63 then .ok (decimal s) else .error "value out of range"

/-- The digits after the decimal point, as two digits. -/
def padFraction (frac : GoString) : Except PriceError GoString :=
  match frac with
  | [] => .error .noFraction
  | [d] => .ok [d, 0x30]
  | [d, e] => .ok [d, e]
  | _ => .error .tooManyDigits

/-- The whole and the fractional part of a price; a price without a decimal point has
an empty fraction. -/
def splitPrice (s : GoString) : Except PriceError (GoString × GoString) :=
  if 0x2E ∈ s then
    (padFraction (s.dropWhile (· ≠ 0x2E)).tail).map fun frac => (s.takeWhile (· ≠ 0x2E), frac)
  else .ok (s, [])

/-- The text of a price without white space and currency symbols around it. -/
def priceText (s : GoString) : GoString := trimSpace (trimLeft (trimSpace s) currencySymbols)

/-- The cents of the fractional part; none means zero. -/
def parseCents (fracPart : GoString) : Except PriceError ℕ :=
  if fracPart = [] then .ok 0 else (parseInt64 fracPart).mapError fun _ => .outOfRange

/-- `parsePriceCents` -/
def parsePriceCents (s : GoString) : Except PriceError ℤ := do
  reject (priceText s = []) .required
  let (intPart, fracPart) ← splitPrice (priceText s)
  reject (isDigits intPart = false ∨ (fracPart ≠ [] ∧ isDigits fracPart = false)) .notDecimal
  let dollars ← (parseInt64 intPart).mapError fun _ => .outOfRange
  reject (maxDollars < dollars) .outOfRange
  let cents ← parseCents fracPart
  return dollars * 100 + cents

theorem decimal_two_lt {a b : UInt8} (h : isDigits [a, b] = true) : decimal [a, b] < 100 := by
  simp only [isDigits, List.all_cons, List.all_nil, Bool.and_eq_true] at h
  have ha := digitValue_lt h.2.1
  have hb := digitValue_lt h.2.2.1
  simp only [decimal, List.foldl_cons, List.foldl_nil]
  omega

/-- The cents after the decimal point stay below one dollar. -/
theorem decimal_fraction_lt {s intPart fracPart : GoString}
    (h : splitPrice s = .ok (intPart, fracPart))
    (hdigits : fracPart = [] ∨ isDigits fracPart = true) :
    decimal fracPart < 100 := by
  rcases hdigits with rfl | hdigits
  · decide
  · unfold splitPrice at h
    split at h
    · cases hpad : padFraction (s.dropWhile (· ≠ 0x2E)).tail with
      | error err =>
        rw [hpad] at h
        cases h
      | ok frac =>
        rw [hpad] at h
        obtain ⟨-, rfl⟩ := Prod.mk.inj (Except.ok.inj h)
        -- One digit is padded to two, two are taken as they are.
        unfold padFraction at hpad
        split at hpad
        · cases hpad
        · obtain rfl := Except.ok.inj hpad
          exact decimal_two_lt hdigits
        · obtain rfl := Except.ok.inj hpad
          exact decimal_two_lt hdigits
        · cases hpad
    · obtain ⟨-, rfl⟩ := Prod.mk.inj (Except.ok.inj h)
      decide

/-- An accepted price is a non-negative `int64`. -/
theorem parsePriceCents_bounds {s : GoString} {cents : ℤ} (h : parsePriceCents s = .ok cents) :
    0 ≤ cents ∧ cents < 2 ^ 63 := by
  unfold parsePriceCents at h
  simp only [bind_eq_ok_iff, reject_eq_ok_iff, mapError_eq_ok_iff, Prod.exists] at h
  obtain ⟨-, -, intPart, fracPart, hsplit, -, hdigits, dollars, -, -, hmax, frac,
      hfrac, hcents⟩ := h
  obtain rfl := Except.ok.inj hcents
  have hdig : fracPart = [] ∨ isDigits fracPart = true := by
    by_cases hnil : fracPart = []
    · exact Or.inl hnil
    · exact Or.inr (by simpa using not_and.mp (not_or.mp hdigits).2 hnil)
  -- The bound on the dollars leaves room for the cents, which are fewer than a hundred.
  have hlt : frac < 100 := by
    unfold parseCents at hfrac
    split at hfrac
    · obtain rfl := Except.ok.inj hfrac
      decide
    · rw [mapError_eq_ok_iff, parseInt64] at hfrac
      split at hfrac
      · obtain rfl := Except.ok.inj hfrac
        exact decimal_fraction_lt hsplit hdig
      · cases hfrac
  have hdollars : dollars ≤ 92233720368547757 := Nat.not_lt.mp hmax
  constructor
  · omega
  · omega

/-! ### Expiration -/

/-- `dateLayouts`: `2006-01-02` and `1/2/2006`. -/
def dateLayouts : List (List Chunk) :=
  [[.longYear, .sep 0x2D, .month true, .sep 0x2D, .day true],
    [.month false, .sep 0x2F, .day false, .sep 0x2F, .longYear]]

/-- `parseExpiration`: the canonical text of the date, empty for none. -/
def parseExpiration (s : GoString) : Except String GoString :=
  if trimSpace s = [] then .ok []
  else
    match dateLayouts.findSome? fun layout => parseTime layout (trimSpace s) with
    | some d => .ok d.format
    | none => .error "unsupported date"

/-- The cell names a year 0. -/
def yearZero (s : GoString) : Prop :=
  lit "0000-" <+: trimSpace s ∨ lit "/0000" <:+ trimSpace s

instance (s : GoString) : Decidable (yearZero s) := inferInstanceAs (Decidable (_ ∨ _))

theorem yearZero_iso {s : GoString} {a b c e m n i j : UInt8}
    (h : trimSpace s = [a, b, c, e, 0x2D, m, n, 0x2D, i, j]) :
    yearZero s ↔ [a, b, c, e] = lit "0000" := by
  have hpre : lit "0000-" = [0x30, 0x30, 0x30, 0x30, 0x2D] := by decide
  have hsuf : ¬lit "/0000" <:+ trimSpace s := by
    rw [h, List.suffix_iff_eq_drop]
    intro hdrop
    -- The third byte from the end is the dash.
    have hdash := congrArg (fun l => l[2]?) hdrop
    revert hdash
    simp [show lit "/0000" = [0x2F, 0x30, 0x30, 0x30, 0x30] by decide]
  unfold yearZero
  rw [or_iff_left hsuf, h, hpre, show lit "0000" = [0x30, 0x30, 0x30, 0x30] by decide]
  simp [List.cons_prefix_cons, eq_comm]

theorem yearZero_us {s month day : GoString} {a b c e : UInt8}
    (h : trimSpace s = month ++ 0x2F :: day ++ 0x2F :: [a, b, c, e])
    (hmonth : month.length = 1 ∨ month.length = 2) : yearZero s ↔ [a, b, c, e] = lit "0000" := by
  have hpre : ¬lit "0000-" <+: trimSpace s := by
    rw [h, show lit "0000-" = [0x30, 0x30, 0x30, 0x30, 0x2D] by decide]
    -- The slash after the month is the second or the third byte.
    rcases hmonth with hlen | hlen
    · obtain ⟨x, rfl⟩ := List.length_eq_one_iff.mp hlen
      simp [List.cons_prefix_cons]
    · obtain ⟨x, y, rfl⟩ := List.length_eq_two.mp hlen
      simp [List.cons_prefix_cons]
  unfold yearZero
  rw [or_iff_right hpre, h, show lit "/0000" = 0x2F :: lit "0000" by decide]
  constructor
  · intro hsuf
    have heq := List.suffix_iff_eq_drop.mp hsuf
    have hlen : (month ++ 0x2F :: day ++ 0x2F :: [a, b, c, e]).length -
        (0x2F :: lit "0000").length = (month ++ 0x2F :: day).length := by
      rw [List.length_append]
      rfl
    rw [hlen, List.drop_left] at heq
    exact (List.cons.inj heq).2.symm
  · intro heq
    rw [heq]
    exact List.suffix_append _ _

/-- An accepted expiration is empty or the canonical text of a day that exists; the year
is 0 exactly if the cell says so. -/
theorem parseExpiration_eq_ok {s t : GoString} (h : parseExpiration s = .ok t) :
    (t = [] ∧ ¬yearZero s) ∨
      ∃ d : Date, t = d.format ∧ d.Exists ∧ d.year ≤ 9999 ∧ (d.year = 0 ↔ yearZero s) := by
  unfold parseExpiration at h
  split at h
  · next hnil =>
    left
    refine ⟨(Except.ok.inj h).symm, ?_⟩
    unfold yearZero
    rw [hnil, List.prefix_nil, List.suffix_nil]
    decide
  · right
    split at h
    · next d hd =>
      refine ⟨d, (Except.ok.inj h).symm, ?_⟩
      rw [dateLayouts, List.findSome?_cons] at hd
      -- The ISO layout is tried first.
      cases hiso : parseTime [.longYear, .sep 0x2D, .month true, .sep 0x2D, .day true]
          (trimSpace s) with
      | some d' =>
        rw [hiso] at hd
        obtain rfl := Option.some.inj hd
        obtain ⟨hexists, hyear⟩ := exists_of_parseTime hiso
        obtain ⟨a, b, c, e, m, n, i, j, hshape, hdig, hdec⟩ := parseTime_iso hiso
        exact ⟨hexists, hyear, by rw [yearZero_iso hshape, hdec, decimal_eq_zero_iff hdig]⟩
      | none =>
        rw [hiso, List.findSome?_singleton] at hd
        obtain ⟨hexists, hyear⟩ := exists_of_parseTime hd
        obtain ⟨month, day, a, b, c, e, hshape, hlen, hdig, hdec⟩ := parseTime_us hd
        exact ⟨hexists, hyear, by rw [yearZero_us hshape hlen, hdec, decimal_eq_zero_iff hdig]⟩
    · cases h

/-! ### Rows -/

def maxMerchantIDLen : ℕ := 64
def maxProductIDLen : ℕ := 64
def maxNameLen : ℕ := 256

/-- `validCurrencies` -/
def validCurrencies : List GoString :=
  [lit "USD", lit "EUR", lit "GBP", lit "JPY", lit "INR", lit "AUD", lit "CAD", lit "CHF",
    lit "CNY"]

/-- `DefaultCurrency` -/
def defaultCurrency : GoString := lit "USD"

/-- The six values that a row is made from. -/
structure Cells where
  merchantID : GoString
  productID : GoString
  name : GoString
  price : GoString
  currency : GoString
  expiration : GoString
  deriving DecidableEq, Repr

/-- The product identity of a row: the cell, or what the name yields. -/
def productIDOf (c : Cells) : GoString :=
  if trimSpace c.productID = [] then deriveProductID (trimSpace c.name) else trimSpace c.productID

/-- The currency of a row. -/
def currencyOf (upper : GoString → GoString) (c : Cells) : GoString :=
  let currency := toUpper upper (trimSpace c.currency)
  if currency = [] then defaultCurrency else currency

/-- `normalize`: the product, or the first rejection reason. -/
def normalize (upper : GoString → GoString) (c : Cells) : Except Reason ProductData := do
  reject (trimSpace c.merchantID = []) .merchantRequired
  reject (maxMerchantIDLen < (trimSpace c.merchantID).length) .merchantTooLong
  reject (trimSpace c.name = []) .nameRequired
  reject (maxNameLen < (trimSpace c.name).length) .nameTooLong
  reject (maxProductIDLen < (productIDOf c).length) .productTooLong
  let cents ← (parsePriceCents c.price).mapError .price
  reject (currencyOf upper c ∉ validCurrencies) (.currency (currencyOf upper c))
  let expiration ← (parseExpiration c.expiration).mapError fun _ => .expiration
  return {
    merchantID := trimSpace c.merchantID
    productID := productIDOf c
    name := trimSpace c.name
    priceCents := cents
    currency := currencyOf upper c
    expirationDate := expiration }

/-- `StreamOptions` -/
structure StreamOptions where
  defaultMerchantID : GoString
  defaultCurrency : GoString
  deriving DecidableEq, Repr

/-- `column`: the value of the named column and whether the file has it; `none` where the
index is outside the record. -/
def column (record : List GoString) (cols : GoString → Option ℕ) (name : GoString) :
    Option (GoString × Bool) :=
  match cols name with
  | none => some ([], false)
  | some idx => record[idx]?.map fun value => (value, true)

/-- The cells of a record, with the stream defaults for what the file does not carry. -/
def cellsOf (cols : GoString → Option ℕ) (record : List GoString) (opts : StreamOptions) :
    Option Cells := do
  let (merchantID, hasMerchant) ← column record cols (lit "merchant_id")
  let (productID, _) ← column record cols (lit "product_id")
  let (currency, _) ← column record cols (lit "currency")
  let (name, _) ← column record cols (lit "name")
  let (price, _) ← column record cols (lit "price")
  let (expiration, _) ← column record cols (lit "expiration_date")
  return {
    merchantID := if hasMerchant then merchantID else opts.defaultMerchantID
    productID := productID
    name := name
    price := price
    currency := if trimSpace currency = [] then opts.defaultCurrency else currency
    expiration := expiration }

/-- `parseRow`; `none` where a column lies outside the record. -/
def parseRow (upper : GoString → GoString) (num : ℕ) (cols : GoString → Option ℕ)
    (record : List GoString) (opts : StreamOptions) : Option Row :=
  (cellsOf cols record opts).map fun c =>
    match normalize upper c with
    | .ok product => { num, product, reason := none }
    | .error reason => { num, product := default, reason := some reason }

/-! ### What an accepted row is made of -/

/-- The product of a row that `normalize` accepts. -/
structure Normalized (upper : GoString → GoString) (c : Cells) (p : ProductData) : Prop where
  merchantID : p.merchantID = trimSpace c.merchantID
  merchantID_ne_nil : p.merchantID ≠ []
  productID : p.productID = productIDOf c
  name : p.name = trimSpace c.name
  name_ne_nil : p.name ≠ []
  price : parsePriceCents c.price = .ok p.priceCents
  currency : p.currency ∈ validCurrencies
  expiration : parseExpiration c.expiration = .ok p.expirationDate

theorem normalize_eq_ok {upper : GoString → GoString} {c : Cells} {p : ProductData}
    (h : normalize upper c = .ok p) : Normalized upper c p := by
  unfold normalize at h
  simp only [bind_eq_ok_iff, reject_eq_ok_iff, mapError_eq_ok_iff] at h
  obtain ⟨-, hmerchant, -, -, -, hname, -, -, -, -, cents, hcents, -, hcurrency, expiration,
    hexpiration, hp⟩ := h
  obtain rfl := Except.ok.inj hp
  exact {
    merchantID := rfl
    merchantID_ne_nil := hmerchant
    productID := rfl
    name := rfl
    name_ne_nil := hname
    price := hcents
    currency := Decidable.not_not.mp hcurrency
    expiration := hexpiration }

theorem productIDOf_ne_nil (c : Cells) : productIDOf c ≠ [] := by
  unfold productIDOf
  split
  · exact (deriveProductID_spec _).1
  · next hne => exact hne

/-- A product identity holds a NUL exactly if the cell does. -/
theorem zero_mem_productIDOf (c : Cells) : 0 ∈ productIDOf c ↔ 0 ∈ c.productID := by
  unfold productIDOf
  rw [← zero_mem_trimSpace c.productID]
  split
  · next hnil =>
    rw [hnil]
    refine iff_of_false ?_ List.not_mem_nil
    intro hzero
    exact absurd ((deriveProductID_spec _).2 0 hzero).1 (by decide)
  · rfl

/-- A valid row is one that `normalize` accepts. -/
theorem parseRow_valid {upper : GoString → GoString} {num : ℕ} {cols : GoString → Option ℕ}
    {record : List GoString} {opts : StreamOptions} {row : Row}
    (h : parseRow upper num cols record opts = some row) (hvalid : row.valid = true) :
    ∃ c, cellsOf cols record opts = some c ∧ normalize upper c = .ok row.product := by
  obtain ⟨c, hc, hrow⟩ := Option.map_eq_some_iff.mp h
  refine ⟨c, hc, ?_⟩
  cases hn : normalize upper c with
  | ok product =>
    rw [hn] at hrow
    rw [← hrow]
  | error reason =>
    rw [hn] at hrow
    rw [← hrow] at hvalid
    cases hvalid

end CsvProductUploader

import CsvProductUploader.ImportJob.Csv
import Mathlib.Algebra.Order.Field.Rat
import Mathlib.Tactic.FieldSimp
import Mathlib.Tactic.Ring

/-!
# The prices of a product file

What `parsePriceCents` accepts, said without its branches: a price is a run of digits, with
a decimal point and one or two digits after it or without, and its cents are one hundred
times the number that it writes.

## Main definitions

* `Amount` — the grammar of prices and the number that each writes.
* `priceParts` — the dollars and the cents that `parsePriceCents` adds up.
* `formatPrice` — a price as dollars, point and two digits of cents.

## Main results

* `amount_iff` — the grammar is what the branches of the source let through.
* `parsePriceCents_exact` — the accepted texts, their values and the range of every sum.
* `parsePriceCents_formatPrice` — a printed price is read back.
-/

namespace CsvProductUploader

open Checks

/-! ### The grammar -/

/-- `Amount text dollars value`: the text is a price of `value`, of which `dollars` are
written before the decimal point. -/
inductive Amount : GoString → ℕ → ℚ → Prop
  | whole {ints : GoString} (hints : isDigits ints = true) :
    Amount ints (decimal ints) (decimal ints)
  | fraction {ints frac : GoString} (hints : isDigits ints = true) (hfrac : isDigits frac = true)
    (hlen : frac.length ≤ 2) :
    Amount (ints ++ 0x2E :: frac) (decimal ints) (decimal ints + decimal frac / 10 ^ frac.length)

theorem isDigits_iff {s : GoString} : isDigits s = true ↔ s ≠ [] ∧ ∀ b ∈ s, isDigit b = true := by
  simp [isDigits]

/-- A decimal point is not a digit. -/
theorem point_notMem {s : GoString} (h : isDigits s = true) : (0x2E : UInt8) ∉ s := fun hmem =>
  absurd ((isDigits_iff.mp h).2 _ hmem) (by decide)

/-! ### The parts of a price -/

/-- A price is cut at its first decimal point. -/
theorem splitPrice_point {ints : GoString} (h : 0x2E ∉ ints) (digits : GoString) :
    splitPrice (ints ++ 0x2E :: digits) = (padFraction digits).map fun frac => (ints, frac) := by
  have hkeep : ∀ b ∈ ints, decide (b ≠ 0x2E) = true := by
    intro b hb
    exact decide_eq_true fun heq => h (heq ▸ hb)
  unfold splitPrice
  rw [if_pos (List.mem_append_right _ List.mem_cons_self), List.dropWhile_append_of_pos hkeep,
    List.takeWhile_append_of_pos hkeep, List.dropWhile_cons_of_neg (by simp),
    List.takeWhile_cons_of_neg (by simp), List.append_nil, List.tail_cons]

theorem splitPrice_of_notMem {s : GoString} (h : 0x2E ∉ s) : splitPrice s = .ok (s, []) := by
  rw [splitPrice, if_neg h]

theorem padFraction_eq_ok {digits frac : GoString} (h : padFraction digits = .ok frac) :
    (∃ a, digits = [a] ∧ frac = [a, 0x30]) ∨ ∃ a b, digits = [a, b] ∧ frac = [a, b] := by
  unfold padFraction at h
  split at h
  · cases h
  · next a =>
    obtain rfl := Except.ok.inj h
    exact Or.inl ⟨a, rfl, rfl⟩
  · next a b =>
    obtain rfl := Except.ok.inj h
    exact Or.inr ⟨a, b, rfl, rfl⟩
  · cases h

/-- The digits after the point, padded to two, count hundredths. -/
theorem padFraction_value {digits frac : GoString} (h : padFraction digits = .ok frac) :
    (isDigits frac = true ↔ isDigits digits = true) ∧
      (decimal frac : ℚ) / 100 = decimal digits / 10 ^ digits.length := by
  rcases padFraction_eq_ok h with ⟨a, rfl, rfl⟩ | ⟨a, b, rfl, rfl⟩
  · have hzero : isDigit 0x30 = true := by decide
    have hvalue : decimal [a, 0x30] = 10 * decimal [a] := by
      rw [show [a, 0x30] = [a] ++ [0x30] from rfl, decimal_snoc]
      rfl
    refine ⟨by simp [isDigits, hzero], ?_⟩
    rw [hvalue, List.length_singleton]
    push_cast
    ring
  · refine ⟨Iff.rfl, ?_⟩
    norm_num

theorem exists_padFraction {digits : GoString} (hne : digits ≠ []) (hlen : digits.length ≤ 2) :
    ∃ frac, padFraction digits = .ok frac := by
  match digits, hne, hlen with
  | [a], _, _ => exact ⟨_, rfl⟩
  | [a, b], _, _ => exact ⟨_, rfl⟩

/-- **The branches of the source let through what the grammar has.** -/
theorem amount_iff {text : GoString} {dollars : ℕ} {value : ℚ} :
    Amount text dollars value ↔ ∃ ints frac, splitPrice text = .ok (ints, frac) ∧
      isDigits ints = true ∧ (frac = [] ∨ isDigits frac = true) ∧ dollars = decimal ints ∧
        value = decimal ints + decimal frac / 100 := by
  constructor
  · intro h
    cases h with
    | whole hints =>
      refine ⟨text, [], splitPrice_of_notMem (point_notMem hints), hints, Or.inl rfl, rfl, ?_⟩
      simp [decimal]
    | @fraction ints digits hints hdigits hlen =>
      obtain ⟨frac, hfrac⟩ := exists_padFraction (isDigits_iff.mp hdigits).1 hlen
      obtain ⟨hpad, hvalue⟩ := padFraction_value hfrac
      refine ⟨ints, frac, ?_, hints, Or.inr (hpad.mpr hdigits), rfl, by rw [hvalue]⟩
      rw [splitPrice_point (point_notMem hints), hfrac]
      rfl
  · rintro ⟨ints, frac, hsplit, hints, hfrac, rfl, rfl⟩
    -- A point parts the digits; without one they are all of the whole part.
    by_cases hmem : 0x2E ∈ text
    · obtain ⟨before, digits, rfl, hbefore⟩ := List.eq_append_cons_of_mem hmem
      rw [splitPrice_point hbefore] at hsplit
      cases hpad : padFraction digits with
      | error err =>
        rw [hpad] at hsplit
        cases hsplit
      | ok padded =>
        rw [hpad] at hsplit
        obtain ⟨rfl, rfl⟩ := Prod.mk.inj (Except.ok.inj hsplit)
        obtain ⟨hdigits, hvalue⟩ := padFraction_value hpad
        rw [hvalue]
        rcases padFraction_eq_ok hpad with ⟨a, rfl, rfl⟩ | ⟨a, b, rfl, rfl⟩
        · exact .fraction hints (hdigits.mp (hfrac.resolve_left (List.cons_ne_nil _ _))) (by simp)
        · exact .fraction hints (hdigits.mp (hfrac.resolve_left (List.cons_ne_nil _ _))) (by simp)
    · rw [splitPrice_of_notMem hmem] at hsplit
      obtain ⟨rfl, rfl⟩ := Prod.mk.inj (Except.ok.inj hsplit)
      have hwhole := Amount.whole hints
      simpa [decimal] using hwhole

/-- `parsePriceCents` up to the sum: the dollars and the cents. -/
def priceParts (s : GoString) : Except PriceError (ℕ × ℕ) := do
  reject (priceText s = []) .required
  let (intPart, fracPart) ← splitPrice (priceText s)
  reject (isDigits intPart = false ∨ (fracPart ≠ [] ∧ isDigits fracPart = false)) .notDecimal
  let dollars ← (parseInt64 intPart).mapError fun _ => .outOfRange
  reject (maxDollars < dollars) .outOfRange
  let cents ← parseCents fracPart
  return (dollars, cents)

theorem parsePriceCents_eq (s : GoString) :
    parsePriceCents s = (priceParts s).map fun p => (p.1 * 100 + p.2 : ℤ) := by
  have hbind : ∀ {α β γ : Type} (x : Except PriceError α) (f : α → Except PriceError β) (g : β → γ),
      (x >>= f).map g = x >>= fun a => (f a).map g := by
    intro α β γ x f g
    cases x <;> rfl
  simp only [parsePriceCents, priceParts, hbind]
  rfl

theorem parseCents_eq_ok_iff {frac : GoString} {cents : ℕ} (h : decimal frac < 100) :
    parseCents frac = .ok cents ↔ cents = decimal frac := by
  unfold parseCents
  split
  · next hnil =>
    subst hnil
    simp [decimal, eq_comm]
  · rw [mapError_eq_ok_iff, parseInt64, if_pos (Nat.lt_trans h (by decide))]
    simp [eq_comm]

/-- The parts are the values of the two runs of digits, the dollars within their limit. -/
theorem priceParts_eq_ok_iff {s : GoString} {dollars cents : ℕ} :
    priceParts s = .ok (dollars, cents) ↔ ∃ ints frac,
      splitPrice (priceText s) = .ok (ints, frac) ∧ isDigits ints = true ∧
        (frac = [] ∨ isDigits frac = true) ∧ dollars = decimal ints ∧ dollars ≤ maxDollars ∧
          cents = decimal frac := by
  unfold priceParts
  simp only [bind_eq_ok_iff, reject_eq_ok_iff, mapError_eq_ok_iff, Prod.exists]
  constructor
  · rintro ⟨-, -, ints, frac, hsplit, -, hdigits, dollars', hdollars, -, hmax, cents', hcents, hret⟩
    obtain ⟨rfl, rfl⟩ := Prod.mk.inj (Except.ok.inj hret)
    rw [not_or, Bool.not_eq_false, not_and, Bool.not_eq_false] at hdigits
    have hfrac : frac = [] ∨ isDigits frac = true := or_iff_not_imp_left.mpr hdigits.2
    rw [parseCents_eq_ok_iff (decimal_fraction_lt hsplit hfrac)] at hcents
    unfold parseInt64 at hdollars
    split at hdollars
    · exact ⟨ints, frac, hsplit, hdigits.1, hfrac, (Except.ok.inj hdollars).symm,
        Nat.not_lt.mp hmax, hcents⟩
    · cases hdollars
  · rintro ⟨ints, frac, hsplit, hints, hfrac, rfl, hmax, rfl⟩
    have hne : ¬priceText s = [] := by
      intro hnil
      rw [hnil, splitPrice_of_notMem List.not_mem_nil] at hsplit
      obtain ⟨rfl, -⟩ := Prod.mk.inj (Except.ok.inj hsplit)
      exact (isDigits_iff.mp hints).1 rfl
    have hdigits : ¬(isDigits ints = false ∨ frac ≠ [] ∧ isDigits frac = false) := by
      rw [not_or, Bool.not_eq_false, not_and, Bool.not_eq_false]
      exact ⟨hints, or_iff_not_imp_left.mp hfrac⟩
    -- `ParseInt` refuses nothing that the check against `maxDollars` would have let through.
    have hlt : decimal ints < 2 ^ 63 := Nat.lt_of_le_of_lt hmax (by decide)
    refine ⟨(), hne, ints, frac, hsplit, (), hdigits, decimal ints, ?_, (), Nat.not_lt.mpr hmax,
      decimal frac, (parseCents_eq_ok_iff (decimal_fraction_lt hsplit hfrac)).mpr rfl, rfl⟩
    rw [parseInt64, if_pos hlt]

/-- A price has parts exactly if the grammar has its text, and then they make up its value. -/
theorem exists_priceParts_iff {s : GoString} {dollars : ℕ} :
    (∃ cents, priceParts s = .ok (dollars, cents)) ↔
      dollars ≤ maxDollars ∧ ∃ value, Amount (priceText s) dollars value := by
  simp only [priceParts_eq_ok_iff, amount_iff]
  constructor
  · rintro ⟨cents, ints, frac, hsplit, hints, hfrac, hdollars, hmax, -⟩
    exact ⟨hmax, _, ints, frac, hsplit, hints, hfrac, hdollars, rfl⟩
  · rintro ⟨hmax, value, ints, frac, hsplit, hints, hfrac, hdollars, -⟩
    exact ⟨_, ints, frac, hsplit, hints, hfrac, hdollars, hmax, rfl⟩

theorem value_of_priceParts {s : GoString} {dollars cents d : ℕ} {value : ℚ}
    (h : priceParts s = .ok (dollars, cents)) (hvalue : Amount (priceText s) d value) :
    ((dollars * 100 + cents : ℤ) : ℚ) = 100 * value := by
  obtain ⟨ints, frac, hsplit, -, -, rfl, -, rfl⟩ := priceParts_eq_ok_iff.mp h
  obtain ⟨ints', frac', hsplit', -, -, -, rfl⟩ := amount_iff.mp hvalue
  obtain ⟨rfl, rfl⟩ := Prod.mk.inj (Except.ok.inj (hsplit.symm.trans hsplit'))
  push_cast
  ring

/-- The sums stay inside an `int64`. -/
theorem priceParts_bounds {s : GoString} {dollars cents : ℕ}
    (h : priceParts s = .ok (dollars, cents)) :
    dollars * 100 < 2 ^ 63 ∧ dollars * 100 + cents < 2 ^ 63 := by
  obtain ⟨ints, frac, hsplit, -, hfrac, rfl, hmax, rfl⟩ := priceParts_eq_ok_iff.mp h
  have hcents := decimal_fraction_lt hsplit hfrac
  have hle : decimal ints ≤ 92233720368547757 := hmax
  omega

/-- What the machine computes for the sum. -/
def sumCents (dollars cents : ℕ) : Int64 := Int64.ofNat dollars * 100 + Int64.ofNat cents

theorem toInt_sumCents {s : GoString} {dollars cents : ℕ}
    (h : priceParts s = .ok (dollars, cents)) :
    (sumCents dollars cents).toInt = dollars * 100 + cents := by
  have hsum : sumCents dollars cents = Int64.ofNat (dollars * 100 + cents) := by
    rw [Int64.ofNat_add, Int64.ofNat_mul]
    rfl
  rw [hsum, Int64.toInt_ofNat_of_lt (priceParts_bounds h).2]
  push_cast
  rfl

/-! ### Printed prices -/

/-- Dollars, a point and two digits of cents. -/
def formatPrice (c : ℕ) : GoString := formatDecimal (c / 100) ++ 0x2E :: [digit (c / 10), digit c]

theorem isVisible_of_mem_formatPrice {c : ℕ} {b : UInt8} (h : b ∈ formatPrice c) :
    isVisible b = true := by
  rw [formatPrice, List.mem_append, List.mem_cons, List.mem_cons, List.mem_singleton] at h
  rcases h with h | rfl | rfl | rfl
  · exact isVisible_of_isDigit (isDigit_of_mem_formatDecimal h)
  · decide
  · exact isVisible_of_isDigit (isDigit_digit _)
  · exact isVisible_of_isDigit (isDigit_digit _)

/-- A text without currency symbols in front keeps its front. -/
theorem trimLeft_of_digit {b : UInt8} {s : GoString} (hb : isDigit b = true) :
    trimLeft (b :: s) currencySymbols = b :: s := by
  have hrunes : Utf8.runes (b :: s) = ⟨[b], true⟩ :: Utf8.runes s := by
    rw [← List.singleton_append,
      Utf8.runes_append (Utf8.isSeq_of_ascii (ascii_of_isDigit hb).2)]
  have hcut : ¬((⟨[b], true⟩ : Utf8.Rune).valid &&
      decide (⟨[b], true⟩ ∈ Utf8.runes currencySymbols)) = true := by
    have hsymbols : Utf8.runes currencySymbols = [⟨[0x24], true⟩, ⟨[0xE2, 0x82, 0xAC], true⟩,
        ⟨[0xC2, 0xA3], true⟩, ⟨[0xC2, 0xA5], true⟩, ⟨[0xE2, 0x82, 0xB9], true⟩] := by decide +kernel
    have hne : b ≠ 0x24 := by
      rintro rfl
      revert hb
      decide
    simp [hsymbols, hne]
  rw [trimLeft, hrunes, List.dropWhile_cons_of_neg (by exact hcut), ← hrunes, Utf8.flatMap_runes]

theorem priceText_formatPrice (c : ℕ) : priceText (formatPrice c) = formatPrice c := by
  have htrim : trimSpace (formatPrice c) = formatPrice c :=
    trimSpace_of_visible fun b hb => isVisible_of_mem_formatPrice hb
  have hleft : trimLeft (formatPrice c) currencySymbols = formatPrice c := by
    unfold formatPrice
    cases hints : formatDecimal (c / 100) with
    | nil => exact absurd hints (formatDecimal_ne_nil _)
    | cons b s =>
      have hb : b ∈ formatDecimal (c / 100) := by
        rw [hints]
        exact List.mem_cons_self
      exact trimLeft_of_digit (isDigit_of_mem_formatDecimal hb)
  rw [priceText, htrim, hleft, htrim]

/-- **A printed price is read back.** -/
theorem parsePriceCents_formatPrice {c : ℕ} (h : c ≤ 100 * maxDollars + 99) :
    parsePriceCents (formatPrice c) = .ok c := by
  have hints : isDigits (formatDecimal (c / 100)) = true :=
    isDigits_iff.mpr ⟨formatDecimal_ne_nil _, fun b hb => isDigit_of_mem_formatDecimal hb⟩
  have hsplit : splitPrice (priceText (formatPrice c)) =
      .ok (formatDecimal (c / 100), [digit (c / 10), digit c]) := by
    rw [priceText_formatPrice, formatPrice, splitPrice_point (point_notMem hints)]
    rfl
  have hfrac : isDigits [digit (c / 10), digit c] = true := by simp [isDigits]
  have hcents : decimal [digit (c / 10), digit c] = c % 100 := by
    simp only [decimal, List.foldl_cons, List.foldl_nil, digitValue_digit]
    omega
  have hparts : priceParts (formatPrice c) = .ok (c / 100, c % 100) := by
    refine priceParts_eq_ok_iff.mpr ⟨_, _, hsplit, hints, Or.inr hfrac, ?_, ?_, hcents.symm⟩
    · rw [decimal_formatDecimal]
    · omega
  rw [parsePriceCents_eq, hparts]
  have hc : ((c / 100 : ℕ) * 100 + (c % 100 : ℕ) : ℤ) = c := by omega
  exact congrArg Except.ok hc

/-- **`parsePriceCents` is exact on its grammar.** -/
theorem parsePriceCents_exact (s : GoString) :
    ((∃ cents, parsePriceCents s = .ok cents) ↔
      ∃ dollars value, Amount (trimSpace (trimLeft (trimSpace s) currencySymbols)) dollars value ∧
        dollars ≤ maxDollars) ∧
    (∀ cents dollars value, parsePriceCents s = .ok cents →
      Amount (trimSpace (trimLeft (trimSpace s) currencySymbols)) dollars value →
        (cents : ℚ) = 100 * value) ∧
    (∀ cents, parsePriceCents s = .ok cents → 0 ≤ cents ∧ cents ≤ 2 ^ 63 - 1) ∧
    (∀ dollars cents, priceParts s = .ok (dollars, cents) →
      parsePriceCents s = .ok (dollars * 100 + cents) ∧ dollars * 100 ≤ 2 ^ 63 - 1 ∧
        dollars * 100 + cents ≤ 2 ^ 63 - 1 ∧
          (sumCents dollars cents).toInt = dollars * 100 + cents) ∧
    ∀ c ≤ 100 * maxDollars + 99, parsePriceCents (formatPrice c) = .ok c := by
  -- The two parts carry everything: the price is their sum.
  have hparts : ∀ cents, parsePriceCents s = .ok cents ↔
      ∃ dollars frac : ℕ, priceParts s = .ok (dollars, frac) ∧ cents = dollars * 100 + frac := by
    intro cents
    rw [parsePriceCents_eq]
    cases priceParts s with
    | error err => simp [Except.map]
    | ok p => simp [Except.map, Prod.ext_iff, eq_comm]
  refine ⟨?_, ?_, ?_, ?_, fun c hc => parsePriceCents_formatPrice hc⟩
  · constructor
    · rintro ⟨cents, h⟩
      obtain ⟨dollars, frac, hread, -⟩ := (hparts cents).mp h
      obtain ⟨hmax, value, hvalue⟩ := exists_priceParts_iff.mp ⟨frac, hread⟩
      exact ⟨dollars, value, hvalue, hmax⟩
    · rintro ⟨dollars, value, hvalue, hmax⟩
      obtain ⟨frac, hread⟩ := exists_priceParts_iff.mpr ⟨hmax, value, hvalue⟩
      exact ⟨_, (hparts _).mpr ⟨dollars, frac, hread, rfl⟩⟩
  · intro cents d value h hvalue
    obtain ⟨dollars, frac, hread, rfl⟩ := (hparts cents).mp h
    exact value_of_priceParts hread hvalue
  · intro cents h
    obtain ⟨hge, hlt⟩ := parsePriceCents_bounds h
    exact ⟨hge, Int.le_sub_one_of_lt hlt⟩
  · intro dollars cents h
    obtain ⟨hdollars, hsum⟩ := priceParts_bounds h
    exact ⟨(hparts _).mpr ⟨dollars, cents, h, rfl⟩, Nat.le_sub_one_of_lt hdollars,
      Nat.le_sub_one_of_lt hsum, toInt_sumCents h⟩

end CsvProductUploader

import CsvProductUploader.Calendar
import CsvProductUploader.NodePipeline.Validation
import Mathlib.Tactic.FieldSimp
import Mathlib.Tactic.Linarith
import Mathlib.Tactic.Positivity
import Mathlib.Tactic.Ring

/-!
# What a row of the file says

The price and the expiration of a row as texts that are read as a whole, set beside what
`validateRows` makes of their beginnings.

## Main definitions

* `IsDecimal`, `IsDate` — a text is, as a whole, a decimal number or a date `M/D/Y`.
* `dayNumber` — the day of a date of the calendar, counted from 1970-01-01.
* `Passes`, `Whole` — a row gets past the guards; nothing stands around its numbers.
* `Clean` — a row that gets past the guards is read as a whole.
* `Says`, `Faithful` — every row is skipped or stored as it says.

## Main results

* `parseFloat_of_isDecimal`, `eq_dayNumber_of_newDate` — what is whole is read right.
* `dayNumber_inj` — a day names one date.
* `faithful_iff` — the rows are stored as they say exactly if every one of them is clean.
* `Faithful.expirationDate_iff` — the date of the file can be told from the stored day.
* `not_faithful` — a price with a thousands separator.
-/

namespace CsvProductUploader.NodePipeline

/-! ### Digits and separators -/

/-- A string of digits, and not the empty one. -/
def AllDigits (s : JsString) : Prop := s ≠ [] ∧ ∀ u ∈ s, isDigit u = true

instance (s : JsString) : Decidable (AllDigits s) := inferInstanceAs (Decidable (_ ∧ _))

/-- The text is as a whole a decimal number: digits, and behind a point or a comma more digits
or nothing at all. -/
def IsDecimal (s : JsString) (q : ℚ) : Prop :=
  (AllDigits s ∧ q = decimal s) ∨
    ∃ whole part, AllDigits whole ∧ AllDigits part ∧
      (s = whole ++ 0x2E :: part ∨ s = whole ++ 0x2C :: part) ∧
        q = decimal whole + decimal part / 10 ^ part.length

/-- The year that digits mean: below 100 it is one of this century. -/
def fullYear (s : JsString) : ℕ := if decimal s < 100 then 2000 + decimal s else decimal s

/-- The text is as a whole a date `M/D/Y`. -/
def IsDate (s : JsString) (date : Date) : Prop :=
  ∃ month day year, AllDigits month ∧ AllDigits day ∧ AllDigits year ∧
    s = month ++ 0x2F :: (day ++ 0x2F :: year) ∧
      date = ⟨fullYear year, decimal month, decimal day⟩

theorem not_mem_of_allDigits {s : JsString} (h : AllDigits s) {u : UInt16}
    (hu : isDigit u = false) : u ∉ s := by
  intro hmem
  rw [h.2 u hmem] at hu
  cases hu

theorem decimal_snoc (s : JsString) (u : UInt16) :
    decimal (s ++ [u]) = 10 * decimal s + (u.toNat - 0x30) := by
  unfold decimal
  rw [List.foldl_append]
  rfl

theorem decimal_append (s t : JsString) :
    decimal (s ++ t) = decimal s * 10 ^ t.length + decimal t := by
  induction t using List.reverseRecOn with
  | nil => simp [decimal]
  | append_singleton t u ih =>
    rw [← List.append_assoc, decimal_snoc, ih, decimal_snoc, List.length_append,
      List.length_singleton, pow_succ]
    ring

/-- Digits end where something else begins. -/
theorem takeWhile_append_cons {s t : JsString} (h : ∀ u ∈ s, isDigit u = true) {u : UInt16}
    (hu : isDigit u = false) : (s ++ u :: t).takeWhile isDigit = s := by
  rw [List.takeWhile_append_of_pos h, List.takeWhile_cons_of_neg (by simp [hu]), List.append_nil]

theorem dropWhile_append_cons {s t : JsString} (h : ∀ u ∈ s, isDigit u = true) {u : UInt16}
    (hu : isDigit u = false) : (s ++ u :: t).dropWhile isDigit = u :: t := by
  rw [List.dropWhile_append_of_pos h, List.dropWhile_cons_of_neg (by simp [hu])]

/-- A digit is neither white space nor the beginning of a sign or a word. -/
theorem plain_of_isDigit {u : UInt16} (h : isDigit u = true) :
    isSpace u = false ∧ u ≠ 0x2B ∧ u ≠ 0x2D ∧ u ≠ 0x49 := by
  simp only [isDigit, Bool.and_eq_true, decide_eq_true_eq, UInt16.le_iff_toNat_le] at h
  have hge : 48 ≤ u.toNat := h.1
  have hle : u.toNat ≤ 57 := h.2
  simp only [isSpace, UInt16.le_iff_toNat_le, ← UInt16.toNat_inj, Bool.or_eq_false_iff,
    Bool.and_eq_false_iff, decide_eq_false_iff_not, beq_eq_false_iff_ne, ne_eq,
    UInt16.reduceToNat]
  omega

/-- Nothing stands before a digit. -/
theorem sign_trimStart {s : JsString} (h : AllDigits s) (t : JsString) :
    sign (trimStart (s ++ t)) = (false, s ++ t) := by
  obtain ⟨hne, hdigits⟩ := h
  cases s with
  | nil => exact absurd rfl hne
  | cons u s =>
    obtain ⟨hspace, hplus, hminus, -⟩ := plain_of_isDigit (hdigits u List.mem_cons_self)
    rw [List.cons_append, trimStart, List.dropWhile_cons_of_neg (by simp [hspace])]
    unfold sign
    split
    · next heq => exact absurd (List.cons.inj heq).1 hplus
    · next heq => exact absurd (List.cons.inj heq).1 hminus
    · rfl

theorem infinity_isPrefixOf {s : JsString} (h : AllDigits s) (t : JsString) :
    (js "Infinity").isPrefixOf (s ++ t) = false := by
  obtain ⟨hne, hdigits⟩ := h
  cases s with
  | nil => exact absurd rfl hne
  | cons u s =>
    obtain ⟨-, -, -, hword⟩ := plain_of_isDigit (hdigits u List.mem_cons_self)
    have hfirst : js "Infinity" = 0x49 :: js "nfinity" := rfl
    rw [hfirst, List.cons_append, List.isPrefixOf_cons_cons, beq_eq_false_iff_ne.mpr hword.symm,
      Bool.false_and]

/-! ### The comma -/

theorem replace_of_not_mem {u : UInt16} {by_ s : JsString} (h : u ∉ s) :
    replace u by_ s = s := by
  induction s with
  | nil => rfl
  | cons w s ih =>
    obtain ⟨hw, hs⟩ := not_or.mp (mt List.mem_cons.mpr h)
    rw [replace, if_neg (Ne.symm hw), ih hs]

theorem replace_append {u : UInt16} {by_ s : JsString} (h : u ∈ s) (t : JsString) :
    replace u by_ (s ++ t) = replace u by_ s ++ t := by
  induction s with
  | nil => cases h
  | cons w s ih =>
    rw [List.cons_append, replace, replace]
    split
    · rw [List.append_assoc]
    · next hw =>
      rw [ih ((List.mem_cons.mp h).resolve_left (Ne.symm hw)), List.cons_append]

theorem replace_append_cons {u : UInt16} {by_ s : JsString} (h : u ∉ s) (t : JsString) :
    replace u by_ (s ++ u :: t) = s ++ (by_ ++ t) := by
  induction s with
  | nil => rw [List.nil_append, List.nil_append, replace, if_pos rfl]
  | cons w s ih =>
    obtain ⟨hw, hs⟩ := not_or.mp (mt List.mem_cons.mpr h)
    rw [List.cons_append, replace, if_neg (Ne.symm hw), ih hs, List.cons_append]

section
variable {u v : UInt16}

theorem trimStart_replace (hu : isSpace u = false) (hv : isSpace v = false) (s : JsString) :
    trimStart (replace u [v] s) = replace u [v] (trimStart s) := by
  unfold trimStart
  induction s with
  | nil => rfl
  | cons w s ih =>
    by_cases hw : w = u
    · subst hw
      rw [List.dropWhile_cons_of_neg (by simp [hu]), replace, if_pos rfl, List.singleton_append,
        List.dropWhile_cons_of_neg (by simp [hv])]
    · rw [replace, if_neg hw]
      by_cases hspace : isSpace w = true
      · rw [List.dropWhile_cons_of_pos hspace, List.dropWhile_cons_of_pos hspace, ih]
      · rw [List.dropWhile_cons_of_neg hspace, List.dropWhile_cons_of_neg hspace, replace,
          if_neg hw]

theorem trimEnd_replace (hu : isSpace u = false) (hv : isSpace v = false) (s : JsString) :
    (replace u [v] s).rdropWhile isSpace = replace u [v] (s.rdropWhile isSpace) := by
  induction s using List.reverseRecOn with
  | nil => rfl
  | append_singleton s w ih =>
    by_cases hmem : u ∈ s
    · rw [replace_append hmem, List.rdropWhile_concat, List.rdropWhile_concat]
      split
      · exact ih
      · rw [replace_append hmem]
    by_cases hw : w = u
    · subst hw
      rw [replace_append_cons hmem, List.append_nil,
        List.rdropWhile_concat_neg _ _ _ (by simp [hv]),
        List.rdropWhile_concat_neg _ _ _ (by simp [hu]), replace_append_cons hmem, List.append_nil]
    · have hnot : u ∉ s ++ [w] := by simp [hmem, Ne.symm hw]
      rw [replace_of_not_mem hnot,
        replace_of_not_mem fun h => hnot ((List.rdropWhile_prefix _ _).subset h)]

/-- A unit put in another's place does not hinder the trimming. -/
theorem trim_replace (hu : isSpace u = false) (hv : isSpace v = false) (s : JsString) :
    trim (replace u [v] s) = replace u [v] (trim s) := by
  rw [trim, trimStart_replace hu hv, trimEnd_replace hu hv, trim]

/-- What was replaced stands where the other unit stands now, if the two are there once. -/
theorem eq_or_eq_of_replace_eq {s whole part : JsString} (hwhole : v ∉ whole) (hpart : v ∉ part)
    (h : replace u [v] s = whole ++ v :: part) :
    s = whole ++ v :: part ∨ s = whole ++ u :: part := by
  by_cases hmem : u ∈ s
  · obtain ⟨a, b, rfl, ha⟩ := List.eq_append_cons_of_mem hmem
    rw [replace_append_cons ha, List.singleton_append] at h
    obtain ⟨rfl, -, rfl⟩ := (List.append_cons_inj_of_notMem hwhole hpart).mp h.symm
    exact .inr rfl
  · rw [replace_of_not_mem hmem] at h
    exact .inl h

end

/-! ### The price -/

/-- `parseFloat` on an engine that keeps every number exact, in any time zone. -/
def exact (utc : ℤ → ℤ) : Engine := ⟨.finite, utc⟩

variable {utc : ℤ → ℤ}

theorem parseFloat_of_allDigits {s : JsString} (h : AllDigits s) :
    parseFloat (exact utc) s = .finite (decimal s) := by
  have hsign := sign_trimStart h []
  have hword := infinity_isPrefixOf h []
  rw [List.append_nil] at hsign hword
  have hwhole : s.takeWhile isDigit = s := List.takeWhile_eq_self_iff.mpr h.2
  have hrest : s.dropWhile isDigit = [] := List.dropWhile_eq_nil_iff.mpr h.2
  simp [parseFloat, hsign, hword, hwhole, hrest, fraction, exponent, h.1, exact, signed]

theorem parseFloat_of_point {whole part : JsString} (hwhole : AllDigits whole)
    (hpart : AllDigits part) :
    parseFloat (exact utc) (whole ++ 0x2E :: part) =
      .finite (decimal whole + decimal part / 10 ^ part.length) := by
  have hdot : isDigit 0x2E = false := by decide
  have htake : part.takeWhile isDigit = part := List.takeWhile_eq_self_iff.mpr hpart.2
  have hdrop : part.dropWhile isDigit = [] := List.dropWhile_eq_nil_iff.mpr hpart.2
  have hne : whole ++ part ≠ [] := List.append_ne_nil_of_left_ne_nil hwhole.1 part
  have hvalue : (decimal (whole ++ part) : ℚ) * 10 ^ (0 - (part.length : ℤ)) =
      decimal whole + decimal part / 10 ^ part.length := by
    rw [zero_sub, zpow_neg, zpow_natCast, decimal_append]
    push_cast
    field_simp
  simp only [parseFloat, sign_trimStart hwhole, infinity_isPrefixOf hwhole,
    takeWhile_append_cons hwhole.2 hdot, dropWhile_append_cons hwhole.2 hdot, fraction, htake,
    hdrop, hne, exponent, exact, signed, hvalue, if_false, Bool.false_eq_true]

/-- The price text as `validateRows` reads it. -/
def priceStr (s : JsString) : JsString := trim (replace 0x2C [0x2E] (replace 0x24 [] s))

/-- The text that `parseFloat` gets is a number as a whole: digits, and behind a point more
digits or nothing at all. -/
def wholeNumber (s : JsString) : Bool :=
  decide (s.takeWhile isDigit ≠ []) &&
    match s.dropWhile isDigit with
    | [] => true
    | u :: part => u == 0x2E && decide (AllDigits part)

theorem wholeNumber_iff {s : JsString} :
    wholeNumber s = true ↔
      AllDigits s ∨ ∃ whole part, AllDigits whole ∧ AllDigits part ∧ s = whole ++ 0x2E :: part := by
  have hdigits : ∀ u ∈ s.takeWhile isDigit, isDigit u = true := fun u hu =>
    List.mem_takeWhile_imp hu
  have hsplit : s.takeWhile isDigit ++ s.dropWhile isDigit = s := List.takeWhile_append_dropWhile
  constructor
  · intro h
    obtain ⟨hne, h⟩ := (Bool.and_eq_true _ _).mp h
    have hwhole : AllDigits (s.takeWhile isDigit) := ⟨of_decide_eq_true hne, hdigits⟩
    split at h
    · next hrest =>
      rw [hrest, List.append_nil] at hsplit
      exact .inl (hsplit ▸ hwhole)
    · next u part hrest =>
      obtain ⟨hu, hpart⟩ := (Bool.and_eq_true _ _).mp h
      rw [hrest, eq_of_beq hu] at hsplit
      exact .inr ⟨_, part, hwhole, of_decide_eq_true hpart, hsplit.symm⟩
  · rintro (h | ⟨whole, part, hwhole, hpart, rfl⟩)
    · simp [wholeNumber, List.takeWhile_eq_self_iff.mpr h.2, List.dropWhile_eq_nil_iff.mpr h.2, h.1]
    · have hdot : isDigit 0x2E = false := by decide
      simp [wholeNumber, takeWhile_append_cons hwhole.2 hdot,
        dropWhile_append_cons hwhole.2 hdot, hwhole.1, hpart]

/-- **A price that is a number as a whole is read right.** -/
theorem parseFloat_of_isDecimal (utc : ℤ → ℤ) {s : JsString} {q : ℚ}
    (h : IsDecimal (trim (replace 0x24 [] s)) q) :
    wholeNumber (priceStr s) = true ∧ parseFloat (exact utc) (priceStr s) = .finite q := by
  have hcomma : isDigit 0x2C = false := by decide
  rw [priceStr, trim_replace (by decide) (by decide)]
  rcases h with ⟨hdigits, rfl⟩ | ⟨whole, part, hwhole, hpart, htext, rfl⟩
  · rw [replace_of_not_mem (not_mem_of_allDigits hdigits hcomma)]
    exact ⟨wholeNumber_iff.mpr (.inl hdigits), parseFloat_of_allDigits hdigits⟩
  · have heq : replace 0x2C [0x2E] (trim (replace 0x24 [] s)) = whole ++ 0x2E :: part := by
      rcases htext with htext | htext <;> rw [htext]
      · refine replace_of_not_mem fun hmem => ?_
        rcases List.mem_append.mp hmem with hmem | hmem
        · exact not_mem_of_allDigits hwhole hcomma hmem
        · rcases List.mem_cons.mp hmem with hmem | hmem
          · exact absurd hmem (by decide)
          · exact not_mem_of_allDigits hpart hcomma hmem
      · rw [replace_append_cons (not_mem_of_allDigits hwhole hcomma), List.singleton_append]
    rw [heq]
    exact ⟨wholeNumber_iff.mpr (.inr ⟨whole, part, hwhole, hpart, rfl⟩),
      parseFloat_of_point hwhole hpart⟩

theorem exists_isDecimal_of_wholeNumber {s : JsString} (h : wholeNumber (priceStr s) = true) :
    ∃ q, IsDecimal (trim (replace 0x24 [] s)) q := by
  have hdot : isDigit 0x2E = false := by decide
  rw [priceStr, trim_replace (by decide) (by decide)] at h
  rcases wholeNumber_iff.mp h with h | ⟨whole, part, hwhole, hpart, heq⟩
  · by_cases hmem : 0x2C ∈ trim (replace 0x24 [] s)
    · -- a comma would have left a point behind
      obtain ⟨a, b, heq, ha⟩ := List.eq_append_cons_of_mem hmem
      rw [heq, replace_append_cons ha, List.singleton_append] at h
      exact absurd (List.mem_append_right a List.mem_cons_self) (not_mem_of_allDigits h hdot)
    · rw [replace_of_not_mem hmem] at h
      exact ⟨_, .inl ⟨h, rfl⟩⟩
  · have htext := eq_or_eq_of_replace_eq (not_mem_of_allDigits hwhole hdot)
      (not_mem_of_allDigits hpart hdot) heq
    exact ⟨_, .inr ⟨whole, part, hwhole, hpart, htext, rfl⟩⟩

/-! ### The expiration -/

/-- The day of a date, counted from 1970-01-01. -/
def dayNumber (date : Date) : ℤ :=
  dayFromYear date.year + dayFromMonth date.year (date.month - 1) + (date.day - 1)

theorem inLeapYear_natCast (y : ℕ) : inLeapYear y = isLeap y := by
  rw [Bool.eq_iff_iff]
  simp only [inLeapYear, isLeap, Bool.and_eq_true, Bool.or_eq_true, beq_iff_eq, bne_iff_ne]
  omega

/-- A year is over when the next begins. -/
theorem dayFromYear_add_le {y y' : ℤ} (h : y < y') :
    dayFromYear y + (if inLeapYear y then 366 else 365) ≤ dayFromYear y' := by
  have hleap : inLeapYear y = true ↔ y % 4 = 0 ∧ (y % 100 ≠ 0 ∨ y % 400 = 0) := by
    simp only [inLeapYear, Bool.and_eq_true, Bool.or_eq_true, beq_iff_eq, bne_iff_ne, ne_eq]
  unfold dayFromYear
  split <;> rename_i hy <;> rw [hleap] at hy <;> omega

/-- A month is over when the next begins. -/
theorem dayFromMonth_add_le {y m m' : ℕ} (h : m < m') (hm' : m' < 12) :
    dayFromMonth y m + daysIn (m + 1) y ≤ dayFromMonth y m' := by
  have hmonths : ∀ leap : Bool, ∀ m' < 12, ∀ m < m',
      ([0, 31, 59, 90, 120, 151, 181, 212, 243, 273, 304, 334].getD m 0 +
          if 2 ≤ m ∧ leap then 1 else 0 : ℤ) +
        ((if m + 1 = 2 then if leap then 29 else 28
          else if m + 1 = 4 ∨ m + 1 = 6 ∨ m + 1 = 9 ∨ m + 1 = 11 then 30 else 31 : ℕ) : ℤ) ≤
      [0, 31, 59, 90, 120, 151, 181, 212, 243, 273, 304, 334].getD m' 0 +
        if 2 ≤ m' ∧ leap then 1 else 0 := by
    decide
  simp only [dayFromMonth, daysIn, inLeapYear_natCast]
  exact hmonths (isLeap y) m' hm' m h

/-- The last month ends with the year. -/
theorem dayFromMonth_add_lt {y m d : ℕ} (hm : m < 12) (hd : d ≤ daysIn (m + 1) y) :
    dayFromMonth y m + (d - 1) < if inLeapYear y then 366 else 365 := by
  have hlast : dayFromMonth y 11 + daysIn 12 y = if inLeapYear y then 366 else 365 := by
    simp only [dayFromMonth, daysIn]
    split <;> simp_all
  rcases Nat.lt_or_ge m 11 with hlt | hge
  · have hle := dayFromMonth_add_le (y := y) hlt (by omega)
    omega
  · obtain rfl : m = 11 := by omega
    have hd' : d ≤ daysIn 12 y := hd
    omega

theorem dayFromMonth_nonneg (y : ℤ) {m : ℕ} (hm : m < 12) : 0 ≤ dayFromMonth y m := by
  have hmonths : ∀ m < 12,
      (0 : ℤ) ≤ [0, 31, 59, 90, 120, 151, 181, 212, 243, 273, 304, 334].getD m 0 := by decide
  refine add_nonneg (hmonths m hm) ?_
  split <;> decide

theorem dayNumber_lt_of_year {date date' : Date} (h : date.Exists) (h' : date'.Exists)
    (hlt : date.year < date'.year) : dayNumber date < dayNumber date' := by
  have hyear := dayFromYear_add_le (Int.ofNat_lt.mpr hlt)
  obtain ⟨hpos, hle, -, hday⟩ := h
  obtain ⟨hpos', hle', hday', -⟩ := h'
  have hmonth := dayFromMonth_add_lt (y := date.year) (m := date.month - 1) (d := date.day)
    (by omega) (by rwa [Nat.sub_add_cancel hpos])
  have hnonneg := dayFromMonth_nonneg date'.year (m := date'.month - 1) (by omega)
  unfold dayNumber
  omega

theorem dayNumber_lt_of_month {date date' : Date} (h : date.Exists) (h' : date'.Exists)
    (hyear : date.year = date'.year) (hlt : date.month < date'.month) :
    dayNumber date < dayNumber date' := by
  obtain ⟨hpos, hle, -, hday⟩ := h
  obtain ⟨hpos', hle', hday', -⟩ := h'
  have hmonth : dayFromMonth date.year (date.month - 1) + daysIn (date.month - 1 + 1) date.year ≤
      dayFromMonth date.year (date'.month - 1) := dayFromMonth_add_le (by omega) (by omega)
  rw [Nat.sub_add_cancel hpos] at hmonth
  unfold dayNumber
  rw [← hyear]
  omega

/-- **A day names one date.** -/
theorem dayNumber_inj {date date' : Date} (h : date.Exists) (h' : date'.Exists)
    (heq : dayNumber date = dayNumber date') : date = date' := by
  have hyear : date.year = date'.year := by
    rcases Nat.lt_trichotomy date.year date'.year with hlt | hy | hgt
    · exact absurd heq (dayNumber_lt_of_year h h' hlt).ne
    · exact hy
    · exact absurd heq (dayNumber_lt_of_year h' h hgt).ne'
  have hmonth : date.month = date'.month := by
    rcases Nat.lt_trichotomy date.month date'.month with hlt | hm | hgt
    · exact absurd heq (dayNumber_lt_of_month h h' hyear hlt).ne
    · exact hm
    · exact absurd heq (dayNumber_lt_of_month h' h hyear.symm hgt).ne'
  have hday : date.day = date'.day := by
    unfold dayNumber at heq
    rw [hyear, hmonth] at heq
    omega
  cases date
  cases date'
  exact Date.mk.injEq .. |>.mpr ⟨hyear, hmonth, hday⟩

/-! ### The rows -/

theorem parseInt_of_allDigits {s : JsString} (h : AllDigits s) :
    parseInt s = some (decimal s : ℤ) := by
  have hsign := sign_trimStart h []
  rw [List.append_nil] at hsign
  have hdigits : s.takeWhile isDigit = s := List.takeWhile_eq_self_iff.mpr h.2
  simp [parseInt, hsign, hdigits, h.1, signed]

theorem split_date {month day year : JsString} (hmonth : AllDigits month) (hday : AllDigits day)
    (hyear : AllDigits year) :
    split 0x2F (month ++ 0x2F :: (day ++ 0x2F :: year)) = [month, day, year] := by
  have hslash : isDigit 0x2F = false := by decide
  rw [split, List.splitOn_append_cons_self_of_not_mem (not_mem_of_allDigits hmonth hslash),
    List.splitOn_append_cons_self_of_not_mem (not_mem_of_allDigits hday hslash),
    List.splitOn_eq_singleton (not_mem_of_allDigits hyear hslash)]

/-- A month and a day of the calendar are taken as they are. -/
theorem eq_dayNumber_of_newDate {e : Engine} {year : JsString} {month day : ℕ} {d : ℤ}
    (hdate : (Date.mk (fullYear year) month day).Exists)
    (h : newDate e (fullYear year) (month - 1) day = some d) :
    d = dayNumber ⟨fullYear year, month, day⟩ := by
  obtain ⟨hpos, hle, -, -⟩ := hdate
  have hpos : 1 ≤ month := hpos
  have hle : month ≤ 12 := hle
  have hcentury : ¬((0 : ℤ) ≤ fullYear year ∧ (fullYear year : ℤ) ≤ 99) := by
    unfold fullYear
    split <;> omega
  have hyears : ((month : ℤ) - 1) / 12 = 0 := by omega
  have hmonth : (((month : ℤ) - 1) % 12).toNat = month - 1 := by omega
  rw [newDate, if_neg hcentury] at h
  obtain ⟨hday, -⟩ := Option.filter_eq_some_iff.mp h
  unfold makeDay at hday
  split at hday
  · rw [Option.some.injEq, hyears, hmonth, add_zero] at hday
    exact hday.symm
  · cases hday

/-- The year that `parseDate` computes. -/
theorem natCast_fullYear (y : JsString) :
    (if (decimal y : ℤ) < 100 then 2000 + (decimal y : ℤ) else decimal y) = fullYear y := by
  unfold fullYear
  split_ifs <;> omega

/-- A text says one date. -/
theorem IsDate.unique {s : JsString} {date date' : Date} (h : IsDate s date) (h' : IsDate s date') :
    date = date' := by
  obtain ⟨month, day, year, hmonth, hday, hyear, hs, rfl⟩ := h
  obtain ⟨month', day', year', hmonth', hday', hyear', hs', rfl⟩ := h'
  have hsplit := split_date hmonth hday hyear
  rw [← hs, hs', split_date hmonth' hday' hyear'] at hsplit
  cases hsplit
  rfl

/-- The texts of a row that gets past the guards: the name is there, the price opens with a
number that is not negative, and the expiration has three parts that open with integers and
make a date. -/
structure Passes (e : Engine) (row : CsvRow) (p m d y : JsString) : Prop where
  name : ∃ s, row.name = some s ∧ trim s ≠ []
  price : ∃ s, row.price = some s ∧ priceStr s = p
  number : (parseFloat e p).isNaN = false ∧ (parseFloat e p).negative = false
  expiration : ∃ s, row.expiration = some s ∧ split 0x2F (trim s) = [m, d, y]
  date : ∃ month day year, parseInt m = some month ∧ parseInt d = some day ∧
    parseInt y = some year ∧
      (newDate e (if year < 100 then 2000 + year else year) (month - 1) day).isSome

/-- Nothing stands around the numbers of a row, and its month has its day. -/
structure Whole (p m d y : JsString) : Prop where
  price : wholeNumber p = true
  month : AllDigits m
  day : AllDigits d
  year : AllDigits y
  date : (Date.mk (fullYear y) (decimal m) (decimal d)).Exists

/-- The row is not one whose numbers are read in part, or whose day runs into another month. -/
def Clean (e : Engine) (row : CsvRow) : Prop :=
  ∀ p m d y, Passes e row p m d y → Whole p m d y

/-- The stored row carries what the row of the file says. -/
structure Says (row : CsvRow) (r : ProcessedRow) : Prop where
  name : ∃ s, row.name = some s ∧ trim s ≠ []
  price : ∃ s q, row.price = some s ∧ IsDecimal (trim (replace 0x24 [] s)) q ∧
    r.price = .finite q
  expiration : ∃ s date, row.expiration = some s ∧ IsDate (trim s) date ∧ date.Exists ∧
    r.expirationDate = dayNumber date

/-- **Every row is skipped, or stored in its place as it says.** -/
def Faithful (e : Engine) (batchId : JsString) (userId : Option JsString)
    (rows : List CsvRow) : Prop :=
  ∀ before row after, rows = before ++ row :: after →
    ∃ kept : Option ProcessedRow, (∀ r ∈ kept, Says row r) ∧
      validateRows e batchId userId rows =
        validateRows e batchId userId before ++ kept.toList ++
          validateRows e batchId userId after

section
variable {e : Engine} {batchId : JsString} {userId : Option JsString} {row : CsvRow}
  {r : ProcessedRow}

theorem parseDate_eq_some_iff {s : JsString} {date : ℤ} :
    parseDate e s = some date ↔
      ∃ m d y month day year, split 0x2F s = [m, d, y] ∧ parseInt m = some month ∧
        parseInt d = some day ∧ parseInt y = some year ∧
          newDate e (if year < 100 then 2000 + year else year) (month - 1) day = some date := by
  unfold parseDate
  constructor
  · intro h
    split at h
    · next month day year hparts =>
      obtain ⟨m, ms, hsplit, hm, hms⟩ := List.map_eq_cons_iff.mp hparts
      obtain ⟨d, ds, rfl, hd, hds⟩ := List.map_eq_cons_iff.mp hms
      obtain ⟨y, ys, rfl, hy, hys⟩ := List.map_eq_cons_iff.mp hds
      rw [List.map_eq_nil_iff.mp hys] at hsplit
      exact ⟨m, d, y, month, day, year, hsplit, hm, hd, hy, h⟩
    · cases h
  · rintro ⟨m, d, y, month, day, year, hsplit, hm, hd, hy, h⟩
    rw [hsplit, List.map_cons, List.map_cons, List.map_cons, List.map_nil, hm, hd, hy]
    exact h

theorem validateRow_eq_some_iff :
    validateRow e batchId userId row = some r ↔
      ∃ name price expiration date, row.name = some name ∧ row.price = some price ∧
        row.expiration = some expiration ∧ trim name ≠ [] ∧
          (parseFloat e (priceStr price)).isNaN = false ∧
            (parseFloat e (priceStr price)).negative = false ∧
              parseDate e (trim expiration) = some date ∧
                r = ⟨substring 500 (trim name), parseFloat e (priceStr price), date, batchId,
                  userId⟩ := by
  constructor
  · intro h
    unfold validateRow at h
    split at h
    · next hname' hprice' hexpiration' =>
      split_ifs at h with hblank
      dsimp only at h
      split_ifs at h with hguard
      obtain ⟨date, hdate, rfl⟩ := Option.map_eq_some_iff.mp h
      obtain ⟨name, hname, rfl⟩ := Option.map_eq_some_iff.mp hname'
      obtain ⟨price, hprice, rfl⟩ := Option.map_eq_some_iff.mp hprice'
      obtain ⟨expiration, hexpiration, rfl⟩ := Option.map_eq_some_iff.mp hexpiration'
      obtain ⟨hnan, hnegative⟩ := not_or.mp hguard
      exact ⟨name, price, expiration, date, hname, hprice, hexpiration,
        fun hname => hblank (.inl hname), eq_false_of_ne_true hnan,
        eq_false_of_ne_true hnegative, hdate, rfl⟩
    · cases h
  · rintro ⟨name, price, expiration, date, hname, hprice, hexpiration, hne, hnan, hnegative, hdate,
      rfl⟩
    -- an empty text is no number and no date
    have hprice' : priceStr price ≠ [] := by
      intro hnil
      rw [hnil] at hnan
      cases hnan
    have hexpiration' : trim expiration ≠ [] := by
      intro hnil
      rw [hnil] at hdate
      cases hdate
    rw [priceStr] at hprice' hnan hnegative
    simp [validateRow, hname, hprice, hexpiration, hne, hprice', hexpiration', hnan, hnegative,
      hdate, priceStr]

/-- The texts of a kept row have got past the guards. -/
theorem passes_of_validateRow (h : validateRow e batchId userId row = some r) :
    ∃ m d y price expiration month day year,
      row.price = some price ∧ row.expiration = some expiration ∧
        split 0x2F (trim expiration) = [m, d, y] ∧ parseInt m = some month ∧
          parseInt d = some day ∧ parseInt y = some year ∧
            Passes e row (priceStr price) m d y ∧ r.price = parseFloat e (priceStr price) ∧
              newDate e (if year < 100 then 2000 + year else year) (month - 1) day =
                some r.expirationDate := by
  obtain ⟨name, price, expiration, date, hname, hprice, hexpiration, hne, hnan, hnegative, hdate,
    rfl⟩ := validateRow_eq_some_iff.mp h
  obtain ⟨m, d, y, month, day, year, hsplit, hm, hd, hy, hnew⟩ := parseDate_eq_some_iff.mp hdate
  refine ⟨m, d, y, price, expiration, month, day, year, hprice, hexpiration, hsplit, hm, hd, hy,
    ?_, rfl, hnew⟩
  exact ⟨⟨name, hname, hne⟩, ⟨price, hprice, rfl⟩, ⟨hnan, hnegative⟩,
    ⟨expiration, hexpiration, hsplit⟩,
    ⟨month, day, year, hm, hd, hy, Option.isSome_of_eq_some hnew⟩⟩

variable (batchId userId) in
/-- A row whose texts get past the guards is kept. -/
theorem exists_validateRow_of_passes {p m d y : JsString} (h : Passes e row p m d y) :
    ∃ r, validateRow e batchId userId row = some r := by
  obtain ⟨name, hname, hne⟩ := h.name
  obtain ⟨price, hprice, rfl⟩ := h.price
  obtain ⟨expiration, hexpiration, hsplit⟩ := h.expiration
  obtain ⟨month, day, year, hm, hd, hy, hsome⟩ := h.date
  obtain ⟨date, hnew⟩ := Option.isSome_iff_exists.mp hsome
  exact ⟨_, validateRow_eq_some_iff.mpr ⟨name, price, expiration, date, hname, hprice,
    hexpiration, hne, h.number.1, h.number.2,
    parseDate_eq_some_iff.mpr ⟨m, d, y, month, day, year, hsplit, hm, hd, hy, hnew⟩, rfl⟩⟩

theorem clean_of_kept (h : ∀ r, validateRow e batchId userId row = some r → Says row r) :
    Clean e row := by
  intro p m d y hpasses
  obtain ⟨r, hr⟩ := exists_validateRow_of_passes batchId userId hpasses
  obtain ⟨-, ⟨price, q, hprice, hq, -⟩, ⟨expiration, date, hexpiration, hdate, hexists, -⟩⟩ :=
    h r hr
  obtain ⟨price', hprice', rfl⟩ := hpasses.price
  obtain rfl := Option.some.inj (hprice.symm.trans hprice')
  obtain ⟨expiration', hexpiration', hsplit⟩ := hpasses.expiration
  obtain rfl := Option.some.inj (hexpiration.symm.trans hexpiration')
  obtain ⟨month, day, year, hmonth, hday, hyear, htext, rfl⟩ := hdate
  rw [htext, split_date hmonth hday hyear] at hsplit
  cases hsplit
  exact ⟨(parseFloat_of_isDecimal (fun _ => 0) hq).1, hmonth, hday, hyear, hexists⟩

theorem says_of_clean (hclean : Clean (exact utc) row)
    (h : validateRow (exact utc) batchId userId row = some r) : Says row r := by
  obtain ⟨m, d, y, price, expiration, month, day, year, hprice, hexpiration, hsplit, hm, hd, hy,
    hpasses, hrprice, hnew⟩ := passes_of_validateRow h
  obtain ⟨hnumber, hmonth, hday, hyear, hexists⟩ := hclean _ _ _ _ hpasses
  obtain ⟨q, hq⟩ := exists_isDecimal_of_wholeNumber hnumber
  refine ⟨hpasses.name, ⟨price, q, hprice, hq, ?_⟩,
    ⟨expiration, ⟨fullYear y, decimal m, decimal d⟩, hexpiration, ?_, hexists, ?_⟩⟩
  · rw [hrprice, (parseFloat_of_isDecimal utc hq).2]
  · refine ⟨m, d, y, hmonth, hday, hyear, ?_, rfl⟩
    have htext : [0x2F].intercalate ((trim expiration).splitOn 0x2F) = trim expiration :=
      List.intercalate_splitOn 0x2F
    rw [split] at hsplit
    rw [hsplit] at htext
    rw [← htext]
    simp [List.intercalate]
  · rw [parseInt_of_allDigits hmonth, Option.some.injEq] at hm
    rw [parseInt_of_allDigits hday, Option.some.injEq] at hd
    rw [parseInt_of_allDigits hyear, Option.some.injEq] at hy
    rw [← hm, ← hd, ← hy, natCast_fullYear] at hnew
    exact eq_dayNumber_of_newDate hexists hnew

theorem validateRows_append_cons (before after : List CsvRow) :
    validateRows e batchId userId (before ++ row :: after) =
      validateRows e batchId userId before ++ (validateRow e batchId userId row).toList ++
        validateRows e batchId userId after := by
  rw [validateRows_append, validateRows, validateRows, validateRows, List.append_assoc,
    List.filterMap_cons]
  cases validateRow e batchId userId row <;> rfl

theorem faithful_iff_forall {rows : List CsvRow} :
    Faithful e batchId userId rows ↔
      ∀ row ∈ rows, ∀ r, validateRow e batchId userId row = some r → Says row r := by
  constructor
  · intro h row hrow r hr
    obtain ⟨before, after, rfl⟩ := List.append_of_mem hrow
    obtain ⟨kept, hsays, heq⟩ := h before row after rfl
    rw [validateRows_append_cons, hr] at heq
    have hkept := List.append_cancel_left (List.append_cancel_right heq)
    refine hsays r ?_
    cases kept with
    | none => cases hkept
    | some r' => exact congrArg some (List.cons.inj hkept).1.symm
  · rintro h before row after rfl
    exact ⟨validateRow e batchId userId row,
      h row (List.mem_append_right before List.mem_cons_self),
      validateRows_append_cons before after⟩

/-- **The date of the file can be told from the stored day**: where the rows are stored as they
say, the day of a date is stored exactly for the rows that say this date. -/
theorem Faithful.expirationDate_iff {rows : List CsvRow} (h : Faithful e batchId userId rows)
    (hrow : row ∈ rows) (hr : validateRow e batchId userId row = some r) {date : Date}
    (hexists : date.Exists) :
    r.expirationDate = dayNumber date ↔
      ∃ s, row.expiration = some s ∧ IsDate (trim s) date := by
  obtain ⟨s, said, hs, hsaid, hsaidExists, hday⟩ :=
    (faithful_iff_forall.mp h row hrow r hr).expiration
  rw [hday]
  constructor
  · intro heq
    obtain rfl := dayNumber_inj hsaidExists hexists heq
    exact ⟨s, hs, hsaid⟩
  · rintro ⟨s', hs', hdate⟩
    obtain rfl := Option.some.inj (hs.symm.trans hs')
    rw [hsaid.unique hdate]

end

/-! ### One file -/

/-- A file of one row. -/
def desk : List CsvRow := [⟨some (js "Desk"), some (js "$1,234.50"), some (js "1/15/2025")⟩]

/-- The days of UTC. -/
def utcDays : ℤ → ℤ := fun day => 86400000 * day

theorem passes_desk : ∀ row ∈ desk,
    Passes (exact utcDays) row (js "1.234.50") (js "1") (js "15") (js "2025") := by
  have hprice : parseFloat (exact utcDays) (js "1.234.50") =
      .finite ((1234 : ℕ) * 10 ^ ((0 : ℤ) - 3)) := rfl
  intro row hrow
  rw [List.mem_singleton.mp hrow]
  refine ⟨⟨_, rfl, by decide⟩, ⟨_, rfl, by decide⟩, ?_, ⟨_, rfl, by decide⟩,
    ⟨1, 15, 2025, by decide, by decide, by decide, by decide⟩⟩
  rw [hprice]
  exact ⟨rfl, by norm_num [Number.negative]⟩

end CsvProductUploader.NodePipeline

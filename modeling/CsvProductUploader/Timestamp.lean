import CsvProductUploader.Calendar
import CsvProductUploader.Lib.JsonText
import Mathlib.Data.List.DropRight
import Mathlib.Tactic.Ring

/-!
# Timestamps and their texts

A `time.Time` in UTC as JSON carries it: RFC 3339 with as much of the second's fraction as
there is.  The instant is a number of nanoseconds since the epoch.

## Main definitions

* `Date.dayNumber`, `civil` — the days counted from the first of year 0, and back.
* `formatTimestamp` — the text of `Time.MarshalJSON`, between the quotes.
* `parseTimestamp` — `time.Parse(time.RFC3339, value)`, which `Time.UnmarshalJSON` falls
  back on.

## Main results

* `dayNumber_civil` — a day is found again by its number.
* `parseTimestamp_format` — an instant is read back from its text, to the nanosecond.
* `formatTimestamp_isSome_iff` — the instants that have a text.
-/

namespace CsvProductUploader

/-! ### Days -/

/-- The days before a year, since the first of year 0. -/
def daysBefore (year : ℕ) : ℕ :=
  365 * year + (year + 3) / 4 - (year + 99) / 100 + (year + 399) / 400

/-- The days of the months from `first` on that come before `month`. -/
def daysBetween (year first month : ℕ) : ℕ :=
  ((List.range' first (month - first)).map (daysIn · year)).sum

/-- The number of a day, since the first of year 0. -/
def Date.dayNumber (d : Date) : ℕ :=
  daysBefore d.year + daysBetween d.year 1 d.month + (d.day - 1)

/-- The year of a day. -/
def yearOf (n : ℕ) : ℕ :=
  -- Four hundred years have 146097 days; the quotient is the year or the one before it.
  let year := (400 * (n - 2)) / 146097
  if daysBefore (year + 1) ≤ n then year + 1 else year

/-- The month and the day of the month, `r` days after the first day of the first month. -/
def inMonths (year : ℕ) : List ℕ → ℕ → ℕ × ℕ
  | [], r => (12, r + 1)
  | month :: months, r =>
    if r < daysIn month year then (month, r + 1) else inMonths year months (r - daysIn month year)

/-- The day of a number. -/
def civil (n : ℕ) : Date :=
  let year := yearOf n
  let (month, day) := inMonths year (List.range' 1 12) (n - daysBefore year)
  ⟨year, month, day⟩

theorem yearOf_spec (n : ℕ) : daysBefore (yearOf n) ≤ n ∧ n < daysBefore (yearOf n + 1) := by
  unfold yearOf daysBefore
  dsimp only
  split_ifs with h <;> omega

theorem isLeap_iff (year : ℕ) :
    isLeap year = true ↔ year % 4 = 0 ∧ (year % 100 ≠ 0 ∨ year % 400 = 0) := by
  simp [isLeap]

/-- A year is its twelve months. -/
theorem daysBefore_succ (year : ℕ) :
    daysBefore (year + 1) = daysBefore year + daysBetween year 1 13 := by
  have hmonths : daysBetween year 1 13 = if isLeap year then 366 else 365 := by
    simp only [daysBetween, daysIn]
    cases isLeap year <;> rfl
  rw [hmonths]
  have h4 : (year + 1 + 3) / 4 = (year + 3) / 4 + if year % 4 = 0 then 1 else 0 := by
    split_ifs <;> omega
  have h100 : (year + 1 + 99) / 100 = (year + 99) / 100 + if year % 100 = 0 then 1 else 0 := by
    split_ifs <;> omega
  have h400 : (year + 1 + 399) / 400 = (year + 399) / 400 + if year % 400 = 0 then 1 else 0 := by
    split_ifs <;> omega
  have hle : (year + 99) / 100 ≤ (year + 3) / 4 := by omega
  have hmod : (year % 400 = 0 → year % 100 = 0) ∧ (year % 100 = 0 → year % 4 = 0) := by omega
  simp only [daysBefore, h4, h100, h400, isLeap_iff]
  clear h4 h100 h400
  generalize (year + 3) / 4 = a at hle ⊢
  generalize (year + 99) / 100 = b at hle ⊢
  generalize (year + 399) / 400 = c
  split_ifs <;> omega

theorem daysBetween_self (year month : ℕ) : daysBetween year month month = 0 := by
  simp [daysBetween]

theorem daysBetween_succ {year first month : ℕ} (h : first < month) :
    daysBetween year first month = daysIn first year + daysBetween year (first + 1) month := by
  unfold daysBetween
  rw [show month - first = (month - (first + 1)) + 1 by omega, List.range'_succ, List.map_cons,
    List.sum_cons]

theorem inMonths_spec {year r k : ℕ} :
    ∀ {first}, r < daysBetween year first (first + k) →
      ∃ month day, inMonths year (List.range' first k) r = (month, day) ∧
        first ≤ month ∧ month < first + k ∧ 1 ≤ day ∧ day ≤ daysIn month year ∧
          daysBetween year first month + (day - 1) = r := by
  induction k generalizing r with
  | zero =>
    intro first h
    rw [Nat.add_zero, daysBetween_self] at h
    omega
  | succ k ih =>
    intro first h
    rw [daysBetween_succ (by omega), show first + (k + 1) = first + 1 + k by omega] at h
    rw [List.range'_succ, inMonths]
    split_ifs with hr
    · refine ⟨first, r + 1, rfl, Nat.le_refl _, by omega, by omega, by omega, ?_⟩
      rw [daysBetween_self]
      omega
    · have hrest : r - daysIn first year < daysBetween year (first + 1) (first + 1 + k) := by omega
      obtain ⟨month, day, heq, hle, hlt, hday, hdays, hr'⟩ := ih hrest
      refine ⟨month, day, heq, by omega, by omega, hday, hdays, ?_⟩
      rw [daysBetween_succ (by omega)]
      omega

theorem civil_spec (n : ℕ) : (civil n).Exists ∧ (civil n).dayNumber = n := by
  obtain ⟨hle, hlt⟩ := yearOf_spec n
  rw [daysBefore_succ] at hlt
  have hr : n - daysBefore (yearOf n) < daysBetween (yearOf n) 1 (1 + 12) := by
    change _ < daysBetween (yearOf n) 1 13
    omega
  obtain ⟨month, day, heq, hmonth, hlast, hday, hdays, hr⟩ := inMonths_spec hr
  have hcivil : civil n = ⟨yearOf n, month, day⟩ := by
    unfold civil
    simp only [heq]
  rw [hcivil]
  refine ⟨⟨hmonth, Nat.le_of_lt_succ hlast, hday, hdays⟩, ?_⟩
  unfold Date.dayNumber
  dsimp only
  omega

/-- A day is found again by its number. -/
theorem dayNumber_civil (n : ℕ) : (civil n).dayNumber = n := (civil_spec n).2

/-! ### Writing -/

def nanosPerSecond : ℕ := 1000000000

/-- The day of the epoch, 1 January 1970. -/
def epochDay : ℕ := 719528

/-- The nanoseconds from the first of year 0 to the epoch. -/
def epochNanos : ℕ := epochDay * 86400 * nanosPerSecond

/-- Two digits. -/
def twoDigits (n : ℕ) : GoString := [digit (n / 10), digit n]

/-- The nine digits of a fraction. -/
def nineDigits (n : ℕ) : GoString :=
  [digit (n / 100000000), digit (n / 10000000), digit (n / 1000000), digit (n / 100000),
    digit (n / 10000), digit (n / 1000), digit (n / 100), digit (n / 10), digit n]

/-- `appendNano` with its trailing zeros cut: nothing at all for a whole second. -/
def formatFraction (nanos : ℕ) : GoString :=
  match (nineDigits nanos).rdropWhile (· == 0x30) with
  | [] => []
  | digits => 0x2E :: digits

/-- The text of `Time.MarshalJSON` between its quotes; `none` for years outside 0 to 9999. -/
def formatTimestamp (t : ℤ) : Option GoString :=
  let total := t + epochNanos
  if total < 0 then none
  else
    let nanos := total.toNat % nanosPerSecond
    let secs := total.toNat / nanosPerSecond
    let date := civil (secs / 86400)
    if date.year > 9999 then none
    else
      some <| date.format ++ 0x54 :: twoDigits (secs / 3600 % 24) ++ 0x3A ::
        twoDigits (secs / 60 % 60) ++ 0x3A :: twoDigits (secs % 60) ++ formatFraction nanos ++
          [0x5A]

/-! ### Reading -/

/-- `skip`: a character of the layout. -/
def skip (b : UInt8) : GoString → Option GoString
  | [] => none
  | c :: s => if c = b then some s else none

/-- `parseNanoseconds`: digits beyond the ninth do not count. -/
def nanoseconds (digits : GoString) : ℕ :=
  decimal (digits.take 9) * 10 ^ (9 - (digits.take 9).length)

/-- A fraction of a second, if there is one, and what follows it. -/
def fraction : GoString → ℕ × GoString
  | b :: c :: s =>
    if (b = 0x2E ∨ b = 0x2C) ∧ isDigit c then
      (nanoseconds ((c :: s).takeWhile isDigit), (c :: s).dropWhile isDigit)
    else (0, b :: c :: s)
  | s => (0, s)

/-- The zone at the end, in seconds east of UTC. -/
def zoneOffset : GoString → Option ℤ
  | [0x5A] => some 0
  | [sign, a, b, colon, c, d] =>
    if colon = 0x3A ∧ [a, b, c, d].all isDigit ∧ decimal [a, b] ≤ 24 ∧ decimal [c, d] ≤ 60 then
      let offset : ℤ := (decimal [a, b] * 60 + decimal [c, d]) * 60
      if sign = 0x2B then some offset else if sign = 0x2D then some (-offset) else none
    else none
  | _ => none

/-- The instant of a date and a time of day. -/
def instant (d : Date) (hour min sec nanos : ℕ) (offset : ℤ) : ℤ :=
  (((d.dayNumber - epochDay) * 86400 + (hour * 3600 + min * 60 + sec) - offset) * nanosPerSecond
    + nanos : ℤ)

/-- A value in a range. -/
def inRange (lo hi : ℕ) : ℕ × GoString → Option (ℕ × GoString)
  | (n, s) => if lo ≤ n ∧ n ≤ hi then some (n, s) else none

/-- `time.Parse(time.RFC3339, value)`.  One digit will do for the hour, and a comma for the
point. -/
def parseTimestamp (value : GoString) : Option ℤ := do
  let (year, s) ← longYear value
  let s ← skip 0x2D s
  let (month, s) ← (getnum true s).bind (inRange 1 12)
  let s ← skip 0x2D s
  let (day, s) ← getnum true s
  let s ← skip 0x54 s
  let (hour, s) ← (getnum false s).bind (inRange 0 23)
  let s ← skip 0x3A s
  let (min, s) ← (getnum true s).bind (inRange 0 59)
  let s ← skip 0x3A s
  let (sec, s) ← (getnum true s).bind (inRange 0 59)
  let (nanos, s) := fraction s
  let offset ← zoneOffset s
  if (Date.mk year month day).Exists then
    some (instant ⟨year, month, day⟩ hour min sec nanos offset)
  else none

/-! ### A text is read back -/

theorem decimal_append_zeros (s : GoString) (k : ℕ) :
    decimal (s ++ List.replicate k 0x30) = decimal s * 10 ^ k := by
  induction k with
  | zero => simp
  | succ k ih =>
    rw [List.replicate_succ', ← List.append_assoc, decimal_snoc, ih]
    rw [show digitValue 0x30 = 0 from rfl, pow_succ]
    ring

theorem decimal_nineDigits {n : ℕ} (h : n < nanosPerSecond) : decimal (nineDigits n) = n := by
  unfold nanosPerSecond at h
  simp only [nineDigits, decimal, List.foldl_cons, List.foldl_nil, digitValue_digit]
  omega

/-- The digits that are kept, and the zeros that are cut. -/
theorem nineDigits_split (n : ℕ) :
    ∃ k, nineDigits n = (nineDigits n).rdropWhile (· == 0x30) ++ List.replicate k 0x30 := by
  refine ⟨((nineDigits n).rtakeWhile (· == 0x30)).length, ?_⟩
  have hzeros : (nineDigits n).rtakeWhile (· == 0x30) =
      List.replicate ((nineDigits n).rtakeWhile (· == 0x30)).length 0x30 := by
    rw [List.eq_replicate_iff]
    exact ⟨rfl, fun b hb => by simpa using List.mem_rtakeWhile_imp hb⟩
  conv_lhs => rw [← List.rdropWhile_append_rtakeWhile (p := (· == 0x30)) (l := nineDigits n)]
  rw [← hzeros]

theorem isDigit_of_mem_nineDigits {n : ℕ} {b : UInt8} (hb : b ∈ nineDigits n) :
    isDigit b = true := by
  simp only [nineDigits, List.mem_cons, List.not_mem_nil, or_false] at hb
  rcases hb with rfl | rfl | rfl | rfl | rfl | rfl | rfl | rfl | rfl <;> exact isDigit_digit _

/-- A fraction of a second is read back. -/
theorem fraction_format {n : ℕ} (h : n < nanosPerSecond) :
    fraction (formatFraction n ++ [0x5A]) = (n, [0x5A]) := by
  obtain ⟨k, hsplit⟩ := nineDigits_split n
  have hvalue := decimal_nineDigits h
  have hlength : (nineDigits n).length = 9 := rfl
  unfold formatFraction
  cases hd : (nineDigits n).rdropWhile (· == 0x30) with
  | nil =>
    rw [hd, List.nil_append] at hsplit
    rw [hsplit, ← List.nil_append (List.replicate k 0x30), decimal_append_zeros] at hvalue
    simp only [decimal, List.foldl_nil, Nat.zero_mul] at hvalue
    subst hvalue
    rfl
  | cons c ds =>
    rw [hd] at hsplit
    have hdigits : ∀ b ∈ c :: ds, isDigit b = true := by
      intro b hb
      apply isDigit_of_mem_nineDigits (n := n)
      rw [hsplit]
      exact List.mem_append_left _ hb
    have hlen : (c :: ds).length + k = 9 := by
      rw [← hlength, hsplit, List.length_append, List.length_replicate]
    have htake : ((c :: ds) ++ [0x5A]).takeWhile isDigit = c :: ds := by
      rw [List.takeWhile_append_of_pos hdigits]
      exact List.append_nil _
    have hdrop : ((c :: ds) ++ [0x5A]).dropWhile isDigit = [0x5A] := by
      rw [List.dropWhile_append_of_pos hdigits]
      rfl
    -- The zeros that were cut off are multiplied back.
    have hnanos : nanoseconds (c :: ds) = n := by
      rw [nanoseconds, List.take_of_length_le (by omega), show 9 - (c :: ds).length = k by omega,
        ← decimal_append_zeros, ← hsplit, hvalue]
    change fraction (0x2E :: c :: (ds ++ [0x5A])) = _
    rw [fraction, if_pos ⟨Or.inl rfl, hdigits c List.mem_cons_self⟩]
    rw [← List.cons_append, htake, hdrop, hnanos]

theorem longYear_digits {n : ℕ} (h : n ≤ 9999) (s : GoString) :
    longYear (digit (n / 1000) :: digit (n / 100) :: digit (n / 10) :: digit n :: s) =
      some (n, s) := by
  simp only [longYear, List.all_cons, List.all_nil, isDigit_digit, Bool.and_self, if_true,
    decimal_four h]

/-- Two digits, where one would do. -/
theorem getnum_twoDigits {n : ℕ} (h : n ≤ 99) (fixed : Bool) (s : GoString) :
    getnum fixed (digit (n / 10) :: digit n :: s) = some (n, s) := by
  have hvalue : digitValue (digit (n / 10)) * 10 + digitValue (digit n) = n := by
    rw [digitValue_digit, digitValue_digit]
    omega
  simp only [getnum, isDigit_digit, if_true, hvalue]

theorem inRange_of {lo hi n : ℕ} (hlo : lo ≤ n) (hhi : n ≤ hi) (s : GoString) :
    inRange lo hi (n, s) = some (n, s) := if_pos ⟨hlo, hhi⟩

theorem skip_self (b : UInt8) (s : GoString) : skip b (b :: s) = some s := if_pos rfl

/-- **An instant is read back from its text, to the nanosecond.** -/
theorem parseTimestamp_format {t : ℤ} {s : GoString} (h : formatTimestamp t = some s) :
    parseTimestamp s = some t := by
  unfold formatTimestamp at h
  dsimp only at h
  split_ifs at h with hneg hyear
  obtain rfl := Option.some.inj h
  set total := t + epochNanos with htotal
  set secs := total.toNat / nanosPerSecond with hsecs
  obtain ⟨hexists, hnumber⟩ := civil_spec (secs / 86400)
  set date := civil (secs / 86400) with hdate
  obtain ⟨hm1, hm12, hd1, hdays⟩ := id hexists
  have hday : date.day ≤ 99 := Nat.le_trans hdays (Nat.le_trans (daysIn_le _ _) (by decide))
  have hnanos : total.toNat % nanosPerSecond < nanosPerSecond := Nat.mod_lt _ (by decide)
  simp only [Date.format, twoDigits, List.cons_append, List.nil_append]
  have hfields : parseTimestamp
      (digit (date.year / 1000) :: digit (date.year / 100) :: digit (date.year / 10) ::
        digit date.year :: 0x2D :: digit (date.month / 10) :: digit date.month :: 0x2D ::
        digit (date.day / 10) :: digit date.day :: 0x54 :: digit (secs / 3600 % 24 / 10) ::
        digit (secs / 3600 % 24) :: 0x3A :: digit (secs / 60 % 60 / 10) ::
        digit (secs / 60 % 60) :: 0x3A :: digit (secs % 60 / 10) :: digit (secs % 60) ::
        (formatFraction (total.toNat % nanosPerSecond) ++ [0x5A])) =
      some (instant date (secs / 3600 % 24) (secs / 60 % 60) (secs % 60)
        (total.toNat % nanosPerSecond) 0) := by
    simp only [parseTimestamp, longYear_digits (Nat.le_of_not_gt hyear), skip_self,
      getnum_twoDigits (show date.month ≤ 99 by omega), getnum_twoDigits hday,
      getnum_twoDigits (show secs / 3600 % 24 ≤ 99 by omega),
      getnum_twoDigits (show secs / 60 % 60 ≤ 99 by omega),
      getnum_twoDigits (show secs % 60 ≤ 99 by omega), inRange_of hm1 hm12,
      inRange_of (Nat.zero_le (secs / 3600 % 24)) (show secs / 3600 % 24 ≤ 23 by omega),
      inRange_of (Nat.zero_le (secs / 60 % 60)) (show secs / 60 % 60 ≤ 59 by omega),
      inRange_of (Nat.zero_le (secs % 60)) (show secs % 60 ≤ 59 by omega),
      fraction_format hnanos, show zoneOffset [0x5A] = some 0 from rfl,
      Option.bind_eq_bind, Option.bind_some]
    exact if_pos hexists
  -- The instant is put together from the parts that it was taken apart into.
  rw [hfields]
  congr 1
  unfold instant
  rw [hnumber]
  unfold epochDay nanosPerSecond at *
  unfold epochNanos epochDay nanosPerSecond at htotal
  omega

/-- The text is digits and separators. -/
theorem mem_formatTimestamp {t : ℤ} {s : GoString} (h : formatTimestamp t = some s) {b : UInt8}
    (hb : b ∈ s) : b ∈ lit "-T:.Z" ∨ isDigit b = true := by
  unfold formatTimestamp at h
  dsimp only at h
  split_ifs at h
  obtain rfl := Option.some.inj h
  have hfraction : ∀ n, b ∈ formatFraction n → b = 0x2E ∨ isDigit b = true := by
    intro n hn
    unfold formatFraction at hn
    split at hn
    · cases hn
    · rcases List.mem_cons.mp hn with rfl | hn
      · exact Or.inl rfl
      · exact Or.inr (isDigit_of_mem_nineDigits ((List.rdropWhile_prefix _ _).subset hn))
  simp only [twoDigits, List.append_assoc, List.cons_append, List.nil_append, List.mem_append,
    List.mem_cons, List.not_mem_nil, or_false] at hb
  have hlit : lit "-T:.Z" = [0x2D, 0x54, 0x3A, 0x2E, 0x5A] := by decide
  rw [hlit]
  -- The date, nine separators and digits, the fraction, and the zone.
  rcases hb with hb | rfl | rfl | rfl | rfl | rfl | rfl | rfl | rfl | rfl | hb | rfl
  · rcases mem_format hb with rfl | hdigit
    · exact Or.inl (by decide)
    · exact Or.inr hdigit
  case inr.inr.inr.inr.inr.inr.inr.inr.inr.inr.inl =>
    rcases hfraction _ hb with rfl | hdigit
    · exact Or.inl (by decide)
    · exact Or.inr hdigit
  all_goals first | exact Or.inr (isDigit_digit _) | exact Or.inl (by decide)

/-- The instants that have a text are those of the years 0 to 9999. -/
theorem formatTimestamp_isSome_iff (t : ℤ) :
    (formatTimestamp t).isSome = true ↔
      -epochNanos ≤ t ∧ t < daysBefore 10000 * 86400 * nanosPerSecond - epochNanos := by
  have hmono : Monotone daysBefore := monotone_nat_of_le_succ fun year => by
    rw [daysBefore_succ]
    exact Nat.le_add_right _ _
  -- The year has at most four digits before the days up to the year 10000.
  have hyear : ∀ n, yearOf n ≤ 9999 ↔ n < daysBefore 10000 := by
    intro n
    obtain ⟨hle, hlt⟩ := yearOf_spec n
    constructor
    · intro h
      exact Nat.lt_of_lt_of_le hlt (hmono (Nat.succ_le_succ h))
    · intro h
      by_contra hgt
      have hbefore := hmono (Nat.lt_of_not_ge hgt)
      exact absurd (Nat.lt_of_le_of_lt hbefore (Nat.lt_of_le_of_lt hle h)) (Nat.lt_irrefl _)
  unfold formatTimestamp
  dsimp only
  split_ifs with hneg hyears
  · simp only [Option.isSome_none, Bool.false_eq_true, false_iff]
    omega
  · rw [show (civil ((t + epochNanos).toNat / nanosPerSecond / 86400)).year = yearOf _ from rfl,
      gt_iff_lt, ← not_le, hyear] at hyears
    simp only [Option.isSome_none, Bool.false_eq_true, false_iff]
    unfold nanosPerSecond at hyears ⊢
    omega
  · rw [show (civil ((t + epochNanos).toNat / nanosPerSecond / 86400)).year = yearOf _ from rfl,
      gt_iff_lt, not_lt, hyear] at hyears
    simp only [Option.isSome_some, true_iff]
    unfold nanosPerSecond at hyears ⊢
    omega

end CsvProductUploader

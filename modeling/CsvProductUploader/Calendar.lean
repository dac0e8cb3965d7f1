import CsvProductUploader.GoString
import Mathlib.Tactic.Common

/-!
# Calendar dates and their texts

The dates of the Gregorian calendar extended in both directions, which Go's `time`
and PostgreSQL's `date` share, and the layouts in which the program reads and writes
them.

## Main definitions

* `Date`, `Date.Exists` — a day of a year, from year 0 on.
* `decimal`, `formatDecimal` — the number that digits write, and the digits of a number.
* `Date.format` — the text `YYYY-MM-DD`.
* `isoDate` — the numbers in a text of that shape.
* `Chunk`, `parseTime` — `time.Parse` over the layouts of date elements.

## Main results

* `decimal_formatDecimal` — a number is read back from its digits.
* `isoDate_format` — the shape is read back from the text.
* `parseTime_format` — `time.Parse` reads the canonical text back.
* `exists_of_parseTime` — `time.Parse` returns dates that exist, year 0 included.
-/

namespace CsvProductUploader

/-- A day of the calendar, by its numbers. -/
structure Date where
  year : ℕ
  month : ℕ
  day : ℕ
  deriving DecidableEq, Repr, Inhabited

/-- Whether the year has a 29 February. -/
def isLeap (year : ℕ) : Bool := year % 4 == 0 && (year % 100 != 0 || year % 400 == 0)

/-- The number of days of a month. -/
def daysIn (month year : ℕ) : ℕ :=
  if month = 2 then if isLeap year then 29 else 28
  else if month = 4 ∨ month = 6 ∨ month = 9 ∨ month = 11 then 30
  else 31

theorem daysIn_le (month year : ℕ) : daysIn month year ≤ 31 := by
  unfold daysIn
  split_ifs <;> decide

/-- The numbers name a day of the calendar. -/
def Date.Exists (d : Date) : Prop :=
  1 ≤ d.month ∧ d.month ≤ 12 ∧ 1 ≤ d.day ∧ d.day ≤ daysIn d.month d.year

instance (d : Date) : Decidable d.Exists := inferInstanceAs (Decidable (_ ∧ _ ∧ _ ∧ _))

/-! ### Digits -/

/-- The last decimal digit of a number. -/
def digit (n : ℕ) : UInt8 := UInt8.ofNat (0x30 + n % 10)

/-- The value of a digit. -/
def digitValue (b : UInt8) : ℕ := b.toNat - 0x30

/-- The number that a string of digits writes. -/
def decimal (s : GoString) : ℕ := s.foldl (fun n b => 10 * n + digitValue b) 0

theorem toNat_digit (n : ℕ) : (digit n).toNat = 0x30 + n % 10 := by
  have hlt : 0x30 + n % 10 < 2 ^ 8 := by omega
  rw [digit, UInt8.toNat_ofNat', Nat.mod_eq_of_lt hlt]

@[simp] theorem isDigit_digit (n : ℕ) : isDigit (digit n) = true := by
  simp only [isDigit, Bool.and_eq_true, decide_eq_true_eq, UInt8.le_iff_toNat_le, toNat_digit]
  have hlt : n % 10 < 10 := Nat.mod_lt n (by omega)
  constructor
  · change 48 ≤ _
    omega
  · change _ ≤ 57
    omega

@[simp] theorem digitValue_digit (n : ℕ) : digitValue (digit n) = n % 10 := by
  rw [digitValue, toNat_digit]
  omega

theorem digitValue_lt {b : UInt8} (h : isDigit b = true) : digitValue b < 10 := by
  simp only [isDigit, Bool.and_eq_true, decide_eq_true_eq, UInt8.le_iff_toNat_le] at h
  have hle : b.toNat ≤ 57 := h.2
  unfold digitValue
  omega

/-- A digit is an ASCII character, and not NUL. -/
theorem ascii_of_isDigit {b : UInt8} (h : isDigit b = true) : 0 < b ∧ b < 0x80 := by
  simp only [isDigit, Bool.and_eq_true, decide_eq_true_eq, UInt8.le_iff_toNat_le] at h
  have hge : 48 ≤ b.toNat := h.1
  have hle : b.toNat ≤ 57 := h.2
  rw [UInt8.lt_iff_toNat_lt, UInt8.lt_iff_toNat_lt]
  change 0 < b.toNat ∧ b.toNat < 128
  omega

theorem decimal_snoc (s : GoString) (b : UInt8) :
    decimal (s ++ [b]) = 10 * decimal s + digitValue b := by
  unfold decimal
  rw [List.foldl_append]
  rfl

/-- The last digits of a number, of which there are at most `k + 1`. -/
def formatFrom : ℕ → ℕ → GoString
  | 0, n => [digit n]
  | k + 1, n => if n < 10 then [digit n] else formatFrom k (n / 10) ++ [digit n]

/-- `strconv.Itoa(n)`, for `n` not negative. -/
def formatDecimal (n : ℕ) : GoString := formatFrom n n

theorem formatFrom_spec {k n : ℕ} (h : n ≤ k) :
    decimal (formatFrom k n) = n ∧ formatFrom k n ≠ [] ∧
      ∀ b ∈ formatFrom k n, isDigit b = true := by
  induction k generalizing n with
  | zero =>
    obtain rfl : n = 0 := by omega
    decide +kernel
  | succ k ih =>
    unfold formatFrom
    split
    · next hlt =>
      refine ⟨?_, List.cons_ne_nil _ _, ?_⟩
      · simp only [decimal, List.foldl_cons, List.foldl_nil, digitValue_digit]
        omega
      · intro b hb
        rw [List.mem_singleton.mp hb]
        exact isDigit_digit n
    · -- One digit behind those of the tenth part.
      obtain ⟨hvalue, -, hdigits⟩ := ih (n := n / 10) (by omega)
      refine ⟨?_, List.append_ne_nil_of_right_ne_nil _ (List.cons_ne_nil _ _), ?_⟩
      · rw [decimal_snoc, hvalue, digitValue_digit]
        omega
      · intro b hb
        rcases List.mem_append.mp hb with hb | hb
        · exact hdigits b hb
        · rw [List.mem_singleton.mp hb]
          exact isDigit_digit n

/-- A number is read back from its digits. -/
@[simp] theorem decimal_formatDecimal (n : ℕ) : decimal (formatDecimal n) = n :=
  (formatFrom_spec (Nat.le_refl n)).1

theorem formatDecimal_ne_nil (n : ℕ) : formatDecimal n ≠ [] := (formatFrom_spec (Nat.le_refl n)).2.1

theorem isDigit_of_mem_formatDecimal {n : ℕ} {b : UInt8} (h : b ∈ formatDecimal n) :
    isDigit b = true :=
  (formatFrom_spec (Nat.le_refl n)).2.2 b h

theorem decimal_two {n : ℕ} (h : n ≤ 99) : decimal [digit (n / 10), digit n] = n := by
  simp only [decimal, List.foldl_cons, List.foldl_nil, digitValue_digit]
  omega

theorem decimal_four {n : ℕ} (h : n ≤ 9999) :
    decimal [digit (n / 1000), digit (n / 100), digit (n / 10), digit n] = n := by
  simp only [decimal, List.foldl_cons, List.foldl_nil, digitValue_digit]
  omega

/-! ### The text of a date -/

/-- `t.Format("2006-01-02")`, for years of at most four digits. -/
def Date.format (d : Date) : GoString :=
  [digit (d.year / 1000), digit (d.year / 100), digit (d.year / 10), digit d.year, 0x2D,
    digit (d.month / 10), digit d.month, 0x2D, digit (d.day / 10), digit d.day]

/-- The numbers in a text `YYYY-MM-DD`; `none` for a text of another shape. -/
def isoDate : GoString → Option Date
  | [a, b, c, d, s, e, f, t, g, h] =>
    if [a, b, c, d, e, f, g, h].all isDigit ∧ s = 0x2D ∧ t = 0x2D then
      some ⟨decimal [a, b, c, d], decimal [e, f], decimal [g, h]⟩
    else none
  | _ => none

/-- The shape is read back from the text. -/
theorem isoDate_format {d : Date} (hyear : d.year ≤ 9999) (hmonth : d.month ≤ 99)
    (hday : d.day ≤ 99) : isoDate d.format = some d := by
  have hy := decimal_four hyear
  have hm := decimal_two hmonth
  have hd := decimal_two hday
  simp only [isoDate, Date.format, hy, hm, hd]
  rw [if_pos (by simp)]

/-- The text of a date is digits and dashes. -/
theorem mem_format {d : Date} {b : UInt8} (hb : b ∈ d.format) : b = 0x2D ∨ isDigit b = true := by
  have hcases : b = 0x2D ∨ ∃ n, b = digit n := by
    simp only [Date.format, List.mem_cons, List.not_mem_nil, or_false] at hb
    grind
  rcases hcases with rfl | ⟨n, rfl⟩
  · exact Or.inl rfl
  · exact Or.inr (isDigit_digit n)

theorem ascii_format (d : Date) : ∀ b ∈ d.format, 0 < b ∧ b < 0x80 := by
  intro b hb
  rcases mem_format hb with rfl | hdigit
  · decide
  · exact ascii_of_isDigit hdigit

theorem format_ne_nil (d : Date) : d.format ≠ [] := List.cons_ne_nil _ _

/-! ### `time.Parse` -/

/-- An element of a layout; `fixed` asks for two digits where one would do. -/
inductive Chunk
  /-- `2006` -/
  | longYear
  /-- `01` if fixed, else `1` -/
  | month (fixed : Bool)
  /-- `02` if fixed, else `2` -/
  | day (fixed : Bool)
  /-- A character of its own. -/
  | sep (b : UInt8)
  deriving DecidableEq, Repr

/-- A year of exactly four digits, and what follows it. -/
def longYear : GoString → Option (ℕ × GoString)
  | a :: b :: c :: d :: s =>
    if [a, b, c, d].all isDigit then some (decimal [a, b, c, d], s) else none
  | _ => none

/-- `getnum`: a number of one or two digits, and what follows it. -/
def getnum (fixed : Bool) : GoString → Option (ℕ × GoString)
  | [] => none
  | a :: s =>
    if isDigit a then
      match s with
      | [] => if fixed then none else some (digitValue a, [])
      | b :: s' =>
        if isDigit b then some (digitValue a * 10 + digitValue b, s')
        else if fixed then none
        else some (digitValue a, s)
    else none

/-- The loop of `time.Parse` over the elements of a layout, and the check of the day of
the month at its end. -/
def parseChunks : List Chunk → Date → GoString → Option Date
  | [], d, s => if s = [] ∧ 1 ≤ d.day ∧ d.day ≤ daysIn d.month d.year then some d else none
  | .longYear :: cs, d, s =>
    (longYear s).bind fun (y, s') => parseChunks cs { d with year := y } s'
  | .month fixed :: cs, d, s =>
    (getnum fixed s).bind fun (m, s') =>
      if 1 ≤ m ∧ m ≤ 12 then parseChunks cs { d with month := m } s' else none
  | .day fixed :: cs, d, s =>
    (getnum fixed s).bind fun (n, s') => parseChunks cs { d with day := n } s'
  | .sep b :: cs, d, s =>
    match s with
    | [] => none
    | c :: s' => if c = b then parseChunks cs d s' else none

/-- `time.Parse(layout, value)`, of a layout with a year, a month and a day. -/
def parseTime (layout : List Chunk) (value : GoString) : Option Date :=
  parseChunks layout ⟨0, 1, 1⟩ value

theorem longYear_eq_some {s s' : GoString} {y : ℕ} (h : longYear s = some (y, s')) :
    ∃ a b c d, s = a :: b :: c :: d :: s' ∧ [a, b, c, d].all isDigit = true ∧
      y = decimal [a, b, c, d] := by
  unfold longYear at h
  split at h
  · next a b c d s =>
    split at h
    · next hdig =>
      obtain ⟨rfl, rfl⟩ := Prod.mk.inj (Option.some.inj h)
      exact ⟨a, b, c, d, rfl, hdig, rfl⟩
    · cases h
  · cases h

theorem longYear_le {s s' : GoString} {y : ℕ} (h : longYear s = some (y, s')) : y ≤ 9999 := by
  obtain ⟨a, b, c, d, -, hdig, rfl⟩ := longYear_eq_some h
  simp only [List.all_cons, List.all_nil, Bool.and_eq_true] at hdig
  have ha := digitValue_lt hdig.1
  have hb := digitValue_lt hdig.2.1
  have hc := digitValue_lt hdig.2.2.1
  have hd := digitValue_lt hdig.2.2.2.1
  simp only [decimal, List.foldl_cons, List.foldl_nil]
  omega

theorem parseChunks_sep {b : UInt8} {cs : List Chunk} {d e : Date} {s : GoString} :
    parseChunks (.sep b :: cs) d s = some e ↔
      ∃ s', s = b :: s' ∧ parseChunks cs d s' = some e := by
  cases s with
  | nil => simp [parseChunks]
  | cons c s =>
    simp only [parseChunks]
    split
    · next hc => simp [hc]
    · next hc => simp [hc]

theorem parseChunks_nil {d e : Date} {s : GoString} (h : parseChunks [] d s = some e) :
    s = [] ∧ e = d := by
  unfold parseChunks at h
  split at h
  · next hc => exact ⟨hc.1, (Option.some.inj h).symm⟩
  · cases h

theorem parseChunks_month {fixed : Bool} {cs : List Chunk} {d e : Date} {s : GoString}
    (h : parseChunks (.month fixed :: cs) d s = some e) :
    ∃ m s', getnum fixed s = some (m, s') ∧ (1 ≤ m ∧ m ≤ 12) ∧
      parseChunks cs { d with month := m } s' = some e := by
  obtain ⟨⟨m, s'⟩, hm, h⟩ := Option.bind_eq_some_iff.mp h
  dsimp only at h
  split_ifs at h with hrange
  exact ⟨m, s', hm, hrange, h⟩

theorem parseChunks_day {fixed : Bool} {cs : List Chunk} {d e : Date} {s : GoString}
    (h : parseChunks (.day fixed :: cs) d s = some e) :
    ∃ n s', getnum fixed s = some (n, s') ∧ parseChunks cs { d with day := n } s' = some e := by
  obtain ⟨⟨n, s'⟩, hn, h⟩ := Option.bind_eq_some_iff.mp h
  exact ⟨n, s', hn, h⟩

theorem parseChunks_longYear {cs : List Chunk} {d e : Date} {s : GoString}
    (h : parseChunks (.longYear :: cs) d s = some e) :
    ∃ y s', longYear s = some (y, s') ∧ parseChunks cs { d with year := y } s' = some e := by
  obtain ⟨⟨y, s'⟩, hy, h⟩ := Option.bind_eq_some_iff.mp h
  exact ⟨y, s', hy, h⟩

/-- What the loop keeps of the year and the month it has read so far. -/
theorem parseChunks_bounds {layout : List Chunk} {d e : Date} {s : GoString}
    (h : parseChunks layout d s = some e) (hyear : d.year ≤ 9999)
    (hmonth : 1 ≤ d.month ∧ d.month ≤ 12) : e.Exists ∧ e.year ≤ 9999 := by
  -- The bounds hold of what has been read so far; the last check of the layout is that of the day.
  induction layout generalizing d s with
  | nil =>
    unfold parseChunks at h
    split at h
    · next hc =>
      obtain rfl := Option.some.inj h
      exact ⟨⟨hmonth.1, hmonth.2, hc.2.1, hc.2.2⟩, hyear⟩
    · cases h
  | cons c cs ih =>
    cases c with
    | longYear =>
      obtain ⟨y, s', hy, h⟩ := parseChunks_longYear h
      exact ih h (longYear_le hy) hmonth
    | month fixed =>
      obtain ⟨m, s', -, hm, h⟩ := parseChunks_month h
      exact ih h hyear hm
    | day fixed =>
      obtain ⟨n, s', -, h⟩ := parseChunks_day h
      exact ih h hyear hmonth
    | sep b =>
      obtain ⟨s', -, h⟩ := parseChunks_sep.mp h
      exact ih h hyear hmonth

/-- `time.Parse` returns dates that exist, year 0 included. -/
theorem exists_of_parseTime {layout : List Chunk} {s : GoString} {d : Date}
    (h : parseTime layout s = some d) : d.Exists ∧ d.year ≤ 9999 :=
  parseChunks_bounds h (by decide) (by decide)

theorem getnum_eq_some {fixed : Bool} {s s' : GoString} {n : ℕ}
    (h : getnum fixed s = some (n, s')) :
    (∃ a b, s = a :: b :: s' ∧ isDigit a = true ∧ isDigit b = true) ∨
      fixed = false ∧ ∃ a, s = a :: s' ∧ isDigit a = true := by
  unfold getnum at h
  split at h
  · cases h
  · next a s =>
    split at h
    · next ha =>
      -- A second digit is taken wherever there is one; its absence matters for the fixed width
      -- alone.
      cases s with
      | nil =>
        dsimp only at h
        split_ifs at h with hfixed
        obtain ⟨-, rfl⟩ := Prod.mk.inj (Option.some.inj h)
        exact Or.inr ⟨by simpa using hfixed, a, rfl, ha⟩
      | cons b s =>
        dsimp only at h
        split_ifs at h with hb hfixed
        · obtain ⟨-, rfl⟩ := Prod.mk.inj (Option.some.inj h)
          exact Or.inl ⟨a, b, rfl, ha, hb⟩
        · obtain ⟨-, rfl⟩ := Prod.mk.inj (Option.some.inj h)
          exact Or.inr ⟨by simpa using hfixed, a, rfl, ha⟩
    · cases h

/-- Two digits, where two are asked for. -/
theorem getnum_digits {n : ℕ} (h : n ≤ 99) (s : GoString) :
    getnum true (digit (n / 10) :: digit n :: s) = some (n, s) := by
  have hvalue : digitValue (digit (n / 10)) * 10 + digitValue (digit n) = n := by
    rw [digitValue_digit, digitValue_digit]
    omega
  simp only [getnum, isDigit_digit, if_true, hvalue]

/-- **The canonical text of a date is read back.** -/
theorem parseTime_format {d : Date} (hexists : d.Exists) (hyear : d.year ≤ 9999) :
    parseTime [.longYear, .sep 0x2D, .month true, .sep 0x2D, .day true] d.format = some d := by
  obtain ⟨hm1, hm12, hd1, hdays⟩ := hexists
  have hday : d.day ≤ 99 := Nat.le_trans hdays (Nat.le_trans (daysIn_le _ _) (by decide))
  have hlong : ∀ s, longYear (digit (d.year / 1000) :: digit (d.year / 100) ::
      digit (d.year / 10) :: digit d.year :: s) = some (d.year, s) := by
    intro s
    simp only [longYear, List.all_cons, List.all_nil, isDigit_digit, Bool.and_self, if_true,
      decimal_four hyear]
  have hmonth : d.month ≤ 99 := Nat.le_trans hm12 (by decide)
  simp only [parseTime, Date.format, parseChunks, hlong, getnum_digits hmonth, getnum_digits hday,
    Option.bind_some, if_true]
  rw [if_pos ⟨hm1, hm12⟩, if_pos ⟨trivial, hd1, hdays⟩]

/-- A year is 0 exactly if all of its digits are. -/
theorem decimal_eq_zero_iff {a b c d : UInt8} (h : [a, b, c, d].all isDigit = true) :
    decimal [a, b, c, d] = 0 ↔ [a, b, c, d] = lit "0000" := by
  have hzero : ∀ {x : UInt8}, isDigit x = true → (digitValue x = 0 ↔ x = 0x30) := by
    intro x hx
    simp only [isDigit, Bool.and_eq_true, decide_eq_true_eq, UInt8.le_iff_toNat_le] at hx
    have hge : 48 ≤ x.toNat := hx.1
    rw [digitValue, ← UInt8.toNat_inj]
    change x.toNat - 48 = 0 ↔ x.toNat = 48
    omega
  simp only [List.all_cons, List.all_nil, Bool.and_eq_true] at h
  have hlit : lit "0000" = [0x30, 0x30, 0x30, 0x30] := by decide
  rw [hlit]
  simp only [decimal, List.foldl_cons, List.foldl_nil, List.cons.injEq, and_true]
  rw [← hzero h.1, ← hzero h.2.1, ← hzero h.2.2.1, ← hzero h.2.2.2.1]
  omega

/-- What `2006-01-02` matches. -/
theorem parseTime_iso {s : GoString} {d : Date}
    (h : parseTime [.longYear, .sep 0x2D, .month true, .sep 0x2D, .day true] s = some d) :
    ∃ a b c e m n i j, s = [a, b, c, e, 0x2D, m, n, 0x2D, i, j] ∧
      [a, b, c, e].all isDigit = true ∧ d.year = decimal [a, b, c, e] := by
  obtain ⟨y, s₁, hy, h⟩ := parseChunks_longYear h
  obtain ⟨a, b, c, e, rfl, hdig, rfl⟩ := longYear_eq_some hy
  obtain ⟨s₂, rfl, h⟩ := parseChunks_sep.mp h
  obtain ⟨month, s₃, hm, -, h⟩ := parseChunks_month h
  obtain ⟨s₄, rfl, h⟩ := parseChunks_sep.mp h
  obtain ⟨day, s₅, hd, h⟩ := parseChunks_day h
  obtain ⟨rfl, rfl⟩ := parseChunks_nil h
  rcases getnum_eq_some hm with ⟨m, n, rfl, -⟩ | ⟨hfixed, -⟩
  · rcases getnum_eq_some hd with ⟨i, j, rfl, -⟩ | ⟨hfixed, -⟩
    · exact ⟨a, b, c, e, m, n, i, j, rfl, hdig, rfl⟩
    · cases hfixed
  · cases hfixed

/-- What `1/2/2006` matches. -/
theorem parseTime_us {s : GoString} {d : Date}
    (h : parseTime [.month false, .sep 0x2F, .day false, .sep 0x2F, .longYear] s = some d) :
    ∃ month day a b c e, s = month ++ 0x2F :: day ++ 0x2F :: [a, b, c, e] ∧
      (month.length = 1 ∨ month.length = 2) ∧ [a, b, c, e].all isDigit = true ∧
        d.year = decimal [a, b, c, e] := by
  obtain ⟨m, s₁, hm, -, h⟩ := parseChunks_month h
  obtain ⟨s₂, rfl, h⟩ := parseChunks_sep.mp h
  obtain ⟨n, s₃, hn, h⟩ := parseChunks_day h
  obtain ⟨s₄, rfl, h⟩ := parseChunks_sep.mp h
  obtain ⟨y, s₅, hy, h⟩ := parseChunks_longYear h
  obtain ⟨rfl, rfl⟩ := parseChunks_nil h
  obtain ⟨a, b, c, e, rfl, hdig, rfl⟩ := longYear_eq_some hy
  -- Read chunk by chunk, the text comes apart into month, day and year.
  have hmonth : ∃ month, s = month ++ 0x2F :: s₂ ∧ (month.length = 1 ∨ month.length = 2) := by
    rcases getnum_eq_some hm with ⟨x, y, hs, -⟩ | ⟨-, x, hs, -⟩
    · exact ⟨[x, y], hs, Or.inr rfl⟩
    · exact ⟨[x], hs, Or.inl rfl⟩
  have hday : ∃ day, s₂ = day ++ 0x2F :: [a, b, c, e] := by
    rcases getnum_eq_some hn with ⟨x, y, hs, -⟩ | ⟨-, x, hs, -⟩
    · exact ⟨[x, y], hs⟩
    · exact ⟨[x], hs⟩
  obtain ⟨month, hs, hlen⟩ := hmonth
  obtain ⟨day, rfl⟩ := hday
  refine ⟨month, day, a, b, c, e, ?_, hlen, hdig, rfl⟩
  rw [hs, List.append_assoc, List.cons_append]

end CsvProductUploader

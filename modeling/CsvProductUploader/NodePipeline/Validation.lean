import Mathlib.Algebra.Field.Rat
import Mathlib.Data.List.DropRight
import Mathlib.Tactic.Common

/-!
# The rows of the NestJS pipeline

`validateRows` of the CSV processor: the string and number operations of the language it
uses, and the rows it keeps.

## Main definitions

* `JsString`, `trim`, `replace`, `split` — strings as UTF-16 code units.
* `Number`, `parseFloat`, `parseInt` — the numbers read off the front of a string.
* `Engine` — what the language leaves to the machine it runs on.
* `makeDay`, `newDate` — the dates that `new Date(year, month, day)` makes.
* `validateRows` — the rows that are kept.

## Main results

* `validateRows_append` — a row is kept or skipped by itself.
* `fit_of_mem_validateRows` — what every kept row satisfies.
-/

namespace CsvProductUploader.NodePipeline

/-! ### Strings -/

/-- A string of the language: its UTF-16 code units. -/
abbrev JsString := List UInt16

/-- The units of a string literal of the source, which is ASCII. -/
def js (s : String) : JsString := s.toList.map fun c => UInt16.ofNat c.toNat

/-- White space and line ends, of which every one is a single unit. -/
def isSpace (u : UInt16) : Bool :=
  (0x09 ≤ u && u ≤ 0x0D) || u == 0x20 || u == 0xA0 || u == 0x1680 ||
    (0x2000 ≤ u && u ≤ 0x200A) || u == 0x2028 || u == 0x2029 || u == 0x202F || u == 0x205F ||
      u == 0x3000 || u == 0xFEFF

def trimStart (s : JsString) : JsString := s.dropWhile isSpace

def trim (s : JsString) : JsString := (trimStart s).rdropWhile isSpace

/-- `s.replace(u, by)` for a text of one unit: its first occurrence is replaced. -/
def replace (u : UInt16) (by_ : JsString) : JsString → JsString
  | [] => []
  | v :: s => if v = u then by_ ++ s else v :: replace u by_ s

/-- `s.split(u)` for a text of one unit. -/
def split (u : UInt16) (s : JsString) : List JsString := s.splitOn u

/-- `s.substring(0, n)`. -/
def substring (n : ℕ) (s : JsString) : JsString := s.take n

/-! ### Numbers -/

/-- A number of the language, zeros of either sign as one. -/
inductive Number
  | nan
  | infinity (negative : Bool)
  | finite (q : ℚ)
  deriving DecidableEq

/-- `isNaN(x)`. -/
def Number.isNaN : Number → Bool
  | .nan => true
  | _ => false

/-- `x < 0`. -/
def Number.negative : Number → Bool
  | .nan => false
  | .infinity negative => negative
  | .finite q => decide (q < 0)

/-- What the language leaves to the machine it runs on. -/
structure Engine where
  /-- The double nearest to a number. -/
  round : ℚ → Number
  /-- The time, in milliseconds since 1970 in UTC, at which a day starts in the local time
  zone; days are counted from 1970-01-01. -/
  utc : ℤ → ℤ

def isDigit (u : UInt16) : Bool := 0x30 ≤ u && u ≤ 0x39

/-- The number that a string of digits writes. -/
def decimal (s : JsString) : ℕ := s.foldl (fun n u => 10 * n + (u.toNat - 0x30)) 0

/-- A sign in front is read and taken off: whether it is a minus, and the rest. -/
def sign : JsString → Bool × JsString
  | 0x2B :: s => (false, s)
  | 0x2D :: s => (true, s)
  | s => (false, s)

def signed {α : Type*} [Neg α] (negative : Bool) (x : α) : α := if negative then -x else x

/-- The exponent at the front of a string: a letter `e`, a sign or none, and digits. -/
def exponent : JsString → ℤ
  | u :: s =>
    if u = 0x65 ∨ u = 0x45 then
      signed (sign s).1 (decimal ((sign s).2.takeWhile isDigit) : ℤ)
    else 0
  | [] => 0

/-- The digits after a point at the front of a string, and the rest after them. -/
def fraction : JsString → JsString × JsString
  | 0x2E :: s => (s.takeWhile isDigit, s.dropWhile isDigit)
  | s => ([], s)

/-- `parseFloat(s)`: the longest decimal literal at the front. -/
def parseFloat (e : Engine) (s : JsString) : Number :=
  let (negative, s) := sign (trimStart s)
  if (js "Infinity").isPrefixOf s then .infinity negative
  else
    let whole := s.takeWhile isDigit
    let (part, rest) := fraction (s.dropWhile isDigit)
    if whole ++ part = [] then .nan
    else e.round (signed negative
      ((decimal (whole ++ part) : ℚ) * 10 ^ (exponent rest - part.length)))

/-- `parseInt(s, 10)`; `none` is NaN.  Integers too large for a double are kept as they are:
no date has one. -/
def parseInt (s : JsString) : Option ℤ :=
  let (negative, s) := sign (trimStart s)
  let digits := s.takeWhile isDigit
  if digits = [] then none else some (signed negative (decimal digits : ℤ))

/-! ### Dates -/

/-- The first day of a year. -/
def dayFromYear (y : ℤ) : ℤ :=
  365 * (y - 1970) + (y - 1969) / 4 - (y - 1901) / 100 + (y - 1601) / 400

def inLeapYear (y : ℤ) : Bool := y % 4 == 0 && (y % 100 != 0 || y % 400 == 0)

/-- The days of a year before a month, months counted from 0. -/
def dayFromMonth (y : ℤ) (m : ℕ) : ℤ :=
  [0, 31, 59, 90, 120, 151, 181, 212, 243, 273, 304, 334].getD m 0 +
    if 2 ≤ m ∧ inLeapYear y then 1 else 0

/-- `MakeDay`: the day that a year, a month counted from 0 and a day of it name, where
months past 11 run into the years after, and days into the months.  The engine takes years
and months up to a bound. -/
def makeDay (year month day : ℤ) : Option ℤ :=
  if |year| ≤ 1000000 ∧ |month| ≤ 10000000 then
    let y := year + month / 12
    some (dayFromYear y + dayFromMonth y (month % 12).toNat + (day - 1))
  else none

/-- The largest time a date can have. -/
def maxTime : ℤ := 8640000000000000

/-- `new Date(year, month, day)`, as the local day it falls on; `none` is the invalid date,
whose time is NaN.  A year from 0 to 99 means one of the last century. -/
def newDate (e : Engine) (year month day : ℤ) : Option ℤ :=
  (makeDay (if 0 ≤ year ∧ year ≤ 99 then 1900 + year else year) month day).filter
    fun d => |e.utc d| ≤ maxTime

/-! ### The rows -/

/-- A row as the parser hands it over; a column may be missing. -/
structure CsvRow where
  name : Option JsString
  price : Option JsString
  expiration : Option JsString
  deriving DecidableEq

structure ProcessedRow where
  name : JsString
  price : Number
  /-- The local day, counted from 1970-01-01. -/
  expirationDate : ℤ
  uploadBatchId : JsString
  userId : Option JsString
  deriving DecidableEq

/-- `parseDate`; `none` is `null` and the invalid date alike, as its caller treats them. -/
def parseDate (e : Engine) (dateStr : JsString) : Option ℤ :=
  match (split 0x2F dateStr).map parseInt with
  | [some month, some day, some year] =>
    let fullYear := if year < 100 then 2000 + year else year
    newDate e fullYear (month - 1) day
  | _ => none

/-- One pass of the loop of `validateRows`; `none` is `continue`. -/
def validateRow (e : Engine) (batchId : JsString) (userId : Option JsString) (row : CsvRow) :
    Option ProcessedRow :=
  match row.name.map trim,
    row.price.map fun s => trim (replace 0x2C [0x2E] (replace 0x24 [] s)),
    row.expiration.map trim with
  | some name, some priceStr, some expirationStr =>
    if name = [] ∨ priceStr = [] ∨ expirationStr = [] then none
    else
      let price := parseFloat e priceStr
      if price.isNaN ∨ price.negative then none
      else
        (parseDate e expirationStr).map fun expirationDate =>
          { name := substring 500 name, price, expirationDate, uploadBatchId := batchId, userId }
  | _, _, _ => none

def validateRows (e : Engine) (batchId : JsString) (userId : Option JsString)
    (rows : List CsvRow) : List ProcessedRow :=
  rows.filterMap (validateRow e batchId userId)

section
variable {e : Engine} {batchId : JsString} {userId : Option JsString}

/-- A row is kept or skipped by itself. -/
theorem validateRows_append (rows rows' : List CsvRow) :
    validateRows e batchId userId (rows ++ rows') =
      validateRows e batchId userId rows ++ validateRows e batchId userId rows' :=
  List.filterMap_append

/-- What the processor sees to in the rows it stores. -/
structure Fit (batchId : JsString) (userId : Option JsString) (row : ProcessedRow) : Prop where
  name : row.name ≠ [] ∧ row.name.length ≤ 500
  price : row.price.isNaN = false ∧ row.price.negative = false
  batch : row.uploadBatchId = batchId
  user : row.userId = userId

theorem fit_of_validateRow {row : CsvRow} {r : ProcessedRow}
    (h : validateRow e batchId userId row = some r) : Fit batchId userId r := by
  unfold validateRow at h
  split at h
  · next name priceStr expirationStr _ _ _ =>
    split_ifs at h with hblank
    dsimp only at h
    split_ifs at h with hprice
    obtain ⟨day, -, rfl⟩ := Option.map_eq_some_iff.mp h
    have hname : name ≠ [] := fun hname => hblank (.inl hname)
    refine ⟨⟨?_, List.length_take_le 500 name⟩, ?_, rfl, rfl⟩
    · cases name with
      | nil => exact absurd rfl hname
      | cons u name => simp [substring]
    · simpa using hprice
  · cases h

/-- **Every kept row is fit**: its name is there and fits its column, its price is a number
and not negative, and it belongs to the batch. -/
theorem fit_of_mem_validateRows {rows : List CsvRow} {r : ProcessedRow}
    (h : r ∈ validateRows e batchId userId rows) : Fit batchId userId r := by
  obtain ⟨row, -, hrow⟩ := List.mem_filterMap.mp h
  exact fit_of_validateRow hrow

end

end CsvProductUploader.NodePipeline

import CsvProductUploader.Events
import Mathlib.Data.Finset.Basic

/-!
# Import jobs and CSV rows

The importer's own record of one upload, its lifecycle graph, and the rows that
the CSV streamer hands to the import.

## Main definitions

* `Status`, `Status.terminal`, `allowedTransitions` — the lifecycle graph.
* `ImportJob`, `Progress`, `ImportJob.transition`.
* `Reason`, `Row`, `Row.valid` — a validated CSV record, or why it was rejected.

## Main results

* `allowedTransitions_eq_nil_iff` — exactly the terminal states have no way out.
* `transition_eq_ok_iff` — `Transition` moves along the graph and nowhere else.
* `Reason.text_ne_empty` — a rejected row always carries a cause, so the source's
  test `Reason == ""` is the test `reason = none` here.
-/

namespace CsvProductUploader

/-- The import job lifecycle state. -/
inductive Status
  | uploading
  | parsing
  | publishing
  | processing
  | completed
  | failed
  deriving DecidableEq, Repr, Inhabited

/-- Whether the status admits no further transitions. -/
def Status.terminal (s : Status) : Bool := s == .completed || s == .failed

/-- The lifecycle graph. -/
def allowedTransitions : Status → List Status
  | .uploading => [.parsing]
  | .parsing => [.publishing, .processing, .completed, .failed]
  | .publishing => [.processing, .failed]
  | .processing => [.completed, .failed]
  | .completed => []
  | .failed => []

theorem allowedTransitions_eq_nil_iff (s : Status) :
    allowedTransitions s = [] ↔ s.terminal = true := by
  cases s <;> decide

/-- The importer's record of one CSV upload, less its identity, file name and
timestamps. -/
structure ImportJob where
  status : Status
  totalRows : ℕ := 0
  validRows : ℕ := 0
  invalidRows : ℕ := 0
  publishedRows : ℕ := 0
  processedRows : ℕ := 0
  retriedRows : ℕ := 0
  deadRows : ℕ := 0
  lastError : Option String := none
  deriving DecidableEq, Repr

/-- A point-in-time counter snapshot of a running import. -/
structure Progress where
  totalRows : ℕ
  validRows : ℕ
  invalidRows : ℕ
  publishedRows : ℕ
  deriving DecidableEq, Repr

/-- The counters that `UpdateProgress` writes. -/
def ImportJob.progress (j : ImportJob) : Progress :=
  ⟨j.totalRows, j.validRows, j.invalidRows, j.publishedRows⟩

/-- The status names stored in the database. -/
def Status.text : Status → String
  | .uploading => "uploading"
  | .parsing => "parsing"
  | .publishing => "publishing"
  | .processing => "processing"
  | .completed => "completed"
  | .failed => "failed"

/-- `ImportJob.Transition`: validates and applies a lifecycle change. -/
def ImportJob.transition (j : ImportJob) (next : Status) (lastErr : Option String) :
    Except String ImportJob :=
  if next ∈ allowedTransitions j.status then .ok { j with status := next, lastError := lastErr }
  else .error s!"invalid status transition {j.status.text} -> {next.text}"

/-- `Transition` moves along the graph and nowhere else. -/
theorem transition_eq_ok_iff {j j' : ImportJob} {next : Status} {lastErr : Option String} :
    j.transition next lastErr = .ok j' ↔
      next ∈ allowedTransitions j.status ∧
          j' = { j with status := next, lastError := lastErr } := by
  unfold ImportJob.transition
  split
  · next h => simp [h, eq_comm]
  · next h => simp [h]

/-! ### Rows -/

/-- The errors of `parsePriceCents`. -/
inductive PriceError
  | required
  | noFraction
  | tooManyDigits
  | notDecimal
  | outOfRange
  deriving DecidableEq, Repr

def PriceError.text : PriceError → String
  | .required => "is required"
  | .noFraction => "must have digits after the decimal point"
  | .tooManyDigits => "supports at most two fractional digits"
  | .notDecimal => "must be a decimal number"
  | .outOfRange => "is out of range"

/-- Why a row was rejected. -/
inductive Reason
  /-- `encoding/csv` could not read the record. -/
  | malformed (err : String)
  | merchantRequired
  | merchantTooLong
  | nameRequired
  | nameTooLong
  | productTooLong
  | price (err : PriceError)
  /-- The currency is not one the platform settles in. -/
  | currency (code : GoString)
  | expiration
  deriving DecidableEq, Repr

/-- The text of a rejection cause; `quote` renders a string as `%q` does. -/
def Reason.text (quote : GoString → String) : Reason → String
  | .malformed err => "malformed record: " ++ err
  | .merchantRequired => "merchant_id is required"
  | .merchantTooLong => "merchant_id exceeds 64 characters"
  | .nameRequired => "name is required"
  | .nameTooLong => "name exceeds 256 characters"
  | .productTooLong => "product_id exceeds 64 characters"
  | .price err => "price " ++ err.text
  | .currency code => "currency " ++ quote code ++ " is not supported"
  | .expiration => "expiration_date must use YYYY-MM-DD or M/D/YYYY"

private theorem append_ne_empty {a : String} (h : a ≠ "") (b : String) : a ++ b ≠ "" := by
  intro hab
  have hlen := congrArg String.length hab
  rw [String.length_append] at hlen
  exact h (String.length_eq_zero_iff.mp (Nat.eq_zero_of_add_eq_zero_right hlen))

/-- A rejected row always carries a cause. -/
theorem Reason.text_ne_empty (quote : GoString → String) (r : Reason) : r.text quote ≠ "" := by
  cases r with
  | malformed | price => exact append_ne_empty (by decide) _
  | currency => exact append_ne_empty (append_ne_empty (by decide) _) _
  | merchantRequired | merchantTooLong | nameRequired | nameTooLong | productTooLong
  | expiration => exact of_decide_eq_true rfl

/-- The outcome of validating one CSV record: the product, or the rejection cause. -/
structure Row where
  num : ℕ
  product : ProductData
  reason : Option Reason
  deriving DecidableEq, Repr

/-- `Row.Valid`. -/
def Row.valid (r : Row) : Bool := r.reason.isNone

/-- A valid row with an empty product. -/
def plainRow : Row := { num := 1, product := default, reason := none }

end CsvProductUploader

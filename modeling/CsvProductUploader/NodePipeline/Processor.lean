import CsvProductUploader.Lib.Runs
import CsvProductUploader.NodePipeline.Validation

/-!
# The CSV processor of the NestJS pipeline

A batch is imported by a Bull job, which runs `handleProcessCsv` and runs it again when it
has failed.  What an attempt has stored outlives it: the columns of the batch, its exchange
rates and products, and the spooled file.

## Main definitions

* `World` — what outlives an attempt.
* `Call`, `World.run` — the calls that an attempt waits for, and what they do.
* `Pc`, `step` — an attempt between two of its calls, and what Bull does around it.
* `Recovered` — the batch is completed and its products are the valid rows.
* `Kept`, `Lost` — what holds of the tables, and what no attempt brings back.

## Main results

* `codes_ratesForBatch` — a batch has the rates of the same currencies in every attempt.
* `step_cases` — what one step can do.
* `kept_step` — products are stored after rates.
* `lost_step` — a removed file stays removed, and stored rates stay stored.
-/

namespace CsvProductUploader.NodePipeline

open Runs

/-! ### The tables -/

inductive BatchStatus
  | pending
  | processing
  | completed
  | failed
  deriving DecidableEq, Repr

/-- `UploadBatch`, by the columns that the processor writes. -/
structure UploadBatch where
  status : BatchStatus
  totalRows : ℕ
  processedRows : ℕ
  errorMessage : Option JsString
  deriving DecidableEq

/-- The columns that an update sets. -/
structure BatchUpdate where
  status : Option BatchStatus := none
  totalRows : Option ℕ := none
  processedRows : Option ℕ := none
  errorMessage : Option JsString := none

def UploadBatch.update (b : UploadBatch) (u : BatchUpdate) : UploadBatch where
  status := u.status.getD b.status
  totalRows := u.totalRows.getD b.totalRows
  processedRows := u.processedRows.getD b.processedRows
  errorMessage := u.errorMessage <|> b.errorMessage

structure ExchangeRate where
  currencyCode : JsString
  rate : Number
  deriving DecidableEq

/-! ### The exchange rates -/

def SUPPORTED_CURRENCIES : List JsString := [js "usd", js "eur", js "gbp", js "jpy", js "aud"]

def FALLBACK_RATES : List (JsString × Number) :=
  [(js "usd", .finite 1), (js "eur", .finite (92 / 100)), (js "gbp", .finite (79 / 100)),
    (js "jpy", .finite (1495 / 10)), (js "aud", .finite (153 / 100))]

/-- `fetchRates`, from the `usd` object of the answer it goes by, cached or new; `none` if
there is no such answer. -/
def fetchRates : Option (JsString → Option Number) → List (JsString × Number)
  | some usd =>
    SUPPORTED_CURRENCIES.map fun currency =>
      (currency, (usd currency).getD ((FALLBACK_RATES.lookup currency).getD .nan))
  | none => FALLBACK_RATES

/-- `s.toUpperCase()`, for an ASCII string. -/
def toUpperCase (s : JsString) : JsString :=
  s.map fun u => if 0x61 ≤ u && u ≤ 0x7A then u - 0x20 else u

/-- The rows that `saveRatesForBatch` saves. -/
def ratesForBatch (rates : List (JsString × Number)) : List ExchangeRate :=
  rates.map fun (currency, rate) => { currencyCode := toUpperCase currency, rate }

/-- The codes of the rates of a batch. -/
def codes : List JsString := SUPPORTED_CURRENCIES.map toUpperCase

/-- Whatever the answer, the rates are those of the same five currencies. -/
theorem codes_ratesForBatch (usd : Option (JsString → Option Number)) :
    (ratesForBatch (fetchRates usd)).map ExchangeRate.currencyCode = codes := by
  cases usd with
  | none => rfl
  | some usd => rfl

theorem nodup_codes : codes.Nodup := by decide

/-! ### One attempt -/

/-- What the code throws. -/
inductive Thrown
  | error (message : JsString)
  /-- A value that is no `Error`. -/
  | other
  deriving DecidableEq

def Thrown.message : Thrown → JsString
  | .error message => message
  | .other => js "Unknown error"

/-- How a call goes wrong. -/
inductive Fault
  | thrown (error : Thrown)
  /-- An error event that no handler takes ends the process. -/
  | crash

/-- The job, and what its attempts find around them. -/
structure Job where
  batchId : JsString
  userId : Option JsString
  engine : Engine
  /-- What `csv-parser` makes of the spooled file: its rows, or the message of its error. -/
  parsed : Except JsString (List CsvRow)
  /-- The answer that `fetchRates` goes by in each attempt. -/
  usd : ℕ → Option (JsString → Option Number)
  /-- Whether the products table takes a row: its columns bound the price and the date. -/
  accepts : ProcessedRow → Bool
  /-- What PostgreSQL says of a code stored twice for a batch. -/
  duplicateKey : JsString
  /-- What it says of a row that the products table does not take. -/
  refused : JsString

/-- `userId || null`. -/
def orNull : Option JsString → Option JsString
  | some [] => none
  | userId => userId

/-- The valid rows of the file. -/
def Job.validRows (job : Job) : List ProcessedRow :=
  match job.parsed with
  | .ok rows => validateRows job.engine job.batchId (orNull job.userId) rows
  | .error _ => []

/-- What outlives an attempt. -/
structure World where
  batch : UploadBatch
  exchangeRates : List ExchangeRate
  products : List ProcessedRow
  /-- The spooled file is there. -/
  file : Bool

/-- A call that an attempt waits for. -/
inductive Call
  | updateBatch (update : BatchUpdate)
  | saveRatesForBatch
  | parseCSV
  | saveProducts (batch : List ProcessedRow)
  /-- Bull is told the share of rows done. -/
  | progress (processed total : ℕ)
  | cleanupFile

/-- What a call does, in the attempt of the given number. -/
def World.run (job : Job) (attempt : ℕ) (w : World) : Call → Except Fault World
  | .updateBatch update => .ok { w with batch := w.batch.update update }
  -- The codes of a batch are unique, and the rates are saved in one transaction.
  | .saveRatesForBatch =>
    let rates := w.exchangeRates ++ ratesForBatch (fetchRates (job.usd attempt))
    if (rates.map ExchangeRate.currencyCode).Nodup then .ok { w with exchangeRates := rates }
    else .error (.thrown (.error job.duplicateKey))
  -- The parser's errors are handled, but not those of the stream that reads the file.
  | .parseCSV =>
    if w.file then
      match job.parsed with
      | .ok _ => .ok w
      | .error message => .error (.thrown (.error message))
    else .error .crash
  | .saveProducts batch =>
    if batch.all job.accepts then .ok { w with products := w.products ++ batch }
    else .error (.thrown (.error job.refused))
  | .progress _ _ => .ok w
  | .cleanupFile => .ok { w with file := false }

/-- Where an attempt is: the call it waits for, or how it has ended. -/
inductive Pc
  | marking
  | savingRates
  | reading
  | savingTotal
  | saving (i : ℕ)
  | savingProcessed (i : ℕ)
  | reporting (i : ℕ)
  | completing
  /-- In the catch clause. -/
  | failing (error : Thrown)
  /-- Removing the file, after an error or none. -/
  | cleaning (error : Option Thrown)
  | returned
  | thrown (error : Thrown)
  | died
  deriving DecidableEq

def BATCH_SIZE : ℕ := 500

/-- `Math.min(i + BATCH_SIZE, validRows.length)`. -/
def Job.processed (job : Job) (i : ℕ) : ℕ := min (i + BATCH_SIZE) job.validRows.length

def Pc.call (job : Job) : Pc → Option Call
  | .marking => some (.updateBatch { status := some .processing })
  | .savingRates => some .saveRatesForBatch
  | .reading => some .parseCSV
  | .savingTotal => some (.updateBatch { totalRows := some job.validRows.length })
  | .saving i => some (.saveProducts ((job.validRows.drop i).take BATCH_SIZE))
  | .savingProcessed i => some (.updateBatch { processedRows := some (job.processed i) })
  | .reporting i => some (.progress (job.processed i) job.validRows.length)
  | .completing => some (.updateBatch
      { status := some .completed, processedRows := some job.validRows.length })
  | .failing error => some (.updateBatch
      { status := some .failed, errorMessage := some error.message })
  | .cleaning _ => some .cleanupFile
  | .returned | .thrown _ | .died => none

/-- The head of the loop over the slices. -/
def Pc.loop (job : Job) (i : ℕ) : Pc :=
  if i < job.validRows.length then .saving i else .completing

/-- Where an attempt goes on when its call has succeeded. -/
def Pc.next (job : Job) : Pc → Pc
  | .marking => .savingRates
  | .savingRates => .reading
  | .reading => .savingTotal
  | .savingTotal => .loop job 0
  | .saving i => .savingProcessed i
  | .savingProcessed i => .reporting i
  | .reporting i => .loop job (i + BATCH_SIZE)
  | .completing => .cleaning none
  | .failing error => .cleaning (some error)
  | .cleaning none => .returned
  | .cleaning (some error) => .thrown error
  | pc => pc

/-- Where an attempt goes on when its call has gone wrong. -/
def Pc.fail : Pc → Fault → Pc
  | _, .crash => .died
  | .failing _, .thrown error => .thrown error
  -- `cleanupFile` catches what it throws.
  | .cleaning none, .thrown _ => .returned
  | .cleaning (some error), .thrown _ => .thrown error
  | _, .thrown error => .failing error

/-- What an error from outside comes to: while the file is read, no handler takes it. -/
def Pc.fault : Pc → Thrown → Fault
  | .reading, _ => .crash
  | _, error => .thrown error

/-! ### Bull -/

/-- The option with which `createBatch` adds the job. -/
def attempts : ℕ := 3

/-- How often Bull takes up a job whose process has died, by its own options. -/
def maxStalledCount : ℕ := 1

structure State where
  world : World
  pc : Pc
  /-- How many attempts have thrown before this one. -/
  attemptsMade : ℕ
  /-- How often the process has died under the job. -/
  stalledCounter : ℕ

/-- `createBatch`: the job is added, and its first attempt begins. -/
def start : State where
  world := ⟨⟨.pending, 0, 0, none⟩, [], [], true⟩
  pc := .marking
  attemptsMade := 0
  stalledCounter := 0

/-- How a call ends. -/
inductive Reply
  | ok
  /-- A failure from outside, before or after the call has taken effect. -/
  | err (error : Thrown) (applied : Bool)

inductive Label
  | reply (r : Reply)
  /-- The process dies, before or after the call has taken effect. -/
  | die (applied : Bool)
  /-- Bull begins the next attempt. -/
  | retry

/-- The number of the attempt. -/
def State.attempt (s : State) : ℕ := s.attemptsMade + s.stalledCounter

/-- The world after a call whose reply does not arrive. -/
def State.left (job : Job) (s : State) (c : Call) (applied : Bool) : World :=
  match applied, s.world.run job s.attempt c with
  | true, .ok w => w
  | _, _ => s.world

def step (job : Job) (s : State) : Label → Option State
  | .reply .ok => (s.pc.call job).map fun c =>
    match s.world.run job s.attempt c with
    | .ok w => { s with world := w, pc := s.pc.next job }
    | .error f => { s with pc := s.pc.fail f }
  | .reply (.err error applied) => (s.pc.call job).map fun c =>
    { s with world := s.left job c applied, pc := s.pc.fail (s.pc.fault error) }
  | .die applied => (s.pc.call job).map fun c =>
    { s with world := s.left job c applied, pc := .died }
  | .retry =>
    match s.pc with
    | .thrown _ =>
      if s.attemptsMade + 1 < attempts then
        some { s with pc := .marking, attemptsMade := s.attemptsMade + 1 }
      else none
    | .died =>
      if s.stalledCounter < maxStalledCount then
        some { s with pc := .marking, stalledCounter := s.stalledCounter + 1 }
      else none
    | _ => none

/-- The batch is completed, its counters are the number of valid rows of the file, and each
of these is one product of the batch. -/
def Recovered (job : Job) (w : World) : Prop :=
  w.batch.status = .completed ∧ w.batch.processedRows = w.batch.totalRows ∧
    w.batch.totalRows = job.validRows.length ∧ w.products.Perm job.validRows

section
variable {job : Job} {n : ℕ} {w w' : World} {c : Call} {s s' t : State} {a : Label}

/-! ### What the calls come to -/

theorem run_saveProducts {batch : List ProcessedRow} (h : batch.all job.accepts = true) :
    w.run job n (.saveProducts batch) = .ok { w with products := w.products ++ batch } :=
  if_pos h

theorem run_saveProducts_refused {batch : List ProcessedRow} (h : ¬batch.all job.accepts = true) :
    w.run job n (.saveProducts batch) = .error (.thrown (.error job.refused)) :=
  if_neg h

theorem run_parseCSV {rows : List CsvRow} (hfile : w.file = true) (h : job.parsed = .ok rows) :
    w.run job n .parseCSV = .ok w := by
  rw [World.run, if_pos hfile, h]

theorem run_parseCSV_refused {message : JsString} (hfile : w.file = true)
    (h : job.parsed = .error message) :
    w.run job n .parseCSV = .error (.thrown (.error message)) := by
  rw [World.run, if_pos hfile, h]

theorem run_parseCSV_crash (hfile : w.file = false) :
    w.run job n .parseCSV = .error .crash := by
  rw [World.run, hfile]
  rfl

/-! ### What is stored -/

/-- In the try block, after the rates have been saved. -/
def Pc.priced : Pc → Bool
  | .reading | .savingTotal | .saving _ | .savingProcessed _ | .reporting _ | .completing => true
  | _ => false

theorem Pc.priced_fail (pc : Pc) (f : Fault) : (pc.fail f).priced = false := by
  cases f with
  | crash => cases pc <;> rfl
  | thrown error =>
    cases pc with
    | cleaning error => cases error <;> rfl
    | _ => rfl

theorem Pc.priced_of_saveProducts {pc : Pc} {batch : List ProcessedRow}
    (h : pc.call job = some (.saveProducts batch)) : pc.priced = true := by
  cases pc <;> first | rfl | cases h

/-- An attempt gets past the rates by saving them. -/
theorem Pc.priced_of_next {pc : Pc} (h : (pc.next job).priced = true) :
    pc.priced = true ∨ pc = .savingRates := by
  cases pc with
  | savingRates => exact .inr rfl
  | cleaning error => cases error <;> cases h
  | reading | savingTotal | saving | savingProcessed | reporting | completing => exact .inl rfl
  | marking | failing | returned | thrown | died => cases h

/-- The rates are those of the five currencies, and there are no products without rates. -/
structure Stored (w : World) : Prop where
  codes : ∀ rate ∈ w.exchangeRates, rate.currencyCode ∈ codes
  products : w.products ≠ [] → w.exchangeRates ≠ []

/-- What a call does to the rates and the products. -/
theorem run_cases (h : w.run job n c = .ok w') :
    (c ≠ .saveRatesForBatch ∧ w'.exchangeRates = w.exchangeRates ∧
      (w'.products = w.products ∨ ∃ batch, c = .saveProducts batch)) ∨
    (c = .saveRatesForBatch ∧ w'.products = w.products ∧
      w'.exchangeRates = w.exchangeRates ++ ratesForBatch (fetchRates (job.usd n))) := by
  cases c with
  | saveRatesForBatch =>
    dsimp only [World.run] at h
    split at h <;> cases h
    exact .inr ⟨rfl, rfl, rfl⟩
  | saveProducts batch =>
    dsimp only [World.run] at h
    split at h <;> cases h
    exact .inl ⟨nofun, rfl, .inr ⟨batch, rfl⟩⟩
  | parseCSV =>
    dsimp only [World.run] at h
    split at h
    · split at h <;> cases h
      exact .inl ⟨nofun, rfl, .inl rfl⟩
    · cases h
  | updateBatch | progress | cleanupFile =>
    cases h
    exact .inl ⟨nofun, rfl, .inl rfl⟩

theorem ratesForBatch_ne_nil (usd : Option (JsString → Option Number)) :
    ratesForBatch (fetchRates usd) ≠ [] := by
  intro h
  have hcodes := codes_ratesForBatch usd
  rw [h] at hcodes
  cases hcodes

/-- The rates of a batch that has none are saved. -/
theorem run_saveRatesForBatch (h : w.exchangeRates = []) :
    w.run job n .saveRatesForBatch =
      .ok { w with exchangeRates := ratesForBatch (fetchRates (job.usd n)) } := by
  have hnodup : ((ratesForBatch (fetchRates (job.usd n))).map ExchangeRate.currencyCode).Nodup := by
    rw [codes_ratesForBatch]
    exact nodup_codes
  dsimp only [World.run]
  rw [h, List.nil_append, if_pos hnodup]

/-- The codes of a batch that has rates are taken. -/
theorem run_saveRatesForBatch_refused (hw : Stored w) (h : w.exchangeRates ≠ []) :
    w.run job n .saveRatesForBatch = .error (.thrown (.error job.duplicateKey)) := by
  obtain ⟨rate, hrate⟩ := List.exists_mem_of_ne_nil _ h
  have hdup : ¬((w.exchangeRates ++ ratesForBatch (fetchRates (job.usd n))).map
      ExchangeRate.currencyCode).Nodup := by
    intro hnodup
    rw [List.map_append, codes_ratesForBatch, List.nodup_append] at hnodup
    exact hnodup.2.2 _ (List.mem_map_of_mem hrate) _ (hw.codes rate hrate) rfl
  exact if_neg hdup

theorem Stored.run (hw : Stored w) (hpc : ∀ batch, c = .saveProducts batch → w.exchangeRates ≠ [])
    (h : w.run job n c = .ok w') : Stored w' := by
  rcases run_cases h with ⟨-, hrates, hproducts⟩ | ⟨-, hproducts, hrates⟩
  · refine ⟨hrates ▸ hw.codes, fun hne => ?_⟩
    rw [hrates]
    rcases hproducts with hproducts | ⟨batch, hc⟩
    · exact hw.products (hproducts ▸ hne)
    · exact hpc batch hc
  · refine ⟨fun rate hrate => ?_, fun _ => ?_⟩
    · rw [hrates] at hrate
      rcases List.mem_append.mp hrate with hrate | hrate
      · exact hw.codes rate hrate
      · exact codes_ratesForBatch (job.usd n) ▸ List.mem_map_of_mem hrate
    · rw [hrates]
      exact List.append_ne_nil_of_right_ne_nil _ (ratesForBatch_ne_nil _)

/-- Rates are never taken back. -/
theorem rates_of_run (h : w.run job n c = .ok w')
    (hrates : w.exchangeRates ≠ [] ∨ c = .saveRatesForBatch) : w'.exchangeRates ≠ [] := by
  rcases run_cases h with ⟨hc, heq, -⟩ | ⟨-, -, heq⟩
  · rw [heq]
    exact hrates.resolve_right hc
  · rw [heq]
    exact List.append_ne_nil_of_right_ne_nil _ (ratesForBatch_ne_nil _)

/-- The file is never put back. -/
theorem file_of_run (h : w.run job n c = .ok w') (hfile : w.file = false) : w'.file = false := by
  cases c with
  | saveRatesForBatch | saveProducts =>
    dsimp only [World.run] at h
    split at h <;> cases h
    exact hfile
  | parseCSV =>
    rw [World.run, hfile] at h
    cases h
  | updateBatch | progress | cleanupFile =>
    cases h
    first | exact hfile | rfl

/-! ### One step -/

theorem left_cases (applied : Bool) :
    s.left job c applied = s.world ∨ s.world.run job s.attempt c = .ok (s.left job c applied) := by
  unfold State.left
  split
  · next w hrun => exact .inr hrun
  · exact .inl rfl

/-- What a step can do: a call succeeds, an attempt leaves the try block with a call that
may have been done, or an attempt begins. -/
theorem step_cases (h : step job s a = some s') :
    (∃ c, s.pc.call job = some c ∧ s.world.run job s.attempt c = .ok s'.world ∧
      s'.pc = s.pc.next job) ∨
    (∃ c, s.pc.call job = some c ∧ s'.pc.priced = false ∧
      (s'.world = s.world ∨ s.world.run job s.attempt c = .ok s'.world)) ∨
    (s'.world = s.world ∧ s'.pc = .marking) := by
  cases a with
  | reply r =>
    cases r with
    | ok =>
      obtain ⟨c, hc, rfl⟩ := Option.map_eq_some_iff.mp h
      cases hrun : s.world.run job s.attempt c with
      | ok w => exact .inl ⟨c, hc, hrun, rfl⟩
      | error f => exact .inr (.inl ⟨c, hc, Pc.priced_fail _ f, .inl rfl⟩)
    | err error applied =>
      obtain ⟨c, hc, rfl⟩ := Option.map_eq_some_iff.mp h
      exact .inr (.inl ⟨c, hc, Pc.priced_fail _ _, left_cases applied⟩)
  | die applied =>
    obtain ⟨c, hc, rfl⟩ := Option.map_eq_some_iff.mp h
    exact .inr (.inl ⟨c, hc, rfl, left_cases applied⟩)
  -- A job that was thrown away or died is marked before it runs again.
  | retry =>
    dsimp only [step] at h
    split at h
    · split at h <;> cases h
      exact .inr (.inr ⟨rfl, rfl⟩)
    · split at h <;> cases h
      exact .inr (.inr ⟨rfl, rfl⟩)
    · cases h

/-- What holds of the tables at each place of an attempt. -/
structure Kept (s : State) : Prop where
  stored : Stored s.world
  priced : s.pc.priced = true → s.world.exchangeRates ≠ []

theorem Kept.run (hI : Kept s) (hc : s.pc.call job = some c)
    (h : s.world.run job n c = .ok w') : Stored w' :=
  hI.stored.run (fun _ hbatch => hI.priced (Pc.priced_of_saveProducts (hbatch ▸ hc))) h

/-- **Products are stored after rates**, step by step. -/
theorem kept_step (hI : Kept s) (h : step job s a = some s') : Kept s' := by
  rcases step_cases h with ⟨c, hc, hrun, hpc⟩ | ⟨c, hc, hpc, hrun⟩ | ⟨hw, hpc⟩
  · refine ⟨hI.run hc hrun, fun hpriced => ?_⟩
    rw [hpc] at hpriced
    rcases Pc.priced_of_next hpriced with hpriced | hsaving
    · exact rates_of_run hrun (.inl (hI.priced hpriced))
    · rw [hsaving] at hc
      cases hc
      exact rates_of_run hrun (.inr rfl)
  · refine ⟨?_, fun hpriced => absurd hpriced (by simp [hpc])⟩
    rcases hrun with hw | hrun
    · exact hw ▸ hI.stored
    · exact hI.run hc hrun
  · exact ⟨hw ▸ hI.stored, fun hpriced => absurd hpriced (by simp [hpc, Pc.priced])⟩

theorem kept_start : Kept start where
  stored := ⟨nofun, fun h => absurd rfl h⟩
  priced := nofun

theorem kept_of_exec {as : List Label} (h : exec (step job) start as = some s) : Kept s :=
  exec_invariant (fun _ _ _ => kept_step) kept_start h

/-- Something that every attempt needs is gone for good. -/
def Lost (w : World) : Prop := w.file = false ∨ w.exchangeRates ≠ []

/-- **No attempt brings it back**, step by step. -/
theorem lost_step (hI : Lost s.world) (h : step job s a = some s') : Lost s'.world := by
  have hrun : ∀ {c w'}, s.world.run job s.attempt c = .ok w' → Lost w' := by
    intro c w' hrun
    rcases hI with hfile | hrates
    · exact .inl (file_of_run hrun hfile)
    · exact .inr (rates_of_run hrun (.inl hrates))
  rcases step_cases h with ⟨c, -, hw, -⟩ | ⟨c, -, -, hw | hw⟩ | ⟨hw, -⟩
  · exact hrun hw
  · exact hw ▸ hI
  · exact hrun hw
  · exact hw ▸ hI

end

end CsvProductUploader.NodePipeline

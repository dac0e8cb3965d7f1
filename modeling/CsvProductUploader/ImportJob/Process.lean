import CsvProductUploader.ImportJob.JobStore

/-!
# The goroutine of one import

`ImportService.process` and `awaitConfirmation`, as the machine that stands
between two calls to the outside: `Goroutine.call` is the call it is about to
make and `Goroutine.resume` continues with the answer.  What the answers are is
left to whoever runs the machine, so that every outcome of the file system, the
publisher and the job store can be put to it.

`Streamer.Stream` is represented by what it makes of the file: the rows it hands
to the emit callback, in order, and the error it ends with, if any.

## Main definitions

* `Cause`, `Cause.error` — the failures an import can end with.
* `Pc`, `Goroutine` — where the import stands.
* `Call`, `Answer`, `Goroutine.call`, `Goroutine.resume`.
* `Pc.early`, `Pc.confirming`, `Pc.closing` — the phases of an import.
* `Moves` — how an answer moves an import through its phases.

## Main results

* `Goroutine.call_updateStatus` — the four places where the status is written.
* `Goroutine.moves_of_resume` — what one answer can do to the program counter.
-/

namespace CsvProductUploader

/-- The failures `process` records on a job. -/
inductive Cause
  /-- `os.Open` failed. -/
  | opening (err : String)
  /-- `Stream` failed on its own: its context is done, or the header is bad. -/
  | stream (err : String)
  | publishing (row : ℕ) (err : String)
  /-- A counter or status write failed. -/
  | store (err : String)
  | delivering (err : String)
  | awaiting (err : String)
  | unconfirmed
  deriving DecidableEq, Repr

/-- `cause.Error()`. -/
def Cause.error : Cause → String
  | .opening err => err
  | .stream err => err
  | .publishing row err => s!"publishing row {row}: {err}"
  | .store err => err
  | .delivering err => "delivering published events: " ++ err
  | .awaiting err => "waiting for catalog confirmation: " ++ err
  | .unconfirmed => "timed out waiting for catalog confirmation"

/-- What `Stream` makes of a file: the rows it emits, and the error it then
returns unless the callback or the context stops it earlier. -/
structure File where
  rows : List Row
  ending : Option String := none
  deriving DecidableEq, Repr

/-- Where `process` stands. -/
inductive Pc
  /-- At `os.Open`. -/
  | opening
  /-- At the head of the record loop, with the rows still to emit. -/
  | streaming (rows : List Row)
  /-- In the callback, at `PublishProductImported`. -/
  | publishing (row : Row) (rows : List Row)
  /-- In the callback, at `flushProgress`. -/
  | saving (rows : List Row)
  /-- At `publisher.Flush`. -/
  | flushing
  /-- At the last `flushProgress`. -/
  | savingTotals
  /-- At `UpdateStatus(StatusCompleted)`, nothing having been published. -/
  | completingEmpty
  /-- At `UpdateStatus(StatusProcessing)`. -/
  | markingProcessing
  /-- In `awaitConfirmation`, at the `select`. -/
  | awaiting
  /-- In `awaitConfirmation`, at `store.Get`. -/
  | reading
  /-- In `awaitConfirmation`, at `UpdateStatus(StatusCompleted)`. -/
  | completing
  /-- In `fail`, at `UpdateStatus(StatusFailed)`. -/
  | failing (cause : Cause)
  | returned
  deriving DecidableEq, Repr

/-- The state of one run of `process`: the captured arguments, the four counters
of the callback's closure and the program counter. -/
structure Goroutine where
  file : File
  /-- `s.flushEvery`, at least one. -/
  flushEvery : ℕ
  total : ℕ := 0
  valid : ℕ := 0
  invalid : ℕ := 0
  published : ℕ := 0
  pc : Pc := .opening
  deriving DecidableEq, Repr

/-- `NewImportService`: an interval below one means one. -/
def Goroutine.start (flushEvery : ℕ) (file : File) : Goroutine :=
  { file, flushEvery := max flushEvery 1 }

/-- The calls `process` makes. -/
inductive Call
  | openFile
  /-- `ctx.Err()` at the head of the record loop. -/
  | ctxErr
  | publish (row : Row)
  | updateProgress (p : Progress)
  | flush
  | updateStatus (next : Status) (lastErr : Option String)
  /-- The `select` between the context and the ticker. -/
  | select
  | get
  deriving DecidableEq, Repr

/-- The answer to a call. -/
inductive Answer
  /-- No error; for `select`, the ticker fired. -/
  | ok
  /-- An error; for `ctxErr` and `select`, the context is done. -/
  | err (e : String)
  /-- The job that `get` read, and whether its last update is older than
  `confirmationTimeout`. -/
  | job (j : ImportJob) (stale : Bool)

namespace Goroutine

/-- The counters as `flushProgress` writes them. -/
def progress (g : Goroutine) : Progress :=
  { totalRows := g.total, validRows := g.valid, invalidRows := g.invalid,
    publishedRows := g.published }

/-- The event the callback publishes for a valid row. -/
def event (jobID : GoString) (now : ℤ) (row : Row) : ProductImported :=
  { jobID, rowNum := row.num, producedAt := now, product := row.product }

/-- The call `process` is about to make, until it has returned. -/
def call (g : Goroutine) : Option Call :=
  match g.pc with
  | .opening => some .openFile
  | .streaming _ => some .ctxErr
  | .publishing row _ => some (.publish row)
  | .saving _ => some (.updateProgress g.progress)
  | .flushing => some .flush
  | .savingTotals => some (.updateProgress g.progress)
  | .completingEmpty => some (.updateStatus .completed none)
  | .markingProcessing => some (.updateStatus .processing none)
  | .awaiting => some .select
  | .reading => some .get
  | .completing => some (.updateStatus .completed none)
  | .failing cause => some (.updateStatus .failed (some cause.error))
  | .returned => none

/-- The rest of `process` up to its next call, given the answer to this one. -/
def resume (g : Goroutine) (a : Answer) : Option Goroutine :=
  match g.pc, a with
  | .opening, .ok => some { g with pc := .streaming g.file.rows }
  | .opening, .err e => some { g with pc := .failing (.opening e) }
  | .streaming _, .err e => some { g with pc := .failing (.stream e) }
  | .streaming [], .ok =>
    match g.file.ending with
    | none => some { g with pc := .flushing }
    | some e => some { g with pc := .failing (.stream e) }
  | .streaming (row :: rows), .ok =>
    if row.valid then some { g with total := g.total + 1, pc := .publishing row rows }
    else some { g with total := g.total + 1, invalid := g.invalid + 1, pc := .streaming rows }
  | .publishing _ rows, .ok =>
    some { g with valid := g.valid + 1, published := g.published + 1,
                  pc := if (g.published + 1) % g.flushEvery = 0 then .saving rows
                        else .streaming rows }
  | .publishing row _, .err e => some { g with pc := .failing (.publishing row.num e) }
  | .saving rows, .ok => some { g with pc := .streaming rows }
  | .saving _, .err e => some { g with pc := .failing (.store e) }
  | .flushing, .ok => some { g with pc := .savingTotals }
  | .flushing, .err e => some { g with pc := .failing (.delivering e) }
  | .savingTotals, .ok =>
    some { g with pc := if g.published = 0 then .completingEmpty else .markingProcessing }
  | .savingTotals, .err e => some { g with pc := .failing (.store e) }
  -- A refused completion is logged and left at that.
  | .completingEmpty, .ok => some { g with pc := .returned }
  | .completingEmpty, .err _ => some { g with pc := .returned }
  | .markingProcessing, .ok => some { g with pc := .awaiting }
  | .markingProcessing, .err e => some { g with pc := .failing (.store e) }
  | .awaiting, .ok => some { g with pc := .reading }
  | .awaiting, .err e => some { g with pc := .failing (.awaiting e) }
  | .reading, .err _ => some { g with pc := .awaiting }
  | .reading, .job j stale =>
    if j.status ≠ .processing then some { g with pc := .returned }
    else if j.publishedRows ≤ j.processedRows + j.deadRows then some { g with pc := .completing }
    else if stale then some { g with pc := .failing .unconfirmed }
    else some { g with pc := .awaiting }
  | .completing, .ok => some { g with pc := .returned }
  | .completing, .err _ => some { g with pc := .returned }
  | .failing _, .ok => some { g with pc := .returned }
  | .failing _, .err _ => some { g with pc := .returned }
  | _, _ => none

end Goroutine

/-! ### The phases of `process` -/

/-- Up to the write that sets the job to processing, that one included. -/
def Pc.early : Pc → Bool
  | .opening | .streaming _ | .publishing _ _ | .saving _ | .flushing | .savingTotals
  | .completingEmpty | .markingProcessing => true
  | .awaiting | .reading | .completing | .failing _ | .returned => false

/-- In `awaitConfirmation`, up to the write that completes the job. -/
def Pc.confirming : Pc → Bool
  | .awaiting | .reading | .completing => true
  | _ => false

theorem Pc.not_confirming_of_early {pc : Pc} (h : pc.early = true) : pc.confirming = false := by
  cases pc <;> simp_all [Pc.early, Pc.confirming]

/-- At a write after which `process` returns whatever its outcome. -/
def Pc.closing : Pc → Bool
  | .completingEmpty | .completing | .failing _ => true
  | _ => false

/-- The four places where `process` writes the status of its job. -/
theorem Goroutine.call_updateStatus {g : Goroutine} {next : Status} {lastErr : Option String}
    (h : g.call = some (.updateStatus next lastErr)) :
    (g.pc = .completingEmpty ∧ next = .completed ∧ lastErr = none) ∨
      (g.pc = .markingProcessing ∧ next = .processing ∧ lastErr = none) ∨
      (g.pc = .completing ∧ next = .completed ∧ lastErr = none) ∨
      ∃ cause, g.pc = .failing cause ∧ next = .failed ∧ lastErr = some cause.error := by
  unfold Goroutine.call at h
  cases hpc : g.pc <;> simp_all

/-- A closing write sets a terminal status, and a failure with its cause. -/
theorem Goroutine.call_of_closing {g : Goroutine} (h : g.pc.closing = true) :
    ∃ next lastErr, g.call = some (.updateStatus next lastErr) ∧ next.terminal = true ∧
      (next = .failed → lastErr ≠ none) := by
  cases hpc : g.pc with
  | completingEmpty => exact ⟨.completed, none, by rw [Goroutine.call, hpc], rfl, by simp⟩
  | completing => exact ⟨.completed, none, by rw [Goroutine.call, hpc], rfl, by simp⟩
  | failing cause =>
    exact ⟨.failed, some cause.error, by rw [Goroutine.call, hpc], rfl, by simp⟩
  | _ => rw [hpc] at h; cases h

/-- How one answer moves `process` through its phases. -/
inductive Moves : Pc → Answer → Pc → Prop
  | early {pc pc' : Pc} {a : Answer} : pc.early = true → pc.closing = false →
      pc ≠ .markingProcessing → pc'.early = true → Moves pc a pc'
  | await : Moves .markingProcessing .ok .awaiting
  | tick : Moves .awaiting .ok .reading
  | retry {e : String} : Moves .reading (.err e) .awaiting
  | wait {j : ImportJob} {stale : Bool} : j.processedRows + j.deadRows < j.publishedRows →
      Moves .reading (.job j stale) .awaiting
  | confirmed {j : ImportJob} {stale : Bool} : j.status = .processing →
      j.publishedRows ≤ j.processedRows + j.deadRows → Moves .reading (.job j stale) .completing
  | unconfirmed {j : ImportJob} : j.processedRows + j.deadRows < j.publishedRows →
      Moves .reading (.job j true) (.failing .unconfirmed)
  | elsewhere {j : ImportJob} {stale : Bool} : j.status ≠ .processing →
      Moves .reading (.job j stale) .returned
  | fail {pc : Pc} {e : String} {cause : Cause} : pc.closing = false → pc ≠ .reading →
      pc ≠ .returned → Moves pc (.err e) (.failing cause)
  /-- The file itself ends the stream with an error. -/
  | ending {cause : Cause} : Moves (.streaming []) .ok (.failing cause)
  | close {pc : Pc} {a : Answer} : pc.closing = true → (∀ j stale, a ≠ .job j stale) →
      Moves pc a .returned

/-- **What one answer can do.** -/
theorem Goroutine.moves_of_resume {g g' : Goroutine} {a : Answer} (h : g.resume a = some g') :
    Moves g.pc a g'.pc := by
  revert h
  fun_cases Goroutine.resume g a
  all_goals intro h
  all_goals simp only [Option.some.injEq, reduceCtorEq] at h
  all_goals subst h
  case case5 | case18 | case20 | case22 =>
    simp_all [Moves.ending, Moves.await, Moves.tick, Moves.retry]
  case case23 hpc hj => rw [hpc]; exact .elsewhere hj
  case case24 hpc hj hcount => rw [hpc]; exact .confirmed (not_not.mp hj) hcount
  case case25 hpc _ hcount => rw [hpc]; exact .unconfirmed (Nat.not_le.mp hcount)
  case case26 hpc _ hcount _ => rw [hpc]; exact .wait (Nat.not_le.mp hcount)
  case case2 | case3 | case9 | case11 | case13 | case15 | case19 | case21 =>
    exact .fail (by simp [Pc.closing, *]) (by simp [*]) (by simp [*])
  case case16 | case17 | case27 | case28 | case29 | case30 =>
    exact .close (by simp [Pc.closing, *]) (by simp)
  -- the calls before the job is set to processing, answered without an error
  case case8 | case14 =>
    refine .early (by simp [Pc.early, *]) (by simp [Pc.closing, *]) (by simp [*]) ?_
    dsimp only
    split_ifs <;> rfl
  all_goals exact .early (by simp [Pc.early, *]) (by simp [Pc.closing, *]) (by simp [*]) rfl

/-- `process` never goes back before the write that sets the job to processing. -/
theorem Moves.early_of_early {pc pc' : Pc} {a : Answer} (h : Moves pc a pc')
    (hearly : pc'.early = true) : pc.early = true := by
  cases h with
  | early he => exact he
  | _ => cases hearly

/-- `awaitConfirmation` is entered through the write that sets the job to
processing, once it is answered without an error. -/
theorem Moves.confirming_cases {pc pc' : Pc} {a : Answer} (h : Moves pc a pc')
    (hconf : pc'.confirming = true) :
    pc.confirming = true ∨ (pc = .markingProcessing ∧ a = .ok) := by
  cases h with
  | early _ _ _ he => rw [Pc.not_confirming_of_early he] at hconf; cases hconf
  | await => exact Or.inr ⟨rfl, rfl⟩
  | tick | retry | wait | confirmed => exact Or.inl rfl
  | _ => cases hconf

/-! ### Before and after `publisher.Flush` -/

/-- Up to `publisher.Flush`, that call included. -/
def Pc.unflushed : Pc → Bool
  | .opening | .streaming _ | .publishing _ _ | .saving _ | .flushing => true
  | _ => false

/-- After a `publisher.Flush` without an error, until `process` returns or fails. -/
def Pc.flushed : Pc → Bool
  | .savingTotals | .completingEmpty | .markingProcessing | .awaiting | .reading
  | .completing => true
  | _ => false

theorem Pc.not_confirming_of_unflushed {pc : Pc} (h : pc.unflushed = true) :
    pc.confirming = false := by
  cases pc <;> simp_all [Pc.unflushed, Pc.confirming]

/-- The calls that go to the publisher. -/
def Call.toPublisher : Call → Bool
  | .publish _ | .flush => true
  | _ => false

/-- An answer from elsewhere than the publisher leaves the published count alone,
and takes the import neither past its flush nor back before it. -/
theorem Goroutine.resume_elsewhere {g g' : Goroutine} {a : Answer} (h : g.resume a = some g')
    (hcall : ∀ c, g.call = some c → c.toPublisher = false) :
    g'.published = g.published ∧ (g'.pc.unflushed = true → g.pc.unflushed = true) ∧
      (g'.pc.flushed = true → g.pc.flushed = true) := by
  revert h
  fun_cases Goroutine.resume g a
  all_goals intro h
  all_goals simp only [Option.some.injEq, reduceCtorEq] at h
  all_goals subst h
  case case8 | case9 | case12 | case13 =>
    simp [Goroutine.call, Call.toPublisher, *] at hcall
  case case14 =>
    refine ⟨rfl, ?_, by simp [Pc.flushed, *]⟩
    dsimp only
    split_ifs <;> simp [Pc.unflushed]
  all_goals simp [Pc.unflushed, Pc.flushed, *]

end CsvProductUploader

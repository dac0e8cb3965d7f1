import CsvProductUploader.ImportJob.Entity
import CsvProductUploader.Lib.MaxCounter
import Mathlib.Logic.Function.Basic

/-!
# The job store

The importer-owned database: the table `import_jobs` and the per-worker
snapshots of `import_progress_workers`, with one function for each statement the
store executes.  A statement is atomic; `ApplyProgress` is two of them.

## Main definitions

* `WorkerRows`, `JobStore` — the two tables.
* `JobStore.create`, `updateProgress`, `updateStatus`, `failStale` — the
  statements the importer runs.
* `JobStore.upsertWorkerRow`, `recomputeTotals`, `applyProgress` — the fold of a
  progress snapshot, in its two steps; `Folded` — it has taken place.

## Main results

* `jobs_modify`, `jobs_failStale`, … — what each statement does to one job.
* `folded_applyProgress`, `Folded.applyProgress` — a fold is not taken back.
-/

namespace CsvProductUploader

/-- The rows of `import_progress_workers` for one job: three columns, each the
greatest value its worker has reported. -/
structure WorkerRows where
  processed : MaxCounter GoString := .empty
  retried : MaxCounter GoString := .empty
  dead : MaxCounter GoString := .empty

/-- A snapshot folded into its job's rows: `GREATEST` in each column of the
worker's row. -/
def WorkerRows.report (rows : WorkerRows) (p : ImportProgress) : WorkerRows where
  processed := rows.processed.raise p.workerID p.processedRows
  retried := rows.retried.raise p.workerID p.retriedRows
  dead := rows.dead.raise p.workerID p.deadRows

/-- The importer-owned database. -/
structure JobStore where
  /-- `import_jobs`, by job id. -/
  jobs : GoString → Option ImportJob
  /-- `import_progress_workers`, by job id. -/
  workers : GoString → WorkerRows

/-- The database before the first upload. -/
def JobStore.initial : JobStore := ⟨fun _ => none, fun _ => {}⟩

namespace JobStore

/-- `UPDATE import_jobs SET … WHERE id = $1`: touches no row when the job is unknown. -/
def modify (s : JobStore) (id : GoString) (f : ImportJob → ImportJob) : JobStore :=
  { s with jobs := Function.update s.jobs id ((s.jobs id).map f) }

/-- `Create`: a new job row with zero counters. -/
def create (s : JobStore) (id : GoString) (status : Status) : JobStore :=
  { s with jobs := Function.update s.jobs id (some { status }) }

/-- `UpdateProgress`: overwrites the four row counters. -/
def updateProgress (s : JobStore) (id : GoString) (p : Progress) : JobStore :=
  s.modify id fun j =>
    { j with totalRows := p.totalRows, validRows := p.validRows,
             invalidRows := p.invalidRows, publishedRows := p.publishedRows }

/-- `UpdateStatus`: sets the status and the failure cause, whatever they were. -/
def updateStatus (s : JobStore) (id : GoString) (next : Status) (lastErr : Option String) :
    JobStore :=
  s.modify id fun j => { j with status := next, lastError := lastErr }

/-- The states whose work dies with the process. -/
def prePublication (st : Status) : Bool :=
  st == .uploading || st == .parsing || st == .publishing

theorem not_terminal_of_prePublication {st : Status} (h : prePublication st = true) :
    st.terminal = false := by
  revert h
  cases st <;> decide

/-- `FailStale`: fails every job in a pre-publication state. -/
def failStale (s : JobStore) (reason : String) : JobStore :=
  { s with jobs := fun id => (s.jobs id).map fun j =>
      if prePublication j.status then { j with status := .failed, lastError := some reason }
      else j }

/-- The first statement of `ApplyProgress`: upserts the worker's row. -/
def upsertWorkerRow (s : JobStore) (p : ImportProgress) : JobStore :=
  { s with workers := Function.update s.workers p.jobID ((s.workers p.jobID).report p) }

/-- The second statement of `ApplyProgress`: the job's counters become the sums
over its workers, unless the job is terminal. -/
def recomputeTotals (s : JobStore) (id : GoString) : JobStore :=
  s.modify id fun j =>
    if j.status.terminal then j
    else { j with processedRows := (s.workers id).processed.total
                  retriedRows := (s.workers id).retried.total
                  deadRows := (s.workers id).dead.total }

/-- `ApplyProgress`, both statements executed. -/
def applyProgress (s : JobStore) (p : ImportProgress) : JobStore :=
  (s.upsertWorkerRow p).recomputeTotals p.jobID

/-- The worker's row reports at least what the snapshot does. -/
def Folded (s : JobStore) (p : ImportProgress) : Prop :=
  p.processedRows ≤ (s.workers p.jobID).processed.value p.workerID ∧
    p.retriedRows ≤ (s.workers p.jobID).retried.value p.workerID ∧
      p.deadRows ≤ (s.workers p.jobID).dead.value p.workerID

/-! ### What each statement does to one job -/

theorem jobs_modify (s : JobStore) (id id' : GoString) (f : ImportJob → ImportJob) :
    (s.modify id f).jobs id' = if id' = id then (s.jobs id).map f else s.jobs id' :=
  Function.update_apply ..

@[simp] theorem jobs_modify_self (s : JobStore) (id : GoString) (f : ImportJob → ImportJob) :
    (s.modify id f).jobs id = (s.jobs id).map f := by rw [jobs_modify, if_pos rfl]

theorem jobs_modify_of_ne (s : JobStore) {id id' : GoString} (f : ImportJob → ImportJob)
    (h : id' ≠ id) : (s.modify id f).jobs id' = s.jobs id' := by rw [jobs_modify, if_neg h]

@[simp] theorem workers_modify (s : JobStore) (id : GoString) (f : ImportJob → ImportJob) :
    (s.modify id f).workers = s.workers := rfl

theorem jobs_create (s : JobStore) (id id' : GoString) (status : Status) :
    (s.create id status).jobs id' = if id' = id then some { status } else s.jobs id' :=
  Function.update_apply ..

@[simp] theorem workers_create (s : JobStore) (id : GoString) (status : Status) :
    (s.create id status).workers = s.workers := rfl

theorem jobs_failStale (s : JobStore) (reason : String) (id : GoString) :
    (s.failStale reason).jobs id = (s.jobs id).map fun j =>
      if prePublication j.status then { j with status := .failed, lastError := some reason }
      else j := rfl

@[simp] theorem workers_failStale (s : JobStore) (reason : String) :
    (s.failStale reason).workers = s.workers := rfl

@[simp] theorem jobs_upsertWorkerRow (s : JobStore) (p : ImportProgress) :
    (s.upsertWorkerRow p).jobs = s.jobs := rfl

theorem workers_upsertWorkerRow_of_ne (s : JobStore) (p : ImportProgress) {id : GoString}
    (h : id ≠ p.jobID) : (s.upsertWorkerRow p).workers id = s.workers id :=
  Function.update_of_ne h ..

@[simp] theorem workers_upsertWorkerRow_self (s : JobStore) (p : ImportProgress) :
    (s.upsertWorkerRow p).workers p.jobID = (s.workers p.jobID).report p :=
  Function.update_self ..

@[simp] theorem workers_recomputeTotals (s : JobStore) (id : GoString) :
    (s.recomputeTotals id).workers = s.workers := rfl

/-- An upsert folds its snapshot. -/
theorem folded_upsertWorkerRow (s : JobStore) (p : ImportProgress) :
    (s.upsertWorkerRow p).Folded p := by
  simp only [Folded, workers_upsertWorkerRow_self, WorkerRows.report, MaxCounter.value_raise_self]
  exact ⟨Nat.le_max_right _ _, Nat.le_max_right _ _, Nat.le_max_right _ _⟩

/-- No upsert takes a fold back. -/
theorem Folded.upsertWorkerRow {s : JobStore} {p : ImportProgress} (h : s.Folded p)
    (q : ImportProgress) : (s.upsertWorkerRow q).Folded p := by
  unfold Folded
  by_cases hid : p.jobID = q.jobID
  · rw [hid, workers_upsertWorkerRow_self, ← hid]
    obtain ⟨hproc, hret, hdead⟩ := h
    exact ⟨hproc.trans (MaxCounter.value_le_value_raise ..),
      hret.trans (MaxCounter.value_le_value_raise ..),
      hdead.trans (MaxCounter.value_le_value_raise ..)⟩
  · rw [workers_upsertWorkerRow_of_ne _ _ hid]
    exact h

theorem folded_applyProgress (s : JobStore) (p : ImportProgress) : (s.applyProgress p).Folded p :=
  folded_upsertWorkerRow s p

theorem Folded.applyProgress {s : JobStore} {p : ImportProgress} (h : s.Folded p)
    (q : ImportProgress) : (s.applyProgress q).Folded p := h.upsertWorkerRow q

end JobStore

end CsvProductUploader

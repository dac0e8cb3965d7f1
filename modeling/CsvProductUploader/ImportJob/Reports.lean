import CsvProductUploader.ImportJob.Ledger
import CsvProductUploader.ImportJob.LiveProgress

/-!
# Reports

The reconciliation report of an import and the verdict of the metrics, over any number of
importer processes.  A report could show a completed import with published events that the
catalog has not confirmed, and gives this a name of its own; no run leads there.

## Main definitions

* `buildReport` — the reconciliation report.
* `snapshot` — the metrics of the latest import.
* `Goroutine.Balanced` — the counters of the callback add up.
* `Reconciled` — what holds of jobs and goroutines.

## Main results

* `report_of_run` — every report balances, and that of a completed import is complete.
* `completed_final` — the record of a completed import does not change.
-/

namespace CsvProductUploader

open LiveProgress Runs

/-! ### Reports -/

/-- The parsing outcome of the uploaded file. -/
structure RowLedger where
  total : ℕ
  valid : ℕ
  invalid : ℕ
  deriving DecidableEq, Repr

/-- The event-stream outcome of the import. -/
structure EventLedger where
  published : ℕ
  processed : ℕ
  retried : ℕ
  dead : ℕ
  deriving DecidableEq, Repr

inductive ReportState
  | inFlight
  | failed
  | complete
  | discrepancy
  deriving DecidableEq, Repr

def ReportState.text : ReportState → String
  | .inFlight => "in-flight"
  | .failed => "failed"
  | .complete => "complete"
  | .discrepancy => "discrepancy"

/-- What was published against what the catalog confirmed. -/
structure Reconciliation where
  published : ℕ
  confirmed : ℕ
  unconfirmed : ℤ
  state : ReportState
  deriving DecidableEq, Repr

/-- `reportResponse`, less the time at which it was generated. -/
structure ReportResponse where
  jobID : GoString
  fileName : GoString
  status : String
  rows : RowLedger
  events : EventLedger
  reconciliation : Reconciliation
  deriving DecidableEq, Repr

/-- `buildReport`. -/
def buildReport (id fileName : GoString) (j : ImportJob) : ReportResponse :=
  let confirmed := j.processedRows + j.deadRows
  let unconfirmed : ℤ := if (j.publishedRows : ℤ) - confirmed < 0 then 0
    else (j.publishedRows : ℤ) - confirmed
  let state : ReportState :=
    if j.status = .failed then .failed
    else if j.status = .completed then
      if unconfirmed = 0 then .complete else .discrepancy
    else .inFlight
  { jobID := id
    fileName
    status := externalStatus j.status
    rows := ⟨j.totalRows, j.validRows, j.invalidRows⟩
    events := ⟨j.publishedRows, j.processedRows, j.retriedRows, j.deadRows⟩
    reconciliation := ⟨j.publishedRows, confirmed, unconfirmed, state⟩ }

/-- What `snapshot` makes of the latest import, less the rates. -/
structure Metrics where
  jobID : GoString
  fileName : GoString
  status : String
  eventsInFlight : ℤ
  zeroLoss : Option Bool
  deriving DecidableEq, Repr

/-- `MetricsHandler.snapshot`, of the job that `List` has returned. -/
def snapshot (id fileName : GoString) (j : ImportJob) : Metrics :=
  let inFlight : ℤ := (j.publishedRows : ℤ) - j.processedRows - j.deadRows
  { jobID := id
    fileName
    status := externalStatus j.status
    eventsInFlight := if inFlight < 0 then 0 else inFlight
    zeroLoss :=
      if j.publishedRows > 0 then some (decide (j.processedRows + j.deadRows ≥ j.publishedRows))
      else none }

/-! ### The counters of the callback -/

/-- The counters of the callback add up.  The row that is with the publisher has been
counted, but is not valid yet. -/
def Goroutine.Balanced (g : Goroutine) : Prop :=
  g.published = g.valid ∧
    match g.pc with
    | .publishing _ _ => g.total = g.valid + g.invalid + 1
    -- Nothing is written from here on.
    | .failing _ | .returned => True
    | _ => g.total = g.valid + g.invalid

theorem Goroutine.balanced_start (flushEvery : ℕ) (file : File) :
    (Goroutine.start flushEvery file).Balanced := ⟨rfl, rfl⟩

theorem Goroutine.Balanced.resume {g g' : Goroutine} {a : Answer} (hI : g.Balanced)
    (h : g.resume a = some g') : g'.Balanced := by
  revert h
  fun_cases Goroutine.resume g a
  all_goals intro h
  all_goals simp only [Option.some.injEq, reduceCtorEq] at h
  all_goals subst h
  all_goals simp only [Goroutine.Balanced, *] at hI ⊢
  case case8 =>
    split_ifs <;> exact ⟨by omega, by dsimp only; omega⟩
  case case14 => split_ifs <;> exact hI
  all_goals first | exact hI | exact ⟨hI.1, trivial⟩ | exact ⟨hI.1, by omega⟩

namespace Importer

/-! ### The record of a job -/

/-- A folded snapshot lowers no total. -/
theorem workers_mono {s s' : State} {a : Label} (h : step s a = some s') (id : GoString) :
    (s.store.workers id).processed.total ≤ (s'.store.workers id).processed.total ∧
      (s.store.workers id).dead.total ≤ (s'.store.workers id).dead.total := by
  rcases workers_step h with hsame | ⟨p, -, hstore⟩
  · rw [hsame]
    exact ⟨le_rfl, le_rfl⟩
  · rw [hstore]
    by_cases hid : id = p.jobID
    · rw [hid, JobStore.workers_upsertWorkerRow_self]
      exact ⟨MaxCounter.total_le_total_raise .., MaxCounter.total_le_total_raise ..⟩
    · rw [JobStore.workers_upsertWorkerRow_of_ne _ _ hid]
      exact ⟨le_rfl, le_rfl⟩

/-! ### The counters of a job -/

/-- The catalog has confirmed what was published. -/
def Covered (j : ImportJob) : Prop := j.publishedRows ≤ j.processedRows + j.deadRows

/-- The rows of the file add up, and every valid one is published. -/
def Adds (j : ImportJob) : Prop :=
  j.totalRows = j.validRows + j.invalidRows ∧ j.publishedRows = j.validRows

/-- At a write that completes the job. -/
def completes : Pc → Bool
  | .completingEmpty | .completing => true
  | _ => false

/-- What holds of the jobs and the goroutines of the importers. -/
structure Reconciled (s : State) : Prop where
  owned : Owned s
  balanced : ∀ id l, s.live id = some l → l.g.Balanced
  adds : ∀ id j, s.store.jobs id = some j → Adds j
  /-- The counters of a job are behind the rows of its workers. -/
  counted : ∀ id j, s.store.jobs id = some j →
    j.processedRows ≤ (s.store.workers id).processed.total ∧
      j.deadRows ≤ (s.store.workers id).dead.total
  ready : ∀ id l j, s.live id = some l → s.store.jobs id = some j →
    completes l.g.pc = true → Covered j
  completed : ∀ id j, s.store.jobs id = some j → j.status = .completed → Covered j

/-- The counters that the callback writes. -/
theorem adds_written {g : Goroutine} {c : Call} {j : ImportJob} (hg : g.Balanced)
    (hc : g.call = some c) (hj : Adds j) (o : Outcome) : Adds (written c o j) := by
  unfold written
  split
  · next p _ =>
    have hp : p = g.progress ∧ g.total = g.valid + g.invalid := by
      unfold Goroutine.call at hc
      unfold Goroutine.Balanced at hg
      cases hpc : g.pc <;> rw [hpc] at hc hg <;> cases hc
      · exact ⟨rfl, hg.2⟩
      · exact ⟨rfl, hg.2⟩
    rw [hp.1]
    exact ⟨hp.2, hg.1⟩
  · exact hj
  · exact hj

/-- A write at which the job stays confirmed: any but one of the counters. -/
theorem Covered.written {c : Call} {j : ImportJob} (hj : Covered j) (o : Outcome)
    (hc : ∀ p, c ≠ .updateProgress p) : Covered (written c o j) := by
  unfold Importer.written
  split
  · next p _ => exact absurd rfl (hc p)
  · exact hj
  · exact hj

/-! ### Steps -/

variable {s s' : State} {a : Label}

theorem balanced_step (hI : ∀ id l, s.live id = some l → l.g.Balanced)
    (h : step s a = some s') : ∀ id l, s'.live id = some l → l.g.Balanced := by
  intro id l' hl'
  rcases live_step h hl' with ⟨hl, -⟩ | ⟨p, n, file, -, -, -, rfl⟩ | ⟨l, -, hl, -, rfl⟩ |
    ⟨l, now, o, c, g, -, hl, -, -, hg, -, rfl⟩ | ⟨l, j, stale, g, -, hl, -, hg, -, rfl⟩
  · exact hI id l' hl
  · exact Goroutine.balanced_start n file
  · exact hI id l hl
  · exact (hI id l hl).resume hg
  · exact (hI id l hl).resume hg

/-- A goroutine that makes a call has not completed its job. -/
theorem Owned.not_completed {id : GoString} {l : Live} {j : ImportJob} {c : Call} (hO : Owned s)
    (hl : s.live id = some l) (hj : s.store.jobs id = some j) (hc : l.g.call = some c) :
    j.status ≠ .completed := by
  intro hst
  obtain ⟨j', hj', hacc⟩ := hO id l hl
  obtain rfl := Option.some.inj (hj.symm.trans hj')
  have hpc : l.g.pc ≠ .returned := by
    intro hpc
    rw [Goroutine.call, hpc] at hc
    cases hc
  rcases hacc.status_cases hpc with h | h | h <;> rw [hst] at h <;> cases h

/-- The last call before a write that completes the job. -/
theorem confirmed_of_call {g g' : Goroutine} {c : Call} {o : Outcome} {j : ImportJob}
    (hc : g.call = some c) (hg : g.resume o.answer = some g') (hpc : completes g'.pc = true) :
    Covered (written c o j) := by
  have hm := Goroutine.moves_of_resume hg
  cases hpc' : g'.pc with
  | completing =>
    rw [hpc'] at hm
    generalize ho : o.answer = answer at hm
    generalize g.pc = pc at hm
    cases hm with
    | early _ _ _ he => cases he
    | confirmed => cases o <;> cases ho
  | completingEmpty =>
    -- The counters have just been written, and no row has been published.
    obtain ⟨-, ⟨-, hne⟩ | ⟨hsave, hok, hzero⟩⟩ := Goroutine.resume_totaled hg (by rw [hpc']; rfl)
    · exact absurd hpc' hne
    · obtain rfl : o = .ok := by
        cases o with
        | ok => rfl
        | err e applied => cases hok
      rw [Goroutine.call, hsave] at hc
      cases hc
      change g.published ≤ _
      rw [hzero hpc']
      exact Nat.zero_le _
  | _ => rw [hpc'] at hpc; cases hpc

/-- The last read before a write that completes the job. -/
theorem confirmed_of_read {g g' : Goroutine} {j : ImportJob} {stale : Bool}
    (hg : g.resume (.job j stale) = some g') (hpc : completes g'.pc = true) : Covered j := by
  have hm := Goroutine.moves_of_resume hg
  cases hpc' : g'.pc with
  | completing =>
    rw [hpc'] at hm
    generalize g.pc = pc at hm
    cases hm with
    | early _ _ _ he => cases he
    | confirmed _ hle => exact hle
  | completingEmpty =>
    obtain ⟨-, ⟨-, hne⟩ | ⟨-, hok, -⟩⟩ := Goroutine.resume_totaled hg (by rw [hpc']; rfl)
    · exact absurd hpc' hne
    · cases hok
  | _ => rw [hpc'] at hpc; cases hpc

theorem ready_step (hI : Reconciled s) (h : step s a = some s') {id : GoString} {l' : Live}
    {j' : ImportJob} (hl' : s'.live id = some l') (hj' : s'.store.jobs id = some j')
    (hpc : completes l'.g.pc = true) : Covered j' := by
  rcases live_step h hl' with ⟨hl, hcall⟩ | ⟨p, n, file, -, -, -, rfl⟩ | ⟨l, -, hl, hstore, rfl⟩ |
    ⟨l, now, o, c, g, -, hl, hc, -, hg, hstore, rfl⟩ | ⟨l, j, stale, g, -, hl, hj, hg, hstore, rfl⟩
  · obtain ⟨j, hj, -⟩ := hI.owned id l' hl
    have hready := hI.ready id l' j hl hj hpc
    obtain ⟨j'', hj'', hnext⟩ := job_next h hj
    obtain rfl := Option.some.inj (hj''.symm.trans hj')
    rcases hnext with rfl | ⟨p, -, -, rfl⟩ | ⟨now, o, l, c, ha, -⟩ | ⟨-, -, rfl⟩
    · exact hready
    · exact hready
    · exact absurd ha (hcall now o)
    · -- The fold can only raise what the workers have reported.
      obtain ⟨hprocessed, hdead⟩ := hI.counted id j hj
      exact Nat.le_trans hready (Nat.add_le_add hprocessed hdead)
  · cases hpc
  · rw [hstore] at hj'
    exact hI.ready id l j' hl hj' hpc
  · obtain ⟨j, hj, -⟩ := hI.owned id l hl
    rw [hstore, jobs_storeAfter_self hj] at hj'
    cases hj'
    exact confirmed_of_call hc hg hpc
  · rw [hstore, hj] at hj'
    cases hj'
    exact confirmed_of_read hg hpc

theorem completed_step (hI : Reconciled s) (h : step s a = some s') {id : GoString}
    {j' : ImportJob} (hj' : s'.store.jobs id = some j') (hst : j'.status = .completed) :
    Covered j' := by
  cases hj : s.store.jobs id with
  | none =>
    obtain ⟨-, rfl⟩ := job_fresh h hj hj'
    cases hst
  | some j =>
    obtain ⟨j'', hj'', hnext⟩ := job_next h hj
    obtain rfl := Option.some.inj (hj''.symm.trans hj')
    rcases hnext with rfl | ⟨p, -, -, rfl⟩ | ⟨now, o, l, c, -, hl, hc, rfl⟩ | ⟨-, hopen, rfl⟩
    · exact hI.completed id j'' hj hst
    · cases hst
    · have hopen := hI.owned.not_completed hl hj hc
      -- Only a status write completes, and it does so at the one place that has seen the counts.
      have hwritten : ∃ lastErr, c = .updateStatus .completed lastErr := by
        unfold written at hst
        split at hst
        · exact absurd hst hopen
        · next next lastErr _ => exact ⟨lastErr, by rw [show next = .completed from hst]⟩
        · exact absurd hst hopen
      obtain ⟨lastErr, rfl⟩ := hwritten
      have hpc : completes l.g.pc = true := by
        rcases Goroutine.call_updateStatus hc with ⟨hpc, -⟩ | ⟨-, hnext, -⟩ | ⟨hpc, -⟩ |
          ⟨cause, -, hnext, -⟩
        · rw [hpc]; rfl
        · cases hnext
        · rw [hpc]; rfl
        · cases hnext
      exact (hI.ready id l j hl hj hpc).written o (by simp)
    · rw [show j.status = .completed from hst] at hopen
      cases hopen

theorem adds_step (hI : Reconciled s) (h : step s a = some s') {id : GoString} {j' : ImportJob}
    (hj' : s'.store.jobs id = some j') : Adds j' := by
  cases hj : s.store.jobs id with
  | none =>
    obtain ⟨-, rfl⟩ := job_fresh h hj hj'
    exact ⟨rfl, rfl⟩
  | some j =>
    have hadds := hI.adds id j hj
    obtain ⟨j'', hj'', hnext⟩ := job_next h hj
    obtain rfl := Option.some.inj (hj''.symm.trans hj')
    rcases hnext with rfl | ⟨p, -, -, rfl⟩ | ⟨now, o, l, c, -, hl, hc, rfl⟩ | ⟨-, -, rfl⟩
    · exact hadds
    · exact hadds
    · exact adds_written (hI.balanced id l hl) hc hadds o
    · exact hadds

theorem counted_step (hI : Reconciled s) (h : step s a = some s') {id : GoString}
    {j' : ImportJob} (hj' : s'.store.jobs id = some j') :
    j'.processedRows ≤ (s'.store.workers id).processed.total ∧
      j'.deadRows ≤ (s'.store.workers id).dead.total := by
  cases hj : s.store.jobs id with
  | none =>
    obtain ⟨-, rfl⟩ := job_fresh h hj hj'
    exact ⟨Nat.zero_le _, Nat.zero_le _⟩
  | some j =>
    obtain ⟨hprocessed, hdead⟩ := hI.counted id j hj
    obtain ⟨hmore, hmore'⟩ := workers_mono h id
    obtain ⟨j'', hj'', -, hcounters⟩ := counters_step h hj
    obtain rfl := Option.some.inj (hj''.symm.trans hj')
    rcases hcounters with ⟨hsame, hsame'⟩ | ⟨-, htotal, htotal'⟩
    · rw [hsame, hsame']
      exact ⟨Nat.le_trans hprocessed hmore, Nat.le_trans hdead hmore'⟩
    · rw [htotal, htotal']
      exact ⟨hmore, hmore'⟩

/-- **One step.** -/
theorem reconciled_step (hI : Reconciled s) (h : step s a = some s') : Reconciled s' where
  owned := owned_step hI.owned h
  balanced := balanced_step hI.balanced h
  adds _ _ := adds_step hI h
  counted _ _ := counted_step hI h
  ready _ _ _ := ready_step hI h
  completed _ _ := completed_step hI h

/-- **Every run.** -/
theorem reconciled_of_run {as : List Label} (h : exec step initial as = some s) :
    Reconciled s := by
  refine exec_invariant (fun _ _ _ hI hs => reconciled_step hI hs) ?_ h
  exact ⟨by rintro id l ⟨⟩, by rintro id l ⟨⟩, by rintro id j ⟨⟩, by rintro id j ⟨⟩,
    by rintro id l j ⟨⟩, by rintro id j ⟨⟩⟩

/-! ### What is shown -/

/-- The report and the metrics of a job go together, and hide nothing of a completed
import. -/
structure Consistent (r : ReportResponse) (m : Metrics) : Prop where
  rows : r.rows.total = r.rows.valid + r.rows.invalid
  published : r.events.published = r.rows.valid
  state : r.reconciliation.state ≠ .discrepancy
  inFlight : m.eventsInFlight = r.reconciliation.unconfirmed
  complete : r.status = "completed" →
    r.reconciliation.state = .complete ∧ r.reconciliation.unconfirmed = 0 ∧
      m.zeroLoss ≠ some false

theorem externalStatus_eq_completed {st : Status} (h : externalStatus st = "completed") :
    st = .completed := by
  revert h
  cases st <;> decide

/-- The report of a completed import that the catalog has confirmed. -/
theorem reconciliation_of_confirmed {j : ImportJob} (h : Covered j) (hst : j.status = .completed)
    (id fileName : GoString) : (buildReport id fileName j).reconciliation.state = .complete ∧
      (buildReport id fileName j).reconciliation.unconfirmed = 0 := by
  have hzero : (buildReport id fileName j).reconciliation.unconfirmed = 0 := by
    unfold Covered at h
    simp only [buildReport]
    split <;> omega
  refine ⟨?_, hzero⟩
  simp only [buildReport] at hzero ⊢
  rw [if_neg (by simp [hst]), if_pos hst, if_pos hzero]

/-- Only a completed import can show a discrepancy. -/
theorem completed_of_discrepancy {j : ImportJob} {id fileName : GoString}
    (h : (buildReport id fileName j).reconciliation.state = .discrepancy) :
    j.status = .completed := by
  by_contra hst
  simp only [buildReport, if_neg hst] at h
  split at h <;> cases h

/-- **Every report balances, and that of a completed import is complete**, however many
importer processes are started and stopped, and whatever their calls come to. -/
theorem report_of_run {as : List Label} (h : exec step initial as = some s) {id : GoString}
    {j : ImportJob} (hj : s.store.jobs id = some j) (fileName : GoString) :
    Consistent (buildReport id fileName j) (snapshot id fileName j) := by
  have hI := reconciled_of_run h
  obtain ⟨htotal, hpublished⟩ := hI.adds id j hj
  refine ⟨htotal, hpublished, ?_, ?_, fun hst => ?_⟩
  · intro hstate
    have hst := completed_of_discrepancy hstate
    have hcomplete := (reconciliation_of_confirmed (hI.completed id j hj hst) hst id fileName).1
    rw [hcomplete] at hstate
    cases hstate
  · simp only [snapshot, buildReport, Nat.cast_add]
    split <;> split <;> omega
  · have hcompleted : j.status = .completed := externalStatus_eq_completed hst
    have hconfirmed := hI.completed id j hj hcompleted
    obtain ⟨hcomplete, hzero⟩ := reconciliation_of_confirmed hconfirmed hcompleted id fileName
    refine ⟨hcomplete, hzero, ?_⟩
    have hle : j.processedRows + j.deadRows ≥ j.publishedRows := hconfirmed
    simp only [snapshot]
    split
    · simp [hle]
    · simp

/-- The record of a completed import, after one step. -/
theorem record_step (hO : Owned s) (h : step s a = some s') {id : GoString} {j : ImportJob}
    (hj : s.store.jobs id = some j) (hst : j.status = .completed) :
    s'.store.jobs id = some j := by
  obtain ⟨j', hj', rfl | ⟨p, -, hpre, -⟩ | ⟨now, o, l, c, -, hl, hc, -⟩ | ⟨-, hopen, -⟩⟩ :=
    job_next h hj
  · exact hj'
  · rw [hst] at hpre
    cases hpre
  · exact absurd hst (hO.not_completed hl hj hc)
  · rw [hst] at hopen
    cases hopen

/-- **The record of a completed import is final**: nothing that any process or the tracker
does later changes it. -/
theorem completed_final {as bs : List Label} {t : State} (h : exec step initial as = some s)
    (hrest : exec step s bs = some t) {id : GoString} {j : ImportJob}
    (hj : s.store.jobs id = some j) (hst : j.status = .completed) :
    t.store.jobs id = some j := by
  have hfinal : Owned t ∧ t.store.jobs id = some j := by
    refine exec_invariant (I := fun u => Owned u ∧ u.store.jobs id = some j) ?_
      ⟨owned_of_run h, hj⟩ hrest
    exact fun u b v hI hv => ⟨owned_step hI.1 hv, record_step hI.1 hv hI.2 hst⟩
  exact hfinal.2

/-! ### A run -/

/-- One row is imported and dead-lettered. -/
def oneRowRun : List Label :=
  [.start 0, .startImport 0 someJobID 1 { rows := [plainRow] }] ++
    List.replicate 8 (.call someJobID 0 .ok) ++
    [.foldRow ⟨someJobID, lit "w", 0, 0, 1⟩, .foldTotals someJobID, .call someJobID 0 .ok,
      .read someJobID false, .call someJobID 0 .ok]

/-- The importer is restarted, and a late snapshot reaches it. -/
def restartRun : List Label :=
  [.stop 0, .start 1, .foldRow ⟨someJobID, lit "w", 5, 2, 1⟩, .foldTotals someJobID]

def oneRowJob : ImportJob :=
  { status := .completed, totalRows := 1, validRows := 1, publishedRows := 1, deadRows := 1 }

theorem completed_final_one_row : ∃ s t,
    exec step initial oneRowRun = some s ∧ exec step s restartRun = some t ∧
      s.store.jobs someJobID = some oneRowJob ∧ t.store.jobs someJobID = some oneRowJob := by
  have hrun : ∃ s, exec step initial oneRowRun = some s ∧
      s.store.jobs someJobID = some oneRowJob ∧ ∃ t, exec step s restartRun = some t :=
    ⟨_, rfl, rfl, _, rfl⟩
  obtain ⟨s, hs, hj, t, ht⟩ := hrun
  exact ⟨s, t, hs, ht, hj, completed_final hs ht hj rfl⟩

theorem report_of_run_one_row : ∃ s, exec step initial oneRowRun = some s ∧
    s.store.jobs someJobID = some oneRowJob ∧
      Consistent (buildReport someJobID (lit "pens.csv") oneRowJob)
        (snapshot someJobID (lit "pens.csv") oneRowJob) := by
  have hrun : ∃ s, exec step initial oneRowRun = some s ∧
      s.store.jobs someJobID = some oneRowJob := ⟨_, rfl, rfl⟩
  obtain ⟨s, hs, hj⟩ := hrun
  exact ⟨s, hs, hj, report_of_run hs hj (lit "pens.csv")⟩

end Importer

end CsvProductUploader

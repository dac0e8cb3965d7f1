import CsvProductUploader.ImportJob.JobStore
import CsvProductUploader.Lib.Runs

/-!
# The progress ledger of a job

The progress tracker folds one snapshot of a job at a time, with two statements, and may
be cut off between them; snapshots come back in any order and number.  The import writes
its own counters meanwhile.

## Main definitions

* `Folding.State`, `Folding.Label`, `Folding.step` — the statements on the job store, one
  at a time.
* `delivered`, `lastProgress` — what a run has delivered for a job, and the last
  `UpdateProgress` of it.
* `Ledger` — the ledger of a job against the history of the run.

## Main results

* `ledger_step`, `ledger_run` — the ledger is kept.
* `ledger_converges` — once a fold has completed, the counters are those of the snapshots
  delivered, and no fold lowers any.
* `Converged.unique` — neither the order of the snapshots nor their number matters.
-/

namespace CsvProductUploader

open MaxCounter Runs

/-- The counters of a job. -/
def ImportJob.counters (j : ImportJob) : List ℕ :=
  [j.totalRows, j.validRows, j.invalidRows, j.publishedRows, j.processedRows, j.retriedRows,
    j.deadRows]

/-- The rows of the workers after the snapshots of a list. -/
def WorkerRows.of (l : List ImportProgress) : WorkerRows := l.foldl WorkerRows.report {}

/-- The sums of the three columns fit a `BIGINT`, which is what they are assigned to. -/
def WorkerRows.Fit (rows : WorkerRows) : Prop :=
  rows.processed.total < 2 ^ 63 ∧ rows.retried.total < 2 ^ 63 ∧ rows.dead.total < 2 ^ 63

instance (rows : WorkerRows) : Decidable rows.Fit := inferInstanceAs (Decidable (_ ∧ _))

namespace Folding

/-- Where `ApplyProgress` is with the snapshots of a job. -/
inductive Phase
  | idle
  /-- The first statement has been executed. -/
  | half (p : ImportProgress)
  /-- The call ended after the first statement: by a crash, or as the second one failed. -/
  | cut (p : ImportProgress)
  deriving DecidableEq, Repr

structure State where
  store : JobStore
  phase : GoString → Phase

/-- The statements that the importer executes. -/
inductive Label
  /-- A snapshot is delivered, and the first statement of its fold executed. -/
  | deliver (p : ImportProgress)
  /-- The second statement. -/
  | finish (id : GoString)
  | interrupt (id : GoString)
  | updateProgress (id : GoString) (p : Progress)
  | updateStatus (id : GoString) (next : Status) (lastErr : Option String)
  | failStale (reason : String)
  | create (id : GoString) (status : Status)
  deriving DecidableEq, Repr

/-- One statement.  The second one of a fold fails where the sums do not fit. -/
def step (s : State) : Label → Option State
  | .deliver p =>
    match s.phase p.jobID with
    | .half _ => none
    | .idle | .cut _ => some {
        store := s.store.upsertWorkerRow p
        phase := Function.update s.phase p.jobID (.half p) }
  | .finish id =>
    match s.phase id with
    | .half _ =>
      if (s.store.workers id).Fit then some {
        store := s.store.recomputeTotals id
        phase := Function.update s.phase id .idle }
      else none
    | .idle | .cut _ => none
  | .interrupt id =>
    match s.phase id with
    | .half p => some { s with phase := Function.update s.phase id (.cut p) }
    | .idle | .cut _ => none
  | .updateProgress id p => some { s with store := s.store.updateProgress id p }
  | .updateStatus id next lastErr => some { s with store := s.store.updateStatus id next lastErr }
  | .failStale reason => some { s with store := s.store.failStale reason }
  | .create id status =>
    if (s.store.jobs id).isNone then some { s with store := s.store.create id status } else none

/-- The job has just been created in the store. -/
def start (store : JobStore) (id : GoString) (status : Status) : State :=
  ⟨store.create id status, fun _ => .idle⟩

/-- The statement is one of a fold. -/
def Label.ofFold : Label → Bool
  | .deliver _ | .finish _ | .interrupt _ => true
  | _ => false

/-- The job is not terminal before the step. -/
def Open (id : GoString) (s : State) (_ : Label) : Prop :=
  ∀ j, s.store.jobs id = some j → j.status.terminal = false

instance (id : GoString) (s : State) (a : Label) : Decidable (Open id s a) :=
  match h : s.store.jobs id with
  | none => isTrue fun j hj => by simp [h] at hj
  | some j => decidable_of_iff (j.status.terminal = false) (by simp [Open, h])

/-- The snapshot of the job that a label delivers. -/
def Label.snapshot (id : GoString) : Label → Option ImportProgress
  | .deliver p => if p.jobID = id then some p else none
  | _ => none

/-- The snapshots of the job that a run delivers. -/
def delivered (id : GoString) (as : List Label) : List ImportProgress :=
  as.filterMap (Label.snapshot id)

/-- The counters of the job after a label, if that writes them. -/
def Label.overwrite (id : GoString) (last : Progress) : Label → Progress
  | .updateProgress id' p => if id' = id then p else last
  | _ => last

/-- The last counters of the job that a run writes with `UpdateProgress`, from zero. -/
def lastProgress (id : GoString) (as : List Label) : Progress :=
  as.foldl (Label.overwrite id) ⟨0, 0, 0, 0⟩

/-! ### The history of a run -/

theorem delivered_snoc (id : GoString) (as : List Label) (a : Label) :
    delivered id (as ++ [a]) = delivered id as ++ (a.snapshot id).toList := by
  unfold delivered
  rw [List.filterMap_append]
  cases h : a.snapshot id with
  | none => simp [h]
  | some p => simp [h]

/-- A statement other than a delivery for the job. -/
theorem delivered_snoc_of_none {id : GoString} {a : Label} (h : a.snapshot id = none)
    (as : List Label) : delivered id (as ++ [a]) = delivered id as := by
  rw [delivered_snoc, h]
  exact List.append_nil _

theorem lastProgress_snoc (id : GoString) (as : List Label) (a : Label) :
    lastProgress id (as ++ [a]) = a.overwrite id (lastProgress id as) := by
  unfold lastProgress
  rw [List.foldl_append, List.foldl_cons, List.foldl_nil]

theorem of_append_singleton (l : List ImportProgress) (p : ImportProgress) :
    WorkerRows.of (l ++ [p]) = (WorkerRows.of l).report p := by
  unfold WorkerRows.of
  rw [List.foldl_append, List.foldl_cons, List.foldl_nil]

/-- The rows of the workers hold what has been announced, column by column. -/
theorem of_eq_announce (l : List ImportProgress) :
    WorkerRows.of l = {
      processed := MaxCounter.empty.announce (l.map fun p => (p.workerID, p.processedRows))
      retried := MaxCounter.empty.announce (l.map fun p => (p.workerID, p.retriedRows))
      dead := MaxCounter.empty.announce (l.map fun p => (p.workerID, p.deadRows)) } := by
  induction l using List.reverseRecOn with
  | nil => rfl
  | append_singleton l p ih =>
    rw [of_append_singleton, ih]
    simp [WorkerRows.report, announce_append]

/-! ### The ledger -/

/-- The counters of the job are the sums over its workers. -/
def Totaled (j : ImportJob) (rows : WorkerRows) : Prop :=
  j.processedRows = rows.processed.total ∧ j.retriedRows = rows.retried.total ∧
    j.deadRows = rows.dead.total

/-- The counters of the job are at most the sums over its workers. -/
def Within (j : ImportJob) (rows : WorkerRows) : Prop :=
  j.processedRows ≤ rows.processed.total ∧ j.retriedRows ≤ rows.retried.total ∧
    j.deadRows ≤ rows.dead.total

theorem Totaled.within {j : ImportJob} {rows : WorkerRows} (h : Totaled j rows) :
    Within j rows := by
  obtain ⟨hprocessed, hretried, hdead⟩ := h
  unfold Within
  omega

theorem Within.report {j : ImportJob} {rows : WorkerRows} (h : Within j rows)
    (p : ImportProgress) : Within j (rows.report p) := by
  obtain ⟨hprocessed, hretried, hdead⟩ := h
  have hprocessed' := rows.processed.total_le_total_raise p.workerID p.processedRows
  have hretried' := rows.retried.total_le_total_raise p.workerID p.retriedRows
  have hdead' := rows.dead.total_le_total_raise p.workerID p.deadRows
  simp only [Within, WorkerRows.report]
  omega

/-- The counters of the job against what the run has done. -/
structure Settled (id : GoString) (as : List Label) (s : State) (j : ImportJob) : Prop where
  progress : j.progress = lastProgress id as
  within : Within j (WorkerRows.of (delivered id as))
  totaled : s.phase id = .idle → Totaled j (WorkerRows.of (delivered id as))

/-- The ledger of a job: the rows of its workers hold every snapshot delivered, and the
job does once its folds have completed. -/
structure Ledger (id : GoString) (as : List Label) (s : State) : Prop where
  rows : s.store.workers id = WorkerRows.of (delivered id as)
  job : ∃ j, s.store.jobs id = some j ∧ Settled id as s j

theorem ledger_start {store : JobStore} {id : GoString} {status : Status}
    (hrows : store.workers id = {}) : Ledger id [] (start store id status) where
  rows := hrows
  job := by
    refine ⟨{ status }, ?_, ?_⟩
    · rw [start, JobStore.jobs_create, if_pos rfl]
    · have htotaled : Totaled { status } (WorkerRows.of []) := ⟨rfl, rfl, rfl⟩
      exact { progress := rfl, within := htotaled.within, totaled := fun _ => htotaled }

/-- A statement about other jobs. -/
theorem Ledger.frame {id : GoString} {as : List Label} {a : Label} {s s' : State}
    (h : Ledger id as s) (hrows : s'.store.workers id = s.store.workers id)
    (hjobs : s'.store.jobs id = s.store.jobs id) (hphase : s'.phase id = s.phase id)
    (hsnapshot : a.snapshot id = none) (hoverwrite : ∀ last, a.overwrite id last = last) :
    Ledger id (as ++ [a]) s' := by
  have hdelivered : delivered id (as ++ [a]) = delivered id as :=
    delivered_snoc_of_none hsnapshot as
  obtain ⟨j, hj, hsettled⟩ := h.job
  refine ⟨by rw [hrows, hdelivered, h.rows], j, by rw [hjobs, hj], ?_⟩
  refine ⟨?_, ?_, ?_⟩
  · rw [lastProgress_snoc, hoverwrite, hsettled.progress]
  · rw [hdelivered]
    exact hsettled.within
  · rw [hdelivered, hphase]
    exact hsettled.totaled

/-- A statement that leaves the progress of the job to the import and its workers. -/
theorem Ledger.advance {id : GoString} {as : List Label} {a : Label} {s s' : State}
    (h : Ledger id as s) (hrows : s'.store.workers = s.store.workers)
    (hjobs : ∃ f : ImportJob → ImportJob, s'.store.jobs id = (s.store.jobs id).map f ∧
      ∀ j, (f j).counters = j.counters)
    (hphase : s'.phase = s.phase) (hsnapshot : a.snapshot id = none)
    (hoverwrite : ∀ last, a.overwrite id last = last) : Ledger id (as ++ [a]) s' := by
  have hdelivered : delivered id (as ++ [a]) = delivered id as :=
    delivered_snoc_of_none hsnapshot as
  obtain ⟨j, hj, hsettled⟩ := h.job
  obtain ⟨f, hf, hcounters⟩ := hjobs
  refine ⟨by rw [hrows, hdelivered, h.rows], f j, by rw [hf, hj, Option.map_some], ?_⟩
  have hfj := hcounters j
  simp only [ImportJob.counters, List.cons.injEq, and_true] at hfj
  obtain ⟨h1, h2, h3, h4, h5, h6, h7⟩ := hfj
  refine ⟨?_, ?_, ?_⟩
  · rw [lastProgress_snoc, hoverwrite, ← hsettled.progress, ImportJob.progress, h1, h2, h3, h4]
    rfl
  · rw [hdelivered, Within, h5, h6, h7]
    exact hsettled.within
  · rw [hdelivered, hphase, Totaled, h5, h6, h7]
    exact hsettled.totaled

theorem step_deliver {s s' : State} {p : ImportProgress} (h : step s (.deliver p) = some s') :
    s' = { store := s.store.upsertWorkerRow p
           phase := Function.update s.phase p.jobID (.half p) } := by
  simp only [step] at h
  split at h
  · cases h
  · exact (Option.some.inj h).symm
  · exact (Option.some.inj h).symm

theorem step_finish {s s' : State} {id : GoString} (h : step s (.finish id) = some s') :
    s' = { store := s.store.recomputeTotals id, phase := Function.update s.phase id .idle } := by
  simp only [step] at h
  split at h
  · split at h
    · exact (Option.some.inj h).symm
    · cases h
  · cases h
  · cases h

theorem step_interrupt {s s' : State} {id : GoString} (h : step s (.interrupt id) = some s') :
    ∃ p, s' = { s with phase := Function.update s.phase id (.cut p) } := by
  simp only [step] at h
  split at h
  · next p _ => exact ⟨p, (Option.some.inj h).symm⟩
  · cases h
  · cases h

/-- The job after the second statement of a fold. -/
theorem jobs_finish {s : JobStore} {id : GoString} {j : ImportJob} (hj : s.jobs id = some j)
    (hopen : j.status.terminal = false) :
    (s.recomputeTotals id).jobs id = some { j with
      processedRows := (s.workers id).processed.total
      retriedRows := (s.workers id).retried.total
      deadRows := (s.workers id).dead.total } := by
  rw [JobStore.recomputeTotals, JobStore.jobs_modify_self, hj, Option.map_some,
    if_neg (by simp [hopen])]

/-- **One statement keeps the ledger.** -/
theorem ledger_step {id : GoString} {as : List Label} {s s' : State} {a : Label}
    (hI : Ledger id as s) (hopen : Open id s a) (h : step s a = some s') :
    Ledger id (as ++ [a]) s' := by
  cases a with
  | deliver p =>
    obtain rfl := step_deliver h
    by_cases hid : p.jobID = id
    · -- The snapshot goes into the row of its worker; the totals are not right until `finish`.
      have hdelivered : delivered id (as ++ [.deliver p]) = delivered id as ++ [p] := by
        rw [delivered_snoc, Label.snapshot, if_pos hid]
        rfl
      obtain ⟨j, hj, hsettled⟩ := hI.job
      refine ⟨?_, j, hj, ?_, ?_, ?_⟩
      · subst hid
        rw [hdelivered, of_append_singleton, ← hI.rows]
        exact JobStore.workers_upsertWorkerRow_self ..
      · rw [lastProgress_snoc]
        exact hsettled.progress
      · rw [hdelivered, of_append_singleton]
        exact hsettled.within.report p
      · intro hidle
        subst hid
        simp at hidle
    · refine hI.frame ?_ rfl ?_ (if_neg hid) fun _ => rfl
      · exact JobStore.workers_upsertWorkerRow_of_ne _ _ (Ne.symm hid)
      · exact Function.update_of_ne (Ne.symm hid) ..
  | finish id' =>
    obtain rfl := step_finish h
    by_cases hid : id = id'
    · subst hid
      have hdelivered : delivered id (as ++ [.finish id]) = delivered id as :=
        delivered_snoc_of_none rfl as
      obtain ⟨j, hj, hsettled⟩ := hI.job
      -- The totals are those of the rows at this moment, whatever was folded twice before.
      have htotaled : Totaled { j with
          processedRows := (s.store.workers id).processed.total
          retriedRows := (s.store.workers id).retried.total
          deadRows := (s.store.workers id).dead.total } (WorkerRows.of (delivered id as)) := by
        rw [hI.rows]
        exact ⟨rfl, rfl, rfl⟩
      refine ⟨?_, _, jobs_finish hj (hopen j hj), ?_, ?_, ?_⟩
      · rw [hdelivered]
        exact hI.rows
      · rw [lastProgress_snoc]
        exact hsettled.progress
      · rw [hdelivered]
        exact htotaled.within
      · intro _
        rw [hdelivered]
        exact htotaled
    · refine hI.frame rfl ?_ ?_ rfl fun _ => rfl
      · exact JobStore.jobs_modify_of_ne _ _ hid
      · exact Function.update_of_ne hid ..
  | interrupt id' =>
    obtain ⟨p, rfl⟩ := step_interrupt h
    by_cases hid : id = id'
    · subst hid
      have hdelivered : delivered id (as ++ [.interrupt id]) = delivered id as :=
        delivered_snoc_of_none rfl as
      obtain ⟨j, hj, hsettled⟩ := hI.job
      refine ⟨?_, j, hj, ?_, ?_, ?_⟩
      · rw [hdelivered]
        exact hI.rows
      · rw [lastProgress_snoc]
        exact hsettled.progress
      · rw [hdelivered]
        exact hsettled.within
      · -- The fold is abandoned half-way, so that nothing is claimed about the totals.
        intro hidle
        simp at hidle
    · refine hI.frame rfl rfl ?_ rfl fun _ => rfl
      exact Function.update_of_ne hid ..
  | updateProgress id' p =>
    obtain rfl := Option.some.inj h
    by_cases hid : id' = id
    · subst hid
      have hdelivered : delivered id' (as ++ [.updateProgress id' p]) = delivered id' as :=
        delivered_snoc_of_none rfl as
      obtain ⟨j, hj, hsettled⟩ := hI.job
      refine ⟨?_, _, by rw [JobStore.updateProgress, JobStore.jobs_modify_self, hj,
          Option.map_some],
        ?_, ?_, ?_⟩
      · rw [hdelivered]
        exact hI.rows
      · rw [lastProgress_snoc, Label.overwrite, if_pos rfl]
        rfl
      · rw [hdelivered]
        exact hsettled.within
      · rw [hdelivered]
        exact hsettled.totaled
    · refine hI.frame rfl ?_ rfl rfl fun _ => if_neg hid
      exact JobStore.jobs_modify_of_ne _ _ (Ne.symm hid)
  | updateStatus id' next lastErr =>
    obtain rfl := Option.some.inj h
    by_cases hid : id = id'
    · subst hid
      exact hI.advance rfl ⟨_, JobStore.jobs_modify_self .., fun _ => rfl⟩ rfl rfl fun _ => rfl
    · exact hI.frame rfl (JobStore.jobs_modify_of_ne _ _ hid) rfl rfl fun _ => rfl
  | failStale reason =>
    obtain rfl := Option.some.inj h
    refine hI.advance rfl ⟨_, JobStore.jobs_failStale .., ?_⟩ rfl rfl fun _ => rfl
    intro j
    split <;> rfl
  | create id' status =>
    simp only [step] at h
    split at h
    · next hnone =>
      obtain rfl := Option.some.inj h
      have hid : id ≠ id' := by
        rintro rfl
        obtain ⟨j, hj, -⟩ := hI.job
        rw [hj] at hnone
        cases hnone
      refine hI.frame rfl ?_ rfl rfl fun _ => rfl
      rw [JobStore.jobs_create, if_neg hid]
    · cases h

theorem ledger_run {store : JobStore} {id : GoString} {status : Status} {as : List Label}
    {s : State} (hrows : store.workers id = {})
    (hopen : Meets step (Open id) (start store id status) as)
    (h : exec step (start store id status) as = some s) : Ledger id as s :=
  exec_history_of_meets (fun _ _ _ _ => ledger_step) (ledger_start hrows) hopen h

/-- No statement of a fold lowers a counter. -/
theorem counters_le_of_fold {id : GoString} {as : List Label} {s s' : State} {a : Label}
    {j j' : ImportJob} (hI : Ledger id as s) (hopen : Open id s a) (hfold : a.ofFold = true)
    (h : step s a = some s') (hj : s.store.jobs id = some j) (hj' : s'.store.jobs id = some j') :
    List.Forall₂ (· ≤ ·) j.counters j'.counters := by
  have hself : s'.store.jobs id = s.store.jobs id →
      List.Forall₂ (· ≤ ·) j.counters j'.counters := by
    intro hsame
    rw [hsame, hj] at hj'
    obtain rfl := Option.some.inj hj'
    exact List.forall₂_same.mpr fun _ _ => Nat.le_refl _
  cases a with
  | deliver p =>
    obtain rfl := step_deliver h
    exact hself rfl
  | interrupt id' =>
    obtain ⟨p, rfl⟩ := step_interrupt h
    exact hself rfl
  | finish id' =>
    obtain rfl := step_finish h
    by_cases hid : id = id'
    · subst hid
      obtain ⟨j₀, hj₀, hsettled⟩ := hI.job
      obtain rfl := Option.some.inj (hj.symm.trans hj₀)
      have hnew := jobs_finish hj (hopen j hj)
      obtain rfl := Option.some.inj (hj'.symm.trans hnew)
      -- The totals before were of fewer snapshots.
      obtain ⟨hprocessed, hretried, hdead⟩ := hsettled.within
      rw [← hI.rows] at hprocessed hretried hdead
      simp [ImportJob.counters, hprocessed, hretried, hdead]
    · exact hself (JobStore.jobs_modify_of_ne _ _ hid)
  | updateProgress | updateStatus | failStale | create => cases hfold

/-- What the job reports once a fold has completed: of each worker, the greatest value of
the snapshots delivered. -/
def Converged (j : ImportJob) (l : List ImportProgress) : Prop :=
  j.processedRows = sumGreatest (l.map fun p => (p.workerID, p.processedRows)) ∧
    j.retriedRows = sumGreatest (l.map fun p => (p.workerID, p.retriedRows)) ∧
      j.deadRows = sumGreatest (l.map fun p => (p.workerID, p.deadRows))

theorem Settled.converged {id : GoString} {as : List Label} {s : State} {j : ImportJob}
    (h : Settled id as s j) (hidle : s.phase id = .idle) : Converged j (delivered id as) := by
  obtain ⟨hprocessed, hretried, hdead⟩ := h.totaled hidle
  rw [of_eq_announce] at hprocessed hretried hdead
  simp only [total_announce_empty] at hprocessed hretried hdead
  exact ⟨hprocessed, hretried, hdead⟩

/-- Two jobs that have been told the same snapshots, in whatever order and number, report
the same. -/
theorem Converged.unique {j j' : ImportJob} {l l' : List ImportProgress} (h : Converged j l)
    (h' : Converged j' l') (hsame : ∀ p, p ∈ l ↔ p ∈ l') :
    j.processedRows = j'.processedRows ∧ j.retriedRows = j'.retriedRows ∧
      j.deadRows = j'.deadRows := by
  have hcongr : ∀ f : ImportProgress → GoString × ℕ,
      sumGreatest (l.map f) = sumGreatest (l'.map f) := by
    intro f
    apply sumGreatest_congr
    intro e
    simp only [List.mem_map, hsame]
  unfold Converged at h h'
  simp only [hcongr] at h
  omega

/-- **The ledger converges.**  From the creation of a job on, as long as it is not
terminal: whenever a fold has completed since the last delivery, the three counters that
come from the workers are the sums of the greatest values that each worker's snapshots
have had, whatever their order, repetition and interruptions; the other four counters are
those of the last `UpdateProgress`; and no statement of a fold ever lowers a counter. -/
theorem ledger_converges {store : JobStore} {id : GoString} {status : Status} {as : List Label}
    {s : State} (hrows : store.workers id = {})
    (hopen : Meets step (Open id) (start store id status) as)
    (h : exec step (start store id status) as = some s) :
    (∃ j, s.store.jobs id = some j ∧ j.progress = lastProgress id as ∧
        (s.phase id = .idle → Converged j (delivered id as))) ∧
      ∀ bs a cs u v, as = bs ++ a :: cs → exec step (start store id status) bs = some u →
        step u a = some v → a.ofFold = true →
          ∀ j j', u.store.jobs id = some j → v.store.jobs id = some j' →
            List.Forall₂ (· ≤ ·) j.counters j'.counters := by
  constructor
  · obtain ⟨j, hj, hsettled⟩ := (ledger_run hrows hopen h).job
    exact ⟨j, hj, hsettled.progress, hsettled.converged⟩
  · rintro bs a cs u v rfl hbs hstep hfold j j' hj hj'
    obtain ⟨hopenBs, hopenRest⟩ := (meets_append hbs).mp hopen
    have hI := ledger_run hrows hopenBs hbs
    exact counters_le_of_fold hI hopenRest.1 hfold hstep hj hj'

/-- A snapshot of a job. -/
def snapshotOf (workerID : GoString) (processed dead : ℕ) : ImportProgress :=
  ⟨someJobID, workerID, processed, 0, dead⟩

/-- Two workers; one fold is cut off and repeated, an old snapshot returns at the end. -/
def twoWorkers : List Label :=
  [.deliver (snapshotOf (lit "w-1") 4 0), .interrupt someJobID,
    .deliver (snapshotOf (lit "w-1") 4 0), .finish someJobID,
    .deliver (snapshotOf (lit "w-2") 5 1), .updateProgress someJobID ⟨12, 10, 2, 10⟩,
    .finish someJobID, .deliver (snapshotOf (lit "w-1") 3 0), .finish someJobID]

/-- The two workers have processed nine rows. -/
theorem two_workers_converge : ∃ s j,
    exec step (start .initial someJobID .processing) twoWorkers = some s ∧
      s.store.jobs someJobID = some j ∧ j.progress = ⟨12, 10, 2, 10⟩ ∧ j.processedRows = 9 ∧
        j.deadRows = 1 := by
  have hrun : (exec step (start .initial someJobID .processing) twoWorkers).isSome = true := by
    decide
  have hidle : ∀ s, exec step (start .initial someJobID .processing) twoWorkers = some s →
      s.phase someJobID = .idle := by
    rintro s ⟨⟩
    decide
  obtain ⟨s, hs⟩ := Option.isSome_iff_exists.mp hrun
  obtain ⟨⟨j, hj, hprogress, hcounters⟩, -⟩ :=
    @ledger_converges .initial someJobID .processing twoWorkers s rfl (by decide) hs
  obtain ⟨hprocessed, -, hdead⟩ := hcounters (hidle s hs)
  refine ⟨s, j, hs, hj, ?_, ?_, ?_⟩
  · rw [hprogress]
    decide
  · rw [hprocessed]
    decide
  · rw [hdead]
    decide

end Folding

end CsvProductUploader

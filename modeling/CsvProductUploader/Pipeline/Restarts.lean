import CsvProductUploader.Catalog.Coverage
import CsvProductUploader.Pipeline.Completion

/-!
# Counts across restarts

A worker publishes its counters before it commits, so what it has committed outlives it as
a snapshot.  Snapshots count from the start of the process, and are folded as a maximum per
identity: a process that starts again under its old identity counts from zero, and what it
counts disappears under the maximum of its former life.

## Main definitions

* `AllCommitted`, `AllFolded` — the events of a job are committed, its snapshots folded.
* `NotRevived` — a job that another importer has failed is not set to processing again.
* `Folds` — the counters of a job against the folded snapshots.
* `Lossless` — what holds of the group while no identity is reused.

## Main results

* `folds_step` — an invariant of the runs in which the job is not revived.
* `counts_kept` — **no count is lost** in the runs in which no worker starts under an
  identity that has counted for the job.
* `restart_loses_count` — a worker restarted under its identity loses a count.
-/

namespace CsvProductUploader

open Catalog Runs

/-! ### The group -/

namespace Catalog

/-- What holds of the group while no identity is reused for the job. -/
structure Lossless (id : GoString) (s : State) : Prop where
  staged : Staged s
  tallied : Tallied id s
  coverage : Coverage s
  reporting : Reporting s
  backing : Backing id s

section
variable {d : Dialect} {maxPoll : ℕ} {s s' : State} {a : Label} {id : GoString}

theorem lossless_step (hI : Lossless id s) (hC : NoReuse id s a)
    (h : step d maxPoll s a = some s') : Lossless id s' where
  staged := staged_step hI.staged h
  tallied := tallied_step hI.tallied hC h
  coverage := coverage_step hI.coverage hI.staged h
  reporting := reports_step hI.reporting h
  backing := backing_step hI.backing hI.tallied hI.reporting h

theorem lossless_initial (id : GoString) : Lossless id initial where
  staged := by rintro k w ⟨⟩
  tallied := by rintro k w ⟨⟩
  coverage := ⟨fun p => Nat.le_refl 0, by rintro k w ⟨⟩, by rintro p i ⟨⟩, by rintro k w ⟨⟩,
    by rintro k w ⟨⟩⟩
  reporting := by rintro k w ⟨⟩
  backing := fun k kind => Or.inl rfl

/-- **No undercount**: values that the committed counts of every worker are within sum up to
at least the committed counts of the job. -/
theorem length_le_total {counts : List Count} {id : GoString} {kind : Kind}
    {rows : MaxCounter GoString} (h : ∀ k, committedOf counts k id kind ≤ rows.value k) :
    ((committedCounts counts).filter fun c => c.job = id ∧ c.kind = kind).length ≤ rows.total := by
  apply MaxCounter.length_le_total Count.worker
  intro k
  rw [countP_worker, countOf_committedCounts]
  exact h k

end

end Catalog

namespace Pipeline

variable {d : Dialect} {maxPoll : ℕ} {s s' : State} {a : Label} {id : GoString}

/-! ### The counters of the job -/

/-- Every published event of the job lies in the log, behind the committed offset of its
partition. -/
def AllCommitted (s : State) (id : GoString) : Prop :=
  publishedOf s.inflight id = [] ∧ ∀ i ∈ s.cluster.log.jobRefs id,
    ∀ p ∈ s.cluster.log.partitionAt i, i < s.cluster.committed p

instance (s : State) (id : GoString) : Decidable (AllCommitted s id) :=
  inferInstanceAs (Decidable (_ ∧ ∀ i ∈ _, ∀ p ∈ s.cluster.log.partitionAt i, _))

/-- Every published snapshot of the job has been folded. -/
def AllFolded (s : State) (id : GoString) : Prop :=
  ∀ p ∈ s.cluster.progress, p.jobID = id → p ∈ s.folded

instance (s : State) (id : GoString) : Decidable (AllFolded s id) :=
  inferInstanceAs (Decidable (∀ p ∈ _, _))

/-- The import does not set its job to processing when another importer has failed it. -/
def NotRevived (id : GoString) (s : State) : Label → Prop
  | .importer (.call id' _ o) => id' = id → o.applied = true →
      ∀ l ∈ s.importers.live id, l.g.pc = .markingProcessing →
        ∀ j ∈ s.importers.store.jobs id, j.status.terminal = false
  | _ => True

instance (id : GoString) (s : State) (a : Label) : Decidable (NotRevived id s a) := by
  unfold NotRevived
  split <;> infer_instance

/-- A job that is not terminal was not so before. -/
theorem not_terminal_step {b : Importer.Label} {j j' : ImportJob}
    (hC : NotRevived id s (.importer b)) (hb : Importer.step s.importers b = some s'.importers)
    (hj : s.importers.store.jobs id = some j) (hj' : s'.importers.store.jobs id = some j')
    (hterm : j'.status.terminal = false) : j.status.terminal = false := by
  obtain ⟨j'', hj'', hcases⟩ := Importer.job_step hb hj
  obtain rfl := Option.some.inj (hj''.symm.trans hj')
  rcases hcases with ⟨hst, -⟩ | ⟨p, -, hpre, -⟩ | ⟨now, o, l, next, e, rfl, hl, hc, ho, hst, -⟩
  · rwa [hst] at hterm
  · exact JobStore.not_terminal_of_prePublication hpre
  · rw [hst] at hterm
    rcases Goroutine.call_updateStatus hc with ⟨-, hnext, -⟩ | ⟨hpc, -, -⟩ | ⟨-, hnext, -⟩ |
      ⟨cause, -, hnext, -⟩
    · rw [hnext] at hterm
      cases hterm
    · exact hC rfl ho l hl hpc j hj
    · rw [hnext] at hterm
      cases hterm
    · rw [hnext] at hterm
      cases hterm

/-- The counters of the job are sums over rows that report at least what was folded. -/
structure Folds (id : GoString) (s : State) : Prop where
  published : ∀ p ∈ s.begun, p ∈ s.cluster.progress
  begun : ∀ p ∈ s.folded, p ∈ s.begun
  rows : ∀ p ∈ s.begun, s.importers.store.Folded p
  totals : ∀ j, s.importers.store.jobs id = some j → j.status.terminal = false →
    ∃ rows : Kind → MaxCounter GoString, (∀ kind, j.on kind = (rows kind).total) ∧
      ∀ p ∈ s.folded, p.jobID = id → ∀ kind, rowsOf p kind ≤ (rows kind).value p.workerID

/-- The second statement of a fold sums up all that was begun. -/
theorem totals_recompute {store : JobStore} {j j' : ImportJob} (hj : store.jobs id = some j)
    (hterm : j.status.terminal = false) (hj' : (store.recomputeTotals id).jobs id = some j')
    (kind : Kind) : j'.on kind = ((store.workers id).on kind).total := by
  rw [JobStore.recomputeTotals, JobStore.jobs_modify_self, hj, Option.map_some, hterm] at hj'
  obtain rfl := Option.some.inj hj'
  cases kind <;> rfl

theorem rowsOf_le_of_folded {store : JobStore} {p : ImportProgress} (h : store.Folded p)
    (kind : Kind) : rowsOf p kind ≤ ((store.workers p.jobID).on kind).value p.workerID := by
  obtain ⟨hproc, -, hdead⟩ := h
  cases kind with
  | applied => exact hproc
  | dead => exact hdead

theorem folds_step (hI : Folds id s) (hC : NotRevived id s a) (h : step d maxPoll s a = some s') :
    Folds id s' := by
  have hmono : ∀ p ∈ s.cluster.progress, p ∈ s'.cluster.progress :=
    fun p hp => mem_progress_step h hp
  rcases step_importers h with ⟨himp, -, hbegun, hfolded⟩ | ⟨b, rfl⟩
  · refine ⟨?_, ?_, ?_, ?_⟩
    · rw [hbegun]
      exact fun p hp => hmono p (hI.published p hp)
    · rw [hbegun, hfolded]
      exact hI.begun
    · rw [hbegun, himp]
      exact hI.rows
    · rw [himp, hfolded]
      exact hI.totals
  obtain ⟨hp, hb, -, -, -, hbegun, hfolded⟩ := step_importer h
  refine ⟨?_, ?_, ?_, ?_⟩
  · intro p hmem
    rw [hbegun] at hmem
    rcases List.mem_append.mp hmem with hmem | hmem
    · exact hmono p (hI.published p hmem)
    · cases b with
      | foldRow q =>
        rw [List.mem_singleton.mp hmem]
        exact hmono q hp
      | _ => cases hmem
  · intro p hmem
    rw [hfolded] at hmem
    rw [hbegun]
    apply List.mem_append_left
    rcases List.mem_append.mp hmem with hmem | hmem
    · exact hI.begun p hmem
    · cases b with
      | foldTotals id' => exact (List.mem_filter.mp hmem).1
      | _ => cases hmem
  · intro p hmem
    rw [hbegun] at hmem
    have hkeep : s.importers.store.Folded p → s'.importers.store.Folded p := by
      intro hfold
      rcases Importer.workers_step hb with heq | ⟨q, -, hstore⟩
      · unfold JobStore.Folded
        rw [heq]
        exact hfold
      · rw [hstore]
        exact hfold.upsertWorkerRow q
    rcases List.mem_append.mp hmem with hmem | hmem
    · exact hkeep (hI.rows p hmem)
    · cases b with
      | foldRow q =>
        have himp : s'.importers =
            { s.importers with store := s.importers.store.upsertWorkerRow q } :=
          (Option.some.inj hb).symm
        rw [List.mem_singleton.mp hmem, himp]
        exact JobStore.folded_upsertWorkerRow ..
      | _ => cases hmem
  · intro j' hj' hterm
    cases hj : s.importers.store.jobs id with
    | none =>
      -- The job is new, and no snapshot of it has been published.
      obtain ⟨⟨p, n, file, rfl⟩, rfl⟩ := Importer.job_fresh hb hj hj'
      refine ⟨fun _ => .empty, fun kind => by cases kind <;> rfl, fun p hmem hid => ?_⟩
      rw [hfolded] at hmem
      rcases List.mem_append.mp hmem with hmem | hmem
      · exact absurd hid (hp.2 p (hI.published p (hI.begun p hmem)))
      · cases hmem
    | some j =>
      have hterm₀ := not_terminal_step hC hb hj hj' hterm
      obtain ⟨rows, htotal, hrows⟩ := hI.totals j hj hterm₀
      by_cases hfold : b = .foldTotals id
      · subst hfold
        have himp : s'.importers =
            { s.importers with store := s.importers.store.recomputeTotals id } :=
          (Option.some.inj hb).symm
        rw [himp] at hj'
        refine ⟨fun kind => (s.importers.store.workers id).on kind,
          totals_recompute hj hterm₀ hj', ?_⟩
        rintro p hmem rfl kind
        rw [hfolded] at hmem
        have hbeg : p ∈ s.begun := by
          rcases List.mem_append.mp hmem with hmem | hmem
          · exact hI.begun p hmem
          · exact (List.mem_filter.mp hmem).1
        exact rowsOf_le_of_folded (hI.rows p hbeg) kind
      · obtain ⟨j'', hj'', -, htotals⟩ := Importer.counters_step hb hj
        obtain rfl := Option.some.inj (hj''.symm.trans hj')
        obtain ⟨hproc, hdead⟩ := htotals.resolve_right fun hright => hfold hright.1
        refine ⟨rows, fun kind => ?_, fun p hmem hid kind => ?_⟩
        · rw [← htotal kind]
          cases kind with
          | applied => exact hproc
          | dead => exact hdead
        · rw [hfolded] at hmem
          rcases List.mem_append.mp hmem with hmem | hmem
          · exact hrows p hmem hid kind
          · cases b with
            | foldTotals id' =>
              obtain ⟨-, hid'⟩ := List.mem_filter.mp hmem
              rw [hid] at hid'
              exact absurd (congrArg _ (of_decide_eq_true hid').symm) hfold
            | _ => cases hmem

/-! ### Every run -/

/-- No worker starts under an identity that has counted for the job, and the job is not
revived. -/
def KeepsCounts (id : GoString) (s : State) (a : Label) : Prop :=
  Along (NoReuse id) s a ∧ NotRevived id s a

instance (id : GoString) (s : State) (a : Label) : Decidable (KeepsCounts id s a) :=
  inferInstanceAs (Decidable (_ ∧ _))

structure Accounted (id : GoString) (s : State) : Prop where
  group : Lossless id s.cluster
  ledger : Ledger s
  delivered : Delivered s
  folds : Folds id s

theorem accounted_step (hI : Accounted id s) (hC : KeepsCounts id s a)
    (h : step d maxPoll s a = some s') :
    Accounted id s' where
  group := by
    rcases step_cluster h with heq | ⟨b, hb, hstep⟩
    · rw [heq]
      exact hI.group
    · exact lossless_step hI.group (hC.1 b hb) hstep
  ledger := ledger_step hI.ledger h
  delivered := delivered_step hI.delivered h
  folds := folds_step hI.folds hC.2 h

theorem accounted_initial (id : GoString) : Accounted id initial where
  group := lossless_initial id
  ledger := steady_initial.ledger
  delivered := steady_initial.delivered
  folds := ⟨by rintro p ⟨⟩, by rintro p ⟨⟩, by rintro p ⟨⟩, by rintro j ⟨⟩⟩

/-- What the workers have committed of a job is in its counters once all snapshots are
folded. -/
theorem Accounted.length_le (hI : Accounted id s) {j : ImportJob}
    (hj : s.importers.store.jobs id = some j) (hterm : j.status.terminal = false)
    (hcommitted : AllCommitted s id) (hfolded : AllFolded s id) :
    (publishedOf s.published id).length ≤ j.processedRows + j.deadRows := by
  obtain ⟨sent, hS⟩ := hI.delivered
  obtain ⟨rows, htotal, hrows⟩ := hI.folds.totals j hj hterm
  -- Every record of the job is counted and committed.
  have hcounted : ∀ i ∈ s.cluster.log.jobRefs id, ∃ c ∈ s.cluster.counts,
      c.ref = i ∧ c.job = id ∧ c.committed = true := by
    intro i hi
    obtain ⟨hrange, hany⟩ := List.mem_filter.mp hi
    obtain ⟨evt, hevt⟩ := Option.isSome_iff_exists.mp (Option.isSome_of_any hany)
    rw [hevt] at hany
    have hlt : i < s.cluster.log.length := List.mem_range.mp hrange
    have hpart : s.cluster.log.partitionAt i = some (s.cluster.log[i]).partition := by
      rw [Log.partitionAt, List.getElem?_eq_getElem hlt]
      rfl
    have hbelow := hcommitted.2 i hi _ hpart
    obtain ⟨c, hc, href, hjob, hcom⟩ := hI.group.coverage.committed _ i hpart hbelow evt hevt
    exact ⟨c, hc, href, hjob.trans (of_decide_eq_true hany), hcom⟩
  have hnodup : (s.cluster.log.jobRefs id).Nodup := List.nodup_range.filter _
  have hlength := length_le_committed hnodup hcounted
  rw [length_counts] at hlength
  -- Every committed count is within a folded snapshot.
  have hwithin : ∀ kind k, committedOf s.cluster.counts k id kind ≤ (rows kind).value k := by
    intro kind k
    rcases hI.group.backing k kind with hzero | ⟨p, hp, rfl, rfl, hle⟩
    · rw [hzero]
      exact Nat.zero_le _
    · exact Nat.le_trans hle (hrows p (hfolded p hp rfl) rfl kind)
  have happlied := length_le_total (hwithin .applied)
  have hdead := length_le_total (hwithin .dead)
  rw [← htotal .applied] at happlied
  rw [← htotal .dead] at hdead
  have hall := hS.length_jobRefs hI.ledger id
  have hsplit := hS.publishedOf id
  rw [hcommitted.1, List.append_nil] at hsplit
  have hlen := hsplit.length_eq
  change _ ≤ j.processedRows at happlied
  change _ ≤ j.deadRows at hdead
  omega

/-- **No count is lost**: in every run in which no worker starts under an identity that has
counted for the job, and the job is not revived, the counters of the job reach the number
of its published events once these are committed and the snapshots folded. -/
theorem counts_kept {as : List Label} (hC : Meets (step d maxPoll) (KeepsCounts id) initial as)
    (h : exec (step d maxPoll) initial as = some s) {j : ImportJob}
    (hj : s.importers.store.jobs id = some j) (hterm : j.status.terminal = false)
    (hcommitted : AllCommitted s id) (hfolded : AllFolded s id) :
    (publishedOf s.published id).length ≤ j.processedRows + j.deadRows := by
  have hI : Accounted id s := by
    refine exec_invariant_of_meets (I := Accounted id) ?_ (accounted_initial id) hC h
    exact fun s a s' hI hC hs => accounted_step hI hC hs
  exact hI.length_le hj hterm hcommitted hfolded

/-! ### Two runs -/

/-- The identity that `main` computes: `%s-%d` of the host name and the pid. -/
def workerID (host : GoString) (pid : ℕ) : GoString :=
  host ++ lit "-" ++ (Nat.toDigits 10 pid).flatMap String.utf8EncodeChar

/-- The worker adjudicates one record and commits it. -/
def adjudicateOne (k : GoString) (i : ℕ) : List Label :=
  adjudicate k [i] ++ [.group (.worker k (.commit true true))]

/-- Two workers in two containers, one after the other. -/
def relayRun : List Label :=
  importTwo ++ adjudicateOne (workerID (lit "a") 1) 0 ++ [.group (.stop (workerID (lit "a") 1))] ++
    adjudicateOne (workerID (lit "b") 1) 1 ++ foldOf (workerID (lit "a") 1) 1 ++
    foldOf (workerID (lit "b") 1) 1

/-- The process of a container is restarted, with the same pid. -/
def restartRun : List Label :=
  importTwo ++ adjudicateOne (workerID (lit "a") 1) 0 ++ [.group (.stop (workerID (lit "a") 1))] ++
    adjudicateOne (workerID (lit "a") 1) 1 ++ foldOf (workerID (lit "a") 1) 1 ++
    foldOf (workerID (lit "a") 1) 1

theorem counts_kept_relay : ∃ s j, exec (step canonicalDialect 10) initial relayRun = some s ∧
    s.importers.store.jobs someJobID = some j ∧
    (publishedOf s.published someJobID).length ≤ j.processedRows + j.deadRows := by
  have hrun : ∃ s, exec (step canonicalDialect 10) initial relayRun = some s ∧
      (∃ j ∈ s.importers.store.jobs someJobID, j.status.terminal = false) ∧
      AllCommitted s someJobID ∧ AllFolded s someJobID :=
    ⟨_, rfl, by decide, by decide, by decide⟩
  obtain ⟨s, hs, ⟨j, hj, hterm⟩, hcommitted, hfolded⟩ := hrun
  have hC : Meets (step canonicalDialect 10) (KeepsCounts someJobID) initial relayRun := by decide
  exact ⟨s, j, hs, hj, counts_kept hC hs hj hterm hcommitted hfolded⟩

/-- A worker restarted under its identity loses a count. -/
theorem restart_loses_count :
    ¬ ∀ (d : Dialect) (maxPoll : ℕ) (as : List Label) (s : State) (id : GoString) (j : ImportJob),
      Meets (step d maxPoll) (NotRevived id) initial as →
      exec (step d maxPoll) initial as = some s → s.importers.store.jobs id = some j →
      j.status.terminal = false → AllCommitted s id → AllFolded s id →
      (publishedOf s.published id).length ≤ j.processedRows + j.deadRows := by
  intro h
  have hrun : ∃ s, exec (step canonicalDialect 10) initial restartRun = some s ∧
      (∃ j ∈ s.importers.store.jobs someJobID, j.status.terminal = false ∧
        j.processedRows + j.deadRows = 1) ∧
      AllCommitted s someJobID ∧ AllFolded s someJobID ∧
      (publishedOf s.published someJobID).length = 2 :=
    ⟨_, rfl, by decide, by decide, by decide, by decide⟩
  obtain ⟨s, hs, ⟨j, hj, hterm, hone⟩, hcommitted, hfolded, htwo⟩ := hrun
  have hle := h _ _ _ s _ j (by decide) hs hj hterm hcommitted hfolded
  omega

end Pipeline

end CsvProductUploader

import CsvProductUploader.ImportJob.Importer

/-!
# The counters of a job

Which of its counters an import writes itself, and which the progress tracker writes from
the rows of the workers.

## Main definitions

* `Pc.totaled` — after the last write of the import's own counters.

## Main results

* `resume_published`, `resume_totaled` — the published count of a goroutine.
* `counters_step`, `workers_step` — what one step can do to the counters of a job and to
  the rows of its workers.
-/

namespace CsvProductUploader

/-- After the last `flushProgress`, until `process` returns or fails. -/
def Pc.totaled : Pc → Bool
  | .completingEmpty | .markingProcessing | .awaiting | .reading | .completing => true
  | _ => false

namespace Goroutine

/-- The published count of an import that has not failed grows with each event and with
nothing else. -/
theorem resume_published {g g' : Goroutine} {a : Answer} (h : g.resume a = some g')
    (hpc : g'.pc.unflushed = true ∨ g'.pc.flushed = true) :
    (g.pc.unflushed = true ∨ g.pc.flushed = true) ∧
      ((g'.published = g.published ∧ ∀ row, g.call ≠ some (.publish row)) ∨
        (∃ row, g.call = some (.publish row) ∧ a = .ok ∧ g'.published = g.published + 1)) := by
  revert h
  fun_cases Goroutine.resume g a
  all_goals intro h
  all_goals simp only [Option.some.injEq, reduceCtorEq] at h
  all_goals subst h
  all_goals simp [Pc.unflushed, Pc.flushed, Goroutine.call, *] at hpc ⊢

/-- The import's own counters are final once they have been written for the last time. -/
theorem resume_totaled {g g' : Goroutine} {a : Answer} (h : g.resume a = some g')
    (hpc : g'.pc.totaled = true) :
    g'.published = g.published ∧
      ((g.pc.totaled = true ∧ g'.pc ≠ .completingEmpty) ∨
        (g.pc = .savingTotals ∧ a = .ok ∧ (g'.pc = .completingEmpty → g.published = 0))) := by
  revert h
  fun_cases Goroutine.resume g a
  all_goals intro h
  all_goals simp only [Option.some.injEq, reduceCtorEq] at h
  all_goals subst h
  case case8 =>
    -- The import goes on with its rows.
    dsimp only at hpc
    split_ifs at hpc <;> cases hpc
  all_goals simp [Pc.totaled, *] at hpc ⊢

end Goroutine

namespace Importer

/-- What one step can do to the published count of a stored job. -/
def PublishedStep (s : State) (a : Label) (id : GoString) (j j' : ImportJob) : Prop :=
  j'.publishedRows = j.publishedRows ∨
    ∃ now o l p, a = .call id now o ∧ s.live id = some l ∧ l.g.call = some (.updateProgress p) ∧
      o.applied = true ∧ j'.publishedRows = p.publishedRows

/-- What one step can do to the counters that a stored job takes from its workers. -/
def TotalsStep (s : State) (a : Label) (id : GoString) (j j' : ImportJob) : Prop :=
  (j'.processedRows = j.processedRows ∧ j'.deadRows = j.deadRows) ∨
    (a = .foldTotals id ∧ j'.processedRows = (s.store.workers id).processed.total ∧
      j'.deadRows = (s.store.workers id).dead.total)

/-- **What one step can do to the counters of a job.** -/
theorem counters_step {s s' : State} {a : Label} {id : GoString} {j : ImportJob}
    (h : step s a = some s') (hj : s.store.jobs id = some j) :
    ∃ j', s'.store.jobs id = some j' ∧ PublishedStep s a id j j' ∧ TotalsStep s a id j j' := by
  obtain ⟨j', hj', hcases⟩ := job_next h hj
  refine ⟨j', hj', ?_⟩
  rcases hcases with rfl | ⟨p, -, -, rfl⟩ | ⟨now, o, l, c, rfl, hl, hc, rfl⟩ | ⟨rfl, -, rfl⟩
  · exact ⟨Or.inl rfl, Or.inl ⟨rfl, rfl⟩⟩
  · exact ⟨Or.inl rfl, Or.inl ⟨rfl, rfl⟩⟩
  · refine ⟨?_, Or.inl ?_⟩
    · cases c with
      | updateProgress p =>
        cases ho : o.applied with
        | true => exact Or.inr ⟨now, o, l, p, rfl, hl, hc, ho, by simp [written, ho]⟩
        | false => exact Or.inl (by simp [written, ho])
      | updateStatus next lastErr =>
        left
        unfold written
        cases o.applied <;> rfl
      | _ => exact Or.inl rfl
    · -- No call of the goroutine writes the counters of the workers.
      unfold written
      cases c <;> cases o.applied <;> exact ⟨rfl, rfl⟩
  · exact ⟨Or.inl rfl, Or.inr ⟨rfl, rfl, rfl⟩⟩

/-- **What one step can do to the rows of the workers**: a snapshot is folded, or
nothing. -/
theorem workers_step {s s' : State} {a : Label} (h : step s a = some s') :
    s'.store.workers = s.store.workers ∨
      ∃ p, a = .foldRow p ∧ s'.store = s.store.upsertWorkerRow p := by
  -- Only the tracker's fold writes worker rows.
  cases a with
  | start p =>
    obtain ⟨-, rfl⟩ := step_start h
    exact Or.inl rfl
  | stop p =>
    obtain ⟨-, rfl⟩ := step_stop h
    exact Or.inl rfl
  | startImport p id n file =>
    obtain ⟨-, -, rfl⟩ := step_startImport h
    exact Or.inl rfl
  | expire id =>
    obtain ⟨l, -, rfl⟩ := step_expire h
    exact Or.inl rfl
  | call id now o =>
    obtain ⟨l, c, g, -, -, -, -, rfl⟩ := step_call h
    exact Or.inl (workers_storeAfter ..)
  | read id stale =>
    obtain ⟨l, j, g, -, -, -, rfl⟩ := step_read h
    exact Or.inl rfl
  | foldRow p =>
    cases h
    exact Or.inr ⟨p, rfl, rfl⟩
  | foldTotals id =>
    cases h
    exact Or.inl rfl

end Importer

end CsvProductUploader

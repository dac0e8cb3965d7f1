import CsvProductUploader.ImportJob.Importer

/-!
# The stored status and the lifecycle graph

`ImportJob.Transition` enforces the lifecycle graph, but the store is written by
`UpdateStatus` and `FailStale`, which do not consult it.  A starting importer
fails every job in a pre-publication state, also one that another process is
still importing; that process then writes its own status over the failure.

## Main definitions

* `AlongGraph` — every status that differs between two stores differs by an edge.
* `NoOverlap` — no importer starts while an import is short of confirmation.

## Main results

* `failed_job_completes` — an overlapping start takes a job out of `failed`.
* `status_along_graph` — **without overlap the stored status moves along the
  graph**, and terminal statuses are never left.
-/

namespace CsvProductUploader

namespace Importer

open Runs

/-- Every job whose status differs between the two stores moved along an edge of
the lifecycle graph. -/
def AlongGraph (store store' : JobStore) : Prop :=
  ∀ id j j', store.jobs id = some j → store'.jobs id = some j' → j'.status ≠ j.status →
    j'.status ∈ allowedTransitions j.status

/-- Every job in a terminal status keeps it. -/
def TerminalKept (store store' : JobStore) : Prop :=
  ∀ id j, store.jobs id = some j → j.status.terminal = true →
    ∃ j', store'.jobs id = some j' ∧ j'.status = j.status

/-- No import goroutine is short of awaiting confirmation. -/
def Quiet (s : State) : Prop := ∀ id l, s.live id = some l → l.g.pc.early = false

/-- An importer process starts only when no import of a running process is short
of awaiting confirmation. -/
def NoOverlap (s : State) : Label → Prop
  | .start _ => Quiet s
  | _ => True

/-! ### An overlapping start -/

/-- An importer starts while the import of another one, with no row to publish,
is about to flush. -/
def overlappingRun (id : GoString) : List Label :=
  [.start 0, .startImport 0 id 1 { rows := [] }, .call id 0 .ok, .call id 0 .ok, .start 1,
    .call id 0 .ok, .call id 0 .ok]

/-- The older importer completes a job that the starting one failed. -/
theorem failed_job_completes :
    ¬ ∀ (as : List Label) (a : Label) (s s' : State), exec step initial as = some s →
      step s a = some s' → AlongGraph s.store s'.store := by
  intro h
  have hedge := h (overlappingRun someJobID) (.call someJobID 0 .ok) _ _ rfl rfl someJobID _ _ rfl
    rfl (by decide)
  revert hedge
  decide

/-! ### Without overlap -/

/-- No job is stored as uploading, and the job of a goroutine short of awaiting
confirmation is parsing. -/
structure Steady (s : State) : Prop where
  uploaded : ∀ id j, s.store.jobs id = some j → j.status ≠ .uploading
  parsing : ∀ id l j, s.live id = some l → s.store.jobs id = some j → l.g.pc.early = true →
    j.status = .parsing

/-- What a goroutine writes to the status of its job follows the graph. -/
theorem edge_of_write {s : State} (hI : Steady s) (hO : Owned s) {id : GoString} {l : Live}
    {j : ImportJob} {next : Status} {lastErr : Option String} (hl : s.live id = some l)
    (hj : s.store.jobs id = some j) (hc : l.g.call = some (.updateStatus next lastErr)) :
    next = j.status ∨ next ∈ allowedTransitions j.status := by
  obtain ⟨j', hj', hacc⟩ := hO id l hl
  rw [hj] at hj'
  cases hj'
  have hparsing := hI.parsing id l j hl hj
  rcases Goroutine.call_updateStatus hc with ⟨hpc, rfl, -⟩ | ⟨hpc, rfl, -⟩ | ⟨hpc, rfl, -⟩ |
    ⟨cause, hpc, rfl, -⟩
  · rw [hparsing (by rw [hpc]; rfl)]
    decide
  · rw [hparsing (by rw [hpc]; rfl)]
    decide
  · rw [hacc.2.1 (by rw [hpc]; rfl)]
    decide
  · rcases hacc.2.2 cause hpc with hst | hst | hst <;> rw [hst] <;> decide

/-- Under `Steady` one step changes a status along the graph only. -/
theorem status_step {s s' : State} {a : Label} (hI : Steady s) (hO : Owned s)
    (h : step s a = some s') {id : GoString} {j : ImportJob} (hj : s.store.jobs id = some j) :
    ∃ j', s'.store.jobs id = some j' ∧
      (j'.status = j.status ∨ j'.status ∈ allowedTransitions j.status) := by
  obtain ⟨j', hj', ⟨hst, -⟩ | ⟨p, -, hpre, hst, -⟩ | ⟨now, o, l, next, e, -, hl, hc, -, hst, -⟩⟩ :=
    job_step h hj
  · exact ⟨j', hj', Or.inl hst⟩
  · refine ⟨j', hj', Or.inr ?_⟩
    have hup := hI.uploaded id j hj
    rw [hst]
    cases hs : j.status with
    | parsing | publishing => decide
    | uploading => exact absurd hs hup
    | processing | completed | failed => rw [hs] at hpre; cases hpre
  · exact ⟨j', hj', hst ▸ edge_of_write hI hO hl hj hc⟩

theorem steady_step {s s' : State} {a : Label} (hI : Steady s) (hO : Owned s) (hC : NoOverlap s a)
    (h : step s a = some s') : Steady s' := by
  refine ⟨?_, ?_⟩
  · intro id j' hj'
    cases hj : s.store.jobs id with
    | none =>
      obtain ⟨-, rfl⟩ := job_fresh h hj hj'
      simp
    | some j =>
      obtain ⟨j'', hj'', hst⟩ := status_step hI hO h hj
      rw [hj'] at hj''
      cases hj''
      rcases hst with hst | hst
      · rw [hst]
        exact hI.uploaded id j hj
      · intro hup
        rw [hup] at hst
        revert hst
        cases j.status <;> decide
  · intro id l' j' hl' hj' hearly
    rcases live_step h hl' with ⟨hl, hcall⟩ | ⟨p, n, file, -, -, hstore, rfl⟩ |
      ⟨l, -, hl, hstore, rfl⟩ | ⟨l, now, o, c, g, -, hl, hc, -, hg, hstore, rfl⟩ |
      ⟨l, j, stale, g, -, hl, hj, hg, hstore, rfl⟩
    · obtain ⟨j, hj, -⟩ := hO id l' hl
      obtain ⟨j'', hj'', ⟨hst, -⟩ | ⟨p, ha, -⟩ | ⟨now, o, l, next, e, ha, -⟩⟩ := job_step h hj
      · rw [hj'] at hj''
        cases hj''
        rw [hst]
        exact hI.parsing id l' j hl hj hearly
      · -- A start meets no goroutine that is still before publication.
        subst ha
        have hquiet := hC id l' hl
        rw [hearly] at hquiet
        cases hquiet
      · exact absurd ha (hcall now o)
    · rw [hstore, JobStore.jobs_create, if_pos rfl] at hj'
      cases hj'
      rfl
    · rw [hstore] at hj'
      exact hI.parsing id l j' hl hj' hearly
    · obtain ⟨j, hj, -⟩ := hO id l hl
      rw [hstore, jobs_storeAfter_self hj c o] at hj'
      cases hj'
      -- An early goroutine that stays early has not written a status.
      obtain ⟨hearly₀, hst⟩ := status_of_early_call hc hg hearly j
      rw [hst]
      exact hI.parsing id l j hl hj hearly₀
    · rw [hstore] at hj'
      have hearly₀ := (Goroutine.moves_of_resume hg).early_of_early hearly
      exact hI.parsing id l j' hl hj' hearly₀

/-- **Without overlap every change of a stored status is an edge of the lifecycle
graph**, and the terminal statuses are never left. -/
theorem status_along_graph {as : List Label} {a : Label} {s s' : State}
    (hC : Meets step NoOverlap initial (as ++ [a])) (hrun : exec step initial as = some s)
    (h : step s a = some s') :
    AlongGraph s.store s'.store ∧ TerminalKept s.store s'.store := by
  have hinv : Steady s ∧ Owned s := by
    refine exec_invariant_of_meets (I := fun s => Steady s ∧ Owned s)
        ?_ ?_ ((meets_append hrun).mp hC).1 hrun
    · rintro s a s' ⟨hI, hO⟩ hC h
      exact ⟨steady_step hI hO hC h, owned_step hO h⟩
    · exact ⟨⟨by rintro id j ⟨⟩, by rintro id l j ⟨⟩⟩, by rintro id l ⟨⟩⟩
  obtain ⟨hI, hO⟩ := hinv
  refine ⟨?_, ?_⟩
  · intro id j j' hj hj' hne
    obtain ⟨j'', hj'', hst⟩ := status_step hI hO h hj
    rw [hj'] at hj''
    cases hj''
    exact hst.resolve_left hne
  · intro id j hj hterm
    obtain ⟨j', hj', hst⟩ := status_step hI hO h hj
    refine ⟨j', hj', hst.resolve_right fun hedge => ?_⟩
    rw [(allowedTransitions_eq_nil_iff _).mpr hterm] at hedge
    cases hedge

/-- The process of an import ends while the file is parsed. -/
def crashRun (id : GoString) (row : Row) : List Label :=
  [.start 0, .startImport 0 id 1 { rows := [row] }, .call id 0 .ok, .stop 0]

/-- The next importer fails the job that the last one has left. -/
theorem status_along_graph_crash :
    ∃ s s' j j', exec step initial (crashRun someJobID plainRow) = some s ∧
      step s (.start 1) = some s' ∧ s.store.jobs someJobID = some j ∧ j.status = .parsing ∧
      s'.store.jobs someJobID = some j' ∧ j'.status = .failed ∧
      AlongGraph s.store s'.store ∧ TerminalKept s.store s'.store := by
  have hrun : ∃ s s' j j', exec step initial (crashRun someJobID plainRow) = some s ∧
      step s (.start 1) = some s' ∧ s.store.jobs someJobID = some j ∧ j.status = .parsing ∧
      s'.store.jobs someJobID = some j' ∧ j'.status = .failed ∧ Quiet s := by
    refine ⟨_, _, _, _, rfl, rfl, rfl, rfl, rfl, rfl, fun id l hl => ?_⟩
    -- the process took its only goroutine with it
    by_cases hid : id = someJobID
    · subst hid
      cases hl
    · simp [State.continue, Function.update_of_ne hid, initial] at hl
  obtain ⟨s, s', j, j', hs, hs', hj, hst, hj', hst', hquiet⟩ := hrun
  have hC : Meets step NoOverlap initial (crashRun someJobID plainRow ++ [.start 1]) := by
    refine (meets_append hs).mpr ⟨⟨by rintro id l ⟨⟩, fun t _ => meets_of_forall ?_ t⟩, hquiet,
      fun _ _ => trivial⟩
    simp [NoOverlap]
  exact ⟨s, s', j, j', hs, hs', hj, hst, hj', hst', status_along_graph hC hs hs'⟩

end Importer

end CsvProductUploader

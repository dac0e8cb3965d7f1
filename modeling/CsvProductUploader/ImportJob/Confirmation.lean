import CsvProductUploader.ImportJob.Importer

/-!
# Jobs awaiting confirmation across restarts

A job whose events are published is `processing` until the catalog has confirmed
them.  `FailStale` spares such a job, so it outlives a restart of the importer;
but it is completed by the goroutine that published it and by nothing else, and
that goroutine ends with its process and with its deadline.

## Main definitions

* `Confirmed` — the job is processing and its counters have reached `published`.
* `CanComplete` — with the store available, the importer can still complete it.
* `Watched` — a goroutine with a live context awaits its confirmation.
* `Undisturbed` — the steps that do not take that goroutine away.

## Main results

* `confirmed_job_stranded` — after a restart nobody completes a confirmed job.
* `confirmed_job_completes` — **a confirmed job can be completed exactly when it is
  watched**, and it is watched after every undisturbed run.
-/

namespace CsvProductUploader

namespace Importer

open Runs

/-! ### What it takes to complete a job -/

/-- The job awaits completion: it is processing, and the folded counters have
reached the published count. -/
def Confirmed (store : JobStore) (id : GoString) : Prop :=
  ∃ j ∈ store.jobs id, j.status = .processing ∧ j.publishedRows ≤ j.processedRows + j.deadRows

def Completed (store : JobStore) (id : GoString) : Prop :=
  ∃ j ∈ store.jobs id, j.status = .completed

/-- The store is available: it serves every call made with a live context, and
refuses those whose context is done.  No process stops and no deadline passes. -/
def Available (s : State) : Label → Prop
  | .stop _ | .expire _ => False
  | .call id _ o => ∀ l ∈ s.live id, ∀ c ∈ l.g.call, onStore c = true →
      if l.expired then o.applied = false else o = .ok
  | .read id _ => ∀ l ∈ s.live id, l.expired = false
  | .start _ | .startImport _ _ _ _ | .foldRow _ | .foldTotals _ => True

/-- With the store available, some steps from here complete the job, be they steps
of a goroutine or the tracker, uploads, or further importer processes. -/
def CanComplete (s : State) (id : GoString) : Prop :=
  ∃ cs t, Meets step Available s cs ∧ exec step s cs = some t ∧ Completed t.store id

/-- A goroutine whose context is live awaits the confirmation of the job. -/
def Watched (s : State) (id : GoString) : Prop :=
  ∃ l, s.live id = some l ∧ l.g.pc.confirming = true ∧ l.expired = false

/-- The step leaves the job its watcher.  The process does not stop and the
deadline does not pass while the goroutine awaits confirmation; the write that
sets the job to processing is made with a live context and, if it gets through,
is answered without an error; the write that completes it gets through; and the
goroutine does not give up on a job whose counters are still short. -/
def Undisturbed (id : GoString) (s : State) : Label → Prop
  | .stop p => ∀ l ∈ s.live id, l.proc = p → l.g.pc.confirming = false
  | .expire id' => id' = id → ∀ l ∈ s.live id, l.g.pc.confirming = false
  | .call id' _ o => id' = id → ∀ l ∈ s.live id,
      (l.g.pc = .markingProcessing → o.applied = true → o = .ok ∧ l.expired = false) ∧
        (l.g.pc = .completing → o.applied = true)
  | .read id' stale => id' = id → stale = true → Confirmed s.store id
  | .start _ | .startImport _ _ _ _ | .foldRow _ | .foldTotals _ => True

instance (store : JobStore) (id : GoString) : Decidable (Confirmed store id) :=
  inferInstanceAs (Decidable (∃ j ∈ store.jobs id, _))

instance (id : GoString) (s : State) : ∀ a, Decidable (Undisturbed id s a)
  | .stop _ => inferInstanceAs (Decidable (∀ l ∈ s.live id, _))
  | .expire _ => inferInstanceAs (Decidable (_ → ∀ l ∈ s.live id, _))
  | .call _ _ _ => inferInstanceAs (Decidable (_ → ∀ l ∈ s.live id, _))
  | .read _ _ => inferInstanceAs (Decidable (_ → _ → _))
  | .start _ | .startImport _ _ _ _ | .foldRow _ | .foldTotals _ => isTrue trivial

/-! ### Jobs nobody watches -/

/-- The job is processing or failed, and no goroutine is left that could complete
it: its goroutine has left `awaitConfirmation`, or its deadline has passed. -/
structure Abandoned (s : State) (id : GoString) : Prop where
  status : ∃ j, s.store.jobs id = some j ∧ (j.status = .processing ∨ j.status = .failed)
  left : ∀ l, s.live id = some l →
    l.g.pc.early = false ∧ (l.g.pc.confirming = true → l.expired = true)

/-- Without its watcher the job is completed by no step of the importer. -/
theorem abandoned_step {s s' : State} {a : Label} {id : GoString} (hI : Abandoned s id)
    (hA : Available s a) (h : step s a = some s') : Abandoned s' id := by
  obtain ⟨j, hj, hst⟩ := hI.status
  refine ⟨?_, ?_⟩
  · obtain ⟨j', hj', ⟨hsame, -⟩ | ⟨p, -, hpre, -⟩ | ⟨now, o, l, next, e, ha, hl, hc,
        happ, hnext, -⟩⟩ :=
      job_step h hj
    · exact ⟨j', hj', hsame ▸ hst⟩
    · -- `FailStale` does not touch a job whose rows are published.
      rcases hst with hst | hst <;> rw [hst] at hpre <;> cases hpre
    · obtain ⟨hearly, hexp⟩ := hI.left l hl
      subst ha
      have hserved := hA l hl _ hc rfl
      rcases Goroutine.call_updateStatus hc with ⟨hpc, -⟩ | ⟨hpc, -⟩ | ⟨hpc, -⟩ | ⟨cause, -, hf, -⟩
      · rw [hpc] at hearly; cases hearly
      · rw [hpc] at hearly; cases hearly
      · -- at the completing write the context is done, and the store refuses it
        rw [hexp (by rw [hpc]; rfl), if_pos rfl, happ] at hserved
        cases hserved
      · exact ⟨j', hj', Or.inr (hnext.trans hf)⟩
  · intro l' hl'
    rcases live_step h hl' with ⟨hl, -⟩ | ⟨-, -, -, -, hfresh, -⟩ | ⟨-, rfl, -⟩ |
      ⟨l, now, o, c, g, -, hl, -, -, hg, -, rfl⟩ | ⟨l, j, stale, g, rfl, hl, -, hg, -, rfl⟩
    · exact hI.left l' hl
    · rw [hj] at hfresh; cases hfresh
    · exact hA.elim
    · obtain ⟨hearly, hexp⟩ := hI.left l hl
      have hm := Goroutine.moves_of_resume hg
      refine ⟨Bool.eq_false_iff.mpr fun he => ?_, fun hconf => ?_⟩
      · rw [hm.early_of_early he] at hearly; cases hearly
      · rcases hm.confirming_cases hconf with hconf₀ | ⟨hpc, -⟩
        · exact hexp hconf₀
        · rw [hpc] at hearly; cases hearly
    · obtain ⟨hearly, hexp⟩ := hI.left l hl
      have hm := Goroutine.moves_of_resume hg
      refine ⟨Bool.eq_false_iff.mpr fun he => ?_, fun hconf => ?_⟩
      · rw [hm.early_of_early he] at hearly; cases hearly
      · rcases hm.confirming_cases hconf with hconf₀ | ⟨hpc, -⟩
        · exact hexp hconf₀
        · rw [hpc] at hearly; cases hearly

theorem not_canComplete_of_abandoned {s : State} {id : GoString} (h : Abandoned s id) :
    ¬ CanComplete s id := by
  rintro ⟨cs, t, hA, hrun, j, hj, hst⟩
  have ht : Abandoned t id :=
    exec_invariant_of_meets (I := fun s => Abandoned s id)
      (fun _ _ _ hI hA hs => abandoned_step hI hA hs) h hA hrun
  obtain ⟨j', hj', hst'⟩ := ht.status
  cases Option.mem_unique hj hj'
  rw [hst] at hst'
  simp at hst'

/-! ### A restart while a job awaits confirmation -/

/-- An import publishes one row and awaits its confirmation. -/
def publishRun (id : GoString) (row : Row) : List Label :=
  [.start 0, .startImport 0 id 1 { rows := [row] }, .call id 0 .ok, .call id 0 .ok,
    .call id 0 .ok, .call id 0 .ok, .call id 0 .ok, .call id 0 .ok, .call id 0 .ok,
    .call id 0 .ok]

/-- The tracker folds the snapshot of the worker that has applied the row. -/
def foldRun (id worker : GoString) : List Label :=
  [.foldRow { jobID := id, workerID := worker, processedRows := 1, retriedRows := 0,
              deadRows := 0 },
    .foldTotals id]

/-- The importer is replaced while it awaits confirmation; the job outlives that,
and no step of the new importer ever completes it. -/
theorem confirmed_job_stranded :
    ¬ ∀ (as : List Label) (s : State) (id : GoString), exec step initial as = some s →
      Confirmed s.store id → CanComplete s id := by
  intro h
  refine not_canComplete_of_abandoned ?_
    (h (publishRun someJobID plainRow ++ [.stop 0, .start 1] ++ foldRun someJobID (lit "host-1"))
      _ someJobID rfl (by decide))
  exact ⟨⟨_, rfl, Or.inl rfl⟩, by rintro l ⟨⟩⟩

/-! ### Watched jobs -/

/-- A goroutine at the completing write completes its job. -/
theorem canComplete_of_completing {s : State} {id : GoString} {l : Live} {j : ImportJob}
    (hl : s.live id = some l) (hj : s.store.jobs id = some j) (hexp : l.expired = false)
    (hpc : l.g.pc = .completing) : CanComplete s id := by
  have hc : l.g.call = some (.updateStatus .completed none) := by rw [Goroutine.call, hpc]
  have hstep : step s (.call id 0 .ok) = some (s.continue id l { l.g with pc := .returned }
      (storeAfter id s.store (.updateStatus .completed none) .ok)) := by
    simp [step, hl, hc, permitted, Outcome.answer, Goroutine.resume, hpc]
  refine ⟨[.call id 0 .ok], _, ⟨?_, fun _ _ => trivial⟩, by rw [exec_cons, hstep]; rfl, ?_⟩
  · intro l' hl' c _ _
    cases Option.mem_unique hl hl'
    simp [hexp]
  · refine ⟨written (.updateStatus .completed none) .ok j, ?_, rfl⟩
    rw [Option.mem_def, store_continue]
    exact jobs_storeAfter_self hj _ _

/-- What can be completed after an available step can be completed before it. -/
theorem canComplete_of_step {s s' : State} {a : Label} {id : GoString} (hA : Available s a)
    (h : step s a = some s') (hs' : CanComplete s' id) : CanComplete s id := by
  obtain ⟨cs, t, hcs, hrun, ht⟩ := hs'
  refine ⟨a :: cs, t, ⟨hA, fun s'' hs'' => ?_⟩, by rw [exec_cons, h]; exact hrun, ht⟩
  rw [h] at hs''
  cases hs''
  exact hcs

/-- A goroutine about to read its confirmed job completes it. -/
theorem canComplete_of_reading {s : State} {id : GoString} {l : Live}
    (hconf : Confirmed s.store id) (hl : s.live id = some l) (hexp : l.expired = false)
    (hpc : l.g.pc = .reading) : CanComplete s id := by
  obtain ⟨j, hj, hst, hcount⟩ := hconf
  rw [Option.mem_def] at hj
  have hstep : step s (.read id false) = some (s.continue id l { l.g with pc := .completing }
      s.store) := by
    simp [step, hl, hj, Goroutine.resume, hpc, hst, hcount]
  refine canComplete_of_step ?_ hstep
    (canComplete_of_completing (live_continue_self ..) hj hexp rfl)
  intro l' hl'
  cases Option.mem_unique hl hl'
  exact hexp

/-- A watched job whose counters have reached the published count is completed. -/
theorem canComplete_of_watched {s : State} {id : GoString} (hconf : Confirmed s.store id)
    (hw : Watched s id) : CanComplete s id := by
  obtain ⟨l, hl, hpc, hexp⟩ := hw
  cases hpc' : l.g.pc with
  | awaiting =>
    have hstep : step s (.call id 0 .ok) = some (s.continue id l { l.g with pc := .reading }
        s.store) := by
      simp [step, hl, Goroutine.call, permitted, Outcome.answer, Goroutine.resume, hpc',
        storeAfter, Outcome.applied, effect]
    refine canComplete_of_step ?_ hstep
      (canComplete_of_reading hconf (live_continue_self ..) hexp rfl)
    intro l' hl' c _ _
    cases Option.mem_unique hl hl'
    simp [hexp]
  | reading => exact canComplete_of_reading hconf hl hexp hpc'
  | completing =>
    obtain ⟨j, hj, -⟩ := hconf
    exact canComplete_of_completing hl hj hexp hpc'
  | _ => rw [hpc'] at hpc; cases hpc

/-- A processing job that nobody watches is abandoned. -/
theorem abandoned_of_not_watched {s : State} {id : GoString} (hO : Owned s)
    (hconf : Confirmed s.store id) (hw : ¬ Watched s id) : Abandoned s id := by
  obtain ⟨j, hj, hst, -⟩ := hconf
  refine ⟨⟨j, hj, Or.inl hst⟩, fun l hl => ?_⟩
  obtain ⟨j', hj', hacc⟩ := hO id l hl
  cases Option.mem_unique hj hj'
  refine ⟨Bool.eq_false_iff.mpr fun he => ?_, fun hc => ?_⟩
  · rcases hacc.1 he with h | h <;> rw [hst] at h <;> cases h
  · by_contra hexp
    exact hw ⟨l, hl, hc, by simpa using hexp⟩

/-- Every processing job is watched. -/
def Attended (id : GoString) (s : State) : Prop :=
  ∀ j, s.store.jobs id = some j → j.status = .processing → Watched s id

/-- A step of a watching goroutine keeps it watching, or takes the job out of
processing. -/
theorem watched_call {s s' : State} {id : GoString} {l : Live} {now : ℤ} {o : Outcome} {c : Call}
    {g : Goroutine} {j j' : ImportJob} (hC : Undisturbed id s (.call id now o))
    (hl : s.live id = some l) (hpc : l.g.pc.confirming = true) (hexp : l.expired = false)
    (hc : l.g.call = some c) (hp : permitted l.expired c o = true)
    (hg : l.g.resume o.answer = some g) (hj : s.store.jobs id = some j)
    (hstore : s'.store = storeAfter id s.store c o) (hlive : s'.live id = some { l with g })
    (hj' : s'.store.jobs id = some j') (hst : j'.status = .processing) : Watched s' id := by
  refine ⟨_, hlive, ?_, hexp⟩
  -- The goroutine waits, reads or completes; it leaves this round only with a write.
  cases hpc' : l.g.pc with
  | awaiting =>
    rw [Goroutine.call, hpc'] at hc
    cases hc
    cases o with
    | ok =>
      simp only [Goroutine.resume, hpc', Outcome.answer, Option.some.injEq] at hg
      rw [← hg]
      rfl
    | err e applied =>
      rw [hexp] at hp
      cases hp
  | reading =>
    rw [Goroutine.call, hpc'] at hc
    cases hc
    cases o with
    | ok => rw [hexp] at hp; cases hp
    | err e applied =>
      simp only [Goroutine.resume, hpc', Outcome.answer, Option.some.injEq] at hg
      rw [← hg]
      rfl
  | completing =>
    have happ := (hC rfl l hl).2 hpc'
    rw [Goroutine.call, hpc'] at hc
    cases hc
    rw [hstore, jobs_storeAfter_self hj] at hj'
    cases hj'
    simp [written, happ] at hst
  | _ => rw [hpc'] at hpc; cases hpc

theorem attended_step {s s' : State} {a : Label} {id : GoString} (hI : Attended id s)
    (hC : Undisturbed id s a) (h : step s a = some s') : Attended id s' := by
  intro j' hj' hst'
  cases hj : s.store.jobs id with
  | none =>
    obtain ⟨-, rfl⟩ := job_fresh h hj hj'
    cases hst'
  | some j =>
    obtain ⟨j'', hj'', hcase⟩ := job_step h hj
    rw [hj'] at hj''
    cases hj''
    rcases hcase with ⟨hsame, -⟩ | ⟨p, -, -, hfail, -⟩ | ⟨now, o, l, next, e, rfl, hl, hc, happ,
        hnext, -⟩
    · obtain ⟨l, hl, hpc, hexp⟩ := hI j hj (hsame ▸ hst')
      rcases live_next h hl hj with ⟨hl', -⟩ | ⟨rfl, -⟩ | ⟨rfl, -⟩ |
        ⟨now, o, c, g, rfl, hc, hp, hg, hstore, hl'⟩ | ⟨stale, g, rfl, hg, -, hl'⟩
      · exact ⟨l, hl', hpc, hexp⟩
      · rw [hC l hl rfl] at hpc; cases hpc
      · rw [hC rfl l hl] at hpc; cases hpc
      · exact watched_call hC hl hpc hexp hc hp hg hj hstore hl' hj' hst'
      · refine ⟨_, hl', ?_, hexp⟩
        have hm := Goroutine.moves_of_resume hg
        generalize l.g.pc = pc at hm hpc
        change g.pc.confirming = true
        generalize g.pc = pc' at hm
        cases hm with
        | wait | confirmed => rfl
        | unconfirmed hshort =>
          -- the goroutine gives up, but on a job whose counters are not short
          obtain ⟨k, hk, -, hcount⟩ := hC rfl rfl
          cases Option.mem_unique hj hk
          omega
        | elsewhere hne => exact absurd (hsame ▸ hst') hne
        | early he => rw [Pc.not_confirming_of_early he] at hpc; cases hpc
        | close _ hnojob => exact absurd rfl (hnojob _ _)
    · rw [hst'] at hfail; cases hfail
    · rw [hst'] at hnext
      rcases Goroutine.call_updateStatus hc with ⟨-, hn, -⟩ | ⟨hpc, -, -⟩ | ⟨-, hn, -⟩ |
          ⟨-, -, hn, -⟩
      · rw [← hnext] at hn; cases hn
      · obtain ⟨rfl, hexp⟩ := (hC rfl l hl).1 hpc happ
        obtain ⟨l₀, c, g, hl₀, -, -, hg, rfl⟩ := step_call h
        rw [hl] at hl₀
        cases hl₀
        simp only [Goroutine.resume, hpc, Outcome.answer, Option.some.injEq] at hg
        exact ⟨_, live_continue_self .., by rw [← hg]; rfl, hexp⟩
      · rw [← hnext] at hn; cases hn
      · rw [← hnext] at hn; cases hn

/-- **A confirmed job can be completed exactly when it is watched**, in every
reachable state; and after an undisturbed run every confirmed job can. -/
theorem confirmed_job_completes {as : List Label} {s : State} (id : GoString)
    (hrun : exec step initial as = some s) (hconf : Confirmed s.store id) :
    (CanComplete s id ↔ Watched s id) ∧
      (Meets step (Undisturbed id) initial as → CanComplete s id) := by
  have hiff : CanComplete s id ↔ Watched s id := by
    refine ⟨fun hcan => ?_, canComplete_of_watched hconf⟩
    by_contra hw
    exact not_canComplete_of_abandoned (abandoned_of_not_watched (owned_of_run hrun) hconf hw) hcan
  refine ⟨hiff, fun hC => hiff.mpr ?_⟩
  have hattended : Attended id s :=
    exec_invariant_of_meets (fun _ _ _ hI hC hs => attended_step hI hC hs) (by rintro j ⟨⟩) hC hrun
  obtain ⟨j, hj, hst, -⟩ := hconf
  exact hattended j hj hst

/-- The importer that published the row completes the job. -/
theorem confirmed_job_completes_published :
    ∃ s, exec step initial
        (publishRun someJobID plainRow ++ foldRun someJobID (lit "host-1")) = some s ∧
      Confirmed s.store someJobID ∧ CanComplete s someJobID := by
  have hrun : ∃ s, exec step initial
        (publishRun someJobID plainRow ++ foldRun someJobID (lit "host-1")) = some s ∧
      Confirmed s.store someJobID := ⟨_, rfl, by decide⟩
  obtain ⟨s, hs, hconf⟩ := hrun
  exact ⟨s, hs, hconf, (confirmed_job_completes someJobID hs hconf).2 (by decide)⟩

end Importer

end CsvProductUploader

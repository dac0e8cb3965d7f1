import CsvProductUploader.ImportJob.Process
import CsvProductUploader.Lib.Runs

/-!
# Importer processes over one job store

Any number of importer processes, each with its import goroutines, share the
database.  A process may start at any time, also while an older one is still at
work; starting runs `FailStale`.  A process may stop between any two calls, and
its goroutines stop with it.

## Main definitions

* `Outcome`, `Label`, `State`, `step` — the machine.
* `Hosted` — goroutines run in processes that are up.
* `Accords` — how a goroutine's program counter and its job's status belong
  together; `Owned` — they do for every goroutine.

## Main results

* `step_start`, …, `step_call`, `step_read` — one inversion lemma per label.
* `job_next`, `live_step`, `live_next` — what one step can do to a job and to a
  goroutine, the latter read backwards and forwards.
* `owned_of_run` — `Owned` holds in every reachable state.
-/

namespace CsvProductUploader

namespace Importer

open Runs

/-! ### The machine -/

/-- The outcome of a call.  A failed write may have reached the database all the
same: the statement was executed and only its answer was lost. -/
inductive Outcome
  | ok
  | err (e : String) (applied : Bool)
  deriving DecidableEq, Repr

def Outcome.applied : Outcome → Bool
  | .ok => true
  | .err _ applied => applied

def Outcome.answer : Outcome → Answer
  | .ok => .ok
  | .err e _ => .err e

/-- A `process` goroutine that has not been stopped. -/
structure Live where
  /-- The importer process it runs in. -/
  proc : ℕ
  g : Goroutine
  /-- Whether its context, with a timeout of `maxImportDuration`, is done. -/
  expired : Bool := false

structure State where
  /-- The importer processes that are up. -/
  running : ℕ → Bool
  store : JobStore
  /-- The goroutine of each import, by job id, until its process stops. -/
  live : GoString → Option Live

inductive Label
  /-- An importer process starts: `main` runs `FailStale`. -/
  | start (proc : ℕ)
  /-- An importer process stops or crashes. -/
  | stop (proc : ℕ)
  /-- `StartImport`: the job row is created and the goroutine launched. -/
  | startImport (proc : ℕ) (id : GoString) (flushEvery : ℕ) (file : File)
  /-- The import's deadline passes. -/
  | expire (id : GoString)
  /-- The goroutine's next call is answered, at time `now`. -/
  | call (id : GoString) (now : ℤ) (o : Outcome)
  /-- `store.Get` in `awaitConfirmation` returns the job. -/
  | read (id : GoString) (stale : Bool)
  /-- The progress tracker executes the first statement of `ApplyProgress`. -/
  | foldRow (p : ImportProgress)
  /-- The progress tracker executes the second statement of `ApplyProgress`. -/
  | foldTotals (id : GoString)

def initial : State := ⟨fun _ => false, .initial, fun _ => none⟩

/-- The cause `main` passes to `FailStale`. -/
def staleReason : String := "importer restarted before the import finished"

/-- Which outcomes a call can have.  `ctx.Err()` tells whether the context is
done, `select` reports it only then, and `get` answers through `Label.read`. -/
def permitted (expired : Bool) : Call → Outcome → Bool
  | .ctxErr, .ok => !expired
  | .ctxErr, .err _ _ => expired
  | .select, .err _ _ => expired
  | .get, .ok => false
  | _, _ => true

/-- Whether a call goes to the job store. -/
def onStore : Call → Bool
  | .updateProgress _ | .updateStatus _ _ | .get => true
  | _ => false

/-- What a call does to the database when it gets there. -/
def effect (id : GoString) (store : JobStore) : Call → JobStore
  | .updateProgress p => store.updateProgress id p
  | .updateStatus next lastErr => store.updateStatus id next lastErr
  | _ => store

/-- The database after a call with the given outcome. -/
def storeAfter (id : GoString) (store : JobStore) (c : Call) (o : Outcome) : JobStore :=
  if o.applied then effect id store c else store

/-- The goroutine of `id` goes on as `g`. -/
def State.continue (s : State) (id : GoString) (l : Live) (g : Goroutine) (store : JobStore) :
    State :=
  { s with store, live := Function.update s.live id (some { l with g }) }

def step (s : State) : Label → Option State
  | .start p =>
    if s.running p then none
    else some { s with running := Function.update s.running p true,
                       store := s.store.failStale staleReason }
  | .stop p =>
    if s.running p then
      some { s with running := Function.update s.running p false,
                    live := fun id => (s.live id).filter fun l => l.proc ≠ p }
    else none
  | .startImport p id flushEvery file =>
    -- The database assigns a fresh id.
    if s.running p ∧ s.store.jobs id = none then
      some { s with store := s.store.create id .parsing,
                    live := Function.update s.live id
                      (some { proc := p, g := .start flushEvery file }) }
    else none
  | .expire id =>
    (s.live id).map fun l =>
      { s with live := Function.update s.live id (some { l with expired := true }) }
  | .call id _ o =>
    (s.live id).bind fun l => l.g.call.bind fun c =>
      if permitted l.expired c o then
        (l.g.resume o.answer).map fun g => s.continue id l g (storeAfter id s.store c o)
      else none
  | .read id stale =>
    (s.live id).bind fun l => (s.store.jobs id).bind fun j =>
      (l.g.resume (.job j stale)).map fun g => s.continue id l g s.store
  | .foldRow p => some { s with store := s.store.upsertWorkerRow p }
  | .foldTotals id => some { s with store := s.store.recomputeTotals id }

/-! ### What one step does -/

theorem step_start {s s' : State} {p : ℕ} (h : step s (.start p) = some s') :
    s.running p = false ∧ s' = { s with running := Function.update s.running p true,
                                        store := s.store.failStale staleReason } := by
  simp only [step] at h
  split at h
  · cases h
  · next hp => exact ⟨by simpa using hp, (Option.some.inj h).symm⟩

theorem step_stop {s s' : State} {p : ℕ} (h : step s (.stop p) = some s') :
    s.running p = true ∧ s' = { s with running := Function.update s.running p false,
                                       live := fun id =>
                                         (s.live id).filter fun l => l.proc ≠ p } := by
  simp only [step] at h
  split at h
  · next hp => exact ⟨hp, (Option.some.inj h).symm⟩
  · cases h

theorem step_startImport {s s' : State} {p n : ℕ} {id : GoString} {file : File}
    (h : step s (.startImport p id n file) = some s') :
    s.running p = true ∧ s.store.jobs id = none ∧
      s' = { s with store := s.store.create id .parsing,
                    live := Function.update s.live id
                      (some { proc := p, g := .start n file }) } := by
  simp only [step] at h
  split at h
  · next hp => exact ⟨hp.1, hp.2, (Option.some.inj h).symm⟩
  · cases h

theorem step_expire {s s' : State} {id : GoString} (h : step s (.expire id) = some s') :
    ∃ l, s.live id = some l ∧
      s' = { s with live := Function.update s.live id (some { l with expired := true }) } := by
  obtain ⟨l, hl, hs'⟩ := Option.map_eq_some_iff.mp h
  exact ⟨l, hl, hs'.symm⟩

theorem step_call {s s' : State} {id : GoString} {now : ℤ} {o : Outcome}
    (h : step s (.call id now o) = some s') :
    ∃ l c g, s.live id = some l ∧ l.g.call = some c ∧ permitted l.expired c o = true ∧
      l.g.resume o.answer = some g ∧ s' = s.continue id l g (storeAfter id s.store c o) := by
  simp only [step, Option.bind_eq_some_iff] at h
  obtain ⟨l, hl, c, hc, h⟩ := h
  split at h
  · next hp =>
    obtain ⟨g, hg, hs'⟩ := Option.map_eq_some_iff.mp h
    exact ⟨l, c, g, hl, hc, hp, hg, hs'.symm⟩
  · cases h

theorem step_read {s s' : State} {id : GoString} {stale : Bool}
    (h : step s (.read id stale) = some s') :
    ∃ l j g, s.live id = some l ∧ s.store.jobs id = some j ∧
      l.g.resume (.job j stale) = some g ∧ s' = s.continue id l g s.store := by
  simp only [step, Option.bind_eq_some_iff, Option.map_eq_some_iff] at h
  obtain ⟨l, hl, j, hj, g, hg, hs'⟩ := h
  exact ⟨l, j, g, hl, hj, hg, hs'.symm⟩

@[simp] theorem live_continue_self (s : State) (id : GoString) (l : Live) (g : Goroutine)
    (store : JobStore) : (s.continue id l g store).live id = some { l with g } :=
  Function.update_self ..

theorem live_continue_of_ne (s : State) {id id' : GoString} (l : Live) (g : Goroutine)
    (store : JobStore) (h : id' ≠ id) : (s.continue id l g store).live id' = s.live id' :=
  Function.update_of_ne h ..

@[simp] theorem store_continue (s : State) (id : GoString) (l : Live) (g : Goroutine)
    (store : JobStore) : (s.continue id l g store).store = store := rfl

/-- What a call with the given outcome does to its own job. -/
def written (c : Call) (o : Outcome) (j : ImportJob) : ImportJob :=
  match c, o.applied with
  | .updateProgress p, true =>
    { j with totalRows := p.totalRows, validRows := p.validRows,
             invalidRows := p.invalidRows, publishedRows := p.publishedRows }
  | .updateStatus next lastErr, true => { j with status := next, lastError := lastErr }
  | _, _ => j

theorem jobs_storeAfter_self {id : GoString} {store : JobStore} {j : ImportJob}
    (h : store.jobs id = some j) (c : Call) (o : Outcome) :
    (storeAfter id store c o).jobs id = some (written c o j) := by
  unfold storeAfter written
  cases ho : o.applied with
  | false => cases c <;> simpa using h
  | true =>
    cases c <;>
      simp [effect, h, JobStore.updateProgress, JobStore.updateStatus]

/-- A call touches no job but its own. -/
theorem jobs_storeAfter_of_ne {id id' : GoString} (store : JobStore) (c : Call) (o : Outcome)
    (h : id' ≠ id) : (storeAfter id store c o).jobs id' = store.jobs id' := by
  unfold storeAfter
  split
  · cases c <;> first | rfl | exact JobStore.jobs_modify_of_ne _ _ h
  · rfl

@[simp] theorem workers_storeAfter (id : GoString) (store : JobStore) (c : Call) (o : Outcome) :
    (storeAfter id store c o).workers = store.workers := by
  unfold storeAfter
  split
  · cases c <;> rfl
  · rfl

/-- **What one step can do to the record of a job**: nothing, or one of the statements. -/
theorem job_next {s s' : State} {a : Label} {id : GoString} {j : ImportJob}
    (h : step s a = some s') (hj : s.store.jobs id = some j) :
    ∃ j', s'.store.jobs id = some j' ∧
      (j' = j ∨
        (∃ p, a = .start p ∧ JobStore.prePublication j.status = true ∧
          j' = { j with status := .failed, lastError := some staleReason }) ∨
        (∃ now o l c, a = .call id now o ∧ s.live id = some l ∧ l.g.call = some c ∧
          j' = written c o j) ∨
        (a = .foldTotals id ∧ j.status.terminal = false ∧
          j' = { j with processedRows := (s.store.workers id).processed.total
                        retriedRows := (s.store.workers id).retried.total
                        deadRows := (s.store.workers id).dead.total })) := by
  -- The store is written by `FailStale`, by the calls of the goroutine and by the tracker.
  cases a with
  | start p =>
    obtain ⟨-, rfl⟩ := step_start h
    rw [JobStore.jobs_failStale, hj, Option.map_some]
    refine ⟨_, rfl, ?_⟩
    by_cases hp : JobStore.prePublication j.status = true
    · rw [if_pos hp]
      exact Or.inr (Or.inl ⟨p, rfl, hp, rfl⟩)
    · rw [if_neg hp]
      exact Or.inl rfl
  | stop p =>
    obtain ⟨-, rfl⟩ := step_stop h
    exact ⟨j, hj, Or.inl rfl⟩
  | startImport p id' flushEvery file =>
    obtain ⟨-, hfresh, rfl⟩ := step_startImport h
    have hne : id ≠ id' := by
      rintro rfl
      rw [hfresh] at hj
      cases hj
    exact ⟨j, by rw [JobStore.jobs_create, if_neg hne, hj], Or.inl rfl⟩
  | expire id' =>
    obtain ⟨l, -, rfl⟩ := step_expire h
    exact ⟨j, hj, Or.inl rfl⟩
  | call id' now o =>
    obtain ⟨l, c, g, hl, hc, -, -, rfl⟩ := step_call h
    by_cases hid : id = id'
    · subst hid
      exact ⟨written c o j, jobs_storeAfter_self hj c o,
        Or.inr (Or.inr (Or.inl ⟨now, o, l, c, rfl, hl, hc, rfl⟩))⟩
    · exact ⟨j, by rw [store_continue, jobs_storeAfter_of_ne _ c o hid, hj], Or.inl rfl⟩
  | read id' stale =>
    obtain ⟨l, j', g, -, -, -, rfl⟩ := step_read h
    exact ⟨j, hj, Or.inl rfl⟩
  | foldRow p =>
    cases h
    exact ⟨j, hj, Or.inl rfl⟩
  | foldTotals id' =>
    cases h
    by_cases hid : id = id'
    · subst hid
      rw [JobStore.recomputeTotals, JobStore.jobs_modify_self, hj, Option.map_some]
      refine ⟨_, rfl, ?_⟩
      cases ht : j.status.terminal with
      | true => exact Or.inl rfl
      | false => exact Or.inr (Or.inr (Or.inr ⟨rfl, rfl, rfl⟩))
    · exact ⟨j, by rw [JobStore.recomputeTotals, JobStore.jobs_modify_of_ne _ _ hid, hj],
        Or.inl rfl⟩

/-- **What one step can do to the status of a job.**  The status and the recorded
cause stay, or `FailStale` runs, or the job's own goroutine writes them. -/
theorem job_step {s s' : State} {a : Label} {id : GoString} {j : ImportJob}
    (h : step s a = some s') (hj : s.store.jobs id = some j) :
    ∃ j', s'.store.jobs id = some j' ∧
      ((j'.status = j.status ∧ j'.lastError = j.lastError) ∨
        (∃ p, a = .start p ∧ JobStore.prePublication j.status = true ∧ j'.status = .failed ∧
          j'.lastError = some staleReason) ∨
        (∃ now o l next lastErr, a = .call id now o ∧ s.live id = some l ∧
          l.g.call = some (.updateStatus next lastErr) ∧ o.applied = true ∧
          j'.status = next ∧ j'.lastError = lastErr)) := by
  obtain ⟨j', hj', hcases⟩ := job_next h hj
  refine ⟨j', hj', ?_⟩
  rcases hcases with rfl | ⟨p, rfl, hp, rfl⟩ | ⟨now, o, l, c, rfl, hl, hc, rfl⟩ | ⟨-, -, rfl⟩
  · exact Or.inl ⟨rfl, rfl⟩
  · exact Or.inr (Or.inl ⟨p, rfl, hp, rfl, rfl⟩)
  · cases c with
    | updateStatus next lastErr =>
      cases ho : o.applied with
      | true =>
        exact Or.inr (Or.inr ⟨now, o, l, next, lastErr, rfl, hl, hc, ho, by simp [written, ho],
          by simp [written, ho]⟩)
      | false => exact Or.inl (by simp [written, ho])
    | updateProgress p =>
      -- The counters are not the status.
      refine Or.inl ?_
      unfold written
      cases o.applied <;> exact ⟨rfl, rfl⟩
    | _ => exact Or.inl ⟨rfl, rfl⟩
  · exact Or.inl ⟨rfl, rfl⟩

/-- Only `StartImport` adds a job. -/
theorem job_fresh {s s' : State} {a : Label} {id : GoString} {j' : ImportJob}
    (h : step s a = some s') (hj : s.store.jobs id = none) (hj' : s'.store.jobs id = some j') :
    (∃ p n file, a = .startImport p id n file) ∧ j' = { status := .parsing } := by
  -- No modification brings a job into being.
  have hmodify : ∀ id' f, (s.store.modify id' f).jobs id = none := by
    intro id' f
    rw [JobStore.jobs_modify]
    split
    · next hid => rw [← hid, hj]; rfl
    · exact hj
  cases a with
  | start p =>
    obtain ⟨-, rfl⟩ := step_start h
    rw [JobStore.jobs_failStale, hj] at hj'
    cases hj'
  | stop p =>
    obtain ⟨-, rfl⟩ := step_stop h
    rw [hj] at hj'
    cases hj'
  | startImport p id' n file =>
    obtain ⟨-, -, rfl⟩ := step_startImport h
    rw [JobStore.jobs_create] at hj'
    split at hj'
    · next hid =>
      subst hid
      cases hj'
      exact ⟨⟨p, n, file, rfl⟩, rfl⟩
    · rw [hj] at hj'; cases hj'
  | expire id' =>
    obtain ⟨l, -, rfl⟩ := step_expire h
    rw [hj] at hj'
    cases hj'
  | call id' now o =>
    obtain ⟨l, c, g, -, -, -, -, rfl⟩ := step_call h
    rw [store_continue, storeAfter] at hj'
    split at hj'
    · cases c with
      | updateProgress p => simp [effect, JobStore.updateProgress, hmodify] at hj'
      | updateStatus next e => simp [effect, JobStore.updateStatus, hmodify] at hj'
      | _ => simp [effect, hj] at hj'
    · rw [hj] at hj'; cases hj'
  | read id' stale =>
    obtain ⟨l, j, g, -, -, -, rfl⟩ := step_read h
    rw [store_continue, hj] at hj'
    cases hj'
  | foldRow p =>
    cases h
    rw [JobStore.jobs_upsertWorkerRow, hj] at hj'
    cases hj'
  | foldTotals id' =>
    cases h
    rw [JobStore.recomputeTotals, hmodify] at hj'
    cases hj'

/-- **What one step can do to a goroutine**: nothing, launch it, let its deadline
pass, or answer its call. -/
theorem live_step {s s' : State} {a : Label} {id : GoString} {l' : Live}
    (h : step s a = some s') (hl' : s'.live id = some l') :
    (s.live id = some l' ∧ ∀ now o, a ≠ .call id now o) ∨
      (∃ p flushEvery file, a = .startImport p id flushEvery file ∧ s.store.jobs id = none ∧
        s'.store = s.store.create id .parsing ∧
        l' = { proc := p, g := .start flushEvery file }) ∨
      (∃ l, a = .expire id ∧ s.live id = some l ∧ s'.store = s.store ∧
        l' = { l with expired := true }) ∨
      (∃ l now o c g, a = .call id now o ∧ s.live id = some l ∧ l.g.call = some c ∧
        permitted l.expired c o = true ∧ l.g.resume o.answer = some g ∧
        s'.store = storeAfter id s.store c o ∧ l' = { l with g }) ∨
      (∃ l j stale g, a = .read id stale ∧ s.live id = some l ∧ s.store.jobs id = some j ∧
        l.g.resume (.job j stale) = some g ∧ s'.store = s.store ∧ l' = { l with g }) := by
  -- A goroutine is launched, runs out of time, makes its call, or reads its job.
  cases a with
  | start p =>
    obtain ⟨-, rfl⟩ := step_start h
    exact Or.inl ⟨hl', by simp⟩
  | stop p =>
    obtain ⟨-, rfl⟩ := step_stop h
    exact Or.inl ⟨(Option.filter_eq_some_iff.mp hl').1, by simp⟩
  | startImport p id' flushEvery file =>
    obtain ⟨-, hfresh, rfl⟩ := step_startImport h
    simp only [Function.update_apply] at hl'
    split at hl'
    · next hid =>
      subst hid
      cases hl'
      exact Or.inr (Or.inl ⟨p, flushEvery, file, rfl, hfresh, rfl, rfl⟩)
    · exact Or.inl ⟨hl', by simp⟩
  | expire id' =>
    obtain ⟨l, hl, rfl⟩ := step_expire h
    simp only [Function.update_apply] at hl'
    split at hl'
    · next hid =>
      subst hid
      cases hl'
      exact Or.inr (Or.inr (Or.inl ⟨l, rfl, hl, rfl, rfl⟩))
    · exact Or.inl ⟨hl', by simp⟩
  | call id' now o =>
    obtain ⟨l, c, g, hl, hc, hp, hg, rfl⟩ := step_call h
    by_cases hid : id = id'
    · subst hid
      rw [live_continue_self] at hl'
      cases hl'
      exact Or.inr (Or.inr (Or.inr (Or.inl ⟨l, now, o, c, g, rfl, hl, hc, hp, hg, rfl, rfl⟩)))
    · rw [live_continue_of_ne _ _ _ _ hid] at hl'
      exact Or.inl ⟨hl', by rintro now' o' ⟨⟩; exact hid rfl⟩
  | read id' stale =>
    obtain ⟨l, j, g, hl, hj, hg, rfl⟩ := step_read h
    by_cases hid : id = id'
    · subst hid
      rw [live_continue_self] at hl'
      cases hl'
      exact Or.inr (Or.inr (Or.inr (Or.inr ⟨l, j, stale, g, rfl, hl, hj, hg, rfl, rfl⟩)))
    · rw [live_continue_of_ne _ _ _ _ hid] at hl'
      exact Or.inl ⟨hl', by simp⟩
  | foldRow p => cases h; exact Or.inl ⟨hl', by simp⟩
  | foldTotals id' => cases h; exact Or.inl ⟨hl', by simp⟩

/-- **What one step can do to the goroutine of a stored job**, read forwards. -/
theorem live_next {s s' : State} {a : Label} {id : GoString} {l : Live} {j : ImportJob}
    (h : step s a = some s') (hl : s.live id = some l) (hj : s.store.jobs id = some j) :
    (s'.live id = some l ∧ ∀ now o, a ≠ .call id now o) ∨
      (a = .stop l.proc ∧ s'.live id = none) ∨
      (a = .expire id ∧ s'.live id = some { l with expired := true }) ∨
      (∃ now o c g, a = .call id now o ∧ l.g.call = some c ∧ permitted l.expired c o = true ∧
        l.g.resume o.answer = some g ∧ s'.store = storeAfter id s.store c o ∧
        s'.live id = some { l with g }) ∨
      (∃ stale g, a = .read id stale ∧ l.g.resume (.job j stale) = some g ∧
        s'.store = s.store ∧ s'.live id = some { l with g }) := by
  -- The same, seen from the state before: the process may also end.
  cases a with
  | start p =>
    obtain ⟨-, rfl⟩ := step_start h
    exact Or.inl ⟨hl, by simp⟩
  | stop p =>
    obtain ⟨-, rfl⟩ := step_stop h
    by_cases hp : l.proc = p
    · subst hp
      exact Or.inr (Or.inl ⟨rfl, by simp [hl]⟩)
    · exact Or.inl ⟨by simp [hl, hp], by simp⟩
  | startImport p id' n file =>
    obtain ⟨-, hfresh, rfl⟩ := step_startImport h
    have hne : id ≠ id' := by
      rintro rfl
      rw [hfresh] at hj
      cases hj
    exact Or.inl ⟨by rw [← hl]; exact Function.update_of_ne hne _ _, by simp⟩
  | expire id' =>
    obtain ⟨l', hl', rfl⟩ := step_expire h
    by_cases hid : id = id'
    · subst hid
      rw [hl] at hl'
      cases hl'
      exact Or.inr (Or.inr (Or.inl ⟨rfl, Function.update_self ..⟩))
    · exact Or.inl ⟨by rw [← hl]; exact Function.update_of_ne hid _ _, by simp⟩
  | call id' now o =>
    obtain ⟨l', c, g, hl', hc, hp, hg, rfl⟩ := step_call h
    by_cases hid : id = id'
    · subst hid
      rw [hl] at hl'
      cases hl'
      exact Or.inr (Or.inr (Or.inr (Or.inl ⟨now, o, c, g, rfl, hc, hp, hg, rfl,
        live_continue_self ..⟩)))
    · exact Or.inl ⟨by rw [live_continue_of_ne _ _ _ _ hid, hl],
        by rintro now' o' ⟨⟩; exact hid rfl⟩
  | read id' stale =>
    obtain ⟨l', j', g, hl', hj', hg, rfl⟩ := step_read h
    by_cases hid : id = id'
    · subst hid
      rw [hl] at hl'
      rw [hj] at hj'
      cases hl'
      cases hj'
      exact Or.inr (Or.inr (Or.inr (Or.inr ⟨stale, g, rfl, hg, rfl, live_continue_self ..⟩)))
    · exact Or.inl ⟨by rw [live_continue_of_ne _ _ _ _ hid, hl], by simp⟩
  | foldRow p => cases h; exact Or.inl ⟨hl, by simp⟩
  | foldTotals id' => cases h; exact Or.inl ⟨hl, by simp⟩

/-- Jobs are never deleted. -/
theorem job_kept {s s' : State} {a : Label} {id : GoString} (h : step s a = some s')
    (hj : s.store.jobs id ≠ none) : s'.store.jobs id ≠ none := by
  obtain ⟨j, hj⟩ := Option.ne_none_iff_exists'.mp hj
  obtain ⟨j', hj', -⟩ := job_step h hj
  rw [hj']
  simp

/-- The goroutine of a stored job was there before the step, in the same process. -/
theorem live_back {s s' : State} {a : Label} {id : GoString} {l' : Live}
    (h : step s a = some s') (hl' : s'.live id = some l') (hj : s.store.jobs id ≠ none) :
    ∃ l, s.live id = some l ∧ l.proc = l'.proc := by
  rcases live_step h hl' with ⟨hl, -⟩ | ⟨p, n, file, -, hfresh, -⟩ | ⟨l, -, hl, -, rfl⟩ |
    ⟨l, now, o, c, g, -, hl, -, -, -, -, rfl⟩ | ⟨l, j, stale, g, -, hl, -, -, -, rfl⟩
  · exact ⟨l', hl, rfl⟩
  · exact absurd hfresh hj
  · exact ⟨l, hl, rfl⟩
  · exact ⟨l, hl, rfl⟩
  · exact ⟨l, hl, rfl⟩

/-- A process is up because it was, or because it has just started. -/
theorem running_step {s s' : State} {a : Label} {p : ℕ} (h : step s a = some s')
    (hp : s'.running p = true) : s.running p = true ∨ a = .start p := by
  cases a with
  | start q =>
    obtain ⟨-, rfl⟩ := step_start h
    simp only [Function.update_apply] at hp
    split at hp
    · next hq => exact Or.inr (by rw [hq])
    · exact Or.inl hp
  | stop q =>
    obtain ⟨-, rfl⟩ := step_stop h
    simp only [Function.update_apply] at hp
    split at hp
    · cases hp
    · exact Or.inl hp
  | startImport q id n file =>
    obtain ⟨-, -, rfl⟩ := step_startImport h
    exact Or.inl hp
  | expire id =>
    obtain ⟨l, -, rfl⟩ := step_expire h
    exact Or.inl hp
  | call id now o =>
    obtain ⟨l, c, g, -, -, -, -, rfl⟩ := step_call h
    exact Or.inl hp
  | read id stale =>
    obtain ⟨l, j, g, -, -, -, rfl⟩ := step_read h
    exact Or.inl hp
  | foldRow q => cases h; exact Or.inl hp
  | foldTotals id => cases h; exact Or.inl hp

/-- Every goroutine runs in a process that is up. -/
def Hosted (s : State) : Prop := ∀ id l, s.live id = some l → s.running l.proc = true

theorem hosted_step {s s' : State} {a : Label} (hI : Hosted s) (h : step s a = some s') :
    Hosted s' := by
  intro id l' hl'
  cases a with
  | start p =>
    obtain ⟨-, rfl⟩ := step_start h
    have hup := hI id l' hl'
    simp only [Function.update_apply]
    split
    · rfl
    · exact hup
  | stop p =>
    obtain ⟨-, rfl⟩ := step_stop h
    obtain ⟨hl, hp⟩ := Option.filter_eq_some_iff.mp hl'
    have hne : l'.proc ≠ p := by simpa using hp
    simp only [Function.update_of_ne hne]
    exact hI id l' hl
  | startImport p id' n file =>
    obtain ⟨hup, -, rfl⟩ := step_startImport h
    simp only [Function.update_apply] at hl'
    split at hl'
    · cases hl'
      exact hup
    · exact hI id l' hl'
  | expire id' =>
    obtain ⟨l, hl, rfl⟩ := step_expire h
    simp only [Function.update_apply] at hl'
    split at hl'
    · cases hl'
      exact hI id' l hl
    · exact hI id l' hl'
  | call id' now o =>
    obtain ⟨l, c, g, hl, -, -, -, rfl⟩ := step_call h
    simp only [State.continue, Function.update_apply] at hl'
    split at hl'
    · cases hl'
      exact hI id' l hl
    · exact hI id l' hl'
  | read id' stale =>
    obtain ⟨l, j, g, hl, -, -, rfl⟩ := step_read h
    simp only [State.continue, Function.update_apply] at hl'
    split at hl'
    · cases hl'
      exact hI id' l hl
    · exact hI id l' hl'
  | foldRow p => cases h; exact hI id l' hl'
  | foldTotals id' => cases h; exact hI id l' hl'

/-! ### Goroutines and the status of their jobs -/

/-- The statuses a job can have while its goroutine stands at `pc`.  A job that
`FailStale` failed under a running goroutine is `failed` until that goroutine
writes its status. -/
def Accords (pc : Pc) (st : Status) : Prop :=
  (pc.early = true → st = .parsing ∨ st = .failed) ∧
    (pc.confirming = true → st = .processing) ∧
    (∀ cause, pc = .failing cause → st = .parsing ∨ st = .processing ∨ st = .failed)

theorem accords_of_early {pc : Pc} {st : Status} (h : pc.early = true)
    (hst : st = .parsing ∨ st = .failed) : Accords pc st := by
  refine ⟨fun _ => hst, fun hc => ?_, ?_⟩
  · rw [Pc.not_confirming_of_early h] at hc
    cases hc
  · rintro cause rfl
    cases h

theorem accords_of_confirming {pc : Pc} (h : pc.confirming = true) : Accords pc .processing := by
  refine ⟨fun he => ?_, fun _ => rfl, ?_⟩
  · rw [Pc.not_confirming_of_early he] at h
    cases h
  · rintro cause rfl
    cases h

theorem accords_failing {cause : Cause} {st : Status}
    (h : st = .parsing ∨ st = .processing ∨ st = .failed) : Accords (.failing cause) st :=
  ⟨by simp [Pc.early], by simp [Pc.confirming], fun _ _ => h⟩

theorem accords_returned (st : Status) : Accords .returned st :=
  ⟨by simp [Pc.early], by simp [Pc.confirming], by simp⟩

/-- Before the goroutine returns, its job is parsing, processing or failed. -/
theorem Accords.status_cases {pc : Pc} {st : Status} (h : Accords pc st) (hpc : pc ≠ .returned) :
    st = .parsing ∨ st = .processing ∨ st = .failed := by
  cases pc with
  | awaiting | reading | completing => exact Or.inr (Or.inl (h.2.1 rfl))
  | failing cause => exact h.2.2 cause rfl
  | returned => exact absurd rfl hpc
  | _ =>
    rcases h.1 rfl with hst | hst
    · exact Or.inl hst
    · exact Or.inr (Or.inr hst)

/-- Every goroutine belongs to a stored job whose status accords with where it
stands. -/
def Owned (s : State) : Prop :=
  ∀ id l, s.live id = some l → ∃ j, s.store.jobs id = some j ∧ Accords l.g.pc j.status

/-- What a call does to the status of its job. -/
theorem status_written {g : Goroutine} {c : Call} (hc : g.call = some c) (o : Outcome)
    (j : ImportJob) :
    ((written c o j).status = j.status ∧ (g.pc = .markingProcessing → o.applied = false)) ∨
      (g.pc = .markingProcessing ∧ o.applied = true ∧ (written c o j).status = .processing) ∨
      (g.pc.closing = true ∧ o.applied = true ∧ (written c o j).status.terminal = true) := by
  unfold Goroutine.call at hc
  cases hpc : g.pc <;> rw [hpc] at hc <;> cases hc <;> cases ho : o.applied <;>
    simp [written, ho, Pc.closing, Status.terminal]

/-- A goroutine still short of awaiting confirmation after a call was so before
it, and the call left the status alone. -/
theorem status_of_early_call {g g' : Goroutine} {c : Call} {o : Outcome} (hc : g.call = some c)
    (hg : g.resume o.answer = some g') (hearly : g'.pc.early = true) (j : ImportJob) :
    g.pc.early = true ∧ (written c o j).status = j.status := by
  have hm := Goroutine.moves_of_resume hg
  have hw := status_written hc o j
  generalize g.pc = pc at hm hw
  generalize g'.pc = pc' at hm hearly
  generalize o.answer = a at hm
  cases hm with
  | early he hclose hmark _ =>
    rcases hw with ⟨hst, -⟩ | ⟨hmark', -, -⟩ | ⟨hclose', -, -⟩
    · exact ⟨he, hst⟩
    · exact absurd hmark' hmark
    · rw [hclose] at hclose'; cases hclose'
  | _ => cases hearly

/-- A call keeps the accord between its goroutine and its job. -/
theorem accords_call {g g' : Goroutine} {c : Call} {o : Outcome} {j : ImportJob}
    (hc : g.call = some c) (hg : g.resume o.answer = some g') (h : Accords g.pc j.status) :
    Accords g'.pc (written c o j).status := by
  have hnojob : ∀ j stale, o.answer ≠ .job j stale := by cases o <;> simp [Outcome.answer]
  have hm := Goroutine.moves_of_resume hg
  generalize hpc : g.pc = pc at hm h
  generalize hpc' : g'.pc = pc' at hm
  generalize ha : o.answer = a at hm hnojob
  have hw := status_written hc o j
  rw [hpc] at hw
  cases hm with
  | early he hclose hmark he' =>
    rcases hw with ⟨hst, -⟩ | ⟨hmark', -, -⟩ | ⟨hclose', -, -⟩
    · rw [hst]; exact accords_of_early he' (h.1 he)
    · exact absurd hmark' hmark
    · rw [hclose] at hclose'; cases hclose'
  | await =>
    -- the write is confirmed, so it reached the database
    have happ : o.applied = true := by
      cases o with
      | ok => rfl
      | err e applied => cases ha
    rcases hw with ⟨-, hnot⟩ | ⟨-, -, hst⟩ | ⟨hclose, -, -⟩
    · rw [hnot rfl] at happ; cases happ
    · rw [hst]; exact accords_of_confirming rfl
    · cases hclose
  | tick =>
    rcases hw with ⟨hst, -⟩ | ⟨hmark, -, -⟩ | ⟨hclose, -, -⟩
    · rw [hst, h.2.1 rfl]; exact accords_of_confirming rfl
    · cases hmark
    · cases hclose
  | retry =>
    rcases hw with ⟨hst, -⟩ | ⟨hmark, -, -⟩ | ⟨hclose, -, -⟩
    · rw [hst, h.2.1 rfl]; exact accords_of_confirming rfl
    · cases hmark
    · cases hclose
  | wait => exact absurd rfl (hnojob _ _)
  | confirmed => exact absurd rfl (hnojob _ _)
  | unconfirmed => exact absurd rfl (hnojob _ _)
  | elsewhere => exact absurd rfl (hnojob _ _)
  | fail hclose hread hret =>
    rcases hw with ⟨hst, -⟩ | ⟨-, -, hst⟩ | ⟨hclose', -, -⟩
    · rw [hst]; exact accords_failing (h.status_cases hret)
    · rw [hst]; exact accords_failing (Or.inr (Or.inl rfl))
    · rw [hclose] at hclose'; cases hclose'
  | ending =>
    rcases hw with ⟨hst, -⟩ | ⟨hmark, -, -⟩ | ⟨hclose, -, -⟩
    · rw [hst]; exact accords_failing (h.status_cases (by simp))
    · cases hmark
    · cases hclose
  | close => exact accords_returned _

/-- Reading the job back keeps the accord. -/
theorem accords_read {g g' : Goroutine} {j : ImportJob} {stale : Bool}
    (hg : g.resume (.job j stale) = some g') (h : Accords g.pc j.status) :
    Accords g'.pc j.status := by
  have hm := Goroutine.moves_of_resume hg
  generalize g.pc = pc at hm h
  generalize g'.pc = pc' at hm
  cases hm with
  | early he _ _ he' => exact accords_of_early he' (h.1 he)
  | wait => rw [h.2.1 rfl]; exact accords_of_confirming rfl
  | confirmed => rw [h.2.1 rfl]; exact accords_of_confirming rfl
  | unconfirmed => rw [h.2.1 rfl]; exact accords_failing (Or.inr (Or.inl rfl))
  | elsewhere => exact accords_returned _
  | close _ hnojob => exact absurd rfl (hnojob _ _)

/-- `FailStale` keeps the accord: it touches no job that awaits confirmation. -/
theorem Accords.failStale {pc : Pc} {st : Status} (h : Accords pc st)
    (hst : JobStore.prePublication st = true) : Accords pc .failed := by
  refine ⟨fun _ => Or.inr rfl, fun hc => ?_, fun _ _ => Or.inr (Or.inr rfl)⟩
  rw [h.2.1 hc] at hst
  cases hst

theorem owned_step {s s' : State} {a : Label} (hI : Owned s) (h : step s a = some s') :
    Owned s' := by
  intro id l' hl'
  rcases live_step h hl' with ⟨hl, hcall⟩ | ⟨p, n, file, -, -, hstore, rfl⟩ |
    ⟨l, -, hl, hstore, rfl⟩ | ⟨l, now, o, c, g, -, hl, hc, -, hg, hstore, rfl⟩ |
    ⟨l, j, stale, g, -, hl, hj, hg, hstore, rfl⟩
  · obtain ⟨j, hj, hacc⟩ := hI id l' hl
    obtain ⟨j', hj', ⟨hst, -⟩ | ⟨p, -, hpre, hst, -⟩ | ⟨now, o, l, next, e, ha, -⟩⟩ := job_step h hj
    · exact ⟨j', hj', hst ▸ hacc⟩
    · exact ⟨j', hj', hst ▸ hacc.failStale hpre⟩
    · exact absurd ha (hcall now o)
  · refine ⟨{ status := .parsing }, ?_, accords_of_early rfl (Or.inl rfl)⟩
    rw [hstore, JobStore.jobs_create, if_pos rfl]
  · rw [hstore]
    exact hI id l hl
  · obtain ⟨j, hj, hacc⟩ := hI id l hl
    rw [hstore]
    exact ⟨_, jobs_storeAfter_self hj c o, accords_call hc hg hacc⟩
  · obtain ⟨j', hj', hacc⟩ := hI id l hl
    rw [hj] at hj'
    cases hj'
    rw [hstore]
    exact ⟨j, hj, accords_read hg hacc⟩

/-- **Goroutines and statuses accord in every reachable state.** -/
theorem owned_of_run {s : State} {as : List Label} (h : exec step initial as = some s) :
    Owned s :=
  exec_invariant (fun _ _ _ hI hs => owned_step hI hs) (by rintro id l ⟨⟩) h

end Importer

end CsvProductUploader

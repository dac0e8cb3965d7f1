import CsvProductUploader.Kafka.Publisher

/-!
# Delivery failures of earlier imports

The error of a failed delivery stays in `firstErr` until somebody calls `Flush`,
and an import that ends on the error of its own publish or of its stream never
does.  The next import of the process then fails on an error that is not its own.

## Main definitions

* `Healthy` — the steps that let an import run through: its store works, its own
  events are delivered, its process and its deadline last.
* `Undamaged` — the steps that report no failed delivery before its flush.
* `Unharmed` — the import has reached processing, or completed without an event.

## Main results

* `earlier_failure_fails_import` — an import fails on the error of an earlier one.
* `import_unharmed_iff` — **to start on a publisher without an error, and to meet
  none before the flush, leaves an import unharmed**; one that runs alone is
  unharmed in no other case.
-/

namespace CsvProductUploader

namespace Publishing

open Runs

/-! ### The runs in question -/

/-- The store answers the import without an error, and neither its process nor its
deadline ends it.  No other importer starts, and the run ends before the import
reads its confirmation. -/
def Serves (p : ℕ) (id : GoString) : Importer.Label → Prop
  | .start _ => False
  | .stop q => q ≠ p
  | .expire id' => id' ≠ id
  | .call id' _ o => id' = id → o = .ok
  | .read id' _ => id' ≠ id
  | .startImport _ _ _ _ | .foldRow _ | .foldTotals _ => True

/-- Besides, the events of the import are all delivered. -/
def Healthy (p : ℕ) (id : GoString) : Label → Prop
  | .importer a => Serves p id a
  | .promise _ h err => h.1 = id → err = none
  | .check _ | .produce _ _ | .wait _ | .flush _ => True

/-- No delivery fails in the process while the import is short of its flush. -/
def Undamaged (p : ℕ) (id : GoString) (s : State) : Label → Prop
  | .promise q _ err => q = p → err ≠ none →
      ∀ l ∈ s.importer.live id, l.g.pc.unflushed = false
  | _ => True

/-- The process takes up no further import. -/
def Unshared (p : ℕ) : Label → Prop
  | .importer (.startImport q _ _ _) => q ≠ p
  | _ => True

/-- Every other import of the process has returned. -/
def Deserted (p : ℕ) (id : GoString) (s : Importer.State) : Prop :=
  ∀ id' l, id' ≠ id → s.live id' = some l → l.proc = p → l.g.pc = .returned

/-- The import is past the write of its status. -/
def Past (s : State) (id : GoString) : Prop :=
  ∃ l ∈ s.importer.live id, l.g.pc.confirming = true ∨ l.g.pc = .returned

/-- The import has reached processing, or completion if it had nothing to publish. -/
def Unharmed (s : State) (id : GoString) : Prop :=
  ∃ l ∈ s.importer.live id, ∃ j ∈ s.importer.store.jobs id,
    j.status = if l.g.published = 0 then .completed else .processing

instance (p : ℕ) (id : GoString) : ∀ a, Decidable (Serves p id a)
  | .start _ => isFalse fun h => h
  | .stop q => inferInstanceAs (Decidable (q ≠ p))
  | .expire id' => inferInstanceAs (Decidable (id' ≠ id))
  | .call id' _ o => inferInstanceAs (Decidable (id' = id → o = .ok))
  | .read id' _ => inferInstanceAs (Decidable (id' ≠ id))
  | .startImport _ _ _ _ | .foldRow _ | .foldTotals _ => isTrue trivial

instance (p : ℕ) (id : GoString) : ∀ a, Decidable (Healthy p id a)
  | .importer a => inferInstanceAs (Decidable (Serves p id a))
  | .promise _ h err => inferInstanceAs (Decidable (h.1 = id → err = none))
  | .check _ | .produce _ _ | .wait _ | .flush _ => isTrue trivial

instance (p : ℕ) (id : GoString) (s : State) : ∀ a, Decidable (Undamaged p id s a)
  | .promise _ _ _ => inferInstanceAs (Decidable (_ → _ → ∀ l ∈ s.importer.live id, _))
  | .importer _ | .check _ | .produce _ _ | .wait _ | .flush _ => isTrue trivial

instance (s : State) (id : GoString) : Decidable (Past s id) :=
  inferInstanceAs (Decidable (∃ l ∈ s.importer.live id, _))

instance (s : State) (id : GoString) : Decidable (Unharmed s id) :=
  inferInstanceAs (Decidable (∃ l ∈ s.importer.live id, ∃ j ∈ s.importer.store.jobs id, _))

/-! ### An import that runs through -/

/-- Where an import that meets no error stands, by the status of its job. -/
def OnCourse (g : Goroutine) (st : Status) : Prop :=
  match g.pc with
  | .opening | .streaming _ | .publishing _ _ | .saving _ | .flushing | .savingTotals =>
    st = .parsing
  | .completingEmpty => st = .parsing ∧ g.published = 0
  | .markingProcessing => st = .parsing ∧ g.published ≠ 0
  | .awaiting | .reading => st = .processing ∧ g.published ≠ 0
  | .completing | .failing _ => False
  | .returned => st = .completed ∧ g.published = 0

/-- An answer without an error keeps the import on course. -/
theorem onCourse_call {g g' : Goroutine} {c : Call} {j : ImportJob} (hc : g.call = some c)
    (hg : g.resume .ok = some g') (hfile : g.file.ending = none) (h : OnCourse g j.status) :
    OnCourse g' (Importer.written c .ok j).status ∧ g'.file = g.file ∧
      (g'.pc.unflushed = true → g.pc.unflushed = true) := by
  -- Every call succeeds, so the goroutine takes the straight way through its places.
  cases hpc : g.pc with
  | streaming rows =>
    simp only [Goroutine.call, hpc, Option.some.injEq] at hc
    simp only [OnCourse, hpc] at h
    subst hc
    cases rows with
    | nil =>
      simp only [Goroutine.resume, hpc, hfile, Option.some.injEq] at hg
      subst hg
      exact ⟨h, rfl, fun _ => rfl⟩
    | cons row rows =>
      simp only [Goroutine.resume, hpc] at hg
      split at hg <;> cases hg <;> exact ⟨h, rfl, fun _ => rfl⟩
  | publishing row rows =>
    simp only [Goroutine.call, hpc, Option.some.injEq] at hc
    simp only [OnCourse, hpc] at h
    simp only [Goroutine.resume, hpc, Option.some.injEq] at hg
    subst hc hg
    dsimp only
    split_ifs <;> exact ⟨h, rfl, fun _ => rfl⟩
  | savingTotals =>
    simp only [Goroutine.call, hpc, Option.some.injEq] at hc
    simp only [OnCourse, hpc] at h
    simp only [Goroutine.resume, hpc, Option.some.injEq] at hg
    subst hc hg
    by_cases hpub : g.published = 0
    · rw [if_pos hpub]
      exact ⟨⟨h, hpub⟩, rfl, by simp [Pc.unflushed]⟩
    · rw [if_neg hpub]
      exact ⟨⟨h, hpub⟩, rfl, by simp [Pc.unflushed]⟩
  | completing | failing => simp only [OnCourse, hpc] at h
  | reading | returned => simp [Goroutine.resume, hpc] at hg
  | opening | saving | flushing | completingEmpty | markingProcessing | awaiting =>
    simp only [Goroutine.call, hpc, Option.some.injEq] at hc
    simp only [OnCourse, hpc] at h
    simp only [Goroutine.resume, hpc, Option.some.injEq] at hg
    subst hc hg
    simp [OnCourse, h, Importer.written, Importer.Outcome.applied, Pc.unflushed]

/-- The import runs in the process `p` and meets no error. -/
def OnTrack (p : ℕ) (id : GoString) (s : Importer.State) : Prop :=
  ∃ l j, s.live id = some l ∧ s.store.jobs id = some j ∧ l.proc = p ∧
    l.g.file.ending = none ∧ OnCourse l.g j.status

/-- The import is short of its flush. -/
def Short (id : GoString) (s : Importer.State) : Prop :=
  ∃ l, s.live id = some l ∧ l.g.pc.unflushed = true

theorem OnTrack.proc {p : ℕ} {id : GoString} {s : Importer.State} {l : Importer.Live}
    (h : OnTrack p id s) (hl : s.live id = some l) : l.proc = p := by
  obtain ⟨l', j, hl', -, hproc, -⟩ := h
  rw [hl] at hl'
  cases hl'
  exact hproc

/-- A step that serves the import keeps it on track, and takes it past its flush
but never back. -/
theorem onTrack_step {s s' : Importer.State} {a : Importer.Label} {p : ℕ} {id : GoString}
    (hI : OnTrack p id s) (ha : Serves p id a) (h : Importer.step s a = some s') :
    OnTrack p id s' ∧ (Short id s' → Short id s) := by
  obtain ⟨l, j, hl, hj, hproc, hfile, hcourse⟩ := hI
  rcases Importer.live_next h hl hj with ⟨hl', hcall⟩ | ⟨rfl, -⟩ | ⟨rfl, -⟩ |
    ⟨now, o, c, g, rfl, hc, -, hg, hstore, hl'⟩ | ⟨stale, g, rfl, -⟩
  · obtain ⟨j', hj', ⟨hst, -⟩ | ⟨q, rfl, -⟩ | ⟨now, o, -, -, -, rfl, -⟩⟩ := Importer.job_step h hj
    · refine ⟨⟨l, j', hl', hj', hproc, hfile, hst ▸ hcourse⟩, fun hs => ?_⟩
      obtain ⟨l'', hl'', hpc⟩ := hs
      rw [hl'] at hl''
      cases hl''
      exact ⟨l, hl, hpc⟩
    · exact ha.elim
    · exact absurd rfl (hcall now o)
  · -- Its own process does not stop.
    exact absurd hproc ha
  · exact absurd rfl ha
  · obtain rfl : o = .ok := ha rfl
    obtain ⟨hcourse', hfile', hunf⟩ := onCourse_call hc hg hfile hcourse
    refine ⟨⟨_, _, hl', ?_, hproc, by rw [hfile']; exact hfile, hcourse'⟩, fun hs => ?_⟩
    · rw [hstore]
      exact Importer.jobs_storeAfter_self hj c .ok
    · obtain ⟨l'', hl'', hpc⟩ := hs
      rw [hl'] at hl''
      cases hl''
      exact ⟨l, hl, hunf hpc⟩
  · exact absurd rfl ha

/-- The import runs through, and no error waits for it. -/
def Unhurt (p : ℕ) (id : GoString) (s : State) : Prop :=
  OnTrack p id s.importer ∧ (Short id s.importer → (s.publisher p).firstErr = none)

/-- Only a starting process gets a new publisher. -/
theorem publisher_serves {s : State} {a : Importer.Label} {p q : ℕ} {id : GoString}
    (ha : Serves p id a) : (s.restarted a).publisher q = s.publisher q := by
  cases a with
  | start r => exact ha.elim
  | _ => rfl

/-- The publisher of a process that hands a record to the client keeps its error. -/
theorem firstErr_update_buffered (publisher : ℕ → Publisher) (p q : ℕ) (buffered : List Handle) :
    (Function.update publisher q { publisher q with buffered } p).firstErr =
      (publisher p).firstErr := by
  rw [Function.update_apply]
  split
  · next hp => rw [hp]
  · rfl

theorem unhurt_step {s s' : State} {a : Label} {p : ℕ} {id : GoString} (hI : Unhurt p id s)
    (ha : Healthy p id a) (hC : Undamaged p id s a) (h : step s a = some s') :
    Unhurt p id s' := by
  obtain ⟨htrack, hclean⟩ := hI
  cases a with
  | importer a =>
    obtain ⟨-, importer, himp, rfl⟩ := step_importer h
    obtain ⟨htrack', hshort⟩ := onTrack_step htrack ha himp
    refine ⟨htrack', fun hs => ?_⟩
    dsimp only
    rw [publisher_serves ha]
    exact hclean (hshort hs)
  | check id' =>
    obtain ⟨l, row, hl, hc, -, ⟨e, importer, herr, himp, rfl⟩ | ⟨-, rfl⟩⟩ := step_check h
    · have hne : id' ≠ id := by
        -- the import itself finds no error
        rintro rfl
        obtain ⟨rows, hpc⟩ := pc_of_call_publish hc
        rw [htrack.proc hl, hclean ⟨l, hl, by rw [hpc]; rfl⟩] at herr
        cases herr
      have hserves : Serves p id
          (.call id' 0 (.err ("event delivery previously failed: " ++ e) false)) :=
        fun hid => absurd hid hne
      obtain ⟨htrack', hshort⟩ := onTrack_step htrack hserves himp
      exact ⟨htrack', fun hs => hclean (hshort hs)⟩
    · exact ⟨htrack, hclean⟩
  | produce id' now =>
    obtain ⟨l, row, importer, -, -, himp, rfl⟩ := step_produce h
    have hserves : Serves p id (.call id' now .ok) := fun _ => rfl
    obtain ⟨htrack', hshort⟩ := onTrack_step htrack hserves himp
    refine ⟨htrack', fun hs => ?_⟩
    dsimp only
    rw [firstErr_update_buffered]
    exact hclean (hshort hs)
  | wait id' =>
    obtain ⟨l, -, -, -, -, rfl⟩ := step_wait h
    exact ⟨htrack, hclean⟩
  | flush id' =>
    obtain ⟨l, o, importer, hl, hpc, -, hcell, himp, rfl⟩ := step_flush h
    have hserves : Serves p id (.call id' 0 o) := by
      rintro rfl
      have hnone := hclean ⟨l, hl, by rw [hpc]; rfl⟩
      rcases hcell with ⟨-, ho⟩ | ⟨e, herr, -⟩
      · exact ho
      · rw [htrack.proc hl, hnone] at herr
        cases herr
    obtain ⟨htrack', hshort⟩ := onTrack_step htrack hserves himp
    refine ⟨htrack', fun hs => ?_⟩
    simp only [Function.update_apply]
    split
    · rfl
    · exact hclean (hshort hs)
  | promise q hd err =>
    obtain ⟨-, -, rfl⟩ := step_promise h
    refine ⟨htrack, fun hs => ?_⟩
    have hnone := hclean hs
    obtain ⟨l, hl, hpc⟩ := hs
    simp only [Function.update_apply]
    split
    · next hq =>
      subst hq
      have herr : err = none := by
        by_contra hne
        rw [hC rfl hne l hl] at hpc
        cases hpc
      simp [Publisher.settle, hnone, herr]
    · exact hnone

/-! ### An import that meets an error -/

/-- The import has failed. -/
def Broken (p : ℕ) (id : GoString) (s : Importer.State) : Prop :=
  ∃ l j, s.live id = some l ∧ s.store.jobs id = some j ∧ l.proc = p ∧
    ((∃ cause, l.g.pc = .failing cause) ∨ (l.g.pc = .returned ∧ j.status = .failed))

/-- A failed import stays so. -/
theorem broken_step {s s' : Importer.State} {a : Importer.Label} {p : ℕ} {id : GoString}
    (hI : Broken p id s) (ha : Serves p id a) (h : Importer.step s a = some s') :
    Broken p id s' := by
  obtain ⟨l, j, hl, hj, hproc, hpc⟩ := hI
  rcases Importer.live_next h hl hj with ⟨hl', hcall⟩ | ⟨rfl, -⟩ | ⟨rfl, -⟩ |
    ⟨now, o, c, g, rfl, hc, -, hg, hstore, hl'⟩ | ⟨stale, g, rfl, -⟩
  · obtain ⟨j', hj', ⟨hst, -⟩ | ⟨q, rfl, -⟩ | ⟨now, o, -, -, -, rfl, -⟩⟩ := Importer.job_step h hj
    · exact ⟨l, j', hl', hj', hproc, hst ▸ hpc⟩
    · exact ha.elim
    · exact absurd rfl (hcall now o)
  · exact absurd hproc ha
  · exact absurd rfl ha
  · obtain rfl : o = .ok := ha rfl
    rcases hpc with ⟨cause, hpc⟩ | ⟨hpc, -⟩
    · simp only [Goroutine.call, hpc, Option.some.injEq] at hc
      simp only [Goroutine.resume, hpc, Importer.Outcome.answer, Option.some.injEq] at hg
      subst hc hg
      have hj' := Importer.jobs_storeAfter_self hj (.updateStatus .failed (some cause.error)) .ok
      exact ⟨_, _, hl', by rw [hstore]; exact hj', hproc, Or.inr ⟨rfl, rfl⟩⟩
    · rw [Goroutine.call, hpc] at hc
      cases hc
  · exact absurd rfl ha

/-- An import short of its flush stays so, unless the publisher answers it. -/
theorem short_step {s s' : Importer.State} {a : Importer.Label} {p : ℕ} {id : GoString}
    (hI : OnTrack p id s) (hs : Short id s) (ha : Serves p id a)
    (hno : answersPublisher s a = false) (h : Importer.step s a = some s') : Short id s' := by
  obtain ⟨l, j, hl, hj, hproc, hfile, -⟩ := hI
  obtain ⟨l₀, hl₀, hpc⟩ := hs
  rw [hl] at hl₀
  cases hl₀
  rcases Importer.live_next h hl hj with ⟨hl', -⟩ | ⟨rfl, -⟩ | ⟨rfl, -⟩ |
    ⟨now, o, c, g, rfl, hc, -, hg, -, hl'⟩ | ⟨stale, g, rfl, -⟩
  · exact ⟨l, hl', hpc⟩
  · exact absurd hproc ha
  · exact absurd rfl ha
  · obtain rfl : o = .ok := ha rfl
    refine ⟨_, hl', ?_⟩
    simp only [answersPublisher, hl, hc, Option.bind_some, Option.any_some] at hno
    -- The calls of the publisher are not among these labels: the others lead on before the flush.
    cases hpc' : l.g.pc with
    | streaming rows =>
      cases rows with
      | nil =>
        simp only [Goroutine.resume, hpc', Importer.Outcome.answer, hfile, Option.some.injEq] at hg
        rw [← hg]
        rfl
      | cons row rows =>
        simp only [Goroutine.resume, hpc', Importer.Outcome.answer] at hg
        split at hg <;> cases hg <;> rfl
    | publishing | flushing =>
      simp only [Goroutine.call, hpc', Option.some.injEq] at hc
      subst hc
      cases hno
    | opening | saving =>
      simp only [Goroutine.resume, hpc', Importer.Outcome.answer, Option.some.injEq] at hg
      rw [← hg]
      rfl
    | _ => rw [hpc'] at hpc; cases hpc
  · exact absurd rfl ha

/-- The import has failed, or an error waits for it at its next publish or flush. -/
def Doomed (p : ℕ) (id : GoString) (s : State) : Prop :=
  Broken p id s.importer ∨
    (OnTrack p id s.importer ∧ Short id s.importer ∧ (s.publisher p).firstErr ≠ none)

/-- An import that the publisher answers with an error has failed. -/
theorem broken_of_refused {s s' : Importer.State} {p : ℕ} {id : GoString} {now : ℤ} {e : String}
    {l : Importer.Live} (hI : OnTrack p id s) (hl : s.live id = some l)
    (hpc : (∃ row rows, l.g.pc = .publishing row rows) ∨ l.g.pc = .flushing)
    (h : Importer.step s (.call id now (.err e false)) = some s') : Broken p id s' := by
  obtain ⟨l', j, hl', hj, hproc, -⟩ := hI
  rw [hl] at hl'
  cases hl'
  obtain ⟨l', c, g, hl', hc, -, hg, rfl⟩ := Importer.step_call h
  rw [hl] at hl'
  cases hl'
  refine ⟨_, _, Importer.live_continue_self .., Importer.jobs_storeAfter_self hj c _, hproc,
    Or.inl ?_⟩
  rcases hpc with ⟨row, rows, hpc⟩ | hpc
  · simp only [Goroutine.resume, hpc, Importer.Outcome.answer, Option.some.injEq] at hg
    exact ⟨_, by rw [← hg]⟩
  · simp only [Goroutine.resume, hpc, Importer.Outcome.answer, Option.some.injEq] at hg
    exact ⟨_, by rw [← hg]⟩

/-- No step of the publisher revives a failed import. -/
theorem broken_stays {s s' : State} {a : Label} {p : ℕ} {id : GoString}
    (hI : Broken p id s.importer) (ha : Healthy p id a) (h : step s a = some s') :
    Broken p id s'.importer := by
  -- A broken import asks nothing of the publisher any more.
  have hidle : ∀ l, s.importer.live id = some l →
      (∀ row rows, l.g.pc ≠ .publishing row rows) ∧ l.g.pc ≠ .flushing := by
    intro l hl
    obtain ⟨l', j, hl', -, -, hpc⟩ := hI
    rw [hl] at hl'
    cases hl'
    rcases hpc with ⟨cause, hpc⟩ | ⟨hpc, -⟩ <;> simp [hpc]
  cases a with
  | importer a =>
    obtain ⟨-, importer, himp, rfl⟩ := step_importer h
    exact broken_step hI ha himp
  | check id' =>
    obtain ⟨l, row, hl, hc, -, ⟨e, importer, -, himp, rfl⟩ | ⟨-, rfl⟩⟩ := step_check h
    · refine broken_step hI (a := .call id' 0 _) ?_ himp
      rintro rfl
      obtain ⟨rows, hpc⟩ := pc_of_call_publish hc
      exact absurd hpc ((hidle l hl).1 row rows)
    · exact hI
  | produce id' now =>
    obtain ⟨l, row, importer, -, -, himp, rfl⟩ := step_produce h
    exact broken_step hI (a := .call id' now .ok) (fun _ => rfl) himp
  | wait id' =>
    obtain ⟨l, -, -, -, -, rfl⟩ := step_wait h
    exact hI
  | flush id' =>
    obtain ⟨l, o, importer, hl, hpc, -, -, himp, rfl⟩ := step_flush h
    refine broken_step hI (a := .call id' 0 o) ?_ himp
    rintro rfl
    exact absurd hpc (hidle l hl).2
  | promise q hd err =>
    obtain ⟨-, -, rfl⟩ := step_promise h
    exact hI

/-- The call of another goroutine leaves the import where it is. -/
theorem short_of_call {s s' : Importer.State} {id id' : GoString} {now : ℤ} {o : Importer.Outcome}
    (hs : Short id s) (hne : id' ≠ id) (h : Importer.step s (.call id' now o) = some s') :
    Short id s' := by
  obtain ⟨l, hl, hpc⟩ := hs
  obtain ⟨l', c, g, -, -, -, -, rfl⟩ := Importer.step_call h
  exact ⟨l, by rw [Importer.live_continue_of_ne _ _ _ _ hne.symm, hl], hpc⟩

/-- While the import is the only one at work in its process, an error on record
waits for nobody else. -/
theorem doomed_step {s s' : State} {a : Label} {p : ℕ} {id : GoString} (hI : Doomed p id s)
    (hD : Deserted p id s.importer) (ha : Healthy p id a) (h : step s a = some s') :
    Doomed p id s' := by
  rcases hI with hbroken | ⟨htrack, hshort, herr⟩
  · exact Or.inl (broken_stays hbroken ha h)
  -- Nobody else of the process calls, so nobody else takes the error.
  have helsewhere : ∀ id' l, id' ≠ id → s.importer.live id' = some l → l.g.pc ≠ .returned →
      p ≠ l.proc := fun id' l hne hl hpc hp => hpc (hD id' l hne hl hp.symm)
  cases a with
  | importer a =>
    obtain ⟨hno, importer, himp, rfl⟩ := step_importer h
    refine Or.inr ⟨(onTrack_step htrack ha himp).1, short_step htrack hshort ha hno himp, ?_⟩
    dsimp only
    rw [publisher_serves ha]
    exact herr
  | check id' =>
    obtain ⟨l, row, hl, hc, -, hcell⟩ := step_check h
    obtain ⟨rows, hpc⟩ := pc_of_call_publish hc
    by_cases hid : id' = id
    · subst hid
      rcases hcell with ⟨e, importer, -, himp, rfl⟩ | ⟨hnone, -⟩
      · exact Or.inl (broken_of_refused htrack hl (Or.inl ⟨row, rows, hpc⟩) himp)
      · rw [htrack.proc hl] at hnone
        exact absurd hnone herr
    · rcases hcell with ⟨e, importer, -, himp, rfl⟩ | ⟨-, rfl⟩
      · have hserves : Serves p id
            (.call id' 0 (.err ("event delivery previously failed: " ++ e) false)) :=
          fun h => absurd h hid
        exact Or.inr ⟨(onTrack_step htrack hserves himp).1, short_of_call hshort hid himp, herr⟩
      · exact Or.inr ⟨htrack, hshort, herr⟩
  | produce id' now =>
    obtain ⟨l, row, importer, hl, hc, himp, rfl⟩ := step_produce h
    obtain ⟨rows, hpc⟩ := pc_of_call_publish hc
    have htrack' := (onTrack_step htrack (a := .call id' now .ok) (fun _ => rfl) himp).1
    refine Or.inr ⟨htrack', ?_, by rwa [firstErr_update_buffered]⟩
    by_cases hid : id' = id
    · subst hid
      obtain ⟨l', c, g, hl', -, -, hg, rfl⟩ := Importer.step_call himp
      rw [hl] at hl'
      cases hl'
      simp only [Goroutine.resume, hpc, Importer.Outcome.answer, Option.some.injEq] at hg
      refine ⟨_, Importer.live_continue_self .., ?_⟩
      rw [← hg]
      dsimp only
      split_ifs <;> rfl
    · exact short_of_call hshort hid himp
  | wait id' =>
    obtain ⟨l, -, -, -, -, rfl⟩ := step_wait h
    exact Or.inr ⟨htrack, hshort, herr⟩
  | flush id' =>
    obtain ⟨l, o, importer, hl, hpc, -, hcell, himp, rfl⟩ := step_flush h
    by_cases hid : id' = id
    · subst hid
      rcases hcell with ⟨hnone, -⟩ | ⟨e, -, rfl⟩
      · rw [htrack.proc hl] at hnone
        exact absurd hnone herr
      · exact Or.inl (broken_of_refused htrack hl (Or.inr hpc) himp)
    · have hserves : Serves p id (.call id' 0 o) := fun h => absurd h hid
      refine Or.inr ⟨(onTrack_step htrack hserves himp).1, short_of_call hshort hid himp, ?_⟩
      simp only [Function.update_of_ne (helsewhere id' l hid hl (by simp [hpc]))]
      exact herr
  | promise q hd err =>
    obtain ⟨-, -, rfl⟩ := step_promise h
    refine Or.inr ⟨htrack, hshort, ?_⟩
    simp only [Function.update_apply]
    split
    · next hq =>
      subst hq
      -- The first error stays the first.
      simp [Publisher.settle, Option.or_eq_none_iff, herr]
    · exact herr

/-- A process that takes up no further import stays deserted. -/
theorem deserted_step {s s' : State} {a : Label} {p : ℕ} {id : GoString}
    (hD : Deserted p id s.importer) (ha : Unshared p a) (h : step s a = some s') :
    Deserted p id s'.importer := by
  -- An import that has returned makes no call, and none is started in the process.
  have hlift : ∀ b t, Importer.step s.importer b = some t → Unshared p (.importer b) →
      Deserted p id t := by
    intro b t hb hshare id' l' hne hl' hproc
    rcases Importer.live_step hb hl' with ⟨hl, -⟩ | ⟨q, n, file, rfl, -, -, rfl⟩ |
      ⟨l, -, hl, -, rfl⟩ | ⟨l, now, o, c, g, -, hl, hc, -, -, -, rfl⟩ |
      ⟨l, j, stale, g, -, hl, -, hg, -, rfl⟩
    · exact hD id' l' hne hl hproc
    · exact absurd hproc hshare
    · exact hD id' l hne hl hproc
    · rw [Goroutine.call, hD id' l hne hl hproc] at hc
      cases hc
    · simp [Goroutine.resume, hD id' l hne hl hproc] at hg
  cases a with
  | importer a =>
    obtain ⟨-, importer, himp, rfl⟩ := step_importer h
    exact hlift a _ himp ha
  | check id' =>
    obtain ⟨l, row, -, -, -, ⟨e, importer, -, himp, rfl⟩ | ⟨-, rfl⟩⟩ := step_check h
    · exact hlift _ _ himp trivial
    · exact hD
  | produce id' now =>
    obtain ⟨l, row, importer, -, -, himp, rfl⟩ := step_produce h
    exact hlift _ _ himp trivial
  | wait id' =>
    obtain ⟨l, -, -, -, -, rfl⟩ := step_wait h
    exact hD
  | flush id' =>
    obtain ⟨l, o, importer, -, -, -, -, himp, rfl⟩ := step_flush h
    exact hlift _ _ himp trivial
  | promise q hd err =>
    obtain ⟨-, -, rfl⟩ := step_promise h
    exact hD

/-! ### The verdict -/

theorem unharmed_of_unhurt {s : State} {p : ℕ} {id : GoString} (hI : Unhurt p id s)
    (hpast : Past s id) : Unharmed s id := by
  obtain ⟨⟨l, j, hl, hj, -, -, hcourse⟩, -⟩ := hI
  obtain ⟨l', hl', hpc⟩ := hpast
  cases Option.mem_unique hl hl'
  refine ⟨l, hl, j, hj, ?_⟩
  cases hpc' : l.g.pc with
  | awaiting | reading =>
    simp only [OnCourse, hpc'] at hcourse
    rw [if_neg hcourse.2, hcourse.1]
  | returned =>
    simp only [OnCourse, hpc'] at hcourse
    rw [if_pos hcourse.2, hcourse.1]
  | completing => simp only [OnCourse, hpc'] at hcourse
  | _ => rw [hpc'] at hpc; rcases hpc with hpc | hpc <;> cases hpc

theorem not_unharmed_of_doomed {s : State} {p : ℕ} {id : GoString} (hI : Doomed p id s)
    (hpast : Past s id) : ¬ Unharmed s id := by
  intro hun
  obtain ⟨l, hl, j, hj, hst⟩ := hun
  obtain ⟨l', hl', hpc⟩ := hpast
  cases Option.mem_unique hl hl'
  rcases hI with ⟨l', j', hl', hj', -, ⟨cause, hfail⟩ | ⟨-, hfail⟩⟩ | ⟨-, ⟨l', hl', hunf⟩, -⟩
  · cases Option.mem_unique hl hl'
    rw [hfail] at hpc
    rcases hpc with hpc | hpc <;> cases hpc
  · cases Option.mem_unique hj hj'
    rw [hfail] at hst
    split at hst <;> cases hst
  · cases Option.mem_unique hl hl'
    rcases hpc with hpc | hpc
    · rw [Pc.not_confirming_of_unflushed hunf] at hpc
      cases hpc
    · rw [hpc] at hunf
      cases hunf

/-- Two rows are published; the first fails delivery, so the second is refused, and
the import is recorded as failed without ever calling `Flush`. -/
def failedHistory (id : GoString) (row : Row) : List Label :=
  [.importer (.start 0), .importer (.startImport 0 id 10 { rows := [row, row] }),
    .importer (.call id 0 .ok), .importer (.call id 0 .ok), .check id, .produce id 0,
    .promise 0 (id, 0) (some "delivery timed out"), .importer (.call id 0 .ok), .check id,
    .importer (.call id 0 .ok)]

/-- The next import finds that error at its first row and is recorded as failed. -/
def refusedCalls (id : GoString) : List Label :=
  [.importer (.call id 0 .ok), .importer (.call id 0 .ok), .check id, .importer (.call id 0 .ok)]

/-- The calls of an import of one row, all answered without an error, up to the
first tick of `awaitConfirmation`. -/
def aloneCalls (id : GoString) : List Label :=
  [.importer (.call id 0 .ok), .importer (.call id 0 .ok), .check id, .produce id 0,
    .importer (.call id 0 .ok), .promise 0 (id, 0) none, .wait id, .flush id,
    .importer (.call id 0 .ok), .importer (.call id 0 .ok)]

/-- An import that runs alone, with a working store and every event of its own
delivered, fails on the error of an earlier one, which has ended. -/
theorem earlier_failure_fails_import :
    ¬ ∀ (as bs : List Label) (s s' t : State) (p n : ℕ) (id : GoString) (file : File),
      exec step initial as = some s → Deserted p id s.importer →
      step s (.importer (.startImport p id n file)) = some s' → exec step s' bs = some t →
      file.ending = none → (∀ a ∈ bs, Healthy p id a) → Past t id → Unharmed t id := by
  intro h
  have hhist : ∃ s, exec step initial (failedHistory someJobID plainRow) = some s ∧
      Deserted 0 otherJobID s.importer ∧ ∃ s' t,
        step s (.importer (.startImport 0 otherJobID 10 { rows := [plainRow] })) = some s' ∧
        exec step s' (refusedCalls otherJobID) = some t ∧ Past t otherJobID ∧
        ¬ Unharmed t otherJobID := by
    refine ⟨_, rfl, ?_, _, _, rfl, rfl, by decide, by decide⟩
    intro id l _ hl _
    by_cases hid : id = someJobID
    · subst hid
      cases hl
      rfl
    · simp [Importer.State.continue, Function.update_of_ne hid, Importer.initial, initial] at hl
  obtain ⟨s, hs, hD, s', t, hs', ht, hpast, hun⟩ := hhist
  exact hun (h _ _ s s' t 0 10 _ _ hs hD hs' ht rfl (by decide) hpast)

/-- **Delivery failures reach an import through the publisher only**, whatever
state `s` the earlier imports have left.  It is unharmed if no error stands in
`firstErr` when it starts and no delivery fails before its flush, whatever the
other imports do; and if the earlier ones of its process have all ended it is
unharmed in no other case. -/
theorem import_unharmed_iff {bs : List Label} {s s' t : State} {p n : ℕ} {id : GoString}
    {file : File}
    (hstart : step s (.importer (.startImport p id n file)) = some s')
    (hbs : exec step s' bs = some t) (hfile : file.ending = none)
    (hhealthy : ∀ a ∈ bs, Healthy p id a) (hpast : Past t id) :
    ((s.publisher p).firstErr = none → Meets step (Undamaged p id) s' bs → Unharmed t id) ∧
      (Deserted p id s.importer → (∀ a ∈ bs, Unshared p a) →
        (Unharmed t id ↔
          (s.publisher p).firstErr = none ∧ Meets step (Undamaged p id) s' bs)) := by
  obtain ⟨-, importer, himp, hs'⟩ := step_importer hstart
  obtain ⟨-, -, himp'⟩ := Importer.step_startImport himp
  have hpub : s'.publisher p = s.publisher p := by rw [hs']; rfl
  have hlive : s'.importer.live id = some { proc := p, g := .start n file } := by
    rw [hs', himp']
    exact Function.update_self ..
  have htrack : OnTrack p id s'.importer := by
    refine ⟨_, { status := .parsing }, hlive, ?_, rfl, hfile, rfl⟩
    rw [hs', himp', JobStore.jobs_create, if_pos rfl]
  have hunhurt : ∀ bs' u, (∀ a ∈ bs', Healthy p id a) → Meets step (Undamaged p id) s' bs' →
      exec step s' bs' = some u → (s.publisher p).firstErr = none → Unhurt p id u := by
    intro bs' u hall hC hu hnone
    have hserved : Meets step (fun _ a => Healthy p id a) s' bs' :=
      meets_of_forall (fun a ha _ => hall a ha) s'
    refine exec_invariant_of_meets (I := Unhurt p id) ?_ ⟨htrack, fun _ => by rw [hpub, hnone]⟩
      (hserved.and hC) hu
    intro v a v' hI hC h
    exact unhurt_step hI hC.1 hC.2 h
  have henough : (s.publisher p).firstErr = none → Meets step (Undamaged p id) s' bs →
      Unharmed t id := fun hnone hC =>
    unharmed_of_unhurt (hunhurt bs t hhealthy hC hbs hnone) hpast
  refine ⟨henough, fun hD hshare => ⟨fun hun => ?_, fun hC => henough hC.1 hC.2⟩⟩
  have hall : ∀ a ∈ bs, Healthy p id a ∧ Unshared p a :=
    fun a ha => ⟨hhealthy a ha, hshare a ha⟩
  have hdeserted : ∀ bs' u, (∀ a ∈ bs', Healthy p id a ∧ Unshared p a) →
      exec step s' bs' = some u → Deserted p id u.importer := by
    intro bs' u hall hu
    refine exec_invariant_of_meets (C := fun _ a => Unshared p a)
      (I := fun s => Deserted p id s.importer) (fun _ _ _ hI hC h => deserted_step hI hC h) ?_
      (meets_of_forall (fun a ha _ => (hall a ha).2) s') hu
    intro id' l hne hl hproc
    rw [hs', himp'] at hl
    simp only [Function.update_of_ne hne] at hl
    exact hD id' l hne hl hproc
  -- an error on record reaches the import, since nobody else is there to take it
  have hnotdoomed : ∀ bs' u, (∀ a ∈ bs', Healthy p id a ∧ Unshared p a) →
      exec step u bs' = some t → Deserted p id u.importer → ¬ Doomed p id u := by
    intro bs' u hall hu hD hdoom
    have hend : Doomed p id t ∧ Deserted p id t.importer := by
      refine exec_invariant_of_meets (C := fun _ a => Healthy p id a ∧ Unshared p a)
        (I := fun s => Doomed p id s ∧ Deserted p id s.importer) ?_ ⟨hdoom, hD⟩
        (meets_of_forall (fun a ha _ => hall a ha) u) hu
      intro v a v' hI hC h
      exact ⟨doomed_step hI.1 hI.2 hC.1 h, deserted_step hI.2 hC.2 h⟩
    exact not_unharmed_of_doomed hend.1 hpast hun
  have hnone : (s.publisher p).firstErr = none := by
    by_contra herr
    have hD' := hdeserted [] s' (by simp) rfl
    refine hnotdoomed bs s' hall hbs hD' (Or.inr ⟨htrack, ⟨_, hlive, rfl⟩, ?_⟩)
    rwa [hpub]
  refine ⟨hnone, ?_⟩
  by_contra hC
  obtain ⟨bs₁, a, bs₂, u, v, rfl, hC₁, hu, ha, hv, ht⟩ := exists_of_not_meets hbs hC
  have hall₁ : ∀ a ∈ bs₁, Healthy p id a ∧ Unshared p a := fun a h => hall a (by simp [h])
  have hall₂ : ∀ a ∈ bs₂, Healthy p id a ∧ Unshared p a := fun a h => hall a (by simp [h])
  obtain ⟨htrack', -⟩ := hunhurt bs₁ u (fun a h => (hall₁ a h).1) hC₁ hu hnone
  have hD' : Deserted p id v.importer :=
    deserted_step (hdeserted bs₁ u hall₁ hu) (hall a (by simp)).2 hv
  refine hnotdoomed bs₂ v hall₂ ht hD' (Or.inr ?_)
  cases a with
  | promise q hd err =>
    simp only [Undamaged, not_forall] at ha
    obtain ⟨rfl, herr, l, hl, hpc⟩ := ha
    obtain ⟨-, -, rfl⟩ := step_promise hv
    refine ⟨htrack', ⟨l, hl, by simpa using hpc⟩, ?_⟩
    simp [Publisher.settle, Option.or_eq_none_iff, herr]
  | _ => exact absurd trivial ha

/-- An import publishes its only row, and its own flush returns the error of the delivery. -/
def takenHistory (id : GoString) (row : Row) : List Label :=
  [.importer (.start 0), .importer (.startImport 0 id 10 { rows := [row] }),
    .importer (.call id 0 .ok), .importer (.call id 0 .ok), .check id, .produce id 0,
    .promise 0 (id, 0) (some "delivery timed out"), .importer (.call id 0 .ok), .wait id,
    .flush id, .importer (.call id 0 .ok)]

/-- An import of one row, after another that has failed and has taken its error with it. -/
theorem import_unharmed_iff_taken :
    ∃ s s' t j, exec step initial (takenHistory someJobID plainRow) = some s ∧
      s.importer.store.jobs someJobID = some j ∧ j.status = .failed ∧
      step s (.importer (.startImport 0 otherJobID 10 { rows := [plainRow] })) = some s' ∧
      exec step s' (aloneCalls otherJobID) = some t ∧ Unharmed t otherJobID := by
  have hrun : ∃ s s' t j, exec step initial (takenHistory someJobID plainRow) = some s ∧
      s.importer.store.jobs someJobID = some j ∧ j.status = .failed ∧
      step s (.importer (.startImport 0 otherJobID 10 { rows := [plainRow] })) = some s' ∧
      exec step s' (aloneCalls otherJobID) = some t ∧ Past t otherJobID ∧
      (s.publisher 0).firstErr = none ∧
      Meets step (Undamaged 0 otherJobID) s' (aloneCalls otherJobID) ∧
      Deserted 0 otherJobID s.importer := by
    refine ⟨_, _, _, _, rfl, rfl, rfl, rfl, rfl, by decide, rfl, by decide, ?_⟩
    intro id l _ hl _
    by_cases hid : id = someJobID
    · subst hid
      cases hl
      rfl
    · simp [Importer.State.continue, Function.update_of_ne hid, Importer.initial, initial] at hl
  obtain ⟨s, s', t, j, hs, hj, hst, hs', ht, hpast, hnone, hC, hD⟩ := hrun
  refine ⟨s, s', t, j, hs, hj, hst, hs', ht, ?_⟩
  have hshare : ∀ a ∈ aloneCalls otherJobID, Unshared 0 a := by simp [aloneCalls, Unshared]
  exact ((import_unharmed_iff hs' ht rfl (by decide) hpast).2 hD hshare).mpr ⟨hnone, hC⟩

end Publishing

end CsvProductUploader

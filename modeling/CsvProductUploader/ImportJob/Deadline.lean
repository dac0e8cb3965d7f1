import CsvProductUploader.ImportJob.Importer

/-!
# The import deadline and the outcome of an import

`process` runs under a context that ends after `maxImportDuration`, and records
every outcome through that same context.  When the deadline is itself what ends
the import, the write that would record the failure is refused, and the job
stays in whatever state it had.

## Main definitions

* `Settled` — the job is completed, or failed with a cause.
* `Obliging` — the store fails a call only when its context is done.
* `Timely` — the write that ends the import is made in time.

## Main results

* `expired_import_unsettled` — an import that runs into its deadline returns with
  its job still parsing.
* `returned_import_settled` — **when `process` returns the job is settled exactly
  when its last write was timely**.
-/

namespace CsvProductUploader

namespace Importer

open Runs

/-- The job's stored status is terminal, and a failure carries its cause. -/
def Settled (store : JobStore) (id : GoString) : Prop :=
  ∃ j ∈ store.jobs id, j.status.terminal = true ∧ (j.status = .failed → j.lastError ≠ none)

/-- `process` has returned. -/
def Returned (s : State) (id : GoString) : Prop := ∃ l ∈ s.live id, l.g.pc = .returned

/-- The store fails a call only when the context passed to it is already done. -/
def Obliging (s : State) : Label → Prop
  | .call id _ o => ∀ l ∈ s.live id, ∀ c ∈ l.g.call, onStore c = true → o ≠ .ok →
      l.expired = true
  | _ => True

/-- The write with which `process` ends is made before the deadline, or the store
executes it all the same. -/
def Timely (id : GoString) (s : State) : Label → Prop
  | .call id' _ o => id' = id → ∀ l ∈ s.live id, l.g.pc.closing = true →
      l.expired = false ∨ o.applied = true
  | _ => True

/-- No importer process starts. -/
def NoStart : Label → Prop
  | .start _ => False
  | _ => True

instance (store : JobStore) (id : GoString) : Decidable (Settled store id) :=
  inferInstanceAs (Decidable (∃ j ∈ store.jobs id, _))

instance (s : State) (id : GoString) : Decidable (Returned s id) :=
  inferInstanceAs (Decidable (∃ l ∈ s.live id, _))

instance (s : State) : ∀ a, Decidable (Obliging s a)
  | .call id _ _ => inferInstanceAs (Decidable (∀ l ∈ s.live id, ∀ c ∈ l.g.call, _))
  | .start _ | .stop _ | .startImport _ _ _ _ | .expire _ | .read _ _ | .foldRow _
  | .foldTotals _ => isTrue trivial

instance (id : GoString) (s : State) : ∀ a, Decidable (Timely id s a)
  | .call _ _ _ => inferInstanceAs (Decidable (_ → ∀ l ∈ s.live id, _))
  | .start _ | .stop _ | .startImport _ _ _ _ | .expire _ | .read _ _ | .foldRow _
  | .foldTotals _ => isTrue trivial

/-! ### An import that runs into its deadline -/

/-- The deadline passes before the first record is read: the stream stops with the
context error, and the failure is written under that context. -/
def expiredRun (id : GoString) : List Label :=
  [.expire id, .call id 0 .ok, .call id 0 (.err "context deadline exceeded" false),
    .call id 0 (.err "context deadline exceeded" false)]

/-- The import returns, and its job is still parsing. -/
theorem expired_import_unsettled :
    ¬ ∀ (as bs : List Label) (s s' t : State) (p : ℕ) (id : GoString) (n : ℕ) (file : File),
      exec step initial as = some s → step s (.startImport p id n file) = some s' →
      exec step s' bs = some t → Meets step Obliging s' bs → Returned t id →
      Settled t.store id := by
  intro h
  have hsettled :=
    h [.start 0] (expiredRun someJobID) _ _ _ 0 someJobID 1 { rows := [] } rfl rfl rfl
    (by decide) (by decide)
  revert hsettled
  decide

/-! ### The write with which an import ends -/

/-- What the closing write does, once it reaches the database. -/
theorem settled_of_closing {g : Goroutine} {c : Call} {o : Outcome} {store : JobStore}
    {id : GoString} {j : ImportJob} (hc : g.call = some c) (hclose : g.pc.closing = true)
    (happ : o.applied = true) (hj : store.jobs id = some j) :
    Settled (storeAfter id store c o) id := by
  obtain ⟨next, lastErr, hcall, hterm, hcause⟩ := Goroutine.call_of_closing hclose
  rw [hc] at hcall
  cases hcall
  refine ⟨_, jobs_storeAfter_self hj _ o, ?_⟩
  simp only [written, happ]
  exact ⟨hterm, hcause⟩

/-- A closing write, whatever becomes of it, is the last call. -/
theorem returned_of_closing {g g' : Goroutine} {o : Outcome} (hg : g.resume o.answer = some g')
    (hclose : g.pc.closing = true) : g'.pc = .returned := by
  have hm := Goroutine.moves_of_resume hg
  generalize g.pc = pc at hm hclose
  generalize g'.pc = pc' at hm
  generalize o.answer = a at hm
  cases hm with
  | close => rfl
  | early _ hopen | fail hopen => rw [hopen] at hclose; cases hclose
  | _ => cases hclose

/-- The only way to return is through the closing write. -/
theorem closing_of_returned {g g' : Goroutine} {o : Outcome} (hg : g.resume o.answer = some g')
    (hret : g'.pc = .returned) : g.pc.closing = true := by
  have hm := Goroutine.moves_of_resume hg
  have hnojob : ∀ j stale, o.answer ≠ .job j stale := by cases o <;> simp [Outcome.answer]
  rw [hret] at hm
  generalize g.pc = pc at hm
  generalize o.answer = a at hm hnojob
  cases hm with
  | early _ _ _ he => cases he
  | elsewhere => exact absurd rfl (hnojob _ _)
  | close hclose => exact hclose

/-- Whoever has returned has settled its job. -/
def Concluded (id : GoString) (s : State) : Prop :=
  ∀ l, s.live id = some l → l.g.pc = .returned → Settled s.store id

/-- A timely write keeps `Concluded`. -/
theorem concluded_step {s s' : State} {a : Label} {id : GoString} (hI : Concluded id s)
    (hO : Owned s) (hobl : Obliging s a) (hC : Timely id s a) (h : step s a = some s') :
    Concluded id s' := by
  intro l' hl' hret
  rcases live_step h hl' with ⟨hl, hcall⟩ | ⟨p, n, file, -, -, -, rfl⟩ | ⟨l, -, hl, hstore, rfl⟩ |
    ⟨l, now, o, c, g, rfl, hl, hc, -, hg, hstore, rfl⟩ | ⟨l, j, stale, g, rfl, hl, hj, hg, -, rfl⟩
  · obtain ⟨j, hj, hterm, hcause⟩ := hI l' hl hret
    obtain ⟨j', hj', ⟨hst, herr⟩ | ⟨p, -, hpre, -⟩ | ⟨now, o, -, -, -, ha, -⟩⟩ := job_step h hj
    · exact ⟨j', hj', by rw [hst, herr]; exact ⟨hterm, hcause⟩⟩
    · rw [JobStore.not_terminal_of_prePublication hpre] at hterm
      cases hterm
    · exact absurd ha (hcall now o)
  · cases hret
  · rw [hstore]
    exact hI l hl hret
  · -- The goroutine returns with this call, which is then the terminal write.
    obtain ⟨j, hj, -⟩ := hO id l hl
    have hclose := closing_of_returned hg hret
    have happ : o.applied = true := by
      rcases hC rfl l hl hclose with hlive | happ
      · -- the context is live, so the store does not refuse the write
        obtain ⟨next, lastErr, hcall, -⟩ := Goroutine.call_of_closing hclose
        rw [hc] at hcall
        cases hcall
        by_contra hno
        have hexp := hobl l hl _ hc rfl (by rintro rfl; exact hno rfl)
        rw [hlive] at hexp
        cases hexp
      · exact happ
    rw [hstore]
    exact settled_of_closing hc hclose happ hj
  · obtain ⟨j', hj', hacc⟩ := hO id l hl
    rw [hj] at hj'
    cases hj'
    have hm := Goroutine.moves_of_resume hg
    rw [hret] at hm
    generalize l.g.pc = pc at hm hacc
    cases hm with
    | early _ _ _ he => cases he
    | elsewhere hne => exact absurd (hacc.2.1 rfl) hne
    | close _ hnojob => exact absurd rfl (hnojob _ _)

/-! ### A write that comes too late -/

/-- Until `process` returns the status of its job is not terminal. -/
def Unfinished (id : GoString) (s : State) : Prop :=
  ∀ l j, s.live id = some l → s.store.jobs id = some j → l.g.pc ≠ .returned →
    j.status.terminal = false

/-- The job's status is not terminal, and nobody is left to change that. -/
structure Forgotten (id : GoString) (s : State) : Prop where
  status : ∃ j, s.store.jobs id = some j ∧ j.status.terminal = false
  returned : ∀ l, s.live id = some l → l.g.pc = .returned

theorem unfinished_step {s s' : State} {a : Label} {id : GoString} (hI : Unfinished id s)
    (hO : Owned s) (ha : NoStart a) (h : step s a = some s') : Unfinished id s' := by
  intro l' j' hl' hj' hret
  rcases live_step h hl' with ⟨hl, hcall⟩ | ⟨p, n, file, -, -, hstore, rfl⟩ |
    ⟨l, -, hl, hstore, rfl⟩ | ⟨l, now, o, c, g, -, hl, hc, -, hg, hstore, rfl⟩ |
    ⟨l, j, stale, g, -, hl, hj, hg, hstore, rfl⟩
  · obtain ⟨j, hj, -⟩ := hO id l' hl
    obtain ⟨j'', hj'', ⟨hst, -⟩ | ⟨p, rfl, -⟩ | ⟨now, o, -, -, -, ha', -⟩⟩ := job_step h hj
    · rw [hj'] at hj''
      cases hj''
      rw [hst]
      exact hI l' j hl hj hret
    · exact ha.elim
    · exact absurd ha' (hcall now o)
  · rw [hstore, JobStore.jobs_create, if_pos rfl] at hj'
    cases hj'
    rfl
  · rw [hstore] at hj'
    exact hI l j' hl hj' hret
  · obtain ⟨j, hj, -⟩ := hO id l hl
    rw [hstore, jobs_storeAfter_self hj] at hj'
    cases hj'
    have hbefore : l.g.pc ≠ .returned := by
      intro hpc
      rw [Goroutine.call, hpc] at hc
      cases hc
    -- Only the closing write is terminal, and the goroutine has returned behind it.
    rcases status_written hc o j with ⟨hst, -⟩ | ⟨-, -, hst⟩ | ⟨hclose, -, -⟩
    · rw [hst]
      exact hI l j hl hj hbefore
    · rw [hst]
      rfl
    · exact absurd (returned_of_closing hg hclose) hret
  · rw [hstore, hj] at hj'
    cases hj'
    refine hI l j' hl hj ?_
    intro hpc
    simp [Goroutine.resume, hpc] at hg

theorem forgotten_step {s s' : State} {a : Label} {id : GoString} (hI : Forgotten id s)
    (ha : NoStart a) (h : step s a = some s') : Forgotten id s' := by
  obtain ⟨j, hj, hst⟩ := hI.status
  refine ⟨?_, ?_⟩
  · obtain ⟨j', hj', ⟨hsame, -⟩ | ⟨p, rfl, -⟩ | ⟨now, o, l, next, e, -, hl, hc, -⟩⟩ := job_step h hj
    · exact ⟨j', hj', hsame ▸ hst⟩
    · exact ha.elim
    · rw [Goroutine.call, hI.returned l hl] at hc
      cases hc
  · intro l' hl'
    rcases live_step h hl' with ⟨hl, -⟩ | ⟨-, -, -, -, hfresh, -⟩ | ⟨l, -, hl, -, rfl⟩ |
      ⟨l, now, o, c, g, -, hl, hc, -⟩ | ⟨l, j, stale, g, -, hl, -, hg, -⟩
    · exact hI.returned l' hl
    · rw [hj] at hfresh; cases hfresh
    · exact hI.returned l hl
    · rw [Goroutine.call, hI.returned l hl] at hc
      cases hc
    · simp [Goroutine.resume, hI.returned l hl] at hg

/-- A closing write that is not timely leaves the job unfinished for good. -/
theorem forgotten_of_late {s s' : State} {a : Label} {id : GoString} (hI : Unfinished id s)
    (hO : Owned s) (hlate : ¬ Timely id s a) (h : step s a = some s') : Forgotten id s' := by
  cases a with
  | call id' now o =>
    simp only [Timely, not_forall, not_or] at hlate
    obtain ⟨rfl, l, hl, hclose, -, happ⟩ := hlate
    obtain ⟨l', c, g, hl', hc, -, hg, rfl⟩ := step_call h
    rw [hl] at hl'
    cases hl'
    obtain ⟨j, hj, -⟩ := hO id' l hl
    refine ⟨⟨j, ?_, hI l j hl hj ?_⟩, ?_⟩
    · rw [store_continue, storeAfter, if_neg happ, hj]
    · intro hpc
      rw [hpc] at hclose
      cases hclose
    · intro l'' hl''
      rw [live_continue_self] at hl''
      cases hl''
      exact returned_of_closing hg hclose
  | _ => exact absurd trivial hlate

/-- **When `process` returns the job is settled exactly when the closing write was
timely.**  That a timely write settles the job holds also when other importers
start meanwhile; that a late one never does is about the time until one starts. -/
theorem returned_import_settled {as bs : List Label} {s s' t : State} {p n : ℕ} {id : GoString}
    {file : File} (hrun : exec step initial as = some s)
    (hstart : step s (.startImport p id n file) = some s') (hbs : exec step s' bs = some t)
    (hstore : Meets step Obliging s' bs) (hret : Returned t id) :
    (Meets step (Timely id) s' bs → Settled t.store id) ∧
      ((∀ a ∈ bs, NoStart a) → (Settled t.store id ↔ Meets step (Timely id) s' bs)) := by
  have hO : Owned s' := owned_step (owned_of_run hrun) hstart
  obtain ⟨l, hl, hpc⟩ := hret
  have hlive : ∀ l, s'.live id = some l → l.g.pc = .opening := by
    obtain ⟨-, -, rfl⟩ := step_startImport hstart
    intro l hl
    simp only [Function.update_self] at hl
    cases hl
    rfl
  have hjob : ∀ j, s'.store.jobs id = some j → j.status = .parsing := by
    obtain ⟨-, -, rfl⟩ := step_startImport hstart
    intro j hj
    rw [JobStore.jobs_create, if_pos rfl] at hj
    cases hj
    rfl
  have hsettled : Meets step (Timely id) s' bs → Settled t.store id := by
    intro hC
    have hinv : Owned t ∧ Concluded id t := by
      refine exec_invariant_of_meets (I := fun s => Owned s ∧ Concluded id s) ?_
        ⟨hO, ?_⟩ (hstore.and hC) hbs
      · rintro u a u' ⟨hO, hI⟩ ⟨hobl, hC⟩ h
        exact ⟨owned_step hO h, concluded_step hI hO hobl hC h⟩
      · intro l hl hpc
        rw [hlive l hl] at hpc
        cases hpc
    exact hinv.2 l hl hpc
  refine ⟨hsettled, fun hno => ⟨fun hS => ?_, hsettled⟩⟩
  -- a step that is not timely leaves the job unfinished to the end of the run
  by_contra hlate
  obtain ⟨bs₁, a, bs₂, u, v, rfl, -, hu, ha, hv, ht⟩ := exists_of_not_meets hbs hlate
  have hno₁ : ∀ a ∈ bs₁, NoStart a := fun a h => hno a (by simp [h])
  have hno₂ : ∀ a ∈ bs₂, NoStart a := fun a h => hno a (by simp [h])
  have hinv : Owned u ∧ Unfinished id u := by
    refine exec_invariant_of_meets (I := fun s => Owned s ∧ Unfinished id s) ?_ ⟨hO, ?_⟩
      (meets_of_forall (C := fun _ a => NoStart a) (fun a h _ => hno₁ a h) s') hu
    · rintro u a u' ⟨hO, hI⟩ hns h
      exact ⟨owned_step hO h, unfinished_step hI hO hns h⟩
    · intro l j _ hj _
      rw [hjob j hj]
      rfl
  have hforgot : Forgotten id t :=
    exec_invariant_of_meets (I := fun s => Forgotten id s)
      (fun _ _ _ hI hns h => forgotten_step hI hns h)
      (forgotten_of_late hinv.2 hinv.1 ha hv)
      (meets_of_forall (C := fun _ a => NoStart a) (fun a h _ => hno₂ a h) v) ht
  obtain ⟨j, hj, hterm, -⟩ := hS
  obtain ⟨j', hj', hopen⟩ := hforgot.status
  cases Option.mem_unique hj hj'
  rw [hterm] at hopen
  cases hopen

/-- The publisher refuses the only row of an import, and the deadline passes once the failure is
recorded. -/
def refusedEventCalls (id : GoString) : List Label :=
  [.call id 0 .ok, .call id 0 .ok, .call id 0 (.err "message too large" false), .call id 0 .ok,
    .expire id]

/-- An import that fails at its only row is settled, though its deadline passes in the end. -/
theorem returned_import_settled_refused_event :
    ∃ s s' t j, exec step initial [.start 0] = some s ∧
      step s (.startImport 0 someJobID 1 { rows := [plainRow] }) = some s' ∧
      exec step s' (refusedEventCalls someJobID) = some t ∧ Returned t someJobID ∧
      t.store.jobs someJobID = some j ∧ j.status = .failed ∧ Settled t.store someJobID := by
  have hrun : ∃ s s' t j, exec step initial [.start 0] = some s ∧
      step s (.startImport 0 someJobID 1 { rows := [plainRow] }) = some s' ∧
      exec step s' (refusedEventCalls someJobID) = some t ∧
      t.store.jobs someJobID = some j ∧ j.status = .failed ∧
      Meets step Obliging s' (refusedEventCalls someJobID) ∧
      Meets step (Timely someJobID) s' (refusedEventCalls someJobID) ∧ Returned t someJobID :=
    ⟨_, _, _, _, rfl, rfl, rfl, rfl, rfl, by decide, by decide, by decide⟩
  obtain ⟨s, s', t, j, hs, hs', ht, hj, hst, hobl, hC, hret⟩ := hrun
  exact ⟨s, s', t, j, hs, hs', ht, hret, hj, hst,
    (returned_import_settled hs hs' ht hobl hret).1 hC⟩

end Importer

end CsvProductUploader

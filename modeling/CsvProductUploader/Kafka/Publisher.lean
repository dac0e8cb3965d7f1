import CsvProductUploader.ImportJob.Importer

/-!
# The shared publisher

All imports of a process publish through one `Publisher`: a Kafka producer that
delivers in the background, and one cell `firstErr` for the first delivery that
failed.  `PublishProductImported` and `Flush` are each taken apart where they
release the lock, so that the imports and the promises of the client interleave
as they can.

## Main definitions

* `Publisher` — the buffered records and `firstErr`.
* `State`, `Label`, `step` — the importer processes with their publishers.
* `NoLoss` — no import loses an error to another import or to its deadline.

## Main results

* `flush_nil_unacked` — an import whose event failed gets a nil `Flush`.
* `flushed_acked` — **without such a loss a nil `Flush` confirms every event** that
  was published before it.
-/

namespace CsvProductUploader

namespace Publishing

open Runs

/-! ### The machine -/

/-- An event on its way to the broker: its import, and how many the import had
published before it. -/
abbrev Handle := GoString × ℕ

/-- The producer of one process. -/
structure Publisher where
  firstErr : Option String := none
  /-- The records whose promise has not run. -/
  buffered : List Handle := []

structure State where
  importer : Importer.State
  /-- The publisher of each importer process. -/
  publisher : ℕ → Publisher
  /-- In `PublishProductImported`, past the check of `failure`. -/
  admitted : GoString → Bool
  /-- In `Publisher.Flush`, past the client's `Flush`. -/
  waited : GoString → Bool
  /-- The records acknowledged by the broker. -/
  acked : List Handle
  /-- The records whose delivery failed. -/
  failed : List Handle

inductive Label
  /-- A step of the importer that is no call to the publisher. -/
  | importer (a : Importer.Label)
  /-- `PublishProductImported` checks `failure`, and returns if there is one. -/
  | check (id : GoString)
  /-- `PublishProductImported` hands the record to the client and returns. -/
  | produce (id : GoString) (now : ℤ)
  /-- The client's `Flush` returns, which `Publisher.Flush` does not tell from its
  context being done. -/
  | wait (id : GoString)
  /-- `Publisher.Flush` takes `firstErr` and returns it. -/
  | flush (id : GoString)
  /-- The client runs the promise of a record. -/
  | promise (proc : ℕ) (h : Handle) (err : Option String)

def initial : State :=
  ⟨Importer.initial, fun _ => {}, fun _ => false, fun _ => false, [], []⟩

/-- The promise of a record: it leaves the buffer, and the first error is kept. -/
def Publisher.settle (p : Publisher) (h : Handle) (err : Option String) : Publisher :=
  { firstErr := p.firstErr.or err, buffered := p.buffered.erase h }

/-- Whether the step answers a call to the publisher. -/
def answersPublisher (s : Importer.State) : Importer.Label → Bool
  | .call id _ _ => ((s.live id).bind fun l => l.g.call).any Call.toPublisher
  | _ => false

/-- A starting process has a new client, a new import is in no call. -/
def State.restarted (s : State) : Importer.Label → State
  | .start p => { s with publisher := Function.update s.publisher p {} }
  | .startImport _ id _ _ =>
    { s with admitted := Function.update s.admitted id false,
             waited := Function.update s.waited id false }
  | _ => s

def step (s : State) : Label → Option State
  | .importer a =>
    if answersPublisher s.importer a then none
    else (Importer.step s.importer a).map fun importer => { s.restarted a with importer }
  | .check id =>
    (s.importer.live id).bind fun l => l.g.call.bind fun c =>
      match c, s.admitted id, (s.publisher l.proc).firstErr with
      | .publish _, false, some e =>
        (Importer.step s.importer
            (.call id 0 (.err ("event delivery previously failed: " ++ e) false))).map
          fun importer => { s with importer }
      | .publish _, false, none => some { s with admitted := Function.update s.admitted id true }
      | _, _, _ => none
  | .produce id now =>
    (s.importer.live id).bind fun l => l.g.call.bind fun c =>
      match c, s.admitted id with
      | .publish _, true =>
        (Importer.step s.importer (.call id now .ok)).map fun importer =>
          { s with importer, admitted := Function.update s.admitted id false
                   publisher := Function.update s.publisher l.proc
                     { s.publisher l.proc with
                       buffered := (s.publisher l.proc).buffered ++ [(id, l.g.published)] } }
      | _, _ => none
  | .wait id =>
    (s.importer.live id).bind fun l =>
      if l.g.pc = .flushing ∧ s.waited id = false ∧
          (l.expired = true ∨ (s.publisher l.proc).buffered = []) then
        some { s with waited := Function.update s.waited id true }
      else none
  | .flush id =>
    (s.importer.live id).bind fun l =>
      if l.g.pc = .flushing ∧ s.waited id = true then
        (Importer.step s.importer (.call id 0 (match (s.publisher l.proc).firstErr with
            | none => .ok
            | some e => .err e false))).map fun importer =>
          { s with importer, waited := Function.update s.waited id false
                   publisher := Function.update s.publisher l.proc
                     { s.publisher l.proc with firstErr := none } }
      else none
  | .promise p h err =>
    if s.importer.running p ∧ h ∈ (s.publisher p).buffered then
      some { s with publisher := Function.update s.publisher p ((s.publisher p).settle h err)
                    acked := if err = none then h :: s.acked else s.acked
                    failed := if err = none then s.failed else h :: s.failed }
    else none

/-! ### What one step does -/

theorem step_importer {s s' : State} {a : Importer.Label} (h : step s (.importer a) = some s') :
    answersPublisher s.importer a = false ∧
      ∃ importer, Importer.step s.importer a = some importer ∧
        s' = { s.restarted a with importer } := by
  simp only [step] at h
  split at h
  · cases h
  · next hno =>
    obtain ⟨importer, himp, hs'⟩ := Option.map_eq_some_iff.mp h
    exact ⟨by simpa using hno, importer, himp, hs'.symm⟩

theorem step_check {s s' : State} {id : GoString} (h : step s (.check id) = some s') :
    ∃ l row, s.importer.live id = some l ∧ l.g.call = some (.publish row) ∧
      s.admitted id = false ∧
      ((∃ e importer, (s.publisher l.proc).firstErr = some e ∧
          Importer.step s.importer
            (.call id 0 (.err ("event delivery previously failed: " ++ e) false)) = some importer ∧
          s' = { s with importer }) ∨
        ((s.publisher l.proc).firstErr = none ∧
          s' = { s with admitted := Function.update s.admitted id true })) := by
  simp only [step, Option.bind_eq_some_iff] at h
  obtain ⟨l, hl, c, hc, h⟩ := h
  split at h
  · next row e hadm herr =>
    obtain ⟨importer, himp, hs'⟩ := Option.map_eq_some_iff.mp h
    exact ⟨l, row, hl, hc, hadm, Or.inl ⟨e, importer, herr, himp, hs'.symm⟩⟩
  · next row hadm herr =>
    exact ⟨l, row, hl, hc, hadm, Or.inr ⟨herr, (Option.some.inj h).symm⟩⟩
  · cases h

theorem step_produce {s s' : State} {id : GoString} {now : ℤ}
    (h : step s (.produce id now) = some s') :
    ∃ l row importer, s.importer.live id = some l ∧ l.g.call = some (.publish row) ∧
      Importer.step s.importer (.call id now .ok) = some importer ∧
      s' = { s with importer, admitted := Function.update s.admitted id false
                    publisher := Function.update s.publisher l.proc
                      { s.publisher l.proc with
                        buffered := (s.publisher l.proc).buffered ++ [(id, l.g.published)] } } := by
  simp only [step, Option.bind_eq_some_iff] at h
  obtain ⟨l, hl, c, hc, h⟩ := h
  split at h
  · next row _ =>
    obtain ⟨importer, himp, hs'⟩ := Option.map_eq_some_iff.mp h
    exact ⟨l, row, importer, hl, hc, himp, hs'.symm⟩
  · cases h

theorem step_wait {s s' : State} {id : GoString} (h : step s (.wait id) = some s') :
    ∃ l, s.importer.live id = some l ∧ l.g.pc = .flushing ∧ s.waited id = false ∧
      (l.expired = true ∨ (s.publisher l.proc).buffered = []) ∧
      s' = { s with waited := Function.update s.waited id true } := by
  simp only [step, Option.bind_eq_some_iff] at h
  obtain ⟨l, hl, h⟩ := h
  split at h
  · next hw => exact ⟨l, hl, hw.1, hw.2.1, hw.2.2, (Option.some.inj h).symm⟩
  · cases h

theorem step_flush {s s' : State} {id : GoString} (h : step s (.flush id) = some s') :
    ∃ l o importer, s.importer.live id = some l ∧ l.g.pc = .flushing ∧ s.waited id = true ∧
      (((s.publisher l.proc).firstErr = none ∧ o = .ok) ∨
        ∃ e, (s.publisher l.proc).firstErr = some e ∧ o = .err e false) ∧
      Importer.step s.importer (.call id 0 o) = some importer ∧
      s' = { s with importer, waited := Function.update s.waited id false
                    publisher := Function.update s.publisher l.proc
                      { s.publisher l.proc with firstErr := none } } := by
  simp only [step, Option.bind_eq_some_iff] at h
  obtain ⟨l, hl, h⟩ := h
  split at h
  · next hw =>
    obtain ⟨importer, himp, hs'⟩ := Option.map_eq_some_iff.mp h
    refine ⟨l, _, importer, hl, hw.1, hw.2, ?_, himp, hs'.symm⟩
    cases (s.publisher l.proc).firstErr with
    | none => exact Or.inl ⟨rfl, rfl⟩
    | some e => exact Or.inr ⟨e, rfl, rfl⟩
  · cases h

theorem step_promise {s s' : State} {p : ℕ} {hd : Handle} {err : Option String}
    (h : step s (.promise p hd err) = some s') :
    s.importer.running p = true ∧ hd ∈ (s.publisher p).buffered ∧
      s' = { s with publisher := Function.update s.publisher p ((s.publisher p).settle hd err)
                    acked := if err = none then hd :: s.acked else s.acked
                    failed := if err = none then s.failed else hd :: s.failed } := by
  simp only [step] at h
  split at h
  · next hp => exact ⟨hp.1, hp.2, (Option.some.inj h).symm⟩
  · cases h

/-! ### Losing an error -/

/-- The step loses nobody's delivery error.  The client's `Flush` does not give up
for the import's deadline while a record of its own is buffered, and no import
takes an error while another one of its process, still short of its own flush,
has a record that failed. -/
def NoLoss (s : State) : Label → Prop
  | .wait id => ∀ l ∈ s.importer.live id, l.expired = true →
      ∀ h ∈ (s.publisher l.proc).buffered, h.1 ≠ id
  | .flush id => ∀ l ∈ s.importer.live id, (s.publisher l.proc).firstErr ≠ none →
      ∀ h ∈ s.failed, h.1 ≠ id → ∀ l' ∈ s.importer.live h.1, l'.proc = l.proc →
        l'.g.pc.unflushed = false
  | _ => True

instance (s : State) : ∀ a, Decidable (NoLoss s a)
  | .wait id => inferInstanceAs (Decidable (∀ l ∈ s.importer.live id, _))
  | .flush id => inferInstanceAs (Decidable (∀ l ∈ s.importer.live id, _))
  | .importer _ | .check _ | .produce _ _ | .promise _ _ _ => isTrue trivial

/-- An import publishes its only row and delivery fails; another import, without
rows, flushes first; then the import flushes itself. -/
def lossRun (id other : GoString) (row : Row) : List Label :=
  [.importer (.start 0), .importer (.startImport 0 id 10 { rows := [row] }),
    .importer (.startImport 0 other 10 { rows := [] }), .importer (.call id 0 .ok),
    .importer (.call id 0 .ok), .check id, .produce id 0,
    .promise 0 (id, 0) (some "delivery timed out"), .importer (.call other 0 .ok),
    .importer (.call other 0 .ok), .wait other, .flush other, .importer (.call id 0 .ok),
    .wait id, .flush id]

/-- The flush of the import returns nil, though its event was never acknowledged. -/
theorem flush_nil_unacked :
    ¬ ∀ (as : List Label) (s : State) (id : GoString) (l : Importer.Live),
      exec step initial as = some s → s.importer.live id = some l → l.g.pc.flushed = true →
      ∀ k < l.g.published, (id, k) ∈ s.acked := by
  intro h
  have hacked := h (lossRun someJobID otherJobID plainRow) _ someJobID _ rfl rfl rfl 0 (by decide)
  revert hacked
  decide

/-! ### The books on one import -/

/-- Where the events of an import are, as far as its goroutine can tell. -/
structure Sound (s : State) (id : GoString) (l : Importer.Live) : Prop where
  /-- Every published event is acknowledged, failed or still buffered. -/
  accounted : ∀ k < l.g.published, (id, k) ∈ s.acked ∨ (id, k) ∈ s.failed ∨
    (id, k) ∈ (s.publisher l.proc).buffered
  /-- A failure is on record until the import has flushed. -/
  recorded : l.g.pc.unflushed = true → ∀ k, (id, k) ∈ s.failed →
    (s.publisher l.proc).firstErr ≠ none
  /-- Past the wait of its flush, nothing of the import is buffered. -/
  waited : s.waited id = true → l.g.pc = .flushing ∧ ∀ k, (id, k) ∉ (s.publisher l.proc).buffered
  /-- Past its flush, every event is acknowledged. -/
  flushed : l.g.pc.flushed = true → ∀ k < l.g.published, (id, k) ∈ s.acked

structure Inv (s : State) : Prop where
  owned : Importer.Owned s.importer
  hosted : Importer.Hosted s.importer
  sound : ∀ id l, s.importer.live id = some l → Sound s id l
  /-- A record is buffered where its import runs. -/
  buffered : ∀ p id k, s.importer.running p = true → (id, k) ∈ (s.publisher p).buffered →
    s.importer.store.jobs id ≠ none ∧ ∀ l, s.importer.live id = some l → l.proc = p
  failed : ∀ id k, (id, k) ∈ s.failed → s.importer.store.jobs id ≠ none

/-- The books of a goroutine that stands still, while its publisher may have
settled records or buffered those of others. -/
theorem Sound.of_live {s s' : State} {id : GoString} {l : Importer.Live} (h : Sound s id l)
    (hacked : ∀ k, (id, k) ∈ s.acked → (id, k) ∈ s'.acked)
    (hfailed : ∀ k, (id, k) ∈ s'.failed → (id, k) ∈ s.failed ∨
      (s'.publisher l.proc).firstErr ≠ none)
    (hfailed' : ∀ k, (id, k) ∈ s.failed → (id, k) ∈ s'.failed)
    (hmoved : ∀ k, (id, k) ∈ (s.publisher l.proc).buffered →
      (id, k) ∈ s'.acked ∨ (id, k) ∈ s'.failed ∨ (id, k) ∈ (s'.publisher l.proc).buffered)
    (hkept : ∀ k, (id, k) ∈ (s'.publisher l.proc).buffered →
      (id, k) ∈ (s.publisher l.proc).buffered)
    (herr : l.g.pc.unflushed = true → ∀ k, (id, k) ∈ s.failed →
      (s.publisher l.proc).firstErr ≠ none → (s'.publisher l.proc).firstErr ≠ none)
    (hwait : s'.waited id = true → s.waited id = true) : Sound s' id l where
  accounted := by
    intro k hk
    -- A record is acknowledged, failed or buffered, and leaves the buffer for one of the two.
    rcases h.accounted k hk with hack | hfail | hbuf
    · exact Or.inl (hacked k hack)
    · exact Or.inr (Or.inl (hfailed' k hfail))
    · exact hmoved k hbuf
  recorded := by
    intro hpc k hk
    rcases hfailed k hk with hfail | hne
    · exact herr hpc k hfail (h.recorded hpc k hfail)
    · exact hne
  waited := by
    intro hw
    obtain ⟨hpc, hnone⟩ := h.waited (hwait hw)
    exact ⟨hpc, fun k hk => hnone k (hkept k hk)⟩
  flushed := fun hpc k hk => hacked k (h.flushed hpc k hk)

/-! ### A step of the importer -/

/-- A start leaves the publishers of the running processes alone. -/
theorem publisher_restarted {s : State} {a : Importer.Label} {importer : Importer.State} {p : ℕ}
    (h : Importer.step s.importer a = some importer) (hp : s.importer.running p = true) :
    (s.restarted a).publisher p = s.publisher p := by
  cases a with
  | start q =>
    obtain ⟨hq, -⟩ := Importer.step_start h
    have hne : p ≠ q := by
      intro heq
      rw [heq, hq] at hp
      cases hp
    exact Function.update_of_ne hne _ _
  | _ => rfl

theorem waited_restarted {s : State} {a : Importer.Label} {id : GoString}
    (h : (s.restarted a).waited id = true) : s.waited id = true := by
  cases a with
  | startImport p id' n file =>
    simp only [State.restarted, Function.update_apply] at h
    split at h
    · cases h
    · exact h
  | _ => exact h

@[simp] theorem acked_restarted (s : State) (a : Importer.Label) :
    (s.restarted a).acked = s.acked := by cases a <;> rfl

@[simp] theorem failed_restarted (s : State) (a : Importer.Label) :
    (s.restarted a).failed = s.failed := by cases a <;> rfl

/-- The books of a goroutine that an answer from elsewhere moves on. -/
theorem Sound.resume {s : State} {id : GoString} {l : Importer.Live} {g : Goroutine} {a : Answer}
    (h : Sound s id l) (hg : l.g.resume a = some g)
    (hcall : ∀ c, l.g.call = some c → c.toPublisher = false) : Sound s id { l with g } := by
  obtain ⟨hpub, hunf, hflu⟩ := Goroutine.resume_elsewhere hg hcall
  refine ⟨?_, fun hpc => h.recorded (hunf hpc), ?_, ?_⟩
  · intro k hk
    exact h.accounted k (hpub ▸ hk)
  · intro hw
    have hflush : l.g.call = some .flush := by rw [Goroutine.call, (h.waited hw).1]
    cases hcall _ hflush
  · intro hpc k hk
    exact h.flushed (hflu hpc) k (hpub ▸ hk)

theorem inv_importer {s s' : State} {a : Importer.Label} (hI : Inv s)
    (h : step s (.importer a) = some s') : Inv s' := by
  obtain ⟨hno, importer, himp, rfl⟩ := step_importer h
  have hframe : ∀ id l, Sound s id l → s.importer.running l.proc = true →
      Sound { s.restarted a with importer } id l := by
    intro id l hs hup
    have hpub := publisher_restarted himp hup
    refine hs.of_live ?_ ?_ ?_ ?_ ?_ ?_ waited_restarted <;>
      simp only [acked_restarted, failed_restarted, hpub]
    · exact fun k hk => hk
    · exact fun k hk => Or.inl hk
    · exact fun k hk => hk
    · exact fun k hk => Or.inr (Or.inr hk)
    · exact fun k hk => hk
    · exact fun _ _ _ hne => hne
  refine ⟨Importer.owned_step hI.owned himp, Importer.hosted_step hI.hosted himp, ?_, ?_, ?_⟩
  · intro id l' hl'
    rcases Importer.live_step himp hl' with ⟨hl, -⟩ | ⟨p, n, file, rfl, hfresh, -, rfl⟩ |
      ⟨l, -, hl, -, rfl⟩ | ⟨l, now, o, c, g, rfl, hl, hc, -, hg, -, rfl⟩ |
      ⟨l, j, stale, g, -, hl, -, hg, -, rfl⟩
    · exact hframe id l' (hI.sound id l' hl) (hI.hosted id l' hl)
    · -- a fresh job: nothing of it is published, and nothing can have failed
      refine ⟨?_, ?_, ?_, ?_⟩
      · intro k hk
        cases hk
      · intro _ k hk
        exact absurd hfresh (hI.failed id k hk)
      · intro hw
        simp [State.restarted] at hw
      · intro hpc
        cases hpc
    · have hs := hI.sound id l hl
      exact hframe id _ ⟨hs.accounted, hs.recorded, hs.waited, hs.flushed⟩
        (hI.hosted id l hl)
    · refine hframe id _ ((hI.sound id l hl).resume hg ?_) (hI.hosted id l hl)
      intro c' hc'
      simpa [answersPublisher, hl, hc'] using hno
    · refine hframe id _ ((hI.sound id l hl).resume hg ?_) (hI.hosted id l hl)
      intro c hc
      cases hpc : l.g.pc <;> simp [Goroutine.resume, hpc] at hg
      rw [Goroutine.call, hpc] at hc
      cases hc
      rfl
  · intro p id k hp hk
    -- A process that starts has an empty buffer.
    rcases Importer.running_step himp hp with hp | rfl
    · rw [publisher_restarted himp hp] at hk
      obtain ⟨hj, hlocal⟩ := hI.buffered p id k hp hk
      refine ⟨Importer.job_kept himp hj, fun l' hl' => ?_⟩
      obtain ⟨l, hl, hproc⟩ := Importer.live_back himp hl' hj
      rw [← hproc]
      exact hlocal l hl
    · simp [State.restarted] at hk
  · intro id k hk
    rw [failed_restarted] at hk
    exact Importer.job_kept himp (hI.failed id k hk)

/-! ### A call to the publisher -/

/-- What an answered call of one goroutine leaves as it was. -/
theorem inv_of_call {s s' : State} {id : GoString} {now : ℤ} {o : Importer.Outcome} (hI : Inv s)
    (himp : Importer.step s.importer (.call id now o) = some s'.importer)
    (hself : ∀ l g, s.importer.live id = some l → l.g.resume o.answer = some g →
      Sound s' id { l with g })
    (hothers : ∀ id' l, id' ≠ id → s.importer.live id' = some l → Sound s' id' l)
    (hbuffered : ∀ p id' k, (id', k) ∈ (s'.publisher p).buffered →
      (id', k) ∈ (s.publisher p).buffered ∨
        (id' = id ∧ ∃ l, s.importer.live id = some l ∧ l.proc = p))
    (hfailed : s'.failed = s.failed) : Inv s' := by
  obtain ⟨l₀, c, g₀, hl₀, -, -, hg₀, heq⟩ := Importer.step_call himp
  refine ⟨Importer.owned_step hI.owned himp, Importer.hosted_step hI.hosted himp, ?_, ?_, ?_⟩
  · intro id' l' hl'
    rw [heq] at hl'
    by_cases hid : id' = id
    · subst hid
      rw [Importer.live_continue_self] at hl'
      cases hl'
      exact hself l₀ g₀ hl₀ hg₀
    · rw [Importer.live_continue_of_ne _ _ _ _ hid] at hl'
      exact hothers id' l' hid hl'
  · intro p id' k hp hk
    have hup : s.importer.running p = true :=
      (Importer.running_step himp hp).resolve_right (by simp)
    have hlocal : s.importer.store.jobs id' ≠ none ∧
        ∀ l, s.importer.live id' = some l → l.proc = p := by
      -- What is buffered is of a job that the store has, in the process that runs it.
      rcases hbuffered p id' k hk with hk | ⟨rfl, l, hl, hproc⟩
      · exact hI.buffered p id' k hup hk
      · obtain ⟨j, hj, -⟩ := hI.owned id' l hl
        refine ⟨by rw [hj]; simp, fun l' hl' => ?_⟩
        rw [hl] at hl'
        cases hl'
        exact hproc
    refine ⟨Importer.job_kept himp hlocal.1, fun l' hl' => ?_⟩
    obtain ⟨l, hl, hproc⟩ := Importer.live_back himp hl' hlocal.1
    rw [← hproc]
    exact hlocal.2 l hl
  · intro id' k hk
    rw [hfailed] at hk
    exact Importer.job_kept himp (hI.failed id' k hk)

/-- The books of an import that has failed. -/
theorem Sound.failing {s s' : State} {id : GoString} {l : Importer.Live} {g : Goroutine}
    {cause : Cause} (h : Sound s id l) (hpc : g.pc = .failing cause)
    (hpub : g.published = l.g.published)
    (hacked : s'.acked = s.acked) (hfailed : s'.failed = s.failed)
    (hbuffered : (s'.publisher l.proc).buffered = (s.publisher l.proc).buffered)
    (hwait : s'.waited id = false) : Sound s' id { l with g } := by
  refine ⟨?_, ?_, ?_, ?_⟩
  · intro k hk
    rw [hacked, hfailed, hbuffered]
    exact h.accounted k (hpub ▸ hk)
  · intro hunf
    simp [hpc, Pc.unflushed] at hunf
  · intro hw
    rw [hwait] at hw
    cases hw
  · intro hflu
    simp [hpc, Pc.flushed] at hflu

/-- The books of an import that stands still. -/
theorem Sound.of_flags {s s' : State} {id : GoString} {l : Importer.Live} (h : Sound s id l)
    (hacked : s'.acked = s.acked) (hfailed : s'.failed = s.failed)
    (hpub : s'.publisher l.proc = s.publisher l.proc)
    (hwait : s'.waited id = true → s.waited id = true) : Sound s' id l := by
  refine ⟨?_, ?_, ?_, ?_⟩
  · rw [hacked, hfailed, hpub]
    exact h.accounted
  · rw [hfailed, hpub]
    exact h.recorded
  · rw [hpub]
    exact fun hw => h.waited (hwait hw)
  · rw [hacked]
    exact h.flushed

/-- An import in `PublishProductImported` is not in its flush. -/
theorem Sound.not_waited {s : State} {id : GoString} {l : Importer.Live} {row : Row}
    (h : Sound s id l) (hc : l.g.call = some (.publish row)) : s.waited id = false := by
  by_contra hw
  have hpc := (h.waited (by simpa using hw)).1
  rw [Goroutine.call, hpc] at hc
  cases hc

theorem pc_of_call_publish {g : Goroutine} {row : Row} (h : g.call = some (.publish row)) :
    ∃ rows, g.pc = .publishing row rows := by
  cases hpc : g.pc <;> rw [Goroutine.call, hpc] at h <;> cases h
  exact ⟨_, rfl⟩

theorem inv_check {s s' : State} {id : GoString} (hI : Inv s)
    (h : step s (.check id) = some s') : Inv s' := by
  obtain ⟨l, row, hl, hc, -, ⟨e, importer, -, himp, rfl⟩ | ⟨-, rfl⟩⟩ := step_check h
  · have hs := hI.sound id l hl
    obtain ⟨rows, hpc⟩ := pc_of_call_publish hc
    refine inv_of_call hI himp ?_ ?_ (fun _ _ _ hk => Or.inl hk) rfl
    · intro l' g hl' hg
      rw [hl] at hl'
      cases hl'
      simp only [Goroutine.resume, hpc, Importer.Outcome.answer, Option.some.injEq] at hg
      subst hg
      exact hs.failing rfl rfl rfl rfl rfl (hs.not_waited hc)
    · intro id' l' _ hl'
      exact (hI.sound id' l' hl').of_flags rfl rfl rfl (fun hw => hw)
  · refine ⟨hI.owned, hI.hosted, ?_, hI.buffered, hI.failed⟩
    intro id' l' hl'
    exact (hI.sound id' l' hl').of_flags rfl rfl rfl (fun hw => hw)

theorem inv_produce {s s' : State} {id : GoString} {now : ℤ} (hI : Inv s)
    (h : step s (.produce id now) = some s') : Inv s' := by
  obtain ⟨l, row, importer, hl, hc, himp, rfl⟩ := step_produce h
  have hs := hI.sound id l hl
  obtain ⟨rows, hpc⟩ := pc_of_call_publish hc
  refine inv_of_call hI himp ?_ ?_ ?_ rfl
  · intro l' g hl' hg
    rw [hl] at hl'
    cases hl'
    simp only [Goroutine.resume, hpc, Importer.Outcome.answer, Option.some.injEq] at hg
    subst hg
    refine ⟨?_, ?_, ?_, ?_⟩
    · intro k hk
      -- The record that is new is in the buffer.
      rcases Nat.lt_succ_iff_lt_or_eq.mp hk with hk | rfl
      · rcases hs.accounted k hk with hack | hfail | hbuf
        · exact Or.inl hack
        · exact Or.inr (Or.inl hfail)
        · exact Or.inr (Or.inr (by simp [hbuf]))
      · exact Or.inr (Or.inr (by simp))
    · intro _ k hk
      simpa using hs.recorded (by rw [hpc]; rfl) k hk
    · intro hw
      rw [hs.not_waited hc] at hw
      cases hw
    · intro hflu
      dsimp only at hflu
      split_ifs at hflu <;> cases hflu
  · intro id' l' hid hl'
    have hs' := hI.sound id' l' hl'
    refine hs'.of_live (fun _ hk => hk) (fun _ hk => Or.inl hk) (fun _ hk => hk) ?_ ?_ ?_
      (fun hw => hw)
    · intro k hk
      refine Or.inr (Or.inr ?_)
      by_cases hp : l'.proc = l.proc
      · simp only [hp, Function.update_self, List.mem_append]
        exact Or.inl (hp ▸ hk)
      · simpa only [Function.update_of_ne hp] using hk
    · intro k hk
      by_cases hp : l'.proc = l.proc
      · simpa [hp, hid] using hk
      · simpa only [Function.update_of_ne hp] using hk
    · intro _ k _ hne
      by_cases hp : l'.proc = l.proc
      · simpa [hp] using hne
      · simpa only [Function.update_of_ne hp] using hne
  · intro p id' k hk
    by_cases hp : p = l.proc
    · subst hp
      simp only [Function.update_self, List.mem_append, List.mem_singleton, Prod.mk.injEq] at hk
      rcases hk with hk | ⟨rfl, -⟩
      · exact Or.inl hk
      · exact Or.inr ⟨rfl, l, hl, rfl⟩
    · simp only [Function.update_of_ne hp] at hk
      exact Or.inl hk

theorem inv_wait {s s' : State} {id : GoString} (hI : Inv s) (hC : NoLoss s (.wait id))
    (h : step s (.wait id) = some s') : Inv s' := by
  obtain ⟨l, hl, hpc, -, hdone, rfl⟩ := step_wait h
  refine ⟨hI.owned, hI.hosted, ?_, hI.buffered, hI.failed⟩
  intro id' l' hl'
  have hs := hI.sound id' l' hl'
  refine ⟨hs.accounted, hs.recorded, ?_, hs.flushed⟩
  intro hw
  by_cases hid : id' = id
  · subst hid
    rw [hl] at hl'
    cases hl'
    refine ⟨hpc, fun k hk => ?_⟩
    rcases hdone with hexp | hempty
    · exact hC l hl hexp _ hk rfl
    · rw [hempty] at hk
      cases hk
  · simp only [Function.update_of_ne hid] at hw
    exact hs.waited hw

theorem inv_flush {s s' : State} {id : GoString} (hI : Inv s) (hC : NoLoss s (.flush id))
    (h : step s (.flush id) = some s') : Inv s' := by
  obtain ⟨l, o, importer, hl, hpc, hw, hcell, himp, rfl⟩ := step_flush h
  have hs := hI.sound id l hl
  obtain ⟨-, hnone⟩ := hs.waited hw
  refine inv_of_call hI himp ?_ ?_ ?_ rfl
  · intro l' g hl' hg
    rw [hl] at hl'
    cases hl'
    rcases hcell with ⟨herr, rfl⟩ | ⟨e, herr, rfl⟩
    · simp only [Goroutine.resume, hpc, Importer.Outcome.answer, Option.some.injEq] at hg
      subst hg
      -- Nothing is buffered any more, and nothing has failed, for its error would be there.
      have hacked : ∀ k < l.g.published, (id, k) ∈ s.acked := by
        intro k hk
        rcases hs.accounted k hk with hack | hfail | hbuf
        · exact hack
        · exact absurd herr (hs.recorded (by rw [hpc]; rfl) k hfail)
        · exact absurd hbuf (hnone k)
      refine ⟨fun k hk => Or.inl (hacked k hk), ?_, by simp, fun _ => hacked⟩
      intro hunf
      cases hunf
    · simp only [Goroutine.resume, hpc, Importer.Outcome.answer, Option.some.injEq] at hg
      subst hg
      exact hs.failing rfl rfl rfl rfl (by simp) (by simp)
  · intro id' l' hid hl'
    have hs' := hI.sound id' l' hl'
    have hbuf : ∀ p, (Function.update s.publisher l.proc
        { s.publisher l.proc with firstErr := none } p).buffered = (s.publisher p).buffered := by
      intro p
      simp only [Function.update_apply]
      split
      · next hp => rw [hp]
      · rfl
    refine hs'.of_live (fun _ hk => hk) (fun _ hk => Or.inl hk) (fun _ hk => hk) ?_ ?_ ?_ ?_
    · intro k hk
      exact Or.inr (Or.inr (by rw [hbuf]; exact hk))
    · intro k hk
      rwa [hbuf] at hk
    · intro hunf k hk hne
      by_cases hp : l'.proc = l.proc
      · -- an error taken here would be the other import's
        rw [hp] at hne
        rw [hC l hl hne _ hk hid l' hl' hp] at hunf
        cases hunf
      · simpa only [Function.update_of_ne hp] using hne
    · intro hw'
      simpa only [Function.update_of_ne hid] using hw'
  · intro p id' k hk
    refine Or.inl ?_
    simp only [Function.update_apply] at hk
    split at hk
    · next hp => rw [hp]; exact hk
    · exact hk

theorem inv_promise {s s' : State} {p : ℕ} {hd : Handle} {err : Option String} (hI : Inv s)
    (h : step s (.promise p hd err) = some s') : Inv s' := by
  obtain ⟨hup, hmem, rfl⟩ := step_promise h
  obtain ⟨hjob, hproc⟩ := hI.buffered p hd.1 hd.2 hup hmem
  refine ⟨hI.owned, hI.hosted, ?_, ?_, ?_⟩
  · intro id l hl
    refine (hI.sound id l hl).of_live ?_ ?_ ?_ ?_ ?_ ?_ (fun hw => hw)
    · intro k hk
      dsimp only
      split
      · exact List.mem_cons_of_mem _ hk
      · exact hk
    · intro k hk
      dsimp only at hk
      split at hk
      · exact Or.inl hk
      · next herr =>
        rcases List.mem_cons.mp hk with rfl | hk
        · -- the record of this import fails: its error is on record now
          refine Or.inr ?_
          simp [hproc l hl, Publisher.settle, Option.or_eq_none_iff, herr]
        · exact Or.inl hk
    · intro k hk
      dsimp only
      split
      · exact hk
      · exact List.mem_cons_of_mem _ hk
    · intro k hk
      -- The record leaves the buffer for the acknowledged or the failed.
      by_cases hhd : (id, k) = hd
      · rw [hhd]
        dsimp only
        split
        · exact Or.inl (List.mem_cons_self ..)
        · exact Or.inr (Or.inl (List.mem_cons_self ..))
      · refine Or.inr (Or.inr ?_)
        by_cases hp : l.proc = p
        · rw [hp] at hk
          simp only [hp, Function.update_self, Publisher.settle]
          exact (List.mem_erase_of_ne hhd).mpr hk
        · simpa only [Function.update_of_ne hp] using hk
    · intro k hk
      by_cases hp : l.proc = p
      · rw [hp]
        simp only [hp, Function.update_self, Publisher.settle] at hk
        exact List.mem_of_mem_erase hk
      · simpa only [Function.update_of_ne hp] using hk
    · intro _ k _ hne
      by_cases hp : l.proc = p
      · rw [hp] at hne
        simp [hp, Publisher.settle, Option.or_eq_none_iff, hne]
      · simpa only [Function.update_of_ne hp] using hne
  · intro q id k hq hk
    by_cases hp : q = p
    · subst hp
      simp only [Function.update_self, Publisher.settle] at hk
      exact hI.buffered q id k hq (List.mem_of_mem_erase hk)
    · simp only [Function.update_of_ne hp] at hk
      exact hI.buffered q id k hq hk
  · intro id k hk
    dsimp only at hk
    split at hk
    · exact hI.failed id k hk
    · rcases List.mem_cons.mp hk with rfl | hk
      · exact hjob
      · exact hI.failed id k hk

theorem inv_step {s s' : State} {a : Label} (hI : Inv s) (hC : NoLoss s a)
    (h : step s a = some s') : Inv s' := by
  cases a with
  | importer a => exact inv_importer hI h
  | check id => exact inv_check hI h
  | produce id now => exact inv_produce hI h
  | wait id => exact inv_wait hI hC h
  | flush id => exact inv_flush hI hC h
  | promise p hd err => exact inv_promise hI h

theorem inv_initial : Inv initial where
  owned := by intro id l hl; cases hl
  hosted := by intro id l hl; cases hl
  sound := by intro id l hl; cases hl
  buffered := by intro p id k hp; cases hp
  failed := by intro id k hk; cases hk

/-- **A nil `Flush` is a durability confirmation**, in every run that loses no
error: the broker has acknowledged every event that an import has published, once
the import is past its flush. -/
theorem flushed_acked {as : List Label} {s : State} {id : GoString} {l : Importer.Live}
    (hC : Meets step NoLoss initial as) (hrun : exec step initial as = some s)
    (hl : s.importer.live id = some l) (hpc : l.g.pc.flushed = true) :
    ∀ k < l.g.published, (id, k) ∈ s.acked := by
  have hI : Inv s :=
    exec_invariant_of_meets (fun _ _ _ hI hC h => inv_step hI hC h) inv_initial hC hrun
  exact (hI.sound id l hl).flushed hpc

/-- Two imports publish a row each.  The event of the other one is not delivered, and its own
flush says so; then the import flushes. -/
def twoImportsRun (id other : GoString) (row : Row) : List Label :=
  [.importer (.start 0), .importer (.startImport 0 id 10 { rows := [row] }),
    .importer (.startImport 0 other 10 { rows := [row] }), .importer (.call id 0 .ok),
    .importer (.call other 0 .ok), .importer (.call id 0 .ok), .check id, .produce id 0,
    .importer (.call other 0 .ok), .check other, .produce other 0, .promise 0 (id, 0) none,
    .promise 0 (other, 0) (some "delivery timed out"), .importer (.call other 0 .ok),
    .wait other, .flush other, .importer (.call id 0 .ok), .wait id, .flush id]

theorem flushed_acked_two_imports :
    ∃ s l, exec step initial (twoImportsRun someJobID otherJobID plainRow) = some s ∧
      s.importer.live someJobID = some l ∧ l.g.published = 1 ∧ (otherJobID, 0) ∈ s.failed ∧
      (someJobID, 0) ∈ s.acked := by
  have hrun : ∃ s l, exec step initial (twoImportsRun someJobID otherJobID plainRow) = some s ∧
      s.importer.live someJobID = some l ∧ l.g.published = 1 ∧ l.g.pc.flushed = true ∧
      (otherJobID, 0) ∈ s.failed := ⟨_, _, rfl, rfl, rfl, rfl, by decide⟩
  obtain ⟨s, l, hs, hl, hpub, hpc, hfailed⟩ := hrun
  have hC : Meets step NoLoss initial (twoImportsRun someJobID otherJobID plainRow) := by decide
  exact ⟨s, l, hs, hl, hpub, hfailed, flushed_acked hC hs hl hpc 0 (by rw [hpub]; decide)⟩

end Publishing

end CsvProductUploader

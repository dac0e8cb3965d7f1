import CsvProductUploader.ImportJob.Ledger
import CsvProductUploader.ImportJob.Streamer

/-!
# From the rows of a file to the event stream

One run of `process` over a file, with whatever answers the publisher, the job store and
the context give: which rows it hands to the callback and to the publisher, and what it
writes about them.

## Main definitions

* `Stats` — the counters of `Stream`.
* `Handover.State`, `Handover.Label`, `Handover.step` — the run, with its stored job and
  its calls.
* `accepted`, `writes` — the rows the publisher has taken, and the counters written.
* `Tally` — the counters against the rows.

## Main results

* `tally_step`, `tally_run` — the counters tell what has happened.
* `rows_neither_lost_nor_duplicated` — what a run publishes and writes.
-/

namespace CsvProductUploader

open Runs Importer

/-- `Stats` -/
structure Stats where
  totalRows : ℕ := 0
  validRows : ℕ := 0
  invalidRows : ℕ := 0
  deriving DecidableEq, Repr

/-- `Stream` counts a row before it hands it to the callback. -/
def Stats.count (st : Stats) (row : Row) : Stats :=
  if row.valid then
    { st with totalRows := st.totalRows + 1, validRows := st.validRows + 1 }
  else { st with totalRows := st.totalRows + 1, invalidRows := st.invalidRows + 1 }

namespace Handover

structure State where
  g : Goroutine
  /-- `stats` in `Stream`. -/
  stats : Stats
  /-- The rows handed to the callback. -/
  emitted : List Row
  /-- The job's row in the database. -/
  job : ImportJob
  /-- The calls made, with their outcomes, less the reads of the job. -/
  log : List (Call × Outcome)

inductive Label
  /-- The next call is answered. -/
  | call (o : Outcome)
  /-- `store.Get` returns the job. -/
  | read (j : ImportJob) (stale : Bool)

/-- The row that the record loop hands to the callback, its context being alive. -/
def handed (g : Goroutine) (a : Answer) : Option Row :=
  match g.pc, a with
  | .streaming (row :: _), .ok => some row
  | _, _ => none

/-- The call `c` has had the outcome `o`, and `process` goes on as `g`. -/
def State.next (s : State) (c : Call) (o : Outcome) (g : Goroutine) : State where
  g := g
  stats := (handed s.g o.answer).elim s.stats s.stats.count
  emitted := s.emitted ++ (handed s.g o.answer).toList
  job := written c o s.job
  log := s.log ++ [(c, o)]

/-- The rest of `process` and `Stream` up to the next call. -/
def step (s : State) : Label → Option State
  | .call o => s.g.call.bind fun c => (s.g.resume o.answer).map fun g => s.next c o g
  | .read j stale => (s.g.resume (.job j stale)).map fun g => { s with g }

def start (flushEvery : ℕ) (file : File) : State where
  g := .start flushEvery file
  stats := {}
  emitted := []
  job := { status := .parsing }
  log := []

/-- The row that a call hands to the publisher, if that takes it. -/
def taken : Call × Outcome → Option Row
  | (.publish row, .ok) => some row
  | _ => none

/-- The rows the publisher has taken. -/
def accepted (log : List (Call × Outcome)) : List Row := log.filterMap taken

def write : Call × Outcome → Option Progress
  | (.updateProgress p, _) => some p
  | _ => none

/-- The counters written, or attempted to be written. -/
def writes (log : List (Call × Outcome)) : List Progress := log.filterMap write

/-- The valid rows of a list. -/
def validRows (rows : List Row) : List Row := rows.filter Row.valid

/-- Componentwise. -/
def AtMost (p q : Progress) : Prop :=
  p.totalRows ≤ q.totalRows ∧ p.validRows ≤ q.validRows ∧ p.invalidRows ≤ q.invalidRows ∧
    p.publishedRows ≤ q.publishedRows

/-! ### Lists of rows -/

theorem validRows_append (rows rows' : List Row) :
    validRows (rows ++ rows') = validRows rows ++ validRows rows' := List.filter_append ..

theorem validRows_snoc_of_valid {row : Row} (h : row.valid = true) (rows : List Row) :
    validRows (rows ++ [row]) = validRows rows ++ [row] := by
  rw [validRows_append]
  simp [validRows, h]

theorem validRows_snoc_of_invalid {row : Row} (h : ¬row.valid = true) (rows : List Row) :
    validRows (rows ++ [row]) = validRows rows := by
  rw [validRows_append]
  simp [validRows, h]

theorem length_validRows_le (rows : List Row) : (validRows rows).length ≤ rows.length :=
  List.length_filter_le ..

theorem accepted_snoc (log : List (Call × Outcome)) (e : Call × Outcome) :
    accepted (log ++ [e]) = accepted log ++ (taken e).toList := by
  unfold accepted
  rw [List.filterMap_append]
  cases h : taken e with
  | none => simp [h]
  | some row => simp [h]

theorem writes_snoc (log : List (Call × Outcome)) (e : Call × Outcome) :
    writes (log ++ [e]) = writes log ++ (write e).toList := by
  unfold writes
  rw [List.filterMap_append]
  cases h : write e with
  | none => simp [h]
  | some p => simp [h]

/-! ### One answer -/

/-- The row that the publisher takes. -/
def passed (g : Goroutine) (a : Answer) : Option Row :=
  match g.pc, a with
  | .publishing row _, .ok => some row
  | _, _ => none

/-- The row in the callback that has not been published. -/
def unpublished : Pc → List Row
  | .publishing row _ => [row]
  | _ => []

/-- The rows that have not been handed to the callback. -/
def pending (g : Goroutine) : List Row :=
  match g.pc with
  | .opening => g.file.rows
  | .streaming rows | .publishing _ rows | .saving rows => rows
  | _ => []

/-- `process` has neither failed nor returned. -/
def running : Pc → Bool
  | .failing _ | .returned => false
  | _ => true

section
variable {g g' : Goroutine} {a : Answer}

theorem taken_eq_passed {c : Call} (hc : g.call = some c) (o : Outcome) :
    taken (c, o) = passed g o.answer := by
  unfold Goroutine.call at hc
  unfold passed
  cases hpc : g.pc with
  | returned =>
    rw [hpc] at hc
    cases hc
  | _ =>
    rw [hpc] at hc
    obtain rfl := Option.some.inj hc
    cases o <;> rfl

/-- What one answer does to the counters. -/
theorem resume_counters (h : g.resume a = some g') :
    g'.file = g.file ∧ g'.flushEvery = g.flushEvery ∧
      g'.total = g.total + (handed g a).toList.length ∧
      g'.published = g.published + (passed g a).toList.length ∧
      g'.valid = g.valid + (passed g a).toList.length ∧
      g'.invalid + (validRows (handed g a).toList).length =
        g.invalid + (handed g a).toList.length := by
  revert h
  fun_cases Goroutine.resume g a
  all_goals intro h
  all_goals simp only [Option.some.injEq, reduceCtorEq] at h
  all_goals subst h
  all_goals simp [handed, passed, validRows, *]

/-- Where the rows go while `process` is running. -/
theorem resume_rows (h : g.resume a = some g') (hrun : running g'.pc = true) :
    running g.pc = true ∧ (handed g a).toList ++ pending g' = pending g ∧
      (passed g a).toList ++ unpublished g'.pc =
        unpublished g.pc ++ validRows (handed g a).toList := by
  revert h
  fun_cases Goroutine.resume g a
  all_goals intro h
  all_goals simp only [Option.some.injEq, reduceCtorEq] at h
  all_goals subst h
  case case8 | case14 =>
    -- The publisher has taken the row, or the totals are saved.
    split_ifs <;> simp [running, handed, passed, pending, unpublished, validRows, *]
  all_goals simp [running, handed, passed, pending, unpublished, validRows, *] at hrun ⊢

/-- No row is on its way when `process` fails or returns. -/
theorem resume_stopped (h : g.resume a = some g') (hstop : running g'.pc = false) :
    handed g a = none ∧ passed g a = none := by
  revert h
  fun_cases Goroutine.resume g a
  all_goals intro h
  all_goals simp only [Option.some.injEq, reduceCtorEq] at h
  all_goals subst h
  case case8 | case14 =>
    dsimp only at hstop
    split_ifs at hstop <;> cases hstop
  all_goals simp [running, handed, passed, *] at hstop ⊢

end

/-! ### The tally -/

/-- The counters of `Stream` after a list of rows. -/
def statsOf (rows : List Row) : Stats where
  totalRows := rows.length
  validRows := (validRows rows).length
  invalidRows := rows.length - (validRows rows).length

theorem statsOf_snoc (rows : List Row) (row : Row) :
    statsOf (rows ++ [row]) = (statsOf rows).count row := by
  have hle := length_validRows_le rows
  unfold Stats.count
  by_cases hvalid : row.valid = true
  · rw [if_pos hvalid]
    simp only [statsOf, validRows_snoc_of_valid hvalid, List.length_append, List.length_singleton,
      Stats.mk.injEq, true_and]
    omega
  · rw [if_neg hvalid]
    simp only [statsOf, validRows_snoc_of_invalid hvalid, List.length_append,
      List.length_singleton, Stats.mk.injEq, true_and]
    omega

/-- The counters of `process` and of `Stream` against the rows of the file. -/
structure Tally (file : File) (s : State) : Prop where
  sameFile : s.g.file = file
  emitted : s.emitted <+: file.rows
  taken : accepted s.log <+: validRows s.emitted
  pending : running s.g.pc = true → s.emitted ++ pending s.g = file.rows
  /-- Valid rows are published in order; the last one may not be yet. -/
  unpublished : running s.g.pc = true →
    validRows s.emitted = accepted s.log ++ unpublished s.g.pc
  published : s.g.published = (accepted s.log).length
  valid : s.g.valid = s.g.published
  total : s.g.total = s.emitted.length
  invalid : s.g.invalid + (validRows s.emitted).length = s.emitted.length
  stats : s.stats = statsOf s.emitted

theorem tally_start (flushEvery : ℕ) (file : File) : Tally file (start flushEvery file) where
  sameFile := rfl
  emitted := List.nil_prefix
  taken := List.nil_prefix
  pending := fun _ => rfl
  unpublished := fun _ => rfl
  published := rfl
  valid := rfl
  total := rfl
  invalid := rfl
  stats := rfl

/-- One answer keeps the tally. -/
theorem Tally.resume {file : File} {s s' : State} {a : Answer} (hI : Tally file s)
    (h : s.g.resume a = some s'.g)
    (hstats : s'.stats = (handed s.g a).elim s.stats s.stats.count)
    (hemitted : s'.emitted = s.emitted ++ (handed s.g a).toList)
    (haccepted : accepted s'.log = accepted s.log ++ (passed s.g a).toList) : Tally file s' := by
  obtain ⟨hfile, -, htotal, hpublished, hvalid, hinvalid⟩ := resume_counters h
  have hvalidRows : validRows s'.emitted =
      validRows s.emitted ++ validRows (handed s.g a).toList := by
    rw [hemitted, validRows_append]
  -- While `process` is running, every row is accounted for.
  have hrows : running s'.g.pc = true → s'.emitted ++ Handover.pending s'.g = file.rows ∧
      validRows s'.emitted = accepted s'.log ++ Handover.unpublished s'.g.pc := by
    intro hrun
    obtain ⟨hrun', hpending, hunpublished⟩ := resume_rows h hrun
    constructor
    · rw [hemitted, List.append_assoc, hpending, hI.pending hrun']
    · rw [hvalidRows, hI.unpublished hrun', haccepted, List.append_assoc, List.append_assoc,
        hunpublished]
  -- Afterwards no row is on its way.
  have hstopped : running s'.g.pc = false →
      s'.emitted = s.emitted ∧ accepted s'.log = accepted s.log := by
    intro hstop
    obtain ⟨hhanded, hpassed⟩ := resume_stopped h hstop
    rw [hhanded] at hemitted
    rw [hpassed] at haccepted
    exact ⟨by simpa using hemitted, by simpa using haccepted⟩
  refine {
    sameFile := hfile.trans hI.sameFile
    emitted := ?_
    taken := ?_
    pending := fun hrun => (hrows hrun).1
    unpublished := fun hrun => (hrows hrun).2
    published := ?_
    valid := ?_
    total := ?_
    invalid := ?_
    stats := ?_ }
  · cases hrun : running s'.g.pc with
    | true =>
      rw [← (hrows hrun).1]
      exact List.prefix_append _ _
    | false =>
      rw [(hstopped hrun).1]
      exact hI.emitted
  · cases hrun : running s'.g.pc with
    | true =>
      rw [(hrows hrun).2]
      exact List.prefix_append _ _
    | false =>
      rw [(hstopped hrun).1, (hstopped hrun).2]
      exact hI.taken
  · rw [hpublished, haccepted, List.length_append, hI.published]
  · rw [hvalid, hpublished, hI.valid]
  · rw [htotal, hemitted, List.length_append, hI.total]
  · have hinv := hI.invalid
    rw [hvalidRows, hemitted, List.length_append, List.length_append]
    omega
  · rw [hstats, hemitted]
    cases hhanded : handed s.g a with
    | none => simpa using hI.stats
    | some row =>
      show s.stats.count row = statsOf (s.emitted ++ [row])
      rw [statsOf_snoc, hI.stats]

theorem step_call {s s' : State} {o : Outcome} (h : step s (.call o) = some s') :
    ∃ c g, s.g.call = some c ∧ s.g.resume o.answer = some g ∧ s' = s.next c o g := by
  obtain ⟨c, hc, h⟩ := Option.bind_eq_some_iff.mp h
  obtain ⟨g, hg, hs'⟩ := Option.map_eq_some_iff.mp h
  exact ⟨c, g, hc, hg, hs'.symm⟩

theorem step_read {s s' : State} {j : ImportJob} {stale : Bool}
    (h : step s (.read j stale) = some s') :
    ∃ g, s.g.resume (.job j stale) = some g ∧ s' = { s with g } := by
  obtain ⟨g, hg, hs'⟩ := Option.map_eq_some_iff.mp h
  exact ⟨g, hg, hs'.symm⟩

theorem handed_job (g : Goroutine) (j : ImportJob) (stale : Bool) :
    handed g (.job j stale) = none := by
  unfold handed
  split
  · next heq => cases heq
  · rfl

theorem passed_job (g : Goroutine) (j : ImportJob) (stale : Bool) :
    passed g (.job j stale) = none := by
  unfold passed
  split
  · next heq => cases heq
  · rfl

theorem tally_step {file : File} {s s' : State} {a : Label} (hI : Tally file s)
    (h : step s a = some s') : Tally file s' := by
  cases a with
  | call o =>
    obtain ⟨c, g, hc, hg, rfl⟩ := step_call h
    refine hI.resume hg rfl rfl ?_
    show accepted (s.log ++ [(c, o)]) = _
    rw [accepted_snoc, taken_eq_passed hc]
  | read j stale =>
    obtain ⟨g, hg, rfl⟩ := step_read h
    refine hI.resume hg ?_ ?_ ?_
    · rw [handed_job]
      rfl
    · rw [handed_job]
      exact (List.append_nil _).symm
    · rw [passed_job]
      exact (List.append_nil _).symm

/-! ### What is written -/

theorem AtMost.trans {p q r : Progress} (h : AtMost p q) (h' : AtMost q r) : AtMost p r := by
  unfold AtMost at *
  omega

theorem progress_le_of_resume {g g' : Goroutine} {a : Answer} (h : g.resume a = some g') :
    AtMost g.progress g'.progress := by
  obtain ⟨-, -, htotal, hpublished, hvalid, hinvalid⟩ := resume_counters h
  have hle := length_validRows_le (handed g a).toList
  simp only [AtMost, Goroutine.progress]
  omega

/-- Only `flushProgress` writes counters, and it writes those of the callback. -/
theorem write_eq_some {g : Goroutine} {c : Call} {o : Outcome} {p : Progress}
    (hc : g.call = some c) (h : write (c, o) = some p) : p = g.progress := by
  unfold Goroutine.call at hc
  cases hpc : g.pc <;> rw [hpc] at hc <;> cases hc <;> cases h
  all_goals rfl

/-- After the totals `process` deals with the status of its job only. -/
theorem call_of_totaled {g : Goroutine} {c : Call} (hc : g.call = some c)
    (h : g.pc.totaled = true) :
    (∃ next lastErr, c = .updateStatus next lastErr) ∨ c = .select ∨ c = .get := by
  unfold Goroutine.call at hc
  cases hpc : g.pc with
  | completingEmpty | markingProcessing | completing =>
    rw [hpc] at hc
    exact Or.inl ⟨_, _, (Option.some.inj hc).symm⟩
  | awaiting =>
    rw [hpc] at hc
    exact Or.inr (Or.inl (Option.some.inj hc).symm)
  | reading =>
    rw [hpc] at hc
    exact Or.inr (Or.inr (Option.some.inj hc).symm)
  | _ =>
    rw [hpc] at h
    cases h

theorem write_of_totaled {g : Goroutine} {c : Call} (hc : g.call = some c)
    (h : g.pc.totaled = true) (o : Outcome) : write (c, o) = none := by
  rcases call_of_totaled hc h with ⟨next, lastErr, rfl⟩ | rfl | rfl <;> rfl

/-- The totals are saved after a flush without an error. -/
theorem resume_savingTotals {g g' : Goroutine} {a : Answer} (h : g.resume a = some g')
    (hpc : g'.pc = .savingTotals) : g.pc = .flushing ∧ a = .ok := by
  revert h
  fun_cases Goroutine.resume g a
  all_goals intro h
  all_goals simp only [Option.some.injEq, reduceCtorEq] at h
  all_goals subst h
  case case8 | case14 =>
    dsimp only at hpc
    split_ifs at hpc
  all_goals simp_all

/-- After the totals no row is on its way. -/
theorem quiet_of_totaled {g : Goroutine} (h : g.pc.totaled = true) (a : Answer) :
    handed g a = none ∧ passed g a = none := by
  unfold handed passed
  cases hpc : g.pc <;> simp_all [Pc.totaled]

/-- Once its totals are being saved, the counters of an import stay. -/
theorem progress_eq_of_resume {g g' : Goroutine} {a : Answer} (h : g.resume a = some g')
    (hpc : g.pc.totaled = true ∨ g.pc = .savingTotals) : g'.progress = g.progress := by
  obtain ⟨-, -, htotal, hpublished, hvalid, hinvalid⟩ := resume_counters h
  have hquiet : handed g a = none ∧ passed g a = none := by
    rcases hpc with hpc | hpc
    · exact quiet_of_totaled hpc a
    · simp [handed, passed, hpc]
  obtain ⟨hhanded, hpassed⟩ := hquiet
  rw [hhanded] at htotal hinvalid
  rw [hpassed] at hpublished hvalid
  simp only [Goroutine.progress, Progress.mk.injEq]
  simp [validRows] at htotal hpublished hvalid hinvalid
  omega

/-- The counters written so far, and the flush before the last of them. -/
structure Written (s : State) : Prop where
  atMost : ∀ p ∈ writes s.log, AtMost p s.g.progress
  flushed : s.g.pc = .savingTotals → ∃ before, s.log = before ++ [(.flush, .ok)]
  totaled : s.g.pc.totaled = true → ∃ before after,
    s.log = before ++ (.flush, .ok) :: (.updateProgress s.g.progress, .ok) :: after ∧
      writes after = []

theorem written_start (flushEvery : ℕ) (file : File) : Written (start flushEvery file) where
  atMost := fun _ h => absurd h List.not_mem_nil
  flushed := fun h => by cases h
  totaled := fun h => by cases h

theorem Outcome.eq_ok_of_answer {o : Outcome} (h : o.answer = .ok) : o = .ok := by
  cases o with
  | ok => rfl
  | err => cases h

theorem written_step {s s' : State} {a : Label} (hI : Written s) (h : step s a = some s') :
    Written s' := by
  cases a with
  | call o =>
    obtain ⟨c, g, hc, hg, rfl⟩ := step_call h
    refine ⟨?_, ?_, ?_⟩
    · intro p hp
      rw [State.next, writes_snoc, List.mem_append] at hp
      rcases hp with hp | hp
      · exact (hI.atMost p hp).trans (progress_le_of_resume hg)
      · rw [write_eq_some hc (Option.mem_toList.mp hp)]
        exact progress_le_of_resume hg
    · intro hpc
      -- The totals are saved only behind a flush that has succeeded.
      obtain ⟨hflushing, ho⟩ := resume_savingTotals hg hpc
      obtain rfl := Outcome.eq_ok_of_answer ho
      rw [Goroutine.call, hflushing] at hc
      obtain rfl := Option.some.inj hc
      exact ⟨s.log, rfl⟩
    · intro hpc
      obtain ⟨-, ⟨hpc', -⟩ | ⟨hpc', ho, -⟩⟩ := Goroutine.resume_totaled hg hpc
      · obtain ⟨before, after, hlog, hafter⟩ := hI.totaled hpc'
        refine ⟨before, after ++ [(c, o)], ?_, ?_⟩
        · rw [State.next, progress_eq_of_resume hg (Or.inl hpc'), hlog]
          simp
        · rw [writes_snoc, hafter, write_of_totaled hc hpc']
          rfl
      · obtain ⟨before, hlog⟩ := hI.flushed hpc'
        obtain rfl := Outcome.eq_ok_of_answer ho
        rw [Goroutine.call, hpc'] at hc
        obtain rfl := Option.some.inj hc
        refine ⟨before, [], ?_, rfl⟩
        rw [State.next, progress_eq_of_resume hg (Or.inr hpc'), hlog]
        simp
  | read j stale =>
    obtain ⟨g, hg, rfl⟩ := step_read h
    refine ⟨?_, ?_, ?_⟩
    · intro p hp
      exact (hI.atMost p hp).trans (progress_le_of_resume hg)
    · intro hpc
      obtain ⟨-, ho⟩ := resume_savingTotals hg hpc
      cases ho
    · intro hpc
      obtain ⟨-, ⟨hpc', -⟩ | ⟨-, ho, -⟩⟩ := Goroutine.resume_totaled hg hpc
      · rw [progress_eq_of_resume hg (Or.inl hpc')]
        exact hI.totaled hpc'
      · cases ho

theorem written_run {flushEvery : ℕ} {file : File} {as : List Label} {s : State}
    (h : exec step (start flushEvery file) as = some s) : Written s :=
  exec_invariant (fun _ _ _ => written_step) (written_start flushEvery file) h

theorem tally_run {flushEvery : ℕ} {file : File} {as : List Label} {s : State}
    (h : exec step (start flushEvery file) as = some s) : Tally file s :=
  exec_invariant (fun _ _ _ => tally_step) (tally_start flushEvery file) h

/-! ### Rows are neither lost nor duplicated -/

/-- The counters written at a call are right. -/
theorem Tally.counters {file : File} {s : State} {p : Progress} (hI : Tally file s)
    (h : s.g.call = some (.updateProgress p)) :
    p.totalRows = p.validRows + p.invalidRows ∧ p.validRows = p.publishedRows ∧
      p.publishedRows = (accepted s.log).length := by
  obtain rfl : p = s.g.progress := write_eq_some (o := .ok) h rfl
  -- Counters are not written while a row is with the publisher.
  have hidle : running s.g.pc = true ∧ Handover.unpublished s.g.pc = [] := by
    unfold Goroutine.call at h
    cases hpc : s.g.pc <;> rw [hpc] at h <;> cases h <;> exact ⟨rfl, rfl⟩
  have hrows := hI.unpublished hidle.1
  rw [hidle.2, List.append_nil] at hrows
  have hlen := congrArg List.length hrows
  have hpublished := hI.published
  have hvalid := hI.valid
  have htotal := hI.total
  have hinvalid := hI.invalid
  simp only [Goroutine.progress]
  omega

/-- At a write of the status that ends publishing, all rows of the file have been handed
over, and the callback's counters are those of `Stream`. -/
theorem Tally.complete {file : File} {s : State} (hI : Tally file s)
    (h : s.g.pc.totaled = true) :
    s.emitted = file.rows ∧ accepted s.log = validRows file.rows ∧ s.stats = statsOf file.rows ∧
      s.g.progress = ⟨s.stats.totalRows, s.stats.validRows, s.stats.invalidRows,
        s.stats.validRows⟩ := by
  -- At these places nothing is left to emit or to publish.
  have hpc : running s.g.pc = true ∧ Handover.pending s.g = [] ∧
      Handover.unpublished s.g.pc = [] := by
    unfold Handover.pending
    cases hpc : s.g.pc <;> rw [hpc] at h <;> cases h <;> exact ⟨rfl, rfl, rfl⟩
  have hemitted := hI.pending hpc.1
  have haccepted := hI.unpublished hpc.1
  rw [hpc.2.1, List.append_nil] at hemitted
  rw [hpc.2.2, List.append_nil] at haccepted
  rw [hemitted] at haccepted
  have hstats := hI.stats
  rw [hemitted] at hstats
  refine ⟨hemitted, haccepted.symm, hstats, ?_⟩
  have hlen := congrArg List.length haccepted
  have hpublished := hI.published
  have hvalid := hI.valid
  have htotal := hI.total
  have hinvalid := hI.invalid
  rw [hemitted] at htotal hinvalid
  simp only [Goroutine.progress, hstats, statsOf, Progress.mk.injEq]
  omega

/-- **Rows are neither lost nor duplicated.**  Whatever the file, the interval and the
answers: the rows that the publisher takes are a prefix of the valid rows of the file, with
strictly increasing numbers; all counters written agree with it and grow; and once the
status is to be processing or completed, the prefix is all of them, and the last counters
written are those of `Stream`, after a flush without an error. -/
theorem rows_neither_lost_nor_duplicated {rt : Runtime} (hrt : rt.KeepsWidth)
    (opts : StreamOptions) (src : GoString) :
    ∃ file, stream rt opts src = some file ∧
      ∀ flushEvery as s, exec step (start flushEvery file) as = some s →
        accepted s.log <+: validRows file.rows ∧
        (accepted s.log).Pairwise (fun row row' => row.num < row'.num) ∧
        (∀ p, s.g.call = some (.updateProgress p) →
          p.totalRows = p.validRows + p.invalidRows ∧ p.validRows = p.publishedRows ∧
            p.publishedRows = (accepted s.log).length ∧ ∀ q ∈ writes s.log, AtMost q p) ∧
        ∀ next lastErr, s.g.call = some (.updateStatus next lastErr) →
          next = .processing ∨ next = .completed →
            accepted s.log = validRows file.rows ∧ s.stats = statsOf file.rows ∧
              ∃ before after, s.log = before ++ (.flush, .ok) :: (.updateProgress
                ⟨s.stats.totalRows, s.stats.validRows, s.stats.invalidRows,
                  s.stats.validRows⟩, .ok) :: after ∧ writes after = [] := by
  obtain ⟨file, hfile⟩ := exists_stream hrt opts src
  refine ⟨file, hfile, ?_⟩
  intro flushEvery as s hrun
  have htally := tally_run hrun
  have hwritten := written_run hrun
  have hfront : accepted s.log <+: validRows file.rows :=
    htally.taken.trans (htally.emitted.filter _)
  refine ⟨hfront, ?_, ?_, ?_⟩
  · -- The rows are numbered upwards, so what is accepted has no row twice.
    have hnums : (file.rows.map Row.num).Pairwise (· < ·) := by
      rw [map_num_stream hfile]
      exact List.pairwise_lt_range'
    rw [List.pairwise_map] at hnums
    exact hnums.sublist (hfront.sublist.trans List.filter_sublist)
  · intro p hp
    obtain ⟨hsum, hvalid, hpublished⟩ := htally.counters hp
    refine ⟨hsum, hvalid, hpublished, ?_⟩
    obtain rfl : p = s.g.progress := write_eq_some (o := .ok) hp rfl
    exact hwritten.atMost
  · intro next lastErr hcall hnext
    have htotaled : s.g.pc.totaled = true := by
      rcases Goroutine.call_updateStatus hcall with ⟨hpc, -⟩ | ⟨hpc, -⟩ | ⟨hpc, -⟩ |
        ⟨cause, -, rfl, -⟩
      · rw [hpc]
        rfl
      · rw [hpc]
        rfl
      · rw [hpc]
        rfl
      · simp at hnext
    obtain ⟨-, haccepted, hstats, hprogress⟩ := htally.complete htotaled
    obtain ⟨before, after, hlog, hafter⟩ := hwritten.totaled htotaled
    rw [hprogress] at hlog
    exact ⟨haccepted, hstats, before, after, hlog, hafter⟩

/-- A reader for files without quotes: the lines that are not empty, cut at the
delimiter. -/
def readPlain (delim : UInt8) (src : GoString) : Reading :=
  match (src.splitOn 0x0A).filter (· ≠ []) with
  | [] => { header := .error "EOF", records := [] }
  | header :: lines => {
      header := .ok (header.splitOn delim)
      records := lines.map fun line =>
        if (line.splitOn delim).length = (header.splitOn delim).length then
          .ok (line.splitOn delim)
        else .error "wrong number of fields" }

def plainRuntime : Runtime := ⟨id, id, fun _ => "", readPlain⟩

theorem keepsWidth_plainRuntime : plainRuntime.KeepsWidth := by
  intro delim src header record hheader hrecord
  simp only [plainRuntime, readPlain] at hheader hrecord
  split at hheader
  · cases hheader
  · next line lines hlines =>
    rw [hlines] at hrecord
    obtain rfl := Except.ok.inj hheader
    obtain ⟨l, -, hl⟩ := List.mem_map.mp hrecord
    split at hl
    · next hwidth =>
      obtain rfl := Except.ok.inj hl
      exact hwidth
    · cases hl

/-- Three records, the second without a name. -/
def pens : GoString := lit "name,price\nPen,1.50\n,2\nInk,3\n"

/-- What `Stream` makes of them. -/
def pensFile : File where
  rows := [
    { num := 2, reason := none, product := {
        merchantID := lit "m", productID := deriveProductID (lit "Pen"), name := lit "Pen"
        priceCents := 150, currency := lit "USD", expirationDate := [] } },
    { num := 3, reason := some .nameRequired, product := default },
    { num := 4, reason := none, product := {
        merchantID := lit "m", productID := deriveProductID (lit "Ink"), name := lit "Ink"
        priceCents := 300, currency := lit "USD", expirationDate := [] } }]

/-- Of three records, the first and the third reach the event stream. -/
theorem pens_handed_over : ∃ file s, stream plainRuntime ⟨lit "m", lit "USD"⟩ pens = some file ∧
    exec step (start 1 file) (List.replicate 11 (.call .ok)) = some s ∧
      s.g.call = some (.updateStatus .processing none) ∧
        (accepted s.log).map Row.num = [2, 4] ∧ accepted s.log = validRows file.rows := by
  have hstream : stream plainRuntime ⟨lit "m", lit "USD"⟩ pens = some pensFile := by decide +kernel
  have hrun : ∃ s, exec step (start 1 pensFile) (List.replicate 11 (.call .ok)) = some s ∧
      s.g.call = some (.updateStatus .processing none) ∧ (accepted s.log).map Row.num = [2, 4] :=
    ⟨_, rfl, rfl, rfl⟩
  obtain ⟨file, hfile, hruns⟩ :=
    rows_neither_lost_nor_duplicated keepsWidth_plainRuntime ⟨lit "m", lit "USD"⟩ pens
  obtain rfl := Option.some.inj (hfile.symm.trans hstream)
  obtain ⟨s, hs, hcall, hnums⟩ := hrun
  obtain ⟨-, -, -, hcomplete⟩ := hruns 1 _ s hs
  exact ⟨pensFile, s, hstream, hs, hcall, hnums, (hcomplete _ _ hcall (Or.inl rfl)).1⟩

end Handover

end CsvProductUploader

import CsvProductUploader.Catalog.Commits
import CsvProductUploader.Catalog.Custody
import CsvProductUploader.Lib.MaxCounter

/-!
# How far the reports can run ahead

A worker that stops after it has counted records of a poll it never commits leaves them to
a successor, which counts them again.  Both counts may have been published by then, so the
reported totals run ahead of the records that were really counted.  They run ahead by one
poll for each worker that stops so, and by no more.

## Main definitions

* `State.interrupts` — the worker has counted records of a poll it has not committed.
* `Census` — a group, all counts ever made in it, and how many workers were interrupted.
* `reportedRows` — the highest count that each worker has published for each job.

## Main results

* `pending_le_batch` — what an interrupted worker leaves behind fits into its poll.
* `census_counts`, `surveyed_step` — what the census keeps.
* `reported_le` — the reports exceed the distinct records by at most one poll for each
  interrupted worker.
-/

namespace CsvProductUploader.Catalog

open Runs

/-- The worker has counted records of a poll that it has not committed. -/
def State.interrupts (s : State) (k : GoString) : Prop :=
  ∃ c ∈ s.counts, c.worker = k ∧ c.committed = false

instance (s : State) (k : GoString) : Decidable (s.interrupts k) :=
  inferInstanceAs (Decidable (∃ c ∈ s.counts, _))

/-- A group, all counts ever made in it, and the number of workers that stopped between the
count of a record and the commit of its poll. -/
structure Census where
  state : State
  ever : List Count
  interrupted : ℕ

namespace Census

def initial : Census := ⟨Catalog.initial, [], 0⟩

/-- All counts made so far, after a step that leads to `s`. -/
def counted (x : Census) (s : State) : Label → List Count
  | .worker _ _ => x.ever ++ s.counts.drop x.state.counts.length
  | _ => x.ever

/-- The interrupted workers, after one more step. -/
def losses (x : Census) : Label → ℕ
  | .stop k => if x.state.interrupts k then x.interrupted + 1 else x.interrupted
  | _ => x.interrupted

def step (d : Dialect) (maxPoll : ℕ) (x : Census) (a : Label) : Option Census :=
  (Catalog.step d maxPoll x.state a).map fun s => ⟨s, x.counted s a, x.losses a⟩

/-- The records that were counted at least once. -/
def records (x : Census) : List ℕ := (x.ever.map Count.ref).dedup

variable {d : Dialect} {maxPoll : ℕ} {x y : Census} {a : Label}

theorem step_eq (h : step d maxPoll x a = some y) :
    Catalog.step d maxPoll x.state a = some y.state ∧ y.ever = x.counted y.state a ∧
      y.interrupted = x.losses a := by
  obtain ⟨s, hs, rfl⟩ := Option.map_eq_some_iff.mp h
  exact ⟨hs, rfl, rfl⟩

/-- What was counted stays counted. -/
theorem ever_step (h : step d maxPoll x a = some y) : ∃ new, y.ever = x.ever ++ new := by
  obtain ⟨-, hever, -⟩ := step_eq h
  cases a with
  | worker k b => exact ⟨_, hever⟩
  | _ => exact ⟨[], by rw [hever, List.append_nil]; rfl⟩

end Census

/-! ### The reports -/

/-- A snapshot announces its count under its worker and its job. -/
def reportRow (kind : Kind) (c : MaxCounter (GoString × GoString)) (p : ImportProgress) :
    MaxCounter (GoString × GoString) := c.raise (p.workerID, p.jobID) (rowsOf p kind)

/-- The highest count that each worker has published for each job. -/
def reportedRows (progress : List ImportProgress) (kind : Kind) :
    MaxCounter (GoString × GoString) :=
  progress.foldl (reportRow kind) .empty

/-- What bounds every snapshot bounds the reports. -/
theorem reportedRows_le {kind : Kind} {bound : GoString × GoString → ℕ}
    {progress : List ImportProgress}
    (h : ∀ p ∈ progress, rowsOf p kind ≤ bound (p.workerID, p.jobID)) (key : GoString × GoString) :
    (reportedRows progress kind).value key ≤ bound key := by
  have hgen : ∀ c : MaxCounter (GoString × GoString), (∀ key, c.value key ≤ bound key) →
      (progress.foldl (reportRow kind) c).value key ≤ bound key := by
    induction progress with
    | nil => exact fun c hc => hc key
    | cons p progress ih =>
      obtain ⟨hp, hprogress⟩ := List.forall_mem_cons.mp h
      intro c hc
      show (progress.foldl (reportRow kind) (reportRow kind c p)).value key ≤ bound key
      exact ih hprogress _ fun key' => MaxCounter.value_raise_le hc hp key'
  exact hgen .empty fun key' => Nat.zero_le _

/-- The counts of one outcome, and those of the other. -/
theorem length_kinds (l : List Count) :
    (l.filter fun c => c.kind = .applied).length + (l.filter fun c => c.kind = .dead).length =
      l.length := by
  induction l with
  | nil => rfl
  | cons c l ih =>
    cases hkind : c.kind <;> simp [hkind] <;> omega

/-- Reports within the counts sum up to no more than there are counts. -/
theorem total_reportedRows_le {progress : List ImportProgress} {l : List Count} {kind : Kind}
    (h : ∀ p ∈ progress, rowsOf p kind ≤ countOf l p.workerID p.jobID kind) :
    (reportedRows progress kind).total ≤ (l.filter fun c => c.kind = kind).length := by
  refine MaxCounter.total_le_length (fun c : Count => (c.worker, c.job)) fun key => ?_
  have hcount : ∀ key : GoString × GoString,
      (l.filter fun c => c.kind = kind).countP (fun c => (c.worker, c.job) = key) =
        countOf l key.1 key.2 kind := by
    intro key
    unfold countOf
    rw [List.countP_filter]
    apply List.countP_congr
    intro c _
    simp only [Bool.and_eq_true, decide_eq_true_eq, Prod.ext_iff]
    show (c.worker = key.1 ∧ c.job = key.2) ∧ c.kind = kind ↔
      c.worker = key.1 ∧ c.job = key.2 ∧ c.kind = kind
    exact and_assoc
  rw [hcount]
  exact @reportedRows_le kind (fun key => countOf l key.1 key.2 kind) progress h key

/-! ### What an interruption costs -/

/-- The counts of a worker that its commit has not settled. -/
def pendingCounts (k : GoString) (counts : List Count) : List Count :=
  counts.filter fun c => c.worker = k && !c.committed

theorem length_dropCounts (k : GoString) (counts : List Count) :
    (dropCounts k counts).length + (pendingCounts k counts).length = counts.length := by
  have hpending : pendingCounts k counts =
      counts.filter fun c => !(decide (c.worker ≠ k) || c.committed) := by
    apply List.filter_congr
    intro c _
    by_cases hk : c.worker = k <;> simp [hk]
  rw [hpending, dropCounts]
  exact (List.length_eq_length_filter_add _).symm

theorem pendingCounts_eq_nil {s : State} {k : GoString} (h : ¬ s.interrupts k) :
    pendingCounts k s.counts = [] := by
  rw [pendingCounts, List.filter_eq_nil_iff]
  intro c hc hpending
  rw [Bool.and_eq_true, decide_eq_true_eq, Bool.not_eq_true'] at hpending
  exact h ⟨c, hc, hpending⟩

/-- What an interrupted worker leaves behind fits into its poll. -/
theorem pending_le_batch {s : State} {k : GoString} {w : Worker} (hH : Held s) (hD : Distinct s)
    (hw : s.workers k = some w) : (pendingCounts k s.counts).length ≤ w.batch.length := by
  have hnodup : ((pendingCounts k s.counts).map Count.ref).Nodup :=
    hD.counts.sublist (List.filter_sublist.map _)
  have hsub : (pendingCounts k s.counts).map Count.ref ⊆ w.batch := by
    intro i hi
    obtain ⟨c, hc, rfl⟩ := List.mem_map.mp hi
    obtain ⟨hmem, hpending⟩ := List.mem_filter.mp hc
    rw [Bool.and_eq_true, decide_eq_true_eq, Bool.not_eq_true'] at hpending
    obtain ⟨v, hv, href⟩ := hH.pending c hmem hpending.2
    rw [hpending.1, hw] at hv
    exact Option.some.inj hv ▸ href
  rw [← List.length_map]
  exact (hnodup.subperm hsub).length_le

/-! ### The census -/

/-- What holds of a group and of its census. -/
structure Surveyed (maxPoll : ℕ) (x : Census) : Prop where
  known : Known x.state
  tallied : ∀ id, Tallied id x.state
  staged : Staged x.state
  held : Held x.state
  distinct : Distinct x.state
  within : ∀ k w, x.state.workers k = some w → ∀ f, f ∈ w.pc.flush ∨ f ∈ w.ticker →
    Within w.service f
  batch : ∀ k w, x.state.workers k = some w → w.batch.length ≤ maxPoll
  /-- What the workers still count has been counted. -/
  counts : ∀ k id kind, countOf x.state.counts k id kind ≤ countOf x.ever k id kind
  refs : ∀ c ∈ x.state.counts, c.ref ∈ x.ever.map Count.ref
  progress : ∀ p ∈ x.state.progress, ∀ kind, rowsOf p kind ≤ countOf x.ever p.workerID p.jobID kind
  /-- All that was counted, but for the polls that were interrupted, is still counted. -/
  length : x.ever.length ≤ x.state.counts.length + x.interrupted * maxPoll

section
variable {d : Dialect} {maxPoll : ℕ} {x y : Census} {a : Label}

/-- The counts of a group after a step: a worker has added some, or has committed its own, or
has stopped and lost them. -/
theorem census_counts (h : Census.step d maxPoll x a = some y) :
    (∃ new, y.state.counts = x.state.counts ++ new ∧ y.ever = x.ever ++ new ∧
        y.interrupted = x.interrupted) ∨
      (∃ k, y.state.counts = settleCounts k x.state.counts ∧ y.ever = x.ever ∧
        y.interrupted = x.interrupted) ∨
      ∃ k w, a = .stop k ∧ x.state.workers k = some w ∧
        y.state.counts = dropCounts k x.state.counts ∧ y.ever = x.ever := by
  obtain ⟨hs, hever, hlost⟩ := Census.step_eq h
  have hsame : y.state.counts = x.state.counts → y.ever = x.ever → y.interrupted = x.interrupted →
      ∃ new, y.state.counts = x.state.counts ++ new ∧ y.ever = x.ever ++ new ∧
        y.interrupted = x.interrupted :=
    fun hcounts hever hlost => ⟨[], by rw [hcounts, List.append_nil],
        by rw [hever, List.append_nil], hlost⟩
  -- Only a stop drops counts: every other step adds to them at the end, or settles them.
  cases a with
  | append r => exact Or.inl (hsame (by rw [step_append hs]) hever hlost)
  | start k => exact Or.inl (hsame (by rw [(step_start hs).2]; rfl) hever hlost)
  | assign p k =>
    obtain ⟨w, -, -, hs'⟩ := step_assign hs
    exact Or.inl (hsame (by rw [hs']; rfl) hever hlost)
  | stop k =>
    obtain ⟨w, hw⟩ : ∃ w, x.state.workers k = some w := by
      simp only [Catalog.step] at hs
      split at hs
      · next hk => exact Option.isSome_iff_exists.mp hk
      · cases hs
    exact Or.inr (Or.inr ⟨k, w, rfl, hw, by rw [step_stop hs], hever⟩)
  | worker k b =>
    obtain ⟨w, -, ha⟩ := step_worker hs
    have hever' : y.ever = x.ever ++ y.state.counts.drop x.state.counts.length := hever
    rcases ha.counts_cases with hcounts | ⟨new, hcounts, -⟩ | hcounts
    · rw [hcounts, List.drop_length, List.append_nil] at hever'
      exact Or.inl (hsame hcounts hever' hlost)
    · rw [hcounts, List.drop_left] at hever'
      exact Or.inl ⟨new, hcounts, hever', hlost⟩
    · have hlength : (settleCounts k x.state.counts).length = x.state.counts.length :=
          List.length_map ..
      rw [hcounts, ← hlength, List.drop_length, List.append_nil] at hever'
      exact Or.inr (Or.inl ⟨k, hcounts, hever', hlost⟩)

theorem surveyed_initial : Surveyed maxPoll .initial where
  known := ⟨fun _ hk => absurd rfl hk, fun _ hc => nomatch hc⟩
  tallied _ _ _ hw := nomatch hw
  staged _ _ hw := nomatch hw
  held := {
    up := fun _ _ hp => nomatch hp
    position := fun _ _ hw => nomatch hw
    batch := fun _ _ hw => nomatch hw
    below := fun _ hc => nomatch hc
    pending := fun _ hc => nomatch hc
    job := fun _ hc => nomatch hc }
  distinct := ⟨List.nodup_nil, fun _ _ hw => nomatch hw⟩
  within _ _ hw := nomatch hw
  batch _ _ hw := nomatch hw
  counts _ _ _ := Nat.le_refl 0
  refs _ hc := nomatch hc
  progress _ hp := nomatch hp
  length := Nat.zero_le _

/-- A poll is never larger than the client allows. -/
theorem batch_step (hI : ∀ k w, x.state.workers k = some w → w.batch.length ≤ maxPoll)
    (h : Census.step d maxPoll x a = some y) :
    ∀ k w, y.state.workers k = some w → w.batch.length ≤ maxPoll := by
  intro k w' hw'
  obtain ⟨hs, -⟩ := Census.step_eq h
  rcases worker_step hs hw' with ⟨-, rfl⟩ | ⟨p, w, -, hw, rfl⟩ | ⟨b, w, rfl, hw, ha⟩ | ⟨hw, -⟩
  · exact Nat.zero_le _
  · exact hI k w hw
  · have hle := hI k w hw
    rcases ha.batch hw' with heq | ⟨i, heq, hlt⟩ | ⟨-, heq⟩
    · rwa [heq]
    · rw [heq, List.length_append, List.length_singleton]
      omega
    · rw [heq]
      exact Nat.zero_le _
  · exact hI k w' hw

/-- No snapshot says more than was ever counted. -/
theorem progress_census (hI : Surveyed maxPoll x) (h : Census.step d maxPoll x a = some y) :
    ∀ p ∈ y.state.progress, ∀ kind, rowsOf p kind ≤ countOf y.ever p.workerID p.jobID kind := by
  obtain ⟨hs, -⟩ := Census.step_eq h
  obtain ⟨new, hever⟩ := Census.ever_step h
  have hgrow : ∀ k id kind, countOf x.ever k id kind ≤ countOf y.ever k id kind := by
    intro k id kind
    rw [hever, countOf_append]
    omega
  intro p hp kind
  have hold : p ∈ x.state.progress → rowsOf p kind ≤ countOf y.ever p.workerID p.jobID kind :=
    fun hp => Nat.le_trans (hI.progress p hp kind) (hgrow ..)
  cases a with
  | append r => exact hold (by rwa [step_append hs] at hp)
  | start k => exact hold (by rwa [(step_start hs).2] at hp)
  | stop k => exact hold (by rwa [step_stop hs] at hp)
  | assign q k =>
    obtain ⟨w, -, -, hs'⟩ := step_assign hs
    exact hold (by rwa [hs'] at hp)
  | worker k b =>
    obtain ⟨w, hw, ha⟩ := step_worker hs
    obtain ⟨w', -, hflow⟩ := ha.flow
    rcases hflow.sent hp with hp | ⟨f, r, hf, hr, rfl⟩
    · exact hold hp
    · -- A report says at most what the counters say, and these count what was counted.
      rw [rowsOf_snapshot]
      have hcount : w.service.count r.jobID kind = countOf x.state.counts k r.jobID kind :=
        hI.tallied r.jobID k w hw kind
      calc r.count kind ≤ w.service.count r.jobID kind := hI.within k w hw f hf r hr kind
        _ = countOf x.state.counts k r.jobID kind := hcount
        _ ≤ countOf x.ever k r.jobID kind := hI.counts k r.jobID kind
        _ ≤ countOf y.ever k r.jobID kind := hgrow ..

theorem countOf_dropCounts_le (k' k id : GoString) (kind : Kind) (l : List Count) :
    countOf (dropCounts k' l) k id kind ≤ countOf l k id kind :=
  List.filter_sublist.countP_le

/-- **An interruption costs one poll**: what was counted and is not counted any more fits into
the polls that were interrupted. -/
theorem length_census (hI : Surveyed maxPoll x) (h : Census.step d maxPoll x a = some y) :
    y.ever.length ≤ y.state.counts.length + y.interrupted * maxPoll := by
  have hlength := hI.length
  rcases census_counts h with ⟨new, hcounts, hever, hlost⟩ | ⟨k, hcounts, hever, hlost⟩ |
    ⟨k, w, rfl, hw, hcounts, hever⟩
  · rw [hcounts, hever, hlost, List.length_append, List.length_append]
    omega
  · rw [hcounts, hever, hlost]
    have hsettle : (settleCounts k x.state.counts).length = x.state.counts.length :=
        List.length_map ..
    omega
  · obtain ⟨-, -, hlost⟩ := Census.step_eq h
    have hdrop := length_dropCounts k x.state.counts
    rw [hcounts, hever, hlost]
    simp only [Census.losses]
    split
    · have hpending := pending_le_batch hI.held hI.distinct hw
      have hbatch := hI.batch k w hw
      rw [Nat.add_mul]
      omega
    · next hnone =>
      rw [pendingCounts_eq_nil hnone, List.length_nil] at hdrop
      omega

theorem surveyed_step (hI : Surveyed maxPoll x)
    (hC : Fresh x.state a ∧ Orderly x.state a) (h : Census.step d maxPoll x a = some y) :
    Surveyed maxPoll y := by
  obtain ⟨hs, -⟩ := Census.step_eq h
  refine {
    known := known_step hI.known hs
    tallied := fun id => tallied_step (hI.tallied id) (hI.known.noReuse hC.1 id) hs
    staged := staged_step hI.staged hs
    held := held_step hI.held hI.staged hC.2 hs
    distinct := distinct_step hI.distinct hI.held hI.staged hs
    within := within_step hI.within hs
    batch := batch_step hI.batch h
    counts := fun k id kind => ?_
    refs := fun c hc => ?_
    progress := progress_census hI h
    length := length_census hI h }
  · -- Whatever is dropped or settled, what was ever counted stays counted.
    have hle := hI.counts k id kind
    rcases census_counts h with ⟨new, hcounts, hever, -⟩ | ⟨k', hcounts, hever, -⟩ |
      ⟨k', w, -, -, hcounts, hever⟩
    · rw [hcounts, hever, countOf_append, countOf_append]
      omega
    · rwa [hcounts, hever, countOf_settleCounts]
    · rw [hcounts, hever]
      exact Nat.le_trans (countOf_dropCounts_le ..) hle
  · rcases census_counts h with ⟨new, hcounts, hever, -⟩ | ⟨k', hcounts, hever, -⟩ |
      ⟨k', w, -, -, hcounts, hever⟩
    · rw [hcounts] at hc
      rw [hever, List.map_append]
      rcases List.mem_append.mp hc with hc | hc
      · exact List.mem_append_left _ (hI.refs c hc)
      · exact List.mem_append_right _ (List.mem_map_of_mem hc)
    · rw [hcounts] at hc
      obtain ⟨e, he, -, href, -⟩ := mem_settleCounts hc
      rw [hever, href]
      exact hI.refs e he
    · rw [hcounts] at hc
      rw [hever]
      exact hI.refs c (mem_dropCounts.mp hc).1

/-- **Reports run ahead by one poll for each interrupted worker**: as long as identities are
not reused and no partition is taken from a worker that holds records of it, the highest
counts that the workers have published, over all jobs and outcomes, exceed the distinct
records that were counted by at most a full poll for each worker that stopped with a poll
half done. -/
theorem reported_le {as : List Label}
    (hC : Meets (Census.step d maxPoll)
      (fun x a => Fresh x.state a ∧ Orderly x.state a) .initial as)
    (h : exec (Census.step d maxPoll) .initial as = some x) :
    (reportedRows x.state.progress .applied).total + (reportedRows x.state.progress .dead).total ≤
      x.records.length + x.interrupted * maxPoll := by
  have hI : Surveyed maxPoll x :=
    exec_invariant_of_meets (fun _ _ _ hI hC hs => surveyed_step hI hC hs) surveyed_initial hC h
  have happlied := total_reportedRows_le fun p hp => hI.progress p hp .applied
  have hdead := total_reportedRows_le fun p hp => hI.progress p hp .dead
  have hkinds := length_kinds x.ever
  -- What is still counted is counted once.
  have hdistinct : x.state.counts.length ≤ x.records.length := by
    rw [← List.length_map Count.ref]
    refine (hI.distinct.counts.subperm fun i hi => List.mem_dedup.mpr ?_).length_le
    obtain ⟨c, hc, rfl⟩ := List.mem_map.mp hi
    exact hI.refs c hc
  have hlength := hI.length
  omega

end

/-- A worker polls the record, writes, counts and reports it. -/
def reportRun (k : GoString) : List Label :=
  [.start k, .assign 0 k] ++
  [.fetch 0, .poll, .write none false, .count, .flush (.read [⟨auditedJob, 1, 0, 0⟩]),
    .flush (.report .ok)].map (.worker k)

/-- The first worker crashes before its commit, and a second one counts the record again. -/
def interruptedRun : List Label :=
  [.append ⟨0, .event soundEvent⟩] ++ reportRun (lit "a") ++ [.stop (lit "a")]
      ++ reportRun (lit "b")

theorem reported_le_interrupted :
    ∃ x, exec (Census.step canonicalDialect 1) .initial interruptedRun = some x ∧
      x.records.length = 1 ∧ x.interrupted = 1 ∧
      (reportedRows x.state.progress .applied).total + (reportedRows x.state.progress .dead).total ≤
        x.records.length + x.interrupted * 1 := by
  have hrun : ∃ x, exec (Census.step canonicalDialect 1) .initial interruptedRun = some x ∧
      x.records.length = 1 ∧ x.interrupted = 1 := ⟨_, rfl, rfl, rfl⟩
  have hC : Meets (Census.step canonicalDialect 1) (fun x a => Fresh x.state a ∧ Orderly x.state a)
      .initial interruptedRun := by decide
  obtain ⟨x, hx, hrecords, hinterrupted⟩ := hrun
  exact ⟨x, hx, hrecords, hinterrupted, reported_le hC hx⟩

end CsvProductUploader.Catalog

import CsvProductUploader.Catalog.Worker

/-!
# What the workers count

How the counters of a worker, the records it has counted and the records it still has to
count belong together, in every run of the group.

## Main definitions

* `Pc.uncounted` — the records of the batch that the loop has yet to count.
* `Staged` — every event of a batch is counted or yet to be.
* `countOf`, `Tallied` — a worker's counters are the numbers of its counted records.
* `NoReuse` — no worker starts under an identity with counts of the job.
* `Fresh` — no worker starts under an identity that was ever in use.

## Main results

* `worker_step`, `log_step`, `counts_step` — what one step of the group can do.
* `staged_step`, `tallied_step` — both are invariants, the second for a job whose
  identities are not reused.
-/

namespace CsvProductUploader.Catalog

/-! ### The log grows at its end -/

namespace Log

variable {log : Log} {i : ℕ} {batch : List ℕ}

theorem eventAt_snoc (h : i < log.length) (r : Record) :
    eventAt (log ++ [r]) i = log.eventAt i := by
  rw [eventAt, eventAt, List.getElem?_append_left h]

theorem jobAt_snoc (h : i < log.length) (r : Record) : jobAt (log ++ [r]) i = log.jobAt i := by
  rw [jobAt, jobAt, List.getElem?_append_left h]

theorem partitionAt_snoc (h : i < log.length) (r : Record) :
    partitionAt (log ++ [r]) i = log.partitionAt i := by
  rw [partitionAt, partitionAt, List.getElem?_append_left h]

theorem validAt_snoc (h : i < log.length) (r : Record) :
    validAt (log ++ [r]) i = log.validAt i := by rw [validAt, validAt, eventAt_snoc h]

/-- The records of a batch that decode. -/
def eventRefs (log : Log) (batch : List ℕ) : List ℕ :=
  batch.filter fun i => (log.eventAt i).isSome

theorem eventRefs_snoc (h : ∀ i ∈ batch, i < log.length) (r : Record) :
    eventRefs (log ++ [r]) batch = log.eventRefs batch :=
  List.filter_congr fun i hi => by rw [eventAt_snoc (h i hi)]

theorem invalidRefs_snoc (h : ∀ i ∈ batch, i < log.length) (r : Record) :
    invalidRefs (log ++ [r]) batch = log.invalidRefs batch :=
  List.filter_congr fun i hi => by rw [eventAt_snoc (h i hi), validAt_snoc (h i hi)]

theorem lt_of_partitionAt {p : ℕ} (h : log.partitionAt i = some p) : i < log.length := by
  obtain ⟨r, hr, -⟩ := Option.map_eq_some_iff.mp h
  exact (List.getElem?_eq_some_iff.mp hr).1

theorem isSome_of_validAt (h : log.validAt i = true) : (log.eventAt i).isSome = true := by
  unfold validAt at h
  cases hevt : log.eventAt i with
  | none =>
    rw [hevt] at h
    cases h
  | some evt => rfl

/-- The events of a batch are its valid and its invalid ones. -/
theorem mem_eventRefs_iff :
    i ∈ log.eventRefs batch ↔ i ∈ log.validRefs batch ∨ i ∈ log.invalidRefs batch := by
  unfold eventRefs validRefs invalidRefs
  rw [List.mem_filter, List.mem_filter, List.mem_filter]
  cases hvalid : log.validAt i with
  | true => simp [isSome_of_validAt hvalid]
  | false => simp

theorem eventRefs_eq_nil (h : log.events batch = []) : log.eventRefs batch = [] := by
  rw [eventRefs, List.filter_eq_nil_iff]
  intro i hi hevt
  obtain ⟨evt, hevt⟩ := Option.isSome_iff_exists.mp hevt
  have hmem : evt ∈ log.events batch := List.mem_filterMap.mpr ⟨i, hi, hevt⟩
  rw [h] at hmem
  cases hmem

theorem jobAt_of_eventAt {evt : ProductImported} (h : log.eventAt i = some evt) :
    log.jobAt i = some evt.jobID := by
  unfold eventAt at h
  split at h
  · next hr =>
    obtain rfl := Option.some.inj h
    rw [jobAt, hr]
  · cases h

end Log

/-! ### What a step of one worker leaves to the others -/

section
variable {d : Dialect} {maxPoll : ℕ} {s s' : State} {k : GoString} {w : Worker} {b : Action}

theorem Acts.workers (h : Acts d maxPoll s k w b s') :
    ∃ w', s'.workers = Function.update s.workers k (some w') := by
  cases h <;> exact ⟨_, rfl⟩

/-- What a step of a worker leaves alone. -/
theorem Acts.frame (h : Acts d maxPoll s k w b s') :
    s'.log = s.log ∧ s'.owner = s.owner ∧ s'.used = s.used := by
  cases h <;> exact ⟨rfl, rfl, rfl⟩

theorem Acts.workers_of_ne (h : Acts d maxPoll s k w b s') {k' : GoString} (hk : k' ≠ k) :
    s'.workers k' = s.workers k' := by
  obtain ⟨w', hw'⟩ := h.workers
  rw [hw', Function.update_of_ne hk]

/-- What was written, dead-lettered or sent stays so. -/
theorem Acts.mono (h : Acts d maxPoll s k w b s') :
    (∀ i ∈ s.written, i ∈ s'.written) ∧ (∀ i ∈ s.dead, i ∈ s'.dead) ∧
      ∀ p ∈ s.progress, p ∈ s'.progress := by
  have hdead : ∀ (r : Reply) (j : ℕ), ∀ i ∈ s.dead,
      i ∈ if r.applied then s.dead ++ [j] else s.dead := by
    intro r j i hi
    split
    · exact List.mem_append_left _ hi
    · exact hi
  have hsame : ∀ i ∈ s.written, i ∈ s.written := fun _ hi => hi
  have hdsame : ∀ i ∈ s.dead, i ∈ s.dead := fun _ hi => hi
  have hpsame : ∀ p ∈ s.progress, p ∈ s.progress := fun _ hp => hp
  cases h with
  | republish => exact ⟨hsame, hdead _ _, hpsame⟩
  | deadLetter => exact ⟨hsame, hdead _ _, hpsame⟩
  | write => exact ⟨fun _ hi => List.mem_append_left _ hi, hdsame, hpsame⟩
  | flush => exact ⟨hsame, hdsame, fun _ hp => List.mem_append_left _ hp⟩
  | drain => exact ⟨hsame, hdsame, fun _ hp => List.mem_append_left _ hp⟩
  | tickerFlush => exact ⟨hsame, hdsame, fun _ hp => List.mem_append_left _ hp⟩
  | _ => exact ⟨hsame, hdsame, hpsame⟩

/-- What the counts of an adjudicated batch are. -/
theorem of_mem_countsOf {log : Log} {batch : List ℕ} {c : Count} (h : c ∈ countsOf log k batch) :
    c.worker = k ∧ c.committed = false ∧ log.jobAt c.ref = some c.job := by
  rcases List.mem_append.mp h with h | h
  · obtain ⟨i, -, hc⟩ := List.mem_filterMap.mp h
    obtain ⟨evt, hevt, rfl⟩ := Option.map_eq_some_iff.mp hc
    exact ⟨rfl, rfl, Log.jobAt_of_eventAt hevt⟩
  · obtain ⟨i, -, hc⟩ := List.mem_filterMap.mp h
    obtain ⟨evt, hevt, rfl⟩ := Option.map_eq_some_iff.mp hc
    exact ⟨rfl, rfl, Log.jobAt_of_eventAt hevt⟩

/-- What a step of a worker does to the counts: nothing, counts of its own are added, or
its counts are committed. -/
theorem Acts.counts_cases (h : Acts d maxPoll s k w b s') :
    s'.counts = s.counts ∨
      (∃ new, s'.counts = s.counts ++ new ∧ ∀ c ∈ new, c.worker = k ∧ c.committed = false) ∨
      s'.counts = settleCounts k s.counts := by
  cases h with
  | countPoison =>
    refine Or.inr (Or.inl ⟨_, rfl, ?_⟩)
    intro c hc
    rw [List.mem_singleton.mp hc]
    exact ⟨rfl, rfl⟩
  | count =>
    refine Or.inr (Or.inl ⟨_, rfl, ?_⟩)
    intro c hc
    exact ⟨(of_mem_countsOf hc).1, (of_mem_countsOf hc).2.1⟩
  | commit => exact Or.inr (Or.inr rfl)
  | _ => exact Or.inl rfl

theorem mem_settleCounts_of_ne {counts : List Count} {c : Count} (hc : c.worker ≠ k) :
    c ∈ settleCounts k counts ↔ c ∈ counts := by
  unfold settleCounts
  rw [List.mem_map]
  constructor
  · rintro ⟨e, he, rfl⟩
    split at hc
    · next hw => exact absurd hw hc
    · next hw => rwa [if_neg hw]
  · intro h
    exact ⟨c, h, if_neg hc⟩

/-- A step of one worker leaves the counts of the others. -/
theorem Acts.mem_counts_of_ne (h : Acts d maxPoll s k w b s') {c : Count} (hc : c.worker ≠ k) :
    c ∈ s'.counts ↔ c ∈ s.counts := by
  rcases h.counts_cases with heq | ⟨new, heq, hnew⟩ | heq
  · rw [heq]
  · rw [heq, List.mem_append, or_iff_left]
    intro hmem
    exact hc (hnew c hmem).1
  · rw [heq, mem_settleCounts_of_ne hc]

theorem mem_dropCounts {counts : List Count} {c : Count} :
    c ∈ dropCounts k counts ↔ c ∈ counts ∧ (c.worker ≠ k ∨ c.committed = true) := by
  unfold dropCounts
  rw [List.mem_filter]
  simp

end

section
variable {d : Dialect} {maxPoll : ℕ} {s s' : State} {a : Label} {k : GoString} {w' : Worker}

/-- **What one step of the group can do to a worker**: start it, hand it a partition, let
it act, or leave it alone. -/
theorem worker_step (h : step d maxPoll s a = some s') (hw' : s'.workers k = some w') :
    (a = .start k ∧ w' = {}) ∨
      (∃ p w, a = .assign p k ∧ s.workers k = some w ∧
        w' = { w with position := Function.update w.position p (s.committed p) }) ∨
      (∃ b w, a = .worker k b ∧ s.workers k = some w ∧ Acts d maxPoll s k w b s') ∨
      (s.workers k = some w' ∧ a ≠ .stop k ∧ (∀ p, a ≠ .assign p k) ∧ ∀ b, a ≠ .worker k b) := by
  -- Only the labels that name this worker change it.
  cases a with
  | append r =>
    obtain rfl := step_append h
    exact Or.inr (Or.inr (Or.inr ⟨hw', by simp⟩))
  | start k' =>
    obtain ⟨-, rfl⟩ := step_start h
    simp only [State.put, Function.update_apply] at hw'
    split at hw'
    · next hk => exact Or.inl ⟨by rw [hk], (Option.some.inj hw').symm⟩
    · exact Or.inr (Or.inr (Or.inr ⟨hw', by simp⟩))
  | stop k' =>
    obtain rfl := step_stop h
    simp only [Function.update_apply] at hw'
    split at hw'
    · cases hw'
    · next hk => exact Or.inr (Or.inr (Or.inr ⟨hw', by simp [Ne.symm hk]⟩))
  | assign p k' =>
    obtain ⟨w, hw, -, rfl⟩ := step_assign h
    simp only [State.put, Function.update_apply] at hw'
    split at hw'
    · next hk =>
      subst hk
      exact Or.inr (Or.inl ⟨p, w, rfl, hw, (Option.some.inj hw').symm⟩)
    · next hk => exact Or.inr (Or.inr (Or.inr ⟨hw', by simp [Ne.symm hk]⟩))
  | worker k' b =>
    obtain ⟨w, hw, ha⟩ := step_worker h
    by_cases hk : k = k'
    · subst hk
      exact Or.inr (Or.inr (Or.inl ⟨b, w, rfl, hw, ha⟩))
    · rw [ha.workers_of_ne hk] at hw'
      exact Or.inr (Or.inr (Or.inr ⟨hw', by simp [Ne.symm hk]⟩))

/-- The log only grows, at its end. -/
theorem log_step (h : step d maxPoll s a = some s') :
    s'.log = s.log ∨ ∃ r, a = .append r ∧ s'.log = s.log ++ [r] := by
  cases a with
  | append r =>
    obtain rfl := step_append h
    exact Or.inr ⟨r, rfl, rfl⟩
  | start k =>
    obtain ⟨-, rfl⟩ := step_start h
    exact Or.inl rfl
  | stop k =>
    obtain rfl := step_stop h
    exact Or.inl rfl
  | assign p k =>
    obtain ⟨w, -, -, rfl⟩ := step_assign h
    exact Or.inl rfl
  | worker k b =>
    obtain ⟨w, -, ha⟩ := step_worker h
    exact Or.inl ha.frame.1

/-- A worker's counts are left alone by all steps but its own and its stop. -/
theorem counts_step (h : step d maxPoll s a = some s') (hstop : a ≠ .stop k)
    (hact : ∀ b, a ≠ .worker k b) {c : Count} (hc : c.worker = k) :
    c ∈ s'.counts ↔ c ∈ s.counts := by
  cases a with
  | append r =>
    obtain rfl := step_append h
    rfl
  | start k' =>
    obtain ⟨-, rfl⟩ := step_start h
    rfl
  | stop k' =>
    obtain rfl := step_stop h
    have hne : c.worker ≠ k' := fun heq => hstop (by rw [← hc, heq])
    exact mem_dropCounts.trans (and_iff_left (Or.inl hne))
  | assign p k' =>
    obtain ⟨w, -, -, rfl⟩ := step_assign h
    rfl
  | worker k' b =>
    obtain ⟨w, -, ha⟩ := step_worker h
    exact ha.mem_counts_of_ne fun heq => hact b (by rw [← hc, heq])

/-- A snapshot stays on the progress topic. -/
theorem progress_step (h : step d maxPoll s a = some s') {p : ImportProgress}
    (hp : p ∈ s.progress) : p ∈ s'.progress := by
  cases a with
  | append r =>
    obtain rfl := step_append h
    exact hp
  | start k =>
    obtain ⟨-, rfl⟩ := step_start h
    exact hp
  | stop k =>
    obtain rfl := step_stop h
    exact hp
  | assign q k =>
    obtain ⟨w, -, -, rfl⟩ := step_assign h
    exact hp
  | worker k b =>
    obtain ⟨w, -, ha⟩ := step_worker h
    exact ha.mono.2.2 p hp

end

/-! ### Records that are counted, and records that are yet to be -/

/-- The records of the batch that the loop has yet to count. -/
def Pc.uncounted (log : Log) (batch : List ℕ) : Pc → List ℕ
  | .polling => batch
  | .poisoning todo | .republishing _ todo => todo ++ log.eventRefs batch
  | .deadLettering _ | .writing _ | .counting => log.eventRefs batch
  | .flushing _ | .committing | .draining _ | .returned => []

theorem uncounted_deadLetters (log : Log) (batch todo : List ℕ) :
    (Pc.deadLetters log batch todo).uncounted log batch = log.eventRefs batch := by
  unfold Pc.deadLetters
  split_ifs <;> rfl

theorem uncounted_processBatch (log : Log) (batch : List ℕ) :
    (Pc.processBatch log batch).uncounted log batch = log.eventRefs batch := by
  unfold Pc.processBatch
  split
  · next hnil => rw [Log.eventRefs_eq_nil hnil, Pc.uncounted]
  · exact uncounted_deadLetters ..

theorem uncounted_poisons (log : Log) (batch todo : List ℕ) :
    (Pc.poisons log batch todo).uncounted log batch = todo ++ log.eventRefs batch := by
  unfold Pc.poisons
  split
  · next hnil => rw [hnil, uncounted_processBatch, List.nil_append]
  · rfl

/-- The loop has not given up on its batch. -/
def Pc.alive : Pc → Bool
  | .draining _ | .returned => false
  | _ => true

/-- The batch of a worker and what has been counted of it. -/
structure Stage (s : State) (k : GoString) (w : Worker) : Prop where
  bound : ∀ i ∈ w.batch, i < s.log.length
  todo : ∀ i ∈ w.pc.uncounted s.log w.batch, i ∈ w.batch
  /-- Every event of the batch is yet to be counted, or counted for its job. -/
  all : w.pc.alive = true → ∀ i ∈ w.batch, ∀ evt, s.log.eventAt i = some evt →
    i ∈ w.pc.uncounted s.log w.batch ∨
      ∃ c ∈ s.counts, c.worker = k ∧ c.ref = i ∧ c.job = evt.jobID

def Staged (s : State) : Prop := ∀ k w, s.workers k = some w → Stage s k w

theorem mem_eventRefs {log : Log} {batch : List ℕ} {i : ℕ} {evt : ProductImported} (hi : i ∈ batch)
    (h : log.eventAt i = some evt) : i ∈ log.eventRefs batch :=
  List.mem_filter.mpr ⟨hi, by rw [h]; rfl⟩

theorem mem_of_mem_eventRefs {log : Log} {batch : List ℕ} {i : ℕ} (h : i ∈ log.eventRefs batch) :
    i ∈ batch := (List.mem_filter.mp h).1

theorem uncounted_snoc {log : Log} {batch : List ℕ} (h : ∀ i ∈ batch, i < log.length) (r : Record)
    (pc : Pc) : pc.uncounted (log ++ [r]) batch = pc.uncounted log batch := by
  cases pc <;> simp only [Pc.uncounted, Log.eventRefs_snoc h]

/-- Counting a batch counts each of its events for its job. -/
theorem exists_countsOf {log : Log} {k : GoString} {batch : List ℕ} {i : ℕ} {evt : ProductImported}
    (hi : i ∈ batch) (h : log.eventAt i = some evt) :
    ∃ c ∈ countsOf log k batch, c.worker = k ∧ c.ref = i ∧ c.job = evt.jobID := by
  rcases Log.mem_eventRefs_iff.mp (mem_eventRefs hi h) with hmem | hmem
  · refine ⟨⟨k, i, evt.jobID, .applied, false⟩, List.mem_append_left _ ?_, rfl, rfl, rfl⟩
    exact List.mem_filterMap.mpr ⟨i, hmem, by rw [h]; rfl⟩
  · refine ⟨⟨k, i, evt.jobID, .dead, false⟩, List.mem_append_right _ ?_, rfl, rfl, rfl⟩
    exact List.mem_filterMap.mpr ⟨i, hmem, by rw [h]; rfl⟩

section
variable {d : Dialect} {maxPoll : ℕ} {s s' : State} {k : GoString} {w : Worker} {b : Action}

/-- A step that keeps the batch keeps its stage, if what it takes from the records yet to
be counted has been counted. -/
theorem Stage.keep {w' : Worker} (h : Stage s k w) (hlog : s'.log = s.log)
    (hbatch : w'.batch = w.batch)
    (hsub : ∀ i ∈ w'.pc.uncounted s.log w.batch, i ∈ w.pc.uncounted s.log w.batch)
    (hcounts : ∀ c ∈ s.counts, c ∈ s'.counts)
    (hall : w'.pc.alive = true → w.pc.alive = true ∧ ∀ i ∈ w.pc.uncounted s.log w.batch, ∀ evt,
      s.log.eventAt i = some evt → i ∈ w'.pc.uncounted s.log w.batch ∨
        ∃ c ∈ s'.counts, c.worker = k ∧ c.ref = i ∧ c.job = evt.jobID) : Stage s' k w' := by
  constructor
  · rw [hlog, hbatch]
    exact h.bound
  · rw [hlog, hbatch]
    exact fun i hi => h.todo i (hsub i hi)
  · rw [hlog, hbatch]
    intro halive i hi evt hevt
    obtain ⟨hw, hcover⟩ := hall halive
    rcases h.all hw i hi evt hevt with hmem | ⟨c, hc, hrest⟩
    · exact hcover i hmem evt hevt
    · exact Or.inr ⟨c, hcounts c hc, hrest⟩

/-- A batch that the loop has given up on keeps its stage. -/
theorem Stage.giveUp {w' : Worker} (h : Stage s k w) (hlog : s'.log = s.log)
    (hbatch : w'.batch = w.batch) (hpc : w'.pc.alive = false) : Stage s' k w' := by
  have hnil : w'.pc.uncounted s.log w.batch = [] := by
    cases hw : w'.pc with
    | draining f => rfl
    | returned => rfl
    | _ =>
      rw [hw] at hpc
      cases hpc
  constructor
  · rw [hlog, hbatch]
    exact h.bound
  · rw [hlog, hbatch, hnil]
    exact fun i hi => absurd hi List.not_mem_nil
  · intro halive
    rw [hpc] at halive
    cases halive

/-- The stage of a batch is kept by the steps of its own worker. -/
theorem Stage.act (h : Stage s k w) (ha : Acts d maxPoll s k w b s') :
    ∃ w', s'.workers k = some w' ∧ Stage s' k w' := by
  -- The new state of the worker is the one put.
  cases ha with
  | signal | idle | tick | tickerFlush =>
    -- Neither the batch nor the place of the loop changes.
    exact ⟨_, Function.update_self .., h.keep rfl rfl (fun _ hi => hi) (fun _ hc => hc)
      fun hw => ⟨hw, fun i hi _ _ => Or.inl hi⟩⟩
  | fetch hpc hp hown hle hnext =>
    refine ⟨_, Function.update_self .., ?_, ?_, ?_⟩
    · intro i hi
      rcases List.mem_append.mp hi with hi | hi
      · exact h.bound i hi
      · rw [List.mem_singleton.mp hi]
        exact Log.lt_of_partitionAt hp
    · simp only [hpc, Pc.uncounted]
      exact fun i hi => hi
    · simp only [hpc, Pc.uncounted]
      exact fun _ i hi _ _ => Or.inl hi
  | poll hpc =>
    refine ⟨_, Function.update_self .., h.keep rfl rfl ?_ (fun _ hc => hc) ?_⟩
    · intro i hi
      rw [uncounted_poisons] at hi
      rw [hpc]
      rcases List.mem_append.mp hi with hi | hi
      · exact (List.mem_filter.mp hi).1
      · exact mem_of_mem_eventRefs hi
    · -- Nothing of the batch is counted yet.
      intro _
      rw [hpc]
      refine ⟨rfl, fun i hi evt hevt => Or.inl ?_⟩
      rw [uncounted_poisons]
      exact List.mem_append_right _ (mem_eventRefs hi hevt)
  | @countPoison i todo id hpc hid =>
    refine ⟨_, Function.update_self ..,
      h.keep rfl rfl ?_ (fun _ hc => List.mem_append_left _ hc) ?_⟩
    · rw [hpc]
      exact fun j hj => List.mem_cons_of_mem _ hj
    · intro _
      rw [hpc]
      refine ⟨rfl, fun j hj evt hevt => ?_⟩
      rcases List.mem_cons.mp hj with rfl | hj
      · -- The record leaves the work list with the count that the step adds.
        right
        refine ⟨_, List.mem_append_right _ (List.mem_singleton_self _), rfl, rfl, ?_⟩
        exact Option.some.inj (hid.symm.trans (Log.jobAt_of_eventAt hevt))
      · exact Or.inl hj
  | @skipPoison i todo hpc hid =>
    refine ⟨_, Function.update_self .., h.keep rfl rfl ?_ (fun _ hc => hc) ?_⟩
    · rw [hpc]
      exact fun j hj => List.mem_cons_of_mem _ hj
    · intro _
      rw [hpc]
      refine ⟨rfl, fun j hj evt hevt => ?_⟩
      rcases List.mem_cons.mp hj with rfl | hj
      · -- A record with an event has a job, so it would have been counted.
        rw [Log.jobAt_of_eventAt hevt] at hid
        cases hid
      · exact Or.inl hj
  | @republish i todo r hpc =>
    refine ⟨_, Function.update_self .., ?_⟩
    cases r.isOk with
    | false => exact h.giveUp rfl rfl rfl
    | true =>
      refine h.keep rfl rfl ?_ (fun _ hc => hc) ?_
      · rw [if_pos rfl, uncounted_poisons, hpc]
        exact fun j hj => hj
      · intro _
        rw [if_pos rfl, uncounted_poisons, hpc]
        exact ⟨rfl, fun j hj _ _ => Or.inl hj⟩
  | @deadLetter i todo r hpc =>
    refine ⟨_, Function.update_self .., ?_⟩
    cases r.isOk with
    | false => exact h.giveUp rfl rfl rfl
    | true =>
      refine h.keep rfl rfl ?_ (fun _ hc => hc) ?_
      · rw [if_pos rfl, uncounted_deadLetters, hpc]
        exact fun j hj => hj
      · intro _
        rw [if_pos rfl, uncounted_deadLetters, hpc]
        exact ⟨rfl, fun j hj _ _ => Or.inl hj⟩
  | write hpc =>
    refine ⟨_, Function.update_self .., h.keep rfl rfl ?_ (fun _ hc => hc) ?_⟩
    · rw [hpc]
      exact fun j hj => hj
    · rw [hpc]
      exact fun _ => ⟨rfl, fun j hj _ _ => Or.inl hj⟩
  | writeFail hpc hpc' =>
    refine ⟨_, Function.update_self .., ?_⟩
    rcases hpc' with rfl | rfl
    · refine h.keep rfl rfl ?_ (fun _ hc => hc) ?_
      · rw [hpc]
        exact fun j hj => hj
      · rw [hpc]
        exact fun _ => ⟨rfl, fun j hj _ _ => Or.inl hj⟩
    · exact h.giveUp rfl rfl rfl
  | count hpc =>
    refine ⟨_, Function.update_self ..,
      h.keep rfl rfl ?_ (fun _ hc => List.mem_append_left _ hc) ?_⟩
    · exact fun j hj => absurd hj List.not_mem_nil
    · rw [hpc]
      refine fun _ => ⟨rfl, fun j hj evt hevt => Or.inr ?_⟩
      obtain ⟨c, hc, hrest⟩ := exists_countsOf (k := k) (mem_of_mem_eventRefs hj) hevt
      exact ⟨c, List.mem_append_right _ hc, hrest⟩
  | @flush f o _ hpc hf =>
    have hnil : (Pc.afterFlush o.next).uncounted s.log w.batch = [] := by
      cases hnext : o.next with
      | running f' => rfl
      | returned ok => cases ok <;> rfl
    refine ⟨_, Function.update_self .., h.keep rfl rfl ?_ (fun _ hc => hc) ?_⟩
    · rw [hnil]
      exact fun j hj => absurd hj List.not_mem_nil
    · rw [hpc]
      exact fun _ => ⟨rfl, fun j hj => absurd hj List.not_mem_nil⟩
  | @drain f o _ hpc hf =>
    refine ⟨_, Function.update_self .., h.giveUp rfl rfl ?_⟩
    change (Pc.afterDrain o.next).alive = false
    cases o.next <;> rfl
  | commit hpc hpc' =>
    refine ⟨_, Function.update_self .., ?_, ?_, ?_⟩
    · exact fun i hi => absurd hi List.not_mem_nil
    · rcases hpc' with rfl | rfl
      · exact fun i hi => hi
      · exact fun i hi => hi
    · exact fun _ i hi => absurd hi List.not_mem_nil
  | shutdown | commitFail => exact ⟨_, Function.update_self .., h.giveUp rfl rfl rfl⟩

/-- A batch keeps its stage while the log grows and the counts of its worker are kept. -/
theorem Stage.left (h : Stage s k w) (hlog : s'.log = s.log ∨ ∃ r, s'.log = s.log ++ [r])
    (hcounts : ∀ c ∈ s.counts, c.worker = k → c ∈ s'.counts) : Stage s' k w := by
  have hevt : ∀ i ∈ w.batch, s'.log.eventAt i = s.log.eventAt i := by
    intro i hi
    rcases hlog with hlog | ⟨r, hlog⟩ <;> rw [hlog]
    exact Log.eventAt_snoc (h.bound i hi) r
  have hunc : w.pc.uncounted s'.log w.batch = w.pc.uncounted s.log w.batch := by
    rcases hlog with hlog | ⟨r, hlog⟩ <;> rw [hlog]
    exact uncounted_snoc h.bound r w.pc
  refine ⟨fun i hi => ?_, ?_, ?_⟩
  · have hlt := h.bound i hi
    rcases hlog with hlog | ⟨r, hlog⟩ <;> rw [hlog]
    · exact hlt
    · rw [List.length_append]
      omega
  · rw [hunc]
    exact h.todo
  · rw [hunc]
    intro halive i hi evt hi'
    rw [hevt i hi] at hi'
    refine (h.all halive i hi evt hi').imp_right ?_
    rintro ⟨c, hc, hw, hrest⟩
    exact ⟨c, hcounts c hc hw, hw, hrest⟩

end

variable {d : Dialect} {maxPoll : ℕ} {s s' : State} {a : Label}

/-- **Every event of a batch is counted or yet to be.** -/
theorem staged_step (hI : Staged s) (h : step d maxPoll s a = some s') : Staged s' := by
  intro k w' hw'
  have hlog : s'.log = s.log ∨ ∃ r, s'.log = s.log ++ [r] :=
    (log_step h).imp_right fun ⟨r, _, hr⟩ => ⟨r, hr⟩
  rcases worker_step h hw' with ⟨-, rfl⟩ | ⟨p, w, rfl, hw, rfl⟩ | ⟨b, w, -, hw, ha⟩ |
    ⟨hw, hstop, -, hact⟩
  · exact ⟨fun i hi => absurd hi List.not_mem_nil, fun i hi => hi,
      fun _ i hi => absurd hi List.not_mem_nil⟩
  · have hst := hI k w hw
    refine Stage.left ⟨hst.bound, hst.todo, hst.all⟩ hlog fun c hc hk => ?_
    exact (counts_step h (by simp) (by simp) hk).mpr hc
  · obtain ⟨w'', hw'', hst⟩ := (hI k w hw).act ha
    obtain rfl : w'' = w' := Option.some.inj (hw''.symm.trans hw')
    exact hst
  · exact (hI k w' hw).left hlog fun c hc hk => (counts_step h hstop hact hk).mpr hc

/-! ### Counters and counted records -/

/-- The count is one of the worker, for the job, with the outcome. -/
def Count.Of (k id : GoString) (kind : Kind) (c : Count) : Prop :=
  c.worker = k ∧ c.job = id ∧ c.kind = kind

instance (k id : GoString) (kind : Kind) (c : Count) : Decidable (c.Of k id kind) :=
  inferInstanceAs (Decidable (_ ∧ _))

/-- The number of records a worker has counted for a job. -/
def countOf (counts : List Count) (k id : GoString) (kind : Kind) : ℕ :=
  counts.countP fun c => c.Of k id kind

/-- Those of them in polls it has committed. -/
def committedOf (counts : List Count) (k id : GoString) (kind : Kind) : ℕ :=
  counts.countP fun c => c.Of k id kind ∧ c.committed = true

theorem committedOf_le (counts : List Count) (k id : GoString) (kind : Kind) :
    committedOf counts k id kind ≤ countOf counts k id kind := by
  apply List.countP_mono_left
  intro c _ hc
  simp only [decide_eq_true_eq] at hc ⊢
  exact hc.1

theorem countOf_append (l l' : List Count) (k id : GoString) (kind : Kind) :
    countOf (l ++ l') k id kind = countOf l k id kind + countOf l' k id kind :=
  List.countP_append

theorem countOf_settleCounts (k' : GoString) (l : List Count) (k id : GoString) (kind : Kind) :
    countOf (settleCounts k' l) k id kind = countOf l k id kind := by
  unfold countOf settleCounts
  rw [List.countP_map]
  apply List.countP_congr
  intro c _
  simp only [Function.comp_apply]
  split <;> rfl

theorem countOf_dropCounts_of_ne {k' k : GoString} (hk : k ≠ k') (l : List Count) (id : GoString)
    (kind : Kind) : countOf (dropCounts k' l) k id kind = countOf l k id kind := by
  unfold countOf dropCounts
  rw [List.countP_filter]
  apply List.countP_congr
  intro c _
  simp only [Bool.and_eq_true, decide_eq_true_eq, Bool.or_eq_true]
  constructor
  · exact fun hc => hc.1
  · exact fun hc => ⟨hc, Or.inl (hc.1 ▸ hk)⟩

/-- The counts that one outcome adds are those of the events it befell. -/
theorem countOf_filterMap (log : Log) (k id : GoString) (kind kind' : Kind) (refs : List ℕ) :
    countOf (refs.filterMap fun i => (log.eventAt i).map fun evt =>
        { worker := k, ref := i, job := evt.jobID, kind := kind' }) k id kind =
      ((log.events refs).map fun evt => (evt.jobID, kind')).count (id, kind) := by
  induction refs with
  | nil => rfl
  | cons i refs ih =>
    unfold countOf Log.events at ih ⊢
    cases hevt : log.eventAt i with
    | none => simpa [List.filterMap_cons, hevt] using ih
    | some evt =>
      simp only [List.filterMap_cons, hevt, Option.map_some, List.countP_cons, List.map_cons,
        List.count_cons, ih, decide_eq_true_eq, beq_iff_eq, Prod.mk.injEq]
      simp only [Count.Of, true_and]

/-- Counting a batch adds to the counters what it adds to the counts. -/
theorem count_countBatch (log : Log) (k id : GoString) (kind : Kind) (batch : List ℕ)
    (sv : Service) :
    (countBatch sv (log.events (log.validRefs batch)) (log.events (log.invalidRefs batch))).count
        id kind = sv.count id kind + countOf (countsOf log k batch) k id kind := by
  rw [countBatch, Service.count_countAll, List.count_append, countsOf, countOf_append,
    countOf_filterMap, countOf_filterMap]

/-- The counts of a job split by their outcome. -/
theorem length_counts (counts : List Count) (id : GoString) :
    (counts.filter fun c => c.job = id).length =
      (counts.filter fun c => c.job = id ∧ c.kind = .applied).length +
        (counts.filter fun c => c.job = id ∧ c.kind = .dead).length := by
  induction counts with
  | nil => rfl
  | cons c counts ih =>
    simp only [List.filter_cons]
    by_cases hid : c.job = id
    · cases c.kind <;> simp only [hid, ih, decide_true, true_and, if_true,
        List.length_cons, reduceCtorEq, decide_false, Bool.false_eq_true, if_false] <;> omega
    · simp only [hid, ih, false_and, decide_false, Bool.false_eq_true, if_false]

/-- The counts of a job with one outcome split by their workers. -/
theorem countP_worker (counts : List Count) (k id : GoString) (kind : Kind) :
    (counts.filter fun c => c.job = id ∧ c.kind = kind).countP (fun c => c.worker = k) =
      countOf counts k id kind := by
  unfold countOf
  rw [List.countP_filter]
  apply List.countP_congr
  intro c _
  simp only [Bool.and_eq_true, decide_eq_true_eq]
  rfl

/-- The counters of every worker are the numbers of its counted records. -/
def Tallied (id : GoString) (s : State) : Prop :=
  ∀ k w, s.workers k = some w → ∀ kind, w.service.count id kind = countOf s.counts k id kind

/-- No worker starts under an identity under which records of the job were counted. -/
def NoReuse (id : GoString) (s : State) : Label → Prop
  | .start k => ∀ c ∈ s.counts, c.worker = k → c.job ≠ id
  | _ => True

instance (id : GoString) (s : State) (a : Label) : Decidable (NoReuse id s a) := by
  unfold NoReuse
  split <;> infer_instance

/-- A step of a worker moves its counters and its counts alike. -/
theorem Acts.tally {s s' : State} {k id : GoString} {w : Worker} {b : Action} {kind : Kind}
    (ha : Acts d maxPoll s k w b s') (h : w.service.count id kind = countOf s.counts k id kind) :
    ∃ w', s'.workers k = some w' ∧ w'.service.count id kind = countOf s'.counts k id kind := by
  cases ha with
  | countPoison hpc hid =>
    refine ⟨_, Function.update_self .., ?_⟩
    change (w.service.increment _ .dead).count id kind = countOf (s.counts ++ [_]) k id kind
    rw [Service.count_increment, countOf_append, h]
    simp only [countOf, List.countP_singleton, Count.Of, true_and, decide_eq_true_eq, Prod.mk.injEq]
    congr 2
    exact propext ⟨fun h => ⟨h.1.symm, h.2.symm⟩, fun h => ⟨h.1.symm, h.2.symm⟩⟩
  | count hpc =>
    refine ⟨_, Function.update_self .., ?_⟩
    change (countBatch w.service _ _).count id kind = countOf (s.counts ++ _) k id kind
    rw [count_countBatch s.log k, countOf_append, h]
  | flush hpc hf => exact ⟨_, Function.update_self .., (hf.count id kind).trans h⟩
  | drain hpc hf => exact ⟨_, Function.update_self .., (hf.count id kind).trans h⟩
  | tickerFlush ht hf => exact ⟨_, Function.update_self .., (hf.count id kind).trans h⟩
  | commit hpc hpc' =>
    refine ⟨_, Function.update_self .., ?_⟩
    change w.service.count id kind = countOf (settleCounts k s.counts) k id kind
    rw [countOf_settleCounts, h]
  | _ => exact ⟨_, Function.update_self .., h⟩

/-- A worker's counted records are left alone by all steps but its own and its stop. -/
theorem countOf_step {k id : GoString} {kind : Kind} (h : step d maxPoll s a = some s')
    (hstop : a ≠ .stop k) (hact : ∀ b, a ≠ .worker k b) :
    countOf s'.counts k id kind = countOf s.counts k id kind := by
  cases a with
  | append r =>
    obtain rfl := step_append h
    rfl
  | start k' =>
    obtain ⟨-, rfl⟩ := step_start h
    rfl
  | stop k' =>
    obtain rfl := step_stop h
    exact countOf_dropCounts_of_ne (fun heq => hstop (by rw [heq])) ..
  | assign p k' =>
    obtain ⟨w, -, -, rfl⟩ := step_assign h
    rfl
  | worker k' b =>
    obtain ⟨w, -, ha⟩ := step_worker h
    have hk : k ≠ k' := fun heq => hact b (by rw [heq])
    rcases ha.counts_cases with heq | ⟨new, heq, hnew⟩ | heq
    · rw [heq]
    · -- What another worker counts, it counts under its own identity.
      have hzero : countOf new k id kind = 0 := by
        rw [countOf, List.countP_eq_zero]
        intro c hc
        simp only [decide_eq_true_eq]
        rintro ⟨hw, -⟩
        exact hk (hw.symm.trans (hnew c hc).1)
      rw [heq, countOf_append, hzero, Nat.add_zero]
    · rw [heq, countOf_settleCounts]

/-- **Counters are numbers of counted records**, for a job whose identities are not
reused. -/
theorem tallied_step {id : GoString} (hI : Tallied id s) (hC : NoReuse id s a)
    (h : step d maxPoll s a = some s') : Tallied id s' := by
  intro k w' hw' kind
  rcases worker_step h hw' with ⟨rfl, rfl⟩ | ⟨p, w, rfl, hw, rfl⟩ | ⟨b, w, -, hw, ha⟩ |
    ⟨hw, hstop, -, hact⟩
  · -- The counters start at zero, and so do the counts under a fresh identity.
    have hzero : countOf s.counts k id kind = 0 := by
      rw [countOf, List.countP_eq_zero]
      intro c hc
      simp only [decide_eq_true_eq]
      rintro ⟨hw, hjob, -⟩
      exact hC c hc hw hjob
    rw [countOf_step h (by simp) (by simp), hzero]
    cases kind <;> rfl
  · rw [countOf_step h (by simp) (by simp)]
    exact hI k w hw kind
  · obtain ⟨w'', hw'', htally⟩ := ha.tally (hI k w hw kind)
    obtain rfl : w'' = w' := Option.some.inj (hw''.symm.trans hw')
    exact htally
  · rw [countOf_step h hstop hact]
    exact hI k w' hw kind

/-! ### Fresh identities -/

/-- A worker starts under an identity that was never in use. -/
def Fresh (s : State) : Label → Prop
  | .start k => k ∉ s.used
  | _ => True

instance (s : State) (a : Label) : Decidable (Fresh s a) := by
  unfold Fresh
  split <;> infer_instance

/-- The identities of workers and counts have been in use. -/
structure Known (s : State) : Prop where
  up : ∀ k, s.workers k ≠ none → k ∈ s.used
  counts : ∀ c ∈ s.counts, c.worker ∈ s.used

/-- Under a fresh identity nothing was counted. -/
theorem Known.noReuse (hI : Known s) (hC : Fresh s a) (id : GoString) : NoReuse id s a := by
  cases a with
  | start k =>
    intro c hc hk
    exact absurd (hk ▸ hI.counts c hc) hC
  | _ => trivial

theorem known_step (hI : Known s) (h : step d maxPoll s a = some s') : Known s' := by
  cases a with
  | append r =>
    obtain rfl := step_append h
    exact ⟨hI.up, hI.counts⟩
  | start k =>
    obtain ⟨-, rfl⟩ := step_start h
    refine ⟨fun k' hk' => ?_, fun c hc => List.mem_cons_of_mem _ (hI.counts c hc)⟩
    by_cases hk : k' = k
    · rw [hk]
      exact List.mem_cons_self
    · simp only [State.put, Function.update_of_ne hk] at hk'
      exact List.mem_cons_of_mem _ (hI.up k' hk')
  | stop k =>
    obtain rfl := step_stop h
    refine ⟨fun k' hk' => ?_, fun c hc => hI.counts c (mem_dropCounts.mp hc).1⟩
    simp only [Function.update_apply] at hk'
    split at hk'
    · exact absurd rfl hk'
    · exact hI.up k' hk'
  | assign p k =>
    obtain ⟨w, hw, -, rfl⟩ := step_assign h
    refine ⟨fun k' hk' => hI.up k' ?_, hI.counts⟩
    by_cases hk : k' = k
    · rw [hk, hw]
      exact Option.some_ne_none _
    · simpa only [State.put, Function.update_of_ne hk] using hk'
  | worker k a =>
    obtain ⟨w, hw, ha⟩ := step_worker h
    have hk : k ∈ s.used := hI.up k (by rw [hw]; exact Option.some_ne_none _)
    obtain ⟨-, -, hused⟩ := ha.frame
    refine ⟨fun k' hk' => ?_, fun c hc => ?_⟩
    · -- An identity that is up has been used, and nothing forgets that.
      rw [hused]
      by_cases hne : k' = k
      · rwa [hne]
      · rw [ha.workers_of_ne hne] at hk'
        exact hI.up k' hk'
    · rw [hused]
      by_cases hne : c.worker = k
      · rwa [hne]
      · exact hI.counts c ((ha.mem_counts_of_ne hne).mp hc)

end CsvProductUploader.Catalog

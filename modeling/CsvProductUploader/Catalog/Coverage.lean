import CsvProductUploader.Catalog.Custody

/-!
# What a committed offset covers

The group hands each partition out in order from its committed offset, and a worker commits
a batch only after it has counted every event of it.  So every event behind a committed
offset has been counted by a worker that committed the count, whatever stops, restarts or
reassignments lie between.

## Main definitions

* `Counted` — the event of a record is counted and committed.
* `Coverage` — the events behind the offsets and the positions.

## Main results

* `coverage_step` — an invariant of every run.
* `length_le_committed` — committed records of a job against the counts of the job.
-/

namespace CsvProductUploader.Catalog

open Update

/-- If the record carries an event, a worker has counted it for its job and committed the
count. -/
def Counted (s : State) (i : ℕ) : Prop :=
  ∀ evt, s.log.eventAt i = some evt →
    ∃ c ∈ s.counts, c.ref = i ∧ c.job = evt.jobID ∧ c.committed = true

/-- What lies behind a committed offset is counted, and what lies behind the position of a
worker is counted or in its batch. -/
structure Coverage (s : State) : Prop where
  committed_le : ∀ p, s.committed p ≤ s.log.length
  position_le : ∀ k w, s.workers k = some w → ∀ p, w.position p ≤ s.log.length
  committed : ∀ p i, s.log.partitionAt i = some p → i < s.committed p → Counted s i
  position : ∀ k w, s.workers k = some w → ∀ p i, s.log.partitionAt i = some p →
    i < w.position p → i ∈ w.batch ∨ Counted s i
  /-- A worker may lose a partition and get it back while it holds records of it, so its
  position alone does not bound its batch. -/
  batch : ∀ k w, s.workers k = some w → ∀ j ∈ w.batch, ∀ p i, s.log.partitionAt j = some p →
    s.log.partitionAt i = some p → i < j → i ∈ w.batch ∨ Counted s i

section
variable {d : Dialect} {maxPoll : ℕ} {s s' : State} {k : GoString} {w w' : Worker} {b : Action}
  {i : ℕ}

/-- A committed count stays. -/
theorem Counted.mono (h : Counted s i) (hlog : s'.log = s.log)
    (hcounts : ∀ c ∈ s.counts, c.committed = true →
      ∃ e ∈ s'.counts, e.ref = c.ref ∧ e.job = c.job ∧ e.committed = true) : Counted s' i := by
  intro evt hevt
  rw [hlog] at hevt
  obtain ⟨c, hc, rfl, hjob, hcom⟩ := h evt hevt
  obtain ⟨e, he, href, hjob', hcom'⟩ := hcounts c hc hcom
  exact ⟨e, he, href, hjob'.trans hjob, hcom'⟩

theorem settled_mem {counts : List Count} {c : Count} (hc : c ∈ counts)
    (h : c.worker = k ∨ c.committed = true) :
    ∃ e ∈ settleCounts k counts, e.ref = c.ref ∧ e.job = c.job ∧ e.committed = true := by
  refine ⟨_, List.mem_map_of_mem hc, ?_⟩
  by_cases hk : c.worker = k
  · rw [if_pos hk]
    exact ⟨rfl, rfl, rfl⟩
  · rw [if_neg hk]
    exact ⟨rfl, rfl, h.resolve_left hk⟩

/-- A step of a worker keeps the committed counts. -/
theorem Acts.counted (ha : Acts d maxPoll s k w b s') (h : Counted s i) : Counted s' i := by
  refine h.mono ha.frame.1 fun c hc hcom => ?_
  rcases ha.counts_cases with heq | ⟨new, heq, -⟩ | heq
  · rw [heq]
    exact ⟨c, hc, rfl, rfl, hcom⟩
  · rw [heq]
    exact ⟨c, List.mem_append_left _ hc, rfl, rfl, hcom⟩
  · rw [heq]
    exact settled_mem hc (Or.inr hcom)

/-- At the commit every event of the batch has been counted. -/
theorem Stage.counted (hst : Stage s k w) (hpc : w.pc = .committing) (hlog : s'.log = s.log)
    (hcounts : s'.counts = settleCounts k s.counts) (hi : i ∈ w.batch) : Counted s' i := by
  intro evt hevt
  rw [hlog] at hevt
  have hall := hst.all (by rw [hpc]; rfl) i hi evt hevt
  rw [hpc] at hall
  obtain ⟨c, hc, hk, rfl, hjob⟩ := hall.resolve_left List.not_mem_nil
  obtain ⟨e, he, href, hjob', hcom⟩ := settled_mem hc (Or.inl hk)
  exact ⟨e, hcounts ▸ he, href, hjob'.trans hjob, hcom⟩

/-- The coverage through a step of one worker. -/
theorem Coverage.hand (hI : Coverage s) (hst : Stage s k w) (hw : s.workers k = some w)
    (ha : Acts d maxPoll s k w b s') (hw' : s'.workers = Function.update s.workers k (some w'))
    (h : Hand s k w s' w') : Coverage s' := by
  have hlog : s'.log = s.log := ha.frame.1
  -- The other workers keep what they have.
  have hpos : ∀ k' v, k' ≠ k → s.workers k' = some v → ∀ p i, s.log.partitionAt i = some p →
      i < v.position p → i ∈ v.batch ∨ Counted s' i := by
    intro k' v _ hv p i hp hlt
    exact (hI.position k' v hv p i hp hlt).imp_right ha.counted
  have hbat : ∀ k' v, k' ≠ k → s.workers k' = some v → ∀ j ∈ v.batch, ∀ p i,
      s.log.partitionAt j = some p → s.log.partitionAt i = some p → i < j →
      i ∈ v.batch ∨ Counted s' i := by
    intro k' v _ hv j hj p i hpj hpi hlt
    exact (hI.batch k' v hv j hj p i hpj hpi hlt).imp_right ha.counted
  cases h with
  | count new hbatch hposition hcommitted hcounts =>
    constructor
    · rw [hcommitted, hlog]
      exact hI.committed_le
    · rw [hlog]
      refine forall_update_some hw' ?_ fun k' v _ hv => hI.position_le k' v hv
      rw [hposition]
      exact hI.position_le k w hw
    · rw [hlog, hcommitted]
      exact fun p i hp hlt => ha.counted (hI.committed p i hp hlt)
    · rw [hlog]
      refine forall_update_some hw' ?_ hpos
      rw [hbatch, hposition]
      exact fun p i hp hlt => (hI.position k w hw p i hp hlt).imp_right ha.counted
    · rw [hlog]
      refine forall_update_some hw' ?_ hbat
      rw [hbatch]
      exact fun j hj p i hpj hpi hlt => (hI.batch k w hw j hj p i hpj hpi hlt).imp_right ha.counted
  | fetch i₀ p₀ hpolling hpart hownp hle hbatch hpc hposition hcommitted hcounts hnext =>
    have hlt₀ : i₀ < s.log.length := Log.lt_of_partitionAt hpart
    -- What lies before the fetched record lies before the old position.
    have hbefore : ∀ i, s.log.partitionAt i = some p₀ → i < i₀ →
        i ∈ w.batch ++ [i₀] ∨ Counted s' i := by
      intro i hp hlt
      by_cases hpos₀ : w.position p₀ ≤ i
      · exact absurd hp (hnext i hlt hpos₀)
      · have hcover := hI.position k w hw p₀ i hp (by omega)
        exact hcover.imp (List.mem_append_left _) ha.counted
    constructor
    · rw [hcommitted, hlog]
      exact hI.committed_le
    · rw [hlog]
      refine forall_update_some hw' ?_ fun k' v _ hv => hI.position_le k' v hv
      intro p
      rw [hposition, Function.update_apply]
      split
      · exact hlt₀
      · exact hI.position_le k w hw p
    · rw [hlog, hcommitted]
      exact fun p i hp hlt => ha.counted (hI.committed p i hp hlt)
    · rw [hlog]
      refine forall_update_some hw' ?_ hpos
      intro p i hp hlt
      rw [hposition, Function.update_apply] at hlt
      rw [hbatch]
      split at hlt
      · next hpp =>
        subst hpp
        rcases Nat.lt_succ_iff_lt_or_eq.mp hlt with hlt | rfl
        · exact hbefore i hp hlt
        · exact Or.inl (List.mem_append_right _ (List.mem_singleton_self _))
      · exact (hI.position k w hw p i hp hlt).imp (List.mem_append_left _) ha.counted
    · rw [hlog]
      refine forall_update_some hw' ?_ hbat
      rw [hbatch]
      intro j hj p i hpj hpi hlt
      rcases List.mem_append.mp hj with hj | hj
      · exact (hI.batch k w hw j hj p i hpj hpi hlt).imp (List.mem_append_left _) ha.counted
      · obtain rfl := List.mem_singleton.mp hj
        obtain rfl := Option.some.inj (hpart.symm.trans hpj)
        exact hbefore i hpi hlt
  | commit hbatch huncounted hposition hcommitted hcounts hpc =>
    have hsettled : ∀ i, i ∈ w.batch ∨ Counted s i → Counted s' i := by
      rintro i (hi | hi)
      · exact hst.counted hpc hlog hcounts hi
      · exact ha.counted hi
    constructor
    · intro p
      rw [hcommitted, hlog]
      exact commitRecords_le (hI.committed_le p) fun o hmem =>
        Log.lt_of_partitionAt (Log.mem_offsets.mp hmem).2
    · rw [hlog]
      refine forall_update_some hw' ?_ fun k' v _ hv => hI.position_le k' v hv
      rw [hposition]
      exact hI.position_le k w hw
    · intro p i hp hlt
      rw [hlog] at hp
      rw [hcommitted] at hlt
      apply hsettled
      rcases commitRecords_cases s.committed (s.log.offsets w.batch) p with ⟨heq, -⟩ |
        ⟨o, hmem, heq, -⟩
      · rw [heq] at hlt
        exact Or.inr (hI.committed p i hp hlt)
      · -- The new offset is one past a record of the batch.
        obtain ⟨ho, hpo⟩ := Log.mem_offsets.mp hmem
        rw [heq] at hlt
        rcases Nat.lt_succ_iff_lt_or_eq.mp hlt with hlt | rfl
        · exact hI.batch k w hw o ho p i hpo hp hlt
        · exact Or.inl ho
    · rw [hlog]
      refine forall_update_some hw' ?_ hpos
      rw [hposition]
      exact fun p i hp hlt => Or.inr (hsettled i (hI.position k w hw p i hp hlt))
    · rw [hlog]
      refine forall_update_some hw' ?_ hbat
      rw [hbatch]
      exact fun j hj => absurd hj List.not_mem_nil

end

variable {d : Dialect} {maxPoll : ℕ} {s s' : State} {a : Label}

/-- **Every event behind a committed offset has been counted**, in every run. -/
theorem coverage_step (hI : Coverage s) (hst : Staged s) (h : step d maxPoll s a = some s') :
    Coverage s' := by
  cases a with
  | append r =>
    obtain rfl := step_append h
    have hlen : s.log.length ≤ (s.log ++ [r]).length := by
      rw [List.length_append]
      omega
    have hcounted : ∀ i, i < s.log.length → Counted s i →
        Counted { s with log := s.log ++ [r] } i := by
      intro i hi hc evt hevt
      rw [Log.eventAt_snoc hi] at hevt
      exact hc evt hevt
    refine ⟨fun p => Nat.le_trans (hI.committed_le p) hlen,
      fun k w hw p => Nat.le_trans (hI.position_le k w hw p) hlen, ?_, ?_, ?_⟩
    · intro p i hp hlt
      have hi : i < s.log.length := Nat.lt_of_lt_of_le hlt (hI.committed_le p)
      rw [Log.partitionAt_snoc hi] at hp
      exact hcounted i hi (hI.committed p i hp hlt)
    · intro k w hw p i hp hlt
      have hi : i < s.log.length := Nat.lt_of_lt_of_le hlt (hI.position_le k w hw p)
      rw [Log.partitionAt_snoc hi] at hp
      exact (hI.position k w hw p i hp hlt).imp_right (hcounted i hi)
    · intro k w hw j hj p i hpj hpi hlt
      have hj' : j < s.log.length := (hst k w hw).bound j hj
      have hi : i < s.log.length := Nat.lt_trans hlt hj'
      rw [Log.partitionAt_snoc hj'] at hpj
      rw [Log.partitionAt_snoc hi] at hpi
      exact (hI.batch k w hw j hj p i hpj hpi hlt).imp_right (hcounted i hi)
  | start k =>
    obtain ⟨-, rfl⟩ := step_start h
    refine ⟨hI.committed_le, ?_, hI.committed, ?_, ?_⟩
    · refine forall_update_some rfl ?_ fun k' v _ hv => hI.position_le k' v hv
      exact fun p => Nat.zero_le _
    · refine forall_update_some rfl ?_ fun k' v _ hv => hI.position k' v hv
      exact fun p i _ hlt => absurd hlt (Nat.not_lt_zero i)
    · refine forall_update_some rfl ?_ fun k' v _ hv => hI.batch k' v hv
      exact fun j hj => absurd hj List.not_mem_nil
  | stop k =>
    obtain rfl := step_stop h
    -- Committed counts are kept.
    have hcounted : ∀ i, Counted s i → Counted { s with
        workers := Function.update s.workers k none
        owner := fun p => if s.owner p = some k then none else s.owner p
        counts := dropCounts k s.counts } i := by
      intro i hc
      refine hc.mono rfl fun c hmem hcom => ⟨c, ?_, rfl, rfl, hcom⟩
      exact mem_dropCounts.mpr ⟨hmem, Or.inr hcom⟩
    refine ⟨hI.committed_le, fun k' w' hw' => hI.position_le k' w' (of_update_none hw').2,
      fun p i hp hlt => hcounted i (hI.committed p i hp hlt), ?_, ?_⟩
    · intro k' w' hw' p i hp hlt
      exact (hI.position k' w' (of_update_none hw').2 p i hp hlt).imp_right (hcounted i)
    · intro k' w' hw' j hj p i hpj hpi hlt
      exact (hI.batch k' w' (of_update_none hw').2 j hj p i hpj hpi hlt).imp_right (hcounted i)
  | assign p₀ k =>
    obtain ⟨w, hw, -, rfl⟩ := step_assign h
    refine ⟨hI.committed_le, ?_, hI.committed, ?_, ?_⟩
    · refine forall_update_some rfl ?_ fun k' v _ hv => hI.position_le k' v hv
      intro p
      simp only [Function.update_apply]
      split
      · exact hI.committed_le p₀
      · exact hI.position_le k w hw p
    · refine forall_update_some rfl ?_ fun k' v _ hv => hI.position k' v hv
      intro p i hp hlt
      simp only [Function.update_apply] at hlt
      split at hlt
      · next hpp =>
        -- The new owner reads from the committed offset.
        rw [hpp] at hp
        exact Or.inr (hI.committed p₀ i hp hlt)
      · exact hI.position k w hw p i hp hlt
    · exact forall_update_some rfl (hI.batch k w hw) fun k' v _ hv => hI.batch k' v hv
  | worker k a =>
    obtain ⟨w, hw, ha⟩ := step_worker h
    obtain ⟨w', hupd, hhand⟩ := ha.hand_update
    exact hI.hand (hst k w hw) hw ha hupd hhand

/-- The counts that are committed. -/
def committedCounts (counts : List Count) : List Count := counts.filter Count.committed

theorem countOf_committedCounts (counts : List Count) (k id : GoString) (kind : Kind) :
    countOf (committedCounts counts) k id kind = committedOf counts k id kind := by
  unfold countOf committedCounts committedOf
  rw [List.countP_filter]
  apply List.countP_congr
  intro c _
  simp only [Bool.and_eq_true, decide_eq_true_eq]

/-- Distinct records with committed counts of a job are at most as many as those counts. -/
theorem length_le_committed {counts : List Count} {id : GoString} {refs : List ℕ}
    (hnodup : refs.Nodup)
    (h : ∀ i ∈ refs, ∃ c ∈ counts, c.ref = i ∧ c.job = id ∧ c.committed = true) :
    refs.length ≤ ((committedCounts counts).filter fun c => c.job = id).length := by
  have hsub : refs ⊆ ((committedCounts counts).filter fun c => c.job = id).map Count.ref := by
    intro i hi
    obtain ⟨c, hc, href, hjob, hcom⟩ := h i hi
    have hmem : c ∈ committedCounts counts := List.mem_filter.mpr ⟨hc, hcom⟩
    exact List.mem_map.mpr ⟨c, List.mem_filter.mpr ⟨hmem, decide_eq_true hjob⟩, href⟩
  have hle := (List.subperm_of_subset hnodup hsub).length_le
  rwa [List.length_map] at hle

end CsvProductUploader.Catalog

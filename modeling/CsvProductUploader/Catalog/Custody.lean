import CsvProductUploader.Catalog.Counting

/-!
# Who holds a record

As long as no partition is taken from a worker that has polled records of it, a record is
with one worker at a time: uncommitted in its batch, and afterwards committed.  So no
record is counted twice, unless the counts of a worker that stopped are kept by what it
has published.

## Main definitions

* `Orderly` — a partition is not taken from a worker that holds records of it.
* `Hand` — what a step of a worker does with its batch and its counts.
* `Held` — the batches are apart from each other and from what is committed.
* `Distinct` — no record is counted twice.

## Main results

* `Acts.hand` — every step is one of three kinds.
* `held_step`, `distinct_step` — both are invariants of orderly runs.
-/

namespace CsvProductUploader.Catalog

open Update

/-- A partition is not taken from a worker that holds polled, uncommitted records of it. -/
def Orderly (s : State) : Label → Prop
  | .assign p _ =>
    ∀ k ∈ s.owner p, ∀ w ∈ s.workers k, ∀ i ∈ w.batch, s.log.partitionAt i ≠ some p
  | _ => True

instance (s : State) (a : Label) : Decidable (Orderly s a) := by
  unfold Orderly
  split <;> infer_instance

/-! ### The records of a batch, by kind -/

namespace Log

variable (log : Log) (batch : List ℕ)

theorem rawRefs_append_eventRefs : (log.rawRefs batch ++ log.eventRefs batch).Perm batch := by
  have hsome : log.eventRefs batch = batch.filter fun i => !(log.eventAt i).isNone :=
    List.filter_congr fun i _ => by cases log.eventAt i <;> rfl
  rw [hsome]
  exact List.filter_append_perm _ _

theorem validRefs_append_invalidRefs :
    (log.validRefs batch ++ log.invalidRefs batch).Perm (log.eventRefs batch) := by
  have hvalid : log.validRefs batch = (log.eventRefs batch).filter log.validAt := by
    rw [eventRefs, List.filter_filter]
    apply List.filter_congr
    intro i _
    cases hv : log.validAt i with
    | true => rw [isSome_of_validAt hv]; rfl
    | false => rfl
  have hinvalid : log.invalidRefs batch = (log.eventRefs batch).filter fun i => !log.validAt i := by
    rw [eventRefs, List.filter_filter]
    exact List.filter_congr fun i _ => Bool.and_comm _ _
  rw [hvalid, hinvalid]
  exact List.filter_append_perm _ _

end Log

/-- The counts of an adjudicated batch are one for each of its events. -/
theorem map_ref_countsOf (log : Log) (k : GoString) (batch : List ℕ) :
    (countsOf log k batch).map Count.ref = log.validRefs batch ++ log.invalidRefs batch := by
  have hgen : ∀ (kind : Kind) (refs : List ℕ), (∀ i ∈ refs, (log.eventAt i).isSome = true) →
      (refs.filterMap fun i => (log.eventAt i).map fun evt =>
        { worker := k, ref := i, job := evt.jobID, kind := kind : Count }).map Count.ref =
          refs := by
    intro kind refs
    induction refs with
    | nil => exact fun _ => rfl
    | cons i refs ih =>
      intro hsome
      obtain ⟨hi, hrefs⟩ := List.forall_mem_cons.mp hsome
      obtain ⟨evt, hevt⟩ := Option.isSome_iff_exists.mp hi
      simp only [List.filterMap_cons, hevt, Option.map_some, List.map_cons, ih hrefs]
  rw [countsOf, List.map_append, hgen, hgen]
  · intro i hi
    have hmem := (List.mem_filter.mp hi).2
    rw [Bool.and_eq_true] at hmem
    exact hmem.1
  · intro i hi
    exact Log.isSome_of_validAt (List.mem_filter.mp hi).2

/-! ### What a step does with the batch and the counts -/

/-- What a step of a worker does with its batch and its counts. -/
inductive Hand (s : State) (k : GoString) (w : Worker) (s' : State) (w' : Worker) : Prop
  /-- Some of the records yet to be counted are counted. -/
  | count (new : List Count) (batch : w'.batch = w.batch) (position : w'.position = w.position)
      (committed : s'.committed = s.committed) (counts : s'.counts = s.counts ++ new)
      (own : ∀ c ∈ new, c.worker = k ∧ c.committed = false ∧ s.log.jobAt c.ref = some c.job)
      (nodup : (w.pc.uncounted s.log w.batch).Nodup →
        (new.map Count.ref ++ w'.pc.uncounted s.log w.batch).Nodup)
      (sub : ∀ i ∈ new.map Count.ref ++ w'.pc.uncounted s.log w.batch,
        i ∈ w.pc.uncounted s.log w.batch)
  /-- A record is polled. -/
  | fetch (i p : ℕ) (polling : w.pc = .polling) (partition : s.log.partitionAt i = some p)
      (owner : s.owner p = some k) (le : w.position p ≤ i)
      (batch : w'.batch = w.batch ++ [i]) (pc : w'.pc = w.pc)
      (position : w'.position = Function.update w.position p (i + 1))
      (committed : s'.committed = s.committed) (counts : s'.counts = s.counts)
      (next : ∀ j < i, w.position p ≤ j → s.log.partitionAt j ≠ some p)
  /-- The batch is committed. -/
  | commit (batch : w'.batch = []) (uncounted : w'.pc.uncounted s.log [] = [])
      (position : w'.position = w.position)
      (committed : s'.committed = commitRecords s.committed (s.log.offsets w.batch))
      (counts : s'.counts = settleCounts k s.counts) (pc : w.pc = .committing)

section
variable {d : Dialect} {maxPoll : ℕ} {s s' : State} {k : GoString} {w w' : Worker} {b : Action}

/-- A step that counts nothing. -/
theorem Hand.quiet (batch : w'.batch = w.batch) (position : w'.position = w.position)
    (committed : s'.committed = s.committed) (counts : s'.counts = s.counts)
    (h : w'.pc.uncounted s.log w.batch = w.pc.uncounted s.log w.batch ∨
      w'.pc.uncounted s.log w.batch = []) : Hand s k w s' w' := by
  refine .count [] batch position committed (by rw [counts, List.append_nil])
    (fun c hc => absurd hc List.not_mem_nil) ?_ ?_
  · intro hnodup
    rw [List.map_nil, List.nil_append]
    rcases h with h | h
    · rwa [h]
    · rw [h]
      exact List.nodup_nil
  · rw [List.map_nil, List.nil_append]
    intro i hi
    rcases h with h | h
    · rwa [h] at hi
    · rw [h] at hi
      cases hi

theorem Acts.hand (ha : Acts d maxPoll s k w b s') :
    ∃ w', s'.workers k = some w' ∧ Hand s k w s' w' := by
  cases ha with
  | signal | idle | tick | tickerFlush =>
    exact ⟨_, Function.update_self .., .quiet rfl rfl rfl rfl (Or.inl rfl)⟩
  | fetch hpc hp hown hle hnext =>
    exact ⟨_, Function.update_self .., .fetch _ _ hpc hp hown hle rfl rfl rfl rfl rfl hnext⟩
  | poll hpc =>
    -- The work list splits in two: the records that do not decode come first.
    have hperm := s.log.rawRefs_append_eventRefs w.batch
    refine ⟨_, Function.update_self .., .count [] rfl rfl rfl (List.append_nil _).symm
      (fun c hc => absurd hc List.not_mem_nil) ?_ ?_⟩
    · rw [hpc, uncounted_poisons]
      exact hperm.nodup_iff.mpr
    · rw [hpc, uncounted_poisons]
      exact fun i hi => hperm.subset hi
  | @countPoison i todo id hpc hid =>
    refine ⟨_, Function.update_self .., .count _ rfl rfl rfl rfl ?_ ?_ ?_⟩
    · intro c hc
      rw [List.mem_singleton.mp hc]
      exact ⟨rfl, rfl, hid⟩
    · rw [hpc]
      exact fun hnodup => hnodup
    · rw [hpc]
      exact fun j hj => hj
  | @skipPoison i todo hpc hid =>
    refine ⟨_, Function.update_self .., .count [] rfl rfl rfl (List.append_nil _).symm
      (fun c hc => absurd hc List.not_mem_nil) ?_ ?_⟩
    · rw [hpc]
      exact fun hnodup => (List.nodup_cons.mp hnodup).2
    · rw [hpc]
      exact fun j hj => List.mem_cons_of_mem _ hj
  | @republish i todo r hpc =>
    refine ⟨_, Function.update_self .., .quiet rfl rfl rfl rfl ?_⟩
    cases r.isOk with
    | false => exact Or.inr rfl
    | true =>
      left
      rw [if_pos rfl, uncounted_poisons, hpc]
      rfl
  | @deadLetter i todo r hpc =>
    refine ⟨_, Function.update_self .., .quiet rfl rfl rfl rfl ?_⟩
    cases r.isOk with
    | false => exact Or.inr rfl
    | true =>
      left
      rw [if_pos rfl, uncounted_deadLetters, hpc]
      rfl
  | write hpc =>
    refine ⟨_, Function.update_self .., .quiet rfl rfl rfl rfl (Or.inl ?_)⟩
    rw [hpc]
    rfl
  | writeFail hpc hpc' =>
    refine ⟨_, Function.update_self .., .quiet rfl rfl rfl rfl ?_⟩
    rcases hpc' with rfl | rfl
    · left
      rw [hpc]
      rfl
    · exact Or.inr rfl
  | count hpc =>
    have hperm := s.log.validRefs_append_invalidRefs w.batch
    refine ⟨_, Function.update_self .., .count _ rfl rfl rfl rfl ?_ ?_ ?_⟩
    · exact fun c hc => of_mem_countsOf hc
    · rw [hpc, map_ref_countsOf]
      intro hnodup
      rw [show Pc.uncounted s.log w.batch (.flushing .reading) = [] from rfl, List.append_nil]
      exact hperm.nodup_iff.mpr hnodup
    · rw [hpc, map_ref_countsOf]
      intro i hi
      rw [show Pc.uncounted s.log w.batch (.flushing .reading) = [] from rfl, List.append_nil] at hi
      exact hperm.subset hi
  | @flush f o _ hpc hf =>
    refine ⟨_, Function.update_self .., .quiet rfl rfl rfl rfl (Or.inr ?_)⟩
    cases hnext : o.next with
    | running f' => rfl
    | returned ok => cases ok <;> rfl
  | @drain f o _ hpc hf =>
    refine ⟨_, Function.update_self .., .quiet rfl rfl rfl rfl (Or.inr ?_)⟩
    cases hnext : o.next <;> rfl
  | commit hpc hpc' =>
    refine ⟨_, Function.update_self .., .commit rfl ?_ rfl rfl rfl hpc⟩
    rcases hpc' with rfl | rfl <;> rfl
  | shutdown | commitFail =>
    exact ⟨_, Function.update_self .., .quiet rfl rfl rfl rfl (Or.inr rfl)⟩

/-- The same with the whole table of workers. -/
theorem Acts.hand_update (ha : Acts d maxPoll s k w b s') :
    ∃ w', s'.workers = Function.update s.workers k (some w') ∧ Hand s k w s' w' := by
  obtain ⟨w', hw', hhand⟩ := ha.hand
  obtain ⟨w'', hupd⟩ := ha.workers
  obtain rfl : w'' = w' := eq_of_update_some (hupd ▸ hw')
  exact ⟨w'', hupd, hhand⟩

end

/-! ### Batches are apart -/

namespace Log

variable {log : Log} {i p : ℕ} {batch : List ℕ}

theorem lt_of_jobAt {id : GoString} (h : log.jobAt i = some id) : i < log.length := by
  unfold jobAt at h
  cases hr : log[i]? with
  | none =>
    rw [hr] at h
    cases h
  | some r => exact (List.getElem?_eq_some_iff.mp hr).1

theorem mem_offsets : (p, i) ∈ log.offsets batch ↔ i ∈ batch ∧ log.partitionAt i = some p := by
  unfold offsets
  rw [List.mem_filterMap]
  constructor
  · rintro ⟨j, hj, h⟩
    obtain ⟨q, hq, heq⟩ := Option.map_eq_some_iff.mp h
    obtain ⟨rfl, rfl⟩ := Prod.mk.inj heq
    exact ⟨hj, hq⟩
  · rintro ⟨hi, hp⟩
    exact ⟨i, hi, by rw [hp]; rfl⟩

end Log

theorem mem_settleCounts {k : GoString} {counts : List Count} {c : Count}
    (h : c ∈ settleCounts k counts) :
    ∃ e ∈ counts, c.worker = e.worker ∧ c.ref = e.ref ∧ c.job = e.job ∧
      (e.worker = k ∧ c.committed = true ∨ e.worker ≠ k ∧ c = e) := by
  obtain ⟨e, he, rfl⟩ := List.mem_map.mp h
  refine ⟨e, he, ?_⟩
  by_cases hw : e.worker = k
  · rw [if_pos hw]
    exact ⟨rfl, rfl, rfl, Or.inl ⟨hw, rfl⟩⟩
  · rw [if_neg hw]
    exact ⟨rfl, rfl, rfl, Or.inr ⟨hw, rfl⟩⟩

/-- The batches are apart from each other and from what is committed. -/
structure Held (s : State) : Prop where
  /-- A partition is assigned to a worker that is up. -/
  up : ∀ p k, s.owner p = some k → s.workers k ≠ none
  /-- Its owner does not read behind the committed offset. -/
  position : ∀ k w, s.workers k = some w → ∀ p, s.owner p = some k → s.committed p ≤ w.position p
  /-- A polled record is of a partition of its worker, and not committed. -/
  batch : ∀ k w, s.workers k = some w → ∀ i ∈ w.batch, ∀ p, s.log.partitionAt i = some p →
    s.owner p = some k ∧ s.committed p ≤ i ∧ i < w.position p
  /-- A count that is committed is of a record behind the committed offset. -/
  below : ∀ c ∈ s.counts, c.committed = true → ∀ p, s.log.partitionAt c.ref = some p →
    c.ref < s.committed p
  /-- A count that is not committed is of a record in the batch of its worker. -/
  pending : ∀ c ∈ s.counts, c.committed = false → ∃ w, s.workers c.worker = some w ∧ c.ref ∈ w.batch
  /-- A count is for the job of its record. -/
  job : ∀ c ∈ s.counts, s.log.jobAt c.ref = some c.job

section
variable {d : Dialect} {maxPoll : ℕ} {s s' : State} {k : GoString} {w w' : Worker} {b : Action}

/-- A commit moves the offsets of no partition of another worker. -/
theorem Held.commit_of_ne (hI : Held s) (hw : s.workers k = some w) {p : ℕ}
    (hp : s.owner p ≠ some k) :
    commitRecords s.committed (s.log.offsets w.batch) p = s.committed p := by
  refine commitRecords_of_notMem fun o hmem => hp ?_
  obtain ⟨ho, hpart⟩ := Log.mem_offsets.mp hmem
  exact (hI.batch k w hw o ho p hpart).1

theorem Held.le_commit (hI : Held s) (hw : s.workers k = some w) (p : ℕ) :
    s.committed p ≤ commitRecords s.committed (s.log.offsets w.batch) p := by
  apply le_commitRecords
  rintro ⟨q, i⟩ hmem
  obtain ⟨hi, hq⟩ := Log.mem_offsets.mp hmem
  exact (hI.batch k w hw i hi q hq).2.1

theorem Held.commit_le (hI : Held s) (hw : s.workers k = some w) {p : ℕ}
    (hp : s.owner p = some k) :
    commitRecords s.committed (s.log.offsets w.batch) p ≤ w.position p := by
  refine commitRecords_le (hI.position k w hw p hp) fun o hmem => ?_
  obtain ⟨ho, hpart⟩ := Log.mem_offsets.mp hmem
  exact (hI.batch k w hw o ho p hpart).2.2

/-- A count waiting for its commit is of a record that its worker holds still, whoever moves. -/
theorem Held.pending_update (hI : Held s) (hw : s.workers k = some w)
    (hbatch : ∀ i ∈ w.batch, i ∈ w'.batch) {c : Count} (hc : c ∈ s.counts)
    (hcom : c.committed = false) :
    ∃ v, Function.update s.workers k (some w') c.worker = some v ∧ c.ref ∈ v.batch := by
  obtain ⟨v, hv, hmem⟩ := hI.pending c hc hcom
  by_cases hk : c.worker = k
  · rw [hk] at hv ⊢
    obtain rfl := Option.some.inj (hw.symm.trans hv)
    exact ⟨w', Function.update_self .., hbatch _ hmem⟩
  · exact ⟨v, (Function.update_of_ne hk ..).trans hv, hmem⟩

/-- The custody of records through a step of one worker. -/
theorem Held.hand (hI : Held s) (hst : Stage s k w) (hw : s.workers k = some w)
    (hw' : s'.workers = Function.update s.workers k (some w'))
    (hframe : s'.log = s.log ∧ s'.owner = s.owner ∧ s'.used = s.used) (h : Hand s k w s' w') :
    Held s' := by
  obtain ⟨hlog, howner, -⟩ := hframe
  have hup : ∀ p k', s'.owner p = some k' → s'.workers k' ≠ none := by
    intro p k' hp
    rw [howner] at hp
    rw [hw']
    exact update_some_ne_none fun _ => hI.up p k' hp
  cases h with
  | count new hbatch hposition hcommitted hcounts hown hnodup hsub =>
    refine ⟨hup, ?_, ?_, ?_, ?_, ?_⟩
    · rw [howner, hcommitted]
      refine forall_update_some hw' ?_ fun k' v _ hv => hI.position k' v hv
      rw [hposition]
      exact hI.position k w hw
    · rw [hlog, howner, hcommitted]
      refine forall_update_some hw' ?_ fun k' v _ hv => hI.batch k' v hv
      rw [hbatch, hposition]
      exact hI.batch k w hw
    · rw [hcounts, hlog, hcommitted]
      intro c hc hcom
      rcases List.mem_append.mp hc with hc | hc
      · exact hI.below c hc hcom
      · rw [(hown c hc).2.1] at hcom
        cases hcom
    · rw [hcounts, hw']
      intro c hc hcom
      rcases List.mem_append.mp hc with hc | hc
      · exact hI.pending_update hw (fun i hi => hbatch ▸ hi) hc hcom
      · -- A new count is of a record that the loop had yet to count.
        have hmem : c.ref ∈ w.batch :=
          hst.todo _ (hsub _ (List.mem_append_left _ (List.mem_map_of_mem hc)))
        rw [(hown c hc).1]
        exact ⟨w', Function.update_self .., hbatch ▸ hmem⟩
    · rw [hcounts, hlog]
      intro c hc
      rcases List.mem_append.mp hc with hc | hc
      · exact hI.job c hc
      · exact (hown c hc).2.2
  | fetch i p hpolling hpart hown hle hbatch hpc hposition hcommitted hcounts =>
    have hge : s.committed p ≤ i := Nat.le_trans (hI.position k w hw p hown) hle
    have hposle : ∀ q, w.position q ≤ w'.position q := by
      intro q
      rw [hposition, Function.update_apply]
      split
      · next hq =>
        rw [hq]
        omega
      · exact le_rfl
    refine ⟨hup, ?_, ?_, ?_, ?_, ?_⟩
    · rw [howner, hcommitted]
      refine forall_update_some hw' ?_ fun k' v _ hv => hI.position k' v hv
      exact fun q hq => Nat.le_trans (hI.position k w hw q hq) (hposle q)
    · rw [hlog, howner, hcommitted]
      refine forall_update_some hw' ?_ fun k' v _ hv => hI.batch k' v hv
      rw [hbatch]
      intro j hj q hq
      rcases List.mem_append.mp hj with hj | hj
      · obtain ⟨h1, h2, h3⟩ := hI.batch k w hw j hj q hq
        exact ⟨h1, h2, Nat.lt_of_lt_of_le h3 (hposle q)⟩
      · obtain rfl := List.mem_singleton.mp hj
        obtain rfl := Option.some.inj (hpart.symm.trans hq)
        refine ⟨hown, hge, ?_⟩
        rw [hposition, Function.update_self]
        exact Nat.lt_succ_self j
    · rw [hcounts, hlog, hcommitted]
      exact hI.below
    · rw [hcounts, hw']
      refine fun c hc hcom => hI.pending_update hw (fun j hj => ?_) hc hcom
      rw [hbatch]
      exact List.mem_append_left _ hj
    · rw [hcounts, hlog]
      exact hI.job
  | commit hbatch huncounted hposition hcommitted hcounts =>
    -- What the others own is not committed by this worker.
    have hkept : ∀ {p k'}, k' ≠ k → s.owner p = some k' →
        commitRecords s.committed (s.log.offsets w.batch) p = s.committed p :=
      fun hk hp => hI.commit_of_ne hw fun heq => hk (Option.some.inj (hp.symm.trans heq))
    refine ⟨hup, ?_, ?_, ?_, ?_, ?_⟩
    · rw [howner, hcommitted]
      refine forall_update_some hw' ?_ fun k' v hk hv p hp => ?_
      · rw [hposition]
        exact fun p hp => hI.commit_le hw hp
      · rw [hkept hk hp]
        exact hI.position k' v hv p hp
    · rw [hlog, howner, hcommitted]
      refine forall_update_some hw' ?_ fun k' v hk hv i hi p hp => ?_
      · rw [hbatch]
        exact fun i hi => absurd hi List.not_mem_nil
      · obtain ⟨hown, hge, hlt⟩ := hI.batch k' v hv i hi p hp
        rw [hkept hk hown]
        exact ⟨hown, hge, hlt⟩
    · rw [hcounts, hlog, hcommitted]
      intro c hc hcom p hp
      obtain ⟨e, he, -, href, -, hcase⟩ := mem_settleCounts hc
      rw [href] at hp ⊢
      by_cases hecom : e.committed = true
      · exact Nat.lt_of_lt_of_le (hI.below e he hecom p hp) (hI.le_commit hw p)
      · rcases hcase with ⟨hek, -⟩ | ⟨-, rfl⟩
        · -- A count of the batch that has just been committed.
          obtain ⟨v, hv, hmem⟩ := hI.pending e he (by simpa using hecom)
          rw [hek] at hv
          obtain rfl := Option.some.inj (hw.symm.trans hv)
          have hoff : (p, e.ref) ∈ s.log.offsets w.batch := Log.mem_offsets.mpr ⟨hmem, hp⟩
          exact lt_commitRecords s.committed hoff
        · exact absurd hcom hecom
    · rw [hcounts, hw']
      intro c hc hcom
      obtain ⟨e, he, -, -, -, ⟨-, hset⟩ | ⟨hek, rfl⟩⟩ := mem_settleCounts hc
      · rw [hset] at hcom
        cases hcom
      · obtain ⟨v, hv, hmem⟩ := hI.pending c he hcom
        exact ⟨v, (Function.update_of_ne hek ..).trans hv, hmem⟩
    · rw [hcounts, hlog]
      intro c hc
      obtain ⟨e, he, -, href, hjob, -⟩ := mem_settleCounts hc
      rw [href, hjob]
      exact hI.job e he

end

variable {d : Dialect} {maxPoll : ℕ} {s s' : State} {a : Label}

/-- **Custody is kept by every orderly step.** -/
theorem held_step (hI : Held s) (hst : Staged s) (hC : Orderly s a)
    (h : step d maxPoll s a = some s') : Held s' := by
  cases a with
  | append r =>
    obtain rfl := step_append h
    refine ⟨hI.up, hI.position, ?_, ?_, hI.pending, ?_⟩
    · intro k w hw i hi p hp
      rw [Log.partitionAt_snoc ((hst k w hw).bound i hi)] at hp
      exact hI.batch k w hw i hi p hp
    · intro c hc hcom p hp
      rw [Log.partitionAt_snoc (Log.lt_of_jobAt (hI.job c hc))] at hp
      exact hI.below c hc hcom p hp
    · intro c hc
      have hjob := hI.job c hc
      change Log.jobAt (s.log ++ [r]) c.ref = _
      rw [Log.jobAt_snoc (Log.lt_of_jobAt hjob)]
      exact hjob
  | start k =>
    obtain ⟨hk, rfl⟩ := step_start h
    -- Nothing is assigned to a worker that has just started.
    have hidle : ∀ p, s.owner p ≠ some k := fun p hp => hI.up p k hp hk
    refine ⟨fun p k' hp => update_some_ne_none fun _ => hI.up p k' hp, ?_, ?_, hI.below, ?_, hI.job⟩
    · refine forall_update_some rfl ?_ fun k' v _ hv => hI.position k' v hv
      exact fun p hp => absurd hp (hidle p)
    · refine forall_update_some rfl ?_ fun k' v _ hv => hI.batch k' v hv
      exact fun i hi => absurd hi List.not_mem_nil
    · intro c hc hcom
      obtain ⟨w, hw, hmem⟩ := hI.pending c hc hcom
      have hck : c.worker ≠ k := by
        intro heq
        rw [heq, hk] at hw
        cases hw
      exact ⟨w, (Function.update_of_ne hck ..).trans hw, hmem⟩
  | stop k =>
    obtain rfl := step_stop h
    have howner : ∀ p k', (if s.owner p = some k then none else s.owner p) = some k' →
        s.owner p = some k' ∧ k' ≠ k := by
      intro p k' hp
      split at hp
      · cases hp
      · next hne => exact ⟨hp, fun heq => hne (heq ▸ hp)⟩
    refine ⟨?_, ?_, ?_, ?_, ?_, ?_⟩
    · intro p k' hp
      obtain ⟨hown, hne⟩ := howner p k' hp
      simp only [Function.update_of_ne hne]
      exact hI.up p k' hown
    · exact fun k' w' hw' p hp => hI.position k' w' (of_update_none hw').2 p (howner p k' hp).1
    · intro k' w' hw' i hi p hp
      obtain ⟨hne, hv⟩ := of_update_none hw'
      obtain ⟨hown, hrest⟩ := hI.batch k' w' hv i hi p hp
      have hnk : s.owner p ≠ some k := fun heq => hne (Option.some.inj (hown.symm.trans heq))
      exact ⟨(if_neg hnk).trans hown, hrest⟩
    · exact fun c hc => hI.below c (mem_dropCounts.mp hc).1
    · intro c hc hcom
      obtain ⟨hmem, hdrop⟩ := mem_dropCounts.mp hc
      -- The counts of the worker that remain are committed.
      have hne : c.worker ≠ k := hdrop.resolve_right (by rw [hcom]; exact Bool.false_ne_true)
      obtain ⟨w, hw, hbatch⟩ := hI.pending c hmem hcom
      exact ⟨w, (Function.update_of_ne hne ..).trans hw, hbatch⟩
    · exact fun c hc => hI.job c (mem_dropCounts.mp hc).1
  | assign p k =>
    obtain ⟨w, hw, hp, rfl⟩ := step_assign h
    -- No other worker that is up holds a record of the partition, and neither does the new owner.
    have hfree : ∀ k' v, s.workers k' = some v → ∀ i ∈ v.batch, s.log.partitionAt i ≠ some p := by
      intro k' v hv i hi hpart
      have hown := (hI.batch k' v hv i hi p hpart).1
      exact hC k' hown v hv i hi hpart
    have hother : ∀ {q k'}, k' ≠ k → Function.update s.owner p (some k) q = some k' →
        s.owner q = some k' := by
      intro q k' hk hq
      rw [Function.update_apply] at hq
      split at hq
      · exact absurd (Option.some.inj hq).symm hk
      · exact hq
    refine ⟨fun q k' hq => update_some_ne_none fun hk => hI.up q k' (hother hk hq), ?_, ?_,
        hI.below,
      fun c hc hcom => ?_, hI.job⟩
    · refine forall_update_some rfl ?_ fun k' v hk hv q hq => hI.position k' v hv q (hother hk hq)
      intro q hq
      simp only [Function.update_apply] at hq ⊢
      split at hq
      · next hqp =>
        rw [if_pos hqp, hqp]
        exact Nat.le_refl (s.committed p)
      · next hqp =>
        rw [if_neg hqp]
        exact hI.position k w hw q hq
    · refine forall_update_some rfl ?_ fun k' v _ hv i hi q hq => ?_
      · intro i hi q hq
        have hqp : q ≠ p := fun heq => hfree k w hw i hi (heq ▸ hq)
        simp only [Function.update_of_ne hqp]
        exact hI.batch k w hw i hi q hq
      · have hqp : q ≠ p := fun heq => hfree k' v hv i hi (heq ▸ hq)
        simp only [Function.update_of_ne hqp]
        exact hI.batch k' v hv i hi q hq
    · refine hI.pending_update hw ?_ hc hcom
      exact fun _ hi => hi
  | worker k a =>
    obtain ⟨w, hw, ha⟩ := step_worker h
    obtain ⟨w', hupd, hhand⟩ := ha.hand_update
    exact hI.hand (hst k w hw) hw hupd ha.frame hhand

/-! ### No record is counted twice -/

/-- No record is counted twice. -/
structure Distinct (s : State) : Prop where
  counts : (s.counts.map Count.ref).Nodup
  /-- The records yet to be counted are apart, and none of them is counted. -/
  todo : ∀ k w, s.workers k = some w → (w.pc.uncounted s.log w.batch).Nodup ∧
    ∀ i ∈ w.pc.uncounted s.log w.batch, ∀ c ∈ s.counts, c.ref ≠ i

/-- No two workers hold one record. -/
theorem Held.apart (hI : Held s) {k k' : GoString} {w w' : Worker} (hst : Stage s k w)
    (hw : s.workers k = some w) (hw' : s.workers k' = some w') {i : ℕ} (hi : i ∈ w.batch)
    (hi' : i ∈ w'.batch) : k = k' := by
  have hlt := hst.bound i hi
  have hpart : s.log.partitionAt i = some (s.log[i]).partition := by
    rw [Log.partitionAt, List.getElem?_eq_getElem hlt]
    rfl
  have hk := (hI.batch k w hw i hi _ hpart).1
  have hk' := (hI.batch k' w' hw' i hi' _ hpart).1
  exact Option.some.inj (hk.symm.trans hk')

theorem map_ref_settleCounts (k : GoString) (counts : List Count) :
    (settleCounts k counts).map Count.ref = counts.map Count.ref := by
  unfold settleCounts
  rw [List.map_map]
  apply List.map_congr_left
  intro c _
  simp only [Function.comp_apply]
  split <;> rfl

/-- A record that the owner of its partition has yet to poll is not counted. -/
theorem Held.not_counted (hI : Held s) {k : GoString} {w : Worker} (hw : s.workers k = some w)
    {i p : ℕ} (hpart : s.log.partitionAt i = some p) (hown : s.owner p = some k)
    (hle : w.position p ≤ i) {c : Count} (hc : c ∈ s.counts) : c.ref ≠ i := by
  -- A counted record is committed, or in a batch; the record is neither.
  rintro rfl
  have hge := hI.position k w hw p hown
  cases hcom : c.committed with
  | true =>
    have hlt := hI.below c hc hcom p hpart
    omega
  | false =>
    obtain ⟨v, hv, hmem⟩ := hI.pending c hc hcom
    obtain ⟨hown', -, hlt⟩ := hI.batch _ v hv _ hmem p hpart
    have hkc : k = c.worker := Option.some.inj (hown.symm.trans hown')
    rw [← hkc, hw] at hv
    obtain rfl := Option.some.inj hv
    omega

/-- No record is counted twice through a step of one worker. -/
theorem Distinct.hand (hD : Distinct s) (hI : Held s) (hst : Staged s) {k : GoString}
    {w w' : Worker} (hw : s.workers k = some w)
    (hw' : s'.workers = Function.update s.workers k (some w')) (hlog : s'.log = s.log)
    (h : Hand s k w s' w') : Distinct s' := by
  obtain ⟨hnodup, hne⟩ := hD.todo k w hw
  cases h with
  | count new hbatch hposition hcommitted hcounts hown hnew hsub =>
    have hapart : ((new.map Count.ref) ++ w'.pc.uncounted s.log w.batch).Nodup := hnew hnodup
    refine ⟨?_, ?_⟩
    · rw [hcounts, List.map_append, List.nodup_append]
      refine ⟨hD.counts, (List.nodup_append.mp hapart).1, ?_⟩
      intro i hi j hj hij
      obtain ⟨c, hc, rfl⟩ := List.mem_map.mp hi
      exact hne j (hsub j (List.mem_append_left _ hj)) c hc hij
    · rw [hlog, hcounts]
      refine forall_update_some hw' ?_ fun k' v hk hv => ?_
      · rw [hbatch]
        refine ⟨(List.nodup_append.mp hapart).2.1, fun i hi c hc => ?_⟩
        rcases List.mem_append.mp hc with hc | hc
        · exact hne i (hsub i (List.mem_append_right _ hi)) c hc
        · exact (List.nodup_append.mp hapart).2.2 _ (List.mem_map_of_mem hc) i hi
      · obtain ⟨hnodup', hne'⟩ := hD.todo k' v hv
        refine ⟨hnodup', fun i hi c hc => ?_⟩
        rcases List.mem_append.mp hc with hc | hc
        · exact hne' i hi c hc
        · -- The two workers would hold one record.
          rintro rfl
          have hmem := (hst k w hw).todo _
              (hsub _ (List.mem_append_left _ (List.mem_map_of_mem hc)))
          exact hk (hI.apart (hst k' v hv) hv hw ((hst k' v hv).todo _ hi) hmem)
  | fetch i p hpolling hpart hown hle hbatch hpc hposition hcommitted hcounts =>
    refine ⟨hcounts ▸ hD.counts, ?_⟩
    rw [hlog, hcounts]
    refine forall_update_some hw' ?_ fun k' v _ hv => hD.todo k' v hv
    rw [hpolling] at hnodup hne
    rw [hbatch, hpc, hpolling]
    change (w.batch ++ [i]).Nodup ∧ ∀ j ∈ w.batch ++ [i], _
    refine ⟨?_, fun j hj c hc => ?_⟩
    · refine List.nodup_append.mpr ⟨hnodup, List.nodup_singleton i, ?_⟩
      intro j hj j' hj' heq
      rw [List.mem_singleton.mp hj'] at heq
      subst heq
      -- What the batch holds of the partition lies before the position.
      have hlt := (hI.batch k w hw j hj p hpart).2.2
      omega
    · rcases List.mem_append.mp hj with hj | hj
      · exact hne j hj c hc
      · obtain rfl := List.mem_singleton.mp hj
        exact hI.not_counted hw hpart hown hle hc
  | commit hbatch huncounted hposition hcommitted hcounts =>
    refine ⟨by rw [hcounts, map_ref_settleCounts]; exact hD.counts, ?_⟩
    rw [hlog, hcounts]
    refine forall_update_some hw' ?_ fun k' v hk hv => ?_
    · rw [hbatch, huncounted]
      exact ⟨List.nodup_nil, fun i hi => absurd hi List.not_mem_nil⟩
    · obtain ⟨hnodup', hne'⟩ := hD.todo k' v hv
      refine ⟨hnodup', fun i hi c hc => ?_⟩
      obtain ⟨e, he, -, href, -⟩ := mem_settleCounts hc
      rw [href]
      exact hne' i hi e he

/-- **No record is counted twice** in an orderly run. -/
theorem distinct_step (hD : Distinct s) (hI : Held s) (hst : Staged s)
    (h : step d maxPoll s a = some s') : Distinct s' := by
  cases a with
  | append r =>
    obtain rfl := step_append h
    refine ⟨hD.counts, fun k w hw => ?_⟩
    rw [uncounted_snoc (hst k w hw).bound]
    exact hD.todo k w hw
  | start k =>
    obtain ⟨-, rfl⟩ := step_start h
    refine ⟨hD.counts, forall_update_some rfl ?_ fun k' v _ hv => hD.todo k' v hv⟩
    exact ⟨List.nodup_nil, fun i hi => absurd hi List.not_mem_nil⟩
  | stop k =>
    obtain rfl := step_stop h
    have hsub : ∀ c ∈ dropCounts k s.counts, c ∈ s.counts := fun c hc => (mem_dropCounts.mp hc).1
    refine ⟨?_, fun k' w' hw' => ?_⟩
    · exact hD.counts.sublist (List.Sublist.map _ List.filter_sublist)
    · obtain ⟨hnodup, hne⟩ := hD.todo k' w' (of_update_none hw').2
      exact ⟨hnodup, fun i hi c hc => hne i hi c (hsub c hc)⟩
  | assign p k =>
    obtain ⟨w, hw, -, rfl⟩ := step_assign h
    exact ⟨hD.counts, forall_update_some rfl (hD.todo k w hw) fun k' v _ hv => hD.todo k' v hv⟩
  | worker k a =>
    obtain ⟨w, hw, ha⟩ := step_worker h
    -- The three kinds of steps of a worker.
    obtain ⟨w', hupd, hhand⟩ := ha.hand_update
    exact hD.hand hI hst hw hupd ha.frame.1 hhand

end CsvProductUploader.Catalog

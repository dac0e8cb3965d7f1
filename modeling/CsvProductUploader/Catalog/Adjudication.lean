import CsvProductUploader.Catalog.Outcomes

/-!
# What a worker has adjudicated

A batch holds records that do not decode, events that fail validation and events that are
written.  Whatever fails on the way, a worker that has come to its flush or its commit has
written or dead-lettered each of them, and it has done so in every run of the group, however
partitions are handed around.

## Main definitions

* `Pc.Cleared` — which of the raw records are dead-lettered, by program point.
* `Adjudicated` — every worker has done with its batch what its program point says.

## Main results

* `adjudicated_step` — an invariant of every run.
* `Adjudicated.resolved` — at the commit every record of the batch is resolved.
-/

namespace CsvProductUploader.Catalog

/-- What the loop has done with the raw records of its batch; past the count, with all of
its records. -/
def Pc.Cleared (s : State) (batch : List ℕ) : Pc → Prop
  | .poisoning todo => ∀ i ∈ s.log.rawRefs batch, i ∈ todo ∨ i ∈ s.dead
  | .republishing j todo => ∀ i ∈ s.log.rawRefs batch, i = j ∨ i ∈ todo ∨ i ∈ s.dead
  | .deadLettering _ | .writing _ | .counting => ∀ i ∈ s.log.rawRefs batch, i ∈ s.dead
  | .flushing _ | .committing => ∀ i ∈ batch, Resolved s i
  | .polling | .draining _ | .returned => True

/-- A record of a batch carries an event or is raw. -/
theorem Log.mem_rawRefs_or_eventRefs (log : Log) {batch : List ℕ} {i : ℕ} (hi : i ∈ batch) :
    i ∈ log.rawRefs batch ∨ i ∈ log.eventRefs batch := by
  have hmem := (log.rawRefs_append_eventRefs batch).symm.subset hi
  exact List.mem_append.mp hmem

section
variable {d : Dialect} {maxPoll : ℕ} {s s' : State} {k : GoString} {w : Worker} {b : Action}
  {batch todo : List ℕ} {pc : Pc}

/-- What is cleared stays cleared, while the records of the batch stay what they are. -/
theorem Pc.Cleared.mono (h : pc.Cleared s batch)
    (hraw : s'.log.rawRefs batch = s.log.rawRefs batch)
    (hwritten : ∀ i ∈ s.written, i ∈ s'.written) (hdead : ∀ i ∈ s.dead, i ∈ s'.dead) :
    pc.Cleared s' batch := by
  have hresolved : ∀ i, Resolved s i → Resolved s' i :=
    fun i hi => hi.imp (hwritten i) (hdead i)
  -- At every place the records are adjudicated by what is written and dead, which only grows.
  cases pc with
  | poisoning todo =>
    intro i hi
    rw [hraw] at hi
    exact (h i hi).imp_right (hdead i)
  | republishing j todo =>
    intro i hi
    rw [hraw] at hi
    exact (h i hi).imp_right fun hi => hi.imp_right (hdead i)
  | deadLettering todo =>
    intro i hi
    rw [hraw] at hi
    exact hdead i (h i hi)
  | writing n =>
    intro i hi
    rw [hraw] at hi
    exact hdead i (h i hi)
  | counting =>
    intro i hi
    rw [hraw] at hi
    exact hdead i (h i hi)
  | flushing f => exact fun i hi => hresolved i (h i hi)
  | committing => exact fun i hi => hresolved i (h i hi)
  | _ => trivial

theorem cleared_deadLetters (h : ∀ i ∈ s.log.rawRefs batch, i ∈ s.dead) :
    (Pc.deadLetters s.log batch todo).Cleared s batch := by
  unfold Pc.deadLetters
  split_ifs <;> exact h

theorem cleared_processBatch (h : ∀ i ∈ s.log.rawRefs batch, i ∈ s.dead) :
    (Pc.processBatch s.log batch).Cleared s batch := by
  unfold Pc.processBatch
  split
  · next hnil =>
    -- The batch holds raw records only.
    intro i hi
    rcases s.log.mem_rawRefs_or_eventRefs hi with hraw | hevt
    · exact Or.inr (h i hraw)
    · rw [Log.eventRefs_eq_nil hnil] at hevt
      cases hevt
  · exact cleared_deadLetters h

theorem cleared_poisons (h : ∀ i ∈ s.log.rawRefs batch, i ∈ todo ∨ i ∈ s.dead) :
    (Pc.poisons s.log batch todo).Cleared s batch := by
  unfold Pc.poisons
  split
  · next hnil =>
    subst hnil
    exact cleared_processBatch fun i hi => (h i hi).resolve_left List.not_mem_nil
  · exact h

/-- A step of a worker keeps what it has cleared. -/
theorem Acts.cleared (ha : Acts d maxPoll s k w b s') (hdone : w.pc.Done s w.batch)
    (h : w.pc.Cleared s w.batch) :
    ∃ w', s'.workers k = some w' ∧ w'.pc.Cleared s' w'.batch := by
  obtain ⟨hwritten, hdead, -⟩ := ha.mono
  have hraw : s'.log.rawRefs w.batch = s.log.rawRefs w.batch := by rw [ha.frame.1]
  cases ha with
  | signal => exact ⟨_, Function.update_self .., h.mono hraw hwritten hdead⟩
  | fetch hpc =>
    refine ⟨_, Function.update_self .., ?_⟩
    show Pc.Cleared _ _ w.pc
    rw [hpc]
    trivial
  | idle => exact ⟨_, Function.update_self .., h.mono hraw hwritten hdead⟩
  | poll hpc =>
    refine ⟨_, Function.update_self .., Pc.Cleared.mono (s := s) ?_ hraw hwritten hdead⟩
    exact cleared_poisons fun i hi => Or.inl hi
  | shutdown hpc hnil => exact ⟨_, Function.update_self .., trivial⟩
  | countPoison hpc hid =>
    refine ⟨_, Function.update_self .., Pc.Cleared.mono (s := s) ?_ hraw hwritten hdead⟩
    rw [hpc] at h
    intro j hj
    have hmem := h j hj
    rwa [List.mem_cons, or_assoc] at hmem
  | skipPoison hpc hid =>
    refine ⟨_, Function.update_self .., Pc.Cleared.mono (s := s) ?_ hraw hwritten hdead⟩
    rw [hpc] at h
    intro j hj
    have hmem := h j hj
    rwa [List.mem_cons, or_assoc] at hmem
  | @republish i todo r hpc =>
    rw [hpc] at h
    refine ⟨_, Function.update_self .., ?_⟩
    cases hr : r with
    | err applied => trivial
    | ok =>
      refine cleared_poisons fun j hj => ?_
      -- The record that has been in hand is delivered now.
      rcases h j hj with rfl | hmem | hmem
      · exact Or.inr (List.mem_append_right _ (List.mem_singleton_self _))
      · exact Or.inl hmem
      · exact Or.inr (List.mem_append_left _ hmem)
  | @deadLetter i todo r hpc =>
    rw [hpc] at h
    refine ⟨_, Function.update_self .., ?_⟩
    cases hr : r with
    | err applied => trivial
    | ok => exact cleared_deadLetters fun j hj => List.mem_append_left _ (h j hj)
  | write hpc hw =>
    rw [hpc] at h
    exact ⟨_, Function.update_self .., h⟩
  | writeFail hpc hpc' ht =>
    rw [hpc] at h
    refine ⟨_, Function.update_self .., ?_⟩
    rcases hpc' with rfl | rfl
    · exact h
    · trivial
  | count hpc =>
    rw [hpc] at h hdone
    refine ⟨_, Function.update_self .., fun i hi => ?_⟩
    rcases s.log.mem_rawRefs_or_eventRefs hi with hmem | hmem
    · exact Or.inr (h i hmem)
    · exact hdone i hmem
  | tick ht => exact ⟨_, Function.update_self .., h.mono hraw hwritten hdead⟩
  | @flush f o _ hpc hf =>
    rw [hpc] at h
    refine ⟨_, Function.update_self .., ?_⟩
    show Pc.Cleared _ _ (Pc.afterFlush o.next)
    cases o.next with
    | running f' => exact h
    | returned ok =>
      cases ok with
      | true => exact h
      | false => trivial
  | @drain f o _ hpc hf =>
    refine ⟨_, Function.update_self .., ?_⟩
    show Pc.Cleared _ _ (Pc.afterDrain o.next)
    cases o.next <;> trivial
  | tickerFlush ht hf => exact ⟨_, Function.update_self .., h.mono hraw hwritten hdead⟩
  | commit hpc hpc' =>
    refine ⟨_, Function.update_self .., ?_⟩
    rcases hpc' with rfl | rfl <;> trivial
  | commitFail hpc => exact ⟨_, Function.update_self .., trivial⟩

end

/-! ### Every run of the group -/

/-- Every worker has done with its batch what its program point says. -/
structure Adjudicated (s : State) : Prop where
  done : ∀ k w, s.workers k = some w → w.pc.Done s w.batch
  cleared : ∀ k w, s.workers k = some w → w.pc.Cleared s w.batch

variable {d : Dialect} {maxPoll : ℕ} {s s' : State} {a : Label}

theorem Log.rawRefs_snoc {log : Log} {batch : List ℕ} (h : ∀ i ∈ batch, i < log.length)
    (r : Record) : rawRefs (log ++ [r]) batch = log.rawRefs batch :=
  List.filter_congr fun i hi => by rw [eventAt_snoc (h i hi)]

/-- What a worker has cleared stays so while the log grows. -/
theorem Pc.Cleared.grow {k : GoString} {w : Worker} (h : w.pc.Cleared s w.batch)
    (hst : Stage s k w) (hs : step d maxPoll s a = some s') : w.pc.Cleared s' w.batch := by
  have hkept := kept_step hs
  refine h.mono ?_ hkept.written hkept.dead
  rcases log_step hs with hlog | ⟨r, -, hlog⟩ <;> rw [hlog]
  exact Log.rawRefs_snoc hst.bound r

/-- **Every worker has done with its batch what its program point says**, in every run. -/
theorem adjudicated_step (hI : Adjudicated s) (hst : Staged s)
    (h : step d maxPoll s a = some s') : Adjudicated s' := by
  refine ⟨done_step hI.done hst h, fun k w' hw' => ?_⟩
  rcases worker_step h hw' with ⟨-, rfl⟩ | ⟨p, w, -, hw, rfl⟩ | ⟨b, w, -, hw, ha⟩ | ⟨hw, -⟩
  · trivial
  · exact (hI.cleared k w hw).grow (hst k w hw) h
  · obtain ⟨w'', hw'', hcleared⟩ := ha.cleared (hI.done k w hw) (hI.cleared k w hw)
    obtain rfl : w'' = w' := Option.some.inj (hw''.symm.trans hw')
    exact hcleared
  · exact (hI.cleared k w' hw).grow (hst k w' hw) h

theorem adjudicated_initial : Adjudicated initial := by
  constructor
  · intro k w hw
    cases hw
  · intro k w hw
    cases hw

/-- **At its commit a worker has written or dead-lettered every record of its batch.** -/
theorem Adjudicated.resolved (hI : Adjudicated s) {k : GoString} {w : Worker}
    (hw : s.workers k = some w) (hpc : w.pc = .committing) {i : ℕ} (hi : i ∈ w.batch) :
    Resolved s i := by
  have hcleared := hI.cleared k w hw
  rw [hpc] at hcleared
  exact hcleared i hi

end CsvProductUploader.Catalog

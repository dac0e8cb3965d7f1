import CsvProductUploader.Catalog.Outcomes

/-!
# What is dead-lettered

A worker dead-letters the records that do not decode and the events that fail validation.
However its loop is cut short, no event that passes validation goes to the dead letter topic.

## Main definitions

* `Log.Refused` — a record of the log that no catalog takes.
* `Pc.todo` — the records that the loop is about to dead-letter.
* `Rejected` — whatever is dead-lettered, or about to be, is refused.

## Main results

* `rejected_step`, `rejected_initial` — this is an invariant.
-/

namespace CsvProductUploader.Catalog

/-- The record is in the log, and it is not an event that passes validation. -/
def Log.Refused (log : Log) (i : ℕ) : Prop := i < log.length ∧ log.validAt i = false

theorem Log.Refused.snoc {log : Log} {i : ℕ} (h : log.Refused i) (r : Record) :
    Log.Refused (log ++ [r]) i := by
  refine ⟨?_, by rw [Log.validAt_snoc h.1, h.2]⟩
  rw [List.length_append]
  exact Nat.lt_add_right _ h.1

theorem Log.validAt_of_none {log : Log} {i : ℕ} (h : log.eventAt i = none) :
    log.validAt i = false := by rw [Log.validAt, h]; rfl

/-- The records that the loop is about to dead-letter. -/
def Pc.todo : Pc → List ℕ
  | .poisoning todo | .deadLettering todo => todo
  | .republishing i todo => i :: todo
  | _ => []

/-- Whatever is dead-lettered, or about to be, is refused. -/
structure Rejected (s : State) : Prop where
  dead : ∀ i ∈ s.dead, s.log.Refused i
  loop : ∀ k w, s.workers k = some w → ∀ i ∈ w.pc.todo, s.log.Refused i

section
variable {log : Log} {batch todo : List ℕ}

theorem refused_deadLetters (h : ∀ i ∈ todo, log.Refused i) :
    ∀ i ∈ (Pc.deadLetters log batch todo).todo, log.Refused i := by
  unfold Pc.deadLetters
  split
  · split <;> exact fun i hi => absurd hi List.not_mem_nil
  · exact h

theorem refused_processBatch (hbound : ∀ i ∈ batch, i < log.length) :
    ∀ i ∈ (Pc.processBatch log batch).todo, log.Refused i := by
  unfold Pc.processBatch
  split
  · exact fun i hi => absurd hi List.not_mem_nil
  · refine refused_deadLetters fun i hi => ?_
    obtain ⟨hbatch, hinvalid⟩ := List.mem_filter.mp hi
    exact ⟨hbound i hbatch, by simpa using (Bool.and_eq_true_iff.mp hinvalid).2⟩

theorem refused_poisons (hbound : ∀ i ∈ batch, i < log.length)
    (h : ∀ i ∈ todo, log.Refused i) :
    ∀ i ∈ (Pc.poisons log batch todo).todo, log.Refused i := by
  unfold Pc.poisons
  split
  · exact refused_processBatch hbound
  · exact h

end

variable {d : Dialect} {maxPoll : ℕ} {s s' : State} {k : GoString} {w : Worker} {b : Action}

/-- A step of a worker leaves it with refused records to dead-letter. -/
theorem Acts.refused_todo (ha : Acts d maxPoll s k w b s')
    (hbound : ∀ i ∈ w.batch, i < s.log.length) (h : ∀ i ∈ w.pc.todo, s.log.Refused i) :
    ∃ w', s'.workers k = some w' ∧ ∀ i ∈ w'.pc.todo, s.log.Refused i := by
  have hnone : ∀ i ∈ ([] : List ℕ), s.log.Refused i := fun i hi => absurd hi List.not_mem_nil
  -- The work lists are filled from the records that do not decode and the events refused, and only
  -- shrink.
  cases ha with
  | poll hpc =>
    refine ⟨_, Function.update_self .., refused_poisons hbound fun i hi => ?_⟩
    obtain ⟨hbatch, hraw⟩ := List.mem_filter.mp hi
    exact ⟨hbound i hbatch, Log.validAt_of_none (Option.isNone_iff_eq_none.mp hraw)⟩
  | countPoison hpc | skipPoison hpc =>
    rw [hpc] at h
    exact ⟨_, Function.update_self .., h⟩
  | @republish i todo r hpc =>
    rw [hpc] at h
    refine ⟨_, Function.update_self .., ?_⟩
    cases r.isOk with
    | false => exact hnone
    | true => exact refused_poisons hbound fun j hj => h j (List.mem_cons_of_mem _ hj)
  | @deadLetter i todo r hpc =>
    rw [hpc] at h
    refine ⟨_, Function.update_self .., ?_⟩
    cases r.isOk with
    | false => exact hnone
    | true => exact refused_deadLetters fun j hj => h j (List.mem_cons_of_mem _ hj)
  | @writeFail n t pc _ _ hpc hpc' ht =>
    refine ⟨_, Function.update_self .., ?_⟩
    rcases hpc' with rfl | rfl <;> exact hnone
  | @flush f o _ hpc hf =>
    refine ⟨_, Function.update_self .., ?_⟩
    change ∀ i ∈ (Pc.afterFlush o.next).todo, _
    cases o.next with
    | running f' => exact hnone
    | returned ok => cases ok <;> exact hnone
  | @drain f o _ hpc hf =>
    refine ⟨_, Function.update_self .., ?_⟩
    change ∀ i ∈ (Pc.afterDrain o.next).todo, _
    cases o.next <;> exact hnone
  | commit hpc hpc' =>
    refine ⟨_, Function.update_self .., ?_⟩
    rcases hpc' with rfl | rfl <;> exact hnone
  | shutdown | write | count | commitFail => exact ⟨_, Function.update_self .., hnone⟩
  | _ => exact ⟨_, Function.update_self .., h⟩

/-- A step of a worker dead-letters the first of the records to come, or nothing. -/
theorem Acts.mem_dead (ha : Acts d maxPoll s k w b s') {i : ℕ} (hi : i ∈ s'.dead) :
    i ∈ s.dead ∨ i ∈ w.pc.todo := by
  have hlast : ∀ (r : Reply) (j : ℕ), i ∈ (if r.applied then s.dead ++ [j] else s.dead) →
      i ∈ s.dead ∨ i = j := by
    intro r j hi
    split at hi
    · simpa using hi
    · exact Or.inl hi
  cases ha with
  | @republish j todo r hpc =>
    rw [hpc]
    rcases hlast r j hi with hi | rfl
    · exact Or.inl hi
    · exact Or.inr List.mem_cons_self
  | @deadLetter j todo r hpc =>
    rw [hpc]
    rcases hlast r j hi with hi | rfl
    · exact Or.inl hi
    · exact Or.inr List.mem_cons_self
  | _ => exact Or.inl hi

theorem rejected_initial : Rejected initial := ⟨by rintro i ⟨⟩, by rintro k w ⟨⟩⟩

variable {a : Label}

/-- **Whatever is dead-lettered is refused.** -/
theorem rejected_step (hI : Rejected s) (hst : Staged s) (h : step d maxPoll s a = some s') :
    Rejected s' := by
  have hgrow : ∀ i, s.log.Refused i → s'.log.Refused i := by
    intro i hi
    rcases log_step h with hlog | ⟨r, -, hlog⟩ <;> rw [hlog]
    · exact hi
    · exact hi.snoc r
  constructor
  · intro i hi
    cases a with
    | append r =>
      obtain rfl := step_append h
      exact hgrow i (hI.dead i hi)
    | start k =>
      obtain ⟨-, rfl⟩ := step_start h
      exact hI.dead i hi
    | stop k =>
      obtain rfl := step_stop h
      exact hI.dead i hi
    | assign p k =>
      obtain ⟨w, -, -, rfl⟩ := step_assign h
      exact hI.dead i hi
    | worker k b =>
      obtain ⟨w, hw, ha⟩ := step_worker h
      rcases ha.mem_dead hi with hi | hi
      · exact hgrow i (hI.dead i hi)
      · -- It was on the work list of the worker that sent it.
        exact hgrow i (hI.loop k w hw i hi)
  · intro k w' hw' i hi
    rcases worker_step h hw' with ⟨-, rfl⟩ | ⟨p, w, -, hw, rfl⟩ | ⟨b, w, -, hw, ha⟩ | ⟨hw, -⟩
    · cases hi
    · exact hgrow i (hI.loop k w hw i hi)
    · obtain ⟨w'', hw'', htodo⟩ := ha.refused_todo (hst k w hw).bound (hI.loop k w hw)
      obtain rfl : w'' = w' := Option.some.inj (hw''.symm.trans hw')
      exact hgrow i (htodo i hi)
    · exact hgrow i (hI.loop k w' hw i hi)

end CsvProductUploader.Catalog

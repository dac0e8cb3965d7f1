import CsvProductUploader.Catalog.Custody

/-!
# Whose event a row holds

The upsert keeps no version: whatever statement comes last decides the row.  A record is
settled once nobody is bound to write it again, that is once it is committed, or written by
the owner of its partition and about to be committed.  As long as no statement puts an event
under which a later one of the same identity is settled, no row falls behind the settled
events.

## Main definitions

* `Log.productAt`, `Log.Supersedes` — what a record writes, and which record outdates it.
* `State.Settled`, `State.Stale` — settled records, and batches that would undo one.
* `Fenced`, `Timely` — no worker commits what it has lost, and no batch is written stale.
* `Custody` — what the owner of a partition holds of it.
* `RowOf` — no settled event supersedes the event of the row.

## Main results

* `custody_step`, `rows_step` — both are invariants, of fenced and of timely runs.
-/

namespace CsvProductUploader.Catalog

open Runs Update

/-! ### What a record writes -/

namespace Log

variable {log : Log} {i j : ℕ} {batch : List ℕ}

/-- The product that the record at a position is written as, if its event is accepted. -/
def productAt (log : Log) (i : ℕ) : Option Product :=
  (log.eventAt i).bind fun evt => (fromEvent evt).toOption

/-- The identity of that product. -/
def identityAt (log : Log) (i : ℕ) : Option (GoString × GoString) :=
  (log.productAt i).map Product.key

/-- The records hold accepted events of one identity. -/
def Alike (log : Log) (j i : ℕ) : Prop :=
  (log.identityAt i).isSome ∧ log.identityAt j = log.identityAt i

instance (log : Log) (j i : ℕ) : Decidable (log.Alike j i) :=
  inferInstanceAs (Decidable (_ ∧ _))

/-- The record `j` holds a later event of the identity of record `i`. -/
def Supersedes (log : Log) (j i : ℕ) : Prop := i < j ∧ log.Alike j i

instance (log : Log) (j i : ℕ) : Decidable (log.Supersedes j i) :=
  inferInstanceAs (Decidable (_ ∧ _))

/-- All accepted events of one identity are in one partition. -/
def Colocated (log : Log) : Prop :=
  ∀ i < log.length, ∀ j < log.length, log.Alike j i → log.partitionAt j = log.partitionAt i

instance (log : Log) : Decidable log.Colocated := by
  unfold Colocated
  infer_instance

theorem accepted_events (log : Log) (batch : List ℕ) :
    accepted (log.events batch) = batch.filterMap log.productAt := by
  rw [accepted, events, List.filterMap_filterMap]
  rfl

theorem validAt_iff : log.validAt i = true ↔ ∃ p, log.productAt i = some p := by
  unfold validAt productAt
  cases log.eventAt i with
  | none => simp
  | some evt => cases hevt : fromEvent evt <;>
      simp [hevt, Except.isOk, Except.toBool, Except.toOption]

theorem identityAt_eq_some {k : GoString × GoString} :
    log.identityAt i = some k ↔ ∃ p, log.productAt i = some p ∧ p.key = k :=
  Option.map_eq_some_iff

theorem lt_of_identityAt {k : GoString × GoString} (h : log.identityAt i = some k) :
    i < log.length := by
  obtain ⟨p, hp, -⟩ := identityAt_eq_some.mp h
  obtain ⟨evt, hevt, -⟩ := Option.bind_eq_some_iff.mp hp
  exact lt_of_jobAt (jobAt_of_eventAt hevt)

theorem productAt_snoc (h : i < log.length) (r : Record) :
    productAt (log ++ [r]) i = log.productAt i := by rw [productAt, productAt, eventAt_snoc h]

theorem identityAt_snoc (h : i < log.length) (r : Record) :
    identityAt (log ++ [r]) i = log.identityAt i := by
  rw [identityAt, identityAt, productAt_snoc h]

theorem alike_snoc (hi : i < log.length) (hj : j < log.length) (r : Record) :
    Alike (log ++ [r]) j i ↔ log.Alike j i := by
  rw [Alike, Alike, identityAt_snoc hi, identityAt_snoc hj]

/-- What holds of the whole log holds of its beginning. -/
theorem colocated_of_snoc {r : Record} (h : Colocated (log ++ [r])) : log.Colocated := by
  intro i hi j hj halike
  have hlength : (log ++ [r]).length = log.length + 1 := List.length_append
  have hboth := h i (by omega) j (by omega) ((alike_snoc hi hj r).mpr halike)
  rwa [partitionAt_snoc hi, partitionAt_snoc hj] at hboth

theorem Alike.lt (h : log.Alike j i) : j < log.length := by
  obtain ⟨k, hk⟩ := Option.isSome_iff_exists.mp h.1
  exact lt_of_identityAt (h.2.trans hk)

end Log

/-! ### Settled records -/

/-- The loop has written its batch and is on its way to the commit. -/
def Pc.wrote : Pc → Bool
  | .counting | .flushing _ | .committing => true
  | _ => false

/-- Nobody is bound to write the record again: it is committed, or the owner of its partition
has written it and is about to commit it. -/
def State.Settled (s : State) (j : ℕ) : Prop :=
  ∃ p ∈ s.log.partitionAt j, j < s.committed p ∨
    ∃ k ∈ s.owner p, ∃ w ∈ s.workers k, w.pc.wrote = true ∧ j ∈ w.batch

instance (s : State) (j : ℕ) : Decidable (s.Settled j) :=
  inferInstanceAs (Decidable (∃ p ∈ s.log.partitionAt j, _))

/-- Of some identity, the worker would put an event under which a later one is settled. -/
def State.Stale (s : State) (w : Worker) : Prop :=
  ∃ i ∈ w.batch, (∀ j ∈ w.batch, ¬ s.log.Supersedes j i) ∧
    ∃ j < s.log.length, s.log.Supersedes j i ∧ s.Settled j

instance (s : State) (w : Worker) : Decidable (s.Stale w) :=
  inferInstanceAs (Decidable (∃ i ∈ w.batch, _))

/-- No worker commits records of a partition it does not own, and no partition comes back to
a worker that still holds records of it. -/
def Fenced (s : State) : Label → Prop
  | .worker k (.commit _ reached) =>
    reached = true → ∀ w ∈ s.workers k, ∀ i ∈ w.batch, ∀ p ∈ s.log.partitionAt i, s.owner p = some k
  | .assign p k => ∀ w ∈ s.workers k, ∀ i ∈ w.batch, s.log.partitionAt i ≠ some p
  | _ => True

instance (s : State) : (a : Label) → Decidable (Fenced s a)
  | .worker k (.commit _ reached) =>
    inferInstanceAs (Decidable (reached = true → ∀ w ∈ s.workers k, ∀ i ∈ w.batch,
      ∀ p ∈ s.log.partitionAt i, s.owner p = some k))
  | .assign p k =>
    inferInstanceAs (Decidable (∀ w ∈ s.workers k, ∀ i ∈ w.batch, s.log.partitionAt i ≠ some p))
  | .append _ | .start _ | .stop _ | .worker _ .signal | .worker _ (.fetch _) | .worker _ .poll
  | .worker _ .shutdown | .worker _ .countPoison | .worker _ (.republish _)
  | .worker _ (.write _ _) | .worker _ .count | .worker _ .tick | .worker _ (.flush _)
  | .worker _ (.tickerFlush _) => .isTrue trivial

/-- No statement that takes effect is stale. -/
def Timely (s : State) : Label → Prop
  | .worker k (.write lost _) => lost.all Prod.snd = true → ∀ w ∈ s.workers k, ¬ s.Stale w
  | _ => True

instance (s : State) (a : Label) : Decidable (Timely s a) := by
  unfold Timely
  split <;> infer_instance

/-! ### What the owner of a partition holds of it -/

/-- What the owner of a partition holds of it: the records from the committed offset to its
own position, in order. -/
structure Custody (s : State) : Prop where
  up : ∀ p k, s.owner p = some k → s.workers k ≠ none
  committed_le : ∀ p, s.committed p ≤ s.log.length
  bound : ∀ k w, s.workers k = some w → ∀ i ∈ w.batch, i < s.log.length
  ascending : ∀ k w, s.workers k = some w →
    w.batch.Pairwise fun i j => s.log.partitionAt i = s.log.partitionAt j → i < j
  position : ∀ k w, s.workers k = some w → ∀ p, s.owner p = some k →
    s.committed p ≤ w.position p ∧ w.position p ≤ s.log.length
  mem_batch : ∀ k w, s.workers k = some w → ∀ p, s.owner p = some k → ∀ i,
    s.log.partitionAt i = some p → (i ∈ w.batch ↔ s.committed p ≤ i ∧ i < w.position p)

section
variable {s s' : State} {k : GoString} {w w' : Worker}

/-- A commit of records that the worker owns moves no offset of another partition. -/
theorem commitRecords_of_foreign
    (hfence : ∀ i ∈ w.batch, ∀ p, s.log.partitionAt i = some p → s.owner p = some k) {p : ℕ}
    (hp : s.owner p ≠ some k) :
    commitRecords s.committed (s.log.offsets w.batch) p = s.committed p := by
  refine commitRecords_of_notMem fun o hmem => hp ?_
  obtain ⟨ho, hpart⟩ := Log.mem_offsets.mp hmem
  exact hfence o ho p hpart

/-- Of a partition that the worker owns, a commit of its batch leaves nothing before its
position. -/
theorem Custody.commitRecords_own (hI : Custody s) (hw : s.workers k = some w) {p : ℕ}
    (hp : s.owner p = some k) :
    commitRecords s.committed (s.log.offsets w.batch) p ≤ w.position p ∧
      ∀ i, s.log.partitionAt i = some p →
        ¬ (commitRecords s.committed (s.log.offsets w.batch) p ≤ i ∧ i < w.position p) := by
  obtain ⟨hge, -⟩ := hI.position k w hw p hp
  rcases commitRecords_cases s.committed (s.log.offsets w.batch) p with ⟨heq, hnone⟩ |
    ⟨o, hmem, heq, hmax⟩
  · rw [heq]
    refine ⟨hge, fun i hi hrange => ?_⟩
    have hmem := (hI.mem_batch k w hw p hp i hi).mpr hrange
    exact hnone (p, i) (Log.mem_offsets.mpr ⟨hmem, hi⟩) rfl
  · obtain ⟨ho, hpart⟩ := Log.mem_offsets.mp hmem
    have hrange := (hI.mem_batch k w hw p hp o hpart).mp ho
    rw [heq]
    refine ⟨by omega, fun i hi hcover => ?_⟩
    have hmem := (hI.mem_batch k w hw p hp i hi).mpr ⟨by omega, hcover.2⟩
    have hle : i ≤ o := hmax (p, i) (Log.mem_offsets.mpr ⟨hmem, hi⟩) rfl
    omega

/-- The worker holds the record that it fetches, and of its partition still everything up to its
position. -/
theorem Custody.mem_fetched (hI : Custody s) (hw : s.workers k = some w) {i₀ p₀ : ℕ}
    (hpart : s.log.partitionAt i₀ = some p₀) (hle : w.position p₀ ≤ i₀)
    (hnext : ∀ i < i₀, w.position p₀ ≤ i → s.log.partitionAt i ≠ some p₀) {p : ℕ}
    (hp : s.owner p = some k) {i : ℕ} (hi : s.log.partitionAt i = some p) :
    i ∈ w.batch ++ [i₀] ↔
      s.committed p ≤ i ∧ i < Function.update w.position p₀ (i₀ + 1) p := by
  have hmem := hI.mem_batch k w hw p hp i hi
  have hge := (hI.position k w hw p hp).1
  rw [List.mem_append, List.mem_singleton, hmem, Function.update_apply]
  by_cases hpp : p = p₀
  · subst hpp
    rw [if_pos rfl]
    constructor
    · rintro (⟨hlow, hhigh⟩ | rfl) <;> omega
    · rintro ⟨hlow, hhigh⟩
      by_cases hpos : i < w.position p
      · exact Or.inl ⟨hlow, hpos⟩
      · -- Nothing of the partition lies between the position and the record.
        right
        by_contra hne
        exact hnext i (by omega) (by omega) hi
  · rw [if_neg hpp]
    constructor
    · rintro (h | rfl)
      · exact h
      · exact absurd (Option.some.inj (hi.symm.trans hpart)) hpp
    · exact Or.inl

/-- The custody through a step of one worker. -/
theorem Custody.hand (hI : Custody s) (hw : s.workers k = some w)
    (hw' : s'.workers = Function.update s.workers k (some w'))
    (hframe : s'.log = s.log ∧ s'.owner = s.owner ∧ s'.used = s.used) (h : Hand s k w s' w')
    (hfence : w'.batch = [] → ∀ i ∈ w.batch, ∀ p, s.log.partitionAt i = some p →
      s.owner p = some k) : Custody s' := by
  obtain ⟨hlog, howner, -⟩ := hframe
  have hup : ∀ p k', s'.owner p = some k' → s'.workers k' ≠ none := by
    intro p k' hp
    rw [howner] at hp
    rw [hw']
    exact update_some_ne_none fun _ => hI.up p k' hp
  cases h with
  | count new hbatch hposition hcommitted =>
    refine ⟨hup, ?_, ?_, ?_, ?_, ?_⟩
    · rw [hcommitted, hlog]
      exact hI.committed_le
    · rw [hlog]
      refine forall_update_some hw' ?_ fun k' v _ hv => hI.bound k' v hv
      rw [hbatch]
      exact hI.bound k w hw
    · rw [hlog]
      refine forall_update_some hw' ?_ fun k' v _ hv => hI.ascending k' v hv
      rw [hbatch]
      exact hI.ascending k w hw
    · rw [hlog, howner, hcommitted]
      refine forall_update_some hw' ?_ fun k' v _ hv => hI.position k' v hv
      rw [hposition]
      exact hI.position k w hw
    · rw [hlog, howner, hcommitted]
      refine forall_update_some hw' ?_ fun k' v _ hv => hI.mem_batch k' v hv
      rw [hbatch, hposition]
      exact hI.mem_batch k w hw
  | fetch i₀ p₀ hpolling hpart hown hle hbatch hpc hposition hcommitted hcounts hnext =>
    have hlt₀ : i₀ < s.log.length := Log.lt_of_partitionAt hpart
    refine ⟨hup, ?_, ?_, ?_, ?_, ?_⟩
    · rw [hcommitted, hlog]
      exact hI.committed_le
    · rw [hlog]
      refine forall_update_some hw' ?_ fun k' v _ hv => hI.bound k' v hv
      rw [hbatch]
      intro i hi
      rcases List.mem_append.mp hi with hi | hi
      · exact hI.bound k w hw i hi
      · rwa [List.mem_singleton.mp hi]
    · rw [hlog]
      refine forall_update_some hw' ?_ fun k' v _ hv => hI.ascending k' v hv
      rw [hbatch, List.pairwise_append]
      refine ⟨hI.ascending k w hw, List.pairwise_singleton .., ?_⟩
      intro i hi j hj heq
      obtain rfl := List.mem_singleton.mp hj
      -- What the owner holds of the partition lies before its position.
      have hlt := ((hI.mem_batch k w hw p₀ hown i (heq.trans hpart)).mp hi).2
      omega
    · rw [hlog, howner, hcommitted]
      refine forall_update_some hw' ?_ fun k' v _ hv => hI.position k' v hv
      intro p hp
      obtain ⟨hge, hlen⟩ := hI.position k w hw p hp
      rw [hposition, Function.update_apply]
      split
      · next hpp =>
        subst hpp
        omega
      · exact ⟨hge, hlen⟩
    · rw [hlog, howner, hcommitted]
      refine forall_update_some hw' ?_ fun k' v _ hv => hI.mem_batch k' v hv
      intro p hp i hi
      rw [hbatch, hposition]
      exact hI.mem_fetched hw hpart hle hnext hp hi
  | commit hbatch huncounted hposition hcommitted =>
    have hfence' := hfence hbatch
    -- The offsets of the other partitions stay, and those of its own move behind the batch.
    have hother : ∀ p, s.owner p ≠ some k → s'.committed p = s.committed p := fun p hp =>
      hcommitted ▸ commitRecords_of_foreign hfence' hp
    have hkept : ∀ {p k'}, k' ≠ k → s.owner p = some k' → s'.committed p = s.committed p :=
      fun hk hp => hother _ fun heq => hk (Option.some.inj (hp.symm.trans heq))
    have hnew : ∀ p, s.owner p = some k → s'.committed p ≤ w.position p ∧
        ∀ i, s.log.partitionAt i = some p → ¬ (s'.committed p ≤ i ∧ i < w.position p) :=
      fun p hp => hcommitted ▸ hI.commitRecords_own hw hp
    refine ⟨hup, ?_, ?_, ?_, ?_, ?_⟩
    · intro p
      rw [hlog]
      by_cases hp : s.owner p = some k
      · have hlen := (hI.position k w hw p hp).2
        have hle := (hnew p hp).1
        omega
      · rw [hother p hp]
        exact hI.committed_le p
    · rw [hlog]
      refine forall_update_some hw' ?_ fun k' v _ hv => hI.bound k' v hv
      rw [hbatch]
      exact fun i hi => absurd hi List.not_mem_nil
    · rw [hlog]
      refine forall_update_some hw' ?_ fun k' v _ hv => hI.ascending k' v hv
      rw [hbatch]
      exact .nil
    · rw [hlog, howner]
      refine forall_update_some hw' ?_ fun k' v hk hv p hp => ?_
      · rw [hposition]
        exact fun p hp => ⟨(hnew p hp).1, (hI.position k w hw p hp).2⟩
      · rw [hkept hk hp]
        exact hI.position k' v hv p hp
    · rw [hlog, howner]
      refine forall_update_some hw' ?_ fun k' v hk hv p hp i hi => ?_
      · rw [hbatch, hposition]
        exact fun p hp i hi => iff_of_false List.not_mem_nil ((hnew p hp).2 i hi)
      · rw [hkept hk hp]
        exact hI.mem_batch k' v hv p hp i hi

end

variable {d : Dialect} {maxPoll : ℕ} {s s' : State} {a : Label}

theorem custody_initial : Custody initial where
  up _ _ hp := nomatch hp
  committed_le _ := Nat.le_refl 0
  bound _ _ hw := nomatch hw
  ascending _ _ hw := nomatch hw
  position _ _ hw := nomatch hw
  mem_batch _ _ hw := nomatch hw

/-- The log of a run was as orderly before. -/
theorem colocated_of_step (h : step d maxPoll s a = some s') (hco : s'.log.Colocated) :
    s.log.Colocated := by
  rcases log_step h with hlog | ⟨r, -, hlog⟩
  · rwa [hlog] at hco
  · rw [hlog] at hco
    exact Log.colocated_of_snoc hco

/-- A batch is emptied only by a commit that the broker has, or it was empty before. -/
theorem Fenced.commits {k : GoString} {w w' : Worker} {b : Action} (hC : Fenced s (.worker k b))
    (hw : s.workers k = some w) (ha : Acts d maxPoll s k w b s') (hw' : s'.workers k = some w')
    (hnil : w'.batch = []) :
    ∀ i ∈ w.batch, ∀ p, s.log.partitionAt i = some p → s.owner p = some k := by
  intro i hi p hp
  rcases ha.batch hw' with heq | ⟨j, heq, -⟩ | ⟨hsettles, -⟩
  · rw [← heq, hnil] at hi
    cases hi
  · rw [hnil] at heq
    cases List.append_ne_nil_of_right_ne_nil _ (List.cons_ne_nil j []) heq.symm
  · cases b with
    | commit ok reached => exact hC hsettles w hw i hi p hp
    | _ => cases hsettles

/-- **Custody is kept by every fenced step.** -/
theorem custody_step (hI : Custody s) (hC : Fenced s a) (h : step d maxPoll s a = some s') :
    Custody s' := by
  cases a with
  | append r =>
    obtain rfl := step_append h
    have hlength : (s.log ++ [r]).length = s.log.length + 1 := List.length_append
    refine ⟨hI.up, fun p => ?_, fun k w hw i hi => ?_, fun k w hw => ?_, fun k w hw p hp => ?_,
      fun k w hw p hp i hi => ?_⟩
    · have hle := hI.committed_le p
      show s.committed p ≤ (s.log ++ [r]).length
      omega
    · have hlt := hI.bound k w hw i hi
      show i < (s.log ++ [r]).length
      omega
    · refine (hI.ascending k w hw).imp_of_mem ?_
      intro i j hi hj hlt heq
      rw [Log.partitionAt_snoc (hI.bound k w hw i hi),
          Log.partitionAt_snoc (hI.bound k w hw j hj)] at heq
      exact hlt heq
    · obtain ⟨hge, hle⟩ := hI.position k w hw p hp
      show s.committed p ≤ w.position p ∧ w.position p ≤ (s.log ++ [r]).length
      omega
    · have hle := (hI.position k w hw p hp).2
      by_cases hold : i < s.log.length
      · rw [Log.partitionAt_snoc hold] at hi
        exact hI.mem_batch k w hw p hp i hi
      · -- The new record is polled by nobody yet.
        refine iff_of_false (fun hmem => hold (hI.bound k w hw i hmem)) fun hrange => ?_
        have hlt := hrange.2
        omega
  | start k =>
    obtain ⟨hnone, rfl⟩ := step_start h
    -- A worker that has just started holds nothing, and owns nothing.
    have hidle : ∀ p, s.owner p ≠ some k := fun p hp => hI.up p k hp hnone
    refine ⟨fun p k' hp => update_some_ne_none fun _ => hI.up p k' hp, hI.committed_le,
        ?_, ?_, ?_, ?_⟩
    · refine forall_update_some rfl ?_ fun k' v _ hv => hI.bound k' v hv
      exact fun i hi => absurd hi List.not_mem_nil
    · refine forall_update_some rfl ?_ fun k' v _ hv => hI.ascending k' v hv
      exact .nil
    · refine forall_update_some rfl ?_ fun k' v _ hv => hI.position k' v hv
      exact fun p hp => absurd hp (hidle p)
    · refine forall_update_some rfl ?_ fun k' v _ hv => hI.mem_batch k' v hv
      exact fun p hp => absurd hp (hidle p)
  | stop k =>
    obtain rfl := step_stop h
    have howner : ∀ p k', (if s.owner p = some k then none else s.owner p) = some k' →
        s.owner p = some k' ∧ k' ≠ k := by
      intro p k' hp
      split at hp
      · cases hp
      · next hne => exact ⟨hp, fun heq => hne (heq ▸ hp)⟩
    refine ⟨?_, hI.committed_le, fun k' v hv => hI.bound k' v (of_update_none hv).2,
      fun k' v hv => hI.ascending k' v (of_update_none hv).2,
      fun k' v hv p hp => hI.position k' v (of_update_none hv).2 p (howner p k' hp).1,
      fun k' v hv p hp => hI.mem_batch k' v (of_update_none hv).2 p (howner p k' hp).1⟩
    intro p k' hp
    obtain ⟨hown, hne⟩ := howner p k' hp
    simp only [Function.update_of_ne hne]
    exact hI.up p k' hown
  | assign p₀ k =>
    obtain ⟨w, hw, -, rfl⟩ := step_assign h
    -- The new owner reads on from the committed offset, and holds nothing of the partition.
    have hfree : ∀ i ∈ w.batch, s.log.partitionAt i ≠ some p₀ := hC w hw
    have howner : ∀ {p k'}, Function.update s.owner p₀ (some k) p = some k' →
        (p = p₀ ∧ k' = k) ∨ (p ≠ p₀ ∧ s.owner p = some k') := by
      intro p k' hp
      rw [Function.update_apply] at hp
      split at hp
      · next hpp => exact Or.inl ⟨hpp, (Option.some.inj hp).symm⟩
      · next hpp => exact Or.inr ⟨hpp, hp⟩
    have hother : ∀ {p k'}, k' ≠ k → Function.update s.owner p₀ (some k) p = some k' →
        s.owner p = some k' := by
      intro p k' hk hp
      rcases howner hp with ⟨-, rfl⟩ | ⟨-, hp⟩
      · exact absurd rfl hk
      · exact hp
    refine ⟨?_, hI.committed_le, ?_, ?_, ?_, ?_⟩
    · exact fun p k' hp => update_some_ne_none fun hk => hI.up p k' (hother hk hp)
    · exact forall_update_some rfl (hI.bound k w hw) fun k' v _ hv => hI.bound k' v hv
    · exact forall_update_some rfl (hI.ascending k w hw) fun k' v _ hv => hI.ascending k' v hv
    · refine forall_update_some rfl ?_ fun k' v hk hv p hp => hI.position k' v hv p (hother hk hp)
      intro p hp
      simp only [Function.update_apply]
      rcases howner hp with ⟨rfl, -⟩ | ⟨hpp, hp⟩
      · rw [if_pos rfl]
        exact ⟨Nat.le_refl _, hI.committed_le p⟩
      · rw [if_neg hpp]
        exact hI.position k w hw p hp
    · refine forall_update_some rfl ?_ fun k' v hk hv p hp => hI.mem_batch k' v hv p (hother hk hp)
      intro p hp i hi
      simp only [Function.update_apply]
      rcases howner hp with ⟨rfl, -⟩ | ⟨hpp, hp⟩
      · rw [if_pos rfl]
        exact iff_of_false (fun hmem => hfree i hmem hi) fun hrange =>
          absurd hrange.2 (Nat.not_lt.mpr hrange.1)
      · rw [if_neg hpp]
        exact hI.mem_batch k w hw p hp i hi
  | worker k b =>
    obtain ⟨w, hw, ha⟩ := step_worker h
    obtain ⟨w', hupd, hhand⟩ := ha.hand_update
    exact hI.hand hw hupd ha.frame hhand
      (hC.commits hw ha (hupd ▸ Function.update_self ..))

/-! ### What is settled, and what is written -/

theorem wrote_deadLetters {log : Log} {batch todo : List ℕ}
    (h : (Pc.deadLetters log batch todo).wrote = true) : log.validRefs batch = [] := by
  unfold Pc.deadLetters at h
  split_ifs at h with htodo hvalid
  · exact hvalid
  · cases h
  · cases h

theorem validRefs_eq_nil {log : Log} {batch : List ℕ} (h : log.events batch = []) :
    log.validRefs batch = [] := by
  rw [Log.validRefs, List.filter_eq_nil_iff]
  intro i hi hvalid
  have hmem : i ∈ log.eventRefs batch :=
    List.mem_filter.mpr ⟨hi, Log.isSome_of_validAt hvalid⟩
  rw [Log.eventRefs_eq_nil h] at hmem
  cases hmem

theorem wrote_poisons {log : Log} {batch todo : List ℕ}
    (h : (Pc.poisons log batch todo).wrote = true) : log.validRefs batch = [] := by
  unfold Pc.poisons Pc.processBatch at h
  split_ifs at h with htodo hevents
  · exact validRefs_eq_nil hevents
  · exact wrote_deadLetters h
  · cases h

/-- **What an action does to the catalog**: it leaves the table alone, or it is a write of the
batch; and only a batch that is written goes on to its commit. -/
theorem Acts.landed {k : GoString} {w w' : Worker} {b : Action} (ha : Acts d maxPoll s k w b s')
    (hw' : s'.workers k = some w') :
    (s'.products = s.products ∧ (w'.pc.wrote = true → w'.batch = w.batch ∧
        (w.pc.wrote = true ∨ s.log.validRefs w.batch = []))) ∨
      (∃ lost giveUp, b = .write lost giveUp ∧ w'.batch = w.batch ∧
        Wrote d s w lost s'.products) := by
  cases ha with
  | fetch hpc =>
    obtain rfl := eq_of_update_some hw'
    refine Or.inl ⟨rfl, fun hwrote => ?_⟩
    rw [hpc] at hwrote
    cases hwrote
  | poll hpc =>
    -- The loop goes straight to the commit if the batch has no record to be written.
    obtain rfl := eq_of_update_some hw'
    exact Or.inl ⟨rfl, fun hwrote => ⟨rfl, Or.inr (wrote_poisons hwrote)⟩⟩
  | @republish i todo r hpc =>
    obtain rfl := eq_of_update_some hw'
    refine Or.inl ⟨rfl, fun hwrote => ⟨rfl, Or.inr ?_⟩⟩
    cases hr : r.isOk with
    | true => exact wrote_poisons (by rwa [hr] at hwrote)
    | false =>
      rw [hr] at hwrote
      cases hwrote
  | @deadLetter i todo r hpc =>
    obtain rfl := eq_of_update_some hw'
    refine Or.inl ⟨rfl, fun hwrote => ⟨rfl, Or.inr ?_⟩⟩
    cases hr : r.isOk with
    | true => exact wrote_deadLetters (by rwa [hr] at hwrote)
    | false =>
      rw [hr] at hwrote
      cases hwrote
  | write hpc hw =>
    obtain rfl := eq_of_update_some hw'
    exact Or.inr ⟨_, _, rfl, rfl, hw⟩
  | writeFail hpc hpc' ht =>
    obtain rfl := eq_of_update_some hw'
    rcases ht with rfl | hw
    · refine Or.inl ⟨rfl, fun hwrote => ?_⟩
      rcases hpc' with rfl | rfl <;> cases hwrote
    · -- The reply was lost: the table has the batch, the loop does not know it.
      exact Or.inr ⟨_, _, rfl, rfl, hw⟩
  | count hpc | flush hpc =>
    obtain rfl := eq_of_update_some hw'
    exact Or.inl ⟨rfl, fun _ => ⟨rfl, Or.inl (by rw [hpc]; rfl)⟩⟩
  | @drain f o =>
    obtain rfl := eq_of_update_some hw'
    refine Or.inl ⟨rfl, fun hwrote => ?_⟩
    have hdrain : (Pc.afterDrain o.next).wrote = false := by cases o.next <;> rfl
    rw [hdrain] at hwrote
    cases hwrote
  | commit hpc hpc' =>
    obtain rfl := eq_of_update_some hw'
    refine Or.inl ⟨rfl, fun hwrote => ?_⟩
    rcases hpc' with rfl | rfl <;> cases hwrote
  | signal | idle | tick | tickerFlush =>
    obtain rfl := eq_of_update_some hw'
    exact Or.inl ⟨rfl, fun hwrote => ⟨rfl, Or.inl hwrote⟩⟩
  | shutdown | countPoison | skipPoison | commitFail =>
    obtain rfl := eq_of_update_some hw'
    exact Or.inl ⟨rfl, fun hwrote => by cases hwrote⟩

/-- The worker's batch is written. -/
def Lands (d : Dialect) (s s' : State) (a : Label) (w : Worker) : Prop :=
  ∃ k lost giveUp, a = .worker k (.write lost giveUp) ∧ lost.all Prod.snd = true ∧
    s.workers k = some w ∧
    upsertBatch d s.products (accepted (s.log.events w.batch)) = .ok s'.products

theorem Log.mem_validRefs {log : Log} {batch : List ℕ} {i : ℕ} (hi : i ∈ batch)
    (h : (log.identityAt i).isSome = true) : i ∈ log.validRefs batch := by
  obtain ⟨k, hk⟩ := Option.isSome_iff_exists.mp h
  obtain ⟨p, hp, -⟩ := Log.identityAt_eq_some.mp hk
  exact List.mem_filter.mpr ⟨hi, Log.validAt_iff.mpr ⟨p, hp⟩⟩

/-- An event in the log is not settled by what comes after it. -/
theorem settled_of_append {j : ℕ} {r : Record} (hj : j < s.log.length)
    (h : State.Settled { s with log := s.log ++ [r] } j) : s.Settled j := by
  obtain ⟨p, hp, hsettled⟩ := h
  have hp' : Log.partitionAt (s.log ++ [r]) j = some p := hp
  rw [Log.partitionAt_snoc hj] at hp'
  exact ⟨p, hp', hsettled⟩

/-- **What becomes settled has been written**: a step settles no accepted event but those of a
batch that it writes. -/
theorem settled_step (hI : Custody s) (hC : Fenced s a) (h : step d maxPoll s a = some s') :
    (s'.products = s.products ∧
        ∀ j, (s.log.identityAt j).isSome = true → s'.Settled j → s.Settled j) ∨
      ∃ w, Lands d s s' a w ∧
        ∀ j, (s.log.identityAt j).isSome = true → s'.Settled j → s.Settled j ∨ j ∈ w.batch := by
  cases a with
  | append r =>
    obtain rfl := step_append h
    refine Or.inl ⟨rfl, fun j hj => ?_⟩
    obtain ⟨key, hkey⟩ := Option.isSome_iff_exists.mp hj
    exact settled_of_append (Log.lt_of_identityAt hkey)
  | start k =>
    obtain ⟨-, rfl⟩ := step_start h
    refine Or.inl ⟨rfl, fun j hj => ?_⟩
    rintro ⟨p, hp, hlt | ⟨k', hk', v, hv, hwrote, hmem⟩⟩
    · exact ⟨p, hp, Or.inl hlt⟩
    · simp only [State.put, Function.update_apply] at hv
      split at hv
      · obtain rfl := Option.some.inj hv
        cases hmem
      · exact ⟨p, hp, Or.inr ⟨k', hk', v, hv, hwrote, hmem⟩⟩
  | stop k =>
    obtain rfl := step_stop h
    refine Or.inl ⟨rfl, fun j hj => ?_⟩
    rintro ⟨p, hp, hlt | ⟨k', hk', v, hv, hwrote, hmem⟩⟩
    · exact ⟨p, hp, Or.inl hlt⟩
    · simp only [Function.update_apply, Option.mem_def] at hv hk'
      split at hv
      · cases hv
      · split at hk'
        · cases hk'
        · exact ⟨p, hp, Or.inr ⟨k', hk', v, hv, hwrote, hmem⟩⟩
  | assign p₀ k =>
    obtain ⟨w, hw, -, rfl⟩ := step_assign h
    refine Or.inl ⟨rfl, fun j hj => ?_⟩
    rintro ⟨p, hp, hlt | ⟨k', hk', v, hv, hwrote, hmem⟩⟩
    · exact ⟨p, hp, Or.inl hlt⟩
    · simp only [State.put, Function.update_apply, Option.mem_def] at hv hk'
      split at hk'
      · next hpp =>
        -- The new owner holds nothing of the partition.
        obtain rfl := Option.some.inj hk'
        rw [if_pos rfl] at hv
        obtain rfl := Option.some.inj hv
        exact absurd (hpp ▸ hp) (hC w hw j hmem)
      · split at hv
        · next hk =>
          subst hk
          obtain rfl := Option.some.inj hv
          exact ⟨p, hp, Or.inr ⟨k', hk', w, hw, hwrote, hmem⟩⟩
        · exact ⟨p, hp, Or.inr ⟨k', hk', v, hv, hwrote, hmem⟩⟩
  | worker k b =>
    obtain ⟨w, hw, ha⟩ := step_worker h
    obtain ⟨w', hw', hhand⟩ := ha.hand
    obtain ⟨hlog, howner, -⟩ := ha.frame
    -- What a commit puts behind the offset was written by its worker.
    have hcommitted : ∀ j p, s.log.partitionAt j = some p → j < s'.committed p → s.Settled j := by
      intro j p hp hlt
      cases hhand with
      | count new hbatch hposition hcommitted => exact ⟨p, hp, Or.inl (hcommitted ▸ hlt)⟩
      | fetch i₀ p₀ hpolling hpart hown hle hbatch hpc hposition hcommitted =>
        exact ⟨p, hp, Or.inl (hcommitted ▸ hlt)⟩
      | commit hbatch huncounted hposition hcommitted hcounts hpc =>
        rw [hcommitted] at hlt
        rcases commitRecords_cases s.committed (s.log.offsets w.batch) p with ⟨heq, -⟩ |
          ⟨o, hmem, heq, -⟩
        · exact ⟨p, hp, Or.inl (heq ▸ hlt)⟩
        · obtain ⟨ho, hpart⟩ := Log.mem_offsets.mp hmem
          have hown := hC.commits hw ha hw' hbatch o ho p hpart
          have hrange := (hI.mem_batch k w hw p hown o hpart).mp ho
          by_cases hbelow : j < s.committed p
          · exact ⟨p, hp, Or.inl hbelow⟩
          · have hj : j ∈ w.batch := (hI.mem_batch k w hw p hown j hp).mpr (by omega)
            exact ⟨p, hp, Or.inr ⟨k, hown, w, hw, by rw [hpc]; rfl, hj⟩⟩
    have hothers : ∀ j, s'.Settled j → s.Settled j ∨
        ∃ p ∈ s.log.partitionAt j, s.owner p = some k ∧ w'.pc.wrote = true ∧ j ∈ w'.batch := by
      rintro j ⟨p, hp, hlt | ⟨k', hk', v, hv, hwrote, hmem⟩⟩
      · exact Or.inl (hcommitted j p (hlog ▸ hp) hlt)
      · by_cases hk : k' = k
        · subst hk
          obtain rfl : w' = v := Option.some.inj (hw'.symm.trans hv)
          exact Or.inr ⟨p, hlog ▸ hp, howner ▸ hk', hwrote, hmem⟩
        · rw [ha.workers_of_ne hk] at hv
          exact Or.inl ⟨p, hlog ▸ hp, Or.inr ⟨k', howner ▸ hk', v, hv, hwrote, hmem⟩⟩
    rcases ha.landed hw' with ⟨hproducts, hgo⟩ | ⟨lost, giveUp, rfl, hbatch, hlost, hup⟩
    · refine Or.inl ⟨hproducts, fun j hj hsettled => ?_⟩
      rcases hothers j hsettled with hold | ⟨p, hp, hown, hwrote, hmem⟩
      · exact hold
      · obtain ⟨hbatch, hbefore | hnil⟩ := hgo hwrote
        · exact ⟨p, hp, Or.inr ⟨k, hown, w, hw, hbefore, hbatch ▸ hmem⟩⟩
        · -- A batch that skips the write has nothing to be written.
          have hvalid := Log.mem_validRefs (hbatch ▸ hmem) hj
          rw [hnil] at hvalid
          cases hvalid
    · refine Or.inr ⟨w, ⟨k, lost, giveUp, rfl, hlost, hw, hup⟩, fun j hj hsettled => ?_⟩
      rcases hothers j hsettled with hold | ⟨p, hp, -, -, hmem⟩
      · exact Or.inl hold
      · exact Or.inr (hbatch ▸ hmem)

/-! ### The rows -/

/-- The row that `products` keeps of a product. -/
def Product.row (d : Dialect) (p : Product) : Stored Unit :=
  stored d productsSchema (tupleOfProduct p)

/-- The database takes the product in a statement of its own. -/
def Product.Writes (d : Dialect) (p : Product) : Prop :=
  Writable d productsSchema [tupleOfProduct p]

/-- The row of an identity is that of an event which no settled event supersedes, and there is
none only as long as no event of the identity is settled. -/
def RowOf (d : Dialect) (s : State) (key : GoString × GoString) : Prop :=
  (s.products key = none ∧ ∀ j, s.log.identityAt j = some key → ¬ s.Settled j) ∨
    ∃ i p, s.log.productAt i = some p ∧ p.key = key ∧ s.products key = some (p.row d) ∧
      p.Writes d ∧ ∀ j, s.log.Supersedes j i → ¬ s.Settled j

/-- A row stays right while the table is left alone and nothing of its identity is settled. -/
theorem RowOf.keep {key : GoString × GoString} (h : RowOf d s key) (hlog : s'.log = s.log)
    (hproducts : s'.products key = s.products key)
    (hsettled : ∀ j, s.log.identityAt j = some key → s'.Settled j → s.Settled j) :
    RowOf d s' key := by
  unfold RowOf
  rw [hlog, hproducts]
  rcases h with ⟨hnone, hopen⟩ | ⟨i, p, hi, hkey, hrow, hwrites, hopen⟩
  · exact Or.inl ⟨hnone, fun j hj hs => hopen j hj (hsettled j hj hs)⟩
  · refine Or.inr ⟨i, p, hi, hkey, hrow, hwrites, fun j hj hs => hopen j hj (hsettled j ?_ hs)⟩
    exact hj.2.2.trans (Log.identityAt_eq_some.mpr ⟨p, hi, hkey⟩)

/-- A new record is not settled. -/
theorem not_settled_new (hI : Custody s) (r : Record) :
    ¬ State.Settled { s with log := s.log ++ [r] } s.log.length := by
  rintro ⟨p, hp, hlt | ⟨k, hk, w, hw, hwrote, hmem⟩⟩
  · have hle := hI.committed_le p
    exact absurd hlt (Nat.not_lt.mpr hle)
  · exact absurd (hI.bound k w hw _ hmem) (Nat.lt_irrefl _)

/-- **What a batch leaves in the row of an identity** is its last event of the identity, which
the database takes alone as well. -/
theorem row_of_upsertBatch {log : Log} {batch : List ℕ} {t t' : Table Unit}
    (key : GoString × GoString) (h : upsertBatch d t (accepted (log.events batch)) = .ok t') :
    (t' key = t key ∧ ∀ i ∈ batch, log.identityAt i ≠ some key) ∨
      ∃ b₁ i b₂ p, batch = b₁ ++ i :: b₂ ∧ log.productAt i = some p ∧ p.key = key ∧
        (∀ j ∈ b₂, log.identityAt j ≠ some key) ∧ t' key = some (p.row d) ∧ p.Writes d := by
  rw [Log.accepted_events] at h
  obtain ⟨⟨htexts, htakes⟩, rfl⟩ := upsert_eq_ok_iff.mp (Checks.mapError_eq_ok_iff.mp h)
  by_cases hkey : ∃ i ∈ batch, log.identityAt i = some key
  · right
    obtain ⟨b₁, i, b₂, rfl, hi, hlast⟩ := exists_last hkey
    obtain ⟨p, hp, rfl⟩ := Log.identityAt_eq_some.mp hi
    have hrows : (List.filterMap log.productAt (b₁ ++ i :: b₂)).map tupleOfProduct =
        (b₁.filterMap log.productAt).map tupleOfProduct ++
          tupleOfProduct p :: (b₂.filterMap log.productAt).map tupleOfProduct := by
      rw [List.filterMap_append, List.filterMap_cons_some hp, List.map_append, List.map_cons]
    have hlater : ∀ q ∈ (b₂.filterMap log.productAt).map tupleOfProduct,
        q.key ≠ (tupleOfProduct p).key := by
      intro q hq heq
      obtain ⟨p', hp', rfl⟩ := List.mem_map.mp hq
      obtain ⟨j, hj, hjp⟩ := List.mem_filterMap.mp hp'
      exact hlast j hj (Log.identityAt_eq_some.mpr ⟨p', hjp, heq⟩)
    rw [hrows] at htexts htakes ⊢
    refine ⟨b₁, i, b₂, p, rfl, hp, rfl, hlast, putAll_of_last hlater t, ?_⟩
    refine writable_singleton.mpr ⟨htexts _ (by simp), htakes _ ?_⟩
    exact mem_lastPerKey_iff.mpr ⟨_, _, rfl, hlater⟩
  · left
    have hnone : ∀ i ∈ batch, log.identityAt i ≠ some key := fun i hi heq => hkey ⟨i, hi, heq⟩
    refine ⟨putAll_of_forall_ne ?_ t, hnone⟩
    intro q hq heq
    obtain ⟨p, hp, rfl⟩ := List.mem_map.mp hq
    obtain ⟨i, hi, hip⟩ := List.mem_filterMap.mp hp
    exact hnone i hi (Log.identityAt_eq_some.mpr ⟨p, hip, heq⟩)

/-- **No row falls behind the settled events** while no stale batch is written. -/
theorem rows_step (hR : ∀ key, RowOf d s key) (hI : Custody s) (hF : Fenced s a) (hT : Timely s a)
    (hco : s.log.Colocated) (h : step d maxPoll s a = some s') : ∀ key, RowOf d s' key := by
  intro key
  have hcases := settled_step hI hF h
  rcases log_step h with hlog | ⟨r, rfl, -⟩
  · rcases hcases with ⟨hproducts, hsettled⟩ | ⟨w, ⟨k, lost, giveUp, rfl, hlost, hw, hup⟩, hsettled⟩
    · refine (hR key).keep hlog (by rw [hproducts]) fun j hj => hsettled j ?_
      rw [hj]
      rfl
    · have hcases := row_of_upsertBatch key hup
      rcases hcases with ⟨hrow, hnone⟩ | ⟨b₁, i, b₂, p, hbatch, hp, rfl, hlast, hrow, hwrites⟩
      · refine (hR key).keep hlog hrow fun j hj hs => ?_
        rcases hsettled j (by rw [hj]; rfl) hs with hold | hmem
        · exact hold
        · exact absurd hj (hnone j hmem)
      · have hi : s.log.identityAt i = some p.key := Log.identityAt_eq_some.mpr ⟨p, hp, rfl⟩
        have himem : i ∈ w.batch := by
          rw [hbatch]
          exact List.mem_append_right _ List.mem_cons_self
        -- The batch holds nothing of the identity behind its last event.
        have hfresh : ∀ j ∈ w.batch, ¬ s.log.Supersedes j i := by
          rintro j hj ⟨hlt, halike⟩
          have hid : s.log.identityAt j = some p.key := halike.2.trans hi
          have hpart : s.log.partitionAt j = s.log.partitionAt i :=
            hco i (Log.lt_of_identityAt hi) j halike.lt halike
          have hasc := hI.ascending k w hw
          rw [hbatch] at hj hasc
          rcases List.mem_append.mp hj with hj | hj
          · exact absurd hlt (Nat.lt_asymm
                ((List.pairwise_append.mp hasc).2.2 j hj i List.mem_cons_self hpart))
          · rcases List.mem_cons.mp hj with rfl | hj
            · exact Nat.lt_irrefl _ hlt
            · exact hlast j hj hid
        unfold RowOf
        rw [hlog]
        refine Or.inr ⟨i, p, hp, rfl, hrow, hwrites, fun j hj hs => ?_⟩
        have hid : (s.log.identityAt j).isSome = true := by
          rw [hj.2.2, hi]
          rfl
        rcases hsettled j hid hs with hold | hmem
        · exact hT hlost w hw ⟨i, himem, hfresh, j, hj.2.lt, hj, hold⟩
        · exact hfresh j hmem hj
  · obtain rfl := step_append h
    have hnew := not_settled_new hI r
    have hlength : (s.log ++ [r]).length = s.log.length + 1 := List.length_append
    rcases hR key with ⟨hnone, hopen⟩ | ⟨i, p, hi, hkey, hrow, hwrites, hopen⟩
    · refine Or.inl ⟨hnone, fun j hj hs => ?_⟩
      have hlt : j < (s.log ++ [r]).length := Log.lt_of_identityAt hj
      by_cases hj' : j < s.log.length
      · have hj'' : Log.identityAt (s.log ++ [r]) j = some key := hj
        rw [Log.identityAt_snoc hj'] at hj''
        exact hopen j hj'' (settled_of_append hj' hs)
      · obtain rfl : j = s.log.length := by omega
        exact hnew hs
    · have hilt : i < s.log.length :=
        Log.lt_of_identityAt (Log.identityAt_eq_some.mpr ⟨p, hi, rfl⟩)
      refine Or.inr ⟨i, p, ?_, hkey, hrow, hwrites, fun j hj hs => ?_⟩
      · show Log.productAt (s.log ++ [r]) i = some p
        rw [Log.productAt_snoc hilt, hi]
      · have hlt : j < (s.log ++ [r]).length := hj.2.lt
        by_cases hj' : j < s.log.length
        · exact hopen j ⟨hj.1, (Log.alike_snoc hilt hj' r).mp hj.2⟩ (settled_of_append hj' hs)
        · obtain rfl : j = s.log.length := by omega
          exact hnew hs

end CsvProductUploader.Catalog

import CsvProductUploader.ImportJob.JobStore
import CsvProductUploader.Kafka.Consumer
import CsvProductUploader.Lib.Runs

/-!
# The progress tracker

`ProgressTracker.Run` polls the progress topic, folds each snapshot into the job
store and commits the records that are settled.  A record whose fold failed is left
out of the commit; but a commit names one offset per partition, and that offset
passes over every earlier record.

The topic is a function from partition and offset to the value of the record, and
`unmarshal` is what `json.Unmarshal` makes of a value.

## Main definitions

* `Reply`, `Pc`, `State`, `Label`, `step` — the machine.
* `Answered` — the record asks nothing of the store, or the store has answered it.
* `Safe` — every record below a committed offset is answered.
* `NoGap` — no commit names a record behind one whose fold failed.

## Main results

* `failed_fold_committed` — a failed fold is passed over by the next commit.
* `safe_iff_noGap` — **commit-after-fold holds exactly in the runs without such a
  commit**.
* `folded_of_ok` — a fold the store has confirmed stays in the job's ledger.
-/

namespace CsvProductUploader

namespace Tracker

open Runs

/-! ### The machine -/

/-- Partition and offset of a record. -/
abbrev Pos := ℕ × ℕ

/-- How `ApplyProgress` returns. -/
inductive Reply
  | ok
  | notFound
  /-- An error, after none, one or both of the two statements were executed. -/
  | failed (executed : ℕ)
  deriving DecidableEq, Repr

/-- Whether `apply` takes the record for settled. -/
def Reply.settles : Reply → Bool
  | .ok | .notFound => true
  | .failed _ => false

/-- Where `Run` stands. -/
inductive Pc
  /-- In `Poll`, with the records gathered so far. -/
  | polling (batch : List Pos)
  /-- In the loop over the records, with those settled and those to come. -/
  | applying (applied todo : List Pos)
  /-- At `CommitRecords`. -/
  | committing (applied : List Pos)
  | returned
  deriving DecidableEq, Repr

structure State where
  /-- The next offset to fetch, by partition. -/
  position : ℕ → ℕ
  /-- The committed offset, by partition. -/
  committed : ℕ → ℕ
  store : JobStore
  pc : Pc
  /-- Every answer of `ApplyProgress`. -/
  replies : List (Pos × Reply)
  /-- The records this run of the tracker has failed to fold. -/
  failed : List Pos

inductive Label
  /-- The client hands out the next record of a partition. -/
  | fetch (r : Pos)
  /-- `Poll` returns. -/
  | poll
  /-- `apply` on the next record, with the reply of the store if it is asked. -/
  | apply (reply : Reply)
  /-- `CommitRecords` returns, having reached the broker or not. -/
  | commit (ok reached : Bool)
  /-- The context is done at the head of the loop. -/
  | cancel
  /-- The importer is replaced: a new tracker reads from the committed offsets. -/
  | restart
  deriving DecidableEq, Repr

def initial : State :=
  ⟨fun _ => 0, fun _ => 0, .initial, .polling [], [], []⟩

/-- After the loop over the records: commit if there is anything to commit. -/
def afterLoop (applied : List Pos) : Pc :=
  if applied = [] then .polling [] else .committing applied

/-- The loop over the records, with `todo` still to come. -/
def loop (applied : List Pos) : List Pos → Pc
  | [] => afterLoop applied
  | r :: todo => .applying applied (r :: todo)

/-- The job store after `ApplyProgress`. -/
def storeAfter (store : JobStore) (evt : ImportProgress) : Reply → JobStore
  | .ok => store.applyProgress evt
  | .notFound => store
  | .failed 0 => store
  | .failed 1 => store.upsertWorkerRow evt
  | .failed _ => store.applyProgress evt

section

variable (log : ℕ → ℕ → Option GoString) (unmarshal : GoString → Option ImportProgress)

/-- The snapshot a record asks the store to fold: none if its value does not
decode or names a foreign job id. -/
def request (r : Pos) : Option ImportProgress :=
  ((log r.1 r.2).bind unmarshal).filter fun evt => isUUID evt.jobID

def step (s : State) : Label → Option State
  | .fetch r =>
    match s.pc with
    | .polling batch =>
      if s.position r.1 ≤ r.2 ∧ log r.1 r.2 ≠ none ∧
          ∀ o < r.2, s.position r.1 ≤ o → log r.1 o = none then
        some { s with position := Function.update s.position r.1 (r.2 + 1),
                      pc := .polling (batch ++ [r]) }
      else none
    | _ => none
  | .poll =>
    match s.pc with
    | .polling batch => some { s with pc := if batch = [] then .polling [] else loop [] batch }
    | _ => none
  | .apply reply =>
    match s.pc with
    | .applying applied (r :: todo) =>
      match request log unmarshal r with
      | none => some { s with pc := loop (applied ++ [r]) todo }
      | some evt =>
        some { s with store := storeAfter s.store evt reply
                      replies := (r, reply) :: s.replies
                      failed := if reply.settles then s.failed else r :: s.failed
                      pc := loop (if reply.settles then applied ++ [r] else applied) todo }
    | _ => none
  | .commit ok reached =>
    match s.pc with
    | .committing applied =>
      if ok && !reached then none
      else some { s with committed := if reached then commitRecords s.committed applied
                                      else s.committed
                         pc := if ok then .polling [] else .returned }
    | _ => none
  | .cancel =>
    match s.pc with
    | .polling [] => some { s with pc := .returned }
    | _ => none
  | .restart => some { s with position := s.committed, pc := .polling [], failed := [] }

/-- The record asks nothing of the store, or the store has folded its snapshot or
answered `ErrNotFound`. -/
def Answered (s : State) (r : Pos) : Prop :=
  request log unmarshal r = none ∨ ∃ reply, reply.settles = true ∧ (r, reply) ∈ s.replies

/-- Every record below the committed offset of its partition is answered. -/
def Safe (s : State) : Prop :=
  ∀ r : Pos, log r.1 r.2 ≠ none → r.2 < s.committed r.1 → Answered log unmarshal s r

/-- No commit reaches the broker that names a record behind one of the same
partition whose fold has failed since the tracker started, and which was never
folded before. -/
def NoGap (s : State) : Label → Prop
  | .commit _ reached => reached = true → ∀ applied, s.pc = .committing applied →
      ∀ r ∈ applied, ∀ q ∈ s.failed, q.1 = r.1 → q.2 < r.2 → Answered log unmarshal s q
  | _ => True

variable {log unmarshal}

/-! ### What one step does -/

theorem step_fetch {s s' : State} {r : Pos} (h : step log unmarshal s (.fetch r) = some s') :
    ∃ batch, s.pc = .polling batch ∧ s.position r.1 ≤ r.2 ∧ log r.1 r.2 ≠ none ∧
      (∀ o < r.2, s.position r.1 ≤ o → log r.1 o = none) ∧
      s' = { s with position := Function.update s.position r.1 (r.2 + 1),
                    pc := .polling (batch ++ [r]) } := by
  simp only [step] at h
  split at h
  · next batch hpc =>
    split at h
    · next hr => exact ⟨batch, hpc, hr.1, hr.2.1, hr.2.2, (Option.some.inj h).symm⟩
    · cases h
  · cases h

theorem step_poll {s s' : State} (h : step log unmarshal s .poll = some s') :
    ∃ batch, s.pc = .polling batch ∧
      s' = { s with pc := if batch = [] then .polling [] else loop [] batch } := by
  simp only [step] at h
  split at h
  · next batch hpc => exact ⟨batch, hpc, (Option.some.inj h).symm⟩
  · cases h

theorem step_apply {s s' : State} {reply : Reply}
    (h : step log unmarshal s (.apply reply) = some s') :
    ∃ applied r todo, s.pc = .applying applied (r :: todo) ∧
      ((request log unmarshal r = none ∧ s' = { s with pc := loop (applied ++ [r]) todo }) ∨
        ∃ evt, request log unmarshal r = some evt ∧
          s' = { s with store := storeAfter s.store evt reply
                        replies := (r, reply) :: s.replies
                        failed := if reply.settles then s.failed else r :: s.failed
                        pc := loop (if reply.settles then applied ++ [r] else applied) todo }) := by
  simp only [step] at h
  split at h
  · next applied r todo hpc =>
    refine ⟨applied, r, todo, hpc, ?_⟩
    split at h
    · next hnone => exact Or.inl ⟨hnone, (Option.some.inj h).symm⟩
    · next evt hevt => exact Or.inr ⟨evt, hevt, (Option.some.inj h).symm⟩
  · cases h

theorem step_commit {s s' : State} {ok reached : Bool}
    (h : step log unmarshal s (.commit ok reached) = some s') :
    ∃ applied, s.pc = .committing applied ∧
      s' = { s with committed := if reached then commitRecords s.committed applied
                                 else s.committed
                    pc := if ok then .polling [] else .returned } := by
  simp only [step] at h
  split at h
  · next applied hpc =>
    split at h
    · cases h
    · exact ⟨applied, hpc, (Option.some.inj h).symm⟩
  · cases h

theorem step_cancel {s s' : State} (h : step log unmarshal s .cancel = some s') :
    s.pc = .polling [] ∧ s' = { s with pc := .returned } := by
  simp only [step] at h
  split at h
  · next hpc => exact ⟨hpc, (Option.some.inj h).symm⟩
  · cases h

/-! ### Where the fetched records are -/

/-- The records still to be adjudicated. -/
def Pc.pending : Pc → List Pos
  | .polling batch => batch
  | .applying _ todo => todo
  | .committing _ | .returned => []

/-- The records taken for settled and not committed yet. -/
def Pc.applied : Pc → List Pos
  | .polling _ | .returned => []
  | .applying applied _ => applied
  | .committing applied => applied

@[simp] theorem pending_loop (applied todo : List Pos) : (loop applied todo).pending = todo := by
  cases todo with
  | nil =>
    simp only [loop, afterLoop]
    split <;> rfl
  | cons r todo => rfl

@[simp] theorem applied_loop (applied todo : List Pos) :
    (loop applied todo).applied = applied := by
  cases todo with
  | nil =>
    simp only [loop, afterLoop]
    split
    · next h => exact h.symm
    · rfl
  | cons r todo => rfl

variable (log unmarshal) in
/-- The books of the tracker. -/
structure Inv (s : State) : Prop where
  /-- Fetching never falls behind the committed offsets. -/
  ahead : ∀ p, s.committed p ≤ s.position p
  /-- The records in hand exist and lie between the committed offsets and the
  positions. -/
  fetched : ∀ r, r ∈ s.pc.pending ∨ r ∈ s.pc.applied →
    log r.1 r.2 ≠ none ∧ s.committed r.1 ≤ r.2 ∧ r.2 < s.position r.1
  /-- What is about to be committed is answered. -/
  applied : ∀ r ∈ s.pc.applied, Answered log unmarshal s r
  /-- A fetched record that is not committed is pending, answered or failed. -/
  covered : ∀ r : Pos, log r.1 r.2 ≠ none → s.committed r.1 ≤ r.2 → r.2 < s.position r.1 →
    r ∈ s.pc.pending ∨ Answered log unmarshal s r ∨ r ∈ s.failed
  exists_failed : ∀ r ∈ s.failed, log r.1 r.2 ≠ none

/-- Answers are not taken back. -/
theorem Answered.mono {s s' : State} {r : Pos} (h : Answered log unmarshal s r)
    (hreplies : ∀ x ∈ s.replies, x ∈ s'.replies) : Answered log unmarshal s' r := by
  rcases h with hnone | ⟨reply, hset, hmem⟩
  · exact Or.inl hnone
  · exact Or.inr ⟨reply, hset, hreplies _ hmem⟩

theorem inv_initial : Inv log unmarshal initial where
  ahead := fun _ => Nat.le_refl _
  fetched := by intro r hr; rcases hr with hr | hr <;> cases hr
  applied := by intro r hr; cases hr
  covered := by intro r _ _ hr; exact absurd hr (Nat.not_lt_zero _)
  exists_failed := by intro r hr; cases hr

theorem inv_fetch {s s' : State} {r : Pos} (hI : Inv log unmarshal s)
    (h : step log unmarshal s (.fetch r) = some s') : Inv log unmarshal s' := by
  obtain ⟨batch, hpc, hpos, hlog, hgap, rfl⟩ := step_fetch h
  have hmono : ∀ q : Pos, q.2 < s.position q.1 →
      q.2 < Function.update s.position r.1 (r.2 + 1) q.1 := by
    intro q hq
    rw [Function.update_apply]
    split
    · next hp => rw [hp] at hq; omega
    · exact hq
  refine ⟨?_, ?_, ?_, ?_, hI.exists_failed⟩
  · intro p
    have hle := hI.ahead p
    simp only [Function.update_apply]
    split
    · next hp => subst hp; omega
    · exact hle
  · intro q hq
    simp only [Pc.pending, Pc.applied, List.mem_append, List.mem_singleton, List.not_mem_nil,
      or_false] at hq
    rcases hq with hq | rfl
    · obtain ⟨hex, hle, hlt⟩ := hI.fetched q (Or.inl (by rw [hpc]; exact hq))
      exact ⟨hex, hle, hmono q hlt⟩
    · have hle := hI.ahead q.1
      refine ⟨hlog, by dsimp only; omega, ?_⟩
      simp only [Function.update_self]
      omega
  · intro q hq
    cases hq
  · intro q hq hle hlt
    by_cases hold : q.2 < s.position q.1
    · rcases hI.covered q hq hle hold with hpend | hans | hfail
      · rw [hpc] at hpend
        exact Or.inl (by simp [Pc.pending] at hpend ⊢; exact Or.inl hpend)
      · exact Or.inr (Or.inl (hans.mono fun _ hx => hx))
      · exact Or.inr (Or.inr hfail)
    · -- past the old position there is nothing before the fetched record
      have hp : q.1 = r.1 := by
        by_contra hne
        simp only [Function.update_of_ne hne] at hlt
        exact hold hlt
      simp only [hp, Function.update_self] at hlt
      have hq2 : q.2 = r.2 := by
        by_contra hne
        refine hq ?_
        rw [hp]
        exact hgap q.2 (by omega) (by rw [← hp]; omega)
      exact Or.inl (by simp [Pc.pending, Prod.ext hp hq2])

theorem inv_apply {s s' : State} {reply : Reply} (hI : Inv log unmarshal s)
    (h : step log unmarshal s (.apply reply) = some s') : Inv log unmarshal s' := by
  obtain ⟨applied, r, todo, hpc, hcase⟩ := step_apply h
  -- what holds of the record at hand, however it is adjudicated
  have hkey : ∀ t : State, t.position = s.position → t.committed = s.committed →
      (∀ x ∈ s.replies, x ∈ t.replies) → (∀ q ∈ s.failed, q ∈ t.failed) →
      (∀ q ∈ t.failed, q ∈ s.failed ∨ q = r) → t.pc.pending = todo →
      (∀ q ∈ t.pc.applied, q ∈ applied ∨ (q = r ∧ Answered log unmarshal t r)) →
      (Answered log unmarshal t r ∨ r ∈ t.failed) → Inv log unmarshal t := by
    intro t hpos hcom hrep hfail hfail' hpend happ hr
    refine ⟨by rw [hpos, hcom]; exact hI.ahead, ?_, ?_, ?_, ?_⟩
    · intro q hq
      rw [hpos, hcom]
      refine hI.fetched q ?_
      rw [hpc]
      rcases hq with hq | hq
      · rw [hpend] at hq
        exact Or.inl (List.mem_cons_of_mem _ hq)
      · rcases happ q hq with hq | ⟨rfl, -⟩
        · exact Or.inr hq
        · exact Or.inl (List.mem_cons_self ..)
    · intro q hq
      rcases happ q hq with hq | ⟨rfl, hans⟩
      · exact (hI.applied q (by rw [hpc]; exact hq)).mono hrep
      · exact hans
    · intro q hq hle hlt
      rw [hcom] at hle
      rw [hpos] at hlt
      rw [hpend]
      rcases hI.covered q hq hle hlt with hq' | hans | hfailed
      · rw [hpc] at hq'
        rcases List.mem_cons.mp hq' with rfl | hq'
        · exact Or.inr hr
        · exact Or.inl hq'
      · exact Or.inr (Or.inl (hans.mono hrep))
      · exact Or.inr (Or.inr (hfail q hfailed))
    · intro q hq
      rcases hfail' q hq with hq | rfl
      · exact hI.exists_failed q hq
      · exact (hI.fetched q (Or.inl (by rw [hpc]; exact List.mem_cons_self ..))).1
  rcases hcase with ⟨hnone, rfl⟩ | ⟨evt, hevt, rfl⟩
  · refine hkey _ rfl rfl (fun _ hx => hx) (fun _ hq => hq) (fun _ hq => Or.inl hq) (by simp) ?_
      (Or.inl (Or.inl hnone))
    intro q hq
    simp only [applied_loop, List.mem_append, List.mem_singleton] at hq
    exact hq.imp_right fun hq => ⟨hq, Or.inl hnone⟩
  · cases hset : reply.settles with
    | true =>
      have hans : ∀ t : State, t.replies = (r, reply) :: s.replies → Answered log unmarshal t r :=
        fun t ht => Or.inr ⟨reply, hset, by rw [ht]; exact List.mem_cons_self ..⟩
      refine hkey _ rfl rfl (fun _ hx => List.mem_cons_of_mem _ hx) (fun _ hq => hq)
        (fun _ hq => Or.inl hq) (by simp) ?_ (Or.inl (hans _ rfl))
      intro q hq
      simp only [if_true, applied_loop, List.mem_append, List.mem_singleton] at hq
      exact hq.imp_right fun hq => ⟨hq, hans _ rfl⟩
    | false =>
      refine hkey _ rfl rfl (fun _ hx => List.mem_cons_of_mem _ hx)
        (fun _ hq => List.mem_cons_of_mem _ hq) (fun q hq => (List.mem_cons.mp hq).symm)
        (by simp) ?_ (Or.inr (List.mem_cons_self ..))
      intro q hq
      simp only [Bool.false_eq_true, if_false, applied_loop] at hq
      exact Or.inl hq

theorem inv_commit {s s' : State} {ok reached : Bool} (hI : Inv log unmarshal s)
    (h : step log unmarshal s (.commit ok reached) = some s') : Inv log unmarshal s' := by
  obtain ⟨applied, hpc, rfl⟩ := step_commit h
  have hpend : ∀ r : Pos, r ∉ (if ok then Pc.polling [] else Pc.returned).pending := by
    cases ok <;> simp [Pc.pending]
  have happ : ∀ r : Pos, r ∉ (if ok then Pc.polling [] else Pc.returned).applied := by
    cases ok <;> simp [Pc.applied]
  -- A commit never lowers an offset: what it names was fetched behind it.
  have hraise : ∀ p, s.committed p ≤ (if reached then commitRecords s.committed applied
      else s.committed) p := by
    intro p
    cases reached with
    | false => exact Nat.le_refl _
    | true =>
      refine le_commitRecords (fun r hr => ?_) p
      exact (hI.fetched r (Or.inr (by rw [hpc]; exact hr))).2.1
  refine ⟨?_, ?_, fun r hr => absurd hr (happ r), ?_, hI.exists_failed⟩
  · intro p
    have hle := hI.ahead p
    cases reached with
    | false => exact hle
    | true =>
      simp only [if_true]
      exact commitRecords_le hle fun o hmem =>
        (hI.fetched (p, o) (Or.inr (by rw [hpc]; exact hmem))).2.2
  · intro r hr
    rcases hr with hr | hr
    · exact absurd hr (hpend r)
    · exact absurd hr (happ r)
  · intro r hr hle hlt
    have hle₀ := hraise r.1
    dsimp only at hle
    rcases hI.covered r hr (by omega) hlt with hq | hans | hfail
    · rw [hpc] at hq
      cases hq
    · exact Or.inr (Or.inl (hans.mono fun _ hx => hx))
    · exact Or.inr (Or.inr hfail)

theorem inv_step {s s' : State} {a : Label} (hI : Inv log unmarshal s)
    (h : step log unmarshal s a = some s') : Inv log unmarshal s' := by
  -- Fetching, applying and committing are the lemmas above; the rest moves no record.
  cases a with
  | fetch r => exact inv_fetch hI h
  | poll =>
    obtain ⟨batch, hpc, rfl⟩ := step_poll h
    have hpend : (if batch = [] then Pc.polling [] else loop [] batch).pending = batch := by
      split
      · next hb => rw [hb]; rfl
      · rw [pending_loop]
    have happ : (if batch = [] then Pc.polling [] else loop [] batch).applied = [] := by
      split
      · rfl
      · rw [applied_loop]
    refine ⟨hI.ahead, ?_, ?_, ?_, hI.exists_failed⟩
    · intro r hr
      simp only [hpend, happ, List.not_mem_nil, or_false] at hr
      exact hI.fetched r (Or.inl (by rw [hpc]; exact hr))
    · intro r hr
      simp only [happ] at hr
      cases hr
    · intro r hr hle hlt
      simp only [hpend]
      have hcov := hI.covered r hr hle hlt
      rw [hpc] at hcov
      exact hcov
  | apply reply => exact inv_apply hI h
  | commit ok reached => exact inv_commit hI h
  | cancel =>
    obtain ⟨hpc, rfl⟩ := step_cancel h
    refine ⟨hI.ahead, ?_, ?_, ?_, hI.exists_failed⟩
    · intro r hr
      rcases hr with hr | hr <;> cases hr
    · intro r hr
      cases hr
    · intro r hr hle hlt
      have hcov := hI.covered r hr hle hlt
      rw [hpc] at hcov
      exact hcov
  | restart =>
    cases h
    refine ⟨fun _ => Nat.le_refl _, ?_, ?_, ?_, ?_⟩
    · intro r hr
      rcases hr with hr | hr <;> cases hr
    · intro r hr
      cases hr
    · intro r _ hle hlt
      exact absurd hlt (Nat.not_lt.mpr hle)
    · intro r hr
      cases hr

theorem inv_of_run {s : State} {as : List Label}
    (h : exec (step log unmarshal) initial as = some s) : Inv log unmarshal s :=
  exec_invariant (fun _ _ _ hI hs => inv_step hI hs) inv_initial h

/-! ### Commit-after-fold -/

/-- No step takes an answer back. -/
theorem replies_step {s s' : State} {a : Label} (h : step log unmarshal s a = some s') :
    ∀ x ∈ s.replies, x ∈ s'.replies := by
  cases a with
  | fetch r => obtain ⟨batch, -, -, -, -, rfl⟩ := step_fetch h; exact fun _ hx => hx
  | poll => obtain ⟨batch, -, rfl⟩ := step_poll h; exact fun _ hx => hx
  | apply reply =>
    obtain ⟨applied, r, todo, -, ⟨-, rfl⟩ | ⟨evt, -, rfl⟩⟩ := step_apply h
    · exact fun _ hx => hx
    · exact fun _ hx => List.mem_cons_of_mem _ hx
  | commit ok reached => obtain ⟨applied, -, rfl⟩ := step_commit h; exact fun _ hx => hx
  | cancel => obtain ⟨-, rfl⟩ := step_cancel h; exact fun _ hx => hx
  | restart => cases h; exact fun _ hx => hx

/-- A committed offset moves in a commit that reaches the broker only. -/
theorem committed_step {s s' : State} {a : Label} (h : step log unmarshal s a = some s') :
    s'.committed = s.committed ∨ ∃ ok applied, a = .commit ok true ∧ s.pc = .committing applied ∧
      s'.committed = commitRecords s.committed applied := by
  cases a with
  | fetch r => obtain ⟨batch, -, -, -, -, rfl⟩ := step_fetch h; exact Or.inl rfl
  | poll => obtain ⟨batch, -, rfl⟩ := step_poll h; exact Or.inl rfl
  | apply reply =>
    obtain ⟨applied, r, todo, -, ⟨-, rfl⟩ | ⟨evt, -, rfl⟩⟩ := step_apply h <;> exact Or.inl rfl
  | commit ok reached =>
    obtain ⟨applied, hpc, rfl⟩ := step_commit h
    cases reached with
    | false => exact Or.inl rfl
    | true => exact Or.inr ⟨ok, applied, rfl, hpc, rfl⟩
  | cancel => obtain ⟨-, rfl⟩ := step_cancel h; exact Or.inl rfl
  | restart => cases h; exact Or.inl rfl

theorem safe_step {s s' : State} {a : Label} (hS : Safe log unmarshal s)
    (hI : Inv log unmarshal s) (hC : NoGap log unmarshal s a)
    (h : step log unmarshal s a = some s') : Safe log unmarshal s' := by
  have hmono := replies_step h
  intro r hr hlt
  rcases committed_step h with heq | ⟨ok, applied, rfl, hpc, heq⟩
  · rw [heq] at hlt
    exact (hS r hr hlt).mono hmono
  · -- The commit names one record of each partition, the last that was applied.
    rw [heq] at hlt
    rcases commitRecords_cases s.committed applied r.1 with ⟨heq', -⟩ | ⟨o, hmem, heq', -⟩
    · rw [heq'] at hlt
      exact (hS r hr hlt).mono hmono
    · rw [heq'] at hlt
      obtain ⟨-, hle, hpos⟩ := hI.fetched (r.1, o) (Or.inr (by rw [hpc]; exact hmem))
      have hans := hI.applied (r.1, o) (by rw [hpc]; exact hmem)
      by_cases hbelow : r.2 < s.committed r.1
      · exact (hS r hr hbelow).mono hmono
      by_cases hsame : r.2 = o
      · rw [← hsame] at hans
        exact hans.mono hmono
      · -- an earlier record of the partition than the one that is named
        have hlt' : r.2 < o := by omega
        rcases hI.covered r hr (by omega) (by dsimp only at hpos; omega) with hq | hans' | hfail
        · rw [hpc] at hq
          cases hq
        · exact hans'.mono hmono
        · exact (hC rfl applied hpc (r.1, o) hmem r hfail rfl hlt').mono hmono

variable (log unmarshal) in
/-- The record is below the committed offset of its partition, and unanswered. -/
structure Skipped (s : State) (r : Pos) : Prop where
  exists_record : log r.1 r.2 ≠ none
  below : r.2 < s.committed r.1
  unanswered : ¬ Answered log unmarshal s r

/-- A skipped record is never delivered again. -/
theorem skipped_step {s s' : State} {a : Label} {r : Pos} (hI : Inv log unmarshal s)
    (hS : Skipped log unmarshal s r) (h : step log unmarshal s a = some s') :
    Skipped log unmarshal s' r := by
  refine ⟨hS.exists_record, ?_, ?_⟩
  · have hlt := hS.below
    rcases committed_step h with heq | ⟨ok, applied, -, hpc, heq⟩
    · rw [heq]
      exact hlt
    · rw [heq]
      have hle : s.committed r.1 ≤ commitRecords s.committed applied r.1 := by
        refine le_commitRecords (fun q hq => ?_) r.1
        exact (hI.fetched q (Or.inr (by rw [hpc]; exact hq))).2.1
      omega
  · intro hans
    refine hS.unanswered ?_
    rcases hans with hnone | ⟨reply, hset, hmem⟩
    · exact Or.inl hnone
    · refine Or.inr ⟨reply, hset, ?_⟩
      -- Only `apply` answers anything.
      cases a with
      | apply reply' =>
        obtain ⟨applied, q, todo, hpc, ⟨-, rfl⟩ | ⟨evt, -, rfl⟩⟩ := step_apply h
        · exact hmem
        · rcases List.mem_cons.mp hmem with heq | hmem
          · -- the record at hand is not below its committed offset
            obtain ⟨rfl, -⟩ := Prod.mk.inj heq
            have hle := (hI.fetched r (Or.inl (by rw [hpc]; exact List.mem_cons_self ..))).2.1
            exact absurd hS.below (Nat.not_lt.mpr hle)
          · exact hmem
      | fetch q => obtain ⟨batch, -, -, -, -, rfl⟩ := step_fetch h; exact hmem
      | poll => obtain ⟨batch, -, rfl⟩ := step_poll h; exact hmem
      | commit ok reached => obtain ⟨applied, -, rfl⟩ := step_commit h; exact hmem
      | cancel => obtain ⟨-, rfl⟩ := step_cancel h; exact hmem
      | restart => cases h; exact hmem

/-- A commit that names a record behind an unanswered failure skips the latter. -/
theorem skipped_of_gap {s s' : State} {a : Label} (hI : Inv log unmarshal s)
    (hgap : ¬ NoGap log unmarshal s a) (h : step log unmarshal s a = some s') :
    ∃ r, Skipped log unmarshal s' r := by
  cases a with
  | commit ok reached =>
    simp only [NoGap, not_forall] at hgap
    obtain ⟨rfl, applied, hpc, r, hr, q, hq, hp, hlt, hans⟩ := hgap
    obtain ⟨applied', hpc', rfl⟩ := step_commit h
    rw [hpc] at hpc'
    cases hpc'
    refine ⟨q, hI.exists_failed q hq, ?_, fun h => hans (h.mono fun _ hx => hx)⟩
    have hlt' := lt_commitRecords s.committed hr
    simp only [if_true]
    rw [hp]
    omega
  | _ => exact absurd trivial hgap

/-- **Commit-after-fold, exactly.**  Every record below a committed offset is
answered, at the end of a run and hence all along it, if and only if no commit of
the run names a record behind an unanswered failure of its partition. -/
theorem safe_iff_noGap {as : List Label} {s : State}
    (hrun : exec (step log unmarshal) initial as = some s) :
    Safe log unmarshal s ↔ Meets (step log unmarshal) (NoGap log unmarshal) initial as := by
  constructor
  · intro hS
    by_contra hC
    obtain ⟨bs, a, cs, u, v, -, -, hu, ha, hv, hs⟩ := exists_of_not_meets hrun hC
    obtain ⟨r, hr⟩ := skipped_of_gap (inv_of_run hu) ha hv
    have hend : Inv log unmarshal s ∧ Skipped log unmarshal s r := by
      refine exec_invariant (I := fun s => Inv log unmarshal s ∧ Skipped log unmarshal s r) ?_
        ⟨inv_step (inv_of_run hu) hv, hr⟩ hs
      intro t a t' hI h
      exact ⟨inv_step hI.1 h, skipped_step hI.1 hI.2 h⟩
    exact hend.2.unanswered (hS r hend.2.exists_record hend.2.below)
  · intro hC
    have hend : Inv log unmarshal s ∧ Safe log unmarshal s := by
      refine exec_invariant_of_meets (I := fun s => Inv log unmarshal s ∧ Safe log unmarshal s) ?_
        ⟨inv_initial, ?_⟩ hC hrun
      · intro t a t' hI hC h
        exact ⟨inv_step hI.1 h, safe_step hI.2 hI.1 hC h⟩
      · intro r _ hlt
        exact absurd hlt (Nat.not_lt_zero _)
    exact hend.2

/-! ### What a confirmed fold leaves behind -/

theorem folded_storeAfter {store : JobStore} {evt : ImportProgress} (h : store.Folded evt)
    (evt' : ImportProgress) (reply : Reply) : (storeAfter store evt' reply).Folded evt := by
  unfold storeAfter
  split
  · exact h.applyProgress evt'
  · exact h
  · exact h
  · exact h.upsertWorkerRow evt'
  · exact h.applyProgress evt'

/-- **A snapshot whose fold the store has confirmed is in the job's ledger** from
then on. -/
theorem folded_of_ok {as : List Label} {s : State} {r : Pos} {evt : ImportProgress}
    (hrun : exec (step log unmarshal) initial as = some s) (hr : (r, .ok) ∈ s.replies)
    (hevt : request log unmarshal r = some evt) : s.store.Folded evt := by
  have hinv : ∀ r evt, (r, .ok) ∈ s.replies → request log unmarshal r = some evt →
      s.store.Folded evt := by
    -- The induction is over the run; rows of workers are never lowered again.
    refine exec_invariant (I := fun s => ∀ r evt, (r, .ok) ∈ s.replies →
      request log unmarshal r = some evt → s.store.Folded evt) ?_ (by intro r evt hr; cases hr) hrun
    intro u a u' hI h q evt' hq hevt'
    cases a with
    | apply reply =>
      obtain ⟨applied, r', todo, -, ⟨-, rfl⟩ | ⟨evt₀, hevt₀, rfl⟩⟩ := step_apply h
      · exact hI q evt' hq hevt'
      · rcases List.mem_cons.mp hq with heq | hq
        · obtain ⟨rfl, rfl⟩ := Prod.mk.inj heq
          rw [hevt₀] at hevt'
          cases hevt'
          exact u.store.folded_applyProgress evt'
        · exact folded_storeAfter (hI q evt' hq hevt') evt₀ reply
    | fetch q' => obtain ⟨batch, -, -, -, -, rfl⟩ := step_fetch h; exact hI q evt' hq hevt'
    | poll => obtain ⟨batch, -, rfl⟩ := step_poll h; exact hI q evt' hq hevt'
    | commit ok reached => obtain ⟨applied, -, rfl⟩ := step_commit h; exact hI q evt' hq hevt'
    | cancel => obtain ⟨-, rfl⟩ := step_cancel h; exact hI q evt' hq hevt'
    | restart => cases h; exact hI q evt' hq hevt'
  exact hinv r evt hr hevt

end

/-! ### A failed fold that is passed over -/

/-- The value of a progress record, as the workers encode it. -/
def snapshotText (worker : String) : GoString :=
  lit "\x7b\"job_id\":\"11111111-1111-1111-1111-111111111111\",\"worker_id\":\"" ++ lit worker ++
    lit "\",\"processed_rows\":1,\"retried_rows\":0,\"dead_rows\":0\x7d"

/-- The snapshot of one worker that has applied one row. -/
def snapshot (worker : String) : ImportProgress :=
  { jobID := lit "11111111-1111-1111-1111-111111111111", workerID := lit worker
    processedRows := 1, retriedRows := 0, deadRows := 0 }

/-- Two workers report one row each, on one partition. -/
def twoSnapshots : ℕ → ℕ → Option GoString
  | 0, 0 => some (snapshotText "w-1")
  | 0, 1 => some (snapshotText "w-2")
  | _, _ => none

/-- What decoding makes of the two values. -/
def decodeSnapshots (v : GoString) : Option ImportProgress :=
  if v = snapshotText "w-1" then some (snapshot "w-1")
  else if v = snapshotText "w-2" then some (snapshot "w-2")
  else none

/-- The fold of the first record fails, that of the second succeeds. -/
def failThenFold : List Label :=
  [.fetch (0, 0), .fetch (0, 1), .poll, .apply (.failed 0), .apply .ok, .commit true true]

/-- The commit of the second record passes over the first, which is lost. -/
theorem failed_fold_committed :
    ¬ ∀ (log : ℕ → ℕ → Option GoString) (unmarshal : GoString → Option ImportProgress)
      (as : List Label) (s : State), exec (step log unmarshal) initial as = some s →
      Safe log unmarshal s := by
  intro h
  have hskip : ∃ s, exec (step twoSnapshots decodeSnapshots) initial failThenFold = some s ∧
      s.committed 0 = 2 ∧ s.replies = [((0, 1), .ok), ((0, 0), .failed 0)] :=
    ⟨_, rfl, rfl, rfl⟩
  obtain ⟨s, hs, hcom, hrep⟩ := hskip
  have hans := h _ _ _ s hs (0, 0) (by simp [twoSnapshots]) (by simp [hcom])
  rcases hans with hnone | ⟨reply, hset, hmem⟩
  · have hsome : request twoSnapshots decodeSnapshots (0, 0) = some (snapshot "w-1") := by decide
    rw [hsome] at hnone
    cases hnone
  · simp only [hrep, List.mem_cons, Prod.mk.injEq, List.not_mem_nil, or_false] at hmem
    rcases hmem with ⟨hpos, -⟩ | ⟨-, rfl⟩
    · exact absurd hpos (by decide)
    · cases hset

/-- Both folds succeed. -/
def foldBoth : List Label :=
  [.fetch (0, 0), .fetch (0, 1), .poll, .apply .ok, .apply .ok, .commit true true]

/-- Nothing is passed over when every fold succeeds. -/
theorem safe_iff_noGap_folded :
    ∃ s, exec (step twoSnapshots decodeSnapshots) initial foldBoth = some s ∧
      s.committed 0 = 2 ∧ Safe twoSnapshots decodeSnapshots s := by
  have hrun : ∃ s, exec (step twoSnapshots decodeSnapshots) initial foldBoth = some s ∧
      s.committed 0 = 2 := ⟨_, rfl, rfl⟩
  obtain ⟨s, hs, hcom⟩ := hrun
  refine ⟨s, hs, hcom, (safe_iff_noGap hs).mpr ?_⟩
  have hpre : ∃ u, exec (step twoSnapshots decodeSnapshots) initial (foldBoth.take 5) = some u ∧
      u.failed = [] := ⟨_, rfl, rfl⟩
  obtain ⟨u, hu, hfail⟩ := hpre
  have hsplit : foldBoth = foldBoth.take 5 ++ [.commit true true] := rfl
  rw [hsplit]
  refine (meets_append hu).mpr ⟨?_, ?_, fun _ _ => trivial⟩
  · refine meets_of_forall ?_ _
    simp [foldBoth, NoGap]
  · intro _ applied _ r _ q hq
    rw [hfail] at hq
    cases hq

end Tracker

end CsvProductUploader

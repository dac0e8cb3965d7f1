import CsvProductUploader.Kafka.Republish
import CsvProductUploader.Lib.Runs
import CsvProductUploader.Lib.Update

/-!
# The topics at boot

Every service runs `EnsureTopics` when it starts: up to thirty passes, each of which lists the
topics and creates those that it misses.  Services start together, the brokers answer from
metadata that may lag behind, and a request may fail whether or not it has been carried out.  The
error that a broker reports for a single topic stands in the response, which no pass reads.

## Main definitions

* `requiredTopics` — the topics with their planned partitions.
* `Pc`, `State`, `step` — the passes of any number of services, and the brokers.
* `Provided` — a required topic exists, or a broker has refused to create it.

## Main results

* `step_cases` — one step: the topics that exist are left as they are, and one service moves on.
* `ensured_of_run` — **whoever has returned without an error leaves every required topic
  provided**, and all that was created has its planned partitions.
-/

namespace CsvProductUploader.Topics

open Runs Update

/-! ### The topics -/

structure TopicSpec where
  name : GoString
  partitions : ℕ
  deriving DecidableEq, Repr

def topicImportProgress : GoString := lit "import.progress.v1"

def partitionsProductImported : ℕ := 6
def partitionsProductRetry : ℕ := 6
def partitionsProductDLQ : ℕ := 3
def partitionsImportProgress : ℕ := 3

def requiredTopics : List TopicSpec :=
  [⟨Wire.topicProductImported, partitionsProductImported⟩,
    ⟨Wire.topicProductRetry, partitionsProductRetry⟩,
    ⟨Wire.topicProductDLQ, partitionsProductDLQ⟩,
    ⟨topicImportProgress, partitionsImportProgress⟩]

/-! ### The machine -/

/-- The number of passes. -/
def maxAttempts : ℕ := 30

/-- Where `EnsureTopics` stands. -/
inductive Pc
  /-- At the head of the loop. -/
  | checking (attempt : ℕ)
  /-- At `ListTopics`. -/
  | listing (attempt : ℕ)
  /-- In the loop over the required topics, with the names that were listed and the topics
  still to come. -/
  | creating (attempt : ℕ) (existing : List GoString) (todo : List TopicSpec)
  | returned (ok : Bool)
  deriving DecidableEq, Repr

structure State where
  /-- The partitions of a topic that exists. -/
  topics : GoString → Option ℕ
  /-- The services, by the number of their start. -/
  procs : ℕ → Option Pc
  /-- The topics that a broker has refused to create. -/
  refused : List GoString

/-- How `CreateTopics` ends. -/
inductive Reply
  /-- The request was carried out. -/
  | ok
  /-- The response has an error for the topic: it exists, or the broker refuses it. -/
  | topicError
  /-- The request has failed, before or after it was carried out. -/
  | failed (applied : Bool)
  deriving DecidableEq, Repr

inductive Label
  | start (i : ℕ)
  /-- The context is checked. -/
  | check (i : ℕ) (cancelled : Bool)
  /-- `ListTopics` is answered with some of the topics, or fails. -/
  | list (i : ℕ) (answer : Option (List GoString))
  /-- A required topic was listed. -/
  | skip (i : ℕ)
  | create (i : ℕ) (reply : Reply)
  /-- The process ends. -/
  | stop (i : ℕ)
  deriving DecidableEq, Repr

def State.put (s : State) (i : ℕ) (pc : Pc) : State :=
  { s with procs := Function.update s.procs i (some pc) }

/-- The topic is created, unless it exists. -/
def State.add (s : State) (spec : TopicSpec) : State :=
  let partitions := (s.topics spec.name).getD spec.partitions
  { s with topics := Function.update s.topics spec.name (some partitions) }

/-- The broker refuses a topic, unless it exists. -/
def State.refuse (s : State) (name : GoString) : State :=
  if s.topics name = none then { s with refused := name :: s.refused } else s

/-- A pass has failed: the loop goes on, or returns its error. -/
def afterError (attempt : ℕ) : Pc :=
  if attempt + 1 < maxAttempts then .checking (attempt + 1) else .returned false

/-- The loop over the required topics. -/
def pass (attempt : ℕ) (existing : List GoString) : List TopicSpec → Pc
  | [] => .returned true
  | spec :: todo => .creating attempt existing (spec :: todo)

def step (s : State) : Label → Option State
  | .start i => if s.procs i = none then some (s.put i (.checking 0)) else none
  | .check i cancelled =>
    match s.procs i with
    | some (.checking n) => some (s.put i (if cancelled then .returned false else .listing n))
    | _ => none
  | .list i answer =>
    match s.procs i with
    | some (.listing n) =>
      match answer with
      | none => some (s.put i (afterError n))
      | some existing =>
        if ∀ name ∈ existing, s.topics name ≠ none then
          some (s.put i (pass n existing requiredTopics))
        else none
    | _ => none
  | .skip i =>
    match s.procs i with
    | some (.creating n existing (spec :: todo)) =>
      if spec.name ∈ existing then some (s.put i (pass n existing todo)) else none
    | _ => none
  | .create i reply =>
    match s.procs i with
    | some (.creating n existing (spec :: todo)) =>
      if spec.name ∈ existing then none
      else
        match reply with
        | .ok => if s.topics spec.name = none then
            some ((s.add spec).put i (pass n existing todo)) else none
        | .topicError => some ((s.refuse spec.name).put i (pass n existing todo))
        | .failed applied =>
          some ((if applied then s.add spec else s).put i (afterError n))
    | _ => none
  | .stop i =>
    match s.procs i with
    | some (.returned _) | none => none
    | some _ => some { s with procs := Function.update s.procs i (some (.returned false)) }

def initial (topics : GoString → Option ℕ) : State := ⟨topics, fun _ => none, []⟩

/-- The topic exists, or a broker has refused to create it. -/
def Provided (s : State) (spec : TopicSpec) : Prop :=
  s.topics spec.name ≠ none ∨ spec.name ∈ s.refused

instance (s : State) (spec : TopicSpec) : Decidable (Provided s spec) :=
  inferInstanceAs (Decidable (_ ∨ _))

/-! ### What the brokers keep -/

variable {s s' : State} {a : Label} {name : GoString}

/-- What a step does to the topics: nothing, or it creates a required one. -/
structure Grows (s s' : State) : Prop where
  kept : ∀ name k, s.topics name = some k → s'.topics name = some k
  planned : ∀ name k, s.topics name = none → s'.topics name = some k →
    ∃ spec ∈ requiredTopics, spec.name = name ∧ spec.partitions = k
  refused : s.refused ⊆ s'.refused

theorem Grows.refl (s : State) : Grows s s :=
  ⟨fun _ _ h => h, fun _ _ h h' => absurd (h.symm.trans h') (by simp), List.Subset.refl _⟩

theorem Grows.put (h : Grows s s') (i : ℕ) (pc : Pc) : Grows s (s'.put i pc) :=
  ⟨h.kept, h.planned, h.refused⟩

theorem grows_add {spec : TopicSpec} (hspec : spec ∈ requiredTopics) : Grows s (s.add spec) := by
  refine ⟨fun name k h => ?_, fun name k hnone h => ?_, List.Subset.refl _⟩
  · dsimp only [State.add]
    rw [Function.update_apply]
    split
    · next heq => rw [← heq, h, Option.getD_some]
    · exact h
  · dsimp only [State.add] at h
    rw [Function.update_apply] at h
    split at h
    · next heq =>
      rw [← heq, hnone, Option.getD_none] at h
      exact ⟨spec, hspec, heq.symm, Option.some.inj h⟩
    · rw [hnone] at h
      cases h

theorem grows_refuse (name : GoString) : Grows s (s.refuse name) := by
  unfold State.refuse
  split
  · exact ⟨fun _ _ h => h, fun _ _ h h' => absurd (h.symm.trans h') (by simp),
      List.subset_cons_self _ _⟩
  · exact Grows.refl s

theorem Grows.provided (h : Grows s s') {spec : TopicSpec} (hp : Provided s spec) :
    Provided s' spec := by
  rcases hp with hp | hp
  · obtain ⟨k, hk⟩ := Option.ne_none_iff_exists'.mp hp
    exact .inl (by simp [h.kept _ _ hk])
  · exact .inr (h.refused hp)

/-! ### What a pass leaves -/

/-- Where a service stands, what it has gone through is provided. -/
def Ensured (s : State) : Pc → Prop
  | .checking _ | .listing _ | .returned false => True
  | .creating _ existing todo =>
    (∀ name ∈ existing, s.topics name ≠ none) ∧
      ∃ done, requiredTopics = done ++ todo ∧ ∀ spec ∈ done, Provided s spec
  | .returned true => ∀ spec ∈ requiredTopics, Provided s spec

theorem Ensured.mono {pc : Pc} (hI : Ensured s pc) (h : Grows s s') : Ensured s' pc := by
  match pc with
  | .checking _ | .listing _ | .returned false => trivial
  | .creating _ existing todo =>
    obtain ⟨hexisting, done, hdone, hprovided⟩ := hI
    refine ⟨fun name hname => ?_, done, hdone, fun spec hspec => h.provided (hprovided spec hspec)⟩
    obtain ⟨k, hk⟩ := Option.ne_none_iff_exists'.mp (hexisting name hname)
    simp [h.kept _ _ hk]
  | .returned true => exact fun spec hspec => h.provided (hI spec hspec)

theorem ensured_afterError (s : State) (n : ℕ) : Ensured s (afterError n) := by
  unfold afterError
  split <;> trivial

/-- The next topic is provided, and the pass goes on. -/
theorem ensured_pass {n : ℕ} {existing : List GoString} {todo : List TopicSpec}
    (hexisting : ∀ name ∈ existing, s.topics name ≠ none)
    (h : ∃ done, requiredTopics = done ++ todo ∧ ∀ spec ∈ done, Provided s spec) :
    Ensured s (pass n existing todo) := by
  obtain ⟨done, hdone, hprovided⟩ := h
  cases todo with
  | nil =>
    rw [List.append_nil] at hdone
    exact fun spec hspec => hprovided spec (hdone ▸ hspec)
  | cons spec todo => exact ⟨hexisting, done, hdone, hprovided⟩

/-- One topic further. -/
theorem Ensured.next {n : ℕ} {existing : List GoString} {spec : TopicSpec} {todo : List TopicSpec}
    (hI : Ensured s (.creating n existing (spec :: todo))) (h : Grows s s')
    (hspec : Provided s' spec) : Ensured s' (pass n existing todo) := by
  obtain ⟨hexisting, done, hdone, hprovided⟩ := hI.mono h
  refine ensured_pass hexisting ⟨done ++ [spec], ?_, ?_⟩
  · rw [hdone, List.append_assoc]
    rfl
  · intro spec' hspec'
    rcases List.mem_append.mp hspec' with hspec' | hspec'
    · exact hprovided spec' hspec'
    · exact List.mem_singleton.mp hspec' ▸ hspec

/-- A topic of the loop is a required one. -/
theorem Ensured.mem {n : ℕ} {existing : List GoString} {spec : TopicSpec} {todo : List TopicSpec}
    (hI : Ensured s (.creating n existing (spec :: todo))) : spec ∈ requiredTopics := by
  obtain ⟨-, done, hdone, -⟩ := hI
  rw [hdone]
  exact List.mem_append_right _ List.mem_cons_self

theorem provided_add (s : State) (spec : TopicSpec) : Provided (s.add spec) spec := by
  refine .inl ?_
  simp [State.add]

theorem provided_refuse (s : State) (spec : TopicSpec) : Provided (s.refuse spec.name) spec := by
  by_cases hnone : s.topics spec.name = none
  · exact .inr (by simp [State.refuse, hnone])
  · exact .inl (by simp [State.refuse, hnone])

/-- What one step comes to: the brokers' topics grow, and one service moves on. -/
theorem step_cases (hI : ∀ i pc, s.procs i = some pc → Ensured s pc) (h : step s a = some s') :
    ∃ t i pc, Grows s t ∧ t.procs = s.procs ∧ Ensured t pc ∧ s' = t.put i pc := by
  -- A pass returns only behind a listing with every topic, or one whose creation it has seen.
  cases a with
  | start i =>
    dsimp only [step] at h
    split at h <;> cases h
    exact ⟨s, i, .checking 0, Grows.refl s, rfl, trivial, rfl⟩
  | check i cancelled =>
    dsimp only [step] at h
    split at h
    · next n _ =>
      cases h
      cases cancelled with
      | true => exact ⟨s, i, .returned false, Grows.refl s, rfl, trivial, rfl⟩
      | false => exact ⟨s, i, .listing n, Grows.refl s, rfl, trivial, rfl⟩
    · cases h
  | list i answer =>
    dsimp only [step] at h
    split at h
    · cases answer with
      | none =>
        cases h
        exact ⟨s, i, _, Grows.refl s, rfl, ensured_afterError s _, rfl⟩
      | some existing =>
        dsimp only at h
        split at h <;> cases h
        next hexisting =>
        exact ⟨s, i, _, Grows.refl s, rfl, ensured_pass hexisting ⟨[], rfl, nofun⟩, rfl⟩
    · cases h
  | skip i =>
    dsimp only [step] at h
    split at h
    · next n existing spec todo hpc =>
      split at h <;> cases h
      next hmem =>
      have hE := hI i _ hpc
      exact ⟨s, i, _, Grows.refl s, rfl, hE.next (Grows.refl s) (.inl (hE.1 _ hmem)), rfl⟩
    · cases h
  | create i reply =>
    dsimp only [step] at h
    split at h
    · next n existing spec todo hpc =>
      have hE := hI i _ hpc
      split at h
      · cases h
      · cases reply with
        | ok =>
          dsimp only at h
          split at h <;> cases h
          exact ⟨_, i, _, grows_add hE.mem, rfl,
            hE.next (grows_add hE.mem) (provided_add s spec), rfl⟩
        | topicError =>
          cases h
          have hprocs : (s.refuse spec.name).procs = s.procs := by
            unfold State.refuse
            split <;> rfl
          exact ⟨_, i, _, grows_refuse _, hprocs,
            hE.next (grows_refuse _) (provided_refuse s spec), rfl⟩
        | failed applied =>
          cases h
          cases applied with
          | true => exact ⟨_, i, _, grows_add hE.mem, rfl, ensured_afterError _ _, rfl⟩
          | false => exact ⟨_, i, _, Grows.refl s, rfl, ensured_afterError _ _, rfl⟩
    · cases h
  | stop i =>
    dsimp only [step] at h
    split at h <;> cases h
    exact ⟨s, i, .returned false, Grows.refl s, rfl, trivial, rfl⟩

/-! ### Runs -/

/-- What holds of the services and of the topics that there were at first. -/
structure Inv (topics : GoString → Option ℕ) (s : State) : Prop where
  procs : ∀ i pc, s.procs i = some pc → Ensured s pc
  kept : ∀ name k, topics name = some k → s.topics name = some k
  planned : ∀ name k, topics name = none → s.topics name = some k →
    ∃ spec ∈ requiredTopics, spec.name = name ∧ spec.partitions = k

variable {topics : GoString → Option ℕ}

theorem inv_step (hI : Inv topics s) (h : step s a = some s') : Inv topics s' := by
  obtain ⟨t, i, pc, hgrows, hprocs, hpc, rfl⟩ := step_cases hI.procs h
  refine ⟨?_, fun name k hk => hgrows.kept name k (hI.kept name k hk), fun name k hnone hk => ?_⟩
  · refine forall_update_some rfl (hpc.mono ((Grows.refl t).put i pc)) fun j pc' _ hj => ?_
    exact ((hI.procs j pc' (hprocs ▸ hj)).mono hgrows).mono ((Grows.refl t).put i pc)
  · cases hs : s.topics name with
    | none => exact hgrows.planned name k hs hk
    | some k' =>
      obtain rfl : k' = k := Option.some.inj ((hgrows.kept name k' hs).symm.trans hk)
      exact hI.planned name k' hnone hs

/-- **Whoever has returned without an error leaves every required topic provided.**  Topics that
there were at first are never altered, and all others have their planned partitions. -/
theorem ensured_of_run {as : List Label} (h : exec step (initial topics) as = some s) :
    (∀ name k, topics name = some k → s.topics name = some k) ∧
    (∀ name k, topics name = none → s.topics name = some k →
      ∃ spec ∈ requiredTopics, spec.name = name ∧ spec.partitions = k) ∧
    ∀ i, s.procs i = some (.returned true) → ∀ spec ∈ requiredTopics,
      s.topics spec.name ≠ none ∨ spec.name ∈ s.refused := by
  have hinitial : Inv topics (initial topics) :=
    ⟨nofun, fun _ _ h => h, fun _ _ h h' => absurd (h.symm.trans h') (by simp)⟩
  have hI : Inv topics s := exec_invariant (fun _ _ _ => inv_step) hinitial h
  exact ⟨hI.kept, hI.planned, fun i hi => hI.procs i _ hi⟩

/-- Two services that start together.  The first finds no topics; the second is told that its
creation of the first topic fails, and begins anew. -/
def together : List Label :=
  [.start 0, .start 1, .check 0 false, .check 1 false, .list 0 (some []), .list 1 (some []),
    .create 0 .ok, .create 1 .topicError, .create 0 .ok, .create 1 (.failed false),
    .create 0 .ok, .create 0 .ok, .check 1 false, .list 1 (some [Wire.topicProductImported]),
    .skip 1, .create 1 .topicError, .create 1 .topicError, .create 1 .topicError]

theorem ensured_of_run_together : ∃ s, exec step (initial fun _ => none) together = some s ∧
    ∀ spec ∈ requiredTopics, s.topics spec.name ≠ none ∨ spec.name ∈ s.refused := by
  have hrun : ∃ s, exec step (initial fun _ => none) together = some s ∧
      s.procs 1 = some (.returned true) := ⟨_, rfl, rfl⟩
  obtain ⟨s, hs, hreturned⟩ := hrun
  obtain ⟨-, -, hensured⟩ := ensured_of_run hs
  exact ⟨s, hs, hensured 1 hreturned⟩

end CsvProductUploader.Topics

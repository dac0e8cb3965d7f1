import CsvProductUploader.Catalog.Counting
import CsvProductUploader.ImportJob.Ledger
import CsvProductUploader.ImportJob.Published

/-!
# The whole pipeline

The importers and their job store, the product topic, the group of catalog workers and the
progress topic, as one machine.  An event that an import publishes waits in the client
until it is delivered to the log; a snapshot that a worker publishes may be folded into the
job store at any time, any number of times and in any order.

## Main definitions

* `State`, `Label`, `step` — the machine.
* `publishes`, `publishedOf` — what an import publishes.
* `Along` — a condition on the steps of the group, as one on the steps of the pipeline.

## Main results

* `step_importer`, `step_deliver`, `step_group` — what a step does.
* `publishedOf_publishes` — only an answered publish of a job publishes for it.
-/

namespace CsvProductUploader.Pipeline

/-! ### The machine -/

structure State where
  importers : Importer.State
  cluster : Catalog.State
  /-- The events the imports have handed to their publisher. -/
  published : List ProductImported
  /-- Those of them that are yet to be delivered. -/
  inflight : List ProductImported
  /-- The snapshots for which the first statement of `ApplyProgress` was executed. -/
  begun : List ImportProgress
  /-- Those of them for which the second one was executed after it. -/
  folded : List ImportProgress

inductive Label
  | importer (a : Importer.Label)
  /-- The client delivers an event to a partition. -/
  | deliver (evt : ProductImported) (partition : ℕ)
  | group (a : Catalog.Label)

def initial : State where
  importers := Importer.initial
  cluster := Catalog.initial
  published := []
  inflight := []
  begun := []
  folded := []

/-- What a step of an importer hands to the publisher. -/
def publishes (s : Importer.State) : Importer.Label → Option ProductImported
  | .call id now o =>
    (s.live id).bind fun l =>
      match l.g.call with
      | some (.publish row) => if o.applied then some (Goroutine.event id now row) else none
      | _ => none
  | _ => none

/-- `StartImport` assigns a fresh UUID, and the tracker folds what the workers have
published. -/
def Permits (s : State) : Importer.Label → Prop
  | .startImport _ id _ _ => isUUID id = true ∧ ∀ p ∈ s.cluster.progress, p.jobID ≠ id
  | .foldRow p => p ∈ s.cluster.progress
  | _ => True

instance (s : State) (a : Importer.Label) : Decidable (Permits s a) := by
  unfold Permits
  split <;> infer_instance

/-- The snapshots whose fold a step begins. -/
def begins : Importer.Label → List ImportProgress
  | .foldRow p => [p]
  | _ => []

/-- The snapshots whose fold a step completes. -/
def completes (s : State) : Importer.Label → List ImportProgress
  | .foldTotals id => s.begun.filter fun p => p.jobID = id
  | _ => []

/-- The step of the group that a step of the pipeline is. -/
def Label.onGroup : Label → Option Catalog.Label
  | .importer _ => none
  | .deliver evt p => some (.append ⟨p, .event evt.decoded⟩)
  | .group a => some a

section
variable (d : Dialect) (maxPoll : ℕ)

def step (s : State) : Label → Option State
  | .importer a =>
    if Permits s a then
      (Importer.step s.importers a).map fun importers =>
        { s with
          importers
          published := s.published ++ (publishes s.importers a).toList
          inflight := s.inflight ++ (publishes s.importers a).toList
          begun := s.begun ++ begins a
          folded := s.folded ++ completes s a }
    else none
  | .deliver evt p =>
    if evt ∈ s.inflight then
      (Catalog.step d maxPoll s.cluster (.append ⟨p, .event evt.decoded⟩)).map fun cluster =>
        { s with cluster, inflight := s.inflight.erase evt }
    else none
  -- Nobody else writes to the product topic.
  | .group (.append _) => none
  | .group a => (Catalog.step d maxPoll s.cluster a).map fun cluster => { s with cluster }

end

/-- A condition on the steps of the group. -/
def Along (C : Catalog.State → Catalog.Label → Prop) (s : State) (a : Label) : Prop :=
  ∀ b ∈ a.onGroup, C s.cluster b

instance (C : Catalog.State → Catalog.Label → Prop) [∀ s a, Decidable (C s a)] (s : State)
    (a : Label) : Decidable (Along C s a) := inferInstanceAs (Decidable (∀ b ∈ a.onGroup, _))

/-! ### What one step does -/

variable {d : Dialect} {maxPoll : ℕ} {s s' : State} {a : Label}

theorem step_importer {b : Importer.Label} (h : step d maxPoll s (.importer b) = some s') :
    Permits s b ∧ Importer.step s.importers b = some s'.importers ∧ s'.cluster = s.cluster ∧
      s'.published = s.published ++ (publishes s.importers b).toList ∧
      s'.inflight = s.inflight ++ (publishes s.importers b).toList ∧
      s'.begun = s.begun ++ begins b ∧ s'.folded = s.folded ++ completes s b := by
  simp only [step] at h
  split at h
  · next hp =>
    obtain ⟨imp, himp, rfl⟩ := Option.map_eq_some_iff.mp h
    exact ⟨hp, himp, rfl, rfl, rfl, rfl, rfl⟩
  · cases h

theorem step_deliver {evt : ProductImported} {p : ℕ}
    (h : step d maxPoll s (.deliver evt p) = some s') :
    evt ∈ s.inflight ∧ s' = { s with
      cluster := { s.cluster with log := s.cluster.log ++ [⟨p, .event evt.decoded⟩] }
      inflight := s.inflight.erase evt } := by
  simp only [step] at h
  split at h
  · next hmem =>
    obtain ⟨cluster, hc, rfl⟩ := Option.map_eq_some_iff.mp h
    rw [Catalog.step_append hc]
    exact ⟨hmem, rfl⟩
  · cases h

theorem step_group {b : Catalog.Label} (h : step d maxPoll s (.group b) = some s') :
    (∀ r, b ≠ .append r) ∧ ∃ cluster, Catalog.step d maxPoll s.cluster b = some cluster ∧
      s' = { s with cluster } := by
  unfold step at h
  cases b with
  | append r => cases h
  | _ =>
    obtain ⟨cluster, hc, rfl⟩ := Option.map_eq_some_iff.mp h
    exact ⟨fun _ => Catalog.Label.noConfusion, cluster, hc, rfl⟩

/-- What a step does to the group. -/
theorem step_cluster (h : step d maxPoll s a = some s') :
    s'.cluster = s.cluster ∨
      ∃ b ∈ a.onGroup, Catalog.step d maxPoll s.cluster b = some s'.cluster := by
  cases a with
  | importer b => exact Or.inl (step_importer h).2.2.1
  | deliver evt p =>
    obtain ⟨-, rfl⟩ := step_deliver h
    exact Or.inr ⟨_, rfl, rfl⟩
  | group b =>
    obtain ⟨-, cluster, hc, rfl⟩ := step_group h
    exact Or.inr ⟨b, rfl, hc⟩

/-- A step of the group leaves the importers alone. -/
theorem step_importers (h : step d maxPoll s a = some s') :
    (s'.importers = s.importers ∧ s'.published = s.published ∧ s'.begun = s.begun ∧
      s'.folded = s.folded) ∨ ∃ b, a = .importer b := by
  cases a with
  | importer b => exact Or.inr ⟨b, rfl⟩
  | deliver evt p =>
    obtain ⟨-, rfl⟩ := step_deliver h
    exact Or.inl ⟨rfl, rfl, rfl, rfl⟩
  | group b =>
    obtain ⟨-, cluster, -, rfl⟩ := step_group h
    exact Or.inl ⟨rfl, rfl, rfl, rfl⟩

/-- A snapshot stays on the progress topic. -/
theorem mem_progress_step (h : step d maxPoll s a = some s') {p : ImportProgress}
    (hp : p ∈ s.cluster.progress) : p ∈ s'.cluster.progress := by
  rcases step_cluster h with heq | ⟨b, -, hb⟩
  · rw [heq]
    exact hp
  · exact Catalog.progress_step hb hp

/-- The group does not write to the product topic. -/
theorem log_group {b : Catalog.Label} (h : step d maxPoll s (.group b) = some s') :
    s'.cluster.log = s.cluster.log := by
  obtain ⟨hne, cluster, hc, rfl⟩ := step_group h
  exact (Catalog.log_step hc).resolve_right fun ⟨r, hr, _⟩ => hne r hr

/-! ### What the imports publish -/

/-- The published events of a job. -/
def publishedOf (published : List ProductImported) (id : GoString) : List ProductImported :=
  published.filter fun e => e.jobID = id

theorem publishedOf_append (l l' : List ProductImported) (id : GoString) :
    publishedOf (l ++ l') id = publishedOf l id ++ publishedOf l' id := List.filter_append ..

theorem publishes_eq_some {si : Importer.State} {b : Importer.Label} {evt : ProductImported}
    (h : publishes si b = some evt) :
    ∃ id now o l row, b = .call id now o ∧ si.live id = some l ∧
      l.g.call = some (.publish row) ∧ o.applied = true ∧ evt = Goroutine.event id now row := by
  cases b with
  | call id now o =>
    obtain ⟨l, hl, h⟩ := Option.bind_eq_some_iff.mp h
    split at h
    · next row hrow =>
      split at h
      · next ho =>
        obtain rfl := Option.some.inj h
        exact ⟨id, now, o, l, row, rfl, hl, hrow, ho, rfl⟩
      · cases h
    · cases h
  | _ => cases h

/-- A step that is not an answered publish of the job publishes nothing for it. -/
theorem publishedOf_publishes {si : Importer.State} {b : Importer.Label} {id : GoString}
    (h : ∀ now o l row, b = .call id now o → si.live id = some l →
      l.g.call ≠ some (.publish row)) : publishedOf (publishes si b).toList id = [] := by
  cases hp : publishes si b with
  | none => rfl
  | some evt =>
    obtain ⟨id', now, o, l, row, rfl, hl, hrow, -, rfl⟩ := publishes_eq_some hp
    have hne : id' ≠ id := by
      rintro rfl
      exact h now o l row rfl hl hrow
    simp [publishedOf, Goroutine.event, hne]

end CsvProductUploader.Pipeline

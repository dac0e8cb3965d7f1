import CsvProductUploader.Events
import Mathlib.Data.List.AList

/-!
# The counters of a catalog service

One entry per job: what became of its records, and the totals that were last published.

## Main definitions

* `Kind` — the two outcomes of a record.
* `JobEntry`, `Service` — the counters, kept per job.
* `Service.increment`, `Service.countAll` — the counting of one record and of many.
* `Report`, `Service.due`, `Service.mark` — what `FlushProgress` reads and writes.

## Main results

* `count_countAll` — every record is counted once, for its job and its outcome.
* `report_due_or_marks` — a job that is not due was published with the totals it has.
* `count_eq_pub_or_due`, `pub_mark` — what that says of the totals, and what marking adds.
* `count_mark` — marking what was published changes no total.
-/

namespace CsvProductUploader.Catalog

/-- What becomes of a record: its product is written, or it is dead-lettered. -/
inductive Kind
  | applied
  | dead
  deriving DecidableEq, Repr

/-- One import job's cumulative outcome counters, and the totals most recently
published. -/
structure JobEntry where
  applied : ℕ := 0
  retried : ℕ := 0
  dead : ℕ := 0
  pubApplied : ℕ := 0
  pubRetried : ℕ := 0
  pubDead : ℕ := 0
  published : Bool := false
  deriving DecidableEq, Repr, Inhabited

/-- The counter of one outcome. -/
def JobEntry.count (e : JobEntry) : Kind → ℕ
  | .applied => e.applied
  | .dead => e.dead

/-- One more record of an outcome. -/
def JobEntry.bump (e : JobEntry) : Kind → JobEntry
  | .applied => { e with applied := e.applied + 1 }
  | .dead => { e with dead := e.dead + 1 }

/-- The map `jobs` of a service. -/
abbrev Service := AList fun _ : GoString => JobEntry

namespace Service

/-- `entryLocked`: the job's entry, made on first use. -/
def entryLocked (s : Service) (jobID : GoString) : JobEntry := (s.lookup jobID).getD {}

/-- `s.entryLocked(jobID).applied++`, or `dead++`. -/
def increment (s : Service) (jobID : GoString) (kind : Kind) : Service :=
  s.insert jobID ((s.entryLocked jobID).bump kind)

/-- The counting of several records under one lock. -/
def countAll (s : Service) (l : List (GoString × Kind)) : Service :=
  l.foldl (fun s x => s.increment x.1 x.2) s

/-- The total of one outcome for a job. -/
def count (s : Service) (jobID : GoString) (kind : Kind) : ℕ := (s.entryLocked jobID).count kind

theorem entryLocked_insert (s : Service) (id id' : GoString) (e : JobEntry) :
    entryLocked (s.insert id e) id' = if id' = id then e else s.entryLocked id' := by
  unfold entryLocked
  by_cases hid : id' = id
  · subst hid
    rw [if_pos rfl, AList.lookup_insert]
    rfl
  · rw [if_neg hid, AList.lookup_insert_ne hid]

theorem count_increment (s : Service) (id id' : GoString) (kind kind' : Kind) :
    (s.increment id kind).count id' kind' =
      s.count id' kind' + if (id', kind') = (id, kind) then 1 else 0 := by
  unfold count increment
  rw [entryLocked_insert]
  by_cases hid : id' = id
  · subst hid
    rw [if_pos rfl]
    cases kind <;> cases kind' <;> simp [JobEntry.bump, JobEntry.count]
  · rw [if_neg hid, if_neg (by simp [hid]), Nat.add_zero]

/-- Every record is counted once, for its job and its outcome. -/
theorem count_countAll (s : Service) (l : List (GoString × Kind)) (id : GoString) (kind : Kind) :
    (s.countAll l).count id kind = s.count id kind + l.count (id, kind) := by
  induction l generalizing s with
  | nil => rfl
  | cons x l ih =>
    change ((s.increment x.1 x.2).countAll l).count id kind = _
    rw [ih, count_increment, List.count_cons, Nat.add_assoc, Nat.add_comm (List.count _ _)]
    simp only [eq_comm (a := x), beq_iff_eq]

/-! ### `FlushProgress` -/

end Service

/-- The totals of one job as `FlushProgress` read them. -/
structure Report where
  jobID : GoString
  applied : ℕ
  retried : ℕ
  dead : ℕ
  deriving DecidableEq, Repr

def Report.count (r : Report) : Kind → ℕ
  | .applied => r.applied
  | .dead => r.dead

/-- The snapshot that a worker publishes for a report. -/
def Report.snapshot (r : Report) (workerID : GoString) : ImportProgress where
  jobID := r.jobID
  workerID := workerID
  processedRows := r.applied
  retriedRows := r.retried
  deadRows := r.dead

/-- The rows of one outcome in a snapshot. -/
def rowsOf (p : ImportProgress) : Kind → ℕ
  | .applied => p.processedRows
  | .dead => p.deadRows

@[simp] theorem rowsOf_snapshot (r : Report) (k : GoString) (kind : Kind) :
    rowsOf (r.snapshot k) kind = r.count kind := by cases kind <;> rfl

/-- The total of one outcome that was last published. -/
def JobEntry.pub (e : JobEntry) : Kind → ℕ
  | .applied => e.pubApplied
  | .dead => e.pubDead

/-- The totals are the ones last published. -/
def JobEntry.current (e : JobEntry) : Bool :=
  e.published && e.applied == e.pubApplied && e.retried == e.pubRetried && e.dead == e.pubDead

def JobEntry.report (e : JobEntry) (jobID : GoString) : Report :=
  ⟨jobID, e.applied, e.retried, e.dead⟩

/-- The totals last published, as a report. -/
def JobEntry.marks (e : JobEntry) (jobID : GoString) : Report :=
  ⟨jobID, e.pubApplied, e.pubRetried, e.pubDead⟩

@[simp] theorem count_report (e : JobEntry) (id : GoString) (kind : Kind) :
    (e.report id).count kind = e.count kind := by cases kind <;> rfl

/-- The totals of a report become the ones last published. -/
def JobEntry.publish (e : JobEntry) (r : Report) : JobEntry :=
  { e with pubApplied := r.applied, pubRetried := r.retried, pubDead := r.dead, published := true }

@[simp] theorem count_publish (e : JobEntry) (r : Report) (kind : Kind) :
    (e.publish r).count kind = e.count kind := by cases kind <;> rfl

namespace Service

/-- The jobs whose totals changed since they were last published. -/
def due (s : Service) : List Report :=
  s.entries.filterMap fun x => if x.2.current then none else some (x.2.report x.1)

/-- The marking at the end of `FlushProgress`. -/
def mark (s : Service) (pending : List Report) : Service :=
  pending.foldl (fun s r =>
    match s.lookup r.jobID with
    | some e => s.insert r.jobID (e.publish r)
    | none => s) s

/-- A report that is due has the totals of its job. -/
theorem count_of_mem_due {s : Service} {r : Report} (h : r ∈ s.due) (kind : Kind) :
    r.count kind = s.count r.jobID kind := by
  obtain ⟨⟨id, e⟩, hmem, hr⟩ := List.mem_filterMap.mp h
  dsimp only at hr
  split_ifs at hr
  obtain rfl := Option.some.inj hr
  have hlookup : s.lookup id = some e := AList.mem_lookup_iff.mpr hmem
  change _ = (s.entryLocked id).count kind
  rw [entryLocked, hlookup, count_report]
  rfl

/-- A job that is not due was published with the totals it has. -/
theorem report_due_or_marks {s : Service} {id : GoString} {e : JobEntry}
    (h : s.lookup id = some e) :
    e.report id ∈ s.due ∨ (e.published = true ∧ e.report id = e.marks id) := by
  have hmem : (⟨id, e⟩ : Sigma fun _ : GoString => JobEntry) ∈ s.entries :=
    AList.mem_lookup_iff.mp h
  by_cases hcur : e.current = true
  · right
    simp only [JobEntry.current, Bool.and_eq_true, beq_iff_eq] at hcur
    obtain ⟨⟨⟨hpub, happlied⟩, hretried⟩, hdead⟩ := hcur
    exact ⟨hpub, by rw [JobEntry.report, JobEntry.marks, happlied, hretried, hdead]⟩
  · left
    exact List.mem_filterMap.mpr ⟨⟨id, e⟩, hmem, by rw [if_neg hcur]⟩

/-- What marking does to one entry. -/
theorem lookup_mark (s : Service) (pending : List Report) (id : GoString) :
    (s.mark pending).lookup id = s.lookup id ∨
      ∃ e, ∃ r ∈ pending, s.lookup id = some e ∧ r.jobID = id ∧
        (s.mark pending).lookup id = some (e.publish r) := by
  induction pending generalizing s with
  | nil => exact Or.inl rfl
  | cons r rs ih =>
    -- The entry after the first report.
    have hstep : ∃ s₁ : Service, s.mark (r :: rs) = s₁.mark rs ∧
        (s₁.lookup id = s.lookup id ∨
          ∃ e, s.lookup id = some e ∧ r.jobID = id ∧ s₁.lookup id = some (e.publish r)) := by
      cases hr : s.lookup r.jobID with
      | none =>
        refine ⟨s, ?_, Or.inl rfl⟩
        simp only [mark, List.foldl_cons, hr]
      | some e =>
        refine ⟨s.insert r.jobID (e.publish r), ?_, ?_⟩
        · simp only [mark, List.foldl_cons, hr]
        · by_cases hid : id = r.jobID
          · subst hid
            exact Or.inr ⟨e, hr, rfl, AList.lookup_insert s⟩
          · exact Or.inl (AList.lookup_insert_ne hid)
    obtain ⟨s₁, hmark, hs₁⟩ := hstep
    rw [hmark]
    rcases ih s₁ with hsame | ⟨e₁, q, hq, he₁, hid, hlookup⟩
    · rcases hs₁ with hs₁ | ⟨e, he, hid, hs₁⟩
      · exact Or.inl (hsame.trans hs₁)
      · exact Or.inr ⟨e, r, List.mem_cons_self, he, hid, hsame.trans hs₁⟩
    · rcases hs₁ with hs₁ | ⟨e, he, -, hs₁⟩
      · exact Or.inr ⟨e₁, q, List.mem_cons_of_mem _ hq, hs₁ ▸ he₁, hid, hlookup⟩
      · obtain rfl : e.publish r = e₁ := Option.some.inj (hs₁.symm.trans he₁)
        exact Or.inr ⟨e, q, List.mem_cons_of_mem _ hq, he, hid, hlookup⟩

/-- What marking leaves of one entry: its totals, and marks that were reported if they are
new. -/
theorem of_lookup_mark {s : Service} {pending : List Report} {id : GoString} {e' : JobEntry}
    (h : (s.mark pending).lookup id = some e') :
    ∃ e, s.lookup id = some e ∧ e'.report id = e.report id ∧
      (e' = e ∨ e'.marks id ∈ pending) := by
  rcases lookup_mark s pending id with hsame | ⟨e, r, hr, he, rfl, hnew⟩
  · exact ⟨e', hsame.symm.trans h, rfl, Or.inl rfl⟩
  · obtain rfl := Option.some.inj (hnew.symm.trans h)
    exact ⟨e, he, rfl, Or.inr hr⟩

/-- Counting publishes nothing: what is marked was marked before. -/
theorem of_lookup_countAll {s : Service} {l : List (GoString × Kind)} {id : GoString}
    {e' : JobEntry} (h : (s.countAll l).lookup id = some e') (hpub : e'.published = true) :
    ∃ e, s.lookup id = some e ∧ e.published = true ∧ e'.marks id = e.marks id := by
  induction l generalizing s with
  | nil => exact ⟨e', h, hpub, rfl⟩
  | cons x l ih =>
    obtain ⟨e, he, hepub, hmarks⟩ := ih h
    unfold increment at he
    by_cases hid : id = x.1
    · subst hid
      rw [AList.lookup_insert, Option.some.injEq] at he
      subst he
      -- The entry is marked, so it was there before the count.
      cases hold : s.lookup x.1 with
      | none =>
        rw [entryLocked, hold] at hepub
        cases hkind : x.2 <;> rw [hkind] at hepub <;> cases hepub
      | some e₀ =>
        rw [entryLocked, hold] at hepub hmarks
        refine ⟨e₀, rfl, ?_, ?_⟩
        · cases hkind : x.2 <;> rw [hkind] at hepub <;> exact hepub
        · cases hkind : x.2 <;> rw [hkind] at hmarks <;> exact hmarks
    · rw [AList.lookup_insert_ne hid] at he
      exact ⟨e, he, hepub, hmarks⟩

/-- A job with a total has an entry. -/
theorem exists_of_count_pos {s : Service} {id : GoString} {kind : Kind} (h : 0 < s.count id kind) :
    ∃ e, s.lookup id = some e ∧ ∀ kind, s.count id kind = e.count kind := by
  cases he : s.lookup id with
  | none =>
    rw [count, entryLocked, he] at h
    cases kind <;> cases h
  | some e =>
    refine ⟨e, rfl, fun kind => ?_⟩
    rw [count, entryLocked, he, Option.getD_some]

/-- The total of one outcome that was last published for a job. -/
def pub (s : Service) (jobID : GoString) (kind : Kind) : ℕ := (s.entryLocked jobID).pub kind

/-- Counting publishes nothing. -/
theorem pub_countAll (s : Service) (l : List (GoString × Kind)) (id : GoString) (kind : Kind) :
    (s.countAll l).pub id kind = s.pub id kind := by
  induction l generalizing s with
  | nil => rfl
  | cons x l ih =>
    have hstep : (s.increment x.1 x.2).pub id kind = s.pub id kind := by
      unfold pub increment
      rw [entryLocked_insert]
      split
      · next hid =>
        subst hid
        cases x.2 <;> rfl
      · rfl
    exact (ih (s.increment x.1 x.2)).trans hstep

/-- The total of a job is the one last published, or the job is due with it. -/
theorem count_eq_pub_or_due (s : Service) (id : GoString) (kind : Kind) :
    s.count id kind = s.pub id kind ∨
      ∃ r ∈ s.due, r.jobID = id ∧ r.count kind = s.count id kind := by
  cases he : s.lookup id with
  | none =>
    left
    unfold count pub entryLocked
    rw [he]
    cases kind <;> rfl
  | some e =>
    have hentry : s.entryLocked id = e := by rw [entryLocked, he, Option.getD_some]
    rcases report_due_or_marks he with hdue | ⟨-, hmarks⟩
    · refine Or.inr ⟨e.report id, hdue, rfl, ?_⟩
      rw [count_report, count, hentry]
    · left
      rw [count, pub, hentry, ← count_report e id, hmarks]
      cases kind <;> rfl

/-- What is published after marking was so before, or has been marked. -/
theorem pub_mark (s : Service) (pending : List Report) (id : GoString) (kind : Kind) :
    (s.mark pending).pub id kind = s.pub id kind ∨
      ∃ r ∈ pending, r.jobID = id ∧ (s.mark pending).pub id kind = r.count kind := by
  unfold pub entryLocked
  rcases lookup_mark s pending id with h | ⟨e, r, hr, -, hid, h⟩
  · left
    rw [h]
  · refine Or.inr ⟨r, hr, hid, ?_⟩
    rw [h]
    cases kind <;> rfl

/-- Marking what was published changes no total. -/
theorem count_mark (s : Service) (pending : List Report) (id : GoString) (kind : Kind) :
    (s.mark pending).count id kind = s.count id kind := by
  unfold count entryLocked
  rcases lookup_mark s pending id with h | ⟨e, r, -, he, -, h⟩
  · rw [h]
  · rw [h, he]
    exact count_publish e r kind

end Service

end CsvProductUploader.Catalog

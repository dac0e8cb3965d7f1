import CsvProductUploader.Catalog.Outcomes
import CsvProductUploader.Pipeline.Accounts

/-!
# Completed jobs are settled

The importer completes a job once the counters it has folded reach its published count.
The counters bound the counted records from below only while no record is counted twice:
a worker that stops between publishing its progress and committing leaves a snapshot behind
that counts the batch its successor counts again, and the sum over both identities stands
in for records that nobody has touched.

## Main definitions

* `Settled` — every published event of a job is written or dead-lettered.
* `Sound` — what holds of the group while no record is counted twice.

## Main results

* `settled_of_confirmed` — counters that reach the published count account for every event.
* `completed_settled` — **completion is sound** in the runs whose workers stop only with
  counts they have committed, as far as they have published them.
* `completed_unsettled` — a worker that stops before its commit completes a job early.
-/

namespace CsvProductUploader

open Catalog Runs

/-! ### No overcount -/

namespace Catalog

/-- What holds of the group while no record is counted twice. -/
structure Sound (s : State) : Prop where
  known : Known s
  staged : Staged s
  tallied : ∀ id, Tallied id s
  held : Held s
  distinct : Distinct s
  handled : Handled s
  materialized : Materialized s
  bounded : Bounded s

section
variable {d : Dialect} {maxPoll : ℕ} {s s' : State} {a : Label}

theorem sound_step (hI : Sound s) (hF : Fresh s a) (hO : Orderly s a) (hC : Covered s a)
    (h : step d maxPoll s a = some s') : Sound s' where
  known := known_step hI.known h
  staged := staged_step hI.staged h
  tallied id := tallied_step (hI.tallied id) (hI.known.noReuse hF id) h
  held := held_step hI.held hI.staged hO h
  distinct := distinct_step hI.distinct hI.held hI.staged h
  handled := handled_step hI.handled hI.staged hI.held h
  materialized := materialized_step hI.materialized h
  bounded := bounded_step hI.bounded hI.tallied hC h

theorem sound_initial : Sound initial where
  known := ⟨fun _ hk => absurd rfl hk, fun _ hc => absurd hc List.not_mem_nil⟩
  staged := by rintro k w ⟨⟩
  tallied := by rintro id k w ⟨⟩
  held :=
    ⟨by rintro p k ⟨⟩, by rintro k w ⟨⟩, by rintro k w ⟨⟩, by rintro c ⟨⟩, by rintro c ⟨⟩,
      by rintro c ⟨⟩⟩
  distinct := ⟨List.nodup_nil, by rintro k w ⟨⟩⟩
  handled := ⟨by rintro c ⟨⟩, by rintro k w ⟨⟩⟩
  materialized := by rintro i ⟨⟩
  bounded := ⟨by rintro k w ⟨⟩, by rintro p ⟨⟩⟩

/-- **No overcount**: values that the snapshots back sum up to at most the counts of the
job. -/
theorem Bounded.total_le (hI : Bounded s) {id : GoString} {kind : Kind} {rows : MaxCounter GoString}
    (h : ∀ k, Backed s.progress k id kind (rows.value k)) :
    rows.total ≤ (s.counts.filter fun c => c.job = id ∧ c.kind = kind).length := by
  apply MaxCounter.total_le_length Count.worker
  intro k
  rw [countP_worker]
  rcases h k with hzero | ⟨p, hp, rfl, rfl, hle⟩
  · rw [hzero]
    exact Nat.zero_le _
  · exact Nat.le_trans hle (hI.progress p hp kind)

end

end Catalog

namespace Pipeline

/-- Every published event of a job is written or dead-lettered, each by a record of its
own. -/
def Settled (s : State) (id : GoString) : Prop :=
  ∃ refs : List ℕ, refs.Nodup ∧ (∀ i ∈ refs, (s.cluster.log.eventAt i).isSome = true) ∧
    (s.cluster.log.events refs).Perm
      ((publishedOf s.published id).map ProductImported.decoded) ∧
    ∀ i ∈ refs, (i ∈ s.cluster.written ∧ InTable s.cluster i) ∨ i ∈ s.cluster.dead

variable {d : Dialect} {maxPoll : ℕ} {s s' : State} {a : Label}

/-- Counters that reach the published count account for every event. -/
theorem settled_of_confirmed (hG : Sound s.cluster) (hL : Ledger s) (hD : Delivered s)
    (hT : Totals s) {id : GoString} {l : Importer.Live} {j : ImportJob}
    (hl : s.importers.live id = some l) (hj : s.importers.store.jobs id = some j)
    (hpc : l.g.pc = .reading) (hle : j.publishedRows ≤ j.processedRows + j.deadRows) :
    Settled s id := by
  obtain ⟨sent, hS⟩ := hD
  let refs := (s.cluster.counts.filter fun c => c.job = id).map Count.ref
  have hnodup : refs.Nodup :=
    hG.distinct.counts.sublist (List.Sublist.map _ List.filter_sublist)
  -- A counted record carries an event of the job, as every record of the topic does.
  have hrefs : ∀ i ∈ refs, ∃ c ∈ s.cluster.counts, c.ref = i ∧
      ∃ evt, s.cluster.log.eventAt i = some evt ∧ evt.jobID = id := by
    intro i hi
    obtain ⟨c, hc, rfl⟩ := List.mem_map.mp hi
    obtain ⟨hmem, hid⟩ := List.mem_filter.mp hc
    have hjob := hG.held.job c hmem
    rw [of_decide_eq_true hid] at hjob
    exact ⟨c, hmem, rfl, hS.eventAt hjob⟩
  have hsub : refs ⊆ s.cluster.log.jobRefs id := by
    intro i hi
    obtain ⟨-, -, -, evt, hevt, hid⟩ := hrefs i hi
    refine List.mem_filter.mpr ⟨List.mem_range.mpr ?_, ?_⟩
    · exact Log.lt_of_jobAt (Log.jobAt_of_eventAt hevt)
    · rw [hevt]
      exact decide_eq_true hid
  have hall := hS.length_jobRefs hL id
  -- There are as many counts as published events, so every record of the job is counted.
  have hcounts : (publishedOf s.published id).length ≤ refs.length := by
    have hpublished : j.publishedRows = (publishedOf s.published id).length := by
      rw [hL.saved id l j hl hj (by rw [hpc]; rfl)]
      exact hL.counter id l hl (Or.inr (by rw [hpc]; rfl))
    have happlied := Nat.le_trans (hT.jobs id j hj .applied)
      (hG.bounded.total_le fun k => hT.rows id k .applied)
    have hdead := Nat.le_trans (hT.jobs id j hj .dead)
      (hG.bounded.total_le fun k => hT.rows id k .dead)
    have hlength : refs.length = _ := (List.length_map _).trans (length_counts ..)
    change j.processedRows ≤ _ at happlied
    change j.deadRows ≤ _ at hdead
    omega
  have hsplit := hS.publishedOf id
  have hlen := hsplit.length_eq
  rw [List.length_append] at hlen
  have hperm : refs.Perm (s.cluster.log.jobRefs id) := by
    refine (List.subperm_of_subset hnodup hsub).perm_of_length_le ?_
    omega
  have hrefsle := (List.subperm_of_subset hnodup hsub).length_le
  have hnone : publishedOf s.inflight id = [] := List.eq_nil_of_length_eq_zero (by omega)
  rw [hnone, List.append_nil] at hsplit
  refine ⟨refs, hnodup, ?_, ?_, ?_⟩
  · intro i hi
    obtain ⟨-, -, -, evt, hevt, -⟩ := hrefs i hi
    rw [hevt]
    rfl
  · refine (hperm.filterMap _).trans ?_
    change (s.cluster.log.events _).Perm _
    rw [hS.events hL]
    exact hsplit.map _
  · intro i hi
    obtain ⟨c, hc, rfl, evt, hevt, -⟩ := hrefs i hi
    have hres := hG.handled.counts c hc (by rw [hevt]; rfl)
    exact hres.imp_left fun hw => ⟨hw, hG.materialized _ hw⟩

/-! ### Every run -/

/-- A settled job stays so while nothing more is published for it. -/
theorem Settled.step {id : GoString} (hI : Settled s id) (h : step d maxPoll s a = some s')
    (hpub : publishedOf s'.published id = publishedOf s.published id) : Settled s' id := by
  obtain ⟨refs, hnodup, hsome, hperm, hout⟩ := hI
  have hkept : Kept s.cluster s'.cluster := by
    rcases step_cluster h with heq | ⟨b, -, hb⟩
    · rw [heq]
      exact Kept.refl _
    · exact kept_step hb
  have hevt : ∀ i ∈ refs, s'.cluster.log.eventAt i = s.cluster.log.eventAt i := by
    intro i hi
    obtain ⟨evt, hevt⟩ := Option.isSome_iff_exists.mp (hsome i hi)
    rw [hevt, hkept.events i evt hevt]
  refine ⟨refs, hnodup, fun i hi => ?_, ?_, fun i hi => ?_⟩
  · rw [hevt i hi]
    exact hsome i hi
  · rw [Log.events_congr hevt, hpub]
    exact hperm
  · rcases hout i hi with ⟨hw, hrow⟩ | hdead
    · exact Or.inl ⟨hkept.written i hw, hrow.mono (hkept.events i) hkept.rows⟩
    · exact Or.inr (hkept.dead i hdead)

/-- A job without published events is settled. -/
theorem settled_of_nil {id : GoString} (h : publishedOf s.published id = []) : Settled s id := by
  refine ⟨[], List.nodup_nil, fun i hi => absurd hi List.not_mem_nil, ?_,
    fun i hi => absurd hi List.not_mem_nil⟩
  rw [h]
  exact List.Perm.nil

/-- A job that is completed, or about to be, is settled. -/
structure Confirmed (s : State) : Prop where
  completing : ∀ id l, s.importers.live id = some l → l.g.pc = .completing → Settled s id
  completed : ∀ id j, s.importers.store.jobs id = some j → j.status = .completed → Settled s id

theorem pc_of_publish {g : Goroutine} {row : Row} (h : g.call = some (.publish row)) :
    ∃ rows, g.pc = .publishing row rows := by
  unfold Goroutine.call at h
  cases hpc : g.pc <;> rw [hpc] at h <;> cases h
  exact ⟨_, rfl⟩

/-- **A job that is completed, or about to be, is settled.** -/
theorem confirmed_step (hI : Confirmed s) (hG : Sound s.cluster) (hL : Ledger s)
    (hD : Delivered s) (hT : Totals s) (h : step d maxPoll s a = some s') : Confirmed s' := by
  rcases step_importers h with ⟨himp, hpub, -⟩ | ⟨b, rfl⟩
  · constructor
    · intro id l hl hpc
      rw [himp] at hl
      exact (hI.completing id l hl hpc).step h (by rw [hpub])
    · intro id j hj hst
      rw [himp] at hj
      exact (hI.completed id j hj hst).step h (by rw [hpub])
  obtain ⟨-, hb, -, hpub, -⟩ := step_importer h
  -- Nothing is published for a job whose import does not stand at a publish.
  have hkeep : ∀ id, (∀ now o l row rows, b = .call id now o → s.importers.live id = some l →
      l.g.pc ≠ .publishing row rows) → Settled s id → Settled s' id := by
    intro id hne hset
    refine hset.step h ?_
    rw [hpub, publishedOf_append, publishedOf_publishes, List.append_nil]
    intro now o l row heq hl hrow
    obtain ⟨rows, hpc⟩ := pc_of_publish hrow
    exact hne now o l row rows heq hl hpc
  constructor
  · intro id l' hl' hpc
    rcases Importer.live_step hb hl' with ⟨hl, hcall⟩ | ⟨p, n, file, rfl, -, -, rfl⟩ |
      ⟨l, rfl, hl, -, rfl⟩ | ⟨l, now, o, c, g, rfl, hl, -, -, hg, -, rfl⟩ |
      ⟨l, j, stale, g, rfl, hl, hj, hg, -, rfl⟩
    · exact hkeep id (fun now o _ _ _ heq => absurd heq (hcall now o)) (hI.completing id l' hl hpc)
    · cases hpc
    · exact hkeep id (fun _ _ _ _ _ heq => (nomatch heq)) (hI.completing id l hl hpc)
    · -- Only a read of the job leads here.
      have hm := Goroutine.moves_of_resume hg
      rw [show g.pc = .completing from hpc] at hm
      generalize ho : o.answer = ans at hm
      generalize l.g.pc = pc at hm
      cases hm with
      | early _ _ _ he => cases he
      | confirmed => cases o <;> cases ho
    · have hm := Goroutine.moves_of_resume hg
      rw [show g.pc = .completing from hpc] at hm
      generalize hread : l.g.pc = pc at hm
      cases hm with
      | early _ _ _ he => cases he
      | confirmed hst hle =>
        exact hkeep id (fun _ _ _ _ _ heq => (nomatch heq))
          (settled_of_confirmed hG hL hD hT hl hj hread hle)
  · intro id j' hj' hst'
    cases hj : s.importers.store.jobs id with
    | none =>
      obtain ⟨-, rfl⟩ := Importer.job_fresh hb hj hj'
      cases hst'
    | some j =>
      obtain ⟨j'', hj'', hcases⟩ := Importer.job_step hb hj
      obtain rfl := Option.some.inj (hj''.symm.trans hj')
      rcases hcases with ⟨hst, -⟩ | ⟨p, -, -, hst, -⟩ | ⟨now, o, l, next, e, rfl, hl, hc, -, hst, -⟩
      · rw [hst] at hst'
        refine hkeep id ?_ (hI.completed id j hj hst')
        -- The import of a completed job is past its publishing.
        intro now o l row rows _ hl hpc
        obtain ⟨j₀, hj₀, hacc⟩ := hL.owned id l hl
        obtain rfl := Option.some.inj (hj.symm.trans hj₀)
        rcases hacc.1 (by rw [hpc]; rfl) with hst | hst <;> rw [hst] at hst' <;> cases hst'
      · rw [hst] at hst'
        cases hst'
      · rw [hst] at hst'
        subst hst'
        have hne : ∀ now' o' l' row rows, Importer.Label.call id now o = .call id now' o' →
            s.importers.live id = some l' → l'.g.pc ≠ .publishing row rows := by
          intro now' o' l' row rows _ hl' hpc
          obtain rfl := Option.some.inj (hl.symm.trans hl')
          rw [Goroutine.call, hpc] at hc
          cases hc
        rcases Goroutine.call_updateStatus hc with ⟨hpc, -, -⟩ | ⟨-, hnext, -⟩ | ⟨hpc, -, -⟩ |
          ⟨cause, -, hnext, -⟩
        · refine hkeep id hne (settled_of_nil ?_)
          have hzero := hL.empty id l hl hpc
          rw [hL.counter id l hl (Or.inr (by rw [hpc]; rfl))] at hzero
          exact List.eq_nil_of_length_eq_zero hzero
        · cases hnext
        · exact hkeep id hne (hI.completing id l hl hpc)
        · cases hnext

/-- No partition is taken from a worker that holds records of it, and no worker stops with
published counts it has not committed. -/
def Careful (s : State) (a : Label) : Prop := Along Orderly s a ∧ Along Covered s a

instance (s : State) (a : Label) : Decidable (Careful s a) := inferInstanceAs (Decidable (_ ∧ _))

/-- What holds of the pipeline while no record is counted twice. -/
structure Steady (s : State) : Prop where
  group : Sound s.cluster
  ledger : Ledger s
  delivered : Delivered s
  totals : Totals s
  confirmed : Confirmed s

theorem steady_step (hI : Steady s) (hF : Along Fresh s a) (hC : Careful s a)
    (h : step d maxPoll s a = some s') : Steady s' where
  group := by
    rcases step_cluster h with heq | ⟨b, hb, hstep⟩
    · rw [heq]
      exact hI.group
    · exact sound_step hI.group (hF b hb) (hC.1 b hb) (hC.2 b hb) hstep
  ledger := ledger_step hI.ledger h
  delivered := delivered_step hI.delivered h
  totals := totals_step hI.totals h
  confirmed := confirmed_step hI.confirmed hI.group hI.ledger hI.delivered hI.totals h

theorem steady_initial : Steady initial where
  group := sound_initial
  ledger := ⟨by rintro id l ⟨⟩, fun id hj => absurd rfl hj, by rintro e ⟨⟩, by rintro id l ⟨⟩,
    by rintro id l j ⟨⟩, by rintro id l ⟨⟩⟩
  delivered := ⟨[], List.Perm.nil, rfl⟩
  totals := ⟨fun id k kind => Or.inl (by cases kind <;> rfl), by rintro id j ⟨⟩⟩
  confirmed := ⟨by rintro id l ⟨⟩, by rintro id j ⟨⟩⟩

/-- **Completion is sound**: in every run whose workers start under fresh identities, and
stop only with counts they have committed as far as they have published them, every
published event of a completed job is written or dead-lettered. -/
theorem completed_settled {as : List Label} (hF : Meets (step d maxPoll) (Along Fresh) initial as)
    (hC : Meets (step d maxPoll) Careful initial as)
    (h : exec (step d maxPoll) initial as = some s) {id : GoString} {j : ImportJob}
    (hj : s.importers.store.jobs id = some j) (hst : j.status = .completed) : Settled s id := by
  have hI : Steady s := by
    refine exec_invariant_of_meets (I := Steady) ?_ steady_initial (hF.and hC) h
    exact fun s a s' hI hC hs => steady_step hI hC.1 hC.2 hs
  exact hI.confirmed.completed id j hj hst

/-! ### Two runs -/

/-- A row of the given product. -/
def rowOfProduct (productID : GoString) : Row where
  num := 1
  product := {
    merchantID := lit "m", productID := productID, name := lit "n", priceCents := 1
    currency := lit "USD", expirationDate := [] }
  reason := none

/-- The two rows that are published, in one partition. -/
def firstRow : Row := rowOfProduct (lit "p")

def secondRow : Row := rowOfProduct (lit "q")

/-- An import of the two rows, up to its wait for confirmation. -/
def importTwo : List Label :=
  [.importer (.start 0), .importer (.startImport 0 someJobID 1
      { rows := [firstRow, secondRow] })] ++
    List.replicate 8 (.importer (.call someJobID 0 .ok)) ++
    [.deliver (Goroutine.event someJobID 0 firstRow) 0,
      .deliver (Goroutine.event someJobID 0 secondRow) 0] ++
    List.replicate 3 (.importer (.call someJobID 0 .ok))

/-- A worker starts and adjudicates the given records, up to its commit. -/
def adjudicate (k : GoString) (refs : List ℕ) : List Label :=
  [.group (.start k), .group (.assign 0 k)] ++ refs.map (fun i => .group (.worker k (.fetch i))) ++
    [.poll, .write none false, .count, .flush (.read [⟨someJobID, refs.length, 0, 0⟩]),
      .flush (.report .ok), .flush (.confirm true), .flush .mark].map fun a => .group (.worker k a)

/-- The tracker folds what the worker has published. -/
def foldOf (k : GoString) (n : ℕ) : List Label :=
  [.importer (.foldRow ⟨someJobID, k, n, 0, 0⟩), .importer (.foldTotals someJobID)]

/-- The import reads its job and completes it. -/
def confirm : List Label :=
  [.importer (.call someJobID 0 .ok), .importer (.read someJobID false),
    .importer (.call someJobID 0 .ok)]

/-- The worker stops before it commits the first record, and its successor counts that
record again. -/
def crashRun : List Label :=
  importTwo ++ adjudicate (lit "a") [0] ++ [.group (.stop (lit "a"))] ++ adjudicate (lit "b") [0] ++
    foldOf (lit "a") 1 ++ foldOf (lit "b") 1 ++ confirm

/-- One worker adjudicates and commits both records. -/
def plainRun : List Label :=
  importTwo ++ adjudicate (lit "a") [0, 1] ++ [.group (.worker (lit "a") (.commit true true))] ++
    foldOf (lit "a") 2 ++ confirm

theorem completed_settled_two_rows : ∃ s,
    exec (step canonicalDialect 10) initial plainRun = some s ∧
    (∃ j ∈ s.importers.store.jobs someJobID, j.status = .completed) ∧ Settled s someJobID := by
  have hrun : ∃ s, exec (step canonicalDialect 10) initial plainRun = some s ∧
      (∃ j ∈ s.importers.store.jobs someJobID, j.status = .completed) := ⟨_, rfl, by decide⟩
  obtain ⟨s, hs, j, hj, hst⟩ := hrun
  have hF : Meets (step canonicalDialect 10) (Along Fresh) initial plainRun := by decide
  have hC : Meets (step canonicalDialect 10) Careful initial plainRun := by decide
  exact ⟨s, hs, ⟨j, hj, hst⟩, completed_settled hF hC hs hj hst⟩

/-- A job is completed with a record that no worker has polled. -/
theorem completed_unsettled :
    ¬ ∀ (d : Dialect) (maxPoll : ℕ) (as : List Label) (s : State) (id : GoString) (j : ImportJob),
      Meets (step d maxPoll) (fun s a => Along Fresh s a ∧ Along Orderly s a) initial as →
      exec (step d maxPoll) initial as = some s → s.importers.store.jobs id = some j →
      j.status = .completed → Settled s id := by
  intro h
  have hrun : ∃ s, exec (step canonicalDialect 10) initial crashRun = some s ∧
      (∃ j ∈ s.importers.store.jobs someJobID, j.status = .completed) ∧
      (∀ i ∈ s.cluster.written, i = 0) ∧ s.cluster.dead = [] ∧
      s.cluster.log.eventAt 0 = some (Goroutine.event someJobID 0 firstRow).decoded ∧
      (Goroutine.event someJobID 0 secondRow).decoded ∈
        (publishedOf s.published someJobID).map ProductImported.decoded :=
    ⟨_, rfl, by decide, by decide, rfl, rfl, by decide⟩
  obtain ⟨s, hs, ⟨j, hj, hst⟩, hwritten, hdead, hfirst, hsecond⟩ := hrun
  obtain ⟨refs, -, -, hperm, hout⟩ := h _ _ _ s _ j (by decide) hs hj hst
  -- The second event would be carried by the only record that was written, the first one.
  obtain ⟨i, hi, hevt⟩ := List.mem_filterMap.mp (hperm.symm.subset hsecond)
  have hzero : i = 0 := by
    rcases hout i hi with ⟨hw, -⟩ | hd
    · exact hwritten i hw
    · rw [hdead] at hd
      cases hd
  rw [hzero, hfirst] at hevt
  revert hevt
  decide

end Pipeline

end CsvProductUploader

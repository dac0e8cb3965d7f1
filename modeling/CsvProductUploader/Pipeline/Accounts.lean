import CsvProductUploader.Catalog.Reporting
import CsvProductUploader.Pipeline.System

/-!
# The accounts of a job

What the counters of a job, the product topic and the rows of the workers have to do with
the events that were published for the job, in every run of the pipeline.

## Main definitions

* `Ledger` — an import's own count is the number of its published events.
* `Delivered` — the log holds published events, and each at most once.
* `Log.jobRefs` — the records of a job.
* `WorkerRows.on`, `ImportJob.on` — the two counters by the outcome they count.
* `Totals` — the rows of the workers are what they published, and the counters of a job at
  most their sums.

## Main results

* `ledger_step`, `delivered_step`, `totals_step` — the three are invariants.
* `SentAs.events` — the records of a job carry its published events.
-/

namespace CsvProductUploader

open Catalog (Backed Kind rowsOf)

/-- The rows of the workers for one outcome. -/
def WorkerRows.on (rows : WorkerRows) : Kind → MaxCounter GoString
  | .applied => rows.processed
  | .dead => rows.dead

/-- The counter of a job for one outcome. -/
def ImportJob.on (j : ImportJob) : Kind → ℕ
  | .applied => j.processedRows
  | .dead => j.deadRows

theorem WorkerRows.value_report (rows : WorkerRows) (p : ImportProgress) (kind : Kind)
    (k : GoString) : ((rows.report p).on kind).value k =
      if k = p.workerID then max ((rows.on kind).value k) (rowsOf p kind)
      else (rows.on kind).value k := by
  have hraise : (rows.report p).on kind = (rows.on kind).raise p.workerID (rowsOf p kind) := by
    cases kind <;> rfl
  rw [hraise, MaxCounter.value_raise]
  split
  · next hk => rw [hk]
  · rfl

/-! ### The records of a job -/

namespace Catalog.Log

/-- The event of a payload, if it decodes. -/
def eventOf : Payload → Option ProductImported
  | .event evt => some evt
  | .raw _ => none

theorem eventAt_eq (log : Log) (i : ℕ) :
    log.eventAt i = log[i]?.bind fun r => eventOf r.payload := by
  unfold eventAt
  cases hr : log[i]? with
  | none => rfl
  | some r =>
    obtain ⟨p, payload⟩ := r
    cases payload <;> rfl

/-- The records that carry an event of the job. -/
def jobRefs (log : Log) (id : GoString) : List ℕ :=
  (List.range log.length).filter fun i => (log.eventAt i).any fun evt => evt.jobID = id

theorem events_congr {log log' : Log} {refs : List ℕ}
    (h : ∀ i ∈ refs, log'.eventAt i = log.eventAt i) : log'.events refs = log.events refs :=
  List.filterMap_congr h

theorem length_events {log : Log} {refs : List ℕ}
    (h : ∀ i ∈ refs, (log.eventAt i).isSome = true) : (log.events refs).length = refs.length := by
  induction refs with
  | nil => rfl
  | cons i refs ih =>
    obtain ⟨hi, hrefs⟩ := List.forall_mem_cons.mp h
    obtain ⟨evt, hevt⟩ := Option.isSome_iff_exists.mp hi
    have hcons : log.events (i :: refs) = evt :: log.events refs := List.filterMap_cons_some hevt
    rw [hcons, List.length_cons, List.length_cons, ih hrefs]

/-- The events of a job, in the order of the log. -/
theorem events_jobRefs (log : Log) (id : GoString) :
    log.events (log.jobRefs id) = ((log.map Record.payload).filterMap eventOf).filter
        fun evt => evt.jobID = id := by
  induction log using List.reverseRecOn with
  | nil => rfl
  | append_singleton log r ih =>
    have hlast : eventAt (log ++ [r]) log.length = eventOf r.payload := by
      rw [eventAt_eq, List.getElem?_append_right (Nat.le_refl _), Nat.sub_self]
      rfl
    have hinit : (List.range log.length).filter (fun i =>
        (eventAt (log ++ [r]) i).any fun evt => evt.jobID = id) = jobRefs log id := by
      refine List.filter_congr fun i hi => ?_
      rw [eventAt_snoc (List.mem_range.mp hi)]
    have hevents : events (log ++ [r]) (jobRefs log id) = events log (jobRefs log id) :=
      events_congr fun i hi => eventAt_snoc (List.mem_range.mp (List.mem_filter.mp hi).1) r
    have hrefs : jobRefs (log ++ [r]) id =
        jobRefs log id ++ [log.length].filter fun i =>
          (eventAt (log ++ [r]) i).any fun evt => evt.jobID = id := by
      rw [jobRefs, List.length_append, List.length_singleton, List.range_succ, List.filter_append,
        hinit]
    have happ : events (log ++ [r]) (jobRefs (log ++ [r]) id) =
        events log (jobRefs log id) ++ events (log ++ [r]) ([log.length].filter fun i =>
          (eventAt (log ++ [r]) i).any fun evt => evt.jobID = id) := by
      rw [hrefs, events, List.filterMap_append]
      exact congrArg (· ++ _) hevents
    rw [happ, ih, List.map_append, List.filterMap_append, List.filter_append]
    congr 1
    cases hr : eventOf r.payload with
    | none => simp [hlast, hr, events]
    | some evt =>
      by_cases hid : evt.jobID = id
      · simp [hlast, hr, hid, events]
      · simp [hlast, hr, hid, events]

end Catalog.Log

namespace Pipeline

variable {d : Dialect} {maxPoll : ℕ} {s s' : State} {a : Label}

/-! ### The published count -/

/-- The counters that an import writes itself against what it has published. -/
structure Ledger (s : State) : Prop where
  owned : Importer.Owned s.importers
  uuid : ∀ id, s.importers.store.jobs id ≠ none → isUUID id = true
  jobs : ∀ e ∈ s.published, s.importers.store.jobs e.jobID ≠ none
  counter : ∀ id l, s.importers.live id = some l →
    l.g.pc.unflushed = true ∨ l.g.pc.flushed = true →
    l.g.published = (publishedOf s.published id).length
  saved : ∀ id l j, s.importers.live id = some l → s.importers.store.jobs id = some j →
    l.g.pc.totaled = true → j.publishedRows = l.g.published
  empty : ∀ id l, s.importers.live id = some l → l.g.pc = .completingEmpty → l.g.published = 0

theorem Ledger.publishedOf_eq_nil (hI : Ledger s) {id : GoString}
    (h : s.importers.store.jobs id = none) : publishedOf s.published id = [] := by
  rw [publishedOf, List.filter_eq_nil_iff]
  intro e he hid
  have hjob := hI.jobs e he
  rw [of_decide_eq_true hid] at hjob
  exact hjob h

/-- After the last write of its counters an import writes only its status. -/
theorem publishedRows_written {g : Goroutine} {c : Call} {o : Importer.Outcome} {j : ImportJob}
    (hc : g.call = some c) (hpc : g.pc.totaled = true) :
    (Importer.written c o j).publishedRows = j.publishedRows := by
  cases c with
  | updateProgress p =>
    unfold Goroutine.call at hc
    cases hg : g.pc <;> simp [hg, Pc.totaled] at hc hpc
  | updateStatus next lastErr =>
    unfold Importer.written
    cases o.applied <;> rfl
  | _ => rfl

/-- An import that goes on to complete an empty job has published nothing. -/
theorem published_of_completingEmpty {g g' : Goroutine} {a : Answer} (hg : g.resume a = some g')
    (hpc : g'.pc = .completingEmpty) : g'.published = 0 := by
  have htot : g'.pc.totaled = true := by
    rw [hpc]
    rfl
  obtain ⟨heq, ⟨-, hne⟩ | ⟨-, -, hzero⟩⟩ := Goroutine.resume_totaled hg htot
  · exact absurd hpc hne
  · exact heq.trans (hzero hpc)

theorem answer_job {o : Importer.Outcome} {a : Answer} (h : o.answer = a) (ha : a = .ok) :
    o.applied = true := by
  cases o with
  | ok => rfl
  | err e applied =>
    rw [ha] at h
    cases h

/-- **An import's own count is the number of its published events.** -/
theorem ledger_step (hI : Ledger s) (h : step d maxPoll s a = some s') : Ledger s' := by
  rcases step_importers h with ⟨himp, hpub, -⟩ | ⟨b, rfl⟩
  · refine ⟨?_, ?_, ?_, ?_, ?_, ?_⟩ <;> rw [himp]
    · exact hI.owned
    · exact hI.uuid
    · rw [hpub]
      exact hI.jobs
    · rw [hpub]
      exact hI.counter
    · exact hI.saved
    · exact hI.empty
  obtain ⟨hp, hb, -, hpub, -⟩ := step_importer h
  have hnew : ∀ id, (∀ now o l row, b = .call id now o → s.importers.live id = some l →
      l.g.call ≠ some (.publish row)) →
        publishedOf s'.published id = publishedOf s.published id := by
    intro id hne
    rw [hpub, publishedOf_append, publishedOf_publishes hne, List.append_nil]
  constructor
  · exact Importer.owned_step hI.owned hb
  · -- A job that was not there is one that a start has stored.
    intro id hj'
    by_cases hj : s.importers.store.jobs id = none
    · obtain ⟨j', hj'⟩ := Option.ne_none_iff_exists'.mp hj'
      obtain ⟨⟨p, n, file, rfl⟩, -⟩ := Importer.job_fresh hb hj hj'
      exact hp.1
    · exact hI.uuid id hj
  · intro e he
    rw [hpub] at he
    rcases List.mem_append.mp he with he | he
    · exact Importer.job_kept hb (hI.jobs e he)
    · obtain ⟨id, now, o, l, row, -, hl, -, -, rfl⟩ := publishes_eq_some (Option.mem_toList.mp he)
      obtain ⟨j, hj, -⟩ := hI.owned id l hl
      have hfound : s.importers.store.jobs (Goroutine.event id now row).jobID = some j := hj
      exact Importer.job_kept hb (by rw [hfound]; simp)
  · intro id l' hl' hpc
    rcases Importer.live_step hb hl' with ⟨hl, hcall⟩ | ⟨p, n, file, rfl, hfresh, -, rfl⟩ |
      ⟨l, rfl, hl, -, rfl⟩ | ⟨l, now, o, c, g, rfl, hl, hc, -, hg, -, rfl⟩ |
      ⟨l, j, stale, g, rfl, hl, -, hg, -, rfl⟩
    · rw [hnew id fun now o _ _ heq => absurd heq (hcall now o)]
      exact hI.counter id l' hl hpc
    · rw [hnew id fun _ _ _ _ heq => Importer.Label.noConfusion heq, hI.publishedOf_eq_nil hfresh]
      rfl
    · rw [hnew id fun _ _ _ _ heq => Importer.Label.noConfusion heq]
      exact hI.counter id l hl hpc
    · obtain ⟨hpc₀, ⟨heq, hne⟩ | ⟨row, hrow, hans, heq⟩⟩ := Goroutine.resume_published hg hpc
      · rw [hnew id]
        · exact heq.trans (hI.counter id l hl hpc₀)
        · rintro now' o' l₂ row ⟨⟩ hl₂
          obtain rfl := Option.some.inj (hl.symm.trans hl₂)
          exact hne row
      · -- The event is published and counted.
        have happ : o.applied = true := answer_job rfl hans
        have hpubl : publishes s.importers (.call id now o) =
            some (Goroutine.event id now row) := by
          simp only [publishes, hl, Option.bind_some, hrow, happ, if_true]
        have hone : publishedOf [Goroutine.event id now row] id = [Goroutine.event id now row] := by
          simp [publishedOf, Goroutine.event]
        change g.published = _
        rw [hpub, hpubl, publishedOf_append, List.length_append, Option.toList_some, hone, heq,
          hI.counter id l hl hpc₀]
        rfl
    · obtain ⟨hpc₀, ⟨heq, -⟩ | ⟨row, -, hans, -⟩⟩ := Goroutine.resume_published hg hpc
      · rw [hnew id fun _ _ _ _ heq => Importer.Label.noConfusion heq]
        exact heq.trans (hI.counter id l hl hpc₀)
      · cases hans
  · intro id l' j' hl' hj' hpc
    rcases Importer.live_step hb hl' with ⟨hl, hcall⟩ | ⟨p, n, file, rfl, -, -, rfl⟩ |
      ⟨l, rfl, hl, hstore, rfl⟩ | ⟨l, now, o, c, g, rfl, hl, hc, -, hg, hstore, rfl⟩ |
      ⟨l, j, stale, g, rfl, hl, -, hg, hstore, rfl⟩
    · obtain ⟨j, hj, -⟩ := hI.owned id l' hl
      obtain ⟨j'', hj'', hpub', -⟩ := Importer.counters_step hb hj
      obtain rfl := Option.some.inj (hj''.symm.trans hj')
      rcases hpub' with heq | ⟨now, o, l, p, heq, -⟩
      · rw [heq]
        exact hI.saved id l' j hl hj hpc
      · exact absurd heq (hcall now o)
    · cases hpc
    · rw [hstore] at hj'
      exact hI.saved id l j' hl hj' hpc
    · obtain ⟨j, hj, -⟩ := hI.owned id l hl
      rw [hstore, Importer.jobs_storeAfter_self hj c o] at hj'
      obtain rfl := Option.some.inj hj'
      obtain ⟨heq, ⟨hpc₀, -⟩ | ⟨hpc₀, hans, -⟩⟩ := Goroutine.resume_totaled hg hpc
      · rw [publishedRows_written hc hpc₀]
        exact (hI.saved id l j hl hj hpc₀).trans heq.symm
      · -- The counters are written for the last time.
        have happ : o.applied = true := answer_job rfl hans
        obtain rfl : Call.updateProgress l.g.progress = c := by
          rw [Goroutine.call, hpc₀] at hc
          exact Option.some.inj hc
        change (Importer.written (.updateProgress l.g.progress) o j).publishedRows = g.published
        simp only [heq, Importer.written, happ]
        rfl
    · rw [hstore] at hj'
      obtain ⟨heq, ⟨hpc₀, -⟩ | ⟨-, hans, -⟩⟩ := Goroutine.resume_totaled hg hpc
      · exact (hI.saved id l j' hl hj' hpc₀).trans heq.symm
      · cases hans
  · intro id l' hl' hpc
    rcases Importer.live_step hb hl' with ⟨hl, -⟩ | ⟨p, n, file, rfl, -, -, rfl⟩ |
      ⟨l, rfl, hl, -, rfl⟩ | ⟨l, now, o, c, g, rfl, hl, -, -, hg, -, rfl⟩ |
      ⟨l, j, stale, g, rfl, hl, -, hg, -, rfl⟩
    · exact hI.empty id l' hl hpc
    · rfl
    · exact hI.empty id l hl hpc
    · exact published_of_completingEmpty hg hpc
    · exact published_of_completingEmpty hg hpc

/-! ### The product topic -/

/-- The events of the log are the published ones that are no longer in flight. -/
def SentAs (s : State) (sent : List ProductImported) : Prop :=
  (sent ++ s.inflight).Perm s.published ∧
    s.cluster.log.map Catalog.Record.payload = sent.map fun e => .event e.decoded

/-- The log holds published events, and each at most once. -/
def Delivered (s : State) : Prop := ∃ sent, SentAs s sent

/-- Every record of the log carries an event. -/
theorem SentAs.eventAt {sent : List ProductImported} (h : SentAs s sent) {i : ℕ} {id : GoString}
    (hjob : s.cluster.log.jobAt i = some id) :
    ∃ evt, s.cluster.log.eventAt i = some evt ∧ evt.jobID = id := by
  unfold Catalog.Log.jobAt at hjob
  unfold Catalog.Log.eventAt
  split at hjob
  · next p evt hr =>
    rw [hr]
    exact ⟨evt, rfl, Option.some.inj hjob⟩
  · next p value hr =>
    have hmem : Catalog.Payload.raw value ∈ s.cluster.log.map Catalog.Record.payload :=
      List.mem_map.mpr ⟨_, List.mem_of_getElem? hr, rfl⟩
    rw [h.2] at hmem
    obtain ⟨e, -, he⟩ := List.mem_map.mp hmem
    cases he
  · cases hjob

/-- The records of a job carry its published events that are no longer in flight. -/
theorem SentAs.events {sent : List ProductImported} (h : SentAs s sent) (hI : Ledger s)
    (id : GoString) : s.cluster.log.events (s.cluster.log.jobRefs id) =
      (publishedOf sent id).map ProductImported.decoded := by
  have hpayload : (s.cluster.log.map Catalog.Record.payload).filterMap Catalog.Log.eventOf =
      sent.map ProductImported.decoded := by
    rw [h.2, List.filterMap_map]
    exact congrFun (List.filterMap_eq_map (f := ProductImported.decoded)) sent
  rw [Catalog.Log.events_jobRefs, hpayload, List.filter_map, publishedOf]
  congr 1
  refine List.filter_congr fun e he => ?_
  -- A job id is a UUID, and survives the encoding.
  have hmem : e ∈ s.published := h.1.subset (List.mem_append_left _ he)
  have huuid := hI.uuid e.jobID (hI.jobs e hmem)
  have hid : e.decoded.jobID = e.jobID := sanitize_of_isUUID huuid
  simp only [Function.comp_apply, hid]

theorem SentAs.length_jobRefs {sent : List ProductImported} (h : SentAs s sent) (hI : Ledger s)
    (id : GoString) : (s.cluster.log.jobRefs id).length = (publishedOf sent id).length := by
  have hevents := congrArg List.length (h.events hI id)
  rw [Catalog.Log.length_events, List.length_map] at hevents
  · exact hevents
  · exact fun i hi => Option.isSome_of_any (List.mem_filter.mp hi).2

/-- The published events of a job are in the log or in flight. -/
theorem SentAs.publishedOf {sent : List ProductImported} (h : SentAs s sent) (id : GoString) :
    (publishedOf sent id ++ publishedOf s.inflight id).Perm (publishedOf s.published id) := by
  rw [← publishedOf_append]
  exact h.1.filter _

/-- **The log holds published events, and each at most once.** -/
theorem delivered_step (hI : Delivered s) (h : step d maxPoll s a = some s') : Delivered s' := by
  obtain ⟨sent, hperm, hlog⟩ := hI
  cases a with
  | importer b =>
    obtain ⟨-, -, hcl, hpub, hin, -⟩ := step_importer h
    refine ⟨sent, ?_, by rw [hcl]; exact hlog⟩
    rw [hpub, hin, ← List.append_assoc]
    exact hperm.append_right _
  | deliver evt p =>
    obtain ⟨hmem, rfl⟩ := step_deliver h
    refine ⟨sent ++ [evt], ?_, ?_⟩
    · -- The record moves from what is in flight to what is in the log.
      have hswap : (sent ++ [evt] ++ s.inflight.erase evt).Perm (sent ++ s.inflight) := by
        rw [List.append_assoc]
        exact (List.perm_cons_erase hmem).symm.append_left sent
      exact hswap.trans hperm
    · change (s.cluster.log ++ [_]).map _ = _
      rw [List.map_append, List.map_append, hlog]
      rfl
  | group b =>
    have hlog' := log_group h
    obtain ⟨-, cluster, -, rfl⟩ := step_group h
    refine ⟨sent, hperm, ?_⟩
    rw [hlog']
    exact hlog

/-! ### The rows of the workers -/

/-- The rows of the workers say what was published, and the counters of a job at most their
sums. -/
structure Totals (s : State) : Prop where
  rows : ∀ id k kind,
    Backed s.cluster.progress k id kind (((s.importers.store.workers id).on kind).value k)
  jobs : ∀ id j, s.importers.store.jobs id = some j → ∀ kind,
    j.on kind ≤ ((s.importers.store.workers id).on kind).total

/-- Folding a snapshot lowers no sum. -/
theorem total_le_upsertWorkerRow (store : JobStore) (p : ImportProgress) (id : GoString)
    (kind : Kind) :
    ((store.workers id).on kind).total ≤
        (((store.upsertWorkerRow p).workers id).on kind).total := by
  by_cases hid : id = p.jobID
  · subst hid
    rw [JobStore.workers_upsertWorkerRow_self]
    cases kind <;> exact MaxCounter.total_le_total_raise ..
  · rw [JobStore.workers_upsertWorkerRow_of_ne _ _ hid]

/-- **The rows of the workers say what was published.** -/
theorem totals_step (hI : Totals s) (h : step d maxPoll s a = some s') : Totals s' := by
  have hmono : ∀ p ∈ s.cluster.progress, p ∈ s'.cluster.progress :=
    fun p hp => mem_progress_step h hp
  rcases step_importers h with ⟨himp, -⟩ | ⟨b, rfl⟩
  · constructor
    · intro id k kind
      rw [himp]
      exact (hI.rows id k kind).mono hmono (Nat.le_refl _)
    · rw [himp]
      exact hI.jobs
  obtain ⟨hp, hb, -⟩ := step_importer h
  constructor
  · intro id k kind
    have hold := (hI.rows id k kind).mono hmono (Nat.le_refl _)
    rcases Importer.workers_step hb with heq | ⟨p, rfl, hstore⟩
    · rw [heq]
      exact hold
    · rw [hstore]
      by_cases hid : id = p.jobID
      · subst hid
        rw [JobStore.workers_upsertWorkerRow_self, WorkerRows.value_report]
        split
        · next hk =>
          -- The row becomes the larger of what it was and the snapshot, which is published.
          have hnew : Backed s'.cluster.progress k p.jobID kind (rowsOf p kind) :=
            Or.inr ⟨p, hmono p hp, hk.symm, rfl, Nat.le_refl _⟩
          rcases Nat.le_total ((s.importers.store.workers p.jobID).on kind |>.value k)
            (rowsOf p kind) with hle | hle
          · rw [Nat.max_eq_right hle]
            exact hnew
          · rw [Nat.max_eq_left hle]
            exact hold
        · exact hold
      · rw [JobStore.workers_upsertWorkerRow_of_ne _ _ hid]
        exact hold
  · intro id j' hj' kind
    have hle : ((s.importers.store.workers id).on kind).total ≤
        ((s'.importers.store.workers id).on kind).total := by
      rcases Importer.workers_step hb with heq | ⟨p, -, hstore⟩
      · rw [heq]
      · rw [hstore]
        exact total_le_upsertWorkerRow ..
    cases hj : s.importers.store.jobs id with
    | none =>
      obtain ⟨-, rfl⟩ := Importer.job_fresh hb hj hj'
      cases kind <;> exact Nat.zero_le _
    | some j =>
      obtain ⟨j'', hj'', -, htotals⟩ := Importer.counters_step hb hj
      obtain rfl := Option.some.inj (hj''.symm.trans hj')
      rcases htotals with ⟨hproc, hdead⟩ | ⟨-, hproc, hdead⟩
      · refine Nat.le_trans ?_ hle
        have hold := hI.jobs id j hj kind
        cases kind with
        | applied => exact Nat.le_trans (Nat.le_of_eq hproc) hold
        | dead => exact Nat.le_trans (Nat.le_of_eq hdead) hold
      · refine Nat.le_trans ?_ hle
        cases kind with
        | applied => exact Nat.le_of_eq hproc
        | dead => exact Nat.le_of_eq hdead

end Pipeline

end CsvProductUploader

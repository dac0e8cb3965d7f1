import CsvProductUploader.Catalog.Rejections
import CsvProductUploader.ImportJob.Handover
import CsvProductUploader.Pipeline.Completion

/-!
# From the file to the catalog

A job that is completed has had every valid row of its file published, and every published
event of it has been adjudicated.  What `Stream` makes of a file passes the validation of the
catalog, so that none of it is dead-lettered.

## Main definitions

* `Uploaded` — the job was started with this file.
* `Imports` — what the imports have published, against the files they were started with.
* `Arrived` — the rows are on the topic, each of them once, and in the catalog.

## Main results

* `imports_step` — what the imports have published, after one step.
* `normalized_of_stream` — every valid row of a file is normalized.
* `upload_arrived` — **the valid rows of a completed import are in the catalog**.
-/

namespace CsvProductUploader.Pipeline

open Catalog Handover Runs

/-! ### The rows of an import -/

/-- The job was started with this file. -/
def Uploaded (as : List Label) (id : GoString) (file : File) : Prop :=
  ∃ p n, Label.importer (.startImport p id n file) ∈ as

theorem Uploaded.snoc {as : List Label} {id : GoString} {file : File} (h : Uploaded as id file)
    (a : Label) : Uploaded (as ++ [a]) id file := by
  obtain ⟨p, n, hmem⟩ := h
  exact ⟨p, n, List.mem_append_left _ hmem⟩

theorem uploaded_snoc {as : List Label} {a : Label} {id : GoString} {file : File} :
    Uploaded (as ++ [a]) id file ↔
      Uploaded as id file ∨ ∃ p n, a = .importer (.startImport p id n file) := by
  simp only [Uploaded, List.mem_append, List.mem_singleton]
  constructor
  · rintro ⟨p, n, hmem | rfl⟩
    · exact Or.inl ⟨p, n, hmem⟩
    · exact Or.inr ⟨p, n, rfl⟩
  · rintro (⟨p, n, hmem⟩ | ⟨p, n, rfl⟩)
    · exact ⟨p, n, Or.inl hmem⟩
    · exact ⟨p, n, Or.inr rfl⟩

/-- What an event carries of its row. -/
def carried (e : ProductImported) : ℤ × ProductData := (e.rowNum, e.product)

/-- What a row leaves to its event. -/
def content (row : Row) : ℤ × ProductData := (row.num, row.product)

/-- What the imports have published, against the files they were started with. -/
structure Imports (as : List Label) (s : State) : Prop where
  stored : ∀ id file, Uploaded as id file → s.importers.store.jobs id ≠ none
  unique : ∀ id file file', Uploaded as id file → Uploaded as id file' → file = file'
  live : ∀ id l, s.importers.live id = some l → Uploaded as id l.g.file
  /-- The valid rows are published in order, the one in the callback and those to come
  aside. -/
  running : ∀ id l, s.importers.live id = some l → Handover.running l.g.pc = true →
    (publishedOf s.published id).map carried ++
        (unpublished l.g.pc ++ validRows (pending l.g)).map content =
      (validRows l.g.file.rows).map content
  completed : ∀ id j file, s.importers.store.jobs id = some j → j.status = .completed →
    Uploaded as id file →
      (publishedOf s.published id).map carried = (validRows file.rows).map content

/-- What an answered call publishes for its job, while the import goes on. -/
theorem publishes_call {si : Importer.State} {id : GoString} {l : Importer.Live} {now : ℤ}
    {o : Importer.Outcome} {c : Call} {g : Goroutine} (hl : si.live id = some l)
    (hc : l.g.call = some c) (hg : l.g.resume o.answer = some g)
    (hrun : Handover.running g.pc = true) :
    (publishedOf (publishes si (.call id now o)).toList id).map carried =
      (passed l.g o.answer).toList.map content := by
  rw [← taken_eq_passed hc o]
  simp only [publishes, hl, Option.bind_some, hc]
  cases c with
  | publish row =>
    cases o with
    | ok =>
      have hone : publishedOf [Goroutine.event id now row] id = [Goroutine.event id now row] := by
        simp [publishedOf, Goroutine.event]
      change (publishedOf [Goroutine.event id now row] id).map carried = [content row]
      rw [hone]
      rfl
    | err e applied =>
      -- The import fails, whether the event was published or not.
      obtain ⟨rows, hpc⟩ := pc_of_publish hc
      simp only [Goroutine.resume, hpc, Importer.Outcome.answer, Option.some.injEq] at hg
      subst hg
      cases hrun
  | _ => rfl

/-- The rows that are published and to come, after an answer. -/
theorem rows_resume {g g' : Goroutine} {a : Answer} (h : g.resume a = some g')
    (hrun : Handover.running g'.pc = true) :
    (passed g a).toList ++ (unpublished g'.pc ++ validRows (pending g')) =
      unpublished g.pc ++ validRows (pending g) := by
  obtain ⟨-, hpending, hpassed⟩ := resume_rows h hrun
  rw [← List.append_assoc, hpassed, List.append_assoc, ← validRows_append, hpending]

/-! ### One step -/

variable {d : Dialect} {maxPoll : ℕ} {s s' : State} {a : Label} {as : List Label}

/-- The published rows of a running import, after one step of an importer. -/
theorem running_step {b : Importer.Label} (hI : Imports as s) (hL : Ledger s)
    (hb : Importer.step s.importers b = some s'.importers)
    (hpub : s'.published = s.published ++ (publishes s.importers b).toList) {id : GoString}
    {l' : Importer.Live} (hl' : s'.importers.live id = some l')
    (hrun : Handover.running l'.g.pc = true) :
    (publishedOf s'.published id).map carried ++
        (unpublished l'.g.pc ++ validRows (pending l'.g)).map content =
      (validRows l'.g.file.rows).map content := by
  have hnew : (∀ now o, b ≠ .call id now o) →
      publishedOf s'.published id = publishedOf s.published id := by
    intro hne
    rw [hpub, publishedOf_append, publishedOf_publishes fun now o _ _ heq => absurd heq (hne now o),
      List.append_nil]
  rcases Importer.live_step hb hl' with ⟨hl, hcall⟩ | ⟨p, n, file, rfl, hfresh, -, rfl⟩ |
    ⟨l, rfl, hl, -, rfl⟩ | ⟨l, now, o, c, g, rfl, hl, hc, -, hg, -, rfl⟩ |
    ⟨l, j, stale, g, rfl, hl, -, hg, -, rfl⟩
  · rw [hnew hcall]
    exact hI.running id l' hl hrun
  · rw [hnew (by simp), hL.publishedOf_eq_nil hfresh]
    rfl
  · rw [hnew (by simp)]
    exact hI.running id l hl hrun
  · have hold := hI.running id l hl (resume_rows hg hrun).1
    -- What the row adds to the published events, the pending rows lose.
    dsimp only at hrun ⊢
    rw [hpub, publishedOf_append, List.map_append, publishes_call hl hc hg hrun, List.append_assoc,
      ← List.map_append, rows_resume hg hrun, (resume_counters hg).1]
    exact hold
  · have hold := hI.running id l hl (resume_rows hg hrun).1
    have hrows := rows_resume hg hrun
    rw [passed_job, Option.toList_none, List.nil_append] at hrows
    dsimp only
    rw [hnew (by simp), hrows, (resume_counters hg).1]
    exact hold

/-- **What the imports have published**, after one step. -/
theorem imports_step (hI : Imports as s) (hL : Ledger s) (h : step d maxPoll s a = some s') :
    Imports (as ++ [a]) s' := by
  by_cases hne : ∀ b, a ≠ .importer b
  · -- The imports are left alone.
    obtain ⟨himp, hpub, -⟩ := (step_importers h).resolve_right fun ⟨b, hb⟩ => hne b hb
    have hup : ∀ {id file}, Uploaded (as ++ [a]) id file → Uploaded as id file := fun hup =>
      (uploaded_snoc.mp hup).resolve_right fun ⟨_, _, ha⟩ => hne _ ha
    constructor
    · rw [himp]
      exact fun id file hup' => hI.stored id file (hup hup')
    · exact fun id file file' hup₁ hup₂ => hI.unique id file file' (hup hup₁) (hup hup₂)
    · rw [himp]
      exact fun id l hl => (hI.live id l hl).snoc a
    · rw [himp, hpub]
      exact hI.running
    · rw [himp, hpub]
      exact fun id j file hj hst hup' => hI.completed id j file hj hst (hup hup')
  push Not at hne
  obtain ⟨b, rfl⟩ := hne
  obtain ⟨-, hb, -, hpub, -⟩ := step_importer h
  -- A job that is stored has not just been started.
  have hup : ∀ {id file}, s.importers.store.jobs id ≠ none →
      Uploaded (as ++ [.importer b]) id file → Uploaded as id file := by
    intro id file hj hup
    refine (uploaded_snoc.mp hup).resolve_right ?_
    rintro ⟨p, n, heq⟩
    obtain rfl := Label.importer.inj heq
    exact hj (Importer.step_startImport hb).2.1
  have hfile : ∀ {id file file'}, s.importers.store.jobs id = none →
      Uploaded (as ++ [.importer b]) id file → Uploaded (as ++ [.importer b]) id file' →
        file = file' := by
    intro id file file' hj hup₁ hup₂
    rcases uploaded_snoc.mp hup₁ with hold | ⟨p, n, heq⟩
    · exact absurd hj (hI.stored id file hold)
    rcases uploaded_snoc.mp hup₂ with hold | ⟨p', n', heq'⟩
    · exact absurd hj (hI.stored id file' hold)
    rw [heq] at heq'
    cases heq'
    rfl
  have hlive : ∀ id l', s'.importers.live id = some l' →
      Uploaded (as ++ [.importer b]) id l'.g.file := by
    intro id l' hl'
    rcases Importer.live_step hb hl' with ⟨hl, -⟩ | ⟨p, n, file, rfl, -, -, rfl⟩ |
      ⟨l, rfl, hl, -, rfl⟩ | ⟨l, now, o, c, g, rfl, hl, -, -, hg, -, rfl⟩ |
      ⟨l, j, stale, g, rfl, hl, -, hg, -, rfl⟩
    · exact (hI.live id l' hl).snoc _
    · exact uploaded_snoc.mpr (Or.inr ⟨p, n, rfl⟩)
    · exact (hI.live id l hl).snoc _
    · rw [(resume_counters hg).1]
      exact (hI.live id l hl).snoc _
    · rw [(resume_counters hg).1]
      exact (hI.live id l hl).snoc _
  refine ⟨?_, ?_, hlive, fun id l' => running_step hI hL hb hpub, ?_⟩
  · intro id file hup'
    rcases uploaded_snoc.mp hup' with hold | ⟨p, n, heq⟩
    · exact Importer.job_kept hb (hI.stored id file hold)
    · obtain rfl := Label.importer.inj heq
      obtain ⟨-, -, himp⟩ := Importer.step_startImport hb
      rw [himp, JobStore.jobs_create, if_pos rfl]
      simp
  · intro id file file' hup₁ hup₂
    by_cases hj : s.importers.store.jobs id = none
    · exact hfile hj hup₁ hup₂
    · exact hI.unique id file file' (hup hj hup₁) (hup hj hup₂)
  · intro id j' file hj' hst' hup'
    cases hj : s.importers.store.jobs id with
    | none =>
      obtain ⟨-, rfl⟩ := Importer.job_fresh hb hj hj'
      cases hst'
    | some j =>
      have hold := hup (by simp [hj]) hup'
      have hkeep : (∀ now o l row, b = .call id now o → s.importers.live id = some l →
          l.g.call ≠ some (.publish row)) →
          publishedOf s'.published id = publishedOf s.published id := by
        intro hne
        rw [hpub, publishedOf_append, publishedOf_publishes hne, List.append_nil]
      obtain ⟨j'', hj'', hcases⟩ := Importer.job_step hb hj
      obtain rfl := Option.some.inj (hj''.symm.trans hj')
      rcases hcases with ⟨hst, -⟩ | ⟨p, -, -, hst, -⟩ | ⟨now, o, l, next, e, rfl, hl, hc, -, hst, -⟩
      · rw [hst] at hst'
        rw [hkeep]
        · exact hI.completed id j file hj hst' hold
        · -- The import of a completed job makes no call.
          intro now o l row _ hl hc
          obtain ⟨j₀, hj₀, hacc⟩ := hL.owned id l hl
          obtain rfl := Option.some.inj (hj.symm.trans hj₀)
          obtain ⟨rows, hpc⟩ := pc_of_publish hc
          rcases hacc.1 (by rw [hpc]; rfl) with hst | hst <;> rw [hst] at hst' <;> cases hst'
      · rw [hst] at hst'
        cases hst'
      · rw [hst] at hst'
        subst hst'
        rw [hkeep]
        · -- Every valid row is published by the time the status is written.
          obtain rfl := hI.unique id file l.g.file hold (hI.live id l hl)
          rcases Goroutine.call_updateStatus hc with ⟨hpc, -⟩ | ⟨-, hnext, -⟩ | ⟨hpc, -⟩ |
            ⟨cause, -, hnext, -⟩
          · have hrun := hI.running id l hl (by rw [hpc]; rfl)
            simpa [hpc, unpublished, pending, validRows] using hrun
          · cases hnext
          · have hrun := hI.running id l hl (by rw [hpc]; rfl)
            simpa [hpc, unpublished, pending, validRows] using hrun
          · cases hnext
        · rintro now' o' l₂ row - hl₂ hrow
          obtain rfl := Option.some.inj (hl.symm.trans hl₂)
          rw [hc] at hrow
          cases hrow

theorem imports_initial : Imports [] initial where
  stored := by rintro id file ⟨p, n, ⟨⟩⟩
  unique := by rintro id file file' ⟨p, n, ⟨⟩⟩
  live := by rintro id l ⟨⟩
  running := by rintro id l ⟨⟩
  completed := by rintro id j file ⟨⟩

/-! ### Every run -/

/-- What holds of the runs in which no record is counted twice. -/
theorem settled_imports (hF : Meets (step d maxPoll) (Along Fresh) initial as)
    (hC : Meets (step d maxPoll) Careful initial as)
    (h : exec (step d maxPoll) initial as = some s) :
    Steady s ∧ Rejected s.cluster ∧ Imports as s := by
  refine exec_history_of_meets (I := fun as s => Steady s ∧ Rejected s.cluster ∧ Imports as s)
    ?_ ⟨steady_initial, rejected_initial, imports_initial⟩ (hF.and hC) h
  rintro as s a s' ⟨hS, hR, hI⟩ hC hs
  refine ⟨steady_step hS hC.1 hC.2 hs, ?_, imports_step hI hS.ledger hs⟩
  rcases step_cluster hs with heq | ⟨b, -, hb⟩
  · rw [heq]
    exact hR
  · exact rejected_step hR hS.group.staged hb

/-- The records of a settled job are all that it has on the topic. -/
theorem Settled.jobRefs {id : GoString} (hset : Settled s id) (hL : Ledger s) (hD : Delivered s) :
    (s.cluster.log.events (s.cluster.log.jobRefs id)).Perm
        ((publishedOf s.published id).map ProductImported.decoded) ∧
      ∀ i ∈ s.cluster.log.jobRefs id,
        (i ∈ s.cluster.written ∧ InTable s.cluster i) ∨ i ∈ s.cluster.dead := by
  obtain ⟨refs, hnodup, hsome, hperm, hout⟩ := hset
  obtain ⟨sent, hS⟩ := hD
  have hsub : refs ⊆ s.cluster.log.jobRefs id := by
    intro i hi
    obtain ⟨evt, hevt⟩ := Option.isSome_iff_exists.mp (hsome i hi)
    have hmem : evt ∈ s.cluster.log.events refs := List.mem_filterMap.mpr ⟨i, hi, hevt⟩
    obtain ⟨e, he, rfl⟩ := List.mem_map.mp (hperm.subset hmem)
    obtain ⟨hpub, hid⟩ := List.mem_filter.mp he
    refine List.mem_filter.mpr ⟨List.mem_range.mpr ?_, ?_⟩
    · exact Log.lt_of_jobAt (Log.jobAt_of_eventAt hevt)
    · rw [hevt]
      -- A job id is a UUID, and survives the encoding.
      have huuid : e.decoded.jobID = e.jobID :=
        sanitize_of_isUUID (hL.uuid e.jobID (hL.jobs e hpub))
      simpa [huuid] using hid
  have hlength : (s.cluster.log.jobRefs id).length ≤ refs.length := by
    have hevents := hperm.length_eq
    rw [Log.length_events hsome, List.length_map] at hevents
    have hsplit := (hS.publishedOf id).length_eq
    rw [List.length_append, ← hS.length_jobRefs hL id] at hsplit
    omega
  have hsame := (List.subperm_of_subset hnodup hsub).perm_of_length_le hlength
  exact ⟨(hsame.symm.filterMap _).trans hperm, fun i hi => hout i (hsame.symm.subset hi)⟩

/-! ### The rows of a file -/

theorem normalized_of_rowOfRead {rt : Runtime} {opts : StreamOptions} {cols : GoString → Option ℕ}
    {num : ℕ} {read : Except String (List GoString)} {row : Row}
    (h : rowOfRead rt opts cols num read = some row) (hvalid : row.valid = true) :
    ∃ c, Normalized rt.upper c row.product := by
  cases read with
  | error err =>
    obtain rfl := Option.some.inj h
    cases hvalid
  | ok record =>
    obtain ⟨c, -, hnorm⟩ := parseRow_valid h hvalid
    exact ⟨c, normalize_eq_ok hnorm⟩

theorem normalized_of_rowsFrom {rt : Runtime} {opts : StreamOptions}
    {cols : GoString → Option ℕ} {num : ℕ} {reads : List (Except String (List GoString))}
    {rows : List Row} (h : rowsFrom rt opts cols num reads = some rows) :
    ∀ row ∈ rows, row.valid = true → ∃ c, Normalized rt.upper c row.product := by
  induction reads generalizing num rows with
  | nil =>
    obtain rfl := Option.some.inj h
    exact fun row hrow => absurd hrow List.not_mem_nil
  | cons read reads ih =>
    simp only [rowsFrom, Option.bind_eq_bind, Option.bind_eq_some_iff] at h
    obtain ⟨row, hrow, rest, hrest, hrows⟩ := h
    obtain rfl := Option.some.inj hrows
    exact List.forall_mem_cons.mpr ⟨normalized_of_rowOfRead hrow, ih hrest⟩

/-- **Every valid row of a file is normalized.** -/
theorem normalized_of_stream {rt : Runtime} {opts : StreamOptions} {src : GoString} {file : File}
    (h : stream rt opts src = some file) :
    ∀ row ∈ validRows file.rows, ∃ c, Normalized rt.upper c row.product := by
  intro row hrow
  obtain ⟨hmem, hvalid⟩ := List.mem_filter.mp hrow
  unfold stream at h
  split at h
  · obtain rfl := Option.some.inj h
    cases hmem
  · obtain ⟨rows, hrows, rfl⟩ := Option.map_eq_some_iff.mp h
    exact normalized_of_rowsFrom hrows row hmem hvalid

/-! ### Arrival -/

/-- The rows are on the topic, each of them once, and in the catalog. -/
structure Arrived (s : State) (id : GoString) (rows : List Row) : Prop where
  /-- The records of the job carry the rows. -/
  events : ((s.cluster.log.events (s.cluster.log.jobRefs id)).map carried).Perm
    (rows.map fun row => (↑row.num, row.product.decoded))
  /-- Each of them is written, and none is dead-lettered. -/
  written : ∀ i ∈ s.cluster.log.jobRefs id, i ∈ s.cluster.written ∧ i ∉ s.cluster.dead
  stored : ∀ row ∈ rows, (s.cluster.products
    (row.product.decoded.merchantID, row.product.decoded.productID)).isSome = true

/-- **The valid rows of a completed import are in the catalog**: in every run whose workers
start under fresh identities and stop only with counts they have committed, however often
importers are restarted, calls fail and snapshots are repeated. -/
theorem upload_arrived {rt : Runtime} {opts : StreamOptions} {src : GoString} {file : File}
    (hfile : stream rt opts src = some file)
    (hF : Meets (step d maxPoll) (Along Fresh) initial as)
    (hC : Meets (step d maxPoll) Careful initial as)
    (h : exec (step d maxPoll) initial as = some s) {id : GoString} {j : ImportJob}
    (hup : Uploaded as id file) (hj : s.importers.store.jobs id = some j)
    (hst : j.status = .completed) : Arrived s id (validRows file.rows) := by
  obtain ⟨hS, hR, hI⟩ := settled_imports hF hC h
  obtain ⟨hperm, hout⟩ :=
    (hS.confirmed.completed id j hj hst).jobRefs hS.ledger hS.delivered
  have hrows := hI.completed id j file hj hst hup
  have huuid : isUUID id = true := hS.ledger.uuid id (by simp [hj])
  -- A record of the job carries a valid row, and is written.
  have hwritten : ∀ i ∈ s.cluster.log.jobRefs id,
      i ∉ s.cluster.dead ∧ i ∈ s.cluster.written ∧ InTable s.cluster i := by
    intro i hi
    obtain ⟨evt, hevt⟩ := Option.isSome_iff_exists.mp
      (Option.isSome_of_any (List.mem_filter.mp hi).2)
    have hmem : evt ∈ s.cluster.log.events (s.cluster.log.jobRefs id) :=
      List.mem_filterMap.mpr ⟨i, hi, hevt⟩
    obtain ⟨e, he, rfl⟩ := List.mem_map.mp (hperm.subset hmem)
    have hcarried : carried e ∈ (validRows file.rows).map content := by
      rw [← hrows]
      exact List.mem_map_of_mem he
    obtain ⟨row, hrow, hcontent⟩ := List.mem_map.mp hcarried
    obtain ⟨c, hnorm⟩ := normalized_of_stream hfile row hrow
    have hproduct : row.product = e.product := congrArg Prod.snd hcontent
    have hjob : e.jobID = id := of_decide_eq_true (List.mem_filter.mp he).2
    obtain ⟨⟨p, hp⟩, -⟩ := valid_row_accepted e (hproduct ▸ hnorm) (hjob ▸ huuid)
    have hvalid : s.cluster.log.validAt i = true := by
      rw [Log.validAt, hevt, Option.any_some, hp]
      rfl
    have halive : i ∉ s.cluster.dead := fun hdead => by
      rw [(hR.dead i hdead).2] at hvalid
      cases hvalid
    exact ⟨halive, (hout i hi).resolve_right halive⟩
  refine ⟨?_, fun i hi => ⟨(hwritten i hi).2.1, (hwritten i hi).1⟩, fun row hrow => ?_⟩
  · have hmap := hperm.map carried
    have heq : ((publishedOf s.published id).map ProductImported.decoded).map carried =
        (validRows file.rows).map fun row => ((row.num : ℤ), row.product.decoded) := by
      calc ((publishedOf s.published id).map ProductImported.decoded).map carried
          = ((publishedOf s.published id).map carried).map fun x => (x.1, x.2.decoded) := by
            simp only [List.map_map]
            rfl
        _ = ((validRows file.rows).map content).map fun x => (x.1, x.2.decoded) := by
            rw [hrows]
        _ = _ := by
            simp only [List.map_map]
            rfl
    rwa [heq] at hmap
  · have hcontent : content row ∈ (publishedOf s.published id).map carried := by
      rw [hrows]
      exact List.mem_map_of_mem hrow
    obtain ⟨e, he, hcarried⟩ := List.mem_map.mp hcontent
    obtain ⟨i, hi, hevt⟩ := List.mem_filterMap.mp (hperm.symm.subset (List.mem_map_of_mem he))
    obtain ⟨evt, hevt', hrow'⟩ := (hwritten i hi).2.2
    obtain rfl := Option.some.inj (hevt'.symm.trans hevt)
    rw [show row.product = e.product from (congrArg Prod.snd hcarried).symm]
    exact hrow'

/-! ### A run -/

/-- Three records are imported, of which the second is rejected. -/
def importPens : List Label :=
  [.importer (.start 0), .importer (.startImport 0 someJobID 1 pensFile)] ++
    List.replicate 9 (.importer (.call someJobID 0 .ok)) ++
    (validRows pensFile.rows).map (fun row => .deliver (Goroutine.event someJobID 0 row) 0) ++
    List.replicate 3 (.importer (.call someJobID 0 .ok))

def pensRun : List Label :=
  importPens ++ adjudicate (lit "a") [0, 1] ++ [.group (.worker (lit "a") (.commit true true))] ++
    foldOf (lit "a") 2 ++ confirm

theorem upload_arrived_pens : ∃ s, exec (step canonicalDialect 10) initial pensRun = some s ∧
    (∃ j ∈ s.importers.store.jobs someJobID, j.status = .completed) ∧
      Arrived s someJobID (validRows pensFile.rows) := by
  have hstream : stream plainRuntime ⟨lit "m", lit "USD"⟩ pens = some pensFile := by decide
  have hrun : ∃ s, exec (step canonicalDialect 10) initial pensRun = some s ∧
      (∃ j ∈ s.importers.store.jobs someJobID, j.status = .completed) := ⟨_, rfl, by decide⟩
  obtain ⟨s, hs, j, hj, hst⟩ := hrun
  have hF : Meets (step canonicalDialect 10) (Along Fresh) initial pensRun := by decide
  have hC : Meets (step canonicalDialect 10) Careful initial pensRun := by decide
  have hup : Uploaded pensRun someJobID pensFile := ⟨0, 1, by simp [pensRun, importPens]⟩
  exact ⟨s, hs, ⟨j, hj, hst⟩, upload_arrived hstream hF hC hs hup hj hst⟩

end CsvProductUploader.Pipeline

import CsvProductUploader.Catalog.Custody

/-!
# What becomes of a counted record

A worker counts the events of a batch after it has dead-lettered the invalid ones and
written the rest, so what a counter says has already happened.

## Main definitions

* `Resolved` — the record is written, or delivered to the dead letter topic.
* `Pc.Done` — what the loop has done with its batch on its way to counting it.
* `Handled` — every counted event is resolved.
* `Materialized` — every written event has its row in the table.
* `Kept` — what no step takes back.

## Main results

* `handled_step`, `materialized_step` — both are invariants.
-/

namespace CsvProductUploader.Catalog

/-- The record is written, or delivered to the dead letter topic. -/
def Resolved (s : State) (i : ℕ) : Prop := i ∈ s.written ∨ i ∈ s.dead

instance (s : State) (i : ℕ) : Decidable (Resolved s i) := inferInstanceAs (Decidable (_ ∨ _))

/-- What the loop has done with its batch on its way to counting it. -/
def Pc.Done (s : State) (batch : List ℕ) : Pc → Prop
  | .poisoning todo | .republishing _ todo => ∀ i ∈ todo, s.log.eventAt i = none
  | .deadLettering todo => ∀ i ∈ s.log.invalidRefs batch, i ∈ todo ∨ i ∈ s.dead
  | .writing _ => ∀ i ∈ s.log.invalidRefs batch, i ∈ s.dead
  | .counting => ∀ i ∈ s.log.eventRefs batch, Resolved s i
  | .polling | .flushing _ | .committing | .draining _ | .returned => True

section
variable {d : Dialect} {maxPoll : ℕ} {s s' : State} {k : GoString} {w : Worker} {b : Action}
  {batch todo : List ℕ} {pc : Pc}

/-- What is done stays done. -/
theorem Pc.Done.mono (h : pc.Done s batch) (hlog : s'.log = s.log)
    (hwritten : ∀ i ∈ s.written, i ∈ s'.written) (hdead : ∀ i ∈ s.dead, i ∈ s'.dead) :
    pc.Done s' batch := by
  cases pc with
  | poisoning todo => exact fun i hi => hlog ▸ h i hi
  | republishing j todo => exact fun i hi => hlog ▸ h i hi
  | deadLettering todo =>
    intro i hi
    rw [hlog] at hi
    exact (h i hi).imp_right (hdead i)
  | writing n =>
    intro i hi
    rw [hlog] at hi
    exact hdead i (h i hi)
  | counting =>
    intro i hi
    rw [hlog] at hi
    exact (h i hi).imp (hwritten i) (hdead i)
  | _ => trivial

theorem done_deadLetters (h : ∀ i ∈ s.log.invalidRefs batch, i ∈ todo ∨ i ∈ s.dead) :
    (Pc.deadLetters s.log batch todo).Done s batch := by
  unfold Pc.deadLetters
  split
  · next hnil =>
    subst hnil
    have hdead : ∀ i ∈ s.log.invalidRefs batch, i ∈ s.dead :=
      fun i hi => (h i hi).resolve_left List.not_mem_nil
    split
    · next hvalid =>
      -- Nothing is left to write.
      intro i hi
      rcases Log.mem_eventRefs_iff.mp hi with hmem | hmem
      · rw [hvalid] at hmem
        cases hmem
      · exact Or.inr (hdead i hmem)
    · exact hdead
  · exact h

theorem done_processBatch : (Pc.processBatch s.log batch).Done s batch := by
  unfold Pc.processBatch
  split
  · trivial
  · exact done_deadLetters fun i hi => Or.inl hi

theorem done_poisons (h : ∀ i ∈ todo, s.log.eventAt i = none) :
    (Pc.poisons s.log batch todo).Done s batch := by
  unfold Pc.poisons
  split
  · exact done_processBatch
  · exact h

theorem eventAt_of_mem_rawRefs {i : ℕ} (h : i ∈ s.log.rawRefs batch) : s.log.eventAt i = none :=
  Option.isNone_iff_eq_none.mp (List.mem_filter.mp h).2

/-- A step of a worker keeps what it has done with its batch. -/
theorem Acts.done (ha : Acts d maxPoll s k w b s') (h : w.pc.Done s w.batch) :
    ∃ w', s'.workers k = some w' ∧ w'.pc.Done s' w'.batch := by
  obtain ⟨hwritten, hdead, -⟩ := ha.mono
  have hlog := ha.frame.1
  cases ha with
  | signal => exact ⟨_, Function.update_self .., h.mono hlog hwritten hdead⟩
  | fetch hpc hp hown hle hnext =>
    refine ⟨_, Function.update_self .., ?_⟩
    change Pc.Done _ _ w.pc
    rw [hpc]
    trivial
  | idle => exact ⟨_, Function.update_self .., h.mono hlog hwritten hdead⟩
  | poll hpc =>
    refine ⟨_, Function.update_self .., Pc.Done.mono (s := s) ?_ hlog hwritten hdead⟩
    exact done_poisons fun i hi => eventAt_of_mem_rawRefs hi
  | shutdown hpc hnil => exact ⟨_, Function.update_self .., trivial⟩
  | @countPoison i todo id hpc hid =>
    refine ⟨_, Function.update_self .., Pc.Done.mono (s := s) ?_ hlog hwritten hdead⟩
    rw [hpc] at h
    exact fun j hj => h j (List.mem_cons_of_mem _ hj)
  | @skipPoison i todo hpc hid =>
    refine ⟨_, Function.update_self .., Pc.Done.mono (s := s) ?_ hlog hwritten hdead⟩
    rw [hpc] at h
    exact fun j hj => h j (List.mem_cons_of_mem _ hj)
  | @republish i todo r hpc =>
    rw [hpc] at h
    refine ⟨_, Function.update_self .., ?_⟩
    cases r.isOk with
    | false => trivial
    | true => exact (done_poisons (s := s) h).mono hlog hwritten hdead
  | @deadLetter i todo r hpc =>
    rw [hpc] at h
    refine ⟨_, Function.update_self .., ?_⟩
    cases hr : r with
    | err applied => trivial
    | ok =>
      refine done_deadLetters fun j hj => ?_
      -- The record is delivered, or among those to come.
      rcases h j hj with hmem | hmem
      · rcases List.mem_cons.mp hmem with rfl | hmem
        · exact Or.inr (List.mem_append_right _ (List.mem_singleton_self _))
        · exact Or.inl hmem
      · exact Or.inr (List.mem_append_left _ hmem)
  | write hpc hw =>
    rw [hpc] at h
    refine ⟨_, Function.update_self .., fun i hi => ?_⟩
    rcases Log.mem_eventRefs_iff.mp hi with hmem | hmem
    · exact Or.inl (List.mem_append_right _ hmem)
    · exact Or.inr (h i hmem)
  | @writeFail n t pc _ _ hpc hpc' ht =>
    rw [hpc] at h
    refine ⟨_, Function.update_self .., ?_⟩
    rcases hpc' with rfl | rfl
    · exact h
    · trivial
  | count hpc => exact ⟨_, Function.update_self .., trivial⟩
  | tick ht => exact ⟨_, Function.update_self .., h.mono hlog hwritten hdead⟩
  | @flush f o _ hpc hf =>
    refine ⟨_, Function.update_self .., ?_⟩
    change Pc.Done _ _ (Pc.afterFlush o.next)
    cases o.next with
    | running f' => trivial
    | returned ok => cases ok <;> trivial
  | @drain f o _ hpc hf =>
    refine ⟨_, Function.update_self .., ?_⟩
    change Pc.Done _ _ (Pc.afterDrain o.next)
    cases o.next <;> trivial
  | tickerFlush ht hf => exact ⟨_, Function.update_self .., h.mono hlog hwritten hdead⟩
  | commit hpc hpc' =>
    refine ⟨_, Function.update_self .., ?_⟩
    rcases hpc' with rfl | rfl <;> trivial
  | commitFail hpc => exact ⟨_, Function.update_self .., trivial⟩

end

/-- Every counted event is resolved. -/
structure Handled (s : State) : Prop where
  counts : ∀ c ∈ s.counts, (s.log.eventAt c.ref).isSome = true → Resolved s c.ref
  loop : ∀ k w, s.workers k = some w → w.pc.Done s w.batch

/-- The counts of a step are resolved. -/
theorem Acts.resolved {d : Dialect} {maxPoll : ℕ} {s s' : State} {k : GoString} {w : Worker}
    {b : Action} (ha : Acts d maxPoll s k w b s') (hI : Handled s) (hdone : w.pc.Done s w.batch)
    {c : Count} (hc : c ∈ s'.counts) (hevt : (s.log.eventAt c.ref).isSome = true) :
    Resolved s' c.ref := by
  obtain ⟨hwritten, hdead, -⟩ := ha.mono
  -- What was counted before is resolved already.
  have hkeep : ∀ e ∈ s.counts, e.ref = c.ref → Resolved s' c.ref := by
    intro e he href
    have hres := hI.counts e he (by rw [href]; exact hevt)
    rw [href] at hres
    exact hres.imp (hwritten _) (hdead _)
  cases ha with
  | @countPoison i todo id hpc hid =>
    rcases List.mem_append.mp hc with hc | hc
    · exact hkeep c hc rfl
    · -- A record counted by `ProcessPoison` carries no event.
      rw [hpc] at hdone
      rw [List.mem_singleton.mp hc, hdone i List.mem_cons_self] at hevt
      cases hevt
  | count hpc =>
    rcases List.mem_append.mp hc with hc | hc
    · exact hkeep c hc rfl
    · rw [hpc] at hdone
      have href : c.ref ∈ s.log.validRefs w.batch ++ s.log.invalidRefs w.batch := by
        rw [← map_ref_countsOf s.log k]
        exact List.mem_map_of_mem hc
      exact hdone c.ref (Log.mem_eventRefs_iff.mpr (List.mem_append.mp href))
  | commit hpc hpc' =>
    obtain ⟨e, he, -, href, -⟩ := mem_settleCounts hc
    exact hkeep e he href.symm
  | _ => exact hkeep c hc rfl

/-! ### The table -/

variable {d : Dialect} {maxPoll : ℕ} {s s' : State} {a : Label}

/-- The event of a record has its row in the table. -/
def InTable (s : State) (i : ℕ) : Prop :=
  ∃ evt, s.log.eventAt i = some evt ∧
    (s.products (evt.product.merchantID, evt.product.productID)).isSome = true

/-- Every written event has its row in the table. -/
def Materialized (s : State) : Prop := ∀ i ∈ s.written, InTable s i

theorem InTable.mono {i : ℕ} (h : InTable s i) (hlog : ∀ evt, s.log.eventAt i = some evt →
      s'.log.eventAt i = some evt)
    (hrows : ∀ key, (s.products key).isSome = true → (s'.products key).isSome = true) :
    InTable s' i := by
  obtain ⟨evt, hevt, hrow⟩ := h
  exact ⟨evt, hlog evt hevt, hrows _ hrow⟩

/-- A write keeps the rows of the table. -/
theorem Wrote.isSome {w : Worker} {lost : Option (String × Bool)} {t : Table Unit}
    (h : Wrote d s w lost t) {key : GoString × GoString} (hkey : (s.products key).isSome = true) :
    (t key).isSome = true :=
  isSome_of_upsertBatch h.2 (Or.inl hkey)

/-- A write puts the valid events of the batch into the table. -/
theorem Wrote.valid {w : Worker} {lost : Option (String × Bool)} {t : Table Unit}
    (h : Wrote d s w lost t) {i : ℕ} (hi : i ∈ s.log.validRefs w.batch) :
    ∃ evt, s.log.eventAt i = some evt ∧
      (t (evt.product.merchantID, evt.product.productID)).isSome = true := by
  obtain ⟨hbatch, hvalid⟩ := List.mem_filter.mp hi
  obtain ⟨evt, hevt⟩ := Option.isSome_iff_exists.mp (Log.isSome_of_validAt hvalid)
  refine ⟨evt, hevt, isSome_of_upsertBatch h.2 (Or.inr ?_)⟩
  have hok : (fromEvent evt).isOk = true := by
    rw [Log.validAt, hevt] at hvalid
    exact hvalid
  have hmem : evt ∈ s.log.events w.batch := List.mem_filterMap.mpr ⟨i, hbatch, hevt⟩
  rw [accepted_eq]
  exact ⟨_, List.mem_map_of_mem (List.mem_filter.mpr ⟨hmem, hok⟩), rfl⟩

/-- A step of a worker keeps the rows of the table. -/
theorem Acts.isSome {k : GoString} {w : Worker} {b : Action} (ha : Acts d maxPoll s k w b s')
    {key : GoString × GoString} (hkey : (s.products key).isSome = true) :
    (s'.products key).isSome = true := by
  cases ha with
  | write hpc hw => exact hw.isSome hkey
  | writeFail hpc hpc' ht =>
    rcases ht with rfl | hw
    · exact hkey
    · exact hw.isSome hkey
  | _ => exact hkey

/-! ### What is kept -/

/-- What was delivered to the log, written, dead-lettered or stored stays so. -/
structure Kept (s s' : State) : Prop where
  events : ∀ i evt, s.log.eventAt i = some evt → s'.log.eventAt i = some evt
  written : ∀ i ∈ s.written, i ∈ s'.written
  dead : ∀ i ∈ s.dead, i ∈ s'.dead
  rows : ∀ key, (s.products key).isSome = true → (s'.products key).isSome = true

theorem Kept.refl (s : State) : Kept s s :=
  ⟨fun _ _ hevt => hevt, fun _ hi => hi, fun _ hi => hi, fun _ hkey => hkey⟩

theorem kept_step (h : step d maxPoll s a = some s') : Kept s s' := by
  have hevents : ∀ i evt, s.log.eventAt i = some evt → s'.log.eventAt i = some evt := by
    intro i evt hevt
    rcases log_step h with hlog | ⟨r, -, hlog⟩ <;> rw [hlog]
    · exact hevt
    · exact (Log.eventAt_snoc (Log.lt_of_jobAt (Log.jobAt_of_eventAt hevt)) r).trans hevt
  have hrefl := Kept.refl s
  cases a with
  | append r =>
    obtain rfl := step_append h
    exact ⟨hevents, hrefl.written, hrefl.dead, hrefl.rows⟩
  | start k =>
    obtain ⟨-, rfl⟩ := step_start h
    exact ⟨hevents, hrefl.written, hrefl.dead, hrefl.rows⟩
  | stop k =>
    obtain rfl := step_stop h
    exact ⟨hevents, hrefl.written, hrefl.dead, hrefl.rows⟩
  | assign p k =>
    obtain ⟨w, -, -, rfl⟩ := step_assign h
    exact ⟨hevents, hrefl.written, hrefl.dead, hrefl.rows⟩
  | worker k b =>
    obtain ⟨w, -, ha⟩ := step_worker h
    obtain ⟨hwritten, hdead, -⟩ := ha.mono
    exact ⟨hevents, hwritten, hdead, fun _ hkey => ha.isSome hkey⟩

/-! ### Every run of the group -/

/-- What a worker has done with its batch stays done while the log grows. -/
theorem Pc.Done.grow {k : GoString} {w : Worker} (h : w.pc.Done s w.batch) (hst : Stage s k w)
    (hlog : s'.log = s.log ∨ ∃ r, s'.log = s.log ++ [r]) (hkept : Kept s s') :
    w.pc.Done s' w.batch := by
  rcases hlog with hlog | ⟨r, hlog⟩
  · exact h.mono hlog hkept.written hkept.dead
  have hbound := hst.bound
  have htodo := hst.todo
  generalize w.pc = pc at h htodo ⊢
  -- The records of the batch are in the log already.
  have hraw : ∀ i ∈ w.batch, s.log.eventAt i = none → s'.log.eventAt i = none := by
    intro i hi hnone
    rw [hlog, Log.eventAt_snoc (hbound i hi), hnone]
  cases pc with
  | poisoning todo => exact fun i hi => hraw i (htodo i (List.mem_append_left _ hi)) (h i hi)
  | republishing j todo => exact fun i hi => hraw i (htodo i (List.mem_append_left _ hi)) (h i hi)
  | deadLettering todo =>
    intro i hi
    rw [hlog, Log.invalidRefs_snoc hbound] at hi
    exact (h i hi).imp_right (hkept.dead i)
  | writing n =>
    intro i hi
    rw [hlog, Log.invalidRefs_snoc hbound] at hi
    exact hkept.dead i (h i hi)
  | counting =>
    intro i hi
    rw [hlog, Log.eventRefs_snoc hbound] at hi
    exact (h i hi).imp (hkept.written i) (hkept.dead i)
  | _ => trivial

/-- A count is of the worker that acts, or was there before. -/
theorem mem_counts_step {c : Count} (h : step d maxPoll s a = some s') (hc : c ∈ s'.counts) :
    c ∈ s.counts ∨ ∃ k w b, s.workers k = some w ∧ Acts d maxPoll s k w b s' := by
  cases a with
  | append r =>
    obtain rfl := step_append h
    exact Or.inl hc
  | start k =>
    obtain ⟨-, rfl⟩ := step_start h
    exact Or.inl hc
  | stop k =>
    obtain rfl := step_stop h
    exact Or.inl (mem_dropCounts.mp hc).1
  | assign p k =>
    obtain ⟨w, -, -, rfl⟩ := step_assign h
    exact Or.inl hc
  | worker k b =>
    obtain ⟨w, hw, ha⟩ := step_worker h
    exact Or.inr ⟨k, w, b, hw, ha⟩

/-- What the loops of the workers have done with their batches stays done. -/
theorem done_step (hI : ∀ k w, s.workers k = some w → w.pc.Done s w.batch) (hst : Staged s)
    (h : step d maxPoll s a = some s') :
    ∀ k w, s'.workers k = some w → w.pc.Done s' w.batch := by
  have hkept := kept_step h
  have hlog : s'.log = s.log ∨ ∃ r, s'.log = s.log ++ [r] :=
    (log_step h).imp_right fun ⟨r, _, hr⟩ => ⟨r, hr⟩
  intro k w' hw'
  rcases worker_step h hw' with ⟨-, rfl⟩ | ⟨p, w, -, hw, rfl⟩ | ⟨b, w, -, hw, ha⟩ | ⟨hw, -⟩
  · trivial
  · exact (hI k w hw).grow (hst k w hw) hlog hkept
  · obtain ⟨w'', hw'', hdone⟩ := ha.done (hI k w hw)
    obtain rfl : w'' = w' := Option.some.inj (hw''.symm.trans hw')
    exact hdone
  · exact (hI k w' hw).grow (hst k w' hw) hlog hkept

/-- **Every counted event is resolved.** -/
theorem handled_step (hI : Handled s) (hst : Staged s) (hH : Held s)
    (h : step d maxPoll s a = some s') : Handled s' := by
  have hkept := kept_step h
  refine ⟨fun c hc hevt => ?_, done_step hI.loop hst h⟩
  rcases mem_counts_step h hc with hmem | ⟨k, w, b, hw, ha⟩
  · have hlt : c.ref < s.log.length := Log.lt_of_jobAt (hH.job c hmem)
    have hsame : s'.log.eventAt c.ref = s.log.eventAt c.ref := by
      rcases log_step h with hlog | ⟨r, -, hlog⟩ <;> rw [hlog]
      exact Log.eventAt_snoc hlt r
    rw [hsame] at hevt
    exact (hI.counts c hmem hevt).imp (hkept.written _) (hkept.dead _)
  · rw [ha.frame.1] at hevt
    exact ha.resolved hI (hI.loop k w hw) hc hevt

/-- **Every written event has its row in the table.** -/
theorem materialized_step (hI : Materialized s) (h : step d maxPoll s a = some s') :
    Materialized s' := by
  intro i hi
  have hkept := kept_step h
  have hold : i ∈ s.written → InTable s' i :=
    fun hmem => (hI i hmem).mono (hkept.events i) hkept.rows
  cases a with
  | append r =>
    obtain rfl := step_append h
    exact hold hi
  | start k =>
    obtain ⟨-, rfl⟩ := step_start h
    exact hold hi
  | stop k =>
    obtain rfl := step_stop h
    exact hold hi
  | assign p k =>
    obtain ⟨w, -, -, rfl⟩ := step_assign h
    exact hold hi
  | worker k a =>
    obtain ⟨w, -, ha⟩ := step_worker h
    cases ha with
    | write hpc hw =>
      rcases List.mem_append.mp hi with hi | hi
      · exact hold hi
      · exact hw.valid hi
    | _ => exact hold hi

end CsvProductUploader.Catalog

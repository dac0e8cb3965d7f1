import CsvProductUploader.NodePipeline.Progress

/-!
# What a completed batch has stored

An attempt that fails leaves the products that it has stored, and the next begins with them.  It
never comes to store any again: the rates of the batch are there already.

## Main definitions

* `AllStored` — the products are the valid rows of the file, each once, and in its order.
* `Pc.filled`, `Filling` — the products where an attempt is.
* `Stream.Reports` — a stream was sent that the batch is completed, or is about to be.
* `Sse.Honest` — what holds of the processor and of its streams.

## Main results

* `Filling.run`, `filling_step` — one call, and one step of the processor.
* `Sse.honest_step` — one step with streams: nobody hears too early, and what is whole stays so.
-/

namespace CsvProductUploader.NodePipeline

open Runs Update

/-! ### The processor -/

/-- Every valid row of the file is a product of the batch. -/
def AllStored (job : Job) (w : World) : Prop := w.products = job.validRows

/-- The products where an attempt is that has saved the rates. -/
def Pc.filled (job : Job) : Pc → Option (List ProcessedRow)
  | .reading | .savingTotal => some []
  | .saving i => some (job.validRows.take i)
  | .savingProcessed i | .reporting i => some (job.validRows.take (i + BATCH_SIZE))
  | .completing => some job.validRows
  | _ => none

/-- What holds of the products along a run. -/
structure Filling (job : Job) (s : State) : Prop extends Kept s where
  here : ∀ rows ∈ s.pc.filled job, s.world.products = rows
  sliced : ∃ k, s.world.products = job.validRows.take k
  completed : s.world.batch.status = .completed → AllStored job s.world

section
variable {job : Job} {n : ℕ} {c : Call} {w' : World} {s s' : State} {a : Label} {pc : Pc}

theorem Pc.filled_of_not_priced (h : pc.priced = false) : pc.filled job = none := by
  cases pc <;> first | rfl | cases h

/-- At the head of the loop, the rows before it are stored. -/
theorem filled_loop {i : ℕ} {rows : List ProcessedRow} (h : rows ∈ (Pc.loop job i).filled job) :
    job.validRows.take i = rows := by
  unfold Pc.loop at h
  split at h
  · exact Option.some.inj h
  · next hi =>
    rw [List.take_of_length_le (by omega)]
    exact Option.some.inj h

/-- What a call makes of the products. -/
structure Filling.Left (job : Job) (s : State) (w' : World) : Prop where
  whole : AllStored job s.world → AllStored job w'
  here : ∀ rows ∈ (s.pc.next job).filled job, w'.products = rows
  sliced : ∃ k, w'.products = job.validRows.take k
  completed : w'.batch.status = .completed → AllStored job w'

/-- A call that leaves the products and the status. -/
theorem Filling.left_of_same (hI : Filling job s) (hproducts : w'.products = s.world.products)
    (hstatus : w'.batch.status = .completed → s.world.batch.status = .completed)
    (hhere : ∀ rows ∈ (s.pc.next job).filled job, s.world.products = rows) :
    Filling.Left job s w' where
  whole h := hproducts.trans h
  here rows hrows := hproducts.trans (hhere rows hrows)
  sliced := hproducts ▸ hI.sliced
  completed h := hproducts.trans (hI.completed (hstatus h))

/-- **One call.**  Where rows are saved, those before them are the products; where the rates
are, there are none. -/
theorem Filling.run (hI : Filling job s) (hc : s.pc.call job = some c)
    (h : s.world.run job n c = .ok w') : Filling.Left job s w' := by
  have hhere := hI.here
  cases hpc : s.pc with
  | marking =>
    rw [hpc] at hc
    cases hc
    cases h
    exact hI.left_of_same rfl (fun h => by cases h) (by rw [hpc]; exact nofun)
  | savingRates =>
    rw [hpc] at hc
    cases hc
    have hnone : s.world.exchangeRates = [] := by
      by_contra hne
      rw [run_saveRatesForBatch_refused hI.stored hne] at h
      cases h
    have hempty : s.world.products = [] := by
      by_contra hne
      exact hI.stored.products hne hnone
    rw [run_saveRatesForBatch hnone] at h
    cases h
    refine hI.left_of_same rfl id ?_
    rw [hpc]
    exact fun rows hrows => hempty.trans (Option.some.inj hrows)
  | reading =>
    rw [hpc] at hc hhere
    cases hc
    dsimp only [World.run] at h
    split at h
    · split at h <;> cases h
      exact hI.left_of_same rfl id (by rw [hpc]; exact hhere)
    · cases h
  | savingTotal =>
    rw [hpc] at hc hhere
    cases hc
    cases h
    refine hI.left_of_same rfl id ?_
    rw [hpc]
    exact fun rows hrows => (hhere [] rfl).trans (filled_loop hrows)
  | saving i =>
    rw [hpc] at hc hhere
    cases hc
    have htake := hhere _ rfl
    dsimp only [World.run] at h
    split at h <;> cases h
    have hstored : s.world.products ++ (job.validRows.drop i).take BATCH_SIZE =
        job.validRows.take (i + BATCH_SIZE) := by
      rw [htake, List.take_add]
    -- if every row is stored already, none is left to be saved
    have hwhole : AllStored job s.world →
        s.world.products ++ (job.validRows.drop i).take BATCH_SIZE = job.validRows := by
      intro hwhole
      have hlen : job.validRows.length ≤ i := by
        have := congrArg List.length (htake.symm.trans hwhole)
        rw [List.length_take] at this
        omega
      rw [List.drop_of_length_le hlen, List.take_nil, List.append_nil]
      exact hwhole
    refine ⟨hwhole, ?_, ⟨_, hstored⟩, fun hdone => hwhole (hI.completed hdone)⟩
    rw [hpc]
    exact fun rows hrows => hstored.trans (Option.some.inj hrows)
  | savingProcessed i =>
    rw [hpc] at hc hhere
    cases hc
    cases h
    exact hI.left_of_same rfl id (by rw [hpc]; exact hhere)
  | reporting i =>
    rw [hpc] at hc hhere
    cases hc
    cases h
    refine hI.left_of_same rfl id ?_
    rw [hpc]
    exact fun rows hrows => (hhere _ rfl).trans (filled_loop hrows)
  | completing =>
    rw [hpc] at hc hhere
    cases hc
    cases h
    have hwhole : AllStored job s.world := hhere _ rfl
    exact ⟨id, by rw [hpc]; exact nofun, hI.sliced, fun _ => hwhole⟩
  | failing error =>
    rw [hpc] at hc
    cases hc
    cases h
    exact hI.left_of_same rfl (fun h => by cases h) (by rw [hpc]; exact nofun)
  | cleaning error =>
    rw [hpc] at hc
    cases hc
    cases h
    refine hI.left_of_same rfl id ?_
    rw [hpc]
    cases error <;> exact nofun
  | returned | thrown | died =>
    rw [hpc] at hc
    cases hc

/-- **One step of the processor.** -/
theorem filling_step (hI : Filling job s) (h : step job s a = some s') : Filling job s' := by
  have hK := kept_step hI.toKept h
  rcases step_cases h with ⟨c, hc, hrun, hpc⟩ | ⟨c, hc, hpc, hrun⟩ | ⟨hw, hpc⟩
  · have hL := hI.run hc hrun
    exact ⟨hK, hpc ▸ hL.here, hL.sliced, hL.completed⟩
  · have hnone : ∀ rows ∈ s'.pc.filled job, s'.world.products = rows := by
      rw [Pc.filled_of_not_priced hpc]
      exact nofun
    rcases hrun with hw | hrun
    · exact ⟨hK, hnone, hw ▸ hI.sliced, hw ▸ hI.completed⟩
    · have hL := hI.run hc hrun
      exact ⟨hK, hnone, hL.sliced, hL.completed⟩
  · exact ⟨hK, by rw [hpc]; exact nofun, hw ▸ hI.sliced, hw ▸ hI.completed⟩

theorem filling_start (job : Job) : Filling job start :=
  ⟨kept_start, nofun, ⟨0, rfl⟩, nofun⟩

end

/-! ### The streams -/

/-- The stream was sent that the batch is completed, or its read has found it so. -/
def Stream.Reports (st : Stream) : Prop :=
  (∃ data ∈ st.sent, data.status = .completed) ∨
    ∃ b : UploadBatch, st.read = .answered (some b) ∧ b.status = .completed

theorem Stream.reports_of_told {st : Stream} {data : ProgressData}
    (h : (st.told data).Reports) : st.Reports ∨ data.status = .completed := by
  have hread : (st.told data).read = st.read := by
    unfold Stream.told
    split <;> simp
  have hsent : ∀ d ∈ (st.told data).sent, d ∈ st.sent ∨ d = data := by
    intro d hd
    have hd' : d ∈ (st.sendProgress data).sent := by
      unfold Stream.told at hd
      split at hd <;> exact hd
    unfold Stream.sendProgress at hd'
    split at hd'
    · simpa using hd'
    · exact .inl hd'
  rcases h with ⟨d, hd, hstatus⟩ | ⟨b, hb, hstatus⟩
  · rcases hsent d hd with hd | rfl
    · exact .inl (.inl ⟨d, hd, hstatus⟩)
    · exact .inr hstatus
  · exact .inl (.inr ⟨b, hread ▸ hb, hstatus⟩)

namespace Sse

/-- If a stream reports that the batch is completed, `P` holds. -/
def Told (P : Prop) (s : State) : Prop :=
  ∀ i st, s.streams i = some st → st.Reports → P

section
variable {job : Job} {s s' : State} {a : Label} {i : ℕ} {st : Stream} {data : ProgressData}
  {P : Prop} {e : Option ℕ}

theorem Told.put (hT : Told P s) (h : st.Reports → P) : Told P { s.put i st with emitter := e } :=
  forall_update_some rfl h fun j st' _ => hT j st'

theorem Told.tell (hT : Told P s) (h : st.Reports → P) (hdata : data.status = .completed → P) :
    Told P (s.tell i st data) := by
  rw [tell_eq]
  exact hT.put fun hst => (Stream.reports_of_told hst).elim h hdata

theorem Told.close (hT : Told P s) (h : st.Reports → P) {x : Ending} :
    Told P (s.close i st x) := by
  rw [close_eq]
  exact hT.put h

theorem Told.emit (hT : Told P s) {d : Option ProgressData}
    (hdata : ∀ data ∈ d, data.status = .completed → P) : Told P (s.emit d) := by
  cases d with
  | none => exact hT
  | some data =>
    show Told P (s.emitProgress data)
    unfold State.emitProgress
    split
    · exact hT
    · split
      · exact hT
      · next st hst =>
        split
        · exact hT.tell (hT _ st hst) (hdata data rfl)
        · exact hT

theorem Told.cut (hT : Told P s) : Told P s.cut := by
  intro i st hst hreports
  obtain ⟨st', hst', rfl⟩ := Option.map_eq_some_iff.mp hst
  refine hT i st' hst' ?_
  rcases hreports with hsent | ⟨b, hb, -⟩
  · exact .inl hsent
  · cases hb

theorem Told.fail (hT : Told P s) (f : Fault) : Told P (s.fail f) := by
  cases f with
  | crash => exact Told.cut (s := { s with
      proc := { s.proc with pc := s.proc.pc.fail .crash }, landed := false }) hT
  | thrown error => exact hT

/-! ### One step -/

/-- What holds of a batch, its processor and its streams. -/
structure Honest (job : Job) (s : State) : Prop where
  filling : ∃ p, Follows job p s ∧ Filling job p
  told : Told (AllStored job s.proc.world) s

theorem Honest.sliced (hI : Honest job s) : ∃ k, s.proc.world.products = job.validRows.take k := by
  obtain ⟨p, hp, hF⟩ := hI.filling
  cases hlanded : s.landed with
  | false => exact hp.waiting hlanded ▸ hF.sliced
  | true =>
    obtain ⟨c, hc, hrun⟩ := hp.landed hlanded
    exact (hF.run hc hrun).sliced

theorem Honest.completed (hI : Honest job s) (h : s.proc.world.batch.status = .completed) :
    AllStored job s.proc.world := by
  obtain ⟨p, hp, hF⟩ := hI.filling
  cases hlanded : s.landed with
  | false =>
    have hworld := hp.waiting hlanded
    exact hworld ▸ hF.completed (hworld.symm ▸ h)
  | true =>
    obtain ⟨c, hc, hrun⟩ := hp.landed hlanded
    exact (hF.run hc hrun).completed h

/-- The last call of the loop is over when the completion is emitted. -/
theorem Honest.emits (hI : Honest job s) (hlanded : s.landed = true)
    (hd : s.proc.pc.emits job = some data) (h : data.status = .completed) :
    AllStored job s.proc.world := by
  refine hI.completed ?_
  obtain ⟨p, hp, -⟩ := hI.filling
  obtain ⟨c, hc, hrun⟩ := hp.landed hlanded
  rw [hp.pc.1] at hc
  cases hpc : s.proc.pc with
  | completing =>
    rw [hpc] at hc
    cases hc
    rw [← Except.ok.inj hrun]
    rfl
  | savingTotal | savingProcessed | failing =>
    rw [hpc] at hd
    cases hd
    cases h
  | _ =>
    rw [hpc] at hd
    cases hd

theorem honest_start (job : Job) : Honest job start :=
  ⟨⟨_, follows_self _ rfl rfl, filling_start job⟩, nofun⟩

/-- The processor of the next state. -/
theorem Honest.filling_step (hI : Honest job s) (h : step job s a = some s') :
    ∃ p, Follows job p s' ∧ Filling job p := by
  obtain ⟨p, hp, hF⟩ := hI.filling
  obtain ⟨bs, p', hbs, hp'⟩ := follows_step hp h
  exact ⟨p', hp', exec_invariant (fun _ _ _ => NodePipeline.filling_step) hF hbs⟩

/-- **One step.**  Nobody hears of a completion that is not one, and what is whole stays so. -/
theorem honest_step (hI : Honest job s) (h : step job s a = some s') :
    Honest job s' ∧ (AllStored job s.proc.world → AllStored job s'.proc.world) := by
  have hfilling := hI.filling_step h
  -- all that is left to show of a step that does nothing to the tables
  have hsame : s'.proc.world = s.proc.world → Told (AllStored job s.proc.world) s' →
      Honest job s' ∧ (AllStored job s.proc.world → AllStored job s'.proc.world) := by
    intro hworld hT
    exact ⟨⟨hfilling, hworld ▸ hT⟩, fun hwhole => hworld ▸ hwhole⟩
  have hT := hI.told
  cases a with
  | land =>
    dsimp only [step] at h
    split_ifs at h with hlanded
    obtain ⟨c, hc, h⟩ := Option.bind_eq_some_iff.mp h
    split at h
    · next w hrun =>
      obtain rfl := Option.some.inj h
      obtain ⟨p, hp, hF⟩ := hI.filling
      have hworld := hp.waiting (by simpa using hlanded)
      have hL := hF.run (hp.pc.1 ▸ hc) (hworld ▸ hrun)
      have hwhole : AllStored job s.proc.world → AllStored job w := hworld ▸ hL.whole
      exact ⟨⟨hfilling, fun i st hst hreports => hwhole (hT i st hst hreports)⟩, hwhole⟩
    · cases h
  | reply =>
    obtain ⟨c, hc, h⟩ := Option.bind_eq_some_iff.mp h
    split_ifs at h with hlanded
    · obtain rfl := Option.some.inj h
      refine hsame (by rw [State.proceed, (proc_emit ..).1]) ?_
      exact Told.emit (s := { s with
        proc := { s.proc with pc := s.proc.pc.next job }, landed := false }) hT
        fun data hd => hI.emits hlanded hd
    · split at h
      · cases h
      · next f _ =>
        obtain rfl := Option.some.inj h
        exact hsame (by rw [(proc_fail s f).1]) (hT.fail f)
  | fault error =>
    obtain ⟨c, hc, rfl⟩ := Option.map_eq_some_iff.mp h
    exact hsame (by rw [(proc_fail s _).1]) (hT.fail _)
  | die =>
    obtain rfl := Option.some.inj h
    refine hsame ?_ hT.cut
    dsimp only
    split <;> rfl
  | retry =>
    obtain ⟨q, hq, rfl⟩ := Option.map_eq_some_iff.mp h
    refine hsame ?_ hT
    dsimp only [NodePipeline.step] at hq
    split at hq
    · split at hq <;> cases hq
      rfl
    · split at hq <;> cases hq
      rfl
    · cases hq
  | subscribe i =>
    dsimp only [step] at h
    split_ifs at h
    obtain rfl := Option.some.inj h
    refine hsame rfl (hT.put ?_)
    rintro (⟨data, hdata, -⟩ | ⟨b, hb, -⟩)
    · cases hdata
    · cases hb
  | answer i =>
    obtain ⟨st, hst, h⟩ := Option.bind_eq_some_iff.mp h
    split_ifs at h
    obtain rfl := Option.some.inj h
    refine hsame rfl (hT.put ?_)
    rintro (hsent | ⟨b, hb, hstatus⟩)
    · exact hT i st hst (.inl hsent)
    · cases hb
      exact hI.completed hstatus
  | readError i =>
    obtain ⟨st, hst, h⟩ := Option.bind_eq_some_iff.mp h
    split_ifs at h
    obtain rfl := Option.some.inj h
    refine hsame rfl (hT.put ?_)
    rintro (hsent | ⟨b, hb, -⟩)
    · exact hT i st hst (.inl hsent)
    · cases hb
  | resume i =>
    obtain ⟨st, hst, h⟩ := Option.bind_eq_some_iff.mp h
    refine hsame (by rw [(unmoved_resume h).proc]) ?_
    have hdone : ({ st with read := .done } : Stream).Reports → AllStored job s.proc.world := by
      rintro (hsent | ⟨b, hb, -⟩)
      · exact hT i st hst (.inl hsent)
      · cases hb
    unfold State.resume at h
    split at h
    · next b hb =>
      obtain rfl := Option.some.inj h
      exact hT.tell hdone fun hstatus => hT i st hst (.inr ⟨b, hb, hstatus⟩)
    · obtain rfl := Option.some.inj h
      exact hT.close hdone
    · obtain rfl := Option.some.inj h
      exact hT.close hdone
    · cases h
    · cases h
  | disconnect i =>
    obtain ⟨st, hst, h⟩ := Option.bind_eq_some_iff.mp h
    split_ifs at h
    obtain rfl := Option.some.inj h
    exact hsame (by rw [(unmoved_close ..).proc])
      (hT.close (hT i st hst))

end

end Sse

end CsvProductUploader.NodePipeline

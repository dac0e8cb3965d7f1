import CsvProductUploader.Catalog.Counting

/-!
# What the workers publish

The snapshots on the progress topic against the counters they are read from.  No snapshot
says more than the counters did when it was read, and when a worker stands at its commit
its counters have been published.

## Main definitions

* `Backed` — a published snapshot of the worker says at least so much.
* `Flow` — what a step of a worker does with its counters and its flushes.
* `Within`, `Bounded` — no report, and no snapshot, says more than was counted.
* `Sent`, `Reports` — what a flush has done, and what it has published at its end.
* `Covered` — a worker stops only with counts it has published and committed.
* `Backing` — what a worker has committed has been published.

## Main results

* `Acts.flow` — every step is of one of four kinds.
* `within_step`, `bounded_step`, `reports_step`, `backing_step` — the four are invariants.
-/

namespace CsvProductUploader.Catalog

/-- A published snapshot of the worker for the job says at least so much. -/
def Backed (progress : List ImportProgress) (k id : GoString) (kind : Kind) (n : ℕ) : Prop :=
  n = 0 ∨ ∃ p ∈ progress, p.workerID = k ∧ p.jobID = id ∧ n ≤ rowsOf p kind

theorem Backed.mono {progress progress' : List ImportProgress} {k id : GoString} {kind : Kind}
    {n m : ℕ} (h : Backed progress k id kind n) (hsub : ∀ p ∈ progress, p ∈ progress')
    (hle : m ≤ n) : Backed progress' k id kind m := by
  rcases h with rfl | ⟨p, hp, hk, hid, hn⟩
  · exact Or.inl (Nat.le_zero.mp hle)
  · exact Or.inr ⟨p, hsub p hp, hk, hid, Nat.le_trans hle hn⟩

theorem backed_snapshot {progress : List ImportProgress} {k : GoString} {r : Report}
    (h : r.snapshot k ∈ progress) (kind : Kind) : Backed progress k r.jobID kind (r.count kind) :=
  Or.inr ⟨_, h, rfl, rfl, Nat.le_of_eq (rowsOf_snapshot r k kind).symm⟩

/-! ### What a step does with counters and flushes -/

/-- The `FlushProgress` that the loop is in. -/
def Pc.flush : Pc → Option FlushPc
  | .flushing f | .draining f => some f
  | _ => none

/-- What a flush found to be due. -/
def FlushPc.pending : FlushPc → List Report
  | .reading => []
  | .reporting pending _ | .confirming pending | .marking pending => pending

/-- The reports a flush has yet to send. -/
def FlushPc.todo : FlushPc → List Report
  | .reporting _ todo => todo
  | _ => []

theorem pending_afterReport (pending todo : List Report) :
    (FlushPc.afterReport pending todo).pending = pending := by
  unfold FlushPc.afterReport
  split <;> rfl

theorem todo_afterReport (pending todo : List Report) :
    (FlushPc.afterReport pending todo).todo = todo := by
  unfold FlushPc.afterReport
  split
  · next hnil =>
    subst hnil
    rfl
  · rfl

/-- What a step of a worker does with its counters and its flushes. -/
inductive Flow (s : State) (k : GoString) (w : Worker) (s' : State) (w' : Worker) : Prop
  /-- Records are counted, or none are; no flush goes on, but one may begin. -/
  | quiet (l : List (GoString × Kind)) (service : w'.service = w.service.countAll l)
      (pc : (w'.pc = w.pc ∧ l = []) ∨
        ((∀ f ∈ w'.pc.flush, f = .reading) ∧ w'.pc ≠ .committing))
      (ticker : w'.ticker = w.ticker ∨ w'.ticker = some .reading)
      (progress : s'.progress = s.progress)
  /-- The flush of the loop goes on. -/
  | flush (f : FlushPc) (o : FlushOut) (before : w.pc = .flushing f)
      (flushes : Flushes k w.service f o) (service : w'.service = o.service)
      (pc : w'.pc = .afterFlush o.next) (ticker : w'.ticker = w.ticker)
      (progress : s'.progress = s.progress ++ o.sent.toList)
  /-- The flush of `drain` goes on. -/
  | drain (f : FlushPc) (o : FlushOut) (before : w.pc = .draining f)
      (flushes : Flushes k w.service f o) (service : w'.service = o.service)
      (pc : w'.pc = .afterDrain o.next) (ticker : w'.ticker = w.ticker)
      (progress : s'.progress = s.progress ++ o.sent.toList)
  /-- The flush of the ticker goes on. -/
  | tick (f : FlushPc) (o : FlushOut) (before : w.ticker = some f)
      (flushes : Flushes k w.service f o) (service : w'.service = o.service)
      (pc : w'.pc = w.pc) (ticker : w'.ticker = o.next.ticker)
      (progress : s'.progress = s.progress ++ o.sent.toList)

theorem idle_deadLetters (log : Log) (batch todo : List ℕ) :
    (∀ f ∈ (Pc.deadLetters log batch todo).flush, f = .reading) ∧
      Pc.deadLetters log batch todo ≠ .committing := by
  unfold Pc.deadLetters
  split_ifs <;> exact ⟨fun _ hf => (nomatch hf), Pc.noConfusion⟩

theorem idle_poisons (log : Log) (batch todo : List ℕ) :
    (∀ f ∈ (Pc.poisons log batch todo).flush, f = .reading) ∧
      Pc.poisons log batch todo ≠ .committing := by
  unfold Pc.poisons Pc.processBatch
  split_ifs
  · exact ⟨fun f hf => (Option.some.inj hf).symm, Pc.noConfusion⟩
  · exact idle_deadLetters ..
  · exact ⟨fun _ hf => (nomatch hf), Pc.noConfusion⟩

section
variable {d : Dialect} {maxPoll : ℕ} {s s' : State} {k : GoString} {w w' : Worker} {b : Action}

/-- A step that leaves the counters and the ticker alone, and no flush in the loop but one
at its beginning. -/
theorem Flow.still (service : w'.service = w.service) (ticker : w'.ticker = w.ticker)
    (progress : s'.progress = s.progress)
    (pc : (∀ f ∈ w'.pc.flush, f = .reading) ∧ w'.pc ≠ .committing) : Flow s k w s' w' :=
  .quiet [] service (Or.inr pc) (Or.inl ticker) progress

/-- Every step is of one of four kinds. -/
theorem Acts.flow (ha : Acts d maxPoll s k w b s') :
    ∃ w', s'.workers k = some w' ∧ Flow s k w s' w' := by
  have hnone : ∀ f ∈ (none : Option FlushPc), f = .reading := fun _ hf => nomatch hf
  have hreading : ∀ f ∈ some FlushPc.reading, f = .reading := fun f hf => (Option.some.inj hf).symm
  -- The kind tells which `FlushProgress` has moved, if any, and what has been counted.
  cases ha with
  | signal | fetch | idle =>
    exact ⟨_, Function.update_self .., .quiet [] rfl (Or.inl ⟨rfl, rfl⟩) (Or.inl rfl) rfl⟩
  | poll => exact ⟨_, Function.update_self .., .still rfl rfl rfl (idle_poisons ..)⟩
  | @countPoison i todo id hpc hid =>
    exact ⟨_, Function.update_self ..,
      .quiet [(id, .dead)] rfl (Or.inr ⟨hnone, Pc.noConfusion⟩) (Or.inl rfl) rfl⟩
  | @republish i todo r hpc =>
    refine ⟨_, Function.update_self .., .still rfl rfl rfl ?_⟩
    cases r.isOk with
    | false => exact ⟨hreading, Pc.noConfusion⟩
    | true => exact idle_poisons ..
  | @deadLetter i todo r hpc =>
    refine ⟨_, Function.update_self .., .still rfl rfl rfl ?_⟩
    cases r.isOk with
    | false => exact ⟨hreading, Pc.noConfusion⟩
    | true => exact idle_deadLetters ..
  | skipPoison | write =>
    exact ⟨_, Function.update_self .., .still rfl rfl rfl ⟨hnone, Pc.noConfusion⟩⟩
  | writeFail hpc hpc' =>
    refine ⟨_, Function.update_self .., .still rfl rfl rfl ?_⟩
    rcases hpc' with rfl | rfl
    · exact ⟨hnone, Pc.noConfusion⟩
    · exact ⟨hreading, Pc.noConfusion⟩
  | count =>
    exact ⟨_, Function.update_self ..,
      .quiet _ rfl (Or.inr ⟨hreading, Pc.noConfusion⟩) (Or.inl rfl) rfl⟩
  | tick => exact ⟨_, Function.update_self .., .quiet [] rfl (Or.inl ⟨rfl, rfl⟩) (Or.inr rfl) rfl⟩
  | flush hpc hf => exact ⟨_, Function.update_self .., .flush _ _ hpc hf rfl rfl rfl rfl⟩
  | drain hpc hf => exact ⟨_, Function.update_self .., .drain _ _ hpc hf rfl rfl rfl rfl⟩
  | tickerFlush ht hf => exact ⟨_, Function.update_self .., .tick _ _ ht hf rfl rfl rfl rfl⟩
  | commit hpc hpc' =>
    refine ⟨_, Function.update_self .., .still rfl rfl rfl ?_⟩
    rcases hpc' with rfl | rfl
    · exact ⟨hnone, Pc.noConfusion⟩
    · exact ⟨hreading, Pc.noConfusion⟩
  | shutdown | commitFail =>
    exact ⟨_, Function.update_self .., .still rfl rfl rfl ⟨hreading, Pc.noConfusion⟩⟩

end

/-- Where the loop stands after a step of its flush. -/
theorem flush_afterFlush {o : FlushNext} {f : FlushPc} (h : f ∈ (Pc.afterFlush o).flush) :
    o = .running f ∨ f = .reading := by
  cases o with
  | running f' => exact Or.inl (congrArg FlushNext.running (Option.some.inj h))
  | returned ok =>
    cases ok with
    | true => cases h
    | false => exact Or.inr (Option.some.inj h).symm

theorem flush_afterDrain {o : FlushNext} {f : FlushPc} (h : f ∈ (Pc.afterDrain o).flush) :
    o = .running f := by
  cases o with
  | running f' => exact congrArg FlushNext.running (Option.some.inj h)
  | returned ok => cases h

theorem mem_ticker {o : FlushNext} {f : FlushPc} (h : f ∈ o.ticker) : o = .running f := by
  cases o with
  | running f' => exact congrArg FlushNext.running (Option.some.inj h)
  | returned ok => cases h

/-! ### No snapshot says more than was counted -/

/-- No report yet to be sent says more than was counted. -/
def Within (sv : Service) (f : FlushPc) : Prop :=
  ∀ r ∈ f.todo, ∀ kind, r.count kind ≤ sv.count r.jobID kind

theorem within_reading (sv : Service) : Within sv .reading := fun _ hr => absurd hr List.not_mem_nil

theorem Within.mono {sv sv' : Service} {f : FlushPc} (h : Within sv f)
    (hle : ∀ id kind, sv.count id kind ≤ sv'.count id kind) : Within sv' f :=
  fun r hr kind => Nat.le_trans (h r hr kind) (hle r.jobID kind)

/-- What a flush reads are the counters as they are. -/
theorem Flushes.within {k : GoString} {sv : Service} {f f' : FlushPc} {o : FlushOut}
    (hf : Flushes k sv f o) (h : Within sv f) (hnext : o.next = .running f') :
    Within o.service f' := by
  cases hf with
  | read hperm =>
    obtain rfl := FlushNext.running.inj hnext
    intro r hr kind
    exact Nat.le_of_eq (Service.count_of_mem_due (hperm.subset hr) kind)
  | report =>
    obtain rfl := FlushNext.running.inj hnext
    intro r hr
    rw [todo_afterReport] at hr
    exact h r (List.mem_cons_of_mem _ hr)
  | confirm =>
    obtain rfl := FlushNext.running.inj hnext
    exact fun r hr => absurd hr List.not_mem_nil
  | _ => cases hnext

section
variable {d : Dialect} {maxPoll : ℕ} {s s' : State} {k : GoString} {w w' : Worker} {b : Action}

/-- No counter goes down. -/
theorem Flow.count_le (h : Flow s k w s' w') (id : GoString) (kind : Kind) :
    w.service.count id kind ≤ w'.service.count id kind := by
  cases h with
  | quiet l hservice =>
    rw [hservice, Service.count_countAll]
    exact Nat.le_add_right ..
  | flush f o _ hf hservice => exact Nat.le_of_eq (by rw [hservice, hf.count])
  | drain f o _ hf hservice => exact Nat.le_of_eq (by rw [hservice, hf.count])
  | tick f o _ hf hservice => exact Nat.le_of_eq (by rw [hservice, hf.count])

/-- What is sent is a report that was yet to be sent. -/
theorem Flow.sent (h : Flow s k w s' w') {p : ImportProgress} (hp : p ∈ s'.progress) :
    p ∈ s.progress ∨ ∃ f r, (f ∈ w.pc.flush ∨ f ∈ w.ticker) ∧ r ∈ f.todo ∧ p = r.snapshot k := by
  have hnew : ∀ f o, (f ∈ w.pc.flush ∨ f ∈ w.ticker) → Flushes k w.service f o →
      s'.progress = s.progress ++ o.sent.toList → p ∈ s.progress ∨
        ∃ f r, (f ∈ w.pc.flush ∨ f ∈ w.ticker) ∧ r ∈ f.todo ∧ p = r.snapshot k := by
    intro f o hmem hf hprogress
    rw [hprogress] at hp
    rcases List.mem_append.mp hp with hp | hp
    · exact Or.inl hp
    · obtain ⟨pending, r, todo, rfl, hpr⟩ := hf.sent (Option.mem_toList.mp hp)
      exact Or.inr ⟨_, r, hmem, List.mem_cons_self, hpr⟩
  cases h with
  | quiet l _ _ _ hprogress => exact Or.inl (hprogress ▸ hp)
  | flush f o hbefore hf _ _ _ hprogress =>
    exact hnew f o (Or.inl (by rw [hbefore]; rfl)) hf hprogress
  | drain f o hbefore hf _ _ _ hprogress =>
    exact hnew f o (Or.inl (by rw [hbefore]; rfl)) hf hprogress
  | tick f o hbefore hf _ _ _ hprogress => exact hnew f o (Or.inr hbefore) hf hprogress

theorem Flow.within (h : Flow s k w s' w')
    (hI : ∀ f, f ∈ w.pc.flush ∨ f ∈ w.ticker → Within w.service f) :
    ∀ f, f ∈ w'.pc.flush ∨ f ∈ w'.ticker → Within w'.service f := by
  -- The counters only grow, so that a report within them stays so.
  have hkeep : ∀ f, f ∈ w.pc.flush ∨ f ∈ w.ticker → Within w'.service f :=
    fun f hf => (hI f hf).mono h.count_le
  intro f' hf'
  cases h with
  | quiet l hservice hpc hticker =>
    rcases hf' with hf' | hf'
    · rcases hpc with ⟨hpc, -⟩ | ⟨hpc, -⟩
      · exact hkeep f' (Or.inl (hpc ▸ hf'))
      · rw [hpc f' hf']
        exact within_reading _
    · rcases hticker with hticker | hticker
      · exact hkeep f' (Or.inr (hticker ▸ hf'))
      · rw [hticker] at hf'
        obtain rfl := Option.some.inj hf'
        exact within_reading _
  | flush f o hbefore hf hservice hpc hticker =>
    rcases hf' with hf' | hf'
    · rw [hpc] at hf'
      rcases flush_afterFlush hf' with hnext | rfl
      · rw [hservice]
        exact hf.within (hI f (Or.inl (by rw [hbefore]; rfl))) hnext
      · exact within_reading _
    · exact hkeep f' (Or.inr (hticker ▸ hf'))
  | drain f o hbefore hf hservice hpc hticker =>
    rcases hf' with hf' | hf'
    · rw [hpc] at hf'
      rw [hservice]
      exact hf.within (hI f (Or.inl (by rw [hbefore]; rfl))) (flush_afterDrain hf')
    · exact hkeep f' (Or.inr (hticker ▸ hf'))
  | tick f o hbefore hf hservice hpc hticker =>
    rcases hf' with hf' | hf'
    · exact hkeep f' (Or.inl (hpc ▸ hf'))
    · rw [hticker] at hf'
      rw [hservice]
      exact hf.within (hI f (Or.inr hbefore)) (mem_ticker hf')

/-- The counts of a worker only grow while it is up. -/
theorem Acts.countOf_le (ha : Acts d maxPoll s k w b s') (k' id : GoString) (kind : Kind) :
    countOf s.counts k' id kind ≤ countOf s'.counts k' id kind := by
  rcases ha.counts_cases with heq | ⟨new, heq, -⟩ | heq
  · rw [heq]
  · rw [heq, countOf_append]
    exact Nat.le_add_right ..
  · rw [heq, countOf_settleCounts]

end

/-- No report, and no snapshot, says more than was counted. -/
structure Bounded (s : State) : Prop where
  flush : ∀ k w, s.workers k = some w → ∀ f, f ∈ w.pc.flush ∨ f ∈ w.ticker → Within w.service f
  progress : ∀ p ∈ s.progress, ∀ kind, rowsOf p kind ≤ countOf s.counts p.workerID p.jobID kind

/-- A worker stops only with counts it has committed, as far as it has published them. -/
def Covered (s : State) : Label → Prop
  | .stop k => ∀ p ∈ s.progress, p.workerID = k →
      p.processedRows ≤ committedOf s.counts k p.jobID .applied ∧
        p.deadRows ≤ committedOf s.counts k p.jobID .dead
  | _ => True

instance (s : State) (a : Label) : Decidable (Covered s a) := by
  unfold Covered
  split <;> infer_instance

/-- What a worker has committed survives it. -/
theorem committedOf_le_dropCounts (l : List Count) (k id : GoString) (kind : Kind) :
    committedOf l k id kind ≤ countOf (dropCounts k l) k id kind := by
  unfold committedOf countOf dropCounts
  rw [List.countP_filter]
  apply List.countP_mono_left
  intro c _ hc
  simp only [Bool.and_eq_true, decide_eq_true_eq, Bool.or_eq_true] at hc ⊢
  exact ⟨hc.1, Or.inr hc.2⟩

section
variable {d : Dialect} {maxPoll : ℕ} {s s' : State} {a : Label}

/-- **No report yet to be sent says more than was counted.** -/
theorem within_step (hI : ∀ k w, s.workers k = some w → ∀ f, f ∈ w.pc.flush ∨ f ∈ w.ticker →
      Within w.service f)
    (h : step d maxPoll s a = some s') : ∀ k w, s'.workers k = some w →
      ∀ f, f ∈ w.pc.flush ∨ f ∈ w.ticker → Within w.service f := by
  intro k w' hw'
  rcases worker_step h hw' with ⟨-, rfl⟩ | ⟨p, w, -, hw, rfl⟩ | ⟨b, w, -, hw, ha⟩ | ⟨hw, -⟩
  · rintro f (hf | hf) <;> cases hf
  · exact hI k w hw
  · obtain ⟨w'', hw'', hflow⟩ := ha.flow
    obtain rfl := Option.some.inj (hw''.symm.trans hw')
    exact hflow.within (hI k w hw)
  · exact hI k w' hw

/-- **No snapshot says more than was counted.** -/
theorem bounded_step (hI : Bounded s) (hT : ∀ id, Tallied id s) (hC : Covered s a)
    (h : step d maxPoll s a = some s') : Bounded s' := by
  constructor
  · exact within_step hI.flush h
  · intro p hp kind
    cases a with
    | append r =>
      obtain rfl := step_append h
      exact hI.progress p hp kind
    | start k =>
      obtain ⟨-, rfl⟩ := step_start h
      exact hI.progress p hp kind
    | stop k =>
      obtain rfl := step_stop h
      by_cases hk : p.workerID = k
      · -- The counts that remain are those it has committed.
        obtain ⟨happlied, hdead⟩ := hC p hp hk
        have hle := committedOf_le_dropCounts s.counts k p.jobID kind
        rw [hk]
        cases kind with
        | applied => exact Nat.le_trans happlied hle
        | dead => exact Nat.le_trans hdead hle
      · rw [countOf_dropCounts_of_ne hk]
        exact hI.progress p hp kind
    | assign q k =>
      obtain ⟨w, -, -, rfl⟩ := step_assign h
      exact hI.progress p hp kind
    | worker k a =>
      obtain ⟨w, hw, ha⟩ := step_worker h
      obtain ⟨w', -, hflow⟩ := ha.flow
      refine Nat.le_trans ?_ (ha.countOf_le p.workerID p.jobID kind)
      rcases hflow.sent hp with hp | ⟨f, r, hf, hr, rfl⟩
      · exact hI.progress p hp kind
      · -- The report was within the counters, and these are the counts of the worker.
        have hle := hI.flush k w hw f hf r hr kind
        rw [hT r.jobID k w hw kind] at hle
        rw [rowsOf_snapshot]
        exact hle

end

/-! ### What is committed has been published -/

/-- What a flush found to be due is yet to be sent, or has been. -/
def Sent (progress : List ImportProgress) (k : GoString) (f : FlushPc) : Prop :=
  ∀ r ∈ f.pending, r ∈ f.todo ∨ r.snapshot k ∈ progress

/-- The counters are published when the loop stands at its commit, and on the way there
they are published or found to be due. -/
def Pc.Published (progress : List ImportProgress) (k : GoString) (sv : Service) : Pc → Prop
  | .flushing f => f = .reading ∨ ∀ id kind, Backed progress k id kind (sv.count id kind) ∨
      ∃ r ∈ f.pending, r.jobID = id ∧ r.count kind = sv.count id kind
  | .committing => ∀ id kind, Backed progress k id kind (sv.count id kind)
  | _ => True

/-- What a worker has published of its counters. -/
structure Reports (progress : List ImportProgress) (k : GoString) (w : Worker) : Prop where
  pub : ∀ id kind, Backed progress k id kind (w.service.pub id kind)
  flush : ∀ f, f ∈ w.pc.flush ∨ f ∈ w.ticker → Sent progress k f
  loop : w.pc.Published progress k w.service

theorem sent_reading (progress : List ImportProgress) (k : GoString) : Sent progress k .reading :=
  fun _ hr => absurd hr List.not_mem_nil

theorem Sent.mono {progress progress' : List ImportProgress} {k : GoString} {f : FlushPc}
    (h : Sent progress k f) (hsub : ∀ p ∈ progress, p ∈ progress') : Sent progress' k f :=
  fun r hr => (h r hr).imp_right (hsub _)

theorem Pc.Published.mono {progress progress' : List ImportProgress} {k : GoString}
    {sv sv' : Service} {pc : Pc} (h : pc.Published progress k sv)
    (hsub : ∀ p ∈ progress, p ∈ progress')
    (hcount : ∀ id kind, sv'.count id kind = sv.count id kind) : pc.Published progress' k sv' := by
  cases pc with
  | flushing f =>
    rcases h with rfl | h
    · exact Or.inl rfl
    · refine Or.inr fun id kind => ?_
      rw [hcount]
      exact (h id kind).imp_left fun hb => hb.mono hsub (Nat.le_refl _)
  | committing =>
    intro id kind
    rw [hcount]
    exact (h id kind).mono hsub (Nat.le_refl _)
  | _ => trivial

section
variable {progress : List ImportProgress} {k : GoString} {sv : Service} {f f' : FlushPc}
  {o : FlushOut}

theorem Flushes.sentNext (hf : Flushes k sv f o) (h : Sent progress k f)
    (hnext : o.next = .running f') : Sent (progress ++ o.sent.toList) k f' := by
  cases hf with
  | read hperm =>
    obtain rfl := FlushNext.running.inj hnext
    exact fun r hr => Or.inl hr
  | @report pending todo r₀ =>
    obtain rfl := FlushNext.running.inj hnext
    intro r hr
    rw [pending_afterReport] at hr
    rw [todo_afterReport]
    rcases h r hr with hmem | hmem
    · rcases List.mem_cons.mp hmem with rfl | hmem
      · exact Or.inr (List.mem_append_right _ (List.mem_singleton_self _))
      · exact Or.inl hmem
    · exact Or.inr (List.mem_append_left _ hmem)
  | confirm =>
    obtain rfl := FlushNext.running.inj hnext
    intro r hr
    exact Or.inr (List.mem_append_left _ ((h r hr).resolve_left List.not_mem_nil))
  | _ => cases hnext

/-- What a flush marks as published has been sent. -/
theorem Flushes.backed_pub (hf : Flushes k sv f o) (hs : Sent progress k f)
    (hpub : ∀ id kind, Backed progress k id kind (sv.pub id kind)) (id : GoString) (kind : Kind) :
    Backed progress k id kind (o.service.pub id kind) := by
  cases hf with
  | @mark pending =>
    change Backed progress k id kind ((sv.mark pending).pub id kind)
    rcases Service.pub_mark sv pending id kind with heq | ⟨r, hr, rfl, heq⟩
    · rw [heq]
      exact hpub id kind
    · rw [heq]
      exact backed_snapshot ((hs r hr).resolve_left List.not_mem_nil) kind
  | _ => exact hpub id kind

/-- The flush of the loop on its way to the commit. -/
theorem Flushes.published (hf : Flushes k sv f o) (hs : Sent progress k f)
    (hpub : ∀ id kind, Backed progress k id kind (sv.pub id kind))
    (h : (Pc.flushing f).Published progress k sv) :
    (Pc.afterFlush o.next).Published (progress ++ o.sent.toList) k o.service := by
  have hsub : ∀ p ∈ progress, p ∈ progress ++ o.sent.toList := fun _ => List.mem_append_left _
  cases hf with
  | readNone hdue =>
    intro id kind
    -- Nothing is due, so what is counted is what has been published.
    rcases sv.count_eq_pub_or_due id kind with heq | ⟨r, hr, -⟩
    · change Backed _ k id kind (sv.count id kind)
      rw [heq]
      exact (hpub id kind).mono hsub (Nat.le_refl _)
    · rw [hdue] at hr
      cases hr
  | read hperm =>
    refine Or.inr fun id kind => ?_
    rcases sv.count_eq_pub_or_due id kind with heq | ⟨r, hr, hid, hcount⟩
    · left
      change Backed _ k id kind (sv.count id kind)
      rw [heq]
      exact (hpub id kind).mono hsub (Nat.le_refl _)
    · exact Or.inr ⟨r, hperm.symm.subset hr, hid, hcount⟩
  | report =>
    refine Or.inr fun id kind => ?_
    rw [pending_afterReport]
    have hcover := h.resolve_left (FlushPc.noConfusion) id kind
    exact hcover.imp_left fun hb => hb.mono hsub (Nat.le_refl _)
  | reportFail hsent => trivial
  | confirm =>
    refine Or.inr fun id kind => ?_
    have hcover := h.resolve_left (FlushPc.noConfusion) id kind
    exact hcover.imp_left fun hb => hb.mono hsub (Nat.le_refl _)
  | confirmFail => trivial
  | @mark pending =>
    intro id kind
    change Backed _ k id kind ((sv.mark pending).count id kind)
    rw [Service.count_mark]
    have hcover := h.resolve_left (FlushPc.noConfusion) id kind
    rcases hcover with hb | ⟨r, hr, rfl, hcount⟩
    · exact hb.mono hsub (Nat.le_refl _)
    · rw [← hcount]
      exact (backed_snapshot ((hs r hr).resolve_left List.not_mem_nil) kind).mono hsub
        (Nat.le_refl _)

end

section
variable {d : Dialect} {maxPoll : ℕ} {s s' : State} {k : GoString} {w w' : Worker} {b : Action}

theorem published_of_idle {progress : List ImportProgress} {sv : Service} {pc : Pc}
    (h : ∀ f ∈ pc.flush, f = .reading) (hpc : pc ≠ .committing) : pc.Published progress k sv := by
  cases pc with
  | flushing f => exact Or.inl (h f rfl)
  | committing => exact absurd rfl hpc
  | _ => trivial

/-- What is published stays so, through a step of the worker itself. -/
theorem Flow.reports (h : Flow s k w s' w') (hI : Reports s.progress k w) :
    Reports s'.progress k w' := by
  cases h with
  | quiet l hservice hpc hticker hprogress =>
    rw [hprogress]
    refine ⟨fun id kind => ?_, fun f' hf' => ?_, ?_⟩
    · rw [hservice, Service.pub_countAll]
      exact hI.pub id kind
    · rcases hf' with hf' | hf'
      · rcases hpc with ⟨hpc, -⟩ | ⟨hpc, -⟩
        · exact hI.flush f' (Or.inl (hpc ▸ hf'))
        · rw [hpc f' hf']
          exact sent_reading _ _
      · rcases hticker with hticker | hticker
        · exact hI.flush f' (Or.inr (hticker ▸ hf'))
        · rw [hticker] at hf'
          obtain rfl := Option.some.inj hf'
          exact sent_reading _ _
    · -- The loop is where it was with nothing counted, or at a place that promises nothing.
      rcases hpc with ⟨hpc, rfl⟩ | ⟨hflush, hcommit⟩
      · rw [hpc, hservice]
        exact hI.loop
      · exact published_of_idle hflush hcommit
  | flush f o hbefore hf hservice hpc hticker hprogress =>
    have hsent : Sent s.progress k f := hI.flush f (Or.inl (by rw [hbefore]; rfl))
    have hsub : ∀ p ∈ s.progress, p ∈ s'.progress := by
      rw [hprogress]
      exact fun p hp => List.mem_append_left _ hp
    refine ⟨fun id kind => ?_, fun f' hf' => ?_, ?_⟩
    · rw [hservice]
      exact (hf.backed_pub hsent hI.pub id kind).mono hsub (Nat.le_refl _)
    · rcases hf' with hf' | hf'
      · rw [hpc] at hf'
        rcases flush_afterFlush hf' with hnext | rfl
        · rw [hprogress]
          exact hf.sentNext hsent hnext
        · exact sent_reading _ _
      · exact (hI.flush f' (Or.inr (hticker ▸ hf'))).mono hsub
    · rw [hpc, hservice, hprogress]
      have hloop := hI.loop
      rw [hbefore] at hloop
      exact hf.published hsent hI.pub hloop
  | drain f o hbefore hf hservice hpc hticker hprogress =>
    have hsent : Sent s.progress k f := hI.flush f (Or.inl (by rw [hbefore]; rfl))
    have hsub : ∀ p ∈ s.progress, p ∈ s'.progress := by
      rw [hprogress]
      exact fun p hp => List.mem_append_left _ hp
    refine ⟨fun id kind => ?_, fun f' hf' => ?_, ?_⟩
    · rw [hservice]
      exact (hf.backed_pub hsent hI.pub id kind).mono hsub (Nat.le_refl _)
    · rcases hf' with hf' | hf'
      · rw [hpc] at hf'
        rw [hprogress]
        exact hf.sentNext hsent (flush_afterDrain hf')
      · exact (hI.flush f' (Or.inr (hticker ▸ hf'))).mono hsub
    · rw [hpc]
      cases o.next <;> trivial
  | tick f o hbefore hf hservice hpc hticker hprogress =>
    have hsent : Sent s.progress k f := hI.flush f (Or.inr hbefore)
    have hsub : ∀ p ∈ s.progress, p ∈ s'.progress := by
      rw [hprogress]
      exact fun p hp => List.mem_append_left _ hp
    refine ⟨fun id kind => ?_, fun f' hf' => ?_, ?_⟩
    · rw [hservice]
      exact (hf.backed_pub hsent hI.pub id kind).mono hsub (Nat.le_refl _)
    · rcases hf' with hf' | hf'
      · exact (hI.flush f' (Or.inl (hpc ▸ hf'))).mono hsub
      · rw [hticker] at hf'
        rw [hprogress]
        exact hf.sentNext hsent (mem_ticker hf')
    · rw [hpc]
      -- The ticker does not touch what the loop has counted.
      refine hI.loop.mono hsub fun id kind => ?_
      rw [hservice]
      exact hf.count id kind

theorem Reports.mono {progress progress' : List ImportProgress} (h : Reports progress k w)
    (hsub : ∀ p ∈ progress, p ∈ progress') : Reports progress' k w where
  pub id kind := (h.pub id kind).mono hsub (Nat.le_refl _)
  flush f hf := (h.flush f hf).mono hsub
  loop := h.loop.mono hsub fun _ _ => rfl

/-- A worker that has just started has counted and published nothing. -/
theorem reports_start (progress : List ImportProgress) (k : GoString) : Reports progress k {} where
  pub _ kind := Or.inl (by cases kind <;> rfl)
  flush f hf := by rcases hf with hf | hf <;> cases hf
  loop := trivial

end

/-- Every worker has published its counters when it stands at its commit. -/
def Reporting (s : State) : Prop := ∀ k w, s.workers k = some w → Reports s.progress k w

variable {d : Dialect} {maxPoll : ℕ} {s s' : State} {a : Label}

/-- **Progress before commit**: at its commit a worker has published what it counted. -/
theorem reports_step (hI : Reporting s) (h : step d maxPoll s a = some s') : Reporting s' := by
  intro k w' hw'
  have hsub : ∀ p ∈ s.progress, p ∈ s'.progress := fun p hp => progress_step h hp
  rcases worker_step h hw' with ⟨-, rfl⟩ | ⟨p, w, -, hw, rfl⟩ | ⟨b, w, -, hw, ha⟩ | ⟨hw, -⟩
  · exact reports_start ..
  · have hr := (hI k w hw).mono hsub
    exact ⟨hr.pub, hr.flush, hr.loop⟩
  · obtain ⟨w'', hw'', hflow⟩ := ha.flow
    obtain rfl := Option.some.inj (hw''.symm.trans hw')
    exact hflow.reports (hI k w hw)
  · exact (hI k w' hw).mono hsub

/-! ### What survives a worker -/

/-- What a worker has committed for a job has been published under its identity. -/
def Backing (id : GoString) (s : State) : Prop :=
  ∀ k kind, Backed s.progress k id kind (committedOf s.counts k id kind)

theorem committedOf_append_pending {l new : List Count} (h : ∀ c ∈ new, c.committed = false)
    (k id : GoString) (kind : Kind) :
    committedOf (l ++ new) k id kind = committedOf l k id kind := by
  have hzero : committedOf new k id kind = 0 := by
    rw [committedOf, List.countP_eq_zero]
    intro c hc
    rw [h c hc]
    simp
  change (l ++ new).countP _ = _
  rw [List.countP_append]
  exact (congrArg (committedOf l k id kind + ·) hzero).trans (Nat.add_zero _)

theorem committedOf_settleCounts_of_ne {k k' : GoString} (hk : k' ≠ k) (l : List Count)
    (id : GoString) (kind : Kind) :
    committedOf (settleCounts k l) k' id kind = committedOf l k' id kind := by
  unfold committedOf settleCounts
  rw [List.countP_map]
  apply List.countP_congr
  intro c _
  simp only [Function.comp_apply]
  split
  · next hw => simp [Count.Of, hw, Ne.symm hk]
  · rfl

theorem committedOf_settleCounts_le (k k' : GoString) (l : List Count) (id : GoString)
    (kind : Kind) : committedOf (settleCounts k l) k' id kind ≤ countOf l k' id kind := by
  rw [← countOf_settleCounts k l]
  exact committedOf_le ..

theorem committedOf_dropCounts_le (k k' : GoString) (l : List Count) (id : GoString) (kind : Kind) :
    committedOf (dropCounts k l) k' id kind ≤ committedOf l k' id kind :=
  List.filter_sublist.countP_le

/-- **What is committed for a job has been published**, as long as the identities of its
workers are not reused. -/
theorem backing_step {id : GoString} (hI : Backing id s) (hT : Tallied id s) (hR : Reporting s)
    (h : step d maxPoll s a = some s') : Backing id s' := by
  intro k' kind
  cases a with
  | append r =>
    obtain rfl := step_append h
    exact hI k' kind
  | start k =>
    obtain ⟨-, rfl⟩ := step_start h
    exact hI k' kind
  | stop k =>
    obtain rfl := step_stop h
    exact (hI k' kind).mono (fun _ hp => hp) (committedOf_dropCounts_le ..)
  | assign p k =>
    obtain ⟨w, hw, -, rfl⟩ := step_assign h
    exact hI k' kind
  | worker k a =>
    obtain ⟨w, hw, ha⟩ := step_worker h
    have hsub := ha.mono.2.2
    have hkeep : committedOf s'.counts k' id kind = committedOf s.counts k' id kind →
        Backed s'.progress k' id kind (committedOf s'.counts k' id kind) :=
      fun heq => (hI k' kind).mono hsub (Nat.le_of_eq heq)
    cases ha with
    | countPoison =>
      apply hkeep
      apply committedOf_append_pending
      intro c hc
      rw [List.mem_singleton.mp hc]
    | count => exact hkeep (committedOf_append_pending (fun c hc => (of_mem_countsOf hc).2.1) ..)
    | commit hpc hpc' =>
      by_cases hk : k' = k
      · subst hk
        -- The counters were published before the commit.
        have hloop := (hR k' w hw).loop
        rw [hpc] at hloop
        have hle : committedOf (settleCounts k' s.counts) k' id kind ≤ w.service.count id kind := by
          rw [hT k' w hw kind]
          exact committedOf_settleCounts_le ..
        exact (hloop id kind).mono (fun _ hp => hp) hle
      · exact hkeep (committedOf_settleCounts_of_ne hk ..)
    | _ => exact hkeep rfl

end CsvProductUploader.Catalog

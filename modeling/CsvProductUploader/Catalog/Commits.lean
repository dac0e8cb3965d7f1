import CsvProductUploader.Catalog.Adjudication
import CsvProductUploader.Catalog.Reporting

/-!
# What a commit covers

When a worker commits, the totals of each of its jobs stand on the progress topic in one
snapshot, and they count every record the worker has committed since it started.  The ticker
reads, publishes and marks in steps of its own; a mark it sets late is an older one, and what
is marked has been published all the same.

## Main definitions

* `Marked`, `Pc.Shown` — the marks, and the totals, of a service are on the progress topic.
* `Log.tally` — the number of records of a job with an outcome.
* `Audit`, `Audit.step` — the group, and what each worker has committed since it started.
* `Taken` — the totals of a worker count what it has committed and polled.

## Main results

* `shown_step`, `taken_step` — both are invariants of every run.
* `commit_settled` — what a successful commit covers.
-/

namespace CsvProductUploader.Catalog

open Runs

/-! ### The totals of a job in one snapshot -/

/-- What an entry has marked as published is on the progress topic. -/
def Marked (progress : List ImportProgress) (k : GoString) (sv : Service) : Prop :=
  ∀ id e, sv.lookup id = some e → e.published = true → (e.marks id).snapshot k ∈ progress

/-- The totals of every entry are on the progress topic when the loop stands at its commit,
and on the way there they are on it or found to be due. -/
def Pc.Shown (progress : List ImportProgress) (k : GoString) (sv : Service) : Pc → Prop
  | .flushing f => f = .reading ∨ ∀ id e, sv.lookup id = some e →
      (e.report id).snapshot k ∈ progress ∨ e.report id ∈ f.pending
  | .committing => ∀ id e, sv.lookup id = some e → (e.report id).snapshot k ∈ progress
  | _ => True

section
variable {progress progress' : List ImportProgress} {k : GoString} {sv sv' : Service}
  {f f' : FlushPc} {o : FlushOut} {pc : Pc}

theorem Pc.Shown.mono (h : pc.Shown progress k sv) (hsub : ∀ p ∈ progress, p ∈ progress')
    (hentry : ∀ id e', sv'.lookup id = some e' →
      ∃ e, sv.lookup id = some e ∧ e'.report id = e.report id) : pc.Shown progress' k sv' := by
  cases pc with
  | flushing f =>
    rcases h with hreading | h
    · exact Or.inl hreading
    · right
      intro id e' he'
      obtain ⟨e, he, hreport⟩ := hentry id e' he'
      rw [hreport]
      exact (h id e he).imp_left (hsub _)
  | committing =>
    intro id e' he'
    obtain ⟨e, he, hreport⟩ := hentry id e' he'
    rw [hreport]
    exact hsub _ (h id e he)
  | _ => trivial

theorem shown_of_idle (h : ∀ f ∈ pc.flush, f = .reading) (hpc : pc ≠ .committing) :
    pc.Shown progress k sv := by
  cases pc with
  | flushing f => exact Or.inl (h f rfl)
  | committing => exact absurd rfl hpc
  | _ => trivial

/-- A flush leaves the totals of every entry. -/
theorem Flushes.report_eq (hf : Flushes k sv f o) {id : GoString} {e' : JobEntry}
    (h : o.service.lookup id = some e') :
    ∃ e, sv.lookup id = some e ∧ e'.report id = e.report id := by
  cases hf with
  | mark =>
    obtain ⟨e, he, hreport, -⟩ := Service.of_lookup_mark h
    exact ⟨e, he, hreport⟩
  | _ => exact ⟨e', h, rfl⟩

/-- What a flush marks has been sent, also if a later flush was faster. -/
theorem Flushes.marked (hf : Flushes k sv f o) (hs : Sent progress k f)
    (h : Marked progress k sv) : Marked progress k o.service := by
  cases hf with
  | mark =>
    intro id e' he' hpub
    obtain ⟨e, he, -, hmarks⟩ := Service.of_lookup_mark he'
    rcases hmarks with rfl | hmem
    · exact h id e' he hpub
    · exact (hs _ hmem).resolve_left List.not_mem_nil
  | _ => exact h

/-- The flush of the loop on its way to the commit. -/
theorem Flushes.shown (hf : Flushes k sv f o) (hs : Sent progress k f)
    (hm : Marked progress k sv) (h : (Pc.flushing f).Shown progress k sv) :
    (Pc.afterFlush o.next).Shown (progress ++ o.sent.toList) k o.service := by
  have hsub : ∀ p ∈ progress, p ∈ progress ++ o.sent.toList := fun _ => List.mem_append_left _
  -- What is not due is marked, so it has been sent.
  have hread : ∀ id e, sv.lookup id = some e →
      (e.report id).snapshot k ∈ progress ∨ e.report id ∈ sv.due := by
    intro id e he
    rcases Service.report_due_or_marks he with hdue | ⟨hpub, hmarks⟩
    · exact Or.inr hdue
    · rw [hmarks]
      exact Or.inl (hm id e he hpub)
  cases hf with
  | readNone hdue =>
    intro id e he
    rcases hread id e he with hmem | hmem
    · exact hsub _ hmem
    · rw [hdue] at hmem
      cases hmem
  | read hperm =>
    right
    intro id e he
    exact (hread id e he).imp (hsub _) fun hmem => hperm.symm.subset hmem
  | report =>
    right
    intro id e he
    rw [pending_afterReport]
    exact (h.resolve_left FlushPc.noConfusion id e he).imp_left (hsub _)
  | reportFail => trivial
  | confirm =>
    right
    intro id e he
    exact (h.resolve_left FlushPc.noConfusion id e he).imp_left (hsub _)
  | confirmFail => trivial
  | mark =>
    intro id e' he'
    obtain ⟨e, he, hreport, -⟩ := Service.of_lookup_mark he'
    rw [hreport]
    rcases h.resolve_left FlushPc.noConfusion id e he with hmem | hmem
    · exact hsub _ hmem
    · exact hsub _ ((hs _ hmem).resolve_left List.not_mem_nil)

end

/-- What a worker has published of its totals, in one snapshot for each job. -/
structure Displays (progress : List ImportProgress) (k : GoString) (w : Worker) : Prop where
  marked : Marked progress k w.service
  shown : w.pc.Shown progress k w.service

section
variable {s s' : State} {k : GoString} {w w' : Worker}

theorem Displays.mono {progress progress' : List ImportProgress} (h : Displays progress k w)
    (hsub : ∀ p ∈ progress, p ∈ progress') : Displays progress' k w where
  marked id e he hpub := hsub _ (h.marked id e he hpub)
  shown := h.shown.mono hsub fun _ e' he' => ⟨e', he', rfl⟩

/-- What is published stays so, through a step of the worker itself. -/
theorem Flow.displays (h : Flow s k w s' w') (hR : Reports s.progress k w)
    (hI : Displays s.progress k w) : Displays s'.progress k w' := by
  -- A step of a flush only adds to the topic, and marks what has been sent.
  have hflush : ∀ f o, (f ∈ w.pc.flush ∨ f ∈ w.ticker) → Flushes k w.service f o →
      w'.service = o.service → s'.progress = s.progress ++ o.sent.toList →
      (∀ p ∈ s.progress, p ∈ s'.progress) ∧ Marked s'.progress k w'.service := by
    intro f o hmem hf hservice hprogress
    have hsub : ∀ p ∈ s.progress, p ∈ s'.progress := by
      intro p hp
      rw [hprogress]
      exact List.mem_append_left _ hp
    refine ⟨hsub, ?_⟩
    rw [hservice]
    intro id e he hpub
    exact hsub _ (hf.marked (hR.flush f hmem) hI.marked id e he hpub)
  cases h with
  | quiet l hservice hpc hticker hprogress =>
    rw [hprogress]
    constructor
    · rw [hservice]
      intro id e' he' hpub'
      obtain ⟨e, he, hpub, hmarks⟩ := Service.of_lookup_countAll he' hpub'
      rw [hmarks]
      exact hI.marked id e he hpub
    · rcases hpc with ⟨hpc, rfl⟩ | ⟨hidle, hcommit⟩
      · rw [hpc, hservice]
        exact hI.shown
      · exact shown_of_idle hidle hcommit
  | flush f o hbefore hf hservice hpc hticker hprogress =>
    have hmem : f ∈ w.pc.flush ∨ f ∈ w.ticker := Or.inl (by rw [hbefore]; rfl)
    obtain ⟨hsub, hmarked⟩ := hflush f o hmem hf hservice hprogress
    refine ⟨hmarked, ?_⟩
    have hshown := hI.shown
    rw [hbefore] at hshown
    rw [hpc, hservice, hprogress]
    exact hf.shown (hR.flush f hmem) hI.marked hshown
  | drain f o hbefore hf hservice hpc hticker hprogress =>
    have hmem : f ∈ w.pc.flush ∨ f ∈ w.ticker := Or.inl (by rw [hbefore]; rfl)
    obtain ⟨hsub, hmarked⟩ := hflush f o hmem hf hservice hprogress
    refine ⟨hmarked, ?_⟩
    rw [hpc]
    cases o.next <;> trivial
  | tick f o hbefore hf hservice hpc hticker hprogress =>
    obtain ⟨hsub, hmarked⟩ := hflush f o (Or.inr hbefore) hf hservice hprogress
    refine ⟨hmarked, ?_⟩
    rw [hpc, hservice]
    exact hI.shown.mono hsub fun _ _ he' => hf.report_eq he'

end

section
variable {d : Dialect} {maxPoll : ℕ} {s s' : State} {a : Label}

/-- **Totals before commit**: at its commit the totals of a worker are on the progress topic,
those of one job in one snapshot. -/
theorem shown_step (hI : ∀ k w, s.workers k = some w → Displays s.progress k w)
    (hR : Reporting s) (h : step d maxPoll s a = some s') :
    ∀ k w, s'.workers k = some w → Displays s'.progress k w := by
  have hsub : ∀ p ∈ s.progress, p ∈ s'.progress := fun p hp => progress_step h hp
  intro k w' hw'
  rcases worker_step h hw' with ⟨-, rfl⟩ | ⟨p, w, -, hw, rfl⟩ | ⟨b, w, -, hw, ha⟩ | ⟨hw, -⟩
  · exact ⟨fun _ _ he => (nomatch he), trivial⟩
  · have hd := (hI k w hw).mono hsub
    exact ⟨hd.marked, hd.shown⟩
  · obtain ⟨w'', hw'', hflow⟩ := ha.flow
    obtain rfl : w'' = w' := Option.some.inj (hw''.symm.trans hw')
    exact hflow.displays (hR k w hw) (hI k w hw)
  · exact (hI k w' hw).mono hsub

end

/-! ### The records behind the totals -/

namespace Log

variable {log : Log} {i : ℕ} {refs : List ℕ}

/-- The outcome under which the record at a position is counted. -/
def kindAt (log : Log) (i : ℕ) : Kind := if log.validAt i then .applied else .dead

/-- The number of records of a job with an outcome. -/
def tally (log : Log) (refs : List ℕ) (id : GoString) (kind : Kind) : ℕ :=
  refs.countP fun i => log.jobAt i = some id ∧ log.kindAt i = kind

theorem tally_cons (i : ℕ) (id : GoString) (kind : Kind) :
    log.tally (i :: refs) id kind =
      log.tally refs id kind + if log.jobAt i = some id ∧ log.kindAt i = kind then 1 else 0 := by
  simp only [tally, List.countP_cons, decide_eq_true_eq]

theorem tally_append (refs' : List ℕ) (id : GoString) (kind : Kind) :
    log.tally (refs ++ refs') id kind = log.tally refs id kind + log.tally refs' id kind := by
  simp only [tally, List.countP_append]

theorem tally_perm {refs' : List ℕ} (h : refs.Perm refs') (id : GoString) (kind : Kind) :
    log.tally refs id kind = log.tally refs' id kind := h.countP_eq _

/-- A record that no job can be told of is counted nowhere. -/
theorem tally_cons_of_none (h : log.jobAt i = none) (id : GoString) (kind : Kind) :
    log.tally (i :: refs) id kind = log.tally refs id kind := by
  rw [tally_cons, h]
  simp

theorem tally_snoc (h : ∀ i ∈ refs, i < log.length) (r : Record) (id : GoString) (kind : Kind) :
    tally (log ++ [r]) refs id kind = log.tally refs id kind := by
  unfold tally
  apply List.countP_congr
  intro i hi
  rw [jobAt_snoc (h i hi), kindAt, kindAt, validAt_snoc (h i hi)]

theorem kindAt_of_raw (h : log.eventAt i = none) : log.kindAt i = .dead := by
  simp [kindAt, validAt, h]

end Log

/-- The counts made of events with one outcome, as a tally. -/
theorem countOf_filterMap_eq_tally {log : Log} {k : GoString} {kind' : Kind} {refs : List ℕ}
    (h : ∀ i ∈ refs, (log.eventAt i).isSome = true ∧ log.kindAt i = kind') (id : GoString)
    (kind : Kind) :
    countOf (refs.filterMap fun i => (log.eventAt i).map fun evt =>
        { worker := k, ref := i, job := evt.jobID, kind := kind' }) k id kind =
      log.tally refs id kind := by
  induction refs with
  | nil => rfl
  | cons i refs ih =>
    obtain ⟨⟨hi, hkind⟩, hrefs⟩ := List.forall_mem_cons.mp h
    obtain ⟨evt, hevt⟩ := Option.isSome_iff_exists.mp hi
    have hjob := Log.jobAt_of_eventAt hevt
    rw [Log.tally_cons, ← ih hrefs, hjob, hkind]
    simp only [countOf, List.filterMap_cons, hevt, Option.map_some, List.countP_cons,
      decide_eq_true_eq, Option.some.injEq, Count.Of, true_and]

/-- Counting a batch counts each of its events under its outcome. -/
theorem countOf_countsOf (log : Log) (k : GoString) (batch : List ℕ) (id : GoString)
    (kind : Kind) :
    countOf (countsOf log k batch) k id kind = log.tally (log.eventRefs batch) id kind := by
  have hperm := log.validRefs_append_invalidRefs batch
  rw [countsOf, countOf_append, countOf_filterMap_eq_tally, countOf_filterMap_eq_tally,
    ← Log.tally_append, Log.tally_perm hperm]
  · intro i hi
    have hmem := (List.mem_filter.mp hi).2
    rw [Bool.and_eq_true, Bool.not_eq_true'] at hmem
    exact ⟨hmem.1, by rw [Log.kindAt, hmem.2]; rfl⟩
  · intro i hi
    have hvalid := (List.mem_filter.mp hi).2
    exact ⟨Log.isSome_of_validAt hvalid, by rw [Log.kindAt, if_pos hvalid]⟩

/-- The totals of a worker count what it has committed and what it has counted of its
batch. -/
def Taken (log : Log) (done : List ℕ) (w : Worker) : Prop :=
  w.pc.alive = true → ∀ id kind,
    w.service.count id kind + log.tally (w.pc.uncounted log w.batch) id kind =
      log.tally (done ++ w.batch) id kind

section
variable {d : Dialect} {maxPoll : ℕ} {s s' : State} {k : GoString} {w w' : Worker} {b : Action}
  {done : List ℕ}

/-- A step that counts nothing, or gives up on the batch. -/
theorem Taken.keep (h : Taken s.log done w) (hservice : w'.service = w.service)
    (hbatch : w'.batch = w.batch) (hpc : w'.pc.alive = true → w.pc.alive = true ∧
      ∀ id kind, s.log.tally (w'.pc.uncounted s.log w.batch) id kind =
        s.log.tally (w.pc.uncounted s.log w.batch) id kind) : Taken s.log done w' := by
  intro halive id kind
  obtain ⟨hw, htally⟩ := hpc halive
  rw [hservice, hbatch, htally]
  exact h hw id kind

/-- A commit takes the batch over into what is committed. -/
theorem Taken.commit (h : Taken s.log done w) (hpc : w.pc = .committing)
    (hservice : w'.service = w.service) (hbatch : w'.batch = [])
    (hpc' : w'.pc = .polling ∨ w'.pc = .draining .reading) : Taken s.log (done ++ w.batch) w' := by
  intro halive id kind
  have hcount := h (by rw [hpc]; rfl) id kind
  rw [hpc] at hcount
  rcases hpc' with hpc' | hpc'
  · rw [hpc', hservice, hbatch]
    simp only [Pc.uncounted, List.append_nil] at hcount ⊢
    exact hcount
  · rw [hpc'] at halive
    cases halive

/-- A step of a worker keeps its totals in line with what it has committed and counted. -/
theorem Acts.taken (ha : Acts d maxPoll s k w b s') (hdone : w.pc.Done s w.batch)
    (h : Taken s.log done w) :
    ∃ w', s'.workers k = some w' ∧
      (Taken s.log done w' ∨ (w'.batch = [] ∧ Taken s.log (done ++ w.batch) w')) := by
  -- The cases in which the loop goes on over what it had yet to count.
  have hgo : ∀ w' : Worker, w'.service = w.service → w'.batch = w.batch →
      w'.pc.uncounted s.log w.batch = w.pc.uncounted s.log w.batch → w.pc.alive = true →
      Taken s.log done w' := by
    intro w' hservice hbatch hunc halive
    exact h.keep hservice hbatch fun _ => ⟨halive, fun id kind => by rw [hunc]⟩
  have hstop : ∀ w' : Worker, w'.pc.alive = false → Taken s.log done w' := by
    intro w' hw' halive
    rw [hw'] at halive
    cases halive
  cases ha with
  | signal => exact ⟨_, Function.update_self .., Or.inl fun halive => h halive⟩
  | @fetch i p hpc hp =>
    refine ⟨_, Function.update_self .., Or.inl fun _ id kind => ?_⟩
    have hcount := h (by rw [hpc]; rfl) id kind
    simp only [hpc, Pc.uncounted, Log.tally_append] at hcount ⊢
    omega
  | idle => exact ⟨_, Function.update_self .., Or.inl h⟩
  | poll hpc =>
    refine ⟨_, Function.update_self .., Or.inl (h.keep rfl rfl fun _ => ?_)⟩
    rw [hpc]
    refine ⟨rfl, fun id kind => ?_⟩
    -- The loop sorts the batch into raw records and events.
    rw [uncounted_poisons]
    exact Log.tally_perm (s.log.rawRefs_append_eventRefs w.batch) id kind
  | shutdown => exact ⟨_, Function.update_self .., Or.inl (hstop _ rfl)⟩
  | @countPoison i todo id₀ hpc hid =>
    refine ⟨_, Function.update_self .., Or.inl fun _ id kind => ?_⟩
    have hcount := h (by rw [hpc]; rfl) id kind
    rw [hpc] at hdone hcount
    have hkind := Log.kindAt_of_raw (hdone i List.mem_cons_self)
    simp only [Pc.uncounted, List.cons_append, Log.tally_cons, hid, hkind, Option.some.injEq]
      at hcount ⊢
    rw [Service.count_increment]
    have hiff : (id, kind) = (id₀, Kind.dead) ↔ id₀ = id ∧ Kind.dead = kind := by
      rw [Prod.mk.injEq, eq_comm, @eq_comm _ kind]
    simp only [hiff]
    omega
  | @skipPoison i todo hpc hid =>
    refine ⟨_, Function.update_self .., Or.inl (h.keep rfl rfl fun _ => ?_)⟩
    rw [hpc]
    refine ⟨rfl, fun id kind => ?_⟩
    simp only [Pc.uncounted, List.cons_append, Log.tally_cons_of_none hid]
  | @republish i todo r hpc =>
    refine ⟨_, Function.update_self .., Or.inl ?_⟩
    cases r.isOk with
    | false => exact hstop _ rfl
    | true =>
      refine hgo _ rfl rfl ?_ (by rw [hpc]; rfl)
      rw [if_pos rfl, uncounted_poisons, hpc, Pc.uncounted]
  | @deadLetter i todo r hpc =>
    refine ⟨_, Function.update_self .., Or.inl ?_⟩
    cases r.isOk with
    | false => exact hstop _ rfl
    | true =>
      refine hgo _ rfl rfl ?_ (by rw [hpc]; rfl)
      rw [if_pos rfl, uncounted_deadLetters, hpc, Pc.uncounted]
  | write hpc =>
    refine ⟨_, Function.update_self .., Or.inl (hgo _ rfl rfl ?_ (by rw [hpc]; rfl))⟩
    rw [hpc, Pc.uncounted, Pc.uncounted]
  | writeFail hpc hpc' =>
    refine ⟨_, Function.update_self .., Or.inl ?_⟩
    rcases hpc' with rfl | rfl
    · refine hgo _ rfl rfl ?_ (by rw [hpc]; rfl)
      rw [hpc, Pc.uncounted, Pc.uncounted]
    · exact hstop _ rfl
  | count hpc =>
    refine ⟨_, Function.update_self .., Or.inl fun _ id kind => ?_⟩
    have hcount := h (by rw [hpc]; rfl) id kind
    rw [hpc] at hcount
    simp only [Pc.uncounted] at hcount ⊢
    rw [count_countBatch s.log k, countOf_countsOf, ← hcount]
    simp [Log.tally]
  | tick => exact ⟨_, Function.update_self .., Or.inl fun halive => h halive⟩
  | @flush f o _ hpc hf =>
    refine ⟨_, Function.update_self .., Or.inl fun halive id kind => ?_⟩
    have hcount := h (by rw [hpc]; rfl) id kind
    have hnil : (Pc.afterFlush o.next).uncounted s.log w.batch = [] := by
      cases hnext : o.next with
      | running f' => rfl
      | returned ok => cases ok <;> rfl
    rw [hpc] at hcount
    show o.service.count id kind + s.log.tally
        ((Pc.afterFlush o.next).uncounted s.log w.batch) id kind = _
    rw [hnil, hf.count]
    exact hcount
  | @drain f o _ hpc hf =>
    refine ⟨_, Function.update_self .., Or.inl (hstop _ ?_)⟩
    show (Pc.afterDrain o.next).alive = false
    cases o.next <;> rfl
  | @tickerFlush f o _ ht hf =>
    refine ⟨_, Function.update_self .., Or.inl fun halive id kind => ?_⟩
    have hcount := h halive id kind
    rw [← hf.count] at hcount
    exact hcount
  | commit hpc hpc' =>
    exact ⟨_, Function.update_self .., Or.inr ⟨rfl, h.commit hpc rfl rfl hpc'⟩⟩
  | commitFail => exact ⟨_, Function.update_self .., Or.inl (hstop _ rfl)⟩

end

/-! ### What a worker has committed since it started -/

variable {d : Dialect} {maxPoll : ℕ}

/-- A group, and what each of its workers has committed since it started. -/
structure Audit where
  state : State
  history : GoString → List ℕ

def Audit.initial : Audit := ⟨Catalog.initial, fun _ => []⟩

/-- The records that the worker holds. -/
def State.batchOf (s : State) (k : GoString) : List ℕ := ((s.workers k).map Worker.batch).getD []

/-- What the workers have committed after one more step. -/
def Audit.record (x : Audit) : Label → GoString → List ℕ
  | .start k => Function.update x.history k []
  | .worker k a =>
    if a.settles then Function.update x.history k (x.history k ++ x.state.batchOf k) else x.history
  | _ => x.history

def Audit.step (d : Dialect) (maxPoll : ℕ) (x : Audit) (a : Label) : Option Audit :=
  (Catalog.step d maxPoll x.state a).map fun s => ⟨s, x.record a⟩

section
variable {x y : Audit} {a : Label} {k : GoString}

theorem Audit.step_eq (h : Audit.step d maxPoll x a = some y) :
    Catalog.step d maxPoll x.state a = some y.state ∧ y.history = x.record a := by
  obtain ⟨s, hs, rfl⟩ := Option.map_eq_some_iff.mp h
  exact ⟨hs, rfl⟩

/-- What a worker has committed is left alone by all steps but its start and its own. -/
theorem Audit.record_of_ne (hstart : a ≠ .start k) (hact : ∀ b, a ≠ .worker k b) :
    x.record a k = x.history k := by
  cases a with
  | start k' =>
    have hk : k ≠ k' := fun heq => hstart (by rw [heq])
    exact Function.update_of_ne hk ..
  | worker k' b =>
    have hk : k ≠ k' := fun heq => hact b (by rw [heq])
    simp only [Audit.record]
    split
    · exact Function.update_of_ne hk ..
    · rfl
  | _ => rfl

theorem Audit.record_worker (b : Action) {w : Worker} (hw : x.state.workers k = some w) :
    x.record (.worker k b) k = x.history k ++ if b.settles then w.batch else [] := by
  simp only [Audit.record, State.batchOf, hw]
  split
  · exact Function.update_self ..
  · exact (List.append_nil _).symm

/-- What is recorded was so before, or has just been committed. -/
theorem Audit.mem_record {i : ℕ} (h : i ∈ x.record a k) :
    i ∈ x.history k ∨ ∃ b w, a = .worker k b ∧ b.settles = true ∧ x.state.workers k = some w ∧
      i ∈ w.batch := by
  by_cases hstart : a = .start k
  · subst hstart
    simp only [Audit.record, Function.update_self] at h
    cases h
  by_cases hact : ∃ b, a = .worker k b
  · obtain ⟨b, rfl⟩ := hact
    cases hw : x.state.workers k with
    | none =>
      left
      simp only [Audit.record, State.batchOf, hw] at h
      split at h
      · simpa using h
      · exact h
    | some w =>
      rw [Audit.record_worker b hw] at h
      rcases List.mem_append.mp h with h | h
      · exact Or.inl h
      · split at h
        · next hb => exact Or.inr ⟨b, w, rfl, hb, rfl, h⟩
        · cases h
  · rw [Audit.record_of_ne hstart fun b hb => hact ⟨b, hb⟩] at h
    exact Or.inl h

/-- The totals of a worker are left alone while the log grows. -/
theorem Taken.grow {s s' : State} {w : Worker} {done : List ℕ} (h : Taken s.log done w)
    (hst : Stage s k w) (hdone : ∀ i ∈ done, i < s.log.length)
    (hlog : s'.log = s.log ∨ ∃ r, s'.log = s.log ++ [r]) : Taken s'.log done w := by
  rcases hlog with hlog | ⟨r, hlog⟩
  · rwa [hlog]
  · intro halive id kind
    have hall : ∀ i ∈ done ++ w.batch, i < s.log.length := by
      intro i hi
      exact (List.mem_append.mp hi).elim (hdone i) (hst.bound i)
    have huncounted : ∀ i ∈ w.pc.uncounted s.log w.batch, i < s.log.length :=
      fun i hi => hst.bound i (hst.todo i hi)
    rw [hlog, uncounted_snoc hst.bound, Log.tally_snoc huncounted, Log.tally_snoc hall]
    exact h halive id kind

/-- What holds of a group and of what its workers have committed. -/
structure Audited (x : Audit) : Prop where
  staged : Staged x.state
  adjudicated : Adjudicated x.state
  materialized : Materialized x.state
  reporting : Reporting x.state
  displays : ∀ k w, x.state.workers k = some w → Displays x.state.progress k w
  resolved : ∀ k, ∀ i ∈ x.history k, i < x.state.log.length ∧ Resolved x.state i
  taken : ∀ k w, x.state.workers k = some w → Taken x.state.log (x.history k) w

theorem audited_initial : Audited .initial where
  staged _ _ hw := nomatch hw
  adjudicated := adjudicated_initial
  materialized _ hi := nomatch hi
  reporting _ _ hw := nomatch hw
  displays _ _ hw := nomatch hw
  resolved _ _ hi := nomatch hi
  taken _ _ hw := nomatch hw

theorem taken_step (hI : Audited x) (h : Audit.step d maxPoll x a = some y) :
    ∀ k w, y.state.workers k = some w → Taken y.state.log (y.history k) w := by
  obtain ⟨hs, hhistory⟩ := Audit.step_eq h
  have hlog : y.state.log = x.state.log ∨ ∃ r, y.state.log = x.state.log ++ [r] :=
    (log_step hs).imp_right fun ⟨r, _, hr⟩ => ⟨r, hr⟩
  intro k w' hw'
  rw [hhistory]
  rcases worker_step hs hw' with ⟨rfl, rfl⟩ | ⟨p, w, rfl, hw, rfl⟩ | ⟨b, w, rfl, hw, ha⟩ |
    ⟨hw, -, -, hact⟩
  · -- A worker starts with no totals and nothing committed.
    intro _ id kind
    rw [show x.record (.start k) k = [] from Function.update_self ..]
    cases kind <;> rfl
  · rw [Audit.record_of_ne (by simp) (by simp)]
    have htaken : Taken x.state.log (x.history k)
        { w with position := Function.update w.position p (x.state.committed p) } := hI.taken k w hw
    have hst := hI.staged k w hw
    refine htaken.grow (k := k) ⟨hst.bound, hst.todo, hst.all⟩ ?_ hlog
    exact fun i hi => (hI.resolved k i hi).1
  · rw [Audit.record_worker b hw, ha.frame.1]
    by_cases hsettles : b.settles = true
    · rw [if_pos hsettles]
      obtain ⟨w₁, hw₁, hpc, hservice, hbatch, hpc'⟩ := ha.settled hsettles
      obtain rfl : w₁ = w' := Option.some.inj (hw₁.symm.trans hw')
      exact (hI.taken k w hw).commit hpc hservice hbatch hpc'
    · rw [if_neg hsettles, List.append_nil]
      obtain ⟨w₁, hw₁, htaken⟩ := ha.taken (hI.adjudicated.done k w hw) (hI.taken k w hw)
      obtain rfl : w₁ = w' := Option.some.inj (hw₁.symm.trans hw')
      rcases htaken with htaken | ⟨hnil, htaken⟩
      · exact htaken
      · -- Nothing was committed, so there was nothing to commit.
        have hbatch : w.batch = [] := by
          rcases ha.batch hw' with heq | ⟨i, heq, -⟩ | ⟨hsettles', -⟩
          · rw [← heq, hnil]
          · rw [hnil] at heq
            cases List.append_ne_nil_of_right_ne_nil _ (List.cons_ne_nil i []) heq.symm
          · exact absurd hsettles' hsettles
        rwa [hbatch, List.append_nil] at htaken
  · have hstart : a ≠ .start k := by
      rintro rfl
      obtain ⟨hnone, -⟩ := step_start hs
      rw [hnone] at hw
      cases hw
    rw [Audit.record_of_ne hstart hact]
    exact (hI.taken k w' hw).grow (hI.staged k w' hw) (fun i hi => (hI.resolved k i hi).1) hlog

/-- What is committed was resolved, and stays so. -/
theorem resolved_step (hI : Audited x) (h : Audit.step d maxPoll x a = some y) :
    ∀ k, ∀ i ∈ y.history k, i < y.state.log.length ∧ Resolved y.state i := by
  obtain ⟨hs, hhistory⟩ := Audit.step_eq h
  have hkept := kept_step hs
  have hlength : x.state.log.length ≤ y.state.log.length := by
    rcases log_step hs with hlog | ⟨r, -, hlog⟩ <;> rw [hlog]
    rw [List.length_append]
    omega
  have hkeep : ∀ i, i < x.state.log.length ∧ Resolved x.state i →
      i < y.state.log.length ∧ Resolved y.state i := by
    rintro i ⟨hi, hres⟩
    exact ⟨by omega, hres.imp (hkept.written i) (hkept.dead i)⟩
  intro k i hi
  rw [hhistory] at hi
  rcases Audit.mem_record hi with hi | ⟨b, w, rfl, hb, hw, hi⟩
  · exact hkeep i (hI.resolved k i hi)
  · obtain ⟨w₀, hw₀, ha⟩ := step_worker hs
    obtain rfl : w = w₀ := Option.some.inj (hw.symm.trans hw₀)
    obtain ⟨-, -, hpc, -⟩ := ha.settled hb
    exact hkeep i ⟨(hI.staged k w hw).bound i hi, hI.adjudicated.resolved hw hpc hi⟩

theorem audited_step (hI : Audited x) (h : Audit.step d maxPoll x a = some y) : Audited y := by
  obtain ⟨hs, -⟩ := Audit.step_eq h
  exact {
    staged := staged_step hI.staged hs
    adjudicated := adjudicated_step hI.adjudicated hI.staged hs
    materialized := materialized_step hI.materialized hs
    reporting := reports_step hI.reporting hs
    displays := shown_step hI.displays hI.reporting hs
    resolved := resolved_step hI h
    taken := taken_step hI h }

/-- Everything that the worker has committed since it started is in the catalog or
dead-lettered, and for every job of these records one snapshot on the progress topic counts
all of them. -/
structure Discharged (s : State) (k : GoString) (refs : List ℕ) : Prop where
  records : ∀ i ∈ refs, (i ∈ s.written ∧ InTable s i) ∨ i ∈ s.dead
  snapshots : ∀ id, (∃ i ∈ refs, s.log.jobAt i = some id) →
    ∃ p ∈ s.progress, p.workerID = k ∧ p.jobID = id ∧
      s.log.tally refs id .applied ≤ p.processedRows ∧ s.log.tally refs id .dead ≤ p.deadRows

/-- **The worker never commits past unfinished work**: at every successful commit, in every
run of the group, what the worker has committed since it started, this poll included, is
settled already. -/
theorem commit_settled {as : List Label}
    (h : exec (Audit.step d maxPoll) .initial as = some x)
    (hc : Audit.step d maxPoll x (.worker k (.commit true true)) = some y) :
    Discharged x.state k (y.history k) := by
  have hI : Audited x := exec_invariant (fun _ _ _ hI hs => audited_step hI hs) audited_initial h
  obtain ⟨hs, hhistory⟩ := Audit.step_eq hc
  obtain ⟨w, hw, ha⟩ := step_worker hs
  obtain ⟨-, -, hpc, -⟩ := ha.settled rfl
  have hrecord : y.history k = x.history k ++ w.batch := by
    rw [hhistory, Audit.record_worker _ hw]
    rfl
  rw [hrecord]
  constructor
  · intro i hi
    have hres : Resolved x.state i := by
      rcases List.mem_append.mp hi with hi | hi
      · exact (hI.resolved k i hi).2
      · exact hI.adjudicated.resolved hw hpc hi
    exact hres.imp_left fun hw => ⟨hw, hI.materialized i hw⟩
  · rintro id ⟨i, hi, hjob⟩
    -- At the commit nothing of the batch is left to count.
    have htally : ∀ kind, w.service.count id kind =
        x.state.log.tally (x.history k ++ w.batch) id kind := by
      intro kind
      have hcount := hI.taken k w hw (by rw [hpc]; rfl) id kind
      rw [hpc] at hcount
      exact hcount
    have hpos : 0 < w.service.count id (x.state.log.kindAt i) := by
      rw [htally]
      exact List.countP_pos_iff.mpr ⟨i, hi, by simp [hjob]⟩
    obtain ⟨e, he, hentry⟩ := Service.exists_of_count_pos hpos
    have hshown := (hI.displays k w hw).shown
    rw [hpc] at hshown
    refine ⟨_, hshown id e he, rfl, rfl, ?_, ?_⟩
    · rw [← htally, hentry]
      exact Nat.le_refl _
    · rw [← htally, hentry]
      exact Nat.le_refl _

end

/-- The job of the three records. -/
def auditedJob : GoString := lit "11111111-2222-4333-8444-555555555555"

/-- An event that is written. -/
def soundEvent : ProductImported where
  jobID := auditedJob
  rowNum := 2
  producedAt := 0
  product := {
    merchantID := lit "m", productID := lit "p", name := lit "n", priceCents := 1
    currency := lit "USD", expirationDate := [] }

/-- An event that fails validation. -/
def namelessEvent : ProductImported :=
  { soundEvent with product := { soundEvent.product with name := [] } }

/-- A value that does not decode, but names the job. -/
def brokenValue : GoString := lit "\"job_id\" : \"" ++ auditedJob ++ lit "\","

/-- A worker polls the three records; its ticker reads before the batch is counted and marks
after the loop has published. -/
def mixedBatch : List Label :=
  [.append ⟨0, .raw brokenValue⟩, .append ⟨0, .event namelessEvent⟩, .append ⟨0, .event soundEvent⟩,
    .start (lit "a"), .assign 0 (lit "a")] ++
  [.fetch 0, .fetch 1, .fetch 2, .poll, .countPoison, .tick,
    .tickerFlush (.read [⟨auditedJob, 0, 0, 1⟩]), .republish .ok, .tickerFlush (.report .ok),
    .republish .ok, .write none false, .tickerFlush (.confirm true), .count,
    .flush (.read [⟨auditedJob, 1, 0, 2⟩]), .flush (.report .ok), .flush (.confirm true),
    .flush .mark, .tickerFlush .mark].map (.worker (lit "a"))

theorem commit_settled_mixed_batch :
    ∃ x y, exec (Audit.step canonicalDialect 10) .initial mixedBatch = some x ∧
      Audit.step canonicalDialect 10 x (.worker (lit "a") (.commit true true)) = some y ∧
      y.history (lit "a") = [0, 1, 2] ∧ Discharged x.state (lit "a") (y.history (lit "a")) := by
  have hrun : ∃ x y, exec (Audit.step canonicalDialect 10) .initial mixedBatch = some x ∧
      Audit.step canonicalDialect 10 x (.worker (lit "a") (.commit true true)) = some y ∧
      y.history (lit "a") = [0, 1, 2] := ⟨_, _, rfl, rfl, rfl⟩
  obtain ⟨x, y, hx, hy, hhistory⟩ := hrun
  exact ⟨x, y, hx, hy, hhistory, commit_settled hx hy⟩

end CsvProductUploader.Catalog

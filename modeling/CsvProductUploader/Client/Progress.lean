import CsvProductUploader.Client.Products

/-!
# The import that the client follows

`useImportProgress` follows an import over an event stream, and polls when the stream is lost.
The stream is closed and the interval cleared when the import changes, but a render comes before
its effects, and a poll that is under way is not called back.

## Main definitions

* `ImportProgress`, `progressStep` — the hook, and what the server sends it.
* `ImportProgress.Followed` — the job that is held is the current import, which is terminal if it
  is shown as complete.
* `OfCurrent` — no step that brings in another import.

## Main results

* `meets_iff_followed` — the import is followed in every state of a run exactly if every step
  is of the current import.
* `latestShown` — the three hooks together; `latestShown_retry` — runs that meet the conditions.
* `not_latestShown` — two pages whose answers arrive the other way round.
-/

namespace CsvProductUploader.Client

open NodePipeline (JsString js)
open Runs

inductive JobStatus
  | pending
  | processing
  | completed
  | failed
  deriving DecidableEq, Repr

def JobStatus.terminal : JobStatus → Bool
  | .completed | .failed => true
  | _ => false

/-- An import as the server sends it, less its counters, which the hook passes on. -/
structure ImportView where
  id : JsString
  status : JobStatus
  deriving DecidableEq

/-- The state of `useImportProgress`, and what it has set going. -/
structure ImportProgress where
  /-- The argument of the last render, and that with which the first effect last ran. -/
  jobId : Option JsString
  ran : Option (Option JsString)
  job : Option ImportView
  isComplete : Bool
  usingPolling : Bool
  /-- The import whose event stream is open. -/
  es : Option JsString
  /-- The import that the interval polls. -/
  interval : Option JsString
  /-- The polls under way. -/
  polls : List JsString
  /-- The imports that are terminal on the server. -/
  finished : JsString → Bool

inductive ProgressLabel
  /-- An import becomes terminal on the server. -/
  | finish (id : JsString)
  | render (jobId : Option JsString)
  | effects
  /-- A `progress` or, if `done`, a `done` event of the open stream. -/
  | message (job : ImportView) (done : Bool)
  | streamError
  | tick
  /-- A poll is answered; `none` is an error. -/
  | pollAnswer (i : ℕ) (res : Option ImportView)

/-- The import to follow: neither `null` nor the empty text. -/
def ImportProgress.current (s : ImportProgress) : Option JsString := s.jobId.filter (· ≠ [])

/-- The effects run, both with the state of the render before them.  The first starts over when
the argument has changed; the second sets the interval while the hook is polling. -/
def runProgressEffects (s : ImportProgress) : ImportProgress :=
  let interval := if s.usingPolling ∧ ¬s.isComplete then s.current else none
  if s.ran = some s.jobId then { s with interval }
  else
    { s with
      ran := some s.jobId
      job := none
      isComplete := false
      usingPolling := false
      es := s.current
      interval }

/-- What the server says of an import is so: a status or a `done` event that is terminal comes
only once the import is. -/
def Truthful (s : ImportProgress) (job : ImportView) (done : Bool) : Prop :=
  job.status.terminal = true ∨ done = true → s.finished job.id = true

instance (s : ImportProgress) (job : ImportView) (done : Bool) : Decidable (Truthful s job done) :=
  inferInstanceAs (Decidable (_ → _))

def progressStep (s : ImportProgress) : ProgressLabel → Option ImportProgress
  | .finish id => some { s with finished := Function.update s.finished id true }
  | .render jobId => some { s with jobId }
  | .effects => some (runProgressEffects s)
  | .message job done =>
    if s.es = some job.id ∧ Truthful s job done then
      if done = true ∨ job.status.terminal = true then
        some { s with job := some job, isComplete := true, es := none }
      else some { s with job := some job }
    else none
  | .streamError =>
    if s.es = none then none else some { s with es := none, usingPolling := true }
  | .tick => s.interval.map fun id => { s with polls := s.polls ++ [id] }
  | .pollAnswer i res =>
    match s.polls[i]?, res with
    | none, _ => none
    | some _, none => some { s with polls := s.polls.eraseIdx i }
    | some id, some job =>
      if job.id = id ∧ Truthful s job false then
        some { s with
          polls := s.polls.eraseIdx i
          job := some job
          isComplete := s.isComplete || job.status.terminal }
      else none

/-- The first render. -/
def mountProgress (jobId : Option JsString) : ImportProgress where
  jobId := jobId
  ran := none
  job := none
  isComplete := false
  usingPolling := false
  es := none
  interval := none
  polls := []
  finished _ := false

/-- **The job that is held has the current id, and the hook says that it is complete only if the
current import is terminal.** -/
structure ImportProgress.Followed (s : ImportProgress) : Prop where
  job : ∀ job ∈ s.job, s.jobId = some job.id
  complete : s.isComplete = true → ∃ id, s.jobId = some id ∧ s.finished id = true

/-- The argument changes only while no job is held, and no event or answer of another import
arrives. -/
def OfCurrent (s : ImportProgress) : ProgressLabel → Prop
  | .render jobId => s.job = none ∨ jobId = s.jobId
  | .message job _ => s.jobId = some job.id
  | .pollAnswer _ (some job) => s.jobId = some job.id
  | _ => True

instance (s : ImportProgress) (a : ProgressLabel) : Decidable (OfCurrent s a) := by
  unfold OfCurrent
  split <;> infer_instance

/-- Only what is held can be complete. -/
def Held (s : ImportProgress) : Prop := s.isComplete = true → s.job ≠ none

section
variable {s s' : ImportProgress} {a : ProgressLabel}

theorem pollAnswer_eq_some {i : ℕ} {res : Option ImportView}
    (h : progressStep s (.pollAnswer i res) = some s') :
    (res = none ∧ s' = { s with polls := s.polls.eraseIdx i }) ∨
      ∃ job, res = some job ∧ Truthful s job false ∧
        s' = { s with
          polls := s.polls.eraseIdx i
          job := some job
          isComplete := s.isComplete || job.status.terminal } := by
  simp only [progressStep] at h
  split at h
  · cases h
  · exact .inl ⟨rfl, (Option.some.inj h).symm⟩
  · next id job _ =>
    split at h
    · next hsent => exact .inr ⟨job, rfl, hsent.2, (Option.some.inj h).symm⟩
    · cases h

theorem message_eq_some {job : ImportView} {done : Bool}
    (h : progressStep s (.message job done) = some s') :
    Truthful s job done ∧
      ((done = true ∨ job.status.terminal = true) ∧
          s' = { s with job := some job, isComplete := true, es := none } ∨
        s' = { s with job := some job }) := by
  simp only [progressStep] at h
  split at h
  · next hsent =>
    refine ⟨hsent.2, ?_⟩
    split at h
    · next hdone => exact .inl ⟨hdone, (Option.some.inj h).symm⟩
    · exact .inr (Option.some.inj h).symm
  · cases h

theorem held_step (hI : Held s) (h : progressStep s a = some s') : Held s' := by
  cases a with
  | finish id =>
    obtain rfl := Option.some.inj h
    exact hI
  | render jobId =>
    obtain rfl := Option.some.inj h
    exact hI
  | effects =>
    obtain rfl := Option.some.inj h
    unfold runProgressEffects
    dsimp only
    split
    · exact hI
    · -- A new job starts from nothing.
      exact fun hcomplete => by cases hcomplete
  | message job done =>
    obtain ⟨-, ⟨-, rfl⟩ | rfl⟩ := message_eq_some h
    · exact fun _ => Option.some_ne_none job
    · exact fun _ => Option.some_ne_none job
  | streamError =>
    simp only [progressStep] at h
    split at h
    · cases h
    · obtain rfl := Option.some.inj h
      exact hI
  | tick =>
    obtain ⟨id, -, rfl⟩ := Option.map_eq_some_iff.mp h
    exact hI
  | pollAnswer i res =>
    rcases pollAnswer_eq_some h with ⟨-, rfl⟩ | ⟨job, -, -, rfl⟩
    · exact hI
    · exact fun _ => Option.some_ne_none job

/-- A job of the current import is taken over; it is terminal there if it says so. -/
theorem followed_of_job {job : ImportView} (hid : s.jobId = some job.id) (hI : s.Followed)
    (hjob : s'.job = some job) (hjobId : s'.jobId = s.jobId) (hfinished : s'.finished = s.finished)
    (hcomplete : s'.isComplete = true → s.isComplete = true ∨ s.finished job.id = true) :
    s'.Followed := by
  refine ⟨fun job' hjob' => ?_, fun hdone => ?_⟩
  · obtain rfl := Option.some.inj (hjob.symm.trans hjob')
    exact hjobId.trans hid
  · rw [hjobId, hfinished]
    rcases hcomplete hdone with hold | hnew
    · exact hI.complete hold
    · exact ⟨job.id, hid, hnew⟩

theorem followed_step (hH : Held s) (hI : s.Followed) (hC : OfCurrent s a)
    (h : progressStep s a = some s') : s'.Followed := by
  cases a with
  | finish id =>
    obtain rfl := Option.some.inj h
    refine ⟨hI.job, fun hcomplete => ?_⟩
    obtain ⟨id', hid', hfinished⟩ := hI.complete hcomplete
    refine ⟨id', hid', ?_⟩
    show Function.update s.finished id true id' = true
    rw [Function.update_apply]
    split
    · rfl
    · exact hfinished
  | render jobId =>
    obtain rfl := Option.some.inj h
    rcases hC with hnone | rfl
    · refine ⟨fun job hjob => ?_, fun hcomplete => absurd hnone (hH hcomplete)⟩
      rw [hnone] at hjob
      cases hjob
    · exact hI
  | effects =>
    obtain rfl := Option.some.inj h
    unfold runProgressEffects
    dsimp only
    split
    · exact ⟨hI.job, hI.complete⟩
    · exact ⟨fun job hjob => (by cases hjob), fun hcomplete => (by cases hcomplete)⟩
  | message job done =>
    obtain ⟨htrue, ⟨hdone, rfl⟩ | rfl⟩ := message_eq_some h
    · exact followed_of_job hC hI rfl rfl rfl fun _ => .inr (htrue hdone.symm)
    · exact followed_of_job hC hI rfl rfl rfl .inl
  | streamError =>
    simp only [progressStep] at h
    split at h
    · cases h
    · obtain rfl := Option.some.inj h
      exact ⟨hI.job, hI.complete⟩
  | tick =>
    obtain ⟨id, -, rfl⟩ := Option.map_eq_some_iff.mp h
    exact ⟨hI.job, hI.complete⟩
  | pollAnswer i res =>
    rcases pollAnswer_eq_some h with ⟨-, rfl⟩ | ⟨job, rfl, htrue, rfl⟩
    · exact ⟨hI.job, hI.complete⟩
    · refine followed_of_job hC hI rfl rfl rfl fun hcomplete => ?_
      -- A poll never takes completion back: it is complete already, or the answer says so.
      rcases (Bool.or_eq_true _ _).mp hcomplete with hold | hterminal
      · exact .inl hold
      · exact .inr (htrue (.inl hterminal))

/-- A step that brings in another import leaves it in the state. -/
theorem ofCurrent_of_followed (hI : s.Followed) (h : progressStep s a = some s')
    (hI' : s'.Followed) : OfCurrent s a := by
  cases a with
  | render jobId =>
    obtain rfl := Option.some.inj h
    cases hjob : s.job with
    | none => exact .inl hjob
    | some job => exact .inr ((hI'.job job hjob).trans (hI.job job hjob).symm)
  | message job done =>
    obtain ⟨-, ⟨-, rfl⟩ | rfl⟩ := message_eq_some h
    · exact hI'.job job rfl
    · exact hI'.job job rfl
  | pollAnswer i res =>
    rcases pollAnswer_eq_some h with ⟨rfl, -⟩ | ⟨job, rfl, -, rfl⟩
    · trivial
    · exact hI'.job job rfl
  | _ => trivial

/-- **The import is followed in every state of a run exactly if every step is of the current
one.** -/
theorem meets_iff_followed {jobId : Option JsString} {as : List ProgressLabel} {s : ImportProgress}
    (h : exec progressStep (mountProgress jobId) as = some s) :
    Meets progressStep OfCurrent (mountProgress jobId) as ↔
      ∀ bs cs t, as = bs ++ cs → exec progressStep (mountProgress jobId) bs = some t →
        t.Followed := by
  have hmount : Held (mountProgress jobId) ∧ (mountProgress jobId).Followed :=
    ⟨fun hcomplete => (by cases hcomplete),
      ⟨fun job hjob => (by cases hjob), fun hcomplete => (by cases hcomplete)⟩⟩
  constructor
  · rintro hC bs cs t rfl ht
    have hI : Held t ∧ t.Followed :=
      exec_invariant_of_meets (I := fun s => Held s ∧ s.Followed)
        (fun _ _ _ hI hC hs => ⟨held_step hI.1 hs, followed_step hI.1 hI.2 hC hs⟩) hmount
        ((meets_append ht).mp hC).1 ht
    exact hI.2
  · intro hall
    by_contra hC
    obtain ⟨bs, a, cs, u, v, rfl, -, hu, hnot, hv, -⟩ := exists_of_not_meets h hC
    have hrun : exec progressStep (mountProgress jobId) (bs ++ [a]) = some v :=
      exec_append_eq_some.mpr ⟨u, hu, exec_cons_eq_some.mpr ⟨v, hv, rfl⟩⟩
    exact hnot (ofCurrent_of_followed (hall bs (a :: cs) u rfl hu) hv
      (hall (bs ++ [a]) cs v (by rw [List.append_assoc]; rfl) hrun))

end

/-! ### The three hooks -/

/-- **The clients show what was asked last, in time**: products are those of the most recent
request in every run in which no answer comes too late, and the import that is followed is the
current one exactly in the runs in which nothing of another import arrives. -/
theorem latestShown {P : Type} :
    (∀ (args : Args) (as : List (ProductsLabel P)) (s : ProductsData P),
      Meets productsStep ProductsInTime (mountProducts args) as →
        exec productsStep (mountProducts args) as = some s → s.Shown) ∧
    (∀ (batchId : Option JsString) (token : Bool) (as : List (NodeLabel P)) (s : NodeProducts P),
      Meets nodeStep NodeInTime (mountNode batchId token) as →
        exec nodeStep (mountNode batchId token) as = some s → s.Shown) ∧
    ∀ (jobId : Option JsString) (as : List ProgressLabel) (s : ImportProgress),
      exec progressStep (mountProgress jobId) as = some s →
        (Meets progressStep OfCurrent (mountProgress jobId) as ↔
          ∀ bs cs t, as = bs ++ cs → exec progressStep (mountProgress jobId) bs = some t →
            t.Followed) :=
  ⟨fun _ _ _ => shown_of_inTime, fun _ _ _ _ => nodeShown_of_inTime,
    fun _ _ _ => meets_iff_followed⟩

/-- The arguments for a page of an import. -/
def pageOf (page : ℕ) : Args := ⟨some (js "a"), ⟨none, .name, .asc, 20⟩, page⟩

/-- The answer with one product. -/
def onePage (product : ℕ) : Page ℕ := ⟨[product], ⟨1, 20, 2, 2⟩⟩

/-- One page is asked for and then the other. -/
def turnPage : List (ProductsLabel ℕ) := [.effects, .render (pageOf 2), .effects]

/-- They are answered in turn, the second with an error. -/
def answered : List (ProductsLabel ℕ) :=
  turnPage ++ [.answer 0 (some (onePage 1)), .answer 1 none]

/-- A request fails after it has been made again. -/
def retry : List (NodeLabel ℕ) :=
  [.effects, .refresh, .answer 0 (.error (js "timeout")), .answer 1 (.ok (onePage 1))]

/-- An import is followed to its end, by polls after its stream is lost. -/
def follow : List ProgressLabel :=
  [.effects, .message ⟨js "a", .processing⟩ false, .streamError, .effects, .tick,
    .finish (js "a"), .pollAnswer 0 (some ⟨js "a", .completed⟩)]

theorem latestShown_retry :
    (∃ s, exec productsStep (mountProducts (pageOf 1)) answered = some s ∧ s.Shown) ∧
    (∃ s, exec nodeStep (mountNode (some (js "b")) true) retry = some s ∧ s.Shown) ∧
    ∃ s, exec progressStep (mountProgress (some (js "a"))) follow = some s ∧ s.Followed := by
  obtain ⟨s, hs⟩ : ∃ s, exec productsStep (mountProducts (pageOf 1)) answered = some s := ⟨_, rfl⟩
  obtain ⟨t, ht⟩ : ∃ t, exec nodeStep (mountNode (some (js "b")) true) retry = some t := ⟨_, rfl⟩
  obtain ⟨u, hu⟩ : ∃ u, exec progressStep (mountProgress (some (js "a"))) follow = some u :=
    ⟨_, rfl⟩
  exact ⟨⟨s, hs, latestShown.1 _ answered s (by decide) hs⟩,
    ⟨t, ht, latestShown.2.1 _ _ retry t (by decide) ht⟩,
    ⟨u, hu, ((latestShown (P := ℕ)).2.2 _ _ u hu).mp (by decide) follow [] u
      (List.append_nil _).symm hu⟩⟩

/-- **The first page is shown when the second was asked for last.** -/
theorem not_latestShown :
    ¬((∀ (args : Args) (as : List (ProductsLabel ℕ)) (s : ProductsData ℕ),
        exec productsStep (mountProducts args) as = some s → s.Shown) ∧
      (∀ (batchId : Option JsString) (token : Bool) (as : List (NodeLabel ℕ))
        (s : NodeProducts ℕ),
        exec nodeStep (mountNode batchId token) as = some s → s.Shown) ∧
      ∀ (jobId : Option JsString) (as : List ProgressLabel) (s : ImportProgress),
        exec progressStep (mountProgress jobId) as = some s → s.Followed) := by
  rintro ⟨h, -, -⟩
  obtain ⟨res, hres, hshown⟩ := h (pageOf 1)
    (turnPage ++ [.answer 1 (some (onePage 2)), .answer 0 (some (onePage 1))]) _ rfl (by decide)
    (by decide)
  obtain rfl : some (onePage 2) = res := Option.some.inj hres
  have hpage : onePage 1 = onePage 2 := hshown
  exact absurd hpage (by decide)

end CsvProductUploader.Client

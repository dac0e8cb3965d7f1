import CsvProductUploader.Lib.Update
import CsvProductUploader.NodePipeline.Processor

/-!
# Progress streams of a batch

A client follows a batch over server-sent events.  `streamProgress` reads the batch once for
an initial status, and registers an emitter through which the processor's `emitProgress`
reaches it.  The registry holds one emitter for a batch: a new stream replaces that of an
older one, and a stream that ends takes out whichever is there.

The attempts of the job run as in `Processor`, but for the moment at which a call takes
effect: a status is in the database before the attempt goes on and emits it, and a read may
come between the two.

## Main definitions

* `ProgressData`, `Pc.emits` — the events, and where an attempt emits one.
* `Stream`, `Sse.State` — a stream, and the batch with its registry and streams.
* `emitProgress`, `streamProgress`, `completeStream` — `UploadService` and the controller.
* `Sse.step` — the processor, the database and the clients in any order.
* `Heard` — the streams of a finished batch have heard of its end.

## Main results

* `simulates` — the processor does here what it does in `Processor`.
-/

namespace CsvProductUploader.NodePipeline

open Runs Update

/-! ### Events -/

/-- `['completed', 'failed'].includes(status)`. -/
def BatchStatus.terminal : BatchStatus → Bool
  | .completed | .failed => true
  | .pending | .processing => false

/-- What a stream is sent, less the percentage, which follows from the counts, and the time. -/
structure ProgressData where
  status : BatchStatus
  totalRows : ℕ
  processedRows : ℕ
  errorMessage : Option JsString
  deriving DecidableEq

def UploadBatch.progress (b : UploadBatch) : ProgressData :=
  ⟨b.status, b.totalRows, b.processedRows, b.errorMessage⟩

/-- What an attempt emits once its call has returned. -/
def Pc.emits (job : Job) : Pc → Option ProgressData
  | .savingTotal => some ⟨.processing, job.validRows.length, 0, none⟩
  | .savingProcessed i => some ⟨.processing, job.validRows.length, job.processed i, none⟩
  | .completing => some ⟨.completed, job.validRows.length, job.validRows.length, none⟩
  | .failing error => some ⟨.failed, 0, 0, some error.message⟩
  | _ => none

/-! ### Streams -/

/-- The read of the batch for the initial status. -/
inductive Read
  /-- The query is under way. -/
  | issued
  /-- The database has answered; the stream has not seen the answer yet. -/
  | answered (batch : Option UploadBatch)
  | failed
  | done
  deriving DecidableEq

/-- How a stream has ended. -/
inductive Ending
  | completed
  /-- `observer.error`: the batch is not there or could not be read. -/
  | errored
  | disconnected
  deriving DecidableEq

structure Stream where
  read : Read := .issued
  isCompleted : Bool := false
  /-- None as long as the client is subscribed. -/
  ending : Option Ending := none
  sent : List ProgressData := []

/-- `sendProgress`; what is sent to an observer that has ended is dropped. -/
def Stream.sendProgress (st : Stream) (data : ProgressData) : Stream :=
  if st.isCompleted = false ∧ st.ending = none then { st with sent := st.sent ++ [data] } else st

/-- The stream once it has been told of a status, and has ended if that is terminal. -/
def Stream.told (st : Stream) (data : ProgressData) : Stream :=
  if data.status.terminal = true ∧ st.isCompleted = false then
    { st.sendProgress data with isCompleted := true, ending := st.ending <|> some .completed }
  else st.sendProgress data

@[simp] theorem Stream.read_sendProgress (st : Stream) (data : ProgressData) :
    (st.sendProgress data).read = st.read := by
  unfold Stream.sendProgress
  split <;> rfl

@[simp] theorem Stream.isCompleted_sendProgress (st : Stream) (data : ProgressData) :
    (st.sendProgress data).isCompleted = st.isCompleted := by
  unfold Stream.sendProgress
  split <;> rfl

@[simp] theorem Stream.ending_sendProgress (st : Stream) (data : ProgressData) :
    (st.sendProgress data).ending = st.ending := by
  unfold Stream.sendProgress
  split <;> rfl

/-- The connection of a stream is lost with the process. -/
def Stream.cut (st : Stream) : Stream :=
  { st with read := .done, ending := st.ending <|> some .disconnected }

namespace Sse

/-- A batch and the processor on its job, with the streams that were opened. -/
structure State where
  proc : NodePipeline.State
  /-- The call that the attempt waits for has taken effect. -/
  landed : Bool
  /-- The attempt has emitted a terminal status. -/
  announced : Bool
  /-- `progressEmitters.get(batchId)`, by the stream whose handler it has. -/
  emitter : Option ℕ
  streams : ℕ → Option Stream

/-- The job is added, and nobody follows it yet. -/
def start : State := ⟨NodePipeline.start, false, false, none, fun _ => none⟩

/-- The state with a stream in a new state. -/
def State.put (s : State) (i : ℕ) (st : Stream) : State :=
  { s with streams := Function.update s.streams i (some st) }

def State.registerProgressEmitter (s : State) (i : ℕ) : State := { s with emitter := some i }

def State.unregisterProgressEmitter (s : State) : State := { s with emitter := none }

/-- The stream `i` ends before it is done; the subscription is torn down. -/
def State.close (s : State) (i : ℕ) (st : Stream) (e : Ending) : State :=
  match st.ending with
  | none => (s.put i { st with ending := some e }).unregisterProgressEmitter
  | some _ => s.put i st

/-- `completeStream` -/
def State.completeStream (s : State) (i : ℕ) (st : Stream) : State :=
  if st.isCompleted then s.put i st
  else s.unregisterProgressEmitter.close i { st with isCompleted := true } .completed

/-- The stream `i` is told of a status, and ends if the status does not change any more:
the body of `handler`, and of the read of the initial status. -/
def State.tell (s : State) (i : ℕ) (st : Stream) (data : ProgressData) : State :=
  if data.status.terminal then s.completeStream i (st.sendProgress data)
  else s.put i (st.sendProgress data)

/-- `emitProgress`; a handler is off its emitter once its subscription is torn down. -/
def State.emitProgress (s : State) (data : ProgressData) : State :=
  match s.emitter with
  | none => s
  | some i =>
    match s.streams i with
    | none => s
    | some st => if st.ending = none then s.tell i st data else s

/-- `streamProgress`, up to the answer of the read that it begins. -/
def State.streamProgress (s : State) (i : ℕ) : State := (s.put i {}).registerProgressEmitter i

/-- `streamProgress`, from the answer of the read on. -/
def State.resume (s : State) (i : ℕ) (st : Stream) : Option State :=
  match st.read with
  | .answered (some batch) => some (s.tell i { st with read := .done } batch.progress)
  | .answered none | .failed => some (s.close i { st with read := .done } .errored)
  | .issued | .done => none

/-! ### Steps -/

inductive Label
  /-- The call that the attempt waits for takes effect. -/
  | land
  /-- It returns, or throws what it found. -/
  | reply
  /-- It throws for a failure from outside. -/
  | fault (error : Thrown)
  /-- The process dies, and its connections with it. -/
  | die
  /-- Bull begins the next attempt. -/
  | retry
  | subscribe (i : ℕ)
  | answer (i : ℕ)
  | readError (i : ℕ)
  | resume (i : ℕ)
  | disconnect (i : ℕ)
  deriving DecidableEq

/-- What the attempt emits as it goes on. -/
def State.emit (s : State) : Option ProgressData → State
  | none => s
  | some data => { s.emitProgress data with announced := s.announced || data.status.terminal }

/-- The call that the attempt waits for has returned. -/
def State.proceed (job : Job) (s : State) : State :=
  ({ s with proc := { s.proc with pc := s.proc.pc.next job }, landed := false } : State).emit
    (s.proc.pc.emits job)

/-- The process dies: its connections are lost, and its registry with it. -/
def State.cut (s : State) : State :=
  { s with landed := false, emitter := none, streams := fun i => (s.streams i).map Stream.cut }

/-- The call that the attempt waits for goes wrong. -/
def State.fail (s : State) (f : Fault) : State :=
  let s' := { s with proc := { s.proc with pc := s.proc.pc.fail f }, landed := false }
  match f with
  | .crash => s'.cut
  | .thrown _ => s'

def step (job : Job) (s : State) : Label → Option State
  | .land =>
    if s.landed then none
    else (s.proc.pc.call job).bind fun c =>
      match s.proc.world.run job s.proc.attempt c with
      | .ok w => some { s with proc := { s.proc with world := w }, landed := true }
      | .error _ => none
  | .reply => (s.proc.pc.call job).bind fun c =>
    if s.landed then some (s.proceed job)
    else
      match s.proc.world.run job s.proc.attempt c with
      | .ok _ => none
      | .error f => some (s.fail f)
  | .fault error => (s.proc.pc.call job).map fun _ => s.fail (s.proc.pc.fault error)
  | .die => some { s.cut with
      proc := if (s.proc.pc.call job).isSome then { s.proc with pc := .died } else s.proc }
  | .retry => (NodePipeline.step job s.proc .retry).map fun p =>
    { s with proc := p, announced := false }
  | .subscribe i => if s.streams i = none then some (s.streamProgress i) else none
  | .answer i => (s.streams i).bind fun st =>
    if st.read = .issued then some (s.put i { st with read := .answered (some s.proc.world.batch) })
    else none
  | .readError i => (s.streams i).bind fun st =>
    if st.read = .issued then some (s.put i { st with read := .failed }) else none
  | .resume i => (s.streams i).bind fun st => s.resume i st
  | .disconnect i => (s.streams i).bind fun st =>
    if st.ending = none then some (s.close i st .disconnected) else none

/-- The batch is finished: its status is stored, and the terminal event emitted. -/
def Finished (s : State) : Prop := s.proc.world.batch.status.terminal = true ∧ s.announced = true

/-- No read of a status is outstanding. -/
def Quiet (s : State) : Prop := ∀ i st, s.streams i = some st → st.read = .done

/-- Every stream that was not given up has received a terminal status, and is completed. -/
def Heard (s : State) : Prop :=
  ∀ i st, s.streams i = some st → st.ending ≠ some .disconnected → st.ending ≠ some .errored →
    st.ending = some .completed ∧ ∃ data ∈ st.sent, data.status.terminal = true

section
variable {job : Job} {s s' : State} {a : Label} {i : ℕ} {st : Stream} {data : ProgressData}

/-! ### What becomes of a stream -/

/-- Whichever stream ends, the registry is cleared. -/
theorem close_eq (s : State) (i : ℕ) (st : Stream) (e : Ending) :
    s.close i st e = { s.put i { st with ending := st.ending <|> some e } with
      emitter := if st.ending = none then none else s.emitter } := by
  unfold State.close
  split
  · next hend => simp [hend, State.unregisterProgressEmitter]
  · next e' hend =>
    have hsame : st = { st with ending := some e' <|> some e } := by
      rw [← hend]
      cases st
      simp_all
    rw [if_neg (by simp [hend]), hend, ← hsame]
    rfl

theorem tell_eq (s : State) (i : ℕ) (st : Stream) (data : ProgressData) :
    s.tell i st data = { s.put i (st.told data) with
      emitter := if data.status.terminal = true ∧ st.isCompleted = false then none
        else s.emitter } := by
  unfold State.tell State.completeStream Stream.told
  cases hterm : data.status.terminal with
  | false => rfl
  | true =>
    cases hdone : st.isCompleted with
    | true => simp [hdone, State.put]
    | false => simp [hdone, close_eq, State.put, State.unregisterProgressEmitter]

/-- Nothing but the streams and the registry has changed. -/
structure Unmoved (s s' : State) : Prop where
  proc : s'.proc = s.proc
  landed : s'.landed = s.landed
  announced : s'.announced = s.announced

theorem unmoved_close (s : State) (i : ℕ) (st : Stream) (e : Ending) :
    Unmoved s (s.close i st e) := by
  rw [close_eq]
  exact ⟨rfl, rfl, rfl⟩

theorem unmoved_tell (s : State) (i : ℕ) (st : Stream) (data : ProgressData) :
    Unmoved s (s.tell i st data) := by
  rw [tell_eq]
  exact ⟨rfl, rfl, rfl⟩

theorem unmoved_emitProgress (s : State) (data : ProgressData) :
    Unmoved s (s.emitProgress data) := by
  unfold State.emitProgress
  split
  · exact ⟨rfl, rfl, rfl⟩
  · split
    · exact ⟨rfl, rfl, rfl⟩
    · split
      · exact unmoved_tell ..
      · exact ⟨rfl, rfl, rfl⟩

theorem unmoved_resume (h : s.resume i st = some s') : Unmoved s s' := by
  unfold State.resume at h
  split at h
  · exact Option.some.inj h ▸ unmoved_tell ..
  · exact Option.some.inj h ▸ unmoved_close ..
  · exact Option.some.inj h ▸ unmoved_close ..
  · cases h
  · cases h

theorem proc_emit (s : State) (data : Option ProgressData) :
    (s.emit data).proc = s.proc ∧ (s.emit data).landed = s.landed := by
  cases data with
  | none => exact ⟨rfl, rfl⟩
  | some data => exact ⟨(unmoved_emitProgress s data).proc, (unmoved_emitProgress s data).landed⟩

/-! ### The processor -/

/-- The processor here is where `p` is, but that its call may have taken effect already. -/
structure Follows (job : Job) (p : NodePipeline.State) (s : State) : Prop where
  proc : { p with world := s.proc.world } = s.proc
  waiting : s.landed = false → p.world = s.proc.world
  landed : s.landed = true →
    ∃ c, p.pc.call job = some c ∧ p.world.run job p.attempt c = .ok s.proc.world

variable {p : NodePipeline.State}

theorem Follows.congr (h : Follows job p s) (hs : Unmoved s s') : Follows job p s' := by
  constructor
  · rw [hs.proc]
    exact h.proc
  · rw [hs.proc, hs.landed]
    exact h.waiting
  · rw [hs.proc, hs.landed]
    exact h.landed

theorem Follows.pc (h : Follows job p s) : p.pc = s.proc.pc ∧ p.attempt = s.proc.attempt := by
  rw [← h.proc]
  exact ⟨rfl, rfl⟩

theorem follows_self (p : NodePipeline.State) (hs : s.proc = p) (hlanded : s.landed = false) :
    Follows job p s where
  proc := by rw [hs]
  waiting _ := by rw [hs]
  landed h := by
    rw [hlanded] at h
    cases h

/-- The world that a call leaves which has thrown, or with which the process has died. -/
theorem Follows.left {c : Call} (h : Follows job p s) (hc : s.proc.pc.call job = some c) :
    p.left job c s.landed = s.proc.world := by
  unfold NodePipeline.State.left
  cases hlanded : s.landed with
  | false => exact h.waiting hlanded
  | true =>
    obtain ⟨c', hc', hrun⟩ := h.landed hlanded
    rw [h.pc.1, hc] at hc'
    obtain rfl := Option.some.inj hc'
    rw [hrun]

/-- Between two calls there is no difference. -/
theorem Follows.of_ended (h : Follows job p s) (hc : s.proc.pc.call job = none) :
    s.proc = p ∧ s.landed = false := by
  have hlanded : s.landed = false := by
    by_contra hlanded
    obtain ⟨c, hc', -⟩ := h.landed (by simpa using hlanded)
    rw [h.pc.1, hc] at hc'
    cases hc'
  exact ⟨by rw [← h.proc, ← h.waiting hlanded], hlanded⟩

theorem proc_fail (s : State) (f : Fault) :
    (s.fail f).proc = { s.proc with pc := s.proc.pc.fail f } ∧ (s.fail f).landed = false := by
  cases f <;> exact ⟨rfl, rfl⟩

/-- **Every step is one of the processor, or none of its business.** -/
theorem follows_step (h : Follows job p s) (hs : step job s a = some s') :
    ∃ bs p', exec (NodePipeline.step job) p bs = some p' ∧ Follows job p' s' := by
  have hpc := h.pc.1
  cases a with
  | land =>
    dsimp only [step] at hs
    split_ifs at hs with hlanded
    obtain ⟨c, hc, hs⟩ := Option.bind_eq_some_iff.mp hs
    split at hs
    · next w hrun =>
      obtain rfl := Option.some.inj hs
      have hworld := h.waiting (Bool.eq_false_of_not_eq_true hlanded)
      -- The call has landed but has no answer yet: no step of the processor.
      refine ⟨[], p, rfl, ?_, fun hfalse => Bool.noConfusion hfalse, fun _ => ⟨c, ?_, ?_⟩⟩
      · rw [← h.proc]
      · rw [hpc, hc]
      · rw [hworld, h.pc.2, hrun]
    · cases hs
  | reply =>
    obtain ⟨c, hc, hs⟩ := Option.bind_eq_some_iff.mp hs
    split_ifs at hs with hlanded
    · obtain rfl := Option.some.inj hs
      obtain ⟨c', hc', hrun⟩ := h.landed hlanded
      refine ⟨[.reply .ok], { s.proc with pc := s.proc.pc.next job }, ?_, ?_⟩
      · rw [exec_cons, NodePipeline.step, hc', Option.map_some, hrun, ← h.proc]
        rfl
      · refine follows_self _ ?_ ?_
        · exact (proc_emit ..).1
        · exact (proc_emit ..).2
    · split at hs
      · cases hs
      · next f hrun =>
        obtain rfl := Option.some.inj hs
        have hworld := h.waiting (Bool.eq_false_of_not_eq_true hlanded)
        refine ⟨[.reply .ok], { s.proc with pc := s.proc.pc.fail f }, ?_,
          follows_self _ (proc_fail s f).1 (proc_fail s f).2⟩
        rw [exec_cons, NodePipeline.step, hpc, hc, Option.map_some, hworld, h.pc.2, hrun,
          ← h.proc, ← hworld]
        rfl
  | fault error =>
    obtain ⟨c, hc, rfl⟩ := Option.map_eq_some_iff.mp hs
    refine ⟨[.reply (.err error s.landed)],
      { s.proc with pc := s.proc.pc.fail (s.proc.pc.fault error) }, ?_,
      follows_self _ (proc_fail s _).1 (proc_fail s _).2⟩
    rw [exec_cons, NodePipeline.step, hpc, hc, Option.map_some, h.left hc, ← h.proc]
    rfl
  | die =>
    obtain rfl := Option.some.inj hs
    cases hc : s.proc.pc.call job with
    | none => exact ⟨[], p, rfl, follows_self _ (h.of_ended hc).1 rfl⟩
    | some c =>
      refine ⟨[.die s.landed], { s.proc with pc := .died }, ?_, follows_self _ rfl rfl⟩
      rw [exec_cons, NodePipeline.step, hpc, hc, Option.map_some, h.left hc, ← h.proc]
      rfl
  | retry =>
    obtain ⟨q, hq, rfl⟩ := Option.map_eq_some_iff.mp hs
    have hc : s.proc.pc.call job = none := by
      dsimp only [NodePipeline.step] at hq
      split at hq
      · next error hthrown => rw [hthrown]; rfl
      · next hdied => rw [hdied]; rfl
      · cases hq
    obtain ⟨hproc, hlanded⟩ := h.of_ended hc
    refine ⟨[.retry], q, ?_, follows_self q rfl hlanded⟩
    rw [exec_cons, ← hproc, hq]
    rfl
  -- The streams touch neither the processor nor its world.
  | subscribe i =>
    dsimp only [step] at hs
    split_ifs at hs
    obtain rfl := Option.some.inj hs
    exact ⟨[], p, rfl, h.congr ⟨rfl, rfl, rfl⟩⟩
  | answer i | readError i | disconnect i =>
    obtain ⟨st, -, hs⟩ := Option.bind_eq_some_iff.mp hs
    split_ifs at hs
    obtain rfl := Option.some.inj hs
    refine ⟨[], p, rfl, h.congr ?_⟩
    first | exact ⟨rfl, rfl, rfl⟩ | exact unmoved_close ..
  | resume i =>
    obtain ⟨st, -, hs⟩ := Option.bind_eq_some_iff.mp hs
    exact ⟨[], p, rfl, h.congr (unmoved_resume hs)⟩

/-- **The processor does here what it does by itself.** -/
theorem simulates {as : List Label} (h : exec (step job) start as = some s) :
    ∃ bs p, exec (NodePipeline.step job) NodePipeline.start bs = some p ∧ Follows job p s := by
  refine exec_invariant (I := fun s => ∃ bs p,
    exec (NodePipeline.step job) NodePipeline.start bs = some p ∧ Follows job p s) ?_ ?_ h
  · rintro s a s' ⟨bs, p, hbs, hp⟩ hs
    obtain ⟨cs, p', hcs, hp'⟩ := follows_step hp hs
    exact ⟨bs ++ cs, p', exec_append_eq_some.mpr ⟨p, hbs, hcs⟩, hp'⟩
  · exact ⟨[], _, rfl, follows_self _ rfl rfl⟩

end

end Sse

end CsvProductUploader.NodePipeline

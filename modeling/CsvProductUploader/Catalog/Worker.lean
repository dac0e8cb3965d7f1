import CsvProductUploader.Catalog.Service
import CsvProductUploader.Kafka.Consumer
import CsvProductUploader.Lib.Runs
import CsvProductUploader.Lib.Update

/-!
# Catalog workers over one event log

Any number of catalog workers consume the product topic as one group.  A worker polls
records, dead-letters what does not decode or validate, writes the rest, counts, publishes
its progress and commits; a ticker publishes progress next to it.  Between any two of
these steps it may stop, and everything it holds in memory is gone.

The log is the list of the records in the order they were appended; a record's position
in it stands for its offset, which grows along every partition.

## Main definitions

* `recoverJobID` — the job of a record that does not decode, from its bytes.
* `Payload`, `Record`, `eventAt`, `validRefs`, `invalidRefs`, `rawRefs` — the log and what
  a batch holds.
* `FlushPc`, `flushStep`, `Flushes` — `FlushProgress`, between two calls or locks.
* `Pc`, `Worker`, `Action`, `act` — one worker.
* `Count`, `State`, `Label`, `step` — the group.
* `Acts` — what one step of a worker can do, action by action.

## Main results

* `acts_of_act`, `Acts.batch`, `step_start`, …, `step_assign` — what one step can do.
-/

namespace CsvProductUploader.Catalog

open Update

/-! ### Raw records -/

/-- The class `\s`. -/
def skipSpace (s : GoString) : GoString := s.dropWhile (· ∈ [0x09, 0x0A, 0x0C, 0x0D, 0x20])

/-- The job id of `jobIDPattern` at the head of the string. -/
def matchJobID (s : GoString) : Option GoString :=
  if lit "\"job_id\"" <+: s then
    match skipSpace (s.drop (lit "\"job_id\"").length) with
    | 0x3A :: s₁ =>
      match skipSpace s₁ with
      | 0x22 :: s₂ =>
        if isUUID (s₂.take 36) ∧ (s₂.drop 36).head? = some 0x22 then some (s₂.take 36) else none
      | _ => none
    | _ => none
  else none

/-- `jobIDPattern.FindSubmatch`: the leftmost job id in the bytes of a record. -/
def recoverJobID : GoString → Option GoString
  | [] => none
  | b :: s =>
    match matchJobID (b :: s) with
    | some id => some id
    | none => recoverJobID s

/-! ### The log -/

/-- What `parseEvent` makes of the value of a record: an event, or bytes that do not
decode. -/
inductive Payload
  | event (evt : ProductImported)
  | raw (value : GoString)
  deriving DecidableEq, Repr

structure Record where
  partition : ℕ
  payload : Payload
  deriving DecidableEq, Repr

/-- The records in the order they were appended. -/
abbrev Log := List Record

namespace Log

/-- The event of a record, if it decodes. -/
def eventAt (log : Log) (i : ℕ) : Option ProductImported :=
  match log[i]? with
  | some ⟨_, .event evt⟩ => some evt
  | _ => none

/-- The job that the record at a position counts for. -/
def jobAt (log : Log) (i : ℕ) : Option GoString :=
  match log[i]? with
  | some ⟨_, .event evt⟩ => some evt.jobID
  | some ⟨_, .raw value⟩ => recoverJobID value
  | none => none

/-- The partition of a record. -/
def partitionAt (log : Log) (i : ℕ) : Option ℕ := log[i]?.map Record.partition

/-- The events of the given records. -/
def events (log : Log) (refs : List ℕ) : List ProductImported := refs.filterMap log.eventAt

/-- Whether the record decodes to an event that passes validation. -/
def validAt (log : Log) (i : ℕ) : Bool := (log.eventAt i).any fun evt => (fromEvent evt).isOk

/-- The records of a batch whose events pass validation. -/
def validRefs (log : Log) (batch : List ℕ) : List ℕ := batch.filter log.validAt

/-- The records of a batch whose events do not. -/
def invalidRefs (log : Log) (batch : List ℕ) : List ℕ :=
  batch.filter fun i => (log.eventAt i).isSome && !log.validAt i

/-- The records of a batch that do not decode. -/
def rawRefs (log : Log) (batch : List ℕ) : List ℕ := batch.filter fun i => (log.eventAt i).isNone

end Log

/-! ### `FlushProgress` -/

/-- How a call returns; a failed one may have taken effect all the same. -/
inductive Reply
  | ok
  | err (applied : Bool)
  deriving DecidableEq, Repr

def Reply.isOk : Reply → Bool
  | .ok => true
  | .err _ => false

def Reply.applied : Reply → Bool
  | .ok => true
  | .err applied => applied

/-- Where `FlushProgress` stands. -/
inductive FlushPc
  /-- At the lock under which the pending reports are collected. -/
  | reading
  /-- At `ReportProgress`, with all that is pending and what is yet to be reported. -/
  | reporting (pending todo : List Report)
  /-- At `reporter.Flush`. -/
  | confirming (pending : List Report)
  /-- At the lock under which the published totals are marked. -/
  | marking (pending : List Report)
  deriving DecidableEq, Repr

inductive FlushAction
  /-- The pending reports, in the order in which the map yields them. -/
  | read (pending : List Report)
  | report (r : Reply)
  | confirm (ok : Bool)
  | mark
  deriving DecidableEq, Repr

/-- What one step of `FlushProgress` leaves: where it stands, or how it returned. -/
inductive FlushNext
  | running (f : FlushPc)
  | returned (ok : Bool)
  deriving DecidableEq, Repr

/-- The effects of one step of `FlushProgress`. -/
structure FlushOut where
  next : FlushNext
  service : Service
  /-- The snapshot that reached the progress topic. -/
  sent : Option ImportProgress

/-- After `ReportProgress` for one job. -/
def FlushPc.afterReport (pending todo : List Report) : FlushPc :=
  if todo = [] then .confirming pending else .reporting pending todo

/-- One step of `FlushProgress` in the worker `k`. -/
def flushStep (k : GoString) (s : Service) : FlushPc → FlushAction → Option FlushOut
  | .reading, .read pending =>
    if pending.Perm s.due then
      some ⟨if pending = [] then .returned true else .running (.reporting pending pending), s, none⟩
    else none
  | .reporting pending (r :: todo), .report reply =>
    some ⟨if reply.isOk then .running (.afterReport pending todo) else .returned false, s,
      if reply.applied then some (r.snapshot k) else none⟩
  | .confirming pending, .confirm ok =>
    some ⟨if ok then .running (.marking pending) else .returned false, s, none⟩
  | .marking pending, .mark => some ⟨.returned true, s.mark pending, none⟩
  | _, _ => none

/-- What one step of `FlushProgress` can do. -/
inductive Flushes (k : GoString) (s : Service) : FlushPc → FlushOut → Prop
  | readNone : s.due = [] → Flushes k s .reading ⟨.returned true, s, none⟩
  | read {pending : List Report} : pending.Perm s.due →
      Flushes k s .reading ⟨.running (.reporting pending pending), s, none⟩
  | report {pending todo : List Report} {r : Report} :
      Flushes k s (.reporting pending (r :: todo))
        ⟨.running (.afterReport pending todo), s, some (r.snapshot k)⟩
  | reportFail {pending todo : List Report} {r : Report} {sent : Option ImportProgress} :
      sent = none ∨ sent = some (r.snapshot k) →
      Flushes k s (.reporting pending (r :: todo)) ⟨.returned false, s, sent⟩
  | confirm {pending : List Report} :
      Flushes k s (.confirming pending) ⟨.running (.marking pending), s, none⟩
  | confirmFail {pending : List Report} :
      Flushes k s (.confirming pending) ⟨.returned false, s, none⟩
  | mark {pending : List Report} :
      Flushes k s (.marking pending) ⟨.returned true, s.mark pending, none⟩

theorem flushes_of_flushStep {k : GoString} {s : Service} {f : FlushPc} {a : FlushAction}
    {o : FlushOut} (h : flushStep k s f a = some o) : Flushes k s f o := by
  unfold flushStep at h
  split at h
  · next pending =>
    split at h
    · next hperm =>
      obtain rfl := Option.some.inj h
      split
      · next hnil =>
        subst hnil
        exact .readNone (List.nil_perm.mp hperm)
      · exact .read hperm
    · cases h
  · next pending r todo reply =>
    obtain rfl := Option.some.inj h
    cases reply with
    | ok => exact .report
    | err applied =>
      cases applied with
      | true => exact .reportFail (Or.inr rfl)
      | false => exact .reportFail (Or.inl rfl)
  · next pending ok =>
    obtain rfl := Option.some.inj h
    cases ok with
    | true => exact .confirm
    | false => exact .confirmFail
  · obtain rfl := Option.some.inj h
    exact .mark
  · cases h

/-- A flush changes no total. -/
theorem Flushes.count {k : GoString} {s : Service} {f : FlushPc} {o : FlushOut}
    (h : Flushes k s f o) (id : GoString) (kind : Kind) :
    o.service.count id kind = s.count id kind := by
  cases h with
  | mark => exact Service.count_mark s _ id kind
  | _ => rfl

/-- What a flush sends is the first report to come. -/
theorem Flushes.sent {k : GoString} {s : Service} {f : FlushPc} {o : FlushOut} {p : ImportProgress}
    (h : Flushes k s f o) (hp : o.sent = some p) :
    ∃ pending r todo, f = .reporting pending (r :: todo) ∧ p = r.snapshot k := by
  cases h with
  | report => exact ⟨_, _, _, rfl, (Option.some.inj hp).symm⟩
  | reportFail hsent =>
    rcases hsent with rfl | rfl
    · cases hp
    · exact ⟨_, _, _, rfl, (Option.some.inj hp).symm⟩
  | _ => cases hp

/-! ### One worker -/

/-- Where the loop of `Run` stands. -/
inductive Pc
  /-- In `Poll`. -/
  | polling
  /-- In `ProcessPoison`, at the count of the first of the raw records to come. -/
  | poisoning (todo : List ℕ)
  /-- In `ProcessPoison`, at `RepublishDeadRaw`. -/
  | republishing (i : ℕ) (todo : List ℕ)
  /-- In `ProcessBatch`, at `RepublishDead` of the first of the invalid events to come. -/
  | deadLettering (todo : List ℕ)
  /-- In `ProcessBatch`, at `UpsertBatch`. -/
  | writing (attempt : ℕ)
  /-- In `ProcessBatch`, at the lock under which the batch is counted. -/
  | counting
  | flushing (f : FlushPc)
  /-- At `CommitRecords`. -/
  | committing
  /-- In the deferred `drain`. -/
  | draining (f : FlushPc)
  | returned
  deriving DecidableEq, Repr

/-- The memory of a worker process. -/
structure Worker where
  service : Service := ∅
  /-- The next position to fetch, by partition. -/
  position : ℕ → ℕ := fun _ => 0
  /-- The records polled since the last commit. -/
  batch : List ℕ := []
  pc : Pc := .polling
  /-- The ticker's `FlushProgress`, while one is under way. -/
  ticker : Option FlushPc := none
  /-- The context is done. -/
  cancelled : Bool := false

/-- The way through `ProcessBatch` once the invalid events to come are `todo`. -/
def Pc.deadLetters (log : Log) (batch todo : List ℕ) : Pc :=
  if todo = [] then if log.validRefs batch = [] then .counting else .writing 0
  else .deadLettering todo

/-- The start of `ProcessBatch`, which is only called for a batch with events. -/
def Pc.processBatch (log : Log) (batch : List ℕ) : Pc :=
  if log.events batch = [] then .flushing .reading
  else .deadLetters log batch (log.invalidRefs batch)

/-- The loop over the raw records, with `todo` to come. -/
def Pc.poisons (log : Log) (batch todo : List ℕ) : Pc :=
  if todo = [] then .processBatch log batch else .poisoning todo

inductive Action
  /-- The process is asked to shut down. -/
  | signal
  /-- The client hands out a record. -/
  | fetch (i : ℕ)
  /-- `Poll` returns. -/
  | poll
  /-- The loop ends because the context is done. -/
  | shutdown
  /-- The count of `ProcessPoison`. -/
  | countPoison
  /-- `RepublishDeadRaw` or `RepublishDead` returns. -/
  | republish (r : Reply)
  /-- `UpsertBatch` returns; the connection may have been lost, and the retry may be given
  up because the context is done. -/
  | write (lost : Option (String × Bool)) (giveUp : Bool)
  /-- The count of `ProcessBatch`. -/
  | count
  /-- The ticker fires. -/
  | tick
  /-- A step of the loop's `FlushProgress`. -/
  | flush (a : FlushAction)
  /-- A step of the ticker's `FlushProgress`. -/
  | tickerFlush (a : FlushAction)
  /-- `CommitRecords` returns, having reached the broker or not. -/
  | commit (ok reached : Bool)
  deriving DecidableEq, Repr

/-! ### The group -/

/-- A record counted by a worker. -/
structure Count where
  worker : GoString
  ref : ℕ
  job : GoString
  kind : Kind
  /-- The worker has committed the poll. -/
  committed : Bool := false
  deriving DecidableEq, Repr

structure State where
  log : Log
  /-- The committed offset, by partition. -/
  committed : ℕ → ℕ
  /-- The member a partition is assigned to. -/
  owner : ℕ → Option GoString
  /-- The workers that are up, by identity. -/
  workers : GoString → Option Worker
  products : Table Unit
  /-- The snapshots on the progress topic. -/
  progress : List ImportProgress
  /-- The identities that have been in use. -/
  used : List GoString
  /-- The records whose products were written, as the database has confirmed. -/
  written : List ℕ
  /-- The records delivered to the dead letter topic. -/
  dead : List ℕ
  /-- The records counted by workers that are up, and those counted and committed. -/
  counts : List Count

inductive Label
  /-- A record is appended to the log. -/
  | append (r : Record)
  /-- A worker process starts under an identity. -/
  | start (k : GoString)
  /-- A worker process stops or crashes. -/
  | stop (k : GoString)
  /-- The group assigns a partition, and its new owner reads from the committed offset. -/
  | assign (p : ℕ) (k : GoString)
  | worker (k : GoString) (a : Action)
  deriving DecidableEq, Repr

def initial : State where
  log := []
  committed := fun _ => 0
  owner := fun _ => none
  workers := fun _ => none
  products := fun _ => none
  progress := []
  used := []
  written := []
  dead := []
  counts := []

/-- The state with the worker `k` in a new state. -/
def State.put (s : State) (k : GoString) (w : Worker) : State :=
  { s with workers := Function.update s.workers k (some w) }

/-- The next record of a partition at a position. -/
def Log.nextAt (log : Log) (position : ℕ → ℕ) (i : ℕ) : Prop :=
  ∀ p ∈ log.partitionAt i, position p ≤ i ∧ ∀ j < i, position p ≤ j → log.partitionAt j ≠ some p

instance (log : Log) (position : ℕ → ℕ) (i : ℕ) : Decidable (log.nextAt position i) :=
  inferInstanceAs (Decidable (∀ p ∈ log.partitionAt i, _))

/-- Partition and position of the records, as they are named to the broker. -/
def Log.offsets (log : Log) (batch : List ℕ) : List (ℕ × ℕ) :=
  batch.filterMap fun i => (log.partitionAt i).map fun p => (p, i)

/-- The counts of an adjudicated batch. -/
def countsOf (log : Log) (k : GoString) (batch : List ℕ) : List Count :=
  (log.validRefs batch).filterMap (fun i => (log.eventAt i).map fun evt =>
      { worker := k, ref := i, job := evt.jobID, kind := .applied }) ++
    (log.invalidRefs batch).filterMap fun i => (log.eventAt i).map fun evt =>
      { worker := k, ref := i, job := evt.jobID, kind := .dead }

/-- The counts once the poll of `k` is committed. -/
def settleCounts (k : GoString) (counts : List Count) : List Count :=
  counts.map fun c => if c.worker = k then { c with committed := true } else c

/-- The counts once `k` is gone: those of a poll it did not commit will be made again. -/
def dropCounts (k : GoString) (counts : List Count) : List Count :=
  counts.filter fun c => c.worker ≠ k || c.committed

/-- Where the loop goes on after a step of its `FlushProgress`. -/
def Pc.afterFlush : FlushNext → Pc
  | .running f => .flushing f
  | .returned true => .committing
  | .returned false => .draining .reading

/-- Where `drain` goes on after a step of its `FlushProgress`; its error is logged. -/
def Pc.afterDrain : FlushNext → Pc
  | .running f => .draining f
  | .returned _ => .returned

/-- Where the ticker goes on after a step of its `FlushProgress`; its error is logged. -/
def FlushNext.ticker : FlushNext → Option FlushPc
  | .running f => some f
  | .returned _ => none

/-- The state after a step of a `FlushProgress`. -/
def State.flushed (s : State) (o : FlushOut) : State :=
  { s with progress := s.progress ++ o.sent.toList }

section
variable (d : Dialect) (maxPoll : ℕ)

/-- One step of the worker `k`, which is up and in the state `w`. -/
def act (s : State) (k : GoString) (w : Worker) : Action → Option State
  | .signal => some (s.put k { w with cancelled := true })
  | .fetch i =>
    if w.pc = .polling ∧ w.batch.length < maxPoll ∧
        (∃ p ∈ s.log.partitionAt i, s.owner p = some k) ∧ s.log.nextAt w.position i then
      some (s.put k { w with
        batch := w.batch ++ [i]
        position := fun p => if s.log.partitionAt i = some p then i + 1 else w.position p })
    else none
  | .poll =>
    if w.pc = .polling then
      some (s.put k { w with
        pc := if w.batch = [] then .polling
              else .poisons s.log w.batch (s.log.rawRefs w.batch) })
    else none
  | .shutdown =>
    if w.pc = .polling ∧ w.batch = [] ∧ w.cancelled = true ∧ w.ticker = none then
      some (s.put k { w with pc := .draining .reading })
    else none
  | .countPoison =>
    match w.pc with
    | .poisoning (i :: todo) =>
      match s.log.jobAt i with
      | some id =>
        some { s.put k { w with service := w.service.increment id .dead
                                pc := .republishing i todo } with
          counts := s.counts ++ [{ worker := k, ref := i, job := id, kind := .dead }] }
      | none => some (s.put k { w with pc := .republishing i todo })
    | _ => none
  | .republish r =>
    match w.pc with
    | .republishing i todo =>
      some { s.put k { w with
          pc := if r.isOk then .poisons s.log w.batch todo else .draining .reading } with
        dead := if r.applied then s.dead ++ [i] else s.dead }
    | .deadLettering (i :: todo) =>
      some { s.put k { w with
          pc := if r.isOk then .deadLetters s.log w.batch todo else .draining .reading } with
        dead := if r.applied then s.dead ++ [i] else s.dead }
    | _ => none
  | .write lost giveUp =>
    match w.pc with
    | .writing attempt =>
      if giveUp = true ∧ w.cancelled = false then none
      else
        match writeOnce d (accepted (s.log.events w.batch)) lost s.products with
        | (none, t) =>
          some { s.put k { w with pc := .counting } with
            products := t, written := s.written ++ s.log.validRefs w.batch }
        | (some _, t) =>
          some { s.put k { w with
              pc := if giveUp = false ∧ attempt + 1 < writeRetryAttempts then .writing (attempt + 1)
                    else .draining .reading } with
            products := t }
    | _ => none
  | .count =>
    if w.pc = .counting then
      some { s.put k { w with
          service := countBatch w.service (s.log.events (s.log.validRefs w.batch))
            (s.log.events (s.log.invalidRefs w.batch))
          pc := .flushing .reading } with
        counts := s.counts ++ countsOf s.log k w.batch }
    else none
  | .tick =>
    if w.ticker = none then some (s.put k { w with ticker := some .reading }) else none
  | .flush a =>
    match w.pc with
    | .flushing f =>
      (flushStep k w.service f a).map fun o =>
        (s.put k { w with service := o.service, pc := .afterFlush o.next }).flushed o
    | .draining f =>
      (flushStep k w.service f a).map fun o =>
        (s.put k { w with service := o.service, pc := .afterDrain o.next }).flushed o
    | _ => none
  | .tickerFlush a =>
    w.ticker.bind fun f => (flushStep k w.service f a).map fun o =>
      (s.put k { w with service := o.service, ticker := o.next.ticker }).flushed o
  | .commit ok reached =>
    if w.pc = .committing ∧ (ok = true → reached = true) then
      some { s.put k { w with
          batch := if reached then [] else w.batch
          pc := if ok then .polling else .draining .reading } with
        committed := if reached then commitRecords s.committed (s.log.offsets w.batch)
                     else s.committed
        counts := if reached then settleCounts k s.counts else s.counts }
    else none

/-- One step of the group. -/
def step (s : State) : Label → Option State
  | .append r => some { s with log := s.log ++ [r] }
  | .start k =>
    if s.workers k = none then some { s.put k {} with used := k :: s.used } else none
  | .stop k =>
    if (s.workers k).isSome then
      some { s with
        workers := Function.update s.workers k none
        owner := fun p => if s.owner p = some k then none else s.owner p
        counts := dropCounts k s.counts }
    else none
  | .assign p k =>
    -- A partition that stays where it is, is not handed out again.
    if s.owner p = some k then none
    else (s.workers k).map fun w =>
      { s.put k { w with position := Function.update w.position p (s.committed p) } with
        owner := Function.update s.owner p (some k) }
  | .worker k a => (s.workers k).bind fun w => act d maxPoll s k w a

/-! ### What one step does -/

/-- The table once the batch of the worker has been written: the statement took effect, whatever
became of the connection. -/
def Wrote (s : State) (w : Worker) (lost : Option (String × Bool)) (t : Table Unit) : Prop :=
  lost.all Prod.snd = true ∧ upsertBatch d s.products (accepted (s.log.events w.batch)) = .ok t

/-- What one step of a worker can do, action by action. -/
inductive Acts (s : State) (k : GoString) (w : Worker) : Action → State → Prop
  | signal : Acts s k w .signal (s.put k { w with cancelled := true })
  | fetch {i p : ℕ} : w.pc = .polling → s.log.partitionAt i = some p → s.owner p = some k →
      w.position p ≤ i → (∀ j < i, w.position p ≤ j → s.log.partitionAt j ≠ some p) →
      w.batch.length < maxPoll →
      Acts s k w (.fetch i) (s.put k { w with
        batch := w.batch ++ [i], position := Function.update w.position p (i + 1) })
  | idle : Acts s k w .poll (s.put k w)
  | poll : w.pc = .polling → Acts s k w .poll (s.put k { w with
      pc := .poisons s.log w.batch (s.log.rawRefs w.batch) })
  | shutdown : w.pc = .polling → w.batch = [] →
      Acts s k w .shutdown (s.put k { w with pc := .draining .reading })
  | countPoison {i : ℕ} {todo : List ℕ} {id : GoString} : w.pc = .poisoning (i :: todo) →
      s.log.jobAt i = some id →
      Acts s k w .countPoison { s.put k { w with service := w.service.increment id .dead
                                                 pc := .republishing i todo } with
        counts := s.counts ++ [{ worker := k, ref := i, job := id, kind := .dead }] }
  | skipPoison {i : ℕ} {todo : List ℕ} : w.pc = .poisoning (i :: todo) → s.log.jobAt i = none →
      Acts s k w .countPoison (s.put k { w with pc := .republishing i todo })
  | republish {i : ℕ} {todo : List ℕ} {r : Reply} : w.pc = .republishing i todo →
      Acts s k w (.republish r) { s.put k { w with
          pc := if r.isOk then .poisons s.log w.batch todo else .draining .reading } with
        dead := if r.applied then s.dead ++ [i] else s.dead }
  | deadLetter {i : ℕ} {todo : List ℕ} {r : Reply} : w.pc = .deadLettering (i :: todo) →
      Acts s k w (.republish r) { s.put k { w with
          pc := if r.isOk then .deadLetters s.log w.batch todo else .draining .reading } with
        dead := if r.applied then s.dead ++ [i] else s.dead }
  | write {n : ℕ} {t : Table Unit} {lost : Option (String × Bool)} {giveUp : Bool} :
      w.pc = .writing n → Wrote d s w lost t →
      Acts s k w (.write lost giveUp) { s.put k { w with pc := .counting } with
        products := t, written := s.written ++ s.log.validRefs w.batch }
  | writeFail {n : ℕ} {t : Table Unit} {pc : Pc} {lost : Option (String × Bool)} {giveUp : Bool} :
      w.pc = .writing n → pc = .writing (n + 1) ∨ pc = .draining .reading →
      t = s.products ∨ Wrote d s w lost t →
      Acts s k w (.write lost giveUp) { s.put k { w with pc } with products := t }
  | count : w.pc = .counting →
      Acts s k w .count { s.put k { w with
          service := countBatch w.service (s.log.events (s.log.validRefs w.batch))
            (s.log.events (s.log.invalidRefs w.batch))
          pc := .flushing .reading } with
        counts := s.counts ++ countsOf s.log k w.batch }
  | tick : w.ticker = none → Acts s k w .tick (s.put k { w with ticker := some .reading })
  | flush {f : FlushPc} {o : FlushOut} {a : FlushAction} : w.pc = .flushing f →
      Flushes k w.service f o →
      Acts s k w (.flush a)
        ((s.put k { w with service := o.service, pc := .afterFlush o.next }).flushed o)
  | drain {f : FlushPc} {o : FlushOut} {a : FlushAction} : w.pc = .draining f →
      Flushes k w.service f o →
      Acts s k w (.flush a)
        ((s.put k { w with service := o.service, pc := .afterDrain o.next }).flushed o)
  | tickerFlush {f : FlushPc} {o : FlushOut} {a : FlushAction} : w.ticker = some f →
      Flushes k w.service f o →
      Acts s k w (.tickerFlush a)
        ((s.put k { w with service := o.service, ticker := o.next.ticker }).flushed o)
  | commit {pc : Pc} {ok : Bool} : w.pc = .committing → pc = .polling ∨ pc = .draining .reading →
      Acts s k w (.commit ok true) { s.put k { w with batch := [], pc } with
        committed := commitRecords s.committed (s.log.offsets w.batch)
        counts := settleCounts k s.counts }
  | commitFail : w.pc = .committing →
      Acts s k w (.commit false false) (s.put k { w with pc := .draining .reading })

variable {d maxPoll}

/-- **Every step of a worker is one of `Acts`**, under its own action. -/
theorem acts_of_act {s s' : State} {k : GoString} {w : Worker} {a : Action}
    (h : act d maxPoll s k w a = some s') : Acts d maxPoll s k w a s' := by
  cases a with
  | signal =>
    obtain rfl := Option.some.inj h
    exact .signal
  | fetch i =>
    simp only [act] at h
    split at h
    · next hc =>
      obtain ⟨hpc, hroom, ⟨p, hp, hown⟩, hnext⟩ := hc
      obtain rfl := Option.some.inj h
      have hp' : s.log.partitionAt i = some p := hp
      -- The fetch moves the position of the partition of `i` and of no other.
      have hpos : (fun q => if s.log.partitionAt i = some q then i + 1 else w.position q) =
          Function.update w.position p (i + 1) := by
        funext q
        by_cases hq : q = p
        · rw [if_pos (by rw [hp', hq]), hq, Function.update_self]
        · have hne : s.log.partitionAt i ≠ some q := by
            rw [hp']
            exact fun heq => hq (Option.some.inj heq).symm
          rw [if_neg hne, Function.update_of_ne hq]
      rw [hpos]
      exact .fetch hpc hp' hown (hnext p hp).1 (hnext p hp).2 hroom
    · cases h
  | poll =>
    simp only [act] at h
    split at h
    · next hpc =>
      obtain rfl := Option.some.inj h
      by_cases hb : w.batch = []
      · rw [if_pos hb, ← hpc]
        exact .idle
      · rw [if_neg hb]
        exact .poll hpc
    · cases h
  | shutdown =>
    simp only [act] at h
    split at h
    · next hc =>
      obtain rfl := Option.some.inj h
      exact .shutdown hc.1 hc.2.1
    · cases h
  | countPoison =>
    simp only [act] at h
    split at h
    · next i todo hpc =>
      split at h
      · next id hid =>
        obtain rfl := Option.some.inj h
        exact .countPoison hpc hid
      · next hid =>
        obtain rfl := Option.some.inj h
        exact .skipPoison hpc hid
    · cases h
  | republish r =>
    simp only [act] at h
    split at h
    · next i todo hpc =>
      obtain rfl := Option.some.inj h
      exact .republish hpc
    · next i todo hpc =>
      obtain rfl := Option.some.inj h
      exact .deadLetter hpc
    · cases h
  | write lost giveUp =>
    simp only [act] at h
    split at h
    · next n hpc =>
      split at h
      · cases h
      · split at h
        · next t hw =>
          obtain rfl := Option.some.inj h
          exact .write hpc ((writeOnce_cases hw).resolve_left fun hnot => hnot.2 rfl)
        · next err t hw =>
          obtain rfl := Option.some.inj h
          -- A write that fails may have taken effect all the same.
          refine .writeFail hpc ?_ ((writeOnce_cases hw).imp_left And.left)
          split
          · exact Or.inl rfl
          · exact Or.inr rfl
    · cases h
  | count =>
    simp only [act] at h
    split at h
    · next hpc =>
      obtain rfl := Option.some.inj h
      exact .count hpc
    · cases h
  | tick =>
    simp only [act] at h
    split at h
    · next ht =>
      obtain rfl := Option.some.inj h
      exact .tick ht
    · cases h
  | flush a =>
    simp only [act] at h
    split at h
    · next f hpc =>
      obtain ⟨o, ho, rfl⟩ := Option.map_eq_some_iff.mp h
      exact .flush hpc (flushes_of_flushStep ho)
    · next f hpc =>
      obtain ⟨o, ho, rfl⟩ := Option.map_eq_some_iff.mp h
      exact .drain hpc (flushes_of_flushStep ho)
    · cases h
  | tickerFlush a =>
    obtain ⟨f, hf, h⟩ := Option.bind_eq_some_iff.mp h
    obtain ⟨o, ho, rfl⟩ := Option.map_eq_some_iff.mp h
    exact .tickerFlush hf (flushes_of_flushStep ho)
  | commit ok reached =>
    simp only [act] at h
    split at h
    · next hc =>
      obtain rfl := Option.some.inj h
      -- Only a commit that reaches the broker settles the batch, whatever its answer.
      cases reached with
      | true =>
        refine .commit hc.1 ?_
        cases ok with
        | true => exact Or.inl rfl
        | false => exact Or.inr rfl
      | false =>
        cases ok with
        | true => cases hc.2 rfl
        | false => exact .commitFail hc.1
    · cases h

/-- The action takes the polled records out of the batch: the broker has their offsets. -/
def Action.settles : Action → Bool
  | .commit _ reached => reached
  | _ => false

section
variable {s s' : State} {k : GoString} {w w' : Worker} {a : Action}

/-- What a commit that reaches the broker does to its worker. -/
theorem Acts.settled (h : Acts d maxPoll s k w a s') (ha : a.settles = true) :
    ∃ w', s'.workers k = some w' ∧ w.pc = .committing ∧ w'.service = w.service ∧
      w'.batch = [] ∧ (w'.pc = .polling ∨ w'.pc = .draining .reading) := by
  cases h with
  | commit hpc hpc' => exact ⟨_, Function.update_self .., hpc, rfl, rfl, hpc'⟩
  | _ => cases ha

/-- **What an action does with the batch**: a record joins it while there is room, or it is
committed, or it stays. -/
theorem Acts.batch (h : Acts d maxPoll s k w a s') (hw' : s'.workers k = some w') :
    w'.batch = w.batch ∨ (∃ i, w'.batch = w.batch ++ [i] ∧ w.batch.length < maxPoll) ∨
      (a.settles = true ∧ w'.batch = []) := by
  cases h with
  | @fetch i p _ _ _ _ _ hroom =>
    obtain rfl := eq_of_update_some hw'
    exact Or.inr (Or.inl ⟨i, rfl, hroom⟩)
  | commit =>
    obtain rfl := eq_of_update_some hw'
    exact Or.inr (Or.inr ⟨rfl, rfl⟩)
  | _ =>
    obtain rfl := eq_of_update_some hw'
    exact Or.inl rfl

end

theorem step_worker {s s' : State} {k : GoString} {a : Action}
    (h : step d maxPoll s (.worker k a) = some s') :
    ∃ w, s.workers k = some w ∧ Acts d maxPoll s k w a s' := by
  obtain ⟨w, hw, h⟩ := Option.bind_eq_some_iff.mp h
  exact ⟨w, hw, acts_of_act h⟩

theorem step_append {s s' : State} {r : Record} (h : step d maxPoll s (.append r) = some s') :
    s' = { s with log := s.log ++ [r] } := (Option.some.inj h).symm

theorem step_start {s s' : State} {k : GoString} (h : step d maxPoll s (.start k) = some s') :
    s.workers k = none ∧ s' = { s.put k {} with used := k :: s.used } := by
  simp only [step] at h
  split at h
  · next hk => exact ⟨hk, (Option.some.inj h).symm⟩
  · cases h

theorem step_stop {s s' : State} {k : GoString} (h : step d maxPoll s (.stop k) = some s') :
    s' = { s with
      workers := Function.update s.workers k none
      owner := fun p => if s.owner p = some k then none else s.owner p
      counts := dropCounts k s.counts } := by
  simp only [step] at h
  split at h
  · exact (Option.some.inj h).symm
  · cases h

theorem step_assign {s s' : State} {p : ℕ} {k : GoString}
    (h : step d maxPoll s (.assign p k) = some s') :
    ∃ w, s.workers k = some w ∧ s.owner p ≠ some k ∧
      s' = { s.put k { w with position := Function.update w.position p (s.committed p) } with
        owner := Function.update s.owner p (some k) } := by
  simp only [step] at h
  split at h
  · cases h
  · next hown =>
    obtain ⟨w, hw, rfl⟩ := Option.map_eq_some_iff.mp h
    exact ⟨w, hw, hown, rfl⟩

end

end CsvProductUploader.Catalog

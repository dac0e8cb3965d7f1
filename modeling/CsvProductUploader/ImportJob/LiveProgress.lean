import CsvProductUploader.ImportJob.Entity
import CsvProductUploader.Kafka.Wire
import CsvProductUploader.Lib.EventStream

/-!
# Live progress

`streamEvents` sends the state of a job, read again and again, as server-sent events until
the job is terminal.  The client shows what has arrived, and takes the job for complete once
its status says so.

## Main definitions

* `JobRow`, `toResponse`, `externalStatus` — a job as the API shows it.
* `Turn`, `pumpEvents` — what is sent, turn by turn; `streamBytes` — as bytes.
* `Follower`, `Follower.handle`, `follow` — the client over the bytes that have arrived.
* `polled` — the jobs that the store has answered with.

## Main results

* `plain_pumpEvents` — every message can be framed, whatever the texts of the job.
* `follow_streamBytes` — the client shows the last state that has arrived whole, and the job is
  complete for it exactly if that state is terminal.
-/

namespace CsvProductUploader.LiveProgress

open EventStream Json

/-! ### Jobs as the API shows them -/

/-- The text of a time. -/
structure Stamp where
  text : GoString
  isText : IsText text

/-- The text of an instant that `Time.MarshalJSON` does not refuse. -/
def Stamp.ofTimestamp (t : ℤ) (h : (formatTimestamp t).isSome = true) : Stamp where
  text := (formatTimestamp t).get h
  isText := isText_formatTimestamp (Option.some_get h).symm

/-- A job with its identity, its file name and its times. -/
structure JobRow where
  id : GoString
  fileName : GoString
  job : ImportJob
  createdAt : Stamp
  updatedAt : Stamp

/-- `externalStatus`: the four states of the upload UI contract. -/
def externalStatus : Status → String
  | .completed => "completed"
  | .failed => "failed"
  | .uploading => "pending"
  | _ => "processing"

/-- `toResponse`, as JSON. -/
def toResponse (j : JobRow) : Value :=
  .object <|
    [stringMember "id" j.id, stringMember "fileName" j.fileName,
      stringMember "status" (lit (externalStatus j.job.status)),
      intMember "totalRows" j.job.totalRows, intMember "validRows" j.job.validRows,
      intMember "invalidRows" j.job.invalidRows, intMember "publishedRows" j.job.publishedRows,
      intMember "processedRows" j.job.processedRows, intMember "retriedRows" j.job.retriedRows,
      intMember "deadRows" j.job.deadRows] ++
    -- `omitempty`
    (match j.job.lastError with
      | none => []
      | some err => [stringMember "lastError" (lit err)]) ++
    [(quote (lit "createdAt"), .string j.createdAt.text),
      (quote (lit "updatedAt"), .string j.updatedAt.text)]

/-! ### Sending -/

/-- One turn of the loop: what the store answers, whether the progress event goes through, and
whether the ticker fires before the stream has lasted its time. -/
structure Turn where
  answer : Option JobRow
  written : Bool
  tick : Bool

/-- `writeSSE`, of a payload that can be encoded. -/
def sse (event : String) (payload : Value) : Message := ⟨lit event, encode payload⟩

def goneMessage : Message :=
  sse "error" (.object [stringMember "error" (lit "import job is no longer available")])

/-- The messages of `pumpEvents`; of the last one only a part may get through. -/
def pumpEvents : List Turn → List Message
  | [] => []
  | t :: ts =>
    match t.answer with
    | none => [goneMessage]
    | some job =>
      sse "progress" (toResponse job) ::
        if t.written = false then []
        else if job.job.status.terminal then [sse "done" (toResponse job)]
        else if t.tick then pumpEvents ts else []

/-- The bytes of the stream. -/
def streamBytes (turns : List Turn) : GoString := (pumpEvents turns).flatMap frame

/-- The jobs that the store has answered with. -/
def polled : List Turn → List JobRow
  | [] => []
  | t :: ts =>
    match t.answer with
    | none => []
    | some job =>
      job :: if t.written = false ∨ job.job.status.terminal ∨ t.tick = false then [] else polled ts

/-! ### Following -/

/-- What `useImportProgress` holds of the stream. -/
structure Follower where
  /-- The response that is shown. -/
  job : Option Value
  isComplete : Bool
  usingPolling : Bool
  /-- The event source has not been closed. -/
  listening : Bool
  deriving Repr

def Follower.start : Follower := ⟨none, false, false, true⟩

/-- A member of an object, the last of its name. -/
def member (name : String) : Value → Option Value
  | .object members => (members.reverse.find? (unquote ·.1 = lit name)).map Prod.snd
  | _ => none

/-- The status says that the import is over. -/
def saysTerminal (v : Value) : Bool :=
  match member "status" v with
  | some (.string t) => unquote t = lit "completed" || unquote t = lit "failed"
  | _ => false

/-- The listeners of the event source.  An event named `error` is one for `onerror`. -/
def Follower.handle (c : Follower) (m : Message) : Follower :=
  if c.listening = false then c
  else if m.event = lit "progress" ∨ m.event = lit "done" then
    match parse m.data with
    | none => c
    | some v =>
      if m.event = lit "done" ∨ saysTerminal v = true then
        { c with job := some v, isComplete := true, listening := false }
      else { c with job := some v }
  else if m.event = lit "error" then { c with usingPolling := true, listening := false }
  else c

/-- The client after these bytes. -/
def follow (bytes : GoString) : Follower := (read bytes).foldl Follower.handle .start

/-! ### Responses -/

theorem member_status (j : JobRow) : member "status" (toResponse j) =
    some (.string (quote (lit (externalStatus j.job.status)))) := by
  unfold toResponse
  cases j.job.lastError <;> rfl

theorem saysTerminal_toResponse (j : JobRow) :
    saysTerminal (toResponse j) = j.job.status.terminal := by
  rw [saysTerminal, member_status]
  cases j.job.status <;> decide

theorem fits_toResponse (n : ℕ) (j : JobRow) : Fits (n + 1) (toResponse j) := by
  have hmembers : ∃ members, toResponse j = .object members ∧
      ∀ m ∈ members, IsText m.1 ∧ Fits n m.2 := by
    refine ⟨_, rfl, ?_⟩
    cases j.job.lastError <;>
      simp [stringMember, intMember, isText_quote, Fits.string, Fits.number, isNumber_formatInt,
        j.createdAt.isText, j.updatedAt.isText]
  obtain ⟨members, heq, hall⟩ := hmembers
  rw [heq]
  exact .object (fun m hm => (hall m hm).1) fun m hm => (hall m hm).2

theorem parse_toResponse (j : JobRow) : parse (encode (toResponse j)) = some (toResponse j) :=
  parse_encode (fits_toResponse 9999 j)

/-- What is encoded stands on one line. -/
theorem plain_sse {n : ℕ} {event : String} {v : Value} (hne : lit event ≠ [])
    (hevent : OneLine (lit event)) (h : Fits n v) : (sse event v).Plain := by
  refine ⟨hne, hevent, fun b hb => ?_⟩
  have hle := le_of_mem_encode h b hb
  constructor
  · rintro rfl
    exact absurd hle (by decide)
  · rintro rfl
    exact absurd hle (by decide)

theorem plain_goneMessage : goneMessage.Plain := by
  refine plain_sse (n := 1) (by decide) (by decide) (.object ?_ ?_)
  · simp [stringMember, isText_quote]
  · simp [stringMember, isText_quote, Fits.string]

/-- **Every message can be framed**, whatever the texts of the job. -/
theorem plain_pumpEvents (turns : List Turn) : ∀ m ∈ pumpEvents turns, m.Plain := by
  induction turns with
  | nil => exact fun m hm => absurd hm List.not_mem_nil
  | cons t ts ih =>
    unfold pumpEvents
    cases t.answer with
    | none => exact List.forall_mem_singleton.mpr plain_goneMessage
    | some job =>
      refine List.forall_mem_cons.mpr
        ⟨plain_sse (by decide) (by decide) (fits_toResponse 0 job), ?_⟩
      split_ifs
      · exact fun m hm => absurd hm List.not_mem_nil
      · exact List.forall_mem_singleton.mpr
          (plain_sse (by decide) (by decide) (fits_toResponse 0 job))
      · exact ih
      · exact fun m hm => absurd hm List.not_mem_nil

/-! ### Following a stream -/

/-- What the stream ends with, after the progress of the jobs that were polled. -/
inductive Ending : List JobRow → List Message → Prop
  /-- The stream has lasted its time, or the client is gone. -/
  | cut (jobs) : Ending jobs []
  | gone (jobs) : (∀ j ∈ jobs, j.job.status.terminal = false) → Ending jobs [goneMessage]
  | done (jobs) (j : JobRow) : j.job.status.terminal = true →
      Ending (jobs ++ [j]) [sse "done" (toResponse j)]

/-- The messages are the progress of the jobs that were polled, of which only the last can be
terminal, and an ending. -/
theorem pumpEvents_spec (turns : List Turn) :
    ∃ rest, pumpEvents turns = (polled turns).map (fun j => sse "progress" (toResponse j)) ++ rest ∧
      Ending (polled turns) rest ∧
      ∀ j ∈ (polled turns).dropLast, j.job.status.terminal = false := by
  induction turns with
  | nil => exact ⟨[], rfl, .cut _, fun j hj => absurd hj List.not_mem_nil⟩
  | cons t ts ih =>
    obtain ⟨rest, hrest, hend, hopen⟩ := ih
    unfold pumpEvents polled
    cases t.answer with
    | none =>
      exact ⟨[goneMessage], rfl, .gone _ fun j hj => absurd hj List.not_mem_nil,
        fun j hj => absurd hj List.not_mem_nil⟩
    | some job =>
      dsimp only
      -- The loop goes on only where the message went through, the job is open and the ticker fires.
      by_cases hwritten : t.written = false
      · rw [if_pos hwritten, if_pos (Or.inl hwritten)]
        exact ⟨[], rfl, .cut _, fun j hj => absurd hj List.not_mem_nil⟩
      · rw [if_neg hwritten]
        by_cases hterminal : job.job.status.terminal = true
        · rw [if_pos hterminal, if_pos (Or.inr (Or.inl hterminal))]
          exact ⟨_, rfl, .done [] job hterminal, fun j hj => absurd hj List.not_mem_nil⟩
        · rw [if_neg hterminal]
          by_cases htick : t.tick = true
          · rw [if_pos htick, if_neg (by simp [hwritten, hterminal, htick])]
            refine ⟨rest, by rw [hrest]; rfl, ?_, ?_⟩
            · generalize polled ts = jobs at hend
              cases hend with
              | cut => exact .cut _
              | gone _ hjobs =>
                exact .gone _ (List.forall_mem_cons.mpr ⟨by simpa using hterminal, hjobs⟩)
              | done jobs j hj => exact .done (job :: jobs) j hj
            · cases hpolled : polled ts with
              | nil => exact fun j hj => absurd hj List.not_mem_nil
              | cons j js =>
                rw [hpolled] at hopen
                exact List.forall_mem_cons.mpr ⟨by simpa using hterminal, hopen⟩
          · rw [if_neg htick, if_pos (Or.inr (Or.inr (by simpa using htick)))]
            exact ⟨[], rfl, .cut _, fun j hj => absurd hj List.not_mem_nil⟩

/-- The client that has been shown these jobs and has lost nothing. -/
def showing (jobs : List JobRow) : Follower where
  job := jobs.getLast?.map toResponse
  isComplete := jobs.any (·.job.status.terminal)
  usingPolling := false
  listening := !jobs.any (·.job.status.terminal)

/-- One progress event. -/
theorem handle_progress {jobs : List JobRow}
    (h : jobs.any (·.job.status.terminal) = false) (j : JobRow) :
    (showing jobs).handle (sse "progress" (toResponse j)) = showing (jobs ++ [j]) := by
  have hlistening : (showing jobs).listening = true := by rw [showing, h]; rfl
  have hevent : (sse "progress" (toResponse j)).event = lit "progress" := rfl
  have hdata : parse (sse "progress" (toResponse j)).data = some (toResponse j) :=
    parse_toResponse j
  rw [Follower.handle, if_neg (by simp [hlistening]), if_pos (Or.inl hevent), hdata]
  dsimp only
  rw [hevent, saysTerminal_toResponse]
  cases hterminal : j.job.status.terminal with
  | true =>
    rw [if_pos (Or.inr rfl)]
    simp [showing, hterminal]
  | false =>
    rw [if_neg (by decide)]
    simp [showing, hterminal, h]

/-- The progress of jobs of which only the last can be terminal. -/
theorem foldl_progress (jobs : List JobRow)
    (h : ∀ j ∈ jobs.dropLast, j.job.status.terminal = false) :
    (jobs.map fun j => sse "progress" (toResponse j)).foldl Follower.handle .start =
      showing jobs := by
  induction jobs using List.reverseRecOn with
  | nil => rfl
  | append_singleton jobs j ih =>
    rw [List.dropLast_concat] at h
    have hopen : jobs.any (·.job.status.terminal) = false := by
      rw [List.any_eq_false]
      exact fun j hj => by simp [h j hj]
    have hshown := ih fun j hj => h j (List.dropLast_subset _ hj)
    rw [List.map_append, List.foldl_append, hshown]
    exact handle_progress hopen j

/-- What the client shows of the jobs that have reached it. -/
structure Shows (jobs : List JobRow) (c : Follower) : Prop where
  job : c.job = jobs.getLast?.map toResponse
  complete : c.isComplete = true ↔ ∃ j, jobs.getLast? = some j ∧ j.job.status.terminal = true
  /-- It turns to polling only if the import is not complete for it. -/
  polling : c.usingPolling = true → c.isComplete = false

theorem shows_showing {jobs : List JobRow}
    (h : ∀ j ∈ jobs.dropLast, j.job.status.terminal = false) : Shows jobs (showing jobs) := by
  refine ⟨rfl, ?_, fun hpolling => by cases hpolling⟩
  rcases List.eq_nil_or_concat jobs with rfl | ⟨init, j, rfl⟩
  · simp [showing]
  · rw [List.concat_eq_append, List.dropLast_concat] at h
    have hinit : init.any (·.job.status.terminal) = false := by
      rw [List.any_eq_false]
      exact fun j hj => by simp [h j hj]
    simp [showing, hinit]

/-- An ending, where it arrives, leaves what is shown. -/
theorem shows_ending {jobs : List JobRow} {rest : List Message} (hend : Ending jobs rest)
    (h : ∀ j ∈ jobs.dropLast, j.job.status.terminal = false) :
    Shows jobs (rest.foldl Follower.handle (showing jobs)) := by
  have hshows := shows_showing h
  cases hend with
  | cut => exact hshows
  | gone _ hjobs =>
    have hopen : jobs.any (·.job.status.terminal) = false := by
      rw [List.any_eq_false]
      exact fun j hj => by simp [hjobs j hj]
    have hgone : (showing jobs).handle goneMessage =
        { showing jobs with usingPolling := true, listening := false } := by
      have hlistening : (showing jobs).listening = true := by rw [showing, hopen]; rfl
      rw [Follower.handle, if_neg (by simp [hlistening]), if_neg (by decide),
        if_pos (by decide)]
    rw [List.foldl_cons, List.foldl_nil, hgone]
    exact ⟨hshows.job, hshows.complete, fun _ => hopen⟩
  | done init j hj =>
    -- The event source was closed at the progress event before.
    have hclosed : (showing (init ++ [j])).listening = false := by simp [showing, hj]
    rw [List.foldl_cons, List.foldl_nil, Follower.handle, if_pos hclosed]
    exact hshows

/-- **The client shows the last state of which the message has arrived**, whatever their number. -/
theorem shows_take (turns : List Turn) (k : ℕ) :
    Shows ((polled turns).take k) (((pumpEvents turns).take k).foldl Follower.handle .start) := by
  obtain ⟨rest, hmessages, hend, hopen⟩ := pumpEvents_spec turns
  rw [hmessages, List.take_append, ← List.map_take, List.foldl_append, List.length_map]
  have hfirst : ∀ j ∈ ((polled turns).take k).dropLast, j.job.status.terminal = false := by
    intro j hj
    rw [List.dropLast_eq_take, List.take_take] at hj
    refine hopen j (List.dropLast_eq_take ▸ List.take_subset_take_left _ ?_ hj)
    rw [List.length_take]
    omega
  rw [foldl_progress _ hfirst]
  by_cases hk : k ≤ (polled turns).length
  · rw [Nat.sub_eq_zero_of_le hk, List.take_zero]
    exact shows_showing hfirst
  · -- Everything has arrived: the ending has at most one message.
    have hrest : rest.take (k - (polled turns).length) = rest := by
      apply List.take_of_length_le
      have hlength : rest.length ≤ 1 := by
        generalize polled turns = jobs at hend
        cases hend <;> simp
      omega
    rw [hrest, List.take_of_length_le (by omega)]
    exact shows_ending hend hopen

/-- **The client shows the last state that has arrived whole, and takes the import for complete
exactly if that state is terminal**, wherever the stream has been cut off. -/
theorem follow_take (turns : List Turn) (n : ℕ) :
    Shows ((polled turns).take (whole n (pumpEvents turns)).length)
      (follow ((streamBytes turns).take n)) := by
  have hread : read ((streamBytes turns).take n) =
      (pumpEvents turns).take (whole n (pumpEvents turns)).length := by
    rw [streamBytes, read_take (plain_pumpEvents turns)]
    exact (List.prefix_iff_eq_take.mp (whole_isPrefixOf n _))
  rw [follow, hread]
  exact shows_take turns _

/-- An import of one row as the store has it at a poll. -/
def polledAs (job : ImportJob) : JobRow where
  id := someJobID
  fileName := lit "pens.csv"
  job := job
  createdAt := .ofTimestamp 1767225600000000000 (by decide)
  updatedAt := .ofTimestamp 1767225601000000000 (by decide)

/-- Two polls: the row is published, and it has arrived. -/
def twoPolls : List Turn :=
  [⟨some (polledAs { status := .processing, totalRows := 1, validRows := 1, publishedRows := 1 }),
      true, true⟩,
    ⟨some (polledAs { status := .completed, totalRows := 1, validRows := 1, publishedRows := 1
                      processedRows := 1 }), true, true⟩]

/-- A stream that is lost five bytes into its second message, and one that is not lost. -/
theorem follow_take_completed :
    (∃ m ms, pumpEvents twoPolls = m :: ms ∧
      (follow ((streamBytes twoPolls).take ((frame m).length + 5))).isComplete = false) ∧
    (follow ((streamBytes twoPolls).take (streamBytes twoPolls).length)).isComplete = true := by
  constructor
  · refine ⟨_, _, rfl, ?_⟩
    -- Five bytes do not hold a second message, whatever it is.
    have hcut : ∀ (m : Message) (ms : List Message),
        whole ((frame m).length + 5) (m :: ms) = [m] := by
      intro m ms
      rw [whole, if_pos (Nat.le_add_right _ _), Nat.add_sub_cancel_left]
      cases ms with
      | nil => rfl
      | cons m' ms => rw [whole, if_neg (by simp [frame, fieldLine, eventField])]
    rw [← Bool.not_eq_true, (follow_take twoPolls _).complete]
    rintro ⟨j, hj, hterminal⟩
    rw [show whole _ (pumpEvents twoPolls) = [_] from hcut _ _] at hj
    obtain rfl := Option.some.inj hj
    cases hterminal
  · rw [(follow_take twoPolls _).complete, streamBytes, whole_length]
    exact ⟨_, rfl, rfl⟩

/-- **Of a stream that arrives whole**, nothing is missing. -/
theorem follow_streamBytes (turns : List Turn) :
    Shows (polled turns) (follow (streamBytes turns)) := by
  have hshows := shows_take turns (pumpEvents turns).length
  have hlength : (polled turns).length ≤ (pumpEvents turns).length := by
    obtain ⟨rest, hmessages, -⟩ := pumpEvents_spec turns
    rw [hmessages, List.length_append, List.length_map]
    exact Nat.le_add_right _ _
  rw [List.take_length, List.take_of_length_le hlength] at hshows
  rwa [follow, streamBytes, read_frames (plain_pumpEvents turns)]

end CsvProductUploader.LiveProgress

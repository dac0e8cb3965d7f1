import CsvProductUploader.ImportJob.Csv
import CsvProductUploader.ImportJob.Process
import CsvProductUploader.Lib.Runs
import CsvProductUploader.Lib.Update
import Mathlib.Data.List.DropRight

/-!
# Uploads and their files

`createImport` spools the file part of a multipart upload and hands the file to the import
it starts.  Any number of requests, each with its import, share the upload directory with
whatever else uses it.  Every call of a request to the disk or the job store may fail, the
removal of a file included, and its import runs as soon as it is launched.

## Main definitions

* `Part`, `Body`, `Input` — what a request brings.
* `Pc`, `Request`, `Action`, `act` — `createImport` and its import between two calls.
* `State`, `Label`, `step` — the requests over one directory.
* `Request.held` — the file that the request or its import has yet to remove.
* `Account` — a request has spooled nothing, holds its file, or has asked to remove it.
* `Sound` — the directory has of each request what its account says.

## Main results

* `act_spec` — what one step does to the request's file.
* `sound_step` — the accounts are kept.
* `others_kept` — no request touches a file that is not its own.
* `uploads_owned` — who has a file, once a request is answered; `uploads_owned_both` — a run to
  either answer.
* `not_tidy` — a file that stays behind an error, and one that is gone before the 202.
-/

namespace CsvProductUploader

namespace Upload

open Runs Update

/-! ### The request -/

/-- A part of the body. -/
structure Part where
  formName : GoString
  fileName : GoString
  body : GoString
  /-- The error that reading the part ends with, if any. -/
  err : Option String
  deriving DecidableEq, Repr

structure Body where
  parts : List Part
  /-- The error of `NextPart` behind the parts, unless it is an `io.EOF`. -/
  err : Option String
  deriving DecidableEq, Repr

structure Input where
  /-- The media type, unless `mime.ParseMediaType` fails. -/
  mediaType : Option GoString
  body : Option Body
  deriving DecidableEq, Repr

/-- An error answer. -/
structure Failure where
  status : ℕ
  text : String
  deriving DecidableEq, Repr

inductive Response
  | error (f : Failure)
  | accepted (jobID fileName : GoString)
  deriving DecidableEq, Repr

/-- The errors of `savePart`. -/
inductive SaveError
  /-- `creating temp file: %w` -/
  | creating (err : String)
  /-- `storing upload: %w` -/
  | storing (copyErr closeErr : Option String)
  /-- `errUploadTooLarge` -/
  | tooLarge
  deriving DecidableEq, Repr

/-- `HTTPHandler.uploadError` -/
def uploadError : SaveError → Failure
  | .tooLarge => ⟨413, "upload exceeds the configured size limit"⟩
  | .creating _ | .storing _ _ => ⟨500, "storing the uploaded file failed"⟩

/-- `filepath.Base` -/
def base (path : GoString) : GoString :=
  if path = [] then lit "."
  else if path.rdropWhile (· = 0x2F) = [] then lit "/"
  else (path.rdropWhile (· = 0x2F)).rtakeWhile (· ≠ 0x2F)

/-- `readField` -/
def readField (part : Part) (limit : ℕ) : GoString := part.body.take limit

def defaultMerchantID : GoString := lit "default"

def defaultCurrency : GoString := lit "USD"

def defaultMerchant (merchant : GoString) : GoString :=
  if merchant = [] then defaultMerchantID else merchant

/-- `HandlerConfig` and what the service is built with. -/
structure Config where
  maxUploadBytes : ℤ
  flushEvery : ℕ
  deriving DecidableEq, Repr

/-- `NewHTTPHandler`: a limit that is not positive means the default. -/
def Config.limit (cfg : Config) : ℤ :=
  if cfg.maxUploadBytes ≤ 0 then 512 * 2 ^ 20 else cfg.maxUploadBytes

/-! ### One request -/

/-- What `process` has deferred. -/
inductive Deferred
  /-- `cancel()` -/
  | cancel
  /-- `os.Remove(filePath)` -/
  | remove
  /-- `file.Close()` -/
  | close
  deriving DecidableEq, Repr

/-- The import that `StartImport` has launched. -/
structure Import where
  filePath : GoString
  opts : StreamOptions
  /-- The deferred calls, the one that runs first in front. -/
  deferred : List Deferred
  g : Goroutine
  deriving DecidableEq, Repr

/-- Where `createImport` stands. -/
inductive Pc
  /-- At `NextPart`. -/
  | parsing
  /-- In `savePart`, at `os.CreateTemp`. -/
  | creating (part : Part)
  /-- In `savePart`, at `io.Copy`. -/
  | copying (part : Part) (path : GoString)
  /-- In `savePart`, at `f.Close`. -/
  | closing (part : Part) (path : GoString) (copyErr : Option String)
  /-- In `savePart`, at `os.Remove`. -/
  | discarding (path : GoString) (f : Failure)
  /-- In `cleanup`, at `os.Remove`. -/
  | cleaning (path : GoString) (f : Failure)
  /-- In `StartImport`, at `store.Create`. -/
  | starting
  /-- At the answer. -/
  | answering (a : Response)
  | answered (a : Response)
  deriving DecidableEq, Repr

structure Request where
  /-- The parts still to come. -/
  parts : List Part
  err : Option String
  tmpPath : GoString := []
  fileName : GoString := []
  merchant : GoString := []
  pc : Pc
  process : Option Import := none
  /-- The files that `os.CreateTemp` has made for the request. -/
  created : List GoString := []
  /-- The calls of `os.Remove`, with their errors. -/
  removals : List (GoString × Option String) := []
  deriving DecidableEq, Repr

/-- `cleanup`, in front of an error answer. -/
def Request.cleanup (q : Request) (f : Failure) : Request :=
  { q with pc := if q.tmpPath ≠ [] then .cleaning q.tmpPath f else .answering (.error f) }

/-- `createImport` up to the loop over the parts. -/
def Request.start (input : Input) : Request :=
  if input.mediaType ≠ some (lit "multipart/form-data") then
    { parts := [], err := none
      pc := .answering (.error ⟨400, "content type must be multipart/form-data"⟩) }
  else
    match input.body with
    | none => { parts := [], err := none
                pc := .answering (.error ⟨400, "request body is required"⟩) }
    | some body => { parts := body.parts, err := body.err, pc := .parsing }

/-- One turn of the loop over the parts, and what follows the loop. -/
def Request.nextPart (q : Request) : Request :=
  match q.parts with
  | [] =>
    match q.err with
    | some _ => q.cleanup ⟨400, "malformed multipart body"⟩
    | none =>
      if q.tmpPath = [] then { q with pc := .answering (.error ⟨400, "file part is required"⟩) }
      else { q with pc := .starting }
  | part :: parts =>
    if part.formName = lit "file" ∧ part.fileName ≠ [] then
      if q.tmpPath ≠ [] then { q with parts }.cleanup ⟨400, "only one file part is allowed"⟩
      else { q with parts, pc := .creating part }
    else if part.formName = lit "merchant_id" then
      { q with parts, merchant := trimSpace (readField part 256) }
    else { q with parts }

/-- Whose file it is. -/
inductive Owner
  | other
  | request (r : ℕ)
  deriving DecidableEq, Repr

/-- The files of the upload directory. -/
abbrev Dir := GoString → Option Owner

/-- The directory after `os.Remove`. -/
def Dir.remove (dir : Dir) (path : GoString) (err : Option String) : Dir :=
  if err = none then Function.update dir path none else dir

inductive Action
  /-- `NextPart` returns, and the part is read unless it is the file. -/
  | next
  /-- `os.CreateTemp` returns: the path of a new file, or an error. -/
  | createTemp (res : Except String GoString)
  /-- `io.Copy` returns, with an error of its own if the disk fails. -/
  | copy (diskErr : Option String)
  /-- `f.Close` returns. -/
  | close (err : Option String)
  /-- The handler's `os.Remove` returns. -/
  | remove (err : Option String)
  /-- `store.Create` returns: the job id, or an error.  `file` is what `Stream` makes of the
  file. -/
  | create (res : Except String GoString) (file : File)
  | answer
  /-- A call of `process` is answered. -/
  | process (a : Answer)
  /-- `process` has returned, and the next of its deferred calls does. -/
  | unwind (err : Option String)

/-- `go s.process(job.ID, filePath, opts)`, with the calls that are deferred before
`os.Open`. -/
def Import.start (cfg : Config) (q : Request) (file : File) : Import where
  filePath := q.tmpPath
  opts := ⟨defaultMerchant q.merchant, defaultCurrency⟩
  deferred := [.remove, .cancel]
  g := .start cfg.flushEvery file

/-- `process` up to its next call; once `os.Open` has succeeded, `file.Close` is deferred. -/
def Import.resume (i : Import) (a : Answer) : Option Import :=
  (i.g.resume a).map fun g =>
    { i with
      g
      deferred := match i.g.pc, a with
        | .opening, .ok => .close :: i.deferred
        | _, _ => i.deferred }

/-- One step of the request `r`, and the directory after it. -/
def act (cfg : Config) (r : ℕ) (dir : Dir) (q : Request) : Action → Option (Request × Dir)
  | .next =>
    match q.pc with
    | .parsing => some (q.nextPart, dir)
    | _ => none
  | .createTemp res =>
    match q.pc, res with
    | .creating _, .error err =>
      some ({ q with pc := .answering (.error (uploadError (.creating err))) }, dir)
    | .creating part, .ok path =>
      if path ≠ [] ∧ dir path = none then
        some ({ q with pc := .copying part path, created := q.created ++ [path] },
          Function.update dir path (some (.request r)))
      else none
    | _, _ => none
  | .copy diskErr =>
    match q.pc with
    | .copying part path => some ({ q with pc := .closing part path (diskErr <|> part.err) }, dir)
    | _ => none
  | .close closeErr =>
    match q.pc with
    | .closing part path copyErr =>
      if copyErr ≠ none ∨ closeErr ≠ none then
        some ({ q with pc := .discarding path (uploadError (.storing copyErr closeErr)) }, dir)
      else if cfg.limit < part.body.length then
        some ({ q with pc := .discarding path (uploadError .tooLarge) }, dir)
      else
        some ({ q with pc := .parsing, tmpPath := path, fileName := base part.fileName }, dir)
    | _ => none
  | .remove err =>
    match q.pc with
    | .discarding path f | .cleaning path f =>
      some ({ q with pc := .answering (.error f), removals := q.removals ++ [(path, err)] },
        dir.remove path err)
    | _ => none
  | .create res file =>
    match q.pc, res with
    | .starting, .error _ => some (q.cleanup ⟨500, "starting the import failed"⟩, dir)
    | .starting, .ok id =>
      some ({ q with pc := .answering (.accepted id (base q.fileName))
                     process := some (.start cfg q file) }, dir)
    | _, _ => none
  | .answer =>
    match q.pc with
    | .answering a => some ({ q with pc := .answered a }, dir)
    | _ => none
  | .process a =>
    q.process.bind fun i => (i.resume a).map fun i' => ({ q with process := some i' }, dir)
  | .unwind err =>
    q.process.bind fun i =>
      match i.g.pc, i.deferred with
      | .returned, .remove :: deferred =>
        some ({ q with process := some { i with deferred }
                       removals := q.removals ++ [(i.filePath, err)] },
          dir.remove i.filePath err)
      | .returned, _ :: deferred => some ({ q with process := some { i with deferred } }, dir)
      | _, _ => none

/-! ### The requests -/

structure State where
  dir : Dir
  requests : ℕ → Option Request

inductive Label
  /-- A request arrives. -/
  | arrive (r : ℕ) (input : Input)
  | act (r : ℕ) (a : Action)
  /-- Something else makes or removes a file of its own. -/
  | other (path : GoString)

/-- No request has arrived; the directory may hold files of others. -/
def initial (others : List GoString) : State where
  dir := fun path => if path ∈ others then some .other else none
  requests := fun _ => none

def step (cfg : Config) (s : State) : Label → Option State
  | .arrive r input =>
    if s.requests r = none then
      some { s with requests := Function.update s.requests r (some (.start input)) }
    else none
  | .act r a =>
    (s.requests r).bind fun q => (act cfg r s.dir q a).map fun o =>
      { dir := o.2, requests := Function.update s.requests r (some o.1) }
  | .other path =>
    match s.dir path with
    | none => some { s with dir := Function.update s.dir path (some .other) }
    | some .other => some { s with dir := Function.update s.dir path none }
    | some (.request _) => none

/-! ### The file of a request -/

/-- The file that the request or its import has yet to remove. -/
def Request.held (q : Request) : Option GoString :=
  match q.pc with
  | .parsing | .creating _ | .starting => if q.tmpPath ≠ [] then some q.tmpPath else none
  | .copying _ path | .closing _ path _ | .discarding path _ | .cleaning path _ => some path
  | .answering _ | .answered _ =>
    q.process.bind fun i => if .remove ∈ i.deferred then some i.filePath else none

/-- What a request holds, has created and has asked to remove. -/
inductive Account : Option GoString → List GoString → List (GoString × Option String) → Prop
  | blank : Account none [] []
  | held (path : GoString) : Account (some path) [path] []
  | removed (path : GoString) (err : Option String) : Account none [path] [(path, err)]

theorem Account.created_of_held {path : GoString} {created : List GoString}
    {removals : List (GoString × Option String)} (h : Account (some path) created removals) :
    created = [path] := by
  cases h with
  | held path => rfl

/-- The deferred calls that are left, and `os.Remove` with them until `process` returns. -/
structure Import.Deferring (i : Import) : Prop where
  suffix : i.deferred <:+ [.close, .remove, .cancel]
  opening : i.g.pc = .opening → i.deferred = [.remove, .cancel]
  running : i.g.pc ≠ .returned → .remove ∈ i.deferred

/-- What the handler's program counter says of the rest of the request. -/
def Pc.Fits (q : Request) : Pc → Prop
  | .parsing | .discarding _ _ | .cleaning _ _ => q.process = none ∧ q.removals = []
  | .creating _ => q.process = none ∧ q.removals = [] ∧ q.tmpPath = []
  | .copying _ path | .closing _ path _ => q.process = none ∧ q.removals = [] ∧ path ≠ []
  | .starting => q.process = none ∧ q.removals = [] ∧ q.tmpPath ≠ []
  | .answering (.error _) | .answered (.error _) => q.process = none
  | .answering (.accepted _ _) | .answered (.accepted _ _) =>
    ∃ i, q.process = some i ∧ i.Deferring ∧ q.created = [i.filePath]

/-- What one step does to the file of the request. -/
inductive Effect (r : ℕ) (dir : Dir) (q q' : Request) : Dir → Prop
  | keep : q'.held = q.held → q'.created = q.created → q'.removals = q.removals →
      Effect r dir q q' dir
  | spool {path : GoString} : dir path = none → q.held = none → q.removals = [] →
      q'.held = some path → q'.created = q.created ++ [path] → q'.removals = q.removals →
      Effect r dir q q' (Function.update dir path (some (.request r)))
  | remove {path : GoString} {err : Option String} : q.held = some path → q'.held = none →
      q'.created = q.created → q'.removals = q.removals ++ [(path, err)] →
      Effect r dir q q' (dir.remove path err)

section
variable {cfg : Config} {r : ℕ} {dir dir' : Dir} {q q' : Request} {a : Action}

/-- `process` does not come back to `os.Open`, and is not called on once it has returned. -/
theorem pc_of_resume {g g' : Goroutine} {a : Answer} (h : g.resume a = some g') :
    g'.pc ≠ .opening ∧ g.pc ≠ .returned := by
  revert h
  fun_cases Goroutine.resume g a
  all_goals intro h
  all_goals simp only [Option.some.injEq, reduceCtorEq] at h
  all_goals subst h
  all_goals refine ⟨?_, by simp [*]⟩
  all_goals dsimp only
  all_goals first | exact CsvProductUploader.Pc.noConfusion | (split_ifs <;> simp)

/-- Answering `process` keeps its deferred calls. -/
theorem Import.Deferring.resume {i i' : Import} {a : Answer} (hi : i.Deferring)
    (h : i.resume a = some i') :
    i'.Deferring ∧ i'.filePath = i.filePath ∧ .remove ∈ i.deferred ∧ .remove ∈ i'.deferred := by
  obtain ⟨g, hg, rfl⟩ := Option.map_eq_some_iff.mp h
  obtain ⟨hopening, hreturned⟩ := pc_of_resume hg
  have hmem := hi.running hreturned
  dsimp only
  split
  · next hpc =>
    rw [hi.opening hpc]
    exact ⟨⟨List.suffix_refl _, fun hg => absurd hg hopening, fun _ => by simp⟩, rfl, by simp,
      by simp⟩
  · exact ⟨⟨hi.suffix, fun hg => absurd hg hopening, fun _ => hmem⟩, rfl, hmem, hmem⟩

/-- Once `os.Remove` has run it is not deferred any more. -/
theorem Import.Deferring.unwind {i : Import} {d : Deferred} {deferred : List Deferred}
    (hi : i.Deferring) (hg : i.g.pc = .returned) (h : i.deferred = d :: deferred) :
    Import.Deferring { i with deferred } ∧ (d = .remove → .remove ∉ deferred) := by
  have hsuffix : d :: deferred <:+ [.close, .remove, .cancel] := h ▸ hi.suffix
  refine ⟨⟨(List.suffix_cons d deferred).trans hsuffix, fun hpc => ?_,
    fun hpc => absurd hg hpc⟩, ?_⟩
  · rw [hg] at hpc
    cases hpc
  · rintro rfl
    simp only [List.suffix_cons_iff, List.cons.injEq, reduceCtorEq, false_and, true_and,
      List.suffix_nil, or_false, false_or] at hsuffix
    rw [hsuffix]
    decide

/-- `cleanup` is about to remove the file that has been spooled, if there is one. -/
theorem cleanup_spec {f : Failure} (hprocess : q.process = none) (hremovals : q.removals = [])
    (hheld : q.held = if q.tmpPath ≠ [] then some q.tmpPath else none) :
    (q.cleanup f).pc.Fits (q.cleanup f) ∧ (q.cleanup f).held = q.held := by
  unfold Request.cleanup
  by_cases hpath : q.tmpPath ≠ []
  · rw [if_pos hpath] at hheld ⊢
    exact ⟨⟨hprocess, hremovals⟩, hheld.symm⟩
  · rw [if_neg hpath] at hheld ⊢
    refine ⟨hprocess, ?_⟩
    rw [hheld, Request.held, hprocess]
    rfl

theorem held_of_parsing (hpc : q.pc = .parsing) :
    q.held = if q.tmpPath ≠ [] then some q.tmpPath else none := by rw [Request.held, hpc]

/-- A turn of the loop over the parts leaves the file where it is. -/
theorem nextPart_spec (hpc : q.pc = .parsing) (hfits : q.pc.Fits q) :
    q.nextPart.pc.Fits q.nextPart ∧ q.nextPart.held = q.held ∧ q.nextPart.created = q.created ∧
      q.nextPart.removals = q.removals := by
  rw [hpc] at hfits
  obtain ⟨hprocess, hremovals⟩ := hfits
  have hheld := held_of_parsing hpc
  unfold Request.nextPart
  split
  · split
    · obtain ⟨hfits, hsame⟩ := cleanup_spec hprocess hremovals hheld
      exact ⟨hfits, hsame, rfl, rfl⟩
    · split
      · next hpath =>
        refine ⟨hprocess, ?_, rfl, rfl⟩
        rw [hheld, if_neg (not_not.mpr hpath), Request.held, hprocess]
        rfl
      · next hpath => exact ⟨⟨hprocess, hremovals, hpath⟩, hheld.symm, rfl, rfl⟩
  · next part parts _ =>
    -- What is read of the body is no part of the account.
    have hrest : ∀ merchant, Request.held { q with parts, merchant } = q.held := by
      intro merchant
      rw [hheld]
      exact held_of_parsing hpc
    split
    · split
      · obtain ⟨hfits, hsame⟩ := cleanup_spec (q := { q with parts })
          (f := ⟨400, "only one file part is allowed"⟩) hprocess hremovals (held_of_parsing hpc)
        exact ⟨hfits, hsame.trans (hrest q.merchant), rfl, rfl⟩
      · next hpath => exact ⟨⟨hprocess, hremovals, not_not.mp hpath⟩, hheld.symm, rfl, rfl⟩
    · split
      · exact ⟨by simp only [hpc]; exact ⟨hprocess, hremovals⟩, hrest _, rfl, rfl⟩
      · exact ⟨by simp only [hpc]; exact ⟨hprocess, hremovals⟩, hrest q.merchant, rfl, rfl⟩

/-- A request has an import once the answer is that it is accepted. -/
theorem Pc.Fits.of_process {i : Import} (h : q.pc.Fits q) (hi : q.process = some i) :
    i.Deferring ∧ q.created = [i.filePath] ∧ ∃ id name,
      q.pc = .answering (.accepted id name) ∨ q.pc = .answered (.accepted id name) := by
  -- A request has a process only once its answer is decided, and that answer is a 202.
  cases hpc : q.pc with
  | answering ans =>
    rw [hpc] at h
    cases ans with
    | error f =>
      have hnone : q.process = none := h
      rw [hi] at hnone
      cases hnone
    | accepted id name =>
      obtain ⟨i', hi', hdef, hcreated⟩ := h
      obtain rfl := Option.some.inj (hi.symm.trans hi')
      exact ⟨hdef, hcreated, id, name, Or.inl rfl⟩
  | answered ans =>
    rw [hpc] at h
    cases ans with
    | error f =>
      have hnone : q.process = none := h
      rw [hi] at hnone
      cases hnone
    | accepted id name =>
      obtain ⟨i', hi', hdef, hcreated⟩ := h
      obtain rfl := Option.some.inj (hi.symm.trans hi')
      exact ⟨hdef, hcreated, id, name, Or.inr rfl⟩
  | _ =>
    rw [hpc] at h
    rw [h.1] at hi
    cases hi

/-- The import that is launched takes the file over. -/
theorem launch_spec (hpc : q.pc = .starting) (hfits : q.pc.Fits q)
    (ha : Account q.held q.created q.removals) (cfg : Config) (file : File) (id name : GoString) :
    Pc.Fits { q with pc := .answering (.accepted id name), process := some (.start cfg q file) }
        (.answering (.accepted id name)) ∧
      Request.held { q with
        pc := .answering (.accepted id name), process := some (.start cfg q file) } = q.held := by
  rw [hpc] at hfits
  obtain ⟨-, -, hpath⟩ := hfits
  have hheld : q.held = some q.tmpPath := by rw [Request.held, hpc, if_pos hpath]
  refine ⟨⟨_, rfl, ⟨List.suffix_cons _ _, fun _ => rfl, fun _ => ?_⟩, ?_⟩, ?_⟩
  · simp [Import.start]
  · rw [hheld] at ha
    exact ha.created_of_held
  · rw [hheld]
    simp [Request.held, Import.start]

theorem held_of_process {i : Import} (hfits : q.pc.Fits q) (hi : q.process = some i) :
    q.held = if .remove ∈ i.deferred then some i.filePath else none := by
  obtain ⟨-, -, id, name, hpc⟩ := hfits.of_process hi
  rcases hpc with hpc | hpc <;> rw [Request.held, hpc, hi, Option.bind_some]

/-- The import may be replaced by one that fits. -/
theorem Pc.Fits.with_process {i i' : Import} (hfits : q.pc.Fits q) (hi : q.process = some i)
    (hdef : i'.Deferring) (hpath : i'.filePath = i.filePath)
    (removals : List (GoString × Option String)) :
    Pc.Fits { q with process := some i', removals } q.pc := by
  obtain ⟨-, hcreated, id, name, hpc⟩ := hfits.of_process hi
  rcases hpc with hpc | hpc
  all_goals
    rw [hpc]
    exact ⟨i', rfl, hdef, hpath ▸ hcreated⟩

/-- While `process` runs, the file is its own. -/
theorem resume_spec {i i' : Import} {a : Answer} (hfits : q.pc.Fits q) (hi : q.process = some i)
    (h : i.resume a = some i') :
    Pc.Fits { q with process := some i' } q.pc ∧
      Request.held { q with process := some i' } = q.held := by
  obtain ⟨hdef, -⟩ := hfits.of_process hi
  obtain ⟨hdef', hpath, hmem, hmem'⟩ := hdef.resume h
  have hfits' := hfits.with_process hi hdef' hpath q.removals
  refine ⟨hfits', ?_⟩
  rw [held_of_process hfits hi, if_pos hmem, held_of_process hfits' rfl, if_pos hmem', hpath]

/-- A deferred call of `process` has run: with `os.Remove` the file is given up. -/
theorem unwind_spec {i : Import} {d : Deferred} {deferred : List Deferred}
    {removals : List (GoString × Option String)} (hfits : q.pc.Fits q) (hi : q.process = some i)
    (hg : i.g.pc = .returned) (h : i.deferred = d :: deferred) :
    Pc.Fits { q with process := some { i with deferred }, removals } q.pc ∧
      (d = .remove → q.held = some i.filePath ∧
        Request.held { q with process := some { i with deferred }, removals } = none) ∧
      (d ≠ .remove →
        Request.held { q with process := some { i with deferred }, removals } = q.held) := by
  obtain ⟨hdef, -⟩ := hfits.of_process hi
  obtain ⟨hdef', hgone⟩ := hdef.unwind hg h
  have hfits' := hfits.with_process hi hdef' rfl removals
  rw [held_of_process hfits hi, held_of_process hfits' rfl, h]
  refine ⟨hfits', fun hd => ⟨?_, if_neg (hgone hd)⟩, fun hd => ?_⟩
  · rw [hd, if_pos List.mem_cons_self]
  · simp only [List.mem_cons, Ne.symm hd, false_or]

/-- **What one step does to the file of the request.** -/
theorem act_spec (hfits : q.pc.Fits q) (ha : Account q.held q.created q.removals)
    (h : act cfg r dir q a = some (q', dir')) :
    q'.pc.Fits q' ∧ Effect r dir q q' dir' := by
  -- What a step does to the file is one of three effects: none, creating it, removing it.
  cases a with
  | next =>
    simp only [act] at h
    split at h
    · next hpc =>
      obtain ⟨rfl, rfl⟩ := Prod.mk.inj (Option.some.inj h)
      obtain ⟨hfits', hheld, hcreated, hremovals⟩ := nextPart_spec hpc hfits
      exact ⟨hfits', .keep hheld hcreated hremovals⟩
    · cases h
  | createTemp res =>
    simp only [act] at h
    split at h
    · next part err hpc =>
      obtain ⟨rfl, rfl⟩ := Prod.mk.inj (Option.some.inj h)
      rw [hpc] at hfits
      obtain ⟨hprocess, hremovals, hpath⟩ := hfits
      refine ⟨hprocess, .keep ?_ rfl rfl⟩
      simp [Request.held, hpc, hpath, hprocess]
    · next part path hpc =>
      split at h
      · next hnew =>
        obtain ⟨rfl, rfl⟩ := Prod.mk.inj (Option.some.inj h)
        rw [hpc] at hfits
        obtain ⟨hprocess, hremovals, hpath⟩ := hfits
        refine ⟨⟨hprocess, hremovals, hnew.1⟩, .spool hnew.2 ?_ hremovals rfl rfl rfl⟩
        simp [Request.held, hpc, hpath]
      · cases h
    · cases h
  | copy diskErr =>
    simp only [act] at h
    split at h
    · next part path hpc =>
      obtain ⟨rfl, rfl⟩ := Prod.mk.inj (Option.some.inj h)
      rw [hpc] at hfits
      exact ⟨hfits, .keep (by simp [Request.held, hpc]) rfl rfl⟩
    · cases h
  | close closeErr =>
    simp only [act] at h
    split at h
    · next part path copyErr hpc =>
      rw [hpc] at hfits
      obtain ⟨hprocess, hremovals, hpath⟩ := hfits
      split at h
      · obtain ⟨rfl, rfl⟩ := Prod.mk.inj (Option.some.inj h)
        exact ⟨⟨hprocess, hremovals⟩, .keep (by simp [Request.held, hpc]) rfl rfl⟩
      · split at h
        · obtain ⟨rfl, rfl⟩ := Prod.mk.inj (Option.some.inj h)
          exact ⟨⟨hprocess, hremovals⟩, .keep (by simp [Request.held, hpc]) rfl rfl⟩
        · obtain ⟨rfl, rfl⟩ := Prod.mk.inj (Option.some.inj h)
          exact ⟨⟨hprocess, hremovals⟩, .keep (by simp [Request.held, hpc, hpath]) rfl rfl⟩
    · cases h
  | remove err =>
    simp only [act] at h
    split at h
    · next path f hpc =>
      obtain ⟨rfl, rfl⟩ := Prod.mk.inj (Option.some.inj h)
      rw [hpc] at hfits
      refine ⟨hfits.1, .remove (by simp [Request.held, hpc]) ?_ rfl rfl⟩
      simp [Request.held, hfits.1]
    · next path f hpc =>
      obtain ⟨rfl, rfl⟩ := Prod.mk.inj (Option.some.inj h)
      rw [hpc] at hfits
      refine ⟨hfits.1, .remove (by simp [Request.held, hpc]) ?_ rfl rfl⟩
      simp [Request.held, hfits.1]
    · cases h
  | create res file =>
    simp only [act] at h
    split at h
    · next err hpc =>
      obtain ⟨rfl, rfl⟩ := Prod.mk.inj (Option.some.inj h)
      rw [hpc] at hfits
      obtain ⟨hfits', hheld⟩ := cleanup_spec (f := ⟨500, "starting the import failed"⟩) hfits.1
        hfits.2.1 (by rw [Request.held, hpc])
      exact ⟨hfits', .keep hheld rfl rfl⟩
    · next id hpc =>
      obtain ⟨rfl, rfl⟩ := Prod.mk.inj (Option.some.inj h)
      obtain ⟨hfits', hheld⟩ := launch_spec hpc hfits ha cfg file id (base q.fileName)
      exact ⟨hfits', .keep hheld rfl rfl⟩
    · cases h
  | answer =>
    simp only [act] at h
    split at h
    · next ans hpc =>
      obtain ⟨rfl, rfl⟩ := Prod.mk.inj (Option.some.inj h)
      rw [hpc] at hfits
      refine ⟨?_, .keep (by simp [Request.held, hpc]) rfl rfl⟩
      cases ans with
      | error f => exact hfits
      | accepted id name => exact hfits
    · cases h
  | process a =>
    simp only [act, Option.bind_eq_some_iff, Option.map_eq_some_iff] at h
    obtain ⟨i, hi, i', hi', heq⟩ := h
    obtain ⟨rfl, rfl⟩ := Prod.mk.inj heq
    obtain ⟨hfits', hheld⟩ := resume_spec hfits hi hi'
    exact ⟨hfits', .keep hheld rfl rfl⟩
  | unwind err =>
    simp only [act, Option.bind_eq_some_iff] at h
    obtain ⟨i, hi, h⟩ := h
    split at h
    · next deferred hg hdeferred =>
      obtain ⟨rfl, rfl⟩ := Prod.mk.inj (Option.some.inj h)
      obtain ⟨hfits', hremove, -⟩ := unwind_spec hfits hi hg hdeferred
      obtain ⟨hheld, hheld'⟩ := hremove rfl
      exact ⟨hfits', .remove hheld hheld' rfl rfl⟩
    · -- The other deferred calls leave the file alone.
      next d deferred hne hg hdeferred =>
      obtain ⟨rfl, rfl⟩ := Prod.mk.inj (Option.some.inj h)
      obtain ⟨hfits', -, hkeep⟩ := unwind_spec hfits hi hg hdeferred
      exact ⟨hfits', .keep (hkeep hne) rfl rfl⟩
    · cases h

/-- A request has at most one file, and asks once at most to remove it. -/
theorem Effect.account (h : Effect r dir q q' dir')
    (ha : Account q.held q.created q.removals) : Account q'.held q'.created q'.removals := by
  cases h with
  | keep hheld hcreated hremovals => rwa [hheld, hcreated, hremovals]
  | @spool path hnew hnone hremovals hheld hcreated hkeep =>
    rw [hheld, hcreated, hkeep, hremovals]
    rw [hnone, hremovals] at ha
    generalize q.created = created at ha ⊢
    cases ha
    exact .held path
  | @remove path err hheld hnone hcreated hremovals =>
    rw [hnone, hcreated, hremovals]
    rw [hheld] at ha
    generalize q.created = created at ha ⊢
    generalize q.removals = removals at ha ⊢
    cases ha
    exact .removed path err

/-- The directory holds the files that the request has created and not removed. -/
def Listed (r : ℕ) (dir : Dir) (q : Request) : Prop :=
  ∀ path, dir path = some (.request r) ↔ path ∈ q.created ∧ (path, none) ∉ q.removals

theorem Effect.listed (h : Effect r dir q q' dir')
    (ha : Account q.held q.created q.removals) (hd : Listed r dir q) : Listed r dir' q' := by
  intro p
  cases h with
  | keep hheld hcreated hremovals =>
    rw [hcreated, hremovals]
    exact hd p
  | @spool path hnew hnone hremovals hheld hcreated hkeep =>
    rw [hcreated, hkeep, hremovals]
    by_cases hp : p = path
    · subst hp
      simp
    · rw [Function.update_of_ne hp, hd p, hremovals]
      simp [hp]
  | @remove path err hheld hnone hcreated hremovals =>
    rw [hcreated, hremovals]
    have hold := hd p
    rw [hheld] at ha
    generalize q.created = created at ha hold ⊢
    generalize q.removals = removals at ha hold ⊢
    -- The account says which files were created, so the one removed is the only one.
    cases ha
    unfold Dir.remove
    split
    · next herr =>
      subst herr
      by_cases hp : p = path
      · subst hp
        simp
      · rw [Function.update_of_ne hp, hold]
        simp [hp]
    · next herr =>
      rw [hold]
      simp [Ne.symm herr]

/-- No other file is touched. -/
theorem Effect.frame (h : Effect r dir q q' dir') (ha : Account q.held q.created q.removals)
    (hd : Listed r dir q) {o : Owner} (ho : o ≠ .request r) (p : GoString) :
    dir' p = some o ↔ dir p = some o := by
  cases h with
  | keep => exact Iff.rfl
  | @spool path hnew =>
    by_cases hp : p = path
    · subst hp
      simp [hnew, Ne.symm ho]
    · rw [Function.update_of_ne hp]
  | @remove path err hheld =>
    have hown := hd path
    rw [hheld] at ha
    generalize q.created = created at ha hown
    generalize q.removals = removals at ha hown
    cases ha
    -- What is removed is the request's own file.
    have hmine : dir path = some (.request r) := hown.mpr (by simp)
    unfold Dir.remove
    split
    · by_cases hp : p = path
      · subst hp
        simp [hmine, Ne.symm ho]
      · rw [Function.update_of_ne hp]
    · exact Iff.rfl

end

/-! ### All requests -/

/-- The directory has of each request what its account says. -/
structure Sound (s : State) : Prop where
  fits : ∀ r q, s.requests r = some q → q.pc.Fits q
  account : ∀ r q, s.requests r = some q → Account q.held q.created q.removals
  listed : ∀ r q, s.requests r = some q → Listed r s.dir q
  absent : ∀ r, s.requests r = none → ∀ path, s.dir path ≠ some (.request r)

theorem sound_initial (others : List GoString) : Sound (initial others) where
  fits r q hq := by cases hq
  account r q hq := by cases hq
  listed r q hq := by cases hq
  absent r _ path h := by
    simp only [initial] at h
    split at h <;> cases h

theorem start_spec (input : Input) :
    (Request.start input).pc.Fits (Request.start input) ∧
      (Request.start input).held = none ∧ (Request.start input).created = [] ∧
      (Request.start input).removals = [] := by
  unfold Request.start
  split
  · exact ⟨rfl, rfl, rfl, rfl⟩
  · split
    · exact ⟨rfl, rfl, rfl, rfl⟩
    · exact ⟨⟨rfl, rfl⟩, rfl, rfl, rfl⟩

theorem step_act {cfg : Config} {s s' : State} {r : ℕ} {a : Action}
    (h : step cfg s (.act r a) = some s') :
    ∃ q q' dir', s.requests r = some q ∧ act cfg r s.dir q a = some (q', dir') ∧
      s' = ⟨dir', Function.update s.requests r (some q')⟩ := by
  simp only [step, Option.bind_eq_some_iff, Option.map_eq_some_iff] at h
  obtain ⟨q, hq, o, ho, rfl⟩ := h
  exact ⟨q, o.1, o.2, hq, ho, rfl⟩

/-- What the directory holds of requests depends on nothing else. -/
theorem Sound.congr {s : State} {dir : Dir} (hI : Sound s)
    (hsame : ∀ r path, dir path = some (.request r) ↔ s.dir path = some (.request r)) :
    Sound { s with dir } where
  fits := hI.fits
  account := hI.account
  listed r q hq path := (hsame r path).trans (hI.listed r q hq path)
  absent r hr path h := hI.absent r hr path ((hsame r path).mp h)

/-- **The accounts are kept.** -/
theorem sound_step {cfg : Config} {s s' : State} {a : Label} (hI : Sound s)
    (h : step cfg s a = some s') : Sound s' := by
  cases a with
  | arrive r input =>
    simp only [step] at h
    split at h
    · next hfresh =>
      obtain rfl := Option.some.inj h
      obtain ⟨hfits, hheld, hcreated, hremovals⟩ := start_spec input
      have haccount : Account (Request.start input).held (Request.start input).created
          (Request.start input).removals := by
        rw [hheld, hcreated, hremovals]
        exact .blank
      have hlisted : Listed r s.dir (Request.start input) := by
        intro path
        rw [hcreated]
        simpa using hI.absent r hfresh path
      refine ⟨forall_update_some rfl hfits fun r' q _ => hI.fits r' q,
        forall_update_some rfl haccount fun r' q _ => hI.account r' q,
        forall_update_some rfl hlisted fun r' q _ => hI.listed r' q,
        fun r' hr' => hI.absent r' (of_update_some_eq_none hr').2⟩
    · cases h
  | act r a =>
    obtain ⟨q, q', dir', hq, hact, rfl⟩ := step_act h
    obtain ⟨hfits, heffect⟩ := act_spec (hI.fits r q hq) (hI.account r q hq) hact
    have ha := hI.account r q hq
    have hd := hI.listed r q hq
    -- No request touches the file of another, which keeps the accounts of the others.
    have hframe : ∀ r' ≠ r, ∀ path, dir' path = some (.request r') ↔
        s.dir path = some (.request r') :=
      fun r' hne path => heffect.frame ha hd (fun heq => hne (Owner.request.inj heq)) path
    refine ⟨forall_update_some rfl hfits fun r' q _ => hI.fits r' q,
      forall_update_some rfl (heffect.account ha) fun r' q _ => hI.account r' q,
      forall_update_some rfl (heffect.listed ha hd) fun r' q hne hq path => ?_,
      fun r' hr' path => ?_⟩
    · exact (hframe r' hne path).trans (hI.listed r' q hq path)
    · obtain ⟨hne, hnone⟩ := of_update_some_eq_none hr'
      exact fun hown => hI.absent r' hnone path ((hframe r' hne path).mp hown)
  | other path =>
    have hmine : ∀ (o : Option Owner), (∀ r, s.dir path ≠ some (.request r)) →
        (∀ r, o ≠ some (.request r)) → ∀ r p,
        Function.update s.dir path o p = some (.request r) ↔ s.dir p = some (.request r) := by
      intro o hold hnew r p
      by_cases hp : p = path
      · subst hp
        rw [Function.update_self]
        exact iff_of_false (hnew r) (hold r)
      · rw [Function.update_of_ne hp]
    simp only [step] at h
    split at h
    · next hnone =>
      obtain rfl := Option.some.inj h
      exact hI.congr (hmine _ (by simp [hnone]) (by simp))
    · next hother =>
      obtain rfl := Option.some.inj h
      exact hI.congr (hmine _ (by simp [hother]) (by simp))
    · cases h

theorem sound_of_run {cfg : Config} {others : List GoString} {as : List Label} {s : State}
    (hrun : exec (step cfg) (initial others) as = some s) : Sound s :=
  exec_invariant (fun _ _ _ hI h => sound_step hI h) (sound_initial others) hrun

/-- A file of others stays as it is while they leave it alone. -/
theorem other_step {cfg : Config} {s s' : State} {a : Label} (hI : Sound s)
    (h : step cfg s a = some s') {path : GoString} (ha : a ≠ .other path) :
    s'.dir path = some .other ↔ s.dir path = some .other := by
  cases a with
  | arrive r input =>
    simp only [step] at h
    split at h
    · obtain rfl := Option.some.inj h
      exact Iff.rfl
    · cases h
  | act r a =>
    obtain ⟨q, q', dir', hq, hact, rfl⟩ := step_act h
    obtain ⟨-, heffect⟩ := act_spec (hI.fits r q hq) (hI.account r q hq) hact
    exact heffect.frame (hI.account r q hq) (hI.listed r q hq) Owner.noConfusion path
  | other path' =>
    -- The others act, but on another file.
    have hne : path ≠ path' := fun heq => ha (by rw [heq])
    simp only [step] at h
    split at h
    · obtain rfl := Option.some.inj h
      dsimp only
      rw [Function.update_of_ne hne]
    · obtain rfl := Option.some.inj h
      dsimp only
      rw [Function.update_of_ne hne]
    · cases h

/-- **No request touches a file that is not its own**: what others leave alone is there at the
end exactly if it was there at the start, and nothing else comes to be theirs. -/
theorem others_kept {cfg : Config} {others : List GoString} {as : List Label} {s : State}
    (hrun : exec (step cfg) (initial others) as = some s) {path : GoString}
    (hquiet : Label.other path ∉ as) : s.dir path = some .other ↔ path ∈ others := by
  have hkept : Sound s ∧ (s.dir path = some .other ↔ path ∈ others) :=
    exec_invariant_of_meets (C := fun _ a => a ≠ Label.other path)
      (I := fun s => Sound s ∧ (s.dir path = some .other ↔ path ∈ others))
      (fun _ _ _ hI ha h => ⟨sound_step hI.1 h, (other_step hI.1 h ha).trans hI.2⟩)
      ⟨sound_initial others, by simp [initial]⟩
      (meets_of_forall (fun _ ha _ => ne_of_mem_of_not_mem ha hquiet) _) hrun
  exact hkept.2

/-- A request that holds no file has asked to remove what it has created. -/
theorem Account.removed_of_not_held {created : List GoString}
    {removals : List (GoString × Option String)} (h : Account none created removals) :
    removals.map Prod.fst = created := by
  cases h with
  | blank => rfl
  | removed path err => rfl

/-- **Who has the file of a request that is answered.**  Behind an error, `os.Remove` has been
called once on each file that the request created, and no file is left on which it has not
failed.  Behind a 202 the import has the one file: it is there until `process` returns, and
then `process` removes it. -/
theorem uploads_owned {cfg : Config} {others : List GoString} {as : List Label} {s : State}
    (hrun : exec (step cfg) (initial others) as = some s) {r : ℕ} {q : Request}
    (hq : s.requests r = some q) :
    (∀ f, q.pc = .answered (.error f) →
      q.process = none ∧ q.removals.map Prod.fst = q.created ∧
        ∀ path, s.dir path = some (.request r) → ∃ err, (path, some err) ∈ q.removals) ∧
    ∀ id name, q.pc = .answered (.accepted id name) →
      ∃ i, q.process = some i ∧ q.created = [i.filePath] ∧
        ((i.g.pc = .returned ∧ i.deferred = [] → q.removals ≠ []) ∧
          (i.g.pc ≠ .returned → q.removals = [])) ∧
        ((q.removals = [] ∧ ∀ path, s.dir path = some (.request r) ↔ path = i.filePath) ∨
          ∃ err, q.removals = [(i.filePath, err)] ∧
            ∀ path, s.dir path = some (.request r) ↔ path = i.filePath ∧ err ≠ none) := by
  have hI := sound_of_run hrun
  have hfits := hI.fits r q hq
  have haccount := hI.account r q hq
  have hlisted := hI.listed r q hq
  constructor
  · intro f hpc
    rw [hpc] at hfits
    have hprocess : q.process = none := hfits
    -- An answered error holds no file any more.
    have hheld : q.held = none := by rw [Request.held, hpc, hprocess, Option.bind_none]
    rw [hheld] at haccount
    have hall := haccount.removed_of_not_held
    refine ⟨hprocess, hall, fun path hpath => ?_⟩
    obtain ⟨hcreated, hleft⟩ := (hlisted path).mp hpath
    rw [← hall] at hcreated
    obtain ⟨⟨path', err⟩, hmem, rfl⟩ := List.mem_map.mp hcreated
    cases err with
    | none => exact absurd hmem hleft
    | some err => exact ⟨err, hmem⟩
  · intro id name hpc
    rw [hpc] at hfits
    obtain ⟨i, hi, hdef, hcreated⟩ := hfits
    have hheld : q.held = if .remove ∈ i.deferred then some i.filePath else none := by
      rw [Request.held, hpc, hi, Option.bind_some]
    rw [hheld, hcreated] at haccount
    rw [Listed, hcreated] at hlisted
    refine ⟨i, hi, hcreated, ?_⟩
    -- The file is there as long as its removal is still deferred.
    by_cases hmem : .remove ∈ i.deferred
    · rw [if_pos hmem] at haccount
      generalize q.removals = removals at haccount hlisted ⊢
      cases haccount
      refine ⟨⟨fun hexit => ?_, fun _ => rfl⟩, Or.inl ⟨rfl, fun path => ?_⟩⟩
      · rw [hexit.2] at hmem
        cases hmem
      · rw [hlisted path]
        simp
    · rw [if_neg hmem] at haccount
      generalize q.removals = removals at haccount hlisted ⊢
      cases haccount with
      | removed path err =>
        have hreturned : i.g.pc = .returned := by
          by_contra hne
          exact hmem (hdef.running hne)
        refine ⟨⟨fun _ => List.cons_ne_nil _ _, fun hne => absurd hreturned hne⟩,
          Or.inr ⟨err, rfl, fun path => ?_⟩⟩
        rw [hlisted path]
        cases err with
        | none => simp
        | some err => simp

/-! ### What an answer leaves behind -/

/-- A file with one line, spooled up to the end of the part. -/
def spooling (err : Option String) : List Label :=
  [.arrive 0 ⟨some (lit "multipart/form-data"), some ⟨[⟨lit "file", lit "a.csv", lit "name", none⟩],
    err⟩⟩, .act 0 .next, .act 0 (.createTemp (.ok (lit "t"))), .act 0 (.copy none),
    .act 0 (.close none), .act 0 .next]

/-- What follows the file is malformed, and the file cannot be removed. -/
def malformedBehind : List Label :=
  spooling (some "malformed MIME header") ++ [.act 0 (.remove (some "permission denied"))]

/-- The import cannot open the file, and has returned before the request is answered. -/
def failingFast : List Label :=
  spooling none ++ [.act 0 (.create (.ok someJobID) ⟨[], none⟩),
    .act 0 (.process (.err "too many open files")), .act 0 (.process .ok), .act 0 (.unwind none)]

/-- The import is launched, and the request is answered while it runs. -/
def acceptedRun : List Label :=
  spooling none ++ [.act 0 (.create (.ok someJobID) ⟨[], none⟩), .act 0 .answer]

/-- The file stays behind the one answer, and is the import's behind the other. -/
theorem uploads_owned_both :
    (∃ s q, exec (step ⟨0, 1⟩) (initial []) (malformedBehind ++ [.act 0 .answer]) = some s ∧
      s.requests 0 = some q ∧ s.dir (lit "t") = some (.request 0) ∧
      ∀ path, s.dir path = some (.request 0) → ∃ err, (path, some err) ∈ q.removals) ∧
    ∃ s q i, exec (step ⟨0, 1⟩) (initial []) acceptedRun = some s ∧ s.requests 0 = some q ∧
      q.process = some i ∧ q.created = [i.filePath] ∧ q.removals = [] := by
  constructor
  · refine ⟨_, _, rfl, rfl, rfl, ?_⟩
    have howned := @uploads_owned ⟨0, 1⟩ [] (malformedBehind ++ [.act 0 .answer]) _ rfl 0 _ rfl
    exact (howned.1 _ rfl).2.2
  · have howned := @uploads_owned ⟨0, 1⟩ [] acceptedRun _ rfl 0 _ rfl
    obtain ⟨i, hi, hcreated, ⟨-, hrunning⟩, -⟩ := howned.2 _ _ rfl
    refine ⟨_, _, i, rfl, rfl, hi, hcreated, hrunning ?_⟩
    cases hi
    decide

/-- A file of others beside that of a request whose import fails fast. -/
theorem others_kept_failing :
    ∃ s, exec (step ⟨0, 1⟩) (initial [lit "u"]) (failingFast ++ [.act 0 .answer]) = some s ∧
      s.dir (lit "u") = some .other := by
  have hquiet : Label.other (lit "u") ∉ failingFast ++ [.act 0 .answer] := by
    simp [failingFast, spooling]
  exact ⟨_, rfl, (@others_kept ⟨0, 1⟩ [lit "u"] _ _ rfl (lit "u") hquiet).mpr (by decide)⟩

/-- **A file may stay behind an error, and be gone before the 202.** -/
theorem not_tidy :
    (¬∀ as s q, exec (step ⟨0, 1⟩) (initial []) (as ++ [.act 0 .answer]) = some s →
      s.requests 0 = some q → ∀ f, q.pc = .answered (.error f) →
        ∀ path, s.dir path ≠ some (.request 0)) ∧
    ¬∀ as s q, exec (step ⟨0, 1⟩) (initial []) (as ++ [.act 0 .answer]) = some s →
      s.requests 0 = some q → ∀ id name, q.pc = .answered (.accepted id name) →
        ∃! path, s.dir path = some (.request 0) := by
  constructor
  · intro h
    exact h malformedBehind _ _ rfl rfl _ rfl (lit "t") rfl
  · intro h
    obtain ⟨path, hpath, -⟩ := h failingFast _ _ rfl rfl _ _ rfl
    have hI := @sound_of_run ⟨0, 1⟩ [] (failingFast ++ [.act 0 .answer]) _ rfl
    have hlisted := hI.listed 0 _ rfl path
    obtain ⟨hcreated, hleft⟩ := hlisted.mp hpath
    obtain rfl := List.mem_singleton.mp hcreated
    exact hleft List.mem_cons_self

end Upload

end CsvProductUploader

import CsvProductUploader.GoString
import CsvProductUploader.Lib.Runs
import Mathlib.Data.List.Nodup
import Mathlib.Data.List.Sort
import Mathlib.Logic.Function.Basic
import Mathlib.Tactic.Common

/-!
# Migrations

`Migrate` applies the files of a directory under an advisory lock, every one in a transaction
together with its record.  Any number of processes call it, any call may fail and any process may
die at it, and files may be added all the time.

## Main definitions

* `Database` — statements, each of which changes the schema or fails.
* `Pc`, `Proc`, `State` — where a process stands in `Migrate`, and what they share.
* `proceed`, `stop`, `step` — the next call succeeds, or the run ends at it.
* `Exact` — the schema is what the recorded files make of it, each applied once.
* `Safe` — what holds of the processes.
* `EndsAt` — how a run ends at a file.

## Main results

* `safe_step` — both are invariants.
* `migrate_safe` — what the recorded files are, and what a file that fails leaves;
  `migrate_safe_lost` — a run with a commit that gets no reply.
* `not_failed_untouched` — there the file is applied although it fails.
-/

namespace CsvProductUploader.Migration

open Runs

/-! ### Files and statements -/

/-- An entry of the migrations directory. -/
structure Entry (Q : Type) where
  name : GoString
  isDir : Bool
  /-- The statements of a file, none of which ends its transaction. -/
  content : List Q
  deriving DecidableEq

/-- What statements do to a schema; `none` is an error. -/
structure Database (Q S : Type) where
  initial : S
  run : S → Q → Option S

section
variable {Q S : Type}

/-- The statements one after another. -/
def Database.runAll (db : Database Q S) (schema : S) (content : List Q) : Option S :=
  content.foldlM db.run schema

/-- The names that the loop goes through: `sort.Strings` orders them by their bytes. -/
def sqlNames (dir : List (Entry Q)) : List GoString :=
  ((dir.filter fun e => !e.isDir && (lit ".sql").isSuffixOf e.name).map Entry.name).insertionSort
    (· ≤ ·)

/-- `os.ReadFile` -/
def contentOf (dir : List (Entry Q)) (name : GoString) : Option (List Q) :=
  (dir.find? fun e => e.name = name && !e.isDir).map Entry.content

/-- The schema after the files of these names. -/
def Database.applyFiles (db : Database Q S) (dir : List (Entry Q)) (names : List GoString) :
    Option S :=
  names.foldlM (fun schema name => (contentOf dir name).bind (db.runAll schema)) db.initial

end

/-! ### `Migrate` -/

inductive MigrateError (ε : Type)
  /-- A call before the loop, under the text of its error. -/
  | call (op : String) (err : ε)
  /-- `%s migration %s`, a call for one file. -/
  | file (op : String) (name : GoString) (err : ε)
  deriving DecidableEq, Repr

/-- The call at which a process stands. -/
inductive Pc (ε Q S : Type)
  | idle
  | acquiring
  | locking
  | ensuring
  | listing
  /-- The head of the loop. -/
  | checking
  | reading (name : GoString)
  | beginning (name : GoString) (content : List Q)
  /-- Within the transaction, which sees the schema `work`. -/
  | applying (name : GoString) (rest : List Q) (work : S)
  | recording (name : GoString) (work : S)
  | committing (name : GoString) (work : S)
  | returned (res : Except (MigrateError ε) Unit)
  | crashed

/-- A process in its last run of `Migrate`. -/
structure Proc (ε Q S : Type) where
  pc : Pc ε Q S
  /-- The names that it has read from the directory, and those it has still to go through. -/
  listed : List GoString
  todo : List GoString
  /-- The files that it has committed. -/
  done : List GoString

structure State (ε Q S : Type) where
  dir : List (Entry Q)
  /-- The rows of `schema_migrations`, if the table is there. -/
  versions : Option (List GoString)
  schema : S
  /-- Who holds the advisory lock. -/
  lock : Option ℕ
  procs : ℕ → Proc ε Q S

inductive Label (ε Q : Type)
  /-- A file or directory is added. -/
  | gain (e : Entry Q)
  | start (k : ℕ)
  /-- The call at which the process stands succeeds. -/
  | proceed (k : ℕ)
  /-- The call fails, or the process dies at it; the call may have been carried out. -/
  | stop (k : ℕ) (err : Option ε) (applied : Bool)

section
variable {ε Q S : Type}

namespace Pc

/-- The process is in `Migrate`. -/
def running : Pc ε Q S → Bool
  | .idle | .returned _ | .crashed => false
  | _ => true

/-- It holds the lock. -/
def holds : Pc ε Q S → Bool
  | .idle | .acquiring | .locking | .returned _ | .crashed => false
  | _ => true

/-- It has not come to the loop. -/
def early : Pc ε Q S → Bool
  | .acquiring | .locking | .ensuring | .listing => true
  | _ => false

/-- The file that it has found pending. -/
def file : Pc ε Q S → Option GoString
  | .reading name | .beginning name _ | .applying name _ _ | .recording name _
  | .committing name _ => some name
  | _ => none

/-- The error with which `Migrate` returns if the call fails; at the end of the loop there is
none under way. -/
def error (todo : List GoString) (err : ε) : Pc ε Q S → Option (MigrateError ε)
  | .acquiring => some (.call "acquiring migration connection" err)
  | .locking => some (.call "acquiring migration lock" err)
  | .ensuring => some (.call "ensuring schema_migrations" err)
  | .listing => some (.call "reading migrations dir" err)
  | .checking => todo.head?.map fun name => .file "checking" name err
  | .reading name => some (.file "reading" name err)
  | .beginning name _ => some (.file "beginning" name err)
  | .applying name _ _ => some (.file "applying" name err)
  | .recording name _ => some (.file "recording" name err)
  | .committing name _ => some (.file "committing" name err)
  | _ => none

end Pc

namespace State

def recorded (s : State ε Q S) : List GoString := s.versions.getD []

def put (s : State ε Q S) (k : ℕ) (p : Proc ε Q S) : State ε Q S :=
  { s with procs := Function.update s.procs k p }

/-- `CREATE TABLE IF NOT EXISTS schema_migrations` -/
def ensure (s : State ε Q S) : State ε Q S := { s with versions := some s.recorded }

/-- The transaction of a file is committed, its record in it. -/
def commit (s : State ε Q S) (name : GoString) (work : S) : State ε Q S :=
  { s with versions := some (s.recorded ++ [name]), schema := work }

end State

/-- The call at which a process stands succeeds. -/
def proceed (db : Database Q S) (s : State ε Q S) (k : ℕ) : Option (State ε Q S) :=
  let p := s.procs k
  match p.pc with
  | .idle | .returned _ | .crashed => none
  | .acquiring => some (s.put k { p with pc := .locking })
  | .locking =>
    if s.lock = none then some ({ s with lock := some k }.put k { p with pc := .ensuring })
    else none
  | .ensuring => some (s.ensure.put k { p with pc := .listing })
  | .listing =>
    some (s.put k { p with pc := .checking, listed := sqlNames s.dir, todo := sqlNames s.dir })
  | .checking =>
    match p.todo with
    | [] => some ({ s with lock := none }.put k { p with pc := .returned (.ok ()) })
    | name :: todo =>
      if name ∈ s.recorded then some (s.put k { p with pc := .checking, todo })
      else some (s.put k { p with pc := .reading name, todo })
  | .reading name =>
    (contentOf s.dir name).map fun content => s.put k { p with pc := .beginning name content }
  | .beginning name content => some (s.put k { p with pc := .applying name content s.schema })
  | .applying name [] work => some (s.put k { p with pc := .recording name work })
  | .applying name (q :: rest) work =>
    (db.run work q).map fun work' => s.put k { p with pc := .applying name rest work' }
  | .recording name work =>
    if name ∈ s.recorded then none else some (s.put k { p with pc := .committing name work })
  | .committing name work =>
    some ((s.commit name work).put k { p with pc := .checking, done := p.done ++ [name] })

/-- What a call that does not return has done to the database, if it was carried out. -/
def carriedOut (s : State ε Q S) (applied : Bool) : Pc ε Q S → State ε Q S
  | .ensuring => if applied then s.ensure else s
  | .committing name work => if applied then s.commit name work else s
  | _ => s

/-- The files that the process has committed then. -/
def Proc.files (p : Proc ε Q S) (applied : Bool) : List GoString :=
  match p.pc with
  | .committing name _ => if applied then p.done ++ [name] else p.done
  | _ => p.done

/-- How the run of a process ends at its call: it returns the error of the call, or it dies. -/
def Proc.ending (p : Proc ε Q S) : Option ε → Option (Pc ε Q S)
  | none => if p.pc.running then some .crashed else none
  | some err => (p.pc.error p.todo err).map fun e => .returned (.error e)

/-- The run of a process ends at its call: an open transaction is rolled back, and the lock is
released by the process or with its session. -/
def stop (s : State ε Q S) (k : ℕ) (err : Option ε) (applied : Bool) : Option (State ε Q S) :=
  let p := s.procs k
  (p.ending err).map fun pc =>
    { carriedOut s applied p.pc with lock := if p.pc.holds then none else s.lock }.put k
      { p with pc, done := p.files applied }

def step (db : Database Q S) (s : State ε Q S) : Label ε Q → Option (State ε Q S)
  | .gain e =>
    if e.name ∈ s.dir.map Entry.name then none else some { s with dir := s.dir ++ [e] }
  | .start k =>
    if (s.procs k).pc.running then none
    else some (s.put k { pc := .acquiring, listed := [], todo := [], done := [] })
  | .proceed k => proceed db s k
  | .stop k err applied => stop s k err applied

/-- Before the first run: no file, no table, no process. -/
def initial (db : Database Q S) : State ε Q S where
  dir := []
  versions := none
  schema := db.initial
  lock := none
  procs _ := { pc := .idle, listed := [], todo := [], done := [] }

/-! ### The order of the names -/

theorem lt_of_le_of_ne {a b : GoString} (hle : a ≤ b) (hne : a ≠ b) : a < b := by
  by_contra hlt
  exact hne (List.le_antisymm hle hlt)

theorem pairwise_sqlNames {dir : List (Entry Q)} (h : (dir.map Entry.name).Nodup) :
    (sqlNames dir).Pairwise (· < ·) := by
  have hsorted : (sqlNames dir).Pairwise (· ≤ ·) := List.pairwise_insertionSort _ _
  have hnodup : (sqlNames dir).Nodup :=
    (List.perm_insertionSort _ _).nodup_iff.mpr (h.sublist (List.filter_sublist.map _))
  exact hsorted.imp₂ (fun a b hle hne => lt_of_le_of_ne hle hne) hnodup

/-- A file that is added changes no other. -/
theorem contentOf_append {dir : List (Entry Q)} {name : GoString} {content : List Q}
    (h : contentOf dir name = some content) (e : Entry Q) :
    contentOf (dir ++ [e]) name = some content := by
  obtain ⟨e', he', rfl⟩ := Option.map_eq_some_iff.mp h
  rw [contentOf, List.find?_append, he']
  rfl

theorem applyFiles_append {db : Database Q S} {dir : List (Entry Q)} {names : List GoString}
    {schema : S} (h : db.applyFiles dir names = some schema) (e : Entry Q) :
    db.applyFiles (dir ++ [e]) names = some schema := by
  unfold Database.applyFiles at h ⊢
  generalize db.initial = start at h ⊢
  induction names generalizing start with
  | nil => exact h
  | cons name names ih =>
    obtain ⟨mid, hmid, hrest⟩ := Option.bind_eq_some_iff.mp h
    obtain ⟨content, hcontent, hrun⟩ := Option.bind_eq_some_iff.mp hmid
    rw [List.foldlM_cons, contentOf_append hcontent e]
    exact Option.bind_eq_some_iff.mpr ⟨mid, hrun, ih mid hrest⟩

/-! ### The invariants -/

/-- **The schema is what the recorded files make of it**, each of them applied once, in the order
of their records, and no other file at all. -/
structure Exact (db : Database Q S) (s : State ε Q S) : Prop where
  nodup : s.recorded.Nodup
  schema : db.applyFiles s.dir s.recorded = some s.schema

/-- The transaction in which a process is. -/
def Pc.Within (db : Database Q S) (s : State ε Q S) : Pc ε Q S → Prop
  | .beginning name content => contentOf s.dir name = some content
  | .applying name rest work =>
    ∃ content, contentOf s.dir name = some (content ++ rest) ∧
      db.runAll s.schema content = some work
  | .recording name work | .committing name work =>
    ∃ content, contentOf s.dir name = some content ∧ db.runAll s.schema content = some work
  | _ => True

/-- What the holder of the lock knows. -/
structure Holder (db : Database Q S) (s : State ε Q S) (p : Proc ε Q S) : Prop where
  ascending : (p.done ++ (p.pc.file.toList ++ p.todo)).Pairwise (· < ·)
  pending : ∀ name ∈ p.pc.file, name ∉ s.recorded
  within : p.pc.Within db s
  listed : ∀ name ∈ p.listed, name ∈ s.recorded ∨ name ∈ p.pc.file.toList ++ p.todo

/-- What holds of every process: its files were in order, and if it returns without an error none
is missing. -/
structure Settled (s : State ε Q S) (p : Proc ε Q S) : Prop where
  early : p.pc.early = true → p.listed = [] ∧ p.todo = [] ∧ p.done = []
  ascending : p.done.Pairwise (· < ·)
  complete : p.pc = .returned (.ok ()) → ∀ name ∈ p.listed, name ∈ s.recorded

/-- **The processes are safe**: one of them holds the lock, and it alone is past it. -/
structure Safe (db : Database Q S) (s : State ε Q S) : Prop where
  names : (s.dir.map Entry.name).Nodup
  agrees : Exact db s
  lock : ∀ k, (s.procs k).pc.holds = true ↔ s.lock = some k
  holder : ∀ k, s.lock = some k → Holder db s (s.procs k)
  settled : ∀ k, Settled s (s.procs k)

variable {db : Database Q S} {s s' t : State ε Q S} {k : ℕ} {q : Proc ε Q S}

theorem Pc.Within.congr {pc : Pc ε Q S} (h : pc.Within db s) (hdir : s'.dir = s.dir)
    (hschema : s'.schema = s.schema) : pc.Within db s' := by
  cases pc <;> simp only [Pc.Within, hdir, hschema] at h ⊢ <;> exact h

theorem Exact.congr (h : Exact db s) (hdir : s'.dir = s.dir) (hrecorded : s'.recorded = s.recorded)
    (hschema : s'.schema = s.schema) : Exact db s' where
  nodup := hrecorded ▸ h.nodup
  schema := by
    rw [hdir, hrecorded, hschema]
    exact h.schema

theorem Holder.congr {p : Proc ε Q S} (h : Holder db s p) (hdir : s'.dir = s.dir)
    (hrecorded : s'.recorded = s.recorded) (hschema : s'.schema = s.schema) : Holder db s' p where
  ascending := h.ascending
  pending name hname := hrecorded ▸ h.pending name hname
  within := h.within.congr hdir hschema
  listed name hname := hrecorded ▸ h.listed name hname

theorem Settled.mono {p : Proc ε Q S} (h : Settled s p)
    (hrecorded : ∀ name ∈ s.recorded, name ∈ s'.recorded) : Settled s' p where
  early := h.early
  ascending := h.ascending
  complete hpc name hname := hrecorded name (h.complete hpc name hname)

/-- One process moves, and with it the lock and the database. -/
theorem Safe.put (hI : Safe db s) (hdir : t.dir = s.dir) (hprocs : t.procs = s.procs)
    (hagrees : Exact db t) (hlock : q.pc.holds = true ↔ t.lock = some k)
    (hothers : ∀ j, j ≠ k → (t.lock = some j ↔ s.lock = some j))
    (hdb : ∀ j, j ≠ k → s.lock = some j → t.recorded = s.recorded ∧ t.schema = s.schema)
    (hrecorded : ∀ name ∈ s.recorded, name ∈ t.recorded)
    (hholder : q.pc.holds = true → Holder db t q) (hsettled : Settled t q) :
    Safe db (t.put k q) := by
  have hself : (t.put k q).procs k = q := Function.update_self ..
  have hother : ∀ j, j ≠ k → (t.put k q).procs j = s.procs j := fun j hj =>
    (Function.update_of_ne hj ..).trans (congrFun hprocs j)
  refine ⟨(congrArg (List.map Entry.name) hdir) ▸ hI.names, ⟨hagrees.nodup, hagrees.schema⟩,
    fun j => ?_, fun j hj => ?_, fun j => ?_⟩
  · by_cases hjk : j = k
    · subst hjk
      rw [hself]
      exact hlock
    · -- The lock moves between nobody and `k`; no other process notices.
      rw [hother j hjk, hI.lock j]
      exact (hothers j hjk).symm
  · by_cases hjk : j = k
    · subst hjk
      rw [hself]
      exact (hholder (hlock.mpr hj)).congr rfl rfl rfl
    · rw [hother j hjk]
      have hj' : s.lock = some j := (hothers j hjk).mp hj
      obtain ⟨hrec, hschema⟩ := hdb j hjk hj'
      exact (hI.holder j hj').congr hdir hrec hschema
  · by_cases hjk : j = k
    · subst hjk
      rw [hself]
      exact hsettled.mono fun _ hname => hname
    · rw [hother j hjk]
      exact (hI.settled j).mono hrecorded

/-- A process moves by itself, the lock and the database left as they are. -/
theorem Safe.move (hI : Safe db s) (hholds : q.pc.holds = (s.procs k).pc.holds)
    (hholder : q.pc.holds = true → Holder db s q) (hsettled : Settled s q) :
    Safe db (s.put k q) :=
  hI.put rfl rfl hI.agrees (hholds ▸ hI.lock k) (fun _ _ => Iff.rfl) (fun _ _ _ => ⟨rfl, rfl⟩)
    (fun _ hname => hname) hholder hsettled

theorem Holder.settled (h : Holder db s q) (hholds : q.pc.holds = true)
    (hearly : q.pc.early = true → q.listed = [] ∧ q.todo = [] ∧ q.done = []) : Settled s q where
  early := hearly
  ascending := (List.pairwise_append.mp h.ascending).1
  complete hpc := by
    rw [hpc] at hholds
    cases hholds

/-- The holder of the lock moves on. -/
theorem Safe.advance (hI : Safe db s) (hk : (s.procs k).pc.holds = true)
    (hholds : q.pc.holds = true)
    (hearly : q.pc.early = true → q.listed = [] ∧ q.todo = [] ∧ q.done = [])
    (h : Holder db s q) : Safe db (s.put k q) :=
  hI.move (hholds.trans hk.symm) (fun _ => h) (h.settled hholds hearly)

/-- What the holder knows at the call at which it stands. -/
theorem Safe.holder_at (hI : Safe db s) {pc : Pc ε Q S} (hpc : (s.procs k).pc = pc)
    (hholds : pc.holds = true) :
    (s.procs k).pc.holds = true ∧ Holder db s { s.procs k with pc := pc } := by
  subst hpc
  exact ⟨hholds, hI.holder k ((hI.lock k).mp hholds)⟩

theorem safe_initial : Safe db (initial db : State ε Q S) where
  names := List.nodup_nil
  agrees := ⟨List.nodup_nil, rfl⟩
  lock _ := by simp [initial, Pc.holds]
  holder _ h := by cases h
  settled _ := ⟨fun _ => ⟨rfl, rfl, rfl⟩, List.Pairwise.nil, fun h => by cases h⟩

/-- Only the holder of the lock moves the database. -/
theorem Safe.not_other (hI : Safe db s) (hk : (s.procs k).pc.holds = true) {j : ℕ} (hj : j ≠ k) :
    s.lock ≠ some j := by
  intro hlock
  rw [(hI.lock k).mp hk] at hlock
  exact hj (Option.some.inj hlock).symm

/-- A file that was pending is committed. -/
theorem Exact.commit (h : Exact db s) {name : GoString} {work : S} (hname : name ∉ s.recorded)
    (hwithin : (Pc.committing name work : Pc ε Q S).Within db s) :
    Exact db (s.commit name work) := by
  obtain ⟨content, hcontent, hwork⟩ := hwithin
  refine ⟨?_, ?_⟩
  · exact List.nodup_append.mpr ⟨h.nodup, List.nodup_singleton name, by
      intro a ha b hb
      rw [List.mem_singleton.mp hb]
      rintro rfl
      exact hname ha⟩
  · show db.applyFiles s.dir (s.recorded ++ [name]) = some work
    have hfiles := h.schema
    unfold Database.applyFiles at hfiles ⊢
    rw [List.foldlM_append, hfiles]
    simp [hcontent, hwork]

/-- The lock is taken: whoever takes it has recorded nothing yet. -/
theorem Safe.acquire (hI : Safe db s) (hpc : (s.procs k).pc = .locking) (hfree : s.lock = none) :
    Safe db ({ s with lock := some k }.put k { s.procs k with pc := .ensuring }) := by
  obtain ⟨hlisted, htodo, hdone⟩ := (hI.settled k).early (by rw [hpc]; rfl)
  refine hI.put (t := { s with lock := some k }) rfl rfl ⟨hI.agrees.nodup, hI.agrees.schema⟩
    (iff_of_true rfl rfl) (fun j hj => ?_) (fun _ _ _ => ⟨rfl, rfl⟩) (fun _ hname => hname)
    (fun _ => ⟨?_, fun _ hname => (by cases hname), trivial, fun name hname => ?_⟩)
    ⟨fun _ => ⟨hlisted, htodo, hdone⟩, (hI.settled k).ascending, fun hq => by cases hq⟩
  · rw [hfree]
    exact iff_of_false (fun heq => hj (Option.some.inj heq).symm) (Option.some_ne_none j).symm
  · simp [hdone, htodo, Pc.file]
  · rw [hlisted] at hname
    cases hname

theorem Safe.ensure (hI : Safe db s) (hpc : (s.procs k).pc = .ensuring) :
    Safe db (s.ensure.put k { s.procs k with pc := .listing }) := by
  obtain ⟨hk, -⟩ := hI.holder_at hpc rfl
  obtain ⟨hlisted, htodo, hdone⟩ := (hI.settled k).early (by rw [hpc]; rfl)
  have hagrees : Exact db s.ensure := ⟨hI.agrees.nodup, hI.agrees.schema⟩
  have hq : Holder db s.ensure { s.procs k with pc := .listing } :=
    ⟨by simp [hdone, htodo, Pc.file], fun _ hname => (by cases hname), trivial,
      fun name hname => (by rw [hlisted] at hname; cases hname)⟩
  exact hI.put rfl rfl hagrees (iff_of_true rfl ((hI.lock k).mp hk)) (fun _ _ => Iff.rfl)
    (fun _ _ _ => ⟨rfl, rfl⟩) (fun _ hname => hname) (fun _ => hq)
    (hq.settled rfl fun _ => ⟨hlisted, htodo, hdone⟩)

/-- The loop is through: every listed name is recorded, and the lock is released. -/
theorem Safe.release (hI : Safe db s) (hpc : (s.procs k).pc = .checking)
    (htodo : (s.procs k).todo = []) :
    Safe db ({ s with lock := none }.put k { s.procs k with pc := .returned (.ok ()) }) := by
  obtain ⟨hk, -, -, -, hlisted⟩ := hI.holder_at hpc rfl
  rw [htodo] at hlisted
  refine hI.put (t := { s with lock := none }) rfl rfl ⟨hI.agrees.nodup, hI.agrees.schema⟩
    (iff_of_false (fun hq => by cases hq) (fun hq => by cases hq))
    (fun j hj => iff_of_false (fun hq => by cases hq) (hI.not_other hk hj))
    (fun _ _ _ => ⟨rfl, rfl⟩) (fun _ hname => hname) (fun hq => by cases hq)
    ⟨fun hq => (by cases hq), (hI.settled k).ascending, fun _ name hname => ?_⟩
  exact (hlisted name hname).resolve_right List.not_mem_nil

/-- A recorded name is passed over. -/
theorem Safe.skip (hI : Safe db s) (hpc : (s.procs k).pc = .checking) {name : GoString}
    {todo : List GoString} (htodo : (s.procs k).todo = name :: todo) (hmem : name ∈ s.recorded) :
    Safe db (s.put k { s.procs k with pc := .checking, todo }) := by
  obtain ⟨hk, hasc, -, -, hlisted⟩ := hI.holder_at hpc rfl
  rw [htodo] at hasc hlisted
  refine hI.advance hk rfl (fun hq => by cases hq)
    ⟨hasc.sublist ((List.sublist_cons_self name todo).append_left _),
      fun _ hname => (by cases hname), trivial, fun name' hname' => ?_⟩
  rcases hlisted name' hname' with hold | hnew
  · exact .inl hold
  · rcases List.mem_cons.mp hnew with rfl | hnew
    · exact .inl hmem
    · exact .inr hnew

/-- One more statement of a file is carried out. -/
theorem Pc.Within.apply {name : GoString} {stmt : Q} {rest : List Q} {work work' : S}
    (h : (Pc.applying name (stmt :: rest) work : Pc ε Q S).Within db s)
    (hrun : db.run work stmt = some work') :
    (Pc.applying name rest work' : Pc ε Q S).Within db s := by
  obtain ⟨content, hcontent, hwork⟩ := h
  refine ⟨content ++ [stmt], ?_, ?_⟩
  · rw [hcontent, List.append_assoc]
    rfl
  · unfold Database.runAll at hwork ⊢
    rw [List.foldlM_append, hwork]
    simp [hrun]

/-- A file is committed: its record comes last, and its name is behind all that are done. -/
theorem Safe.commit (hI : Safe db s) {name : GoString} {work : S}
    (hpc : (s.procs k).pc = .committing name work) :
    Safe db ((s.commit name work).put k
      { s.procs k with pc := .checking, done := (s.procs k).done ++ [name] }) := by
  obtain ⟨hk, hasc, hpending, hwithin, hlisted⟩ := hI.holder_at hpc rfl
  have hq : Holder db (s.commit name work)
      { s.procs k with pc := .checking, done := (s.procs k).done ++ [name] } := by
    refine ⟨?_, fun _ hname => (by cases hname), trivial, fun name' hname' => ?_⟩
    · rw [List.append_assoc]
      exact hasc
    · rcases hlisted name' hname' with hold | hnew
      · exact .inl (List.mem_append_left _ hold)
      · rcases List.mem_cons.mp hnew with rfl | hnew
        · exact .inl (List.mem_append_right _ (List.mem_singleton_self name'))
        · exact .inr hnew
  exact hI.put rfl rfl (hI.agrees.commit (hpending name rfl) hwithin)
    (iff_of_true rfl ((hI.lock k).mp hk)) (fun _ _ => Iff.rfl)
    (fun j hj hlock => absurd hlock (hI.not_other hk hj))
    (fun _ hname => List.mem_append_left _ hname) (fun _ => hq)
    (hq.settled rfl fun hq => by cases hq)

theorem safe_proceed (hI : Safe db s) (h : proceed db s k = some s') : Safe db s' := by
  cases hpc : (s.procs k).pc with
  | idle | returned | crashed => simp [proceed, hpc] at h
  | acquiring =>
    simp only [proceed, hpc] at h
    obtain rfl := Option.some.inj h
    have hset := hI.settled k
    exact hI.move (by rw [hpc]; rfl) (fun hq => by cases hq)
      ⟨fun _ => hset.early (by rw [hpc]; rfl), hset.ascending, fun hq => by cases hq⟩
  | locking =>
    simp only [proceed, hpc] at h
    split at h
    · next hfree =>
      obtain rfl := Option.some.inj h
      exact hI.acquire hpc hfree
    · cases h
  | ensuring =>
    simp only [proceed, hpc] at h
    obtain rfl := Option.some.inj h
    exact hI.ensure hpc
  | listing =>
    simp only [proceed, hpc] at h
    obtain rfl := Option.some.inj h
    obtain ⟨hk, -⟩ := hI.holder_at hpc rfl
    obtain ⟨-, -, hdone⟩ := (hI.settled k).early (by rw [hpc]; rfl)
    refine hI.advance hk rfl (fun hq => by cases hq)
      ⟨?_, fun _ hname => (by cases hname), trivial, fun name hname => .inr hname⟩
    rw [hdone]
    exact pairwise_sqlNames hI.names
  | checking =>
    simp only [proceed, hpc] at h
    split at h
    · next htodo =>
      obtain rfl := Option.some.inj h
      exact hI.release hpc htodo
    · next name todo htodo =>
      split at h
      · next hmem =>
        obtain rfl := Option.some.inj h
        exact hI.skip hpc htodo hmem
      · next hmem =>
        obtain rfl := Option.some.inj h
        obtain ⟨hk, hasc, -, -, hlisted⟩ := hI.holder_at hpc rfl
        rw [htodo] at hasc hlisted
        refine hI.advance hk rfl (fun hq => by cases hq)
          ⟨hasc, fun name' hname' => ?_, trivial, hlisted⟩
        rwa [← Option.some.inj hname']
  | reading name =>
    simp only [proceed, hpc] at h
    obtain ⟨hk, hasc, hpending, -, hlisted⟩ := hI.holder_at hpc rfl
    obtain ⟨content, hcontent, rfl⟩ := Option.map_eq_some_iff.mp h
    exact hI.advance hk rfl (fun hq => by cases hq) ⟨hasc, hpending, hcontent, hlisted⟩
  | beginning name content =>
    simp only [proceed, hpc] at h
    obtain ⟨hk, hasc, hpending, hwithin, hlisted⟩ := hI.holder_at hpc rfl
    obtain rfl := Option.some.inj h
    exact hI.advance hk rfl (fun hq => by cases hq)
      ⟨hasc, hpending, ⟨[], hwithin, rfl⟩, hlisted⟩
  | applying name rest work =>
    obtain ⟨hk, hasc, hpending, hwithin, hlisted⟩ := hI.holder_at hpc rfl
    cases rest with
    | nil =>
      simp only [proceed, hpc] at h
      obtain rfl := Option.some.inj h
      obtain ⟨content, hcontent, hwork⟩ := hwithin
      rw [List.append_nil] at hcontent
      exact hI.advance hk rfl (fun hq => by cases hq)
        ⟨hasc, hpending, ⟨content, hcontent, hwork⟩, hlisted⟩
    -- Inside the transaction: the schema that others see is the old one.
    | cons stmt rest =>
      simp only [proceed, hpc] at h
      obtain ⟨work', hrun, rfl⟩ := Option.map_eq_some_iff.mp h
      exact hI.advance hk rfl (fun hq => by cases hq)
        ⟨hasc, hpending, hwithin.apply hrun, hlisted⟩
  | recording name work =>
    simp only [proceed, hpc] at h
    obtain ⟨hk, hasc, hpending, hwithin, hlisted⟩ := hI.holder_at hpc rfl
    split at h
    · cases h
    · obtain rfl := Option.some.inj h
      exact hI.advance hk rfl (fun hq => by cases hq) ⟨hasc, hpending, hwithin, hlisted⟩
  | committing name work =>
    simp only [proceed, hpc] at h
    obtain rfl := Option.some.inj h
    exact hI.commit hpc

theorem ending_eq_some {p : Proc ε Q S} {err : Option ε} {pc : Pc ε Q S}
    (h : p.ending err = some pc) :
    p.pc.running = true ∧ pc.running = false ∧ pc ≠ .returned (.ok ()) := by
  cases err with
  | none =>
    rw [Proc.ending] at h
    split at h
    · next hrun =>
      obtain rfl := Option.some.inj h
      exact ⟨hrun, rfl, fun hpc => by cases hpc⟩
    · cases h
  | some err =>
    obtain ⟨e, he, rfl⟩ := Option.map_eq_some_iff.mp h
    refine ⟨?_, rfl, fun hpc => by cases hpc⟩
    cases hpc : p.pc with
    | idle | returned | crashed =>
      rw [hpc] at he
      cases he
    | _ => rfl

/-- **A call that does not return has done nothing, or it has committed its file.** -/
theorem carriedOut_cases (s : State ε Q S) (p : Proc ε Q S) (applied : Bool) :
    ((carriedOut s applied p.pc).recorded = s.recorded ∧
        (carriedOut s applied p.pc).schema = s.schema ∧ p.files applied = p.done) ∨
      ∃ name work, p.pc = .committing name work ∧ applied = true ∧
        carriedOut s applied p.pc = s.commit name work ∧ p.files applied = p.done ++ [name] := by
  unfold carriedOut Proc.files
  cases hpc : p.pc with
  | committing name work =>
    cases applied with
    | true => exact .inr ⟨name, work, rfl, rfl, rfl, rfl⟩
    | false => exact .inl ⟨rfl, rfl, rfl⟩
  | ensuring => cases applied <;> exact .inl ⟨rfl, rfl, rfl⟩
  | _ => exact .inl ⟨rfl, rfl, rfl⟩

theorem carriedOut_frame (s : State ε Q S) (pc : Pc ε Q S) (applied : Bool) :
    (carriedOut s applied pc).dir = s.dir ∧ (carriedOut s applied pc).procs = s.procs := by
  unfold carriedOut
  cases pc <;> cases applied <;> exact ⟨rfl, rfl⟩

theorem Pc.not_holds {pc : Pc ε Q S} (h : pc.running = false) :
    pc.holds = false ∧ pc.early = false := by
  cases pc <;> first | exact ⟨rfl, rfl⟩ | cases h

theorem safe_stop {err : Option ε} {applied : Bool} (hI : Safe db s)
    (h : stop s k err applied = some s') : Safe db s' := by
  obtain ⟨pc, hending, rfl⟩ := Option.map_eq_some_iff.mp h
  obtain ⟨-, hrun, hpc⟩ := ending_eq_some hending
  obtain ⟨hholds, hearly⟩ := Pc.not_holds hrun
  obtain ⟨hdir, hprocs⟩ := carriedOut_frame s (s.procs k).pc applied
  -- the process does not hold the lock any more, if it did
  have hlock : pc.holds = true ↔
      (if (s.procs k).pc.holds = true then none else s.lock) = some k := by
    rw [hholds]
    refine iff_of_false Bool.false_ne_true ?_
    split
    · exact (Option.some_ne_none k).symm
    · next hk => exact fun heq => hk ((hI.lock k).mpr heq)
  have hothers : ∀ j, j ≠ k → ((if (s.procs k).pc.holds = true then none else s.lock) = some j ↔
      s.lock = some j) := by
    intro j hj
    split
    · next hk => exact iff_of_false (Option.some_ne_none j).symm (hI.not_other hk hj)
    · exact Iff.rfl
  have hnot : ∀ {t : State ε Q S} {p : Proc ε Q S}, p.pc = pc → p.pc.holds = true →
      Holder db t p := by
    intro t p hp hq
    rw [hp, hholds] at hq
    cases hq
  rcases carriedOut_cases s (s.procs k) applied with ⟨hrecorded, hschema, hfiles⟩ |
    ⟨name, work, hcommitting, -, heq, hfiles⟩
  · rw [hfiles]
    refine hI.put hdir hprocs (hI.agrees.congr hdir hrecorded hschema) hlock hothers
      (fun _ _ _ => ⟨hrecorded, hschema⟩) (fun name hname => ?_) (hnot rfl)
      ⟨fun hq => ?_, (hI.settled k).ascending, fun hq => absurd hq hpc⟩
    · exact hrecorded.symm ▸ hname
    · rw [hearly] at hq
      cases hq
  · obtain ⟨hk, hasc, hpending, hwithin, -⟩ := hI.holder_at hcommitting rfl
    have hagrees := hI.agrees.commit (hpending name rfl) hwithin
    rw [hfiles]
    rw [heq] at hdir hprocs ⊢
    refine hI.put hdir hprocs (hagrees.congr rfl rfl rfl) hlock hothers
      (fun j hj hj' => absurd hj' (hI.not_other hk hj))
      (fun _ hname => List.mem_append_left _ hname) (hnot rfl)
      ⟨fun hq => ?_, ?_, fun hq => absurd hq hpc⟩
    · rw [hearly] at hq
      cases hq
    · have happend : (s.procs k).done ++ (name :: (s.procs k).todo) =
          ((s.procs k).done ++ [name]) ++ (s.procs k).todo := by rw [List.append_assoc]; rfl
      have hasc : ((s.procs k).done ++ (name :: (s.procs k).todo)).Pairwise (· < ·) := hasc
      rw [happend] at hasc
      exact (List.pairwise_append.mp hasc).1

/-- A file that is added changes nothing for anyone. -/
theorem Safe.gain (hI : Safe db s) {e : Entry Q} (hnew : e.name ∉ s.dir.map Entry.name) :
    Safe db { s with dir := s.dir ++ [e] } := by
  refine ⟨?_, ⟨hI.agrees.nodup, applyFiles_append hI.agrees.schema e⟩, hI.lock, fun k hk => ?_,
    fun k => (hI.settled k).mono fun _ hname => hname⟩
  · rw [List.map_append]
    exact List.Nodup.append hI.names (List.nodup_singleton _) (by simpa using hnew)
  · obtain ⟨hasc, hpending, hwithin, hlisted⟩ := hI.holder k hk
    refine ⟨hasc, hpending, ?_, hlisted⟩
    cases hpc : (s.procs k).pc with
    | beginning name content =>
      rw [hpc] at hwithin
      exact contentOf_append hwithin e
    | applying name rest work =>
      rw [hpc] at hwithin
      obtain ⟨content, hcontent, hwork⟩ := hwithin
      exact ⟨content, contentOf_append hcontent e, hwork⟩
    | recording name work | committing name work =>
      rw [hpc] at hwithin
      obtain ⟨content, hcontent, hwork⟩ := hwithin
      exact ⟨content, contentOf_append hcontent e, hwork⟩
    | _ => trivial

/-- **No step makes the processes unsafe.** -/
theorem safe_step {a : Label ε Q} (hI : Safe db s) (h : step db s a = some s') : Safe db s' := by
  cases a with
  | gain e =>
    rw [step] at h
    split at h
    · cases h
    · next hnew =>
      obtain rfl := Option.some.inj h
      exact hI.gain hnew
  | start k =>
    rw [step] at h
    split at h
    · cases h
    · next hrun =>
      obtain rfl := Option.some.inj h
      have hholds := (Pc.not_holds (eq_false_of_ne_true hrun)).1
      exact hI.move hholds.symm (fun hq => by cases hq)
        ⟨fun _ => ⟨rfl, rfl, rfl⟩, List.Pairwise.nil, fun hq => by cases hq⟩
  | proceed k => exact safe_proceed hI h
  | stop k err applied => exact safe_stop hI h

/-! ### What a run leaves -/

/-- The file at which a run stands. -/
def Proc.current (p : Proc ε Q S) : Option GoString :=
  match p.pc with
  | .checking => p.todo.head?
  | pc => pc.file

/-- A run has ended at a file: it applies no file after it, and either nothing has been done for
it, or its transaction has been committed and only the reply to that is lost. -/
structure EndsAt (db : Database Q S) (s s' : State ε Q S) (k : ℕ) (applied : Bool)
    (name : GoString) : Prop where
  ended : (s'.procs k).pc.running = false
  last : ∀ g ∈ (s'.procs k).done, g ≤ name
  outcome :
    (s'.recorded = s.recorded ∧ s'.schema = s.schema ∧
      ((s.procs k).pc.file = some name → name ∉ s'.recorded)) ∨
    (applied = true ∧ (∃ work, (s.procs k).pc = .committing name work) ∧
      s'.recorded = s.recorded ++ [name] ∧ Exact db s')

/-- The current file is the first that is still to come. -/
theorem current_eq_some {p : Proc ε Q S} {name : GoString} (h : p.current = some name) :
    p.pc.holds = true ∧ ∃ rest, p.pc.file.toList ++ p.todo = name :: rest := by
  unfold Proc.current at h
  cases hpc : p.pc with
  | checking =>
    rw [hpc] at h
    obtain ⟨rest, hrest⟩ := List.head?_eq_some_iff.mp h
    exact ⟨rfl, rest, hrest⟩
  | reading | beginning | applying | recording | committing =>
    rw [hpc] at h
    obtain rfl := Option.some.inj h
    exact ⟨rfl, p.todo, rfl⟩
  | _ =>
    rw [hpc] at h
    cases h

theorem endsAt_of_stop {err : Option ε} {applied : Bool} {name : GoString} (hI : Safe db s)
    (h : stop s k err applied = some s') (hname : (s.procs k).current = some name) :
    EndsAt db s s' k applied name := by
  have hagrees := (safe_stop hI h).agrees
  obtain ⟨hk, rest, hrest⟩ := current_eq_some hname
  have hholder := hI.holder k ((hI.lock k).mp hk)
  obtain ⟨pc, hending, rfl⟩ := Option.map_eq_some_iff.mp h
  obtain ⟨-, hrun, -⟩ := ending_eq_some hending
  have hasc := hholder.ascending
  rw [hrest] at hasc
  have hlast : ∀ g ∈ (s.procs k).done, g ≤ name := fun g hg =>
    List.le_of_lt ((List.pairwise_append.mp hasc).2.2 g hg name List.mem_cons_self)
  -- the process after the step
  have hself : ({ carriedOut s applied (s.procs k).pc with
      lock := if (s.procs k).pc.holds = true then none else s.lock }.put k
        { s.procs k with pc, done := (s.procs k).files applied }).procs k =
      { s.procs k with pc, done := (s.procs k).files applied } := Function.update_self ..
  rcases carriedOut_cases s (s.procs k) applied with ⟨hrecorded, hschema, hfiles⟩ |
    ⟨name', work, hcommitting, happlied, heq, hfiles⟩
  · refine ⟨by rw [hself]; exact hrun, ?_, .inl ⟨hrecorded, hschema, fun hfile => ?_⟩⟩
    · rw [hself]
      show ∀ g ∈ (s.procs k).files applied, g ≤ name
      rw [hfiles]
      exact hlast
    · exact fun hmem => hholder.pending name hfile (hrecorded ▸ hmem)
  · obtain rfl : name' = name := by
      rw [hcommitting] at hrest
      exact (List.cons.inj hrest).1
    refine ⟨by rw [hself]; exact hrun, ?_, .inr ⟨happlied, ⟨work, hcommitting⟩, ?_, hagrees⟩⟩
    · rw [hself]
      show ∀ g ∈ (s.procs k).files applied, g ≤ name'
      rw [hfiles]
      intro g hg
      rcases List.mem_append.mp hg with hg | hg
      · exact hlast g hg
      · exact (List.mem_singleton.mp hg).symm ▸ List.le_refl _
    · show (carriedOut s applied (s.procs k).pc).recorded = _
      rw [heq]
      rfl

/-- **Migrations are applied exactly once and as a whole**: after every run of the processes the
recorded files are those that made the schema, each of them once; every process has applied its
files in ascending order, and all that it has found if it returns without an error; and a file at
which its run ends leaves nothing, unless its commit was carried out without a reply. -/
theorem migrate_safe {as : List (Label ε Q)} (h : exec (step db) (initial db) as = some s) :
    Exact db s ∧ (∀ k, (s.procs k).done.Pairwise (· < ·)) ∧
      (∀ k, (s.procs k).pc = .returned (.ok ()) → ∀ name ∈ (s.procs k).listed,
        name ∈ s.recorded) ∧
      ∀ k err applied s' name, step db s (.stop k err applied) = some s' →
        (s.procs k).current = some name → EndsAt db s s' k applied name := by
  have hI : Safe db s := exec_invariant (fun _ _ _ hI hs => safe_step hI hs) safe_initial h
  exact ⟨hI.agrees, fun k => (hI.settled k).ascending, fun k => (hI.settled k).complete,
    fun k err applied s' name hs hname => endsAt_of_stop hI hs hname⟩

end

/-! ### A commit without a reply -/

/-- Statements that are kept as they come. -/
def trace : Database ℕ (List ℕ) := ⟨[], fun schema stmt => some (schema ++ [stmt])⟩

def initFile : Entry ℕ := ⟨lit "0001_init.sql", false, [1]⟩

def indexFile : Entry ℕ := ⟨lit "0002_index.sql", false, [2, 3]⟩

/-- A process comes to the commit of the first file. -/
def toCommit : List (Label String ℕ) :=
  [.gain initFile, .gain indexFile, .start 0] ++ List.replicate 10 (.proceed 0)

/-- The connection breaks after the server has committed. -/
def lost : Label String ℕ := .stop 0 (some "unexpected EOF") true

/-- Another process goes through both files. -/
def afterLost : List (Label String ℕ) := .start 1 :: List.replicate 14 (.proceed 1)

/-- The file whose commit got no reply is skipped, and the other one is applied. -/
theorem migrate_safe_lost : ∃ s s' t : State String ℕ (List ℕ),
    exec (step trace) (initial trace) toCommit = some s ∧ step trace s lost = some s' ∧
      EndsAt trace s s' 0 true (lit "0001_init.sql") ∧
      exec (step trace) (initial trace) (toCommit ++ lost :: afterLost) = some t ∧
      (t.procs 1).pc = .returned (.ok ()) ∧ (t.procs 1).done = [lit "0002_index.sql"] ∧
      t.recorded = [lit "0001_init.sql", lit "0002_index.sql"] ∧ t.schema = [1, 2, 3] ∧
      Exact trace t ∧ ∀ name ∈ (t.procs 1).listed, name ∈ t.recorded := by
  have hrun : ∃ s s' t : State String ℕ (List ℕ),
      exec (step trace) (initial trace) toCommit = some s ∧ step trace s lost = some s' ∧
        (s.procs 0).current = some (lit "0001_init.sql") ∧
        exec (step trace) (initial trace) (toCommit ++ lost :: afterLost) = some t ∧
        (t.procs 1).pc = .returned (.ok ()) ∧ (t.procs 1).done = [lit "0002_index.sql"] ∧
        t.recorded = [lit "0001_init.sql", lit "0002_index.sql"] ∧ t.schema = [1, 2, 3] :=
    ⟨_, _, _, rfl, rfl, rfl, rfl, rfl, by decide, by decide, by decide⟩
  obtain ⟨s, s', t, hs, hs', hname, ht, hreturned, hdone, hrecorded, hschema⟩ := hrun
  obtain ⟨-, -, -, hends⟩ := migrate_safe hs
  obtain ⟨hexact, -, hcomplete, -⟩ := migrate_safe ht
  exact ⟨s, s', t, hs, hs', hends 0 _ true s' _ hs' hname, ht, hreturned, hdone, hrecorded, hschema,
    hexact, hcomplete 1 hreturned⟩

/-- **A file fails with its effects and its record in.** -/
theorem not_failed_untouched :
    ¬∀ (db : Database ℕ (List ℕ)) (as : List (Label String ℕ)) (s s' : State String ℕ (List ℕ))
      (k : ℕ) (err : String) (applied : Bool) (name : GoString),
      exec (step db) (initial db) as = some s → step db s (.stop k (some err) applied) = some s' →
        (s.procs k).pc.file = some name → name ∉ s'.recorded ∧ s'.schema = s.schema := by
  intro h
  have huntouched := h trace toCommit _ _ 0 "unexpected EOF" true (lit "0001_init.sql") rfl rfl rfl
  exact absurd huntouched.1 (by decide)

end CsvProductUploader.Migration

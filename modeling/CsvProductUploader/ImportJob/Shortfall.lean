import CsvProductUploader.ImportJob.Handover

/-!
# What a finished job tells about its import

The counters of a job are written every so many published rows and once more when all of
them are flushed.  A failure between two writes leaves those of the last one.

## Main definitions

* `Tells` — the stored counters are those of the rows handed over.
* `CaughtUp` — the callback has just written its counters, or has nothing to write.
* `Recorded` — by how the import ended, its last counters have been written.

## Main results

* `stored_step` — what the stored counters tell, at each place of `process`.
* `ledger_tells_iff` — when a finished job tells what has reached the event stream.
-/

namespace CsvProductUploader

open Runs Importer

theorem Pc.not_unflushed_of_totaled {pc : Pc} (h : pc.totaled = true) : pc.unflushed = false := by
  cases pc <;> simp_all [Pc.totaled, Pc.unflushed]

namespace Handover

/-- The stored counters count the events that the publisher has taken, and every row handed
to the callback. -/
def Tells (s : State) : Prop :=
  s.job.publishedRows = (accepted s.log).length ∧
    s.job.totalRows = s.job.validRows + s.job.invalidRows ∧ s.job.totalRows = s.emitted.length

/-- The stored counters miss a row handed to the callback. -/
def Behind (s : State) : Prop := s.job.totalRows < s.emitted.length

/-- The last row is one after which the callback writes its counters; or there is none. -/
def CaughtUp (flushEvery : ℕ) (rows : List Row) : Prop :=
  ∀ row ∈ rows.getLast?, row.valid = true ∧ (validRows rows).length % flushEvery = 0

/-- By the last call before the status is written, the counters have been. -/
def Recorded (s : State) : Prop :=
  match s.log.getLast? with
  -- The row with the publisher has been counted, but is not valid yet.
  | some (.publish _, _) => False
  | some (.updateProgress _, o) =>
    o.applied = true ∨ ((.flush, .ok) ∈ s.log ∧ CaughtUp s.g.flushEvery s.emitted)
  | some (.ctxErr, _) | some (.flush, _) => CaughtUp s.g.flushEvery s.emitted
  | _ => True

/-! ### The stored counters -/

theorem not_tells_of_behind {s : State} (h : Behind s) : ¬Tells s := by
  rintro ⟨-, -, htotal⟩
  unfold Behind at h
  omega

theorem progress_written {c : Call} {o : Outcome}
    (h : (∀ p, c ≠ .updateProgress p) ∨ o.applied = false) (j : ImportJob) :
    (written c o j).progress = j.progress := by
  unfold written
  split
  · next p hp =>
    rcases h with h | h
    · exact absurd rfl (h p)
    · rw [h] at hp
      cases hp
  · rfl
  · rfl

theorem tells_congr {s s' : State} (hjob : s'.job.progress = s.job.progress)
    (hemitted : s'.emitted = s.emitted) (haccepted : accepted s'.log = accepted s.log) :
    Tells s' ↔ Tells s := by
  simp only [ImportJob.progress, Progress.mk.injEq] at hjob
  obtain ⟨htotal, hvalid, hinvalid, hpublished⟩ := hjob
  unfold Tells
  rw [htotal, hvalid, hinvalid, hpublished, hemitted, haccepted]

theorem behind_congr {s s' : State} (hjob : s'.job.progress = s.job.progress)
    (hemitted : s'.emitted = s.emitted) : Behind s' ↔ Behind s := by
  simp only [ImportJob.progress, Progress.mk.injEq] at hjob
  unfold Behind
  rw [hjob.1, hemitted]

/-- The counters of the callback tell what has been handed over. -/
theorem tells_of_saved {file : File} {s s' : State} {p : Progress} (hT : Tally file s)
    (hcall : s.g.call = some (.updateProgress p)) (hjob : s'.job.progress = p)
    (hemitted : s'.emitted = s.emitted) (haccepted : accepted s'.log = accepted s.log) :
    Tells s' := by
  obtain ⟨hsum, hvalid, hpublished⟩ := hT.counters hcall
  have htotal : p.totalRows = s.emitted.length := by
    obtain rfl : p = s.g.progress := write_eq_some (o := .ok) hcall rfl
    exact hT.total
  subst hjob
  unfold Tells
  rw [hemitted, haccepted]
  exact ⟨hpublished, hsum, htotal⟩

theorem caughtUp_snoc {n : ℕ} {rows : List Row} {row : Row} :
    CaughtUp n (rows ++ [row]) ↔
      row.valid = true ∧ (validRows (rows ++ [row])).length % n = 0 := by
  unfold CaughtUp
  simp

/-- The counters are right if the callback has just written them, and behind otherwise. -/
def Level (s : State) : Prop :=
  (CaughtUp s.g.flushEvery s.emitted → Tells s) ∧ (¬CaughtUp s.g.flushEvery s.emitted → Behind s)

theorem Level.total_le {s : State} (h : Level s) : s.job.totalRows ≤ s.emitted.length := by
  by_cases hcaught : CaughtUp s.g.flushEvery s.emitted
  · exact Nat.le_of_eq (h.1 hcaught).2.2
  · exact Nat.le_of_lt (h.2 hcaught)

theorem Level.tells_iff {s : State} (h : Level s) :
    Tells s ↔ CaughtUp s.g.flushEvery s.emitted := by
  constructor
  · intro htells
    by_contra hcaught
    exact not_tells_of_behind (h.2 hcaught) htells
  · exact h.1

/-- What the stored counters tell, at each place of `process`. -/
def Told (s : State) : Prop :=
  match s.g.pc with
  | .opening => Tells s ∧ s.emitted = []
  | .streaming _ | .flushing => Level s
  | .publishing row _ => Behind s ∧ ∃ rows, s.emitted = rows ++ [row] ∧ row.valid = true
  | .saving _ => Behind s ∧ CaughtUp s.g.flushEvery s.emitted
  | .savingTotals => Level s ∧ (.flush, .ok) ∈ s.log
  | .failing _ => Tells s ↔ Recorded s
  | .returned => True
  | .completingEmpty | .markingProcessing | .awaiting | .reading | .completing =>
    Tells s ∧ Recorded s

theorem told_of_totaled {s : State} (h : s.g.pc.totaled = true) :
    Told s ↔ Tells s ∧ Recorded s := by
  unfold Told
  cases hpc : s.g.pc <;> first | rfl | (rw [hpc] at h; cases h)

structure Stored (s : State) : Prop where
  unflushed : s.g.pc.unflushed = true → (.flush, .ok) ∉ s.log
  told : Told s

theorem stored_start (flushEvery : ℕ) (file : File) : Stored (start flushEvery file) where
  unflushed := fun _ => List.not_mem_nil
  told := ⟨⟨rfl, rfl, rfl⟩, rfl⟩

/-! ### One call -/

/-- What one call of `process` and its outcome can do. -/
inductive Turn (g : Goroutine) : Call → Outcome → Goroutine → Prop
  | opened : g.pc = .opening → Turn g .openFile .ok { g with pc := .streaming g.file.rows }
  | invalid {row : Row} {rows : List Row} : g.pc = .streaming (row :: rows) →
      ¬row.valid = true → Turn g .ctxErr .ok
        { g with total := g.total + 1, invalid := g.invalid + 1, pc := .streaming rows }
  | valid {row : Row} {rows : List Row} : g.pc = .streaming (row :: rows) → row.valid = true →
      Turn g .ctxErr .ok { g with total := g.total + 1, pc := .publishing row rows }
  | ended : g.pc = .streaming [] → Turn g .ctxErr .ok { g with pc := .flushing }
  | published {row : Row} {rows : List Row} : g.pc = .publishing row rows →
      Turn g (.publish row) .ok
        { g with valid := g.valid + 1, published := g.published + 1,
                 pc := if (g.published + 1) % g.flushEvery = 0 then .saving rows
                       else .streaming rows }
  | saved {rows : List Row} : g.pc = .saving rows →
      Turn g (.updateProgress g.progress) .ok { g with pc := .streaming rows }
  | flushed : g.pc = .flushing → Turn g .flush .ok { g with pc := .savingTotals }
  | totaled {pc : Pc} : g.pc = .savingTotals → pc.totaled = true →
      Turn g (.updateProgress g.progress) .ok { g with pc }
  /-- The counters are final, and a call about the status goes on. -/
  | settled {c : Call} {o : Outcome} {pc : Pc} : g.pc.totaled = true → pc.totaled = true →
      g.call = some c → Turn g c o { g with pc }
  | failed {c : Call} {o : Outcome} {cause : Cause} : g.call = some c → running g.pc = true →
      handed g o.answer = none → passed g o.answer = none →
      Turn g c o { g with pc := .failing cause }
  | returned {c : Call} {o : Outcome} : Turn g c o { g with pc := .returned }

theorem turn_of_resume {g g' : Goroutine} {c : Call} {o : Outcome} (hc : g.call = some c)
    (hg : g.resume o.answer = some g') : Turn g c o g' := by
  have hcall : ∀ {c'}, g.call = some c' → c = c' := fun h => Option.some.inj (hc.symm.trans h)
  revert hg
  generalize ha : o.answer = a
  fun_cases Goroutine.resume g a
  all_goals intro hg
  all_goals simp only [Option.some.injEq, reduceCtorEq] at hg
  all_goals subst hg
  case case2 | case3 | case5 | case9 | case11 | case13 | case15 | case19 | case21 | case25 =>
    exact .failed hc (by simp [running, *]) (by simp [handed, *]) (by simp [passed, *])
  case case16 | case17 | case23 | case27 | case28 | case29 | case30 => exact .returned
  case case18 | case20 | case22 | case24 | case26 =>
    exact .settled (by simp [Pc.totaled, *]) rfl hc
  -- the calls before the totals are saved, answered without an error
  all_goals obtain rfl := Outcome.eq_ok_of_answer ha
  case case1 hpc =>
    obtain rfl := hcall (show g.call = some .openFile by rw [Goroutine.call, hpc])
    exact .opened hpc
  case case4 hpc _ =>
    obtain rfl := hcall (show g.call = some .ctxErr by rw [Goroutine.call, hpc])
    exact .ended hpc
  case case6 hpc hvalid =>
    obtain rfl := hcall (show g.call = some .ctxErr by rw [Goroutine.call, hpc])
    exact .valid hpc hvalid
  case case7 hpc hvalid =>
    obtain rfl := hcall (show g.call = some .ctxErr by rw [Goroutine.call, hpc])
    exact .invalid hpc hvalid
  case case8 row rows hpc =>
    obtain rfl := hcall (show g.call = some (.publish row) by rw [Goroutine.call, hpc])
    exact .published hpc
  case case10 hpc =>
    obtain rfl := hcall (show g.call = some (.updateProgress g.progress) by
      rw [Goroutine.call, hpc])
    exact .saved hpc
  case case12 hpc =>
    obtain rfl := hcall (show g.call = some .flush by rw [Goroutine.call, hpc])
    exact .flushed hpc
  case case14 hpc =>
    obtain rfl := hcall (show g.call = some (.updateProgress g.progress) by
      rw [Goroutine.call, hpc])
    refine .totaled hpc ?_
    split <;> rfl

/-- A call that neither moves a row nor writes a counter. -/
theorem level_next {s : State} {c : Call} {o : Outcome} {g : Goroutine}
    (hflushEvery : g.flushEvery = s.g.flushEvery) (hhanded : handed s.g o.answer = none)
    (hpassed : taken (c, o) = none) (hwrite : (∀ p, c ≠ .updateProgress p) ∨ o.applied = false) :
    (Tells (s.next c o g) ↔ Tells s) ∧ (Behind (s.next c o g) ↔ Behind s) ∧
      (s.next c o g).emitted = s.emitted ∧ (Level (s.next c o g) ↔ Level s) := by
  have hprogress : (s.next c o g).job.progress = s.job.progress := progress_written hwrite s.job
  have hemitted : (s.next c o g).emitted = s.emitted := by
    rw [State.next, hhanded]
    exact List.append_nil _
  have haccepted : accepted (s.next c o g).log = accepted s.log := by
    rw [State.next, accepted_snoc, hpassed]
    exact List.append_nil _
  have htells := tells_congr hprogress hemitted haccepted
  have hbehind := behind_congr hprogress hemitted
  refine ⟨htells, hbehind, hemitted, ?_⟩
  unfold Level
  rw [htells, hbehind, hemitted, show (s.next c o g).g.flushEvery = s.g.flushEvery from hflushEvery]

theorem getLast?_next (s : State) (c : Call) (o : Outcome) (g : Goroutine) :
    (s.next c o g).log.getLast? = some (c, o) := List.getLast?_concat ..

/-- A write that reaches the database makes the job tell what has happened. -/
theorem tells_next {file : File} {s : State} {o : Outcome} {g : Goroutine} (hT : Tally file s)
    (hcall : s.g.call = some (.updateProgress s.g.progress)) (hhanded : handed s.g o.answer = none)
    (happlied : o.applied = true) : Tells (s.next (.updateProgress s.g.progress) o g) := by
  refine tells_of_saved hT hcall ?_ ?_ ?_
  · show (written _ o s.job).progress = _
    unfold written
    rw [happlied]
    rfl
  · rw [State.next, hhanded]
    exact List.append_nil _
  · rw [State.next, accepted_snoc]
    exact List.append_nil _

/-- After a write of the counters. -/
theorem recorded_of_updateProgress {s : State} {p : Progress} {o : Outcome}
    (h : s.log.getLast? = some (.updateProgress p, o)) :
    Recorded s ↔
      o.applied = true ∨ ((.flush, .ok) ∈ s.log ∧ CaughtUp s.g.flushEvery s.emitted) := by
  unfold Recorded
  rw [h]

/-- A failure is recorded as the calls before it and its own outcome have it. -/
theorem told_failed {file : File} {s : State} {c : Call} {o : Outcome} {cause : Cause}
    (hT : Tally file s) (hI : Stored s) (hc : s.g.call = some c) (hrun : running s.g.pc = true)
    (hhanded : handed s.g o.answer = none) (hpassed : taken (c, o) = none) :
    Tells (s.next c o { s.g with pc := .failing cause }) ↔
      Recorded (s.next c o { s.g with pc := .failing cause }) := by
  have hlast := getLast?_next s c o { s.g with pc := .failing cause }
  -- What the outcome of a call that writes no counter has been.
  have hquiet := level_next (s := s) (c := c) (o := o) (g := { s.g with pc := .failing cause }) rfl
    hhanded hpassed
  have htold := hI.told
  unfold Told at htold
  unfold Goroutine.call at hc
  cases hpc : s.g.pc with
  | opening =>
    rw [hpc] at hc htold
    obtain rfl := Option.some.inj hc
    obtain ⟨htells, -⟩ := hquiet (Or.inl fun p => by simp)
    rw [Recorded, hlast]
    exact iff_of_true (htells.mpr htold.1) trivial
  | streaming rows =>
    rw [hpc] at hc htold
    obtain rfl := Option.some.inj hc
    obtain ⟨-, -, -, hlevel⟩ := hquiet (Or.inl fun p => by simp)
    rw [Recorded, hlast]
    exact (hlevel.mpr htold).tells_iff
  | publishing row rows =>
    rw [hpc] at hc htold
    obtain rfl := Option.some.inj hc
    obtain ⟨-, hbehind, -⟩ := hquiet (Or.inl fun p => by simp)
    rw [Recorded, hlast]
    exact iff_of_false (not_tells_of_behind (hbehind.mpr htold.1)) id
  | saving rows =>
    rw [hpc] at hc htold
    obtain rfl := Option.some.inj hc
    -- There has been no flush.
    have hunflushed : (.flush, .ok) ∉ (s.next (.updateProgress s.g.progress) o
        { s.g with pc := .failing cause }).log := by
      rw [State.next, List.mem_append, not_or]
      exact ⟨hI.unflushed (by rw [hpc]; rfl), by simp⟩
    rw [recorded_of_updateProgress hlast, or_iff_left fun h => hunflushed h.1]
    cases happlied : o.applied with
    | true =>
      exact iff_of_true (tells_next hT (by rw [Goroutine.call, hpc]) hhanded happlied) rfl
    | false =>
      obtain ⟨-, hbehind, -⟩ := hquiet (Or.inr happlied)
      exact iff_of_false (not_tells_of_behind (hbehind.mpr htold.1)) (by simp)
  | flushing =>
    rw [hpc] at hc htold
    obtain rfl := Option.some.inj hc
    obtain ⟨-, -, -, hlevel⟩ := hquiet (Or.inl fun p => by simp)
    rw [Recorded, hlast]
    exact (hlevel.mpr htold).tells_iff
  | savingTotals =>
    rw [hpc] at hc htold
    obtain rfl := Option.some.inj hc
    rw [recorded_of_updateProgress hlast]
    cases happlied : o.applied with
    | true =>
      exact iff_of_true (tells_next hT (by rw [Goroutine.call, hpc]) hhanded happlied)
        (Or.inl rfl)
    | false =>
      obtain ⟨-, -, -, hlevel⟩ := hquiet (Or.inr happlied)
      have hflushed : (.flush, .ok) ∈ (s.next (.updateProgress s.g.progress) o
          { s.g with pc := .failing cause }).log := List.mem_append_left _ htold.2
      rw [(hlevel.mpr htold.1).tells_iff, or_iff_right (by simp)]
      exact (and_iff_right hflushed).symm
  | completingEmpty | markingProcessing | awaiting | reading | completing =>
    rw [hpc] at hc htold
    obtain rfl := Option.some.inj hc
    obtain ⟨htells, -⟩ := hquiet (Or.inl fun p => by simp)
    rw [Recorded, hlast]
    exact iff_of_true (htells.mpr htold.1) trivial
  | failing | returned =>
    rw [hpc] at hrun
    cases hrun

/-- A row handed to the callback leaves the stored counters behind. -/
theorem behind_of_handed {s : State} {g : Goroutine} {row : Row} {rows : List Row}
    (hlevel : Level s) (hpc : s.g.pc = .streaming (row :: rows)) :
    Behind (s.next .ctxErr .ok g) ∧ (s.next .ctxErr .ok g).emitted = s.emitted ++ [row] := by
  have hemitted : (s.next .ctxErr .ok g).emitted = s.emitted ++ [row] := by
    simp [State.next, handed, hpc, Outcome.answer]
  have htotal : (s.next .ctxErr .ok g).job.totalRows = s.job.totalRows := rfl
  have hle := hlevel.total_le
  refine ⟨?_, hemitted⟩
  rw [Behind, hemitted, htotal, List.length_append, List.length_singleton]
  omega

/-- **What one call does** to what the stored counters tell. -/
theorem told_next {file : File} {s : State} {c : Call} {o : Outcome} {g : Goroutine}
    (hT : Tally file s) (hI : Stored s) (hturn : Turn s.g c o g) (hc : s.g.call = some c) :
    Told (s.next c o g) := by
  have htold := hI.told
  unfold Told at htold
  cases hturn with
  | opened hpc =>
    rw [hpc] at htold
    obtain ⟨htells, -, hemitted, -⟩ := level_next (s := s) (c := .openFile) (o := .ok)
      (g := { s.g with pc := .streaming s.g.file.rows }) rfl (by simp [handed, hpc]) rfl
      (Or.inl fun p => by simp)
    refine ⟨fun _ => htells.mpr htold.1, ?_⟩
    intro hcaught
    rw [hemitted, htold.2] at hcaught
    exact absurd (fun row hrow => by simp at hrow) hcaught
  | @invalid row rows hpc hinvalid =>
    rw [hpc] at htold
    obtain ⟨hbehind, hemitted⟩ := behind_of_handed htold hpc
    refine ⟨?_, fun _ => hbehind⟩
    intro hcaught
    rw [hemitted, caughtUp_snoc] at hcaught
    exact absurd hcaught.1 hinvalid
  | @valid row rows hpc hvalid =>
    rw [hpc] at htold
    obtain ⟨hbehind, hemitted⟩ := behind_of_handed htold hpc
    exact ⟨hbehind, s.emitted, hemitted, hvalid⟩
  | ended hpc =>
    rw [hpc] at htold
    obtain ⟨-, -, -, hlevel⟩ := level_next (s := s) (c := .ctxErr) (o := .ok)
      (g := { s.g with pc := .flushing }) rfl (by simp [handed, hpc]) rfl
      (Or.inl fun p => by simp)
    exact hlevel.mpr htold
  | @published row rows hpc =>
    rw [hpc] at htold
    obtain ⟨hbehind, done, hdone, hvalid⟩ := htold
    have hemitted : ∀ g, (s.next (.publish row) .ok g).emitted = s.emitted := by
      intro g
      simp [State.next, handed, hpc]
    have hbehind' : ∀ g, Behind (s.next (.publish row) .ok g) := by
      intro g
      have hprogress : (s.next (.publish row) .ok g).job.progress = s.job.progress := rfl
      exact (behind_congr hprogress (hemitted g)).mpr hbehind
    -- The row is the last valid one, and the callback saves at multiples of the interval.
    have hcount : s.g.published + 1 = (validRows s.emitted).length := by
      have hrows := hT.unpublished (by rw [hpc]; rfl)
      rw [hrows, hT.published, hpc, List.length_append]
      rfl
    have hcaught : ∀ g : Goroutine, CaughtUp g.flushEvery (s.next (.publish row) .ok g).emitted ↔
        (s.g.published + 1) % g.flushEvery = 0 := by
      intro g
      rw [hemitted g, hcount, hdone, caughtUp_snoc, and_iff_right hvalid]
    unfold Told
    by_cases hsave : (s.g.published + 1) % s.g.flushEvery = 0
    · simp only [State.next, if_pos hsave]
      exact ⟨hbehind' _, (hcaught _).mpr hsave⟩
    · simp only [State.next, if_neg hsave]
      exact ⟨fun h => absurd ((hcaught _).mp h) hsave, fun _ => hbehind' _⟩
  | @saved rows hpc =>
    rw [hpc] at htold
    have htells : Tells (s.next (.updateProgress s.g.progress) .ok
        { s.g with pc := .streaming rows }) :=
      tells_next hT (by rw [Goroutine.call, hpc]) (by simp [handed, hpc]) rfl
    refine ⟨fun _ => htells, ?_⟩
    intro hcaught
    have hemitted : (s.next (.updateProgress s.g.progress) .ok
        { s.g with pc := .streaming rows }).emitted = s.emitted := by
      simp [State.next, handed, hpc]
    rw [hemitted] at hcaught
    exact absurd htold.2 hcaught
  | flushed hpc =>
    rw [hpc] at htold
    obtain ⟨-, -, -, hlevel⟩ := level_next (s := s) (c := .flush) (o := .ok)
      (g := { s.g with pc := .savingTotals }) rfl (by simp [handed, hpc]) rfl
      (Or.inl fun p => by simp)
    exact ⟨hlevel.mpr htold, List.mem_append_right _ (List.mem_singleton.mpr rfl)⟩
  | @totaled pc hpc hpc' =>
    have htells : Tells (s.next (.updateProgress s.g.progress) .ok { s.g with pc }) :=
      tells_next hT (by rw [Goroutine.call, hpc]) (by simp [handed, hpc]) rfl
    have hrecorded : Recorded (s.next (.updateProgress s.g.progress) .ok { s.g with pc }) :=
      (recorded_of_updateProgress (getLast?_next ..)).mpr (Or.inl rfl)
    exact (told_of_totaled hpc').mpr ⟨htells, hrecorded⟩
  | @settled c o pc hpc hpc' hcall =>
    obtain ⟨hhanded, hpassed⟩ := quiet_of_totaled hpc o.answer
    have hstatus : (∀ p, c ≠ .updateProgress p) ∧ Recorded (s.next c o { s.g with pc }) := by
      unfold Recorded
      rw [getLast?_next]
      rcases call_of_totaled hcall hpc with ⟨next, lastErr, rfl⟩ | rfl | rfl
      · exact ⟨fun p => by simp, trivial⟩
      · exact ⟨fun p => by simp, trivial⟩
      · exact ⟨fun p => by simp, trivial⟩
    have htaken : taken (c, o) = none := by rw [taken_eq_passed hcall, hpassed]
    obtain ⟨htells, -⟩ := level_next (s := s) (c := c) (o := o) (g := { s.g with pc }) rfl hhanded
      htaken (Or.inl hstatus.1)
    have htold' := ((told_of_totaled hpc).mp hI.told).1
    exact (told_of_totaled hpc').mpr ⟨htells.mpr htold', hstatus.2⟩
  | failed hcall hrun hhanded hpassed =>
    exact told_failed hT hI hcall hrun hhanded (by rw [taken_eq_passed hcall, hpassed])
  | returned => trivial

/-- Until the flush succeeds it is not in the log as a success. -/
theorem unflushed_next {s : State} {c : Call} {o : Outcome} {g : Goroutine} (hI : Stored s)
    (hturn : Turn s.g c o g) (hpc : g.pc.unflushed = true) :
    (.flush, .ok) ∉ (s.next c o g).log := by
  have hother : s.g.pc.unflushed = true → c ≠ .flush → (.flush, .ok) ∉ (s.next c o g).log := by
    intro hpc' hne
    rw [State.next, List.mem_append, not_or]
    refine ⟨hI.unflushed hpc', ?_⟩
    intro hmem
    exact hne (Prod.mk.inj (List.mem_singleton.mp hmem)).1.symm
  cases hturn with
  | opened hpc' | invalid hpc' | valid hpc' | ended hpc' | published hpc' | saved hpc' =>
    exact hother (by rw [hpc']; rfl) (by simp)
  | flushed | failed | returned => cases hpc
  | totaled _ hpc' | settled _ hpc' =>
    rw [Pc.not_unflushed_of_totaled hpc'] at hpc
    cases hpc

/-- Reading the job leads on to its status, or to the end of the import. -/
theorem resume_job {g g' : Goroutine} {j : ImportJob} {stale : Bool}
    (h : g.resume (.job j stale) = some g') :
    g.pc = .reading ∧ ∃ pc, g' = { g with pc } ∧
      (pc.totaled = true ∨ (∃ cause, pc = .failing cause) ∨ pc = .returned) := by
  cases hpc : g.pc with
  | reading =>
    simp only [Goroutine.resume, hpc] at h
    refine ⟨rfl, ?_⟩
    split_ifs at h
    · exact ⟨_, (Option.some.inj h).symm, Or.inr (Or.inr rfl)⟩
    · exact ⟨_, (Option.some.inj h).symm, Or.inl rfl⟩
    · exact ⟨_, (Option.some.inj h).symm, Or.inr (Or.inl ⟨_, rfl⟩)⟩
    · exact ⟨_, (Option.some.inj h).symm, Or.inl rfl⟩
  | _ => simp [Goroutine.resume, hpc] at h

/-- **One step of the run** keeps what the stored counters tell. -/
theorem stored_step {file : File} {s s' : State} {a : Label} (hT : Tally file s) (hI : Stored s)
    (h : step s a = some s') : Stored s' := by
  cases a with
  | call o =>
    obtain ⟨c, g, hc, hg, rfl⟩ := step_call h
    have hturn := turn_of_resume hc hg
    exact ⟨unflushed_next hI hturn, told_next hT hI hturn hc⟩
  | read j stale =>
    obtain ⟨g, hg, rfl⟩ := step_read h
    obtain ⟨hpc, pc, rfl, hend⟩ := resume_job hg
    have htold := (told_of_totaled (by rw [hpc]; rfl)).mp hI.told
    rcases hend with htotaled | ⟨cause, rfl⟩ | rfl
    · refine ⟨?_, (told_of_totaled htotaled).mpr htold⟩
      intro hunflushed
      rw [Pc.not_unflushed_of_totaled htotaled] at hunflushed
      cases hunflushed
    · exact ⟨fun h => (by cases h), iff_of_true htold.1 htold.2⟩
    · exact ⟨fun h => (by cases h), trivial⟩

theorem stored_run {flushEvery : ℕ} {file : File} {as : List Label} {s : State}
    (h : exec step (start flushEvery file) as = some s) : Stored s := by
  have hboth : Tally file s ∧ Stored s :=
    exec_invariant (I := fun s => Tally file s ∧ Stored s)
      (fun _ _ _ hI hstep => ⟨tally_step hI.1 hstep, stored_step hI.1 hI.2 hstep⟩)
      ⟨tally_start flushEvery file, stored_start flushEvery file⟩ h
  exact hboth.2

/-! ### The end of an import -/

/-- A completed job tells what has reached the event stream. -/
theorem recorded_of_completed {flushEvery : ℕ} {file : File} {as : List Label} {s : State}
    {lastErr : Option String} (hrun : exec step (start flushEvery file) as = some s)
    (hcall : s.g.call = some (.updateStatus .completed lastErr)) : Tells s ∧ Recorded s := by
  refine (told_of_totaled ?_).mp (stored_run hrun).told
  rcases Goroutine.call_updateStatus hcall with ⟨hpc, -⟩ | ⟨-, hnext, -⟩ | ⟨hpc, -⟩ |
    ⟨cause, -, hnext, -⟩
  · rw [hpc]
    rfl
  · cases hnext
  · rw [hpc]
    rfl
  · cases hnext

/-- **When a finished job tells about its import.**  As `process` sets a terminal status,
and the write reaches the database, the stored counters are those of the events the
publisher has taken and of the rows handed to the callback exactly if, by the last call
before, they have been recorded. -/
theorem ledger_tells_iff {flushEvery : ℕ} {file : File} {as : List Label} {s s' : State}
    {next : Status} {lastErr : Option String} {o : Outcome}
    (hrun : exec step (start flushEvery file) as = some s)
    (hcall : s.g.call = some (.updateStatus next lastErr)) (hterminal : next.terminal = true)
    (hstep : step s (.call o) = some s') (happlied : o.applied = true) :
    s'.job.status = next ∧ (Tells s' ↔ Recorded s) := by
  obtain ⟨c, g, hc, hg, rfl⟩ := step_call hstep
  obtain rfl : c = .updateStatus next lastErr := Option.some.inj (hc.symm.trans hcall)
  -- The terminal write moves no counter.
  have htells : Tells (s.next (.updateStatus next lastErr) o g) ↔ Tells s := by
    refine (level_next (resume_counters hg).2.1 ?_ rfl (Or.inl fun p => by simp)).1
    unfold handed
    rcases Goroutine.call_updateStatus hcall with ⟨hpc, -⟩ | ⟨hpc, -⟩ | ⟨hpc, -⟩ |
      ⟨cause, hpc, -⟩ <;> rw [hpc]
  refine ⟨?_, htells.trans ?_⟩
  · show (written _ o s.job).status = next
    unfold written
    rw [happlied]
  · cases hnext : next with
    | completed =>
      rw [hnext] at hcall
      obtain ⟨htold, hrecorded⟩ := recorded_of_completed hrun hcall
      exact iff_of_true htold hrecorded
    | failed =>
      rw [hnext] at hcall
      rcases Goroutine.call_updateStatus hcall with ⟨-, hst, -⟩ | ⟨-, hst, -⟩ | ⟨-, hst, -⟩ |
        ⟨cause, hpc, -⟩
      · cases hst
      · cases hst
      · cases hst
      · have htold := (stored_run hrun).told
        unfold Told at htold
        rwa [hpc] at htold
    | uploading | parsing | publishing | processing =>
      rw [hnext] at hterminal
      cases hterminal

/-- A valid row of number 2. -/
def secondRow : Row := { num := 2, product := default, reason := none }

/-- So many calls succeed, and the next one fails. -/
def failAfter (n : ℕ) : List Label :=
  List.replicate n (.call .ok) ++ [.call (.err "not enough replicas" false)]

/-- With an interval of one the job tells of the row, though its delivery has failed. -/
theorem failed_flush_told : ∃ s s',
    exec step (start 1 { rows := [secondRow] }) (failAfter 5) = some s ∧
      step s (.call .ok) = some s' ∧ s'.job.status = .failed ∧ Tells s' := by
  have hrun : ∃ s s', exec step (start 1 { rows := [secondRow] }) (failAfter 5) = some s ∧
        step s (.call .ok) = some s' ∧
            (∃ lastErr, s.g.call = some (.updateStatus .failed lastErr)) ∧
          Recorded s := by
    refine ⟨_, _, rfl, rfl, ⟨_, rfl⟩, ?_⟩
    show CaughtUp 1 [secondRow]
    unfold CaughtUp
    decide
  obtain ⟨s, s', hs, hs', ⟨lastErr, hcall⟩, hrecorded⟩ := hrun
  obtain ⟨hstatus, htells⟩ := ledger_tells_iff hs hcall rfl hs' rfl
  exact ⟨s, s', hs, hs', hstatus, htells.mpr hrecorded⟩

/-- With an interval of one hundred the job tells of no row, though the publisher has
taken one. -/
theorem failed_flush_untold :
    ¬∀ flushEvery file as s s' next lastErr o, exec step (start flushEvery file) as = some s →
      s.g.call = some (.updateStatus next lastErr) → next.terminal = true →
        step s (.call o) = some s' → o = .ok → Tells s' := by
  intro h
  have hrun : ∃ s s',
      exec step (start 100 { rows := [secondRow] }) (failAfter 4) = some s ∧
        step s (.call .ok) = some s' ∧
            (∃ lastErr, s.g.call = some (.updateStatus .failed lastErr)) ∧
          s'.job.publishedRows = 0 ∧ (accepted s'.log).length = 1 :=
    ⟨_, _, rfl, rfl, ⟨_, rfl⟩, rfl, rfl⟩
  obtain ⟨s, s', hs, hs', ⟨lastErr, hcall⟩, hstored, haccepted⟩ := hrun
  obtain ⟨hpublished, -⟩ := h 100 _ _ s s' .failed lastErr .ok hs hcall rfl hs' rfl
  omega

end Handover

end CsvProductUploader

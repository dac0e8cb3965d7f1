import CsvProductUploader.NodePipeline.Processor

/-!
# Whether a retried batch recovers

The catch clause removes the file, and the rates of a batch cannot be stored twice.  So an
attempt has what it needs only if no attempt before it has come to either, and what it
needs is all it needs.

## Main definitions

* `Settles` — an attempt without failures from outside ends, and by what it recovers.

## Main results

* `settles_loop` — the slices are saved to the last row, or to one the table does not take.
* `settles_marking` — by what a whole attempt recovers.
* `not_recovered_of_lost` — a batch that has lost what an attempt needs never recovers.
* `recovers_iff` — when an attempt recovers, in every run.
-/

namespace CsvProductUploader.NodePipeline

open Runs

section
variable {job : Job} {w : World} {c : Call} {s t : State} {P : Prop}

/-- Without failures from outside, the attempt comes to an end, and there the batch has
recovered if and only if `P`. -/
def Settles (job : Job) (s : State) (P : Prop) : Prop :=
  ∃ t, Halts (step job) (.reply .ok) s t ∧ (Recovered job t.world ↔ P)

/-! ### One call -/

theorem settles_ok (pc : Pc) (hc : s.pc.call job = some c)
    (hrun : s.world.run job s.attempt c = .ok w)
    (hpc : s.pc.next job = pc) (h : Settles job { s with world := w, pc } P) :
    Settles job s P := by
  obtain ⟨t, hhalts, hiff⟩ := h
  have hstep : step job s (.reply .ok) = some { s with world := w, pc } := by
    simp only [step, hc, hrun, hpc, Option.map_some]
  exact ⟨t, (halts_iff_of_step hstep).mpr hhalts, hiff⟩

theorem settles_fault {f : Fault} (pc : Pc) (hc : s.pc.call job = some c)
    (hrun : s.world.run job s.attempt c = .error f) (hpc : s.pc.fail f = pc)
    (h : Settles job { s with pc } P) : Settles job s P := by
  obtain ⟨t, hhalts, hiff⟩ := h
  have hstep : step job s (.reply .ok) = some { s with pc } := by
    simp only [step, hc, hrun, hpc, Option.map_some]
  exact ⟨t, (halts_iff_of_step hstep).mpr hhalts, hiff⟩

/-- An attempt that has ended settles as it stands. -/
theorem settles_self (hc : s.pc.call job = none) (h : Recovered job s.world ↔ P) :
    Settles job s P := by
  have hend : step job s (.reply .ok) = none := by
    simp only [step, hc, Option.map_none]
  exact ⟨s, halts_self hend, h⟩

/-- The catch clause stores FAILED. -/
theorem settles_failing {error : Thrown} (hpc : s.pc = .failing error) (hP : ¬P) :
    Settles job s P := by
  refine settles_ok (.cleaning (some error)) (by rw [hpc]; rfl) rfl (by rw [hpc]; rfl) ?_
  refine settles_ok (.thrown error) rfl rfl rfl ?_
  refine settles_self rfl (iff_of_false ?_ hP)
  rintro ⟨hstatus, -⟩
  cases hstatus

/-! ### The slices -/

/-- With every row saved, the batch is completed. -/
theorem settles_completing (hpc : s.pc = .completing) (hproducts : s.world.products = job.validRows)
    (htotal : s.world.batch.totalRows = job.validRows.length) (hP : P) : Settles job s P := by
  refine settles_ok (.cleaning none) (by rw [hpc]; rfl) rfl (by rw [hpc]; rfl) ?_
  refine settles_ok .returned rfl rfl rfl ?_
  refine settles_self rfl (iff_of_true ⟨rfl, ?_, htotal, ?_⟩ hP)
  · exact htotal.symm
  · exact hproducts ▸ List.Perm.refl _

/-- **The loop over the slices** saves them to the last row, or to one that the products
table does not take; `k` bounds the passes that are left. -/
theorem settles_loop (k : ℕ) {i : ℕ} (hk : job.validRows.length ≤ i + k * BATCH_SIZE)
    (hpc : s.pc = .loop job i) (hproducts : s.world.products = job.validRows.take i)
    (htotal : s.world.batch.totalRows = job.validRows.length) :
    Settles job s (∀ row ∈ job.validRows.drop i, job.accepts row = true) := by
  induction k generalizing s i with
  | zero =>
    have hi : job.validRows.length ≤ i := by omega
    rw [Pc.loop, if_neg (by omega)] at hpc
    rw [List.take_of_length_le hi] at hproducts
    refine settles_completing hpc hproducts htotal ?_
    simp [List.drop_of_length_le hi]
  | succ k ih =>
    by_cases hi : i < job.validRows.length
    · rw [Pc.loop, if_pos hi] at hpc
      have hsplit : (job.validRows.drop i).take BATCH_SIZE ++ job.validRows.drop (i + BATCH_SIZE) =
          job.validRows.drop i := by
        rw [← List.drop_drop, List.take_append_drop]
      by_cases hslice : ((job.validRows.drop i).take BATCH_SIZE).all job.accepts = true
      · -- the slice is stored and reported, and the loop goes on after it
        have hall : ∀ row ∈ (job.validRows.drop i).take BATCH_SIZE, job.accepts row = true :=
          List.all_eq_true.mp hslice
        have hrest : (∀ row ∈ job.validRows.drop i, job.accepts row = true) ↔
            ∀ row ∈ job.validRows.drop (i + BATCH_SIZE), job.accepts row = true := by
          rw [← hsplit, List.forall_mem_append]
          exact and_iff_right hall
        rw [hrest]
        refine settles_ok (.savingProcessed i) (by rw [hpc]; rfl)
          (run_saveProducts hslice) (by rw [hpc]; rfl) ?_
        refine settles_ok (.reporting i) rfl rfl rfl ?_
        refine settles_ok (.loop job (i + BATCH_SIZE)) rfl rfl rfl ?_
        refine ih ?_ rfl ?_ htotal
        · rw [Nat.succ_mul] at hk
          omega
        · rw [List.take_add, ← hproducts]
      · refine settles_fault (.failing (.error job.refused)) (by rw [hpc]; rfl)
          (run_saveProducts_refused hslice) (by rw [hpc]; rfl) ?_
        refine settles_failing rfl fun hall => hslice ?_
        rw [List.all_eq_true]
        exact fun row hrow => hall row (List.mem_of_mem_take hrow)
    · have hle : job.validRows.length ≤ i := by omega
      rw [Pc.loop, if_neg hi] at hpc
      rw [List.take_of_length_le hle] at hproducts
      refine settles_completing hpc hproducts htotal ?_
      simp [List.drop_of_length_le hle]

/-! ### A whole attempt -/

/-- What an attempt needs. -/
structure Recoverable (job : Job) (w : World) : Prop where
  file : w.file = true
  rates : w.exchangeRates = []
  parsed : ∃ rows, job.parsed = .ok rows
  accepted : ∀ row ∈ job.validRows, job.accepts row = true

theorem settles_savingTotal (hpc : s.pc = .savingTotal) (hproducts : s.world.products = []) :
    Settles job s (∀ row ∈ job.validRows, job.accepts row = true) := by
  refine settles_ok (.loop job 0) (by rw [hpc]; rfl) rfl (by rw [hpc]; rfl) ?_
  refine settles_loop (i := 0) job.validRows.length ?_ rfl hproducts rfl
  have hle := Nat.le_mul_of_pos_right job.validRows.length (show 0 < BATCH_SIZE by decide)
  omega

/-- From the reading on, what matters is the file and its rows. -/
theorem settles_reading (hpc : s.pc = .reading) (hproducts : s.world.products = [])
    (hstatus : s.world.batch.status ≠ .completed) :
    Settles job s (s.world.file = true ∧ (∃ rows, job.parsed = .ok rows) ∧
      ∀ row ∈ job.validRows, job.accepts row = true) := by
  by_cases hfile : s.world.file = true
  · cases hparsed : job.parsed with
    | ok rows =>
      have hneeds : (s.world.file = true ∧ (∃ rows, job.parsed = .ok rows) ∧
          ∀ row ∈ job.validRows, job.accepts row = true) ↔
            ∀ row ∈ job.validRows, job.accepts row = true := by
        simp [hfile, hparsed]
      rw [← hparsed, hneeds]
      refine settles_ok .savingTotal (by rw [hpc]; rfl) (run_parseCSV hfile hparsed)
        (by rw [hpc]; rfl) ?_
      exact settles_savingTotal rfl hproducts
    | error message =>
      refine settles_fault (.failing (.error message)) (by rw [hpc]; rfl)
        (run_parseCSV_refused hfile hparsed) (by rw [hpc]; rfl) ?_
      refine settles_failing rfl ?_
      rintro ⟨-, ⟨rows, hrows⟩, -⟩
      cases hrows
  · -- nobody handles the error of the stream that opens the file
    refine settles_fault .died (by rw [hpc]; rfl)
      (run_parseCSV_crash (Bool.eq_false_of_not_eq_true hfile)) (by rw [hpc]; rfl) ?_
    exact settles_self rfl (iff_of_false (fun h => hstatus h.1) (fun h => hfile h.1))

/-- **By what an attempt recovers.** -/
theorem settles_marking (hw : Stored s.world) (hpc : s.pc = .marking) :
    Settles job s (Recoverable job s.world) := by
  refine settles_ok .savingRates (by rw [hpc]; rfl) rfl (by rw [hpc]; rfl) ?_
  by_cases hrates : s.world.exchangeRates = []
  · have hproducts : s.world.products = [] := by
      by_contra hne
      exact hw.products hne hrates
    have hneeds : Recoverable job s.world ↔ s.world.file = true ∧
        (∃ rows, job.parsed = .ok rows) ∧ ∀ row ∈ job.validRows, job.accepts row = true := by
      constructor
      · rintro ⟨hfile, -, hparsed, haccepted⟩
        exact ⟨hfile, hparsed, haccepted⟩
      · rintro ⟨hfile, hparsed, haccepted⟩
        exact ⟨hfile, hrates, hparsed, haccepted⟩
    rw [hneeds]
    refine settles_ok .reading rfl (run_saveRatesForBatch hrates) rfl ?_
    exact settles_reading rfl hproducts (by simp [UploadBatch.update])
  · refine settles_fault (.failing (.error job.duplicateKey)) rfl
      (run_saveRatesForBatch_refused ⟨hw.codes, hw.products⟩ hrates) rfl ?_
    exact settles_failing rfl fun h => hrates h.rates

/-- An attempt has one end. -/
theorem Settles.recovered_iff (h : Settles job s P) (ht : Halts (step job) (.reply .ok) s t) :
    Recovered job t.world ↔ P := by
  obtain ⟨u, hu, hiff⟩ := h
  rw [ht.unique hu]
  exact hiff

/-- **A batch that has lost what an attempt needs never recovers**, whatever attempts are
still made. -/
theorem not_recovered_of_lost {as bs : List Label} {u : State}
    (hs : exec (step job) start as = some s) (hlost : Lost s.world)
    (hu : exec (step job) s bs = some u) (hpc : u.pc = .marking)
    (ht : Halts (step job) (.reply .ok) u t) : ¬Recovered job t.world := by
  have hkept : Kept u := kept_of_exec (exec_append_eq_some.mpr ⟨s, hs, hu⟩)
  have hgone : Lost u.world :=
    exec_invariant (I := fun s => Lost s.world) (fun _ _ _ => lost_step) hlost hu
  rw [(settles_marking hkept.stored hpc).recovered_iff ht]
  rintro ⟨hfile, hrates, -, -⟩
  rcases hgone with hmissing | hne
  · rw [hmissing] at hfile
    cases hfile
  · exact hne hrates

end

/-- **Whether a batch recovers**: in every run of the attempts of a job, an attempt without
failures from outside comes to an end, and the batch is then completed with each valid row
as one product if and only if, at the attempt's beginning, the file was there and no rate
was stored, and the file holds nothing that the parser or the products table refuses. -/
theorem recovers_iff (job : Job) (as : List Label) (s : State)
    (hrun : exec (step job) start as = some s) (hpc : s.pc = .marking) :
    (∃ t, Halts (step job) (.reply .ok) s t) ∧
      ∀ t, Halts (step job) (.reply .ok) s t →
        (Recovered job t.world ↔ Recoverable job s.world) := by
  have hsettles : Settles job s (Recoverable job s.world) :=
    settles_marking (kept_of_exec hrun).stored hpc
  refine ⟨?_, fun t ht => hsettles.recovered_iff ht⟩
  obtain ⟨t, ht, -⟩ := hsettles
  exact ⟨t, ht⟩

/-- A file of one valid row. -/
def oneRow : Job where
  batchId := js "b"
  userId := none
  engine := ⟨.finite, fun d => 86400000 * d⟩
  parsed := .ok [⟨some (js "Pen"), some (js "$1.50"), some (js "1/2/2030")⟩]
  usd := fun _ => none
  accepts := fun _ => true
  duplicateKey := js "duplicate key value violates unique constraint"
  refused := js "numeric field overflow"

/-- The status update of the first attempt fails, and so does that of its catch clause: the
second attempt recovers. -/
theorem recovers_iff_oneRow : ∃ as s t,
    as = [.reply (.err (.error (js "read ECONNRESET")) false),
      .reply (.err (.error (js "read ECONNRESET")) false), .retry] ∧
    exec (step oneRow) start as = some s ∧ s.pc = .marking ∧ oneRow.validRows.length = 1 ∧
      Halts (step oneRow) (.reply .ok) s t ∧ Recovered oneRow t.world := by
  have hiff := recovers_iff oneRow
    [.reply (.err (.error (js "read ECONNRESET")) false),
      .reply (.err (.error (js "read ECONNRESET")) false), .retry] _ rfl rfl
  obtain ⟨t, ht⟩ := hiff.1
  exact ⟨_, _, t, rfl, rfl, rfl, by decide +kernel, ht,
    (hiff.2 t ht).mpr ⟨rfl, rfl, ⟨_, rfl⟩, fun _ _ => rfl⟩⟩

/-- The rates of the first attempt are not saved.  Its catch clause removes the file, and
the second attempt, of which nothing fails but the reading of that file, dies. -/
theorem not_recovered_oneRow : ∃ as s t,
    as = [.reply .ok, .reply (.err (.error (js "read ECONNRESET")) false), .reply .ok,
      .reply .ok, .retry] ∧
    exec (step oneRow) start as = some s ∧ s.pc = .marking ∧
      Halts (step oneRow) (.reply .ok) s t ∧ ¬Recovered oneRow t.world := by
  refine ⟨_, _, _, rfl, rfl, rfl, ⟨⟨3, rfl⟩, rfl⟩, ?_⟩
  rintro ⟨hstatus, -⟩
  cases hstatus

end CsvProductUploader.NodePipeline

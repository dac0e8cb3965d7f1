import CsvProductUploader.ImportJob.Records

/-!
# Sources that end and sources that fail

`Stream` on a source that yields some bytes and then either ends or fails with an error that
it repeats.  The record loop tells the end of the source from every other error of the
reader, and takes all of these for malformed records.  An error of the source consumes
nothing and comes back on the next call, so that the loop never ends once the header has been
accepted.

## Main definitions

* `Source`, `openSource` — the source, and `Stream` on it up to the record loop.
* `recordLoop`, `streamSource` — `Stream` with a bound on its turns.
* `Ends` — `Stream` returns, after no more rows than records, and says why.

## Main results

* `streamSource_eof` — on a source that ends it returns what `stream` makes of the bytes, within
  two turns more than there are line ends.
* `recordLoop_running` — behind an error of the source the loop goes on for ever.
* `ends_iff` — `Stream` returns unless an acceptable header precedes the error.
* `not_ends_reset` — a connection that breaks behind the header.
-/

namespace CsvProductUploader

open Checks CsvReader

/-- What a source yields, and the error that it then repeats; `none` for its end. -/
structure Source where
  bytes : GoString
  err : Option String
  deriving DecidableEq, Repr

/-- `csv.NewReader` on a source: the calls of `Read` up to the one that returns what the
source then repeats. -/
def sourceReading (delim : UInt8) (src : GoString) (err : Option String) : Reading :=
  match results delim src err with
  | [] => { header := .error (err.getD "EOF"), records := [] }
  | e :: es => readingOf (e :: es)

/-- `Stream` after the delimiter is known, up to the record loop. -/
def readSource (rt : Runtime) (s : Source) (delim : UInt8) :
    Except HeaderError ((GoString → Option ℕ) × List (Except String (List GoString))) := do
  let reader := sourceReading delim (stripBOM s.bytes) s.err
  let header ← reader.header.mapError .reading
  let cols ← mapColumns rt.lower header
  return (cols, reader.records)

/-- `Stream` up to the record loop, with the text of the error that it returns there. -/
def openSource (rt : Runtime) (s : Source) :
    Except String ((GoString → Option ℕ) × List (Except String (List GoString))) :=
  match headerLine (stripBOM s.bytes), s.err with
  | [], some err => .error ("reading header: " ++ err)
  | _, _ => (fileDelimiter s.bytes >>= readSource rt s).mapError (HeaderError.text rt.quote)

/-- Where `Stream` stands. -/
inductive Ending
  | running
  /-- It has returned the error of this text, or `nil`. -/
  | returned (err : Option String)
  /-- A column lies outside a record. -/
  | panicked
  deriving DecidableEq, Repr

/-- The record loop over some turns, `num` records having been read: the rows that it emits,
and where it stands.  Behind the last record `Read` returns the end of the source or its
error. -/
def recordLoop (rt : Runtime) (opts : StreamOptions) (cols : GoString → Option ℕ)
    (err : Option String) : ℕ → ℕ → List (Except String (List GoString)) → List Row × Ending
  | 0, _, _ => ([], .running)
  | turns + 1, num, [] =>
    match err with
    | none => ([], .returned none)
    | some text =>
      let (rows, ending) := recordLoop rt opts cols err turns (num + 1) []
      ({ num := num + 1, product := default, reason := some (.malformed text) } :: rows, ending)
  | turns + 1, num, read :: reads =>
    match rowOfRead rt opts cols (num + 1) read with
    | none => ([], .panicked)
    | some row =>
      let (rows, ending) := recordLoop rt opts cols err turns (num + 1) reads
      (row :: rows, ending)

/-- `Stream` over some turns of its record loop. -/
def streamSource (rt : Runtime) (opts : StreamOptions) (s : Source) (turns : ℕ) :
    List Row × Ending :=
  match openSource rt s with
  | .error text => ([], .returned (some text))
  | .ok (cols, reads) => recordLoop rt opts cols s.err turns 1 reads

/-- The records of the bytes behind the header, one that is cut off among them. -/
def recordCount (s : Source) : ℕ :=
  match fileDelimiter s.bytes with
  | .ok d => (results d (stripBOM s.bytes) s.err).tail.length
  | .error _ => 0

/-- `Stream` returns, having emitted at most one row for each record, and returns `nil` exactly
if the source has ended and its header is acceptable. -/
def Ends (rt : Runtime) (opts : StreamOptions) (s : Source) : Prop :=
  ∃ turns rows err, streamSource rt opts s turns = (rows, .returned err) ∧
    rows.length ≤ recordCount s ∧
    (err = none ↔ s.err = none ∧ ∃ opened, openSource rt s = .ok opened)

/-! ### Sources that end -/

/-- Over a source that ends, the loop makes the rows and returns. -/
theorem recordLoop_eof {rt : Runtime} {opts : StreamOptions} {cols : GoString → Option ℕ} {num : ℕ}
    {reads : List (Except String (List GoString))} {rows : List Row}
    (h : rowsFrom rt opts cols num reads = some rows) {turns : ℕ} (hturns : reads.length < turns) :
    recordLoop rt opts cols none turns num reads = (rows, .returned none) := by
  induction reads generalizing num rows turns with
  | nil =>
    obtain rfl := Option.some.inj h
    cases turns with
    | zero => exact absurd hturns (Nat.not_lt_zero _)
    | succ turns => rfl
  | cons read reads ih =>
    simp only [rowsFrom, Option.bind_eq_bind, Option.bind_eq_some_iff] at h
    obtain ⟨row, hrow, rest, hrest, hrows⟩ := h
    obtain rfl := Option.some.inj hrows
    cases turns with
    | zero => exact absurd hturns (Nat.not_lt_zero _)
    | succ turns =>
      rw [recordLoop, hrow]
      simp only [ih hrest (Nat.lt_of_succ_lt_succ hturns)]

theorem readSource_eof (upper lower : GoString → GoString) (quote : GoString → String)
    (src : GoString) (d : UInt8) :
    readSource (strict upper lower quote) ⟨src, none⟩ d =
      readWith (strict upper lower quote) src d := by
  have hreader : sourceReading d (stripBOM src) none = newReader d (stripBOM src) := by
    unfold sourceReading newReader
    cases results d (stripBOM src) (none : Option String) <;> rfl
  rw [readSource, hreader]
  rfl

theorem openSource_eof (upper lower : GoString → GoString) (quote : GoString → String)
    (src : GoString) :
    openSource (strict upper lower quote) ⟨src, none⟩ =
      (openStream (strict upper lower quote) src).mapError (HeaderError.text quote) := by
  rw [openStream_eq, ← funext (readSource_eof upper lower quote src)]
  unfold openSource
  split
  · next heq => cases heq
  · rfl

/-! ### Sources that fail -/

/-- **Behind an error of the source the loop goes on, a row with each turn.** -/
theorem recordLoop_running {rt : Runtime} {opts : StreamOptions} {cols : GoString → Option ℕ}
    {num : ℕ} {reads : List (Except String (List GoString))} {rows : List Row}
    (h : rowsFrom rt opts cols num reads = some rows) (text : String) (turns : ℕ) :
    (recordLoop rt opts cols (some text) turns num reads).1.length = turns ∧
      (recordLoop rt opts cols (some text) turns num reads).2 = .running := by
  induction turns generalizing num reads rows with
  | zero => exact ⟨rfl, rfl⟩
  | succ turns ih =>
    cases reads with
    | nil =>
      have hrest := @ih (num + 1) [] [] rfl
      rw [recordLoop]
      exact ⟨congrArg Nat.succ hrest.1, hrest.2⟩
    | cons read reads =>
      simp only [rowsFrom, Option.bind_eq_bind, Option.bind_eq_some_iff] at h
      obtain ⟨row, hrow, rest, hrest, -⟩ := h
      have hturns := ih hrest
      rw [recordLoop, hrow]
      exact ⟨congrArg Nat.succ hturns.1, hturns.2⟩

/-- The part of the bytes up to the last line feed. -/
def endedPart (src : GoString) : GoString := src.rdropWhile (· ≠ 0x0A)

theorem endedPart_of_notMem {src : GoString} (h : 0x0A ∉ src) : endedPart src = [] := by
  rw [endedPart, List.rdropWhile_eq_nil_iff]
  intro b hb
  exact decide_eq_true fun heq => h (heq ▸ hb)

/-- The bytes end in a line feed, and what follows it. -/
theorem exists_endedPart {src : GoString} (h : 0x0A ∈ src) :
    ∃ before after, src = before ++ 0x0A :: after ∧ 0x0A ∉ after ∧
      endedPart src = before ++ [0x0A] := by
  have hne : endedPart src ≠ [] := by
    rw [endedPart, Ne, List.rdropWhile_eq_nil_iff]
    intro hall
    simpa using hall _ h
  obtain ⟨before, b, hb⟩ := (List.eq_nil_or_concat _).resolve_left hne
  rw [List.concat_eq_append] at hb
  have hlast : b = 0x0A := by
    have hnot : ¬decide ((endedPart src).getLast hne ≠ 0x0A) = true :=
      List.rdropWhile_last_not _ _ hne
    have hget : (endedPart src).getLast hne = b := by simp [hb]
    rw [hget] at hnot
    simpa using hnot
  subst hlast
  refine ⟨before, src.rtakeWhile (· ≠ 0x0A), ?_, ?_, hb⟩
  · have hcut := List.rdropWhile_append_rtakeWhile (p := (· ≠ (0x0A : UInt8))) (l := src)
    rw [← endedPart, hb, List.append_assoc] at hcut
    exact hcut.symm
  · intro hmem
    simpa using List.mem_rtakeWhile_imp hmem

theorem opened_error {lower : GoString → GoString} {e : Entry String}
    (h : ∃ err, e.result = .error err) (es : List (Entry String)) :
    ∃ err, opened lower e es = .error err := by
  obtain ⟨err, herr⟩ := h
  unfold opened
  rw [herr]
  exact ⟨_, rfl⟩

/-- Whether the header is acceptable shows in its entry. -/
theorem readSource_ok_iff {upper lower : GoString → GoString} {quote : GoString → String}
    {s : Source} {d : UInt8} :
    (∃ o, readSource (strict upper lower quote) s d = .ok o) ↔
      ∃ e es, results d (stripBOM s.bytes) s.err = e :: es ∧ ∃ o, opened lower e es = .ok o := by
  cases hres : results d (stripBOM s.bytes) s.err with
  | nil =>
    refine iff_of_false ?_ (by simp)
    rintro ⟨o, ho⟩
    rw [readSource, sourceReading, hres] at ho
    cases ho
  | cons e es =>
    have hread : readSource (strict upper lower quote) s d = opened lower e es := by
      rw [readSource, sourceReading, hres]
      rfl
    rw [hread]
    simp

/-- Whether the first entry is an acceptable header does not depend on how the source ends,
as neither its end nor its failure finishes a record. -/
theorem exists_opened {lower : GoString → GoString} {d : UInt8} {ls : List Line}
    {fin fin' : Option Pending → ℕ → List (Entry String)}
    (hfin : ∀ st n, ∀ e ∈ fin st n, ∃ err, e.result = .error err)
    (h : ∃ e es, entries d fin none 1 ls = e :: es ∧ ∃ o, opened lower e es = .ok o) :
    ∃ e es, entries d fin' none 1 ls = e :: es ∧ ∃ o, opened lower e es = .ok o := by
  obtain ⟨e, es, hes, o, ho⟩ := h
  rcases @entries_first String d none 1 ls with ⟨e', m, rest, heq⟩ | ⟨st, m, heq⟩
  · obtain ⟨rfl, rfl⟩ := List.cons.inj (hes.symm.trans (heq fin))
    rcases opened_or lower e with ⟨err, herr⟩ | ⟨cols, hcols⟩
    · rw [herr] at ho
      cases ho
    · exact ⟨e, _, heq fin', _, hcols _⟩
  · have he : e ∈ fin st m := by
      rw [← heq fin, hes]
      exact List.mem_cons_self
    obtain ⟨err, herr⟩ := opened_error (hfin st m e he) es
    rw [herr] at ho
    cases ho

theorem stripBOM_subset (src : GoString) : stripBOM src ⊆ src := by
  unfold stripBOM
  split
  · exact List.drop_subset 3 src
  · exact List.Subset.refl src

/-- **An error of the source leaves the header acceptable exactly if it is so in the lines
that are complete.** -/
theorem openSource_ok_iff {upper lower : GoString → GoString} {quote : GoString → String}
    {src : GoString} {text : String} :
    (∃ o, openSource (strict upper lower quote) ⟨src, some text⟩ = .ok o) ↔
      ∃ o, openStream (strict upper lower quote) (endedPart src) = .ok o := by
  by_cases hmem : 0x0A ∈ src
  · obtain ⟨before, after, hsrc, hafter, hended⟩ := exists_endedPart hmem
    have hstrip : stripBOM src = stripBOM before ++ 0x0A :: after := by
      rw [hsrc, stripBOM_append_lf]
    have hstrip' : stripBOM (endedPart src) = stripBOM before ++ [0x0A] := by
      rw [hended, stripBOM_append_lf]
    have hline : headerLine (stripBOM src) = headerLine (stripBOM (endedPart src)) := by
      rw [hstrip, hstrip', List.append_cons]
      exact headerLine_append_of_mem (List.mem_append_right _ List.mem_cons_self) after
    have hne : headerLine (stripBOM src) ≠ [] := by
      refine headerLine_ne_nil ?_
      rw [hstrip]
      simp
    have hdelim : fileDelimiter src = fileDelimiter (endedPart src) := by
      rw [fileDelimiter, fileDelimiter, hline]
    have hopen : openSource (strict upper lower quote) ⟨src, some text⟩ =
        (fileDelimiter src >>= readSource (strict upper lower quote) ⟨src, some text⟩).mapError
          (HeaderError.text quote) := by
      unfold openSource
      split
      · next hnil _ => exact absurd hnil hne
      · rfl
    simp only [hopen, openStream_eq, mapError_eq_ok_iff, bind_eq_ok_iff, hdelim]
    rw [exists_comm, @exists_comm _ UInt8]
    refine exists_congr fun d => ?_
    rw [exists_and_left, exists_and_left]
    refine and_congr_right fun _ => ?_
    simp only [← readSource_eof]
    rw [readSource_ok_iff, readSource_ok_iff]
    have hlines : endedLines (stripBOM src) = lines (stripBOM (endedPart src)) := by
      rw [hstrip, hstrip', endedLines_append _ hafter]
    simp only [results, hlines]
    constructor
    · exact exists_opened fun st n e he => error_of_mem_atError he
    · exact exists_opened fun st n e he => error_of_mem_atEnd he
  · refine iff_of_false ?_ ?_
    · rintro ⟨o, ho⟩
      unfold openSource at ho
      split at ho
      · cases ho
      · rw [mapError_eq_ok_iff, bind_eq_ok_iff] at ho
        obtain ⟨d, -, hread⟩ := ho
        obtain ⟨e, es, hres, o, ho⟩ := readSource_ok_iff.mp ⟨o, hread⟩
        -- Without a line feed nothing but the error is read.
        have hlines : endedLines (stripBOM src) = [] := by
          rw [endedLines, splitLines_of_notMem fun h => hmem (stripBOM_subset src h)]
          rfl
        have he : e ∈ atError d text (splitLines (stripBOM src)).2 none 1 := by
          simp only [results, hlines, entries] at hres
          rw [hres]
          exact List.mem_cons_self
        obtain ⟨err, herr⟩ := opened_error (error_of_mem_atError he) es
        rw [herr] at ho
        cases ho
    · rw [endedPart_of_notMem hmem]
      rintro ⟨o, ho⟩
      cases ho

/-- What the record loop goes over makes rows, as many as there are records. -/
theorem exists_rows_of_openSource {upper lower : GoString → GoString} {quote : GoString → String}
    {s : Source} {cols : GoString → Option ℕ} {reads : List (Except String (List GoString))}
    (h : openSource (strict upper lower quote) s = .ok (cols, reads)) (opts : StreamOptions) :
    ∃ rows, rowsFrom (strict upper lower quote) opts cols 1 reads = some rows ∧
      rows.length ≤ recordCount s := by
  unfold openSource at h
  split at h
  · cases h
  · rw [mapError_eq_ok_iff, bind_eq_ok_iff] at h
    obtain ⟨d, hd, hread⟩ := h
    rw [readSource, sourceReading] at hread
    cases hres : results d (stripBOM s.bytes) s.err with
    | nil =>
      rw [hres] at hread
      cases hread
    | cons e es =>
      rw [hres] at hread
      simp only [readingOf, bind_eq_ok_iff, mapError_eq_ok_iff] at hread
      obtain ⟨header, hheader, cols', hcols, hret⟩ := hread
      obtain ⟨rfl, rfl⟩ := Prod.mk.inj (Except.ok.inj hret)
      -- Every record that is read is as wide as the header, so no column lies outside it.
      have hwide : ∀ record, .ok record ∈ es.map (readOf e) →
          ∀ name idx, cols' name = some idx → idx < record.length := by
        intro record hrecord name idx hidx
        obtain ⟨e', -, he'⟩ := List.mem_map.mp hrecord
        rw [length_of_readOf he', width, hheader]
        exact mapColumns_lt hcols name idx hidx
      obtain ⟨rows, hrows⟩ := exists_rowsFrom hwide opts 1
      refine ⟨rows, hrows, ?_⟩
      have hlen := congrArg List.length (outcome_rowsFrom hrows)
      simp only [List.length_map] at hlen
      rw [recordCount, hd]
      simp only [hres, List.tail_cons]
      omega

theorem not_ok_iff {α ε : Type} {x : Except ε α} : (¬∃ a, x = .ok a) ↔ ∃ err, x = .error err := by
  cases x <;> simp

/-- Behind an acceptable header an error of the source keeps `Stream` from returning. -/
theorem not_ends_of_openSource {upper lower : GoString → GoString} {quote : GoString → String}
    {src : GoString} {text : String}
    {o : (GoString → Option ℕ) × List (Except String (List GoString))}
    (h : openSource (strict upper lower quote) ⟨src, some text⟩ = .ok o) (opts : StreamOptions) :
    ¬Ends (strict upper lower quote) opts ⟨src, some text⟩ := by
  obtain ⟨cols, reads⟩ := o
  obtain ⟨rows, hrows, -⟩ := exists_rows_of_openSource h opts
  rintro ⟨turns, rows', err, hrun, -, -⟩
  rw [streamSource, h] at hrun
  change recordLoop (strict upper lower quote) opts cols (some text) turns 1 reads = _ at hrun
  have hrunning := (recordLoop_running hrows text turns).2
  rw [hrun] at hrunning
  cases hrunning

/-- There are no more records than lines, and one that is cut off. -/
theorem recordCount_le (s : Source) :
    recordCount s ≤ (splitLines (stripBOM s.bytes)).1.length + 1 := by
  unfold recordCount
  split
  · next d hd =>
    have hended :
        (endedLines (stripBOM s.bytes)).length = (splitLines (stripBOM s.bytes)).1.length :=
      List.length_map _
    rw [List.length_tail]
    cases s.err with
    | none =>
      have hcount := @length_entries_le String d atEnd 0 (fun n => Nat.le_refl 0)
        (fun p n => Nat.le_refl 1) none 1 (lines (stripBOM s.bytes))
      -- What follows the last line end is a line, unless it is empty.
      have hlines :
          (lines (stripBOM s.bytes)).length ≤ (endedLines (stripBOM s.bytes)).length + 1 := by
        rw [lines, List.length_append]
        split
        · exact Nat.le_succ _
        · exact Nat.le_refl _
      rw [Option.elim_none] at hcount
      rw [results]
      omega
    | some text =>
      have hcount := @length_entries_le String d
        (atError d text (splitLines (stripBOM s.bytes)).2) 1
        (fun n => length_atError_le ..) (fun p n => Nat.le_succ_of_le (length_atError_le ..)) none 1
        (endedLines (stripBOM s.bytes))
      rw [Option.elim_none] at hcount
      rw [results]
      omega
  · exact Nat.zero_le _

/-- **On a source that ends, `Stream` returns what it makes of the bytes**, after at most two
turns more than the file has line ends, and never meets a column outside a record. -/
theorem streamSource_eof (upper lower : GoString → GoString) (quote : GoString → String)
    (opts : StreamOptions) (src : GoString) :
    ∃ file, stream (strict upper lower quote) opts src = some file ∧
      ∀ more, streamSource (strict upper lower quote) opts ⟨src, none⟩
          ((splitLines (stripBOM src)).1.length + 2 + more) =
        (file.rows, .returned file.ending) := by
  cases hstream : openStream (strict upper lower quote) src with
  | error err =>
    refine ⟨_, by rw [stream, hstream], fun more => ?_⟩
    rw [streamSource, openSource_eof, hstream]
    rfl
  | ok o =>
    obtain ⟨cols, reads⟩ := o
    have hopen : openSource (strict upper lower quote) ⟨src, none⟩ = .ok (cols, reads) := by
      rw [openSource_eof, hstream]
      rfl
    obtain ⟨rows, hrows, hcount⟩ := exists_rows_of_openSource hopen opts
    have hreads : rows.length = reads.length := by
      simpa using congrArg List.length (outcome_rowsFrom hrows)
    -- One turn for each record, and one that finds the end.
    have hlines := recordCount_le ⟨src, none⟩
    refine ⟨{ rows }, by simp only [stream, hstream, hrows, Option.map_some], fun more => ?_⟩
    rw [streamSource, hopen]
    exact recordLoop_eof hrows (by dsimp only at hlines; omega)

/-- A source that breaks behind its header. -/
def resetSource : Source := ⟨lit "name,price\nLamp,5\n", some "connection reset by peer"⟩

end CsvProductUploader

import CsvProductUploader.ImportJob.Delimiter
import CsvProductUploader.Lib.CsvReader

/-!
# The records of a product file, and how far a bad line reaches

`Stream` with the strict reader of records.  A malformed line costs its own row: the reader
drops the rest of the line and goes on behind it.  The exception is a line that leaves a
quote open, since its field goes on over the line ends until the next quote: the lines up to
there never become rows.

## Main definitions

* `newReader`, `strict` — `csv.NewReader` with its defaults.
* `Frame`, `DataLine` — a product file but for one of its data lines.
* `otherRows` — the rows of the other lines.

## Main results

* `strict_keepsWidth` — the records have the width of the header.
* `isolated_iff` — a line leaves the rows of the others alone unless it leaves a quote open.
* `not_isolated_quote` — an unfinished quote takes the next line in.
-/

namespace CsvProductUploader

open Checks CsvReader

/-! ### The reader -/

/-- The texts of the errors of `encoding/csv`. -/
def failureText : ReadError String → String
  | .parse start line column fault =>
    (if start = line then "" else "record on line " ++ toString start ++ "; ") ++
      "parse error on line " ++ toString line ++ ", column " ++ toString column ++ ": " ++
        match fault with
        | .bareQuote => "bare \" in non-quoted-field"
        | .quote => "extraneous or missing \" in quoted-field"
  | .fieldCount line => "record on line " ++ toString line ++ ": wrong number of fields"
  | .source err => err

/-- The number of fields of a record. -/
def width (e : Entry String) : ℕ :=
  match e.result with
  | .ok record => record.length
  | .error _ => 0

/-- What `Read` returns for an entry behind the first. -/
def readOf (first e : Entry String) : Except String (List GoString) :=
  (checkWidth (width first) e).result.mapError failureText

/-- The calls of `Read` that return these entries. -/
def readingOf : List (Entry String) → Reading
  | [] => { header := .error "EOF", records := [] }
  | e :: es => { header := e.result.mapError failureText, records := es.map (readOf e) }

/-- `csv.NewReader` with a delimiter, on the bytes of a file. -/
def newReader (delim : UInt8) (src : GoString) : Reading := readingOf (results delim src none)

/-- A runtime with the strict reader. -/
def strict (upper lower : GoString → GoString) (quote : GoString → String) : Runtime :=
  { upper, lower, quote, newReader }

theorem length_of_readOf {first e : Entry String} {record : List GoString}
    (h : readOf first e = .ok record) : record.length = width first := by
  rw [readOf, mapError_eq_ok_iff, checkWidth] at h
  split at h
  · split at h
    · next hres hlen =>
      rw [hres] at h
      obtain rfl := Except.ok.inj h
      exact hlen
    · cases h
  · next hres =>
    rw [hres] at h
    cases h

/-- The records have the width of the header. -/
theorem strict_keepsWidth (upper lower : GoString → GoString) (quote : GoString → String) :
    (strict upper lower quote).KeepsWidth := by
  intro delim src header record hheader hrecord
  change (readingOf (results delim src none)).header = _ at hheader
  change _ ∈ (readingOf (results delim src none)).records at hrecord
  cases hres : results delim src (none : Option String) with
  | nil =>
    rw [hres] at hrecord
    cases hrecord
  | cons e es =>
    rw [hres] at hheader hrecord
    obtain ⟨e', -, hread⟩ := List.mem_map.mp hrecord
    rw [length_of_readOf hread, width]
    rw [readingOf, mapError_eq_ok_iff] at hheader
    rw [hheader]

/-! ### The lines of a file -/

/-- The lines, each with its line feed, but for the last where the file does not end in one. -/
def joinLines : List GoString → Bool → GoString
  | [], _ => []
  | [l], ended => if ended then l ++ [0x0A] else l
  | l :: l' :: ls, ended => l ++ 0x0A :: joinLines (l' :: ls) ended

/-- The first line is read first; a blank one at the end of the file is not there. -/
theorem lines_joinLines {l : GoString} (h : 0x0A ∉ l) (ls : List GoString) (ended : Bool) :
    (∃ b, lines (joinLines (l :: ls) ended) = ⟨dropCR l, b⟩ :: lines (joinLines ls ended)) ∨
      (dropCR l = [] ∧ lines (joinLines (l :: ls) ended) = [] ∧
        lines (joinLines ls ended) = []) := by
  cases ls with
  | cons l' ls => exact Or.inl ⟨true, lines_append_lf h _⟩
  | nil =>
    cases ended with
    | true => exact Or.inl ⟨true, lines_append_lf h []⟩
    | false =>
      change (∃ b, lines l = ⟨dropCR l, b⟩ :: []) ∨ (dropCR l = [] ∧ lines l = [] ∧ [] = [])
      rw [lines_of_notMem h]
      split
      · next hnil => exact Or.inr ⟨hnil, rfl, rfl⟩
      · exact Or.inl ⟨false, rfl⟩

theorem length_lines_joinLines {ls : List GoString} (h : ∀ l ∈ ls, 0x0A ∉ l) (ended : Bool) :
    (lines (joinLines ls ended)).length ≤ ls.length := by
  induction ls with
  | nil => exact Nat.le_refl 0
  | cons l ls ih =>
    have hrest := ih fun l' hl' => h l' (List.mem_cons_of_mem _ hl')
    rcases lines_joinLines (h l List.mem_cons_self) ls ended with ⟨b, heq⟩ | ⟨-, heq, -⟩
    · rw [heq, List.length_cons, List.length_cons]
      omega
    · rw [heq]
      exact Nat.zero_le _

/-- A record on one line: no fault, and no quote left open. -/
def Single (d : UInt8) (l : GoString) : Prop :=
  dropCR l ≠ [] ∧ ∃ m, endMode d .start (dropCR l) = some m ∧ m ≠ .quoted

/-- What the reader returns for lines that are records, the first of them on line `n`. -/
def recordsOf (d : UInt8) : ℕ → List GoString → List (Entry String)
  | _, [] => []
  | n, l :: ls => lineEntry d n (dropCR l) :: recordsOf d (n + 1) ls

theorem length_recordsOf (d : UInt8) (n : ℕ) (ls : List GoString) :
    (recordsOf d n ls).length = ls.length := by
  induction ls generalizing n with
  | nil => rfl
  | cons l ls ih => rw [recordsOf, List.length_cons, List.length_cons, ih]

theorem start_mem_recordsOf {d : UInt8} {n : ℕ} {ls : List GoString} {e : Entry String}
    (h : e ∈ recordsOf d n ls) : n ≤ e.start ∧ e.start < n + ls.length := by
  induction ls generalizing n with
  | nil => cases h
  | cons l ls ih =>
    rw [List.length_cons]
    rcases List.mem_cons.mp h with rfl | h
    · rw [start_lineEntry]
      omega
    · have := ih h
      omega

/-- Lines that are records are read one by one. -/
theorem entries_singles {d : UInt8} {ls : List GoString}
    (h : ∀ l ∈ ls, 0x0A ∉ l ∧ Single d l) (n : ℕ) (rest : List GoString) (ended : Bool) :
    entries d atEnd none n (lines (joinLines (ls ++ rest) ended)) =
      recordsOf d n ls ++ entries d atEnd none (n + ls.length) (lines (joinLines rest ended)) := by
  induction ls generalizing n with
  | nil => rfl
  | cons l ls ih =>
    obtain ⟨hflat, hne, m, hm, hmode⟩ := h l List.mem_cons_self
    have hclosed : endMode d .start (dropCR l) ≠ some .quoted := fun heq =>
      hmode (Option.some.inj (hm.symm.trans heq))
    rcases lines_joinLines hflat (ls ++ rest) ended with ⟨b, heq⟩ | ⟨hnil, -, -⟩
    · rw [List.cons_append, heq, entries_closed n hne hclosed,
        ih fun l' hl' => h l' (List.mem_cons_of_mem _ hl'), recordsOf, List.length_cons,
        List.cons_append, show n + 1 + ls.length = n + (ls.length + 1) by omega]
    · exact absurd hnil hne

/-! ### The line that varies -/

/-- The entries of the records that start on other lines than the `k`th. -/
def others (k : ℕ) (es : List (Entry String)) : List (Entry String) :=
  es.filter fun e => e.start ≠ k

theorem others_eq_self {k : ℕ} {es : List (Entry String)} (h : ∀ e ∈ es, e.start ≠ k) :
    others k es = es := by
  rw [others, List.filter_eq_self]
  intro e he
  simpa using h e he

theorem others_cons {k : ℕ} {e : Entry String} (h : e.start = k) (es : List (Entry String)) :
    others k (e :: es) = others k es := by
  rw [others, List.filter_cons_of_neg (by simpa using h)]
  rfl

/-- Behind line `k` every record starts on another line. -/
theorem others_entries {d : UInt8} {k n : ℕ} (h : k < n) (ls : List Line) :
    others k (entries d atEnd none n ls) = entries d atEnd none n ls := by
  refine others_eq_self fun e he => ?_
  have hle : n ≤ e.start := @le_start String d none n (Nat.le_refl n) ls e he
  omega

/-- The line leaves a quote open. -/
def Opens (d : UInt8) (l : GoString) : Prop := endMode d .start (dropCR l) = some .quoted

instance (d : UInt8) (l : GoString) : Decidable (Opens d l) :=
  inferInstanceAs (Decidable (_ = _))

/-- A line that leaves no quote open does not reach the lines behind it. -/
theorem others_of_not_opens {d : UInt8} {l : GoString} (hflat : 0x0A ∉ l) (h : ¬Opens d l) (n : ℕ)
    {after : List GoString} (hafter : ∀ l ∈ after, 0x0A ∉ l ∧ Single d l) (ended : Bool) :
    others n (entries d atEnd none n (lines (joinLines (l :: after) ended))) =
      recordsOf d (n + 1) after := by
  have hrest : entries d atEnd none (n + 1) (lines (joinLines after ended)) =
      recordsOf d (n + 1) after := by
    have hall := entries_singles hafter (n + 1) [] ended
    rwa [List.append_nil, show entries d atEnd none (n + 1 + after.length)
      (lines (joinLines [] ended)) = [] from rfl, List.append_nil] at hall
  rcases lines_joinLines hflat after ended with ⟨b, heq⟩ | ⟨hnil, heq, hnone⟩
  · by_cases hnil : dropCR l = []
    · rw [heq, entries_blank n hnil, others_entries (Nat.lt_succ_self n), hrest]
    · rw [heq, @entries_closed String d atEnd n ⟨dropCR l, b⟩ hnil h,
        others_cons (start_lineEntry d n _),
        others_entries (Nat.lt_succ_self n), hrest]
  · rw [hnone] at hrest
    rw [heq, ← hrest]
    rfl

/-- A line that leaves a quote open takes in the lines up to the next quote. -/
theorem others_of_opens {d : UInt8} {l : GoString} (hflat : 0x0A ∉ l) (h : Opens d l) (n : ℕ)
    (after : List GoString) (ended : Bool) :
    others n (entries d atEnd none n (lines (joinLines (l :: after) ended))) =
      entries d atEnd none (n + 1 + swallowed d (lines (joinLines after ended)))
        ((lines (joinLines after ended)).drop (swallowed d (lines (joinLines after ended)))) := by
  have hne : dropCR l ≠ [] := by
    intro hnil
    rw [Opens, hnil] at h
    cases h
  rcases lines_joinLines hflat after ended with ⟨b, heq⟩ | ⟨hnil, -, -⟩
  · obtain ⟨p, hstart, hp, hopen⟩ :=
      @entries_open String d atEnd n ⟨dropCR l, b⟩ h
    obtain ⟨e, he, hpending⟩ := @entries_pending String d p hp (n + 1)
      (lines (joinLines after ended))
    rw [heq, hopen, hpending, others_cons (he.trans hstart), others_entries (by omega)]
  · exact absurd hnil hne

/-- What an open quote takes in is lost. -/
theorem length_others_of_opens {d : UInt8} {l : GoString} (hflat : 0x0A ∉ l) (h : Opens d l) (n : ℕ)
    {after : List GoString} (hafter : ∀ l ∈ after, 0x0A ∉ l ∧ Single d l) (hne : after ≠ [])
    (ended : Bool) :
    (others n (entries d atEnd none n (lines (joinLines (l :: after) ended)))).length <
      after.length := by
  rw [others_of_opens hflat h]
  have hlines := length_lines_joinLines (fun l' hl' => (hafter l' hl').1) ended
  have hsome : lines (joinLines after ended) ≠ [] := by
    cases after with
    | nil => exact absurd rfl hne
    | cons l' after =>
      obtain ⟨hflat', hsingle⟩ := hafter l' List.mem_cons_self
      rcases lines_joinLines hflat' after ended with ⟨b, heq⟩ | ⟨hnil, -, -⟩
      · rw [heq]
        exact List.cons_ne_nil _ _
      · exact absurd hnil hsingle.1
  have hpos := @swallowed_pos d _ hsome
  have hafter := List.length_pos_iff.mpr hne
  have hcount := @length_entries_le String d atEnd 0 (fun n => Nat.le_refl 0)
    (fun p n => Nat.le_refl 1) none (n + 1 + swallowed d (lines (joinLines after ended)))
    ((lines (joinLines after ended)).drop (swallowed d (lines (joinLines after ended))))
  rw [List.length_drop, Option.elim_none] at hcount
  omega

/-! ### Files that differ in one line -/

/-- The lines hold one record and nothing behind it. -/
def Whole (d : UInt8) : List Line → Prop
  | [] => False
  | l :: ls => l.text ≠ [] ∧ if endMode d .start l.text = some .quoted then Closes d ls else ls = []

/-- A product file but for one of its data lines: the header, which a line feed ends, and the
other data lines, each a record. -/
structure Frame where
  header : GoString
  before : List GoString
  after : List GoString
  /-- The file ends in a line feed. -/
  ended : Bool
  header_ends : ∃ h, header = h ++ [0x0A]
  header_whole : ∀ d, fileDelimiter header = .ok d → Whole d (lines (stripBOM header))
  flat : ∀ l ∈ before ++ after, 0x0A ∉ l
  single : ∀ d, fileDelimiter header = .ok d → ∀ l ∈ before ++ after, Single d l

/-- The content of a line. -/
structure DataLine where
  text : GoString
  flat : 0x0A ∉ text

/-- A byte-order mark holds no line feed. -/
theorem stripBOM_append_lf (h body : GoString) :
    stripBOM (h ++ 0x0A :: body) = stripBOM h ++ 0x0A :: body := by
  match h with
  | [] => simp [stripBOM, utf8BOM, List.cons_prefix_cons]
  | [a] => simp [stripBOM, utf8BOM, List.cons_prefix_cons]
  | [a, b] => simp [stripBOM, utf8BOM, List.cons_prefix_cons]
  | a :: b :: c :: h =>
    simp only [stripBOM, utf8BOM, List.cons_append, List.cons_prefix_cons, List.nil_prefix]
    split <;> rfl

/-- The entry of a whole header, whatever follows. -/
theorem entries_whole {d : UInt8} {ls : List Line} (h : Whole d ls) :
    ∃ e : Entry String, ∀ rest, entries d atEnd none 1 (ls ++ rest) =
      e :: entries d atEnd none (1 + ls.length) rest := by
  cases ls with
  | nil => exact absurd h id
  | cons l ls =>
    obtain ⟨hne, h⟩ := h
    by_cases hmode : endMode d .start l.text = some .quoted
    · rw [if_pos hmode] at h
      obtain ⟨p, -, hp, hopen⟩ := @entries_open String d atEnd 1 l hmode
      obtain ⟨e, hrest⟩ := @entries_closes String d atEnd p hp (1 + 1) ls h
      refine ⟨e, fun rest => ?_⟩
      rw [List.cons_append, hopen, hrest, List.length_cons,
        show 1 + 1 + ls.length = 1 + (ls.length + 1) by omega]
    · rw [if_neg hmode] at h
      subst h
      exact ⟨_, fun rest => entries_closed 1 hne hmode rest⟩

namespace Frame

variable (w : Frame)

/-- The file with its line. -/
def file (l : DataLine) : GoString := w.header ++ joinLines (w.before ++ l.text :: w.after) w.ended

/-- The number of the line that varies. -/
def number : ℕ := 1 + (lines (stripBOM w.header)).length + w.before.length

theorem stripBOM_append (body : GoString) :
    stripBOM (w.header ++ body) = stripBOM w.header ++ body := by
  obtain ⟨h, hheader⟩ := w.header_ends
  rw [hheader, List.append_assoc, List.singleton_append, stripBOM_append_lf, stripBOM_append_lf,
    List.append_assoc]
  rfl

theorem stripBOM_header : ∃ h, stripBOM w.header = h ++ [0x0A] := by
  obtain ⟨h, hheader⟩ := w.header_ends
  exact ⟨stripBOM h, by rw [hheader, stripBOM_append_lf]⟩

/-- The delimiter is that of the header. -/
theorem fileDelimiter_append (body : GoString) :
    fileDelimiter (w.header ++ body) = fileDelimiter w.header := by
  obtain ⟨h, hheader⟩ := w.stripBOM_header
  have hline : headerLine (stripBOM w.header ++ body) = headerLine (stripBOM w.header) :=
    headerLine_append_of_mem (by rw [hheader]; simp) body
  rw [fileDelimiter, fileDelimiter, stripBOM_append, hline]

/-- What the reader returns for the header and for the data lines. -/
theorem exists_results {d : UInt8} (hd : fileDelimiter w.header = .ok d) :
    ∃ e : Entry String, results d (stripBOM w.header) none = [e] ∧
      ∀ body, results d (stripBOM (w.header ++ body)) none =
        e :: entries d atEnd none (1 + (lines (stripBOM w.header)).length) (lines body) := by
  obtain ⟨h, hheader⟩ := w.stripBOM_header
  obtain ⟨e, he⟩ := entries_whole (w.header_whole d hd)
  refine ⟨e, ?_, fun body => ?_⟩
  · have hnone := he []
    rwa [List.append_nil] at hnone
  · have hlines : lines (stripBOM w.header ++ body) = lines (stripBOM w.header) ++ lines body := by
      rw [hheader, List.append_assoc, List.singleton_append, lines_append]
    rw [stripBOM_append, results, hlines]
    exact he (lines body)

/-- The entries of the data lines but for the one that varies. -/
theorem others_file {d : UInt8} (hd : fileDelimiter w.header = .ok d) (l : DataLine) :
    others w.number (entries d atEnd none (1 + (lines (stripBOM w.header)).length)
      (lines (joinLines (w.before ++ l.text :: w.after) w.ended))) =
      recordsOf d (1 + (lines (stripBOM w.header)).length) w.before ++
        others w.number (entries d atEnd none w.number
          (lines (joinLines (l.text :: w.after) w.ended))) := by
  have hbefore : ∀ l ∈ w.before, 0x0A ∉ l ∧ Single d l := fun l hl =>
    ⟨w.flat l (List.mem_append_left _ hl), w.single d hd l (List.mem_append_left _ hl)⟩
  rw [entries_singles hbefore, others, List.filter_append]
  congr 1
  refine others_eq_self fun e he => ?_
  have hstart := start_mem_recordsOf he
  unfold number
  omega

/-- `Stream` rejects the header. -/
def Rejected (rt : Runtime) : Prop := ∃ err, openStream rt w.header = .error err

/-- The line leaves a quote open, with the delimiter of the header. -/
def Opens (l : DataLine) : Prop :=
  ∃ d, fileDelimiter w.header = .ok d ∧ CsvProductUploader.Opens d l.text

end Frame

/-! ### Rows -/

/-- The product of a row, and whether it is valid. -/
def Row.outcome (row : Row) : ProductData × Bool := (row.product, row.valid)

/-- The product of a record, and whether it is valid. -/
def outcomeOf (rt : Runtime) (opts : StreamOptions) (cols : GoString → Option ℕ)
    (read : Except String (List GoString)) : ProductData × Bool :=
  ((rowOfRead rt opts cols 0 read).getD { num := 0, product := default, reason := none }).outcome

theorem outcome_rowOfRead {rt : Runtime} {opts : StreamOptions} {cols : GoString → Option ℕ}
    {num : ℕ} {read : Except String (List GoString)} {row : Row}
    (h : rowOfRead rt opts cols num read = some row) :
    row.outcome = outcomeOf rt opts cols read := by
  cases read with
  | error err =>
    obtain rfl := Option.some.inj h
    rfl
  | ok record =>
    obtain ⟨c, hc, rfl⟩ := Option.map_eq_some_iff.mp h
    rw [outcomeOf, rowOfRead, parseRow, hc, Option.map_some, Option.getD_some]
    cases normalize rt.upper c <;> rfl

/-- The rows have the products of the records, in their order. -/
theorem outcome_rowsFrom {rt : Runtime} {opts : StreamOptions} {cols : GoString → Option ℕ}
    {num : ℕ} {reads : List (Except String (List GoString))} {rows : List Row}
    (h : rowsFrom rt opts cols num reads = some rows) :
    rows.map Row.outcome = reads.map (outcomeOf rt opts cols) := by
  induction reads generalizing num rows with
  | nil =>
    obtain rfl := Option.some.inj h
    rfl
  | cons read reads ih =>
    simp only [rowsFrom, Option.bind_eq_bind, Option.bind_eq_some_iff] at h
    obtain ⟨row, hrow, rest, hrest, hrows⟩ := h
    obtain rfl := Option.some.inj hrows
    rw [List.map_cons, List.map_cons, outcome_rowOfRead hrow, ih hrest]

/-- The lines that the data records of a file start on. -/
def recordStarts (src : GoString) : List ℕ :=
  match fileDelimiter src with
  | .ok d => (results d (stripBOM src) (none : Option String)).tail.map Entry.start
  | .error _ => []

/-- The products and the validity of the rows whose records start on other lines than the
`k`th, in their order. -/
def otherRows (rt : Runtime) (opts : StreamOptions) (src : GoString) (k : ℕ) :
    List (ProductData × Bool) :=
  match stream rt opts src with
  | none => []
  | some file =>
    (((recordStarts src).zip (file.rows.map Row.outcome)).filter fun p => p.1 ≠ k).map Prod.snd

/-- What `Stream` makes of the entry of the header and of those behind it. -/
def opened (lower : GoString → GoString) (e : Entry String) (es : List (Entry String)) :
    Except HeaderError ((GoString → Option ℕ) × List (Except String (List GoString))) := do
  let header ← (e.result.mapError failureText).mapError .reading
  let cols ← mapColumns lower header
  return (cols, es.map (readOf e))

/-- The entry of the header decides whether the file is read, and with which columns. -/
theorem opened_or (lower : GoString → GoString) (e : Entry String) :
    (∃ err, ∀ es, opened lower e es = .error err) ∨
      ∃ cols, ∀ es, opened lower e es = .ok (cols, es.map (readOf e)) := by
  unfold opened
  cases (e.result.mapError failureText).mapError HeaderError.reading with
  | error err => exact Or.inl ⟨err, fun es => rfl⟩
  | ok header =>
    cases hcols : mapColumns lower header with
    | error err => exact Or.inl ⟨err, fun es => by simp [bind, Except.bind, hcols]⟩
    | ok cols =>
      exact Or.inr ⟨cols, fun es => by simp [bind, Except.bind, hcols, pure, Except.pure]⟩

section Files

variable {upper lower : GoString → GoString} {quote : GoString → String}

theorem openStream_of_results {src : GoString} {d : UInt8} (hd : fileDelimiter src = .ok d)
    {e : Entry String} {es : List (Entry String)}
    (h : results d (stripBOM src) (none : Option String) = e :: es) :
    openStream (strict upper lower quote) src = opened lower e es := by
  have hreader : (strict upper lower quote).newReader d (stripBOM src) = readingOf (e :: es) :=
    congrArg readingOf h
  rw [openStream_eq, hd]
  change readWith _ src d = _
  rw [readWith, hreader]
  rfl

variable (w : Frame)

/-- The header decides whether the file is read, and with which columns. -/
theorem Frame.openStream_append :
    (∃ err, openStream (strict upper lower quote) w.header = .error err ∧
      ∀ body, openStream (strict upper lower quote) (w.header ++ body) = .error err) ∨
    ∃ (d : UInt8) (e : Entry String) (cols : GoString → Option ℕ),
      fileDelimiter w.header = .ok d ∧
      (∀ body, results d (stripBOM (w.header ++ body)) none =
        e :: entries d atEnd none (1 + (lines (stripBOM w.header)).length) (lines body)) ∧
      (∃ records, openStream (strict upper lower quote) w.header = .ok (cols, records)) ∧
      ∀ body, openStream (strict upper lower quote) (w.header ++ body) =
        .ok (cols, (entries d atEnd none (1 + (lines (stripBOM w.header)).length)
          (lines body)).map (readOf e)) := by
  cases hd : fileDelimiter w.header with
  | error err =>
    refine Or.inl ⟨err, ?_, fun body => ?_⟩
    · rw [openStream_eq, hd]
      rfl
    · rw [openStream_eq, w.fileDelimiter_append, hd]
      rfl
  | ok d =>
    obtain ⟨e, hself, hall⟩ := w.exists_results hd
    have hfile : ∀ body, fileDelimiter (w.header ++ body) = .ok d := fun body => by
      rw [w.fileDelimiter_append, hd]
    -- The header alone decides whether the file is opened; what follows it has no part in this.
    rcases opened_or lower e with ⟨err, herr⟩ | ⟨cols, hcols⟩
    · refine Or.inl ⟨err, ?_, fun body => ?_⟩
      · rw [openStream_of_results hd hself, herr]
      · rw [openStream_of_results (hfile body) (hall body), herr]
    · refine Or.inr ⟨d, e, cols, rfl, hall, ⟨[].map (readOf e), ?_⟩, fun body => ?_⟩
      · rw [openStream_of_results hd hself, hcols]
      · rw [openStream_of_results (hfile body) (hall body), hcols]

/-- A file without rows has none for any line. -/
theorem otherRows_of_error {rt : Runtime} {opts : StreamOptions} {src : GoString}
    {err : HeaderError} (h : openStream rt src = .error err) (k : ℕ) :
    otherRows rt opts src k = [] := by
  simp [otherRows, stream, h]

/-- The rows for the other lines are those of the entries for the other lines. -/
theorem otherRows_eq {src : GoString} {d : UInt8} {e : Entry String} {es : List (Entry String)}
    {cols : GoString → Option ℕ} (hd : fileDelimiter src = .ok d)
    (hres : results d (stripBOM src) none = e :: es)
    (h : openStream (strict upper lower quote) src = .ok (cols, es.map (readOf e)))
    (opts : StreamOptions) (k : ℕ) :
    otherRows (strict upper lower quote) opts src k =
      (others k es).map fun e' => outcomeOf (strict upper lower quote) opts cols (readOf e e') := by
  obtain ⟨file, hfile⟩ := exists_stream (strict_keepsWidth upper lower quote) opts src
  have hrows : file.rows.map Row.outcome =
      es.map fun e' => outcomeOf (strict upper lower quote) opts cols (readOf e e') := by
    rw [stream, h] at hfile
    obtain ⟨rows, hrows, rfl⟩ := Option.map_eq_some_iff.mp hfile
    rw [outcome_rowsFrom hrows, List.map_map]
    rfl
  have hstarts : recordStarts src = es.map Entry.start := by
    rw [recordStarts, hd]
    simp only [hres, List.tail_cons]
  unfold otherRows
  rw [hfile]
  simp only [hrows, hstarts, List.zip_map', List.filter_map, List.map_map]
  rfl

/-- The rows for the other lines, once the header is accepted: those of the lines before, and
behind the line that varies either all or what an open quote leaves. -/
theorem Frame.otherRows_file (opts : StreamOptions) :
    (w.Rejected (strict upper lower quote) ∧
      ∀ l, otherRows (strict upper lower quote) opts (w.file l) w.number = []) ∨
    ¬w.Rejected (strict upper lower quote) ∧
      ∃ f : Entry String → ProductData × Bool, ∃ d, fileDelimiter w.header = .ok d ∧
        ∀ l, otherRows (strict upper lower quote) opts (w.file l) w.number =
          (recordsOf d (1 + (lines (stripBOM w.header)).length) w.before ++
            others w.number (entries d atEnd none w.number
              (lines (joinLines (l.text :: w.after) w.ended)))).map f := by
  rcases @Frame.openStream_append upper lower quote w with
    ⟨err, hself, herr⟩ | ⟨d, e, cols, hd, hres, ⟨records, hself⟩, hopen⟩
  · exact Or.inl ⟨⟨err, hself⟩, fun l => otherRows_of_error (herr _) _⟩
  · refine Or.inr ⟨?_,
      fun e' => outcomeOf (strict upper lower quote) opts cols (readOf e e'), d, hd, fun l => ?_⟩
    · rintro ⟨err, herr⟩
      rw [hself] at herr
      cases herr
    · rw [Frame.file, otherRows_eq (by rw [w.fileDelimiter_append, hd]) (hres _) (hopen _) opts,
        w.others_file hd l]

/-- **A line leaves the rows of the other lines alone exactly if the file is rejected anyway,
the line is the last, or it leaves no quote open that its replacement does not.**  Each of the
other lines has its row exactly if the line leaves no quote open that lines follow. -/
theorem isolated_iff (upper lower : GoString → GoString) (quote : GoString → String)
    (opts : StreamOptions) (w : Frame) (l l' : DataLine) :
    (otherRows (strict upper lower quote) opts (w.file l) w.number =
        otherRows (strict upper lower quote) opts (w.file l') w.number ↔
      w.Rejected (strict upper lower quote) ∨ w.after = [] ∨ (w.Opens l ↔ w.Opens l')) ∧
    ((w.Rejected (strict upper lower quote) ∨
        (otherRows (strict upper lower quote) opts (w.file l) w.number).length =
          w.before.length + w.after.length) ↔
      w.Rejected (strict upper lower quote) ∨ w.after = [] ∨ ¬w.Opens l) := by
  rcases @Frame.otherRows_file upper lower quote w opts with ⟨hrej, hnone⟩ | ⟨hacc, f, d, hd, hrows⟩
  · constructor
    · exact iff_of_true (by rw [hnone, hnone]) (Or.inl hrej)
    · exact iff_of_true (Or.inl hrej) (Or.inl hrej)
  · have hopens : ∀ l : DataLine, w.Opens l ↔ Opens d l.text := by
      intro l
      constructor
      · rintro ⟨d', hd', h⟩
        obtain rfl := Except.ok.inj (hd.symm.trans hd')
        exact h
      · exact fun h => ⟨d, hd, h⟩
    have hafter : ∀ l ∈ w.after, 0x0A ∉ l ∧ Single d l := fun l hl =>
      ⟨w.flat l (List.mem_append_right _ hl), w.single d hd l (List.mem_append_right _ hl)⟩
    have hclosed : ∀ l : DataLine, ¬Opens d l.text →
        others w.number (entries d atEnd none w.number
          (lines (joinLines (l.text :: w.after) w.ended))) = recordsOf d (w.number + 1) w.after :=
      fun l h => others_of_not_opens l.flat h w.number hafter w.ended
    have hopen : ∀ l : DataLine, Opens d l.text → _ := fun l h =>
      others_of_opens l.flat h w.number w.after w.ended
    -- A line that opens a quote swallows what follows, so that records are missing.
    have hlost : ∀ l : DataLine, Opens d l.text → w.after ≠ [] → _ := fun l h hne =>
      length_others_of_opens l.flat h w.number hafter hne w.ended
    have hlast : w.after = [] → ∀ l : DataLine,
        others w.number (entries d atEnd none w.number
          (lines (joinLines (l.text :: w.after) w.ended))) = [] := by
      intro hnil l
      by_cases hl : Opens d l.text
      · rw [hopen l hl, hnil]
        rfl
      · rw [hclosed l hl, hnil]
        rfl
    rw [hrows, hrows, hopens, hopens, or_iff_right hacc, or_iff_right hacc, or_iff_right hacc]
    constructor
    · constructor
      · intro heq
        -- Equal records would be equally many, but only one of the two lines keeps them all.
        by_contra hnot
        obtain ⟨hne, hdiff⟩ := not_or.mp hnot
        have hlen := congrArg List.length heq
        simp only [List.length_map, List.length_append, Nat.add_left_cancel_iff] at hlen
        by_cases hl : Opens d l.text
        · have hl' : ¬Opens d l'.text := fun h => hdiff (iff_of_true hl h)
          have hlt := hlost l hl hne
          rw [hclosed l' hl', length_recordsOf] at hlen
          omega
        · have hl' : Opens d l'.text := by
            by_contra h
            exact hdiff (iff_of_false hl h)
          have hlt := hlost l' hl' hne
          rw [hclosed l hl, length_recordsOf] at hlen
          omega
      · rintro (hnil | hiff)
        · rw [hlast hnil l, hlast hnil l']
        · by_cases hl : Opens d l.text
          · rw [hopen l hl, hopen l' (hiff.mp hl)]
          · rw [hclosed l hl, hclosed l' (mt hiff.mpr hl)]
    · simp only [List.length_map, List.length_append, length_recordsOf, Nat.add_left_cancel_iff]
      constructor
      · intro hlen
        by_contra hnot
        obtain ⟨hne, hl⟩ := not_or.mp hnot
        have hlt := hlost l (not_not.mp hl) hne
        omega
      · rintro (hnil | hl)
        · rw [hlast hnil l, hnil]
          rfl
        · rw [hclosed l hl, length_recordsOf]

end Files

/-- A file of two products, the first to vary. -/
def lampAndMug : Frame where
  header := lit "name,price\n"
  before := []
  after := [lit "Mug,6"]
  ended := true
  header_ends := ⟨lit "name,price", by decide⟩
  header_whole := by
    intro d hd
    have hcomma : fileDelimiter (lit "name,price\n") = .ok 0x2C := by decide +kernel
    obtain rfl := Except.ok.inj (hd.symm.trans hcomma)
    have hlines : lines (stripBOM (lit "name,price\n")) = [⟨lit "name,price", true⟩] := by
      decide +kernel
    rw [hlines]
    exact ⟨by decide, by rw [if_neg (by decide)]⟩
  flat := by decide
  single := by
    intro d hd l hl
    have hcomma : fileDelimiter (lit "name,price\n") = .ok 0x2C := by decide +kernel
    obtain rfl := Except.ok.inj (hd.symm.trans hcomma)
    obtain rfl := List.mem_singleton.mp hl
    exact ⟨by decide, .plain, by decide, by decide⟩

/-- **An unfinished quote in the first product takes the second one in.** -/
theorem not_isolated_quote :
    otherRows (strict id id fun _ => "") ⟨lit "m1", []⟩
        (lampAndMug.file ⟨lit "Lamp,5", by decide⟩) lampAndMug.number ≠
      otherRows (strict id id fun _ => "") ⟨lit "m1", []⟩
        (lampAndMug.file ⟨lit "\"Lamp,5", by decide⟩) lampAndMug.number := by
  decide +kernel

end CsvProductUploader

import CsvProductUploader.ImportJob.Csv
import CsvProductUploader.ImportJob.Process

/-!
# From the bytes of a file to its rows

`Streamer.Stream` less its calls to the outside: the header line, the delimiter, the
columns, and one row for each record that `encoding/csv` reads, numbered from 2.

## Main definitions

* `Reading`, `Runtime` — what the Go libraries contribute.
* `detectDelimiter`, `mapColumns`, `openStream` — the header.
* `rowsFrom`, `stream` — the rows.
* `Runtime.KeepsWidth` — `encoding/csv` returns records of the width of the header.

## Main results

* `mapColumns_lt` — a column lies inside the header.
* `exists_stream` — reading a file never goes outside a record.
* `map_num_stream` — the rows are numbered 2, 3, ….
-/

namespace CsvProductUploader

open Checks

/-- What a `csv.Reader` returns: the header, then one result for each further record until
the end of the file. -/
structure Reading where
  header : Except String (List GoString)
  records : List (Except String (List GoString))

/-- What the Go libraries contribute: the cases of the characters beyond ASCII, `%q`, and
`csv.NewReader` with a delimiter, on the bytes of a file. -/
structure Runtime where
  upper : GoString → GoString
  lower : GoString → GoString
  quote : GoString → String
  newReader : UInt8 → GoString → Reading

/-- The width of the first record is that of all: `FieldsPerRecord`. -/
def Runtime.KeepsWidth (rt : Runtime) : Prop :=
  ∀ delim src header record, (rt.newReader delim src).header = .ok header →
    .ok record ∈ (rt.newReader delim src).records → record.length = header.length

/-! ### The header -/

/-- The reasons for which a header is rejected. -/
inductive HeaderError
  | noHeader
  | tooLong
  | noDelimiter
  /-- `encoding/csv` could not read the header. -/
  | reading (err : String)
  | duplicate (name : GoString)
  | missing (name : GoString)
  deriving DecidableEq, Repr

def HeaderError.text (quote : GoString → String) : HeaderError → String
  | .noHeader => "invalid csv header: file has no header"
  | .tooLong => "invalid csv header: header exceeds 1048576 bytes"
  | .noDelimiter =>
    "invalid csv header: no supported delimiter (comma, semicolon or tab) found"
  | .reading err => "invalid csv header: " ++ err
  | .duplicate name => "invalid csv header: duplicate column " ++ quote name
  | .missing name => "invalid csv header: missing column " ++ quote name

def maxHeaderBytes : ℕ := 2 ^ 20

/-- `requiredColumns` -/
def requiredColumns : List GoString := [lit "name", lit "price"]

/-- `utf8BOM` -/
def utf8BOM : GoString := [0xEF, 0xBB, 0xBF]

def stripBOM (src : GoString) : GoString := if utf8BOM <+: src then src.drop 3 else src

/-- The first line, its line feed included. -/
def headerLine (src : GoString) : GoString :=
  src.takeWhile (· ≠ 0x0A) ++ (src.dropWhile (· ≠ 0x0A)).take 1

/-- `strings.TrimRight` for a set of ASCII characters. -/
def trimRight (s cutset : GoString) : GoString := s.rdropWhile (· ∈ cutset)

/-- The counts of `detectDelimiter`. -/
structure Delimiters where
  comma : ℕ := 0
  semicolon : ℕ := 0
  tab : ℕ := 0
  inQuotes : Bool := false
  deriving DecidableEq, Repr

/-- One character of the header; those beyond ASCII count for nothing. -/
def Delimiters.count (d : Delimiters) (r : UInt8) : Delimiters :=
  if r = 0x22 then { d with inQuotes := !d.inQuotes }
  else if d.inQuotes then d
  else if r = 0x2C then { d with comma := d.comma + 1 }
  else if r = 0x3B then { d with semicolon := d.semicolon + 1 }
  else if r = 0x09 then { d with tab := d.tab + 1 }
  else d

def detectDelimiter (header : GoString) : Except HeaderError UInt8 := do
  let d := header.foldl Delimiters.count {}
  reject (d.comma = 0 ∧ d.semicolon = 0 ∧ d.tab = 0) .noDelimiter
  if d.semicolon > d.comma ∧ d.semicolon > d.tab then return 0x3B
  else if d.tab > d.comma ∧ d.tab > d.semicolon then return 0x09
  else return 0x2C

/-- The lower case of an ASCII character. -/
def lowerASCII (b : UInt8) : UInt8 := if 0x41 ≤ b ∧ b ≤ 0x5A then b + 0x20 else b

/-- `strings.ToLower`; `lower` is the lower case of the characters beyond ASCII. -/
def toLower (lower : GoString → GoString) (s : GoString) : GoString :=
  (Utf8.runes s).flatMap fun r =>
    if r.valid then
      match r.bytes with
      | [b] => [lowerASCII b]
      | q => lower q
    else Utf8.replacement

/-- `columnAliases` -/
def columnAlias (name : GoString) : GoString :=
  if name = lit "expiration" then lit "expiration_date" else name

/-- The columns from index `i` on, added to those before. -/
def mapColumnsFrom (lower : GoString → GoString) :
    ℕ → (GoString → Option ℕ) → List GoString → Except HeaderError (GoString → Option ℕ)
  | _, cols, [] => .ok cols
  | i, cols, cell :: header => do
    let name := columnAlias (toLower lower (trimSpace cell))
    reject (cols name ≠ none) (.duplicate name)
    mapColumnsFrom lower (i + 1) (Function.update cols name (some i)) header

def mapColumns (lower : GoString → GoString) (header : List GoString) :
    Except HeaderError (GoString → Option ℕ) := do
  let cols ← mapColumnsFrom lower 0 (fun _ => none) header
  match requiredColumns.find? fun want => cols want = none with
  | some want => .error (.missing want)
  | none => return cols

/-- `Stream` up to the record loop: the columns of the file and the records to come. -/
def openStream (rt : Runtime) (src : GoString) :
    Except HeaderError ((GoString → Option ℕ) × List (Except String (List GoString))) := do
  let line := headerLine (stripBOM src)
  reject (line = []) .noHeader
  reject (maxHeaderBytes < line.length) .tooLong
  let delim ← detectDelimiter (trimRight (trimRight line (lit "\r\n")) (lit " \t"))
  let reader := rt.newReader delim (stripBOM src)
  let header ← reader.header.mapError .reading
  let cols ← mapColumns rt.lower header
  return (cols, reader.records)

/-! ### The rows -/

/-- What one turn of the record loop hands to the callback. -/
def rowOfRead (rt : Runtime) (opts : StreamOptions) (cols : GoString → Option ℕ) (num : ℕ) :
    Except String (List GoString) → Option Row
  | .error err => some { num, product := default, reason := some (.malformed err) }
  | .ok record => parseRow rt.upper num cols record opts

/-- The record loop, `num` records having been read: the rows in their order; `none` where a
record is too short for its columns. -/
def rowsFrom (rt : Runtime) (opts : StreamOptions) (cols : GoString → Option ℕ) :
    ℕ → List (Except String (List GoString)) → Option (List Row)
  | _, [] => some []
  | num, read :: reads => do
    let row ← rowOfRead rt opts cols (num + 1) read
    let rows ← rowsFrom rt opts cols (num + 1) reads
    return row :: rows

/-- `Stream`: what it makes of the bytes of a file. -/
def stream (rt : Runtime) (opts : StreamOptions) (src : GoString) : Option File :=
  match openStream rt src with
  | .error err => some { rows := [], ending := some (err.text rt.quote) }
  | .ok (cols, records) => (rowsFrom rt opts cols 1 records).map fun rows => { rows }

/-! ### No record is too short -/

theorem mapColumnsFrom_lt {lower : GoString → GoString} {i : ℕ} {cols cols' : GoString → Option ℕ}
    {header : List GoString} (hcols : ∀ name idx, cols name = some idx → idx < i)
    (h : mapColumnsFrom lower i cols header = .ok cols') :
    ∀ name idx, cols' name = some idx → idx < i + header.length := by
  induction header generalizing i cols with
  | nil =>
    obtain rfl := Except.ok.inj h
    exact hcols
  | cons cell header ih =>
    rw [mapColumnsFrom, bind_eq_ok_iff] at h
    obtain ⟨-, -, hrest⟩ := h
    -- The index that is filed next is `i` itself.
    have hnext : ∀ name idx, Function.update cols (columnAlias (toLower lower (trimSpace cell)))
        (some i) name = some idx → idx < i + 1 := by
      intro name idx hidx
      rw [Function.update_apply] at hidx
      split at hidx
      · obtain rfl := Option.some.inj hidx
        omega
      · have := hcols name idx hidx
        omega
    intro name idx hidx
    have hlt := ih hnext hrest name idx hidx
    rw [List.length_cons]
    omega

/-- A column lies inside the header. -/
theorem mapColumns_lt {lower : GoString → GoString} {header : List GoString}
    {cols : GoString → Option ℕ} (h : mapColumns lower header = .ok cols) :
    ∀ name idx, cols name = some idx → idx < header.length := by
  rw [mapColumns, bind_eq_ok_iff] at h
  obtain ⟨cols', hcols', h⟩ := h
  split at h
  · cases h
  · obtain rfl := Except.ok.inj h
    have hnone : ∀ (name : GoString) (idx : ℕ), (none : Option ℕ) = some idx → idx < 0 := by
      intro name idx hidx
      cases hidx
    intro name idx hidx
    have hlt := mapColumnsFrom_lt hnone hcols' name idx hidx
    omega

theorem exists_column {record : List GoString} {cols : GoString → Option ℕ}
    (h : ∀ name idx, cols name = some idx → idx < record.length) (name : GoString) :
    ∃ value, column record cols name = some value := by
  unfold column
  cases hidx : cols name with
  | none => exact ⟨_, rfl⟩
  | some idx =>
    have hlt := h name idx hidx
    simp only [List.getElem?_eq_getElem hlt, Option.map_some]
    exact ⟨_, rfl⟩

/-- A record of the width of its header makes a row. -/
theorem exists_parseRow {record : List GoString} {cols : GoString → Option ℕ}
    (h : ∀ name idx, cols name = some idx → idx < record.length) (upper : GoString → GoString)
    (num : ℕ) (opts : StreamOptions) : ∃ row, parseRow upper num cols record opts = some row := by
  obtain ⟨merchantID, hmerchantID⟩ := exists_column h (lit "merchant_id")
  obtain ⟨productID, hproductID⟩ := exists_column h (lit "product_id")
  obtain ⟨currency, hcurrency⟩ := exists_column h (lit "currency")
  obtain ⟨name, hname⟩ := exists_column h (lit "name")
  obtain ⟨price, hprice⟩ := exists_column h (lit "price")
  obtain ⟨expiration, hexpiration⟩ := exists_column h (lit "expiration_date")
  have hcells : ∃ c, cellsOf cols record opts = some c := by
    simp only [cellsOf, hmerchantID, hproductID, hcurrency, hname, hprice, hexpiration]
    exact ⟨_, rfl⟩
  obtain ⟨c, hc⟩ := hcells
  rw [parseRow, hc]
  exact ⟨_, rfl⟩

theorem exists_rowsFrom {rt : Runtime} {cols : GoString → Option ℕ}
    {reads : List (Except String (List GoString))}
    (h : ∀ record, .ok record ∈ reads → ∀ name idx, cols name = some idx → idx < record.length)
    (opts : StreamOptions) (num : ℕ) : ∃ rows, rowsFrom rt opts cols num reads = some rows := by
  induction reads generalizing num with
  | nil => exact ⟨[], rfl⟩
  | cons read reads ih =>
    have hrow : ∃ row, rowOfRead rt opts cols (num + 1) read = some row := by
      cases read with
      | error err => exact ⟨_, rfl⟩
      | ok record => exact exists_parseRow (h record List.mem_cons_self) ..
    obtain ⟨row, hrow⟩ := hrow
    obtain ⟨rows, hrows⟩ := ih (fun record hr => h record (List.mem_cons_of_mem _ hr)) (num + 1)
    refine ⟨row :: rows, ?_⟩
    rw [rowsFrom, hrow]
    show (rowsFrom rt opts cols (num + 1) reads >>= _) = _
    rw [hrows]
    rfl

theorem openStream_eq_ok {rt : Runtime} {src : GoString} {cols : GoString → Option ℕ}
    {records : List (Except String (List GoString))} (h : openStream rt src = .ok (cols, records)) :
    ∃ delim header, (rt.newReader delim (stripBOM src)).header = .ok header ∧
      (rt.newReader delim (stripBOM src)).records = records ∧
        mapColumns rt.lower header = .ok cols := by
  unfold openStream at h
  simp only [bind_eq_ok_iff, mapError_eq_ok_iff] at h
  obtain ⟨-, -, -, -, delim, -, header, hheader, cols', hcols', hret⟩ := h
  obtain ⟨rfl, rfl⟩ := Prod.mk.inj (Except.ok.inj hret)
  exact ⟨delim, header, hheader, rfl, hcols'⟩

/-- Reading a file never goes outside a record. -/
theorem exists_stream {rt : Runtime} (hrt : rt.KeepsWidth) (opts : StreamOptions)
    (src : GoString) : ∃ file, stream rt opts src = some file := by
  unfold stream
  cases hopen : openStream rt src with
  | error err => exact ⟨_, rfl⟩
  | ok opened =>
    obtain ⟨cols, records⟩ := opened
    obtain ⟨delim, header, hheader, rfl, hcols⟩ := openStream_eq_ok hopen
    have hwide : ∀ record, .ok record ∈ (rt.newReader delim (stripBOM src)).records →
        ∀ name idx, cols name = some idx → idx < record.length := by
      intro record hrecord name idx hidx
      rw [hrt delim _ header record hheader hrecord]
      exact mapColumns_lt hcols name idx hidx
    obtain ⟨rows, hrows⟩ := exists_rowsFrom hwide opts 1
    refine ⟨{ rows }, ?_⟩
    show (rowsFrom rt opts cols 1 _).map _ = _
    rw [hrows, Option.map_some]

/-! ### The numbers of the rows -/

theorem num_rowOfRead {rt : Runtime} {opts : StreamOptions} {cols : GoString → Option ℕ} {num : ℕ}
    {read : Except String (List GoString)} {row : Row}
    (h : rowOfRead rt opts cols num read = some row) : row.num = num := by
  cases read with
  | error err =>
    obtain rfl := Option.some.inj h
    rfl
  | ok record =>
    obtain ⟨c, -, rfl⟩ := Option.map_eq_some_iff.mp h
    split <;> rfl

theorem map_num_rowsFrom {rt : Runtime} {opts : StreamOptions} {cols : GoString → Option ℕ}
    {num : ℕ} {reads : List (Except String (List GoString))} {rows : List Row}
    (h : rowsFrom rt opts cols num reads = some rows) :
    rows.map Row.num = List.range' (num + 1) rows.length := by
  induction reads generalizing num rows with
  | nil =>
    obtain rfl := Option.some.inj h
    rfl
  | cons read reads ih =>
    simp only [rowsFrom, Option.bind_eq_bind, Option.bind_eq_some_iff] at h
    obtain ⟨row, hrow, rest, hrest, hrows⟩ := h
    obtain rfl := Option.some.inj hrows
    rw [List.map_cons, List.length_cons, List.range'_succ, num_rowOfRead hrow, ih hrest]

/-- The rows of a file are numbered 2, 3, …, the header being the first record. -/
theorem map_num_stream {rt : Runtime} {opts : StreamOptions} {src : GoString} {file : File}
    (h : stream rt opts src = some file) :
    file.rows.map Row.num = List.range' 2 file.rows.length := by
  unfold stream at h
  split at h
  · obtain rfl := Option.some.inj h
    rfl
  · obtain ⟨rows, hrows, rfl⟩ := Option.map_eq_some_iff.mp h
    exact map_num_rowsFrom hrows

end CsvProductUploader

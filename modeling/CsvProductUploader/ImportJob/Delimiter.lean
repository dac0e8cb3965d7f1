import CsvProductUploader.ImportJob.Streamer
import CsvProductUploader.Lib.Quotes

/-!
# Which delimiter a file is read with

`detectDelimiter` counts the three delimiters outside the quoted segments of the header line
and returns the most frequent one.  Its default is the comma, so that a semicolon and a tab
that tie make it return a comma that may not occur at all.  `Stream` asks it about the first
line alone, cut at the first line feed even where that stands inside a quoted name, and with
padding that keeps the tabs in front of a stray carriage return.

## Main definitions

* `Detects` — the delimiter of a header text is one that the text really uses.
* `fileDelimiter` — the delimiter that `Stream` settles on.
* `IsName`, `HeaderFile` — a header of names joined by one delimiter, padding after it.

## Main results

* `detects_iff` — the delimiter is right unless a semicolon and a tab tie above the comma.
* `openStream_eq` — `Stream` reads the file with the delimiter that it has settled on.
* `HeaderFile.fileDelimiter_eq_iff` — which files are read with the delimiter of their header.
* `detection_iff` — both; `detection_iff_padded` — for two padded files; `not_detects_tie` — a
  header that is misread.
-/

namespace CsvProductUploader

open Checks

/-! ### The counts -/

/-- The delimiters of a product file: comma, semicolon and tab. -/
def delimiters : List UInt8 := [0x2C, 0x3B, 0x09]

/-- What stands outside the quoted segments of a header. -/
def unquoted (header : GoString) : GoString := Quotes.outside 0x22 false header

/-- The counters of `detectDelimiter` count what stands outside the quoted segments. -/
theorem foldl_count (header : GoString) (d : Delimiters) :
    header.foldl Delimiters.count d =
      { comma := d.comma + (Quotes.outside 0x22 d.inQuotes header).count 0x2C
        semicolon := d.semicolon + (Quotes.outside 0x22 d.inQuotes header).count 0x3B
        tab := d.tab + (Quotes.outside 0x22 d.inQuotes header).count 0x09
        inQuotes := Quotes.inside 0x22 d.inQuotes header } := by
  induction header generalizing d with
  | nil => rfl
  | cons r header ih =>
    rw [List.foldl_cons, ih, Delimiters.count, Quotes.outside, Quotes.inside]
    split_ifs <;> grind

/-- `detectDelimiter` compares the three counts. -/
theorem detectDelimiter_eq (header : GoString) :
    detectDelimiter header =
      if (unquoted header).count 0x2C = 0 ∧ (unquoted header).count 0x3B = 0 ∧
          (unquoted header).count 0x09 = 0 then .error .noDelimiter
      else if (unquoted header).count 0x2C < (unquoted header).count 0x3B ∧
          (unquoted header).count 0x09 < (unquoted header).count 0x3B then .ok 0x3B
      else if (unquoted header).count 0x2C < (unquoted header).count 0x09 ∧
          (unquoted header).count 0x3B < (unquoted header).count 0x09 then .ok 0x09
      else .ok 0x2C := by
  have hcounts : header.foldl Delimiters.count {} =
      ⟨(unquoted header).count 0x2C, (unquoted header).count 0x3B, (unquoted header).count 0x09,
        Quotes.inside 0x22 false header⟩ := by
    rw [foldl_count]
    simp only [Nat.zero_add, unquoted]
  simp only [detectDelimiter, hcounts, reject, gt_iff_lt]
  by_cases hnone : (unquoted header).count 0x2C = 0 ∧ (unquoted header).count 0x3B = 0 ∧
      (unquoted header).count 0x09 = 0
  · simp only [if_pos hnone]
    split_ifs <;> rfl
  · simp only [if_neg hnone]
    split_ifs <;> rfl

/-- The detected delimiter is one that the header uses, as often as any other; none is
detected only where none is used. -/
def Detects (header : GoString) : Prop :=
  ((∃ err, detectDelimiter header = .error err) ↔ ∀ e ∈ delimiters, e ∉ unquoted header) ∧
    ∀ d, detectDelimiter header = .ok d → d ∈ delimiters ∧ d ∈ unquoted header ∧
      ∀ e ∈ delimiters, (unquoted header).count e ≤ (unquoted header).count d

theorem detects_iff (header : GoString) :
    Detects header ↔ ¬((unquoted header).count 0x3B = (unquoted header).count 0x09 ∧
      (unquoted header).count 0x2C < (unquoted header).count 0x3B) := by
  have hmem : ∀ e, e ∈ unquoted header ↔ 0 < (unquoted header).count e :=
    fun e => List.count_pos_iff.symm
  unfold Detects
  rw [detectDelimiter_eq]
  simp only [hmem, delimiters, List.forall_mem_cons, List.not_mem_nil, false_imp_iff, implies_true,
    and_true]
  constructor
  · rintro ⟨-, h⟩ ⟨htie, hlt⟩
    -- The tie falls through to the comma.
    obtain ⟨-, -, -, hle, -⟩ := h 0x2C (by
      rw [if_neg (by omega), if_neg (by omega), if_neg (by omega)])
    omega
  · intro hgood
    split_ifs with hnone hsemicolon htab
    · refine ⟨iff_of_true ⟨_, rfl⟩ (by omega), fun d hd => ?_⟩
      cases hd
    · refine ⟨iff_of_false (by simp) (by omega), fun d hd => ?_⟩
      obtain rfl := Except.ok.inj hd
      exact ⟨by decide, by omega⟩
    · refine ⟨iff_of_false (by simp) (by omega), fun d hd => ?_⟩
      obtain rfl := Except.ok.inj hd
      exact ⟨by decide, by omega⟩
    · refine ⟨iff_of_false (by simp) (by omega), fun d hd => ?_⟩
      obtain rfl := Except.ok.inj hd
      exact ⟨by decide, by omega⟩

/-! ### The header text -/

/-- The text that `Stream` hands to `detectDelimiter`: the line without its end and without
its padding. -/
def headerText (line : GoString) : GoString := trimRight (trimRight line (lit "\r\n")) (lit " \t")

/-- The delimiter that `Stream` settles on. -/
def fileDelimiter (src : GoString) : Except HeaderError UInt8 := do
  let line := headerLine (stripBOM src)
  reject (line = []) .noHeader
  reject (maxHeaderBytes < line.length) .tooLong
  detectDelimiter (headerText line)

/-- `Stream` after the delimiter is known, up to the record loop. -/
def readWith (rt : Runtime) (src : GoString) (delim : UInt8) :
    Except HeaderError ((GoString → Option ℕ) × List (Except String (List GoString))) := do
  let reader := rt.newReader delim (stripBOM src)
  let header ← reader.header.mapError .reading
  let cols ← mapColumns rt.lower header
  return (cols, reader.records)

/-- `Stream` reads the file with the delimiter that it has settled on. -/
theorem openStream_eq (rt : Runtime) (src : GoString) :
    openStream rt src = fileDelimiter src >>= readWith rt src := by
  simp only [openStream, fileDelimiter, bind_assoc]
  rfl

/-- The padding of a line. -/
def pads : GoString := lit " \t\r\n"

theorem rdropWhile_append {α : Type} (p : α → Bool) (s t : List α) :
    (s ++ t).rdropWhile p =
      if t.rdropWhile p = [] then s.rdropWhile p else s ++ t.rdropWhile p := by
  simp only [List.rdropWhile, List.reverse_append, List.dropWhile_append, List.isEmpty_iff,
    List.reverse_eq_nil_iff]
  split_ifs
  · rfl
  · rw [List.reverse_append, List.reverse_reverse]

theorem rdropWhile_cons_of_not {α : Type} {p : α → Bool} {x : α} (hx : ¬p x = true)
    (t : List α) : (x :: t).rdropWhile p = x :: t.rdropWhile p := by
  have hone : [x].rdropWhile p = [x] := List.rdropWhile_concat_neg p [] x hx
  rw [← List.singleton_append, rdropWhile_append, hone]
  split_ifs with hnil
  · rw [hnil]
  · rfl

theorem trimRight_append_cons {x : UInt8} {cutset : GoString} (hx : x ∉ cutset) (s t : GoString) :
    trimRight (s ++ x :: t) cutset = s ++ x :: trimRight t cutset := by
  have hkeep : ¬decide (x ∈ cutset) = true := by simpa using hx
  rw [trimRight, rdropWhile_append, rdropWhile_cons_of_not (by exact hkeep),
    if_neg (List.cons_ne_nil _ _)]
  rfl

theorem mem_pads : (∀ b ∈ lit "\r\n", b ∈ pads) ∧ ∀ b ∈ lit " \t", b ∈ pads := by
  decide +kernel

/-- A character that is no padding keeps what stands before it. -/
theorem headerText_append {x : UInt8} (hx : x ∉ pads) (s t : GoString) :
    headerText (s ++ x :: t) = s ++ x :: headerText t := by
  have hend : x ∉ lit "\r\n" := fun hmem => hx (mem_pads.1 x hmem)
  have hblank : x ∉ lit " \t" := fun hmem => hx (mem_pads.2 x hmem)
  rw [headerText, trimRight_append_cons hend, trimRight_append_cons hblank]
  rfl

/-- The header text is the line less some padding. -/
theorem headerText_spec (line : GoString) :
    ∃ w, headerText line ++ w = line ∧ ∀ b ∈ w, b ∈ pads := by
  refine ⟨(trimRight line (lit "\r\n")).rtakeWhile (· ∈ lit " \t") ++
    line.rtakeWhile (· ∈ lit "\r\n"), ?_, ?_⟩
  · rw [headerText, trimRight, ← List.append_assoc, List.rdropWhile_append_rtakeWhile, trimRight,
      List.rdropWhile_append_rtakeWhile]
  · intro b hb
    rcases List.mem_append.mp hb with hb | hb
    · exact mem_pads.2 b (by simpa using List.mem_rtakeWhile_imp hb)
    · exact mem_pads.1 b (by simpa using List.mem_rtakeWhile_imp hb)

/-- Spaces in front of the padding leave its tabs as they are. -/
theorem count_headerText_spaces (k : ℕ) (t : GoString) :
    (headerText (List.replicate k 0x20 ++ t)).count 0x09 = (headerText t).count 0x09 := by
  -- Spaces stop the first trimming and fall to the second.
  have hend : (List.replicate k (0x20 : UInt8)).rdropWhile (· ∈ lit "\r\n") =
      List.replicate k 0x20 := by
    rw [List.rdropWhile_eq_self_iff]
    intro hne
    rw [List.getLast_replicate]
    decide
  have hblank : (List.replicate k (0x20 : UInt8)).rdropWhile (· ∈ lit " \t") = [] := by
    rw [List.rdropWhile_eq_nil_iff]
    intro x hx
    rw [List.eq_of_mem_replicate hx]
    decide
  have hline : trimRight (List.replicate k 0x20 ++ t) (lit "\r\n") =
      List.replicate k 0x20 ++ trimRight t (lit "\r\n") := by
    rw [trimRight, rdropWhile_append, hend]
    split_ifs with hnil
    · rw [trimRight, hnil, List.append_nil]
    · rfl
  rw [headerText, headerText, hline]
  generalize trimRight t (lit "\r\n") = u
  rw [trimRight, rdropWhile_append, hblank, trimRight]
  split_ifs with hnil
  · rw [hnil]
  · rw [List.count_append, List.count_replicate]
    simp

/-! ### The first line -/

theorem headerLine_append {s : GoString} (h : 0x0A ∉ s) (t : GoString) :
    headerLine (s ++ t) = s ++ headerLine t := by
  have hkeep : ∀ b ∈ s, decide (b ≠ 0x0A) = true := by
    intro b hb
    exact decide_eq_true fun heq => h (heq ▸ hb)
  rw [headerLine, List.takeWhile_append_of_pos hkeep, List.dropWhile_append_of_pos hkeep,
    List.append_assoc]
  rfl

theorem headerLine_of_notMem {s : GoString} (h : 0x0A ∉ s) : headerLine s = s := by
  have hline := headerLine_append h []
  rwa [List.append_nil, show headerLine [] = [] from rfl, List.append_nil] at hline

/-- A line feed ends the line. -/
theorem headerLine_lf {s : GoString} (h : 0x0A ∉ s) (t : GoString) :
    headerLine (s ++ 0x0A :: t) = s ++ [0x0A] := by
  rw [headerLine_append h]
  rfl

theorem headerLine_append_of_mem {s : GoString} (h : 0x0A ∈ s) (t : GoString) :
    headerLine (s ++ t) = headerLine s := by
  obtain ⟨a, b, rfl, ha⟩ := List.eq_append_cons_of_mem h
  rw [List.append_assoc, List.cons_append, headerLine_lf ha, headerLine_lf ha]

theorem headerLine_subset (s : GoString) : headerLine s ⊆ s := by
  by_cases hmem : 0x0A ∈ s
  · obtain ⟨a, b, rfl, ha⟩ := List.eq_append_cons_of_mem hmem
    rw [headerLine_lf ha, List.append_subset]
    exact ⟨List.subset_append_left _ _, by simp⟩
  · rw [headerLine_of_notMem hmem]
    exact List.Subset.refl s

theorem headerLine_ne_nil {s : GoString} (h : s ≠ []) : headerLine s ≠ [] := by
  by_cases hmem : 0x0A ∈ s
  · obtain ⟨a, b, rfl, ha⟩ := List.eq_append_cons_of_mem hmem
    rw [headerLine_lf ha]
    simp
  · rwa [headerLine_of_notMem hmem]

theorem fileDelimiter_eq_ok_iff {src : GoString} {d : UInt8} (h : stripBOM src ≠ []) :
    fileDelimiter src = .ok d ↔ (headerLine (stripBOM src)).length ≤ maxHeaderBytes ∧
      detectDelimiter (headerText (headerLine (stripBOM src))) = .ok d := by
  simp only [fileDelimiter, bind_eq_ok_iff, reject_eq_ok_iff, exists_const, not_lt]
  exact and_iff_right (headerLine_ne_nil h)

/-! ### Names joined by a delimiter -/

/-- The text of a column name: free of marks, delimiters and line ends, or quoted. -/
inductive IsName : GoString → Prop
  | plain {name : GoString} (hfree : ∀ b ∈ name, b ∉ delimiters ∧ b ≠ 0x22 ∧ b ≠ 0x0D ∧ b ≠ 0x0A)
    (hblank : trimSpace name ≠ []) : IsName name
  | quoted {content : GoString} (hblank : trimSpace content ≠ []) :
    IsName (Quotes.quoted 0x22 content)

theorem IsName.inside {name : GoString} (h : IsName name) :
    Quotes.inside 0x22 false name = false := by
  cases h with
  | plain hfree => exact Quotes.inside_of_notMem fun hmem => (hfree _ hmem).2.1 rfl
  | quoted => exact Quotes.inside_quoted _

/-- A name uses no delimiter outside its marks. -/
theorem IsName.count_unquoted {name : GoString} (h : IsName name) {e : UInt8}
    (he : e ∈ delimiters) : (unquoted name).count e = 0 := by
  rw [List.count_eq_zero]
  cases h with
  | plain hfree =>
    intro hmem
    exact (hfree e ((Quotes.outside_sublist _ _).subset hmem)).1 he
  | quoted =>
    rw [unquoted, Quotes.outside_quoted]
    exact List.not_mem_nil

/-- Spaces are trimmed away. -/
theorem trimSpace_eq_nil {s : GoString} (h : ∀ b ∈ s, b = 0x20) : trimSpace s = [] := by
  have hascii : ∀ b ∈ s, b < 0x80 := by
    intro b hb
    rw [h b hb]
    decide
  have hspace : (Utf8.runes s).dropWhile isSpace = [] := by
    rw [Utf8.runes_of_ascii hascii, List.dropWhile_eq_nil_iff]
    intro r hr
    obtain ⟨b, hb, rfl⟩ := List.mem_map.mp hr
    rw [h b hb]
    decide
  rw [trimSpace, hspace]
  rfl

/-- A name ends in a character that is no padding, and spaces. -/
theorem IsName.ends {name : GoString} (h : IsName name) :
    ∃ g x k, name = g ++ x :: List.replicate k 0x20 ∧ x ∉ pads := by
  cases h with
  | quoted =>
    exact ⟨0x22 :: Quotes.escape 0x22 _, 0x22, 0, rfl, by decide⟩
  | plain hfree hblank =>
    have hne : name.rdropWhile (· = 0x20) ≠ [] := by
      intro hnil
      rw [List.rdropWhile_eq_nil_iff] at hnil
      refine hblank (trimSpace_eq_nil fun b hb => ?_)
      have hspace := hnil b hb
      simpa using hspace
    obtain ⟨g, x, hgx⟩ := (List.eq_nil_or_concat _).resolve_left hne
    -- A plain name may end in spaces; it comes apart in front of them.
    have hcut := List.rdropWhile_append_rtakeWhile (p := (· = (0x20 : UInt8))) (l := name)
    have hx : x ≠ 0x20 := by
      have hlast := List.rdropWhile_last_not _ _ hne
      simpa [hgx] using hlast
    have hmem : x ∈ name := by
      rw [← hcut, hgx]
      simp
    refine ⟨g, x, (name.rtakeWhile (· = 0x20)).length, ?_, ?_⟩
    · have hspaces : name.rtakeWhile (· = 0x20) =
          List.replicate (name.rtakeWhile (· = 0x20)).length 0x20 :=
        List.eq_replicate_of_mem fun b hb => by simpa using List.mem_rtakeWhile_imp hb
      rw [← hspaces]
      conv_lhs => rw [← hcut, hgx]
      simp
    · obtain ⟨hdelim, -, hcr, hlf⟩ := hfree x hmem
      have hpads : ∀ b ∈ pads, b = 0x20 ∨ b ∈ delimiters ∨ b = 0x0D ∨ b = 0x0A := by
        decide +kernel
      intro hpad
      rcases hpads x hpad with h | h | h | h
      · exact hx h
      · exact hdelim h
      · exact hcr h
      · exact hlf h

/-- A name that goes over a line end is quoted. -/
theorem IsName.of_lf {name : GoString} (h : IsName name) (hlf : 0x0A ∈ name) :
    ∃ content, name = Quotes.quoted 0x22 content ∧ 0x0A ∈ content := by
  cases h with
  | plain hfree => exact absurd rfl (hfree _ hlf).2.2.2
  | @quoted content =>
    refine ⟨content, rfl, ?_⟩
    rw [Quotes.quoted, List.mem_cons, List.mem_append, Quotes.mem_escape_iff] at hlf
    simpa using hlf

theorem IsName.ne_nil {name : GoString} (h : IsName name) : name ≠ [] := by
  obtain ⟨g, x, k, rfl, -⟩ := h.ends
  simp

/-- The names after the first, a delimiter before each. -/
def further (d : UInt8) (names : List GoString) : GoString := names.flatMap fun name => d :: name

theorem unquoted_further {d : UInt8} (hd : d ∈ delimiters) {names : List GoString}
    (h : ∀ name ∈ names, IsName name) :
    Quotes.inside 0x22 false (further d names) = false ∧
      ∀ e ∈ delimiters,
        (unquoted (further d names)).count e = if e = d then names.length else 0 := by
  have hquote : d ≠ 0x22 := by
    rintro rfl
    revert hd
    decide
  induction names with
  | nil => exact ⟨rfl, fun e _ => by simp [further, unquoted, Quotes.outside]⟩
  | cons name names ih =>
    obtain ⟨hinside, hcount⟩ := ih fun n hn => h n (List.mem_cons_of_mem _ hn)
    have hname := h name List.mem_cons_self
    -- A delimiter outside the quotes, then a name that closes its own.
    have hcons : further d (name :: names) = d :: (name ++ further d names) := rfl
    constructor
    · rw [hcons, Quotes.inside, if_neg hquote, Quotes.inside_append, hname.inside, hinside]
    · intro e he
      have hout : unquoted (further d (name :: names)) =
          d :: (unquoted name ++ unquoted (further d names)) := by
        rw [hcons, unquoted, Quotes.outside, if_neg hquote, if_neg (by decide),
          Quotes.outside_append, hname.inside]
        rfl
      rw [hout, List.count_cons, List.count_append, hname.count_unquoted he, hcount e he,
        List.length_cons]
      by_cases heq : e = d
      · simp [heq]
      · simp [heq, Ne.symm heq]

/-- Names joined by a delimiter use it once less than there are names, and no other. -/
theorem unquoted_names {d : UInt8} (hd : d ∈ delimiters) {first : GoString} (hfirst : IsName first)
    {names : List GoString} (h : ∀ name ∈ names, IsName name) :
    Quotes.inside 0x22 false (first ++ further d names) = false ∧
      ∀ e ∈ delimiters,
        (unquoted (first ++ further d names)).count e = if e = d then names.length else 0 := by
  obtain ⟨hinside, hcount⟩ := unquoted_further hd h
  constructor
  · rw [Quotes.inside_append, hfirst.inside, hinside]
  · intro e he
    have hout : unquoted (first ++ further d names) =
        unquoted first ++ unquoted (further d names) := by
      rw [unquoted, Quotes.outside_append, hfirst.inside]
      rfl
    rw [hout, List.count_append, hfirst.count_unquoted he, hcount e he, Nat.zero_add]

theorem exists_of_mem_further {d b : UInt8} {names : List GoString} (hb : b ≠ d)
    (h : b ∈ further d names) : ∃ name ∈ names, b ∈ name := by
  obtain ⟨name, hname, hmem⟩ := List.mem_flatMap.mp h
  exact ⟨name, hname, (List.mem_cons.mp hmem).resolve_left hb⟩

/-- What is detected where one delimiter is used and the padding has tabs. -/
theorem detectDelimiter_padded {header : GoString} {d : UInt8} {m tabs : ℕ} (hd : d ∈ delimiters)
    (hm : 0 < m) (hcount : ∀ e ∈ delimiters, (unquoted header).count e =
      (if e = d then m else 0) + if e = 0x09 then tabs else 0) :
    detectDelimiter header = .ok d ↔ d = 0x09 ∨ tabs < m ∨ (d = 0x2C ∧ tabs = m) := by
  have hcomma := hcount 0x2C (by decide)
  have hsemicolon := hcount 0x3B (by decide)
  have htab := hcount 0x09 (by decide)
  rw [detectDelimiter_eq, hcomma, hsemicolon, htab]
  simp only [delimiters, List.mem_cons, List.not_mem_nil, or_false] at hd
  rcases hd with rfl | rfl | rfl
  · grind
  · grind
  · grind

/-! ### Files -/

/-- A file whose header is two or more names joined by one delimiter, with padding and line
ends after it.  Where the padding has no line feed the file ends with it. -/
structure HeaderFile where
  bom : Bool
  delim : UInt8
  first : GoString
  others : List GoString
  padding : GoString
  rest : GoString
  delim_mem : delim ∈ delimiters
  first_name : IsName first
  others_ne_nil : others ≠ []
  other_name : ∀ name ∈ others, IsName name
  padding_mem : ∀ b ∈ padding, b ∈ pads
  ends : 0x0A ∈ padding ∨ rest = []
  /-- The bytes of a byte-order mark are one, and not part of a name. -/
  marked : bom = false → ¬utf8BOM <+: first ++ further delim others ++ padding ++ rest

namespace HeaderFile

variable (f : HeaderFile)

/-- The header: the names joined by the delimiter. -/
def header : GoString := f.first ++ further f.delim f.others

/-- The file after its byte-order mark. -/
def text : GoString := f.header ++ f.padding ++ f.rest

def bytes : GoString := (if f.bom then utf8BOM else []) ++ f.text

/-- The tabs that are left of the padding when its end is trimmed. -/
def tabs : ℕ := (headerText (headerLine f.padding)).count 0x09

theorem stripBOM_bytes : stripBOM f.bytes = f.text := by
  unfold bytes stripBOM
  cases hbom : f.bom with
  | true =>
    rw [if_pos rfl, if_pos (List.prefix_append _ _)]
    rfl
  | false =>
    rw [if_neg Bool.false_ne_true, List.nil_append]
    exact if_neg (f.marked hbom)

theorem delim_ne_lf : (0x0A : UInt8) ≠ f.delim := fun heq =>
  absurd (heq ▸ f.delim_mem) (by decide)

theorem quote_ne_delim : (0x22 : UInt8) ≠ f.delim := fun heq =>
  absurd (heq ▸ f.delim_mem) (by decide)

theorem text_ne_nil : f.text ≠ [] := by
  have hne := f.first_name.ne_nil
  simp [text, header, hne]

/-- The header ends in a character that is no padding, and spaces. -/
theorem header_ends : ∃ g x k, f.header = g ++ x :: List.replicate k 0x20 ∧ x ∉ pads := by
  obtain ⟨before, last, hlast⟩ := (List.eq_nil_or_concat f.others).resolve_left f.others_ne_nil
  obtain ⟨g, x, k, hname, hx⟩ := (f.other_name last (by rw [hlast]; simp)).ends
  refine ⟨f.first ++ (further f.delim before ++ f.delim :: g), x, k, ?_, hx⟩
  rw [header, hlast, further, List.concat_eq_append, List.flatMap_append]
  simp [further, hname]

/-- A header on one line: the tabs that the trimming leaves count as well. -/
theorem count_headerText (h : 0x0A ∉ f.header) {e : UInt8} (he : e ∈ delimiters) :
    (unquoted (headerText (headerLine f.text))).count e =
      (if e = f.delim then f.others.length else 0) + if e = 0x09 then f.tabs else 0 := by
  obtain ⟨g, x, k, hheader, hx⟩ := f.header_ends
  have hsplit : f.header = (g ++ [x]) ++ List.replicate k 0x20 := by simp [hheader]
  have hspaces : (0x22 : UInt8) ∉ List.replicate k 0x20 := by
    intro hmem
    exact absurd (List.eq_of_mem_replicate hmem) (by decide)
  -- The header has no line end, so the line goes on into the padding.
  have hline : headerLine f.text = f.header ++ headerLine f.padding := by
    have hrest : headerLine (f.padding ++ f.rest) = headerLine f.padding := by
      rcases f.ends with hlf | hnil
      · exact headerLine_append_of_mem hlf f.rest
      · rw [hnil, List.append_nil]
    rw [text, List.append_assoc, headerLine_append h, hrest]
  have htext : headerText (headerLine f.text) =
      (g ++ [x]) ++ headerText (List.replicate k 0x20 ++ headerLine f.padding) := by
    rw [hline, hheader, List.append_assoc, List.cons_append, headerText_append hx,
      List.append_assoc, List.singleton_append]
  have hpads : ∀ b ∈ headerText (List.replicate k 0x20 ++ headerLine f.padding), b ∈ pads := by
    intro b hb
    obtain ⟨w, hw, -⟩ := headerText_spec (List.replicate k 0x20 ++ headerLine f.padding)
    have hmem : b ∈ List.replicate k 0x20 ++ headerLine f.padding := by
      rw [← hw]
      exact List.mem_append_left _ hb
    rcases List.mem_append.mp hmem with hb | hb
    · rw [List.eq_of_mem_replicate hb]
      decide
    · exact f.padding_mem b (headerLine_subset _ hb)
  obtain ⟨hall, hcounts⟩ := unquoted_names f.delim_mem f.first_name f.other_name
  have hinside : Quotes.inside 0x22 false (g ++ [x]) = false := by
    rwa [← header, hsplit, Quotes.inside_append, Quotes.inside_of_notMem hspaces] at hall
  have hcount := hcounts e he
  rw [← header] at hcount
  rw [hsplit, unquoted, Quotes.outside_append, hinside, Quotes.outside_of_notMem hspaces,
    if_neg Bool.false_ne_true, List.count_append] at hcount
  rw [htext, unquoted, Quotes.outside_append, hinside,
    Quotes.outside_of_notMem fun hmem => absurd (hpads _ hmem) (by decide),
    if_neg Bool.false_ne_true, List.count_append, ← hcount]
  -- Of the padding only tabs can count as delimiters.
  by_cases htab : e = 0x09
  · subst htab
    rw [count_headerText_spaces, if_pos rfl, tabs]
    simp [List.count_replicate]
  · have hnot : e ∉ pads := (by decide +kernel : ∀ e ∈ delimiters, e ≠ 0x09 → e ∉ pads) e he htab
    have hspace : e ≠ 0x20 := by
      rintro rfl
      revert he
      decide
    rw [if_neg htab, List.count_eq_zero.mpr fun hmem => hnot (hpads e hmem)]
    simp [List.count_replicate, Ne.symm hspace]

/-- A quoted name that goes over the line end: the counts are those of what precedes it. -/
theorem unquoted_cut {pre content : GoString} (tail : GoString) (hpre : 0x0A ∉ pre)
    (hinside : Quotes.inside 0x22 false pre = false) (hlf : 0x0A ∈ content) :
    unquoted (headerText (headerLine (pre ++ (Quotes.quoted 0x22 content ++ tail)))) =
      unquoted pre := by
  obtain ⟨c, c', rfl, hc⟩ := List.eq_append_cons_of_mem hlf
  have hline : headerLine (pre ++ (Quotes.quoted 0x22 (c ++ 0x0A :: c') ++ tail)) =
      pre ++ 0x22 :: Quotes.escape 0x22 (c ++ [0x0A]) := by
    have hshape : pre ++ (Quotes.quoted 0x22 (c ++ 0x0A :: c') ++ tail) =
        (pre ++ 0x22 :: Quotes.escape 0x22 c) ++
          0x0A :: (Quotes.escape 0x22 c' ++ 0x22 :: tail) := by
      simp [Quotes.quoted, Quotes.escape_append, Quotes.escape]
    have hfree : (0x0A : UInt8) ∉ pre ++ 0x22 :: Quotes.escape 0x22 c := by
      simp [hpre, Quotes.mem_escape_iff, hc]
    rw [hshape, headerLine_lf hfree, Quotes.escape_append]
    simp [Quotes.escape]
  have hopen :
      Quotes.inside 0x22 false (pre ++ 0x22 :: Quotes.escape 0x22 (c ++ [0x0A])) = true := by
    rw [Quotes.inside_append, hinside, Quotes.inside, if_pos rfl]
    exact Quotes.inside_escape _
  have hout : unquoted (pre ++ 0x22 :: Quotes.escape 0x22 (c ++ [0x0A])) = unquoted pre := by
    rw [unquoted, Quotes.outside_append, hinside, Quotes.outside, if_pos rfl]
    exact (congrArg _ (Quotes.outside_escape _)).trans (List.append_nil _)
  rw [hline]
  obtain ⟨w, hw, hpads⟩ :=
    headerText_spec (pre ++ 0x22 :: Quotes.escape 0x22 (c ++ [0x0A]))
  have hquote : (0x22 : UInt8) ∉ w := fun hmem => absurd (hpads _ hmem) (by decide)
  -- The segment is open where the line is cut, so what has been trimmed counted for nothing.
  rw [← hw, Quotes.inside_append, Quotes.inside_of_notMem hquote] at hopen
  rw [← hout]
  conv_rhs => rw [← hw, unquoted, Quotes.outside_append, hopen, Quotes.outside_of_notMem hquote]
  rw [if_pos rfl, List.append_nil]
  rfl

/-- **Which files are read with the delimiter of their header.** -/
theorem fileDelimiter_eq_iff :
    fileDelimiter f.bytes = .ok f.delim ↔
      (headerLine f.text).length ≤ maxHeaderBytes ∧ 0x0A ∉ f.first ∧
        ((∃ name ∈ f.others, 0x0A ∈ name) ∨ f.delim = 0x09 ∨ f.tabs < f.others.length ∨
          (f.delim = 0x2C ∧ f.tabs = f.others.length)) := by
  have htext : stripBOM f.bytes ≠ [] := by
    rw [stripBOM_bytes]
    exact f.text_ne_nil
  have hpos : 0 < f.others.length := List.length_pos_iff.mpr f.others_ne_nil
  rw [fileDelimiter_eq_ok_iff htext, stripBOM_bytes]
  refine and_congr_right fun _ => ?_
  by_cases hfirst : 0x0A ∈ f.first
  · -- No delimiter precedes the end of the line.
    obtain ⟨content, hname, hlf⟩ := f.first_name.of_lf hfirst
    have hcut := @unquoted_cut [] content (further f.delim f.others ++ f.padding ++ f.rest)
      List.not_mem_nil rfl hlf
    have hline : [] ++ (Quotes.quoted 0x22 content ++
        (further f.delim f.others ++ f.padding ++ f.rest)) = f.text := by
      simp [text, header, hname]
    rw [hline] at hcut
    rw [detectDelimiter_eq, hcut, if_pos (by decide)]
    simp [hfirst]
  · rw [and_iff_right hfirst]
    by_cases hlater : ∃ name ∈ f.others, 0x0A ∈ name
    · refine iff_of_true ?_ (Or.inl hlater)
      -- The line ends inside the first name that goes over a line end.
      obtain ⟨name, hfind⟩ : ∃ name, f.others.find? (fun name => 0x0A ∈ name) = some name := by
        rw [← Option.isSome_iff_exists, List.find?_isSome]
        simpa using hlater
      obtain ⟨hmem, before, after, hothers, hbefore⟩ := List.find?_eq_some_iff_append.mp hfind
      have hname : IsName name := f.other_name name (List.mem_of_find?_eq_some hfind)
      obtain ⟨content, rfl, hlf⟩ := hname.of_lf (by simpa using hmem)
      have hnames : ∀ name ∈ before, IsName name := by
        intro name hmem
        exact f.other_name name (by rw [hothers]; exact List.mem_append_left _ hmem)
      have hpre : 0x0A ∉ f.first ++ further f.delim before ++ [f.delim] := by
        simp only [List.mem_append, List.mem_singleton, not_or]
        refine ⟨⟨hfirst, fun hmem => ?_⟩, f.delim_ne_lf⟩
        obtain ⟨name, hmem, hlf⟩ := exists_of_mem_further f.delim_ne_lf hmem
        simpa [hlf] using hbefore name hmem
      obtain ⟨hinside, hcounts⟩ := unquoted_names f.delim_mem f.first_name hnames
      have hcut := unquoted_cut (further f.delim after ++ f.padding ++ f.rest) hpre
        (by
          rw [Quotes.inside_append, hinside, Quotes.inside_of_notMem]
          simpa using f.quote_ne_delim) hlf
      have hline : f.first ++ further f.delim before ++ [f.delim] ++ (Quotes.quoted 0x22 content ++
          (further f.delim after ++ f.padding ++ f.rest)) = f.text := by
        simp [text, header, hothers, further]
      rw [hline] at hcut
      have hcount : ∀ e ∈ delimiters, (unquoted (headerText (headerLine f.text))).count e =
          (if e = f.delim then before.length + 1 else 0) + if e = 0x09 then 0 else 0 := by
        intro e he
        have hout : unquoted (f.first ++ further f.delim before ++ [f.delim]) =
            unquoted (f.first ++ further f.delim before) ++ [f.delim] := by
          rw [unquoted, Quotes.outside_append, hinside, Quotes.outside,
            if_neg (Ne.symm f.quote_ne_delim)]
          rfl
        rw [hcut, hout, List.count_append, hcounts e he, List.count_singleton]
        by_cases heq : e = f.delim
        · simp [heq]
        · simp [heq, Ne.symm heq]
      exact (detectDelimiter_padded f.delim_mem (Nat.succ_pos _) hcount).mpr
        (Or.inr (Or.inl (Nat.succ_pos _)))
    · have hflat : 0x0A ∉ f.header := by
        rw [header, List.mem_append, not_or]
        refine ⟨hfirst, fun hmem => ?_⟩
        obtain ⟨name, hname, hlf⟩ := exists_of_mem_further f.delim_ne_lf hmem
        exact hlater ⟨name, hname, hlf⟩
      rw [or_iff_right hlater]
      exact detectDelimiter_padded f.delim_mem hpos fun e he => f.count_headerText hflat he

end HeaderFile

/-- **When the detected delimiter is the right one**, for a header text and for a file. -/
theorem detection_iff (header : GoString) (f : HeaderFile) (rt : Runtime) (src : GoString) :
    (Detects header ↔
      ¬((unquoted header).count 0x3B = (unquoted header).count 0x09 ∧
        (unquoted header).count 0x2C < (unquoted header).count 0x3B)) ∧
    (fileDelimiter f.bytes = .ok f.delim ↔
      (headerLine f.text).length ≤ maxHeaderBytes ∧ 0x0A ∉ f.first ∧
        ((∃ name ∈ f.others, 0x0A ∈ name) ∨ f.delim = 0x09 ∨ f.tabs < f.others.length ∨
          (f.delim = 0x2C ∧ f.tabs = f.others.length))) ∧
    openStream rt src = fileDelimiter src >>= readWith rt src :=
  ⟨detects_iff header, f.fileDelimiter_eq_iff, openStream_eq rt src⟩

/-- `name;price;"sold;until"` behind a byte-order mark; of the padding a tab is left, in front of
the stray carriage return. -/
def paddedFile : HeaderFile where
  bom := true
  delim := 0x3B
  first := lit "name"
  others := [lit "price", Quotes.quoted 0x22 (lit "sold;until")]
  padding := lit "\t\r\t\r\n"
  rest := lit "Pen;1.50;2026-01-01\n"
  delim_mem := by decide
  first_name := .plain (List.forall_iff_forall_mem.mp (by decide)) (by decide)
  others_ne_nil := List.cons_ne_nil _ _
  other_name := by
    intro name hname
    rcases List.mem_cons.mp hname with rfl | hname
    · exact .plain (List.forall_iff_forall_mem.mp (by decide)) (by decide)
    · obtain rfl := List.mem_singleton.mp hname
      exact .quoted (by decide)
  padding_mem := List.forall_iff_forall_mem.mp (by decide)
  ends := Or.inl (by decide)
  marked := fun hbom => nomatch hbom

/-- The same padding behind `name;price`: the tab ties with the one semicolon. -/
def tiedFile : HeaderFile :=
  { paddedFile with
    others := [lit "price"]
    others_ne_nil := List.cons_ne_nil _ _
    other_name := fun name hname =>
      paddedFile.other_name name (List.mem_cons.mpr (Or.inl (List.mem_singleton.mp hname)))
    marked := fun hbom => nomatch hbom }

/-- The one padded file is read with its semicolon, the other is not. -/
theorem detection_iff_padded :
    fileDelimiter paddedFile.bytes = .ok 0x3B ∧ fileDelimiter tiedFile.bytes ≠ .ok 0x3B := by
  let rt : Runtime := ⟨id, id, fun _ => "", fun _ _ => ⟨.ok [], []⟩⟩
  obtain ⟨-, hpadded, -⟩ := detection_iff [] paddedFile rt []
  obtain ⟨-, htied, -⟩ := detection_iff [] tiedFile rt []
  refine ⟨hpadded.mpr (by decide), fun h => ?_⟩
  have hcounts := htied.mp h
  revert hcounts
  decide

/-- A semicolon and a tab tie, and the comma that is returned does not occur. -/
theorem not_detects_tie : ¬Detects (lit "a;b\tc") := by
  rw [detects_iff]
  decide

end CsvProductUploader

import Mathlib.Data.List.Basic
import Mathlib.Data.Nat.Notation
import Mathlib.Tactic.Common

/-!
# Reading comma-separated records

A reader of comma-separated records in the manner of Go's `encoding/csv` with its defaults:
line by line, blank lines skipped, a carriage return before the line end dropped, and strict
quotes.  A field that opens with a quote goes on over line ends until the quote that closes
it; a quote in any other place is an error, which ends the record with its line.

The source yields bytes and then ends, or fails with an error that it repeats.

## Main definitions

* `Line`, `splitLines`, `lines` — the lines of a text.
* `Scan`, `scanLine`, `endMode` — a line read byte by byte.
* `Entry`, `entries` — what the reader returns, call by call.
* `atEnd`, `atError` — what it returns where the bytes end.
* `swallowed` — how many lines an open quote takes in.

## Main results

* `lines_append_lf` — the lines, one after another.
* `scanLine_mode` — whether a line leaves a quote open does not depend on the fields.
* `entries_pending` — an open quote takes in lines, and the reader goes on after them as if
  it had just started.
* `length_entries_le`, `le_start` — no more records than lines, each starting on its own.
-/

namespace CsvReader

/-! ### Lines -/

/-- A line without its end: whether it has a line feed. -/
structure Line where
  text : List UInt8
  ended : Bool
  deriving DecidableEq, Repr

/-- The lines that a line feed ends, and what comes after the last of them. -/
def splitLines : List UInt8 → List (List UInt8) × List UInt8
  | [] => ([], [])
  | b :: s =>
    if b = 0x0A then ([] :: (splitLines s).1, (splitLines s).2)
    else
      match (splitLines s).1 with
      | [] => ([], b :: (splitLines s).2)
      | t :: ts => ((b :: t) :: ts, (splitLines s).2)

/-- The text without a carriage return at its end. -/
def dropCR (s : List UInt8) : List UInt8 := if s.getLast? = some 0x0D then s.dropLast else s

/-- The lines that a line feed ends. -/
def endedLines (s : List UInt8) : List Line := (splitLines s).1.map fun t => ⟨dropCR t, true⟩

/-- The lines of a text that is complete. -/
def lines (s : List UInt8) : List Line :=
  endedLines s ++
    if dropCR (splitLines s).2 = [] then [] else [⟨dropCR (splitLines s).2, false⟩]

theorem splitLines_of_notMem {s : List UInt8} (h : 0x0A ∉ s) : splitLines s = ([], s) := by
  induction s with
  | nil => rfl
  | cons b s ih =>
    have hne : b ≠ 0x0A := fun heq => h (heq ▸ List.mem_cons_self)
    rw [splitLines, if_neg hne, ih fun hmem => h (List.mem_cons_of_mem _ hmem)]

theorem splitLines_append_lf {t : List UInt8} (h : 0x0A ∉ t) (s : List UInt8) :
    splitLines (t ++ 0x0A :: s) = (t :: (splitLines s).1, (splitLines s).2) := by
  induction t with
  | nil => rfl
  | cons b t ih =>
    have hne : b ≠ 0x0A := fun heq => h (heq ▸ List.mem_cons_self)
    rw [List.cons_append, splitLines, if_neg hne, ih fun hmem => h (List.mem_cons_of_mem _ hmem)]

/-- The lines of a text, the first split off. -/
theorem lines_append_lf {t : List UInt8} (h : 0x0A ∉ t) (s : List UInt8) :
    lines (t ++ 0x0A :: s) = ⟨dropCR t, true⟩ :: lines s := by
  rw [lines, endedLines, splitLines_append_lf h]
  rfl

theorem lines_of_notMem {s : List UInt8} (h : 0x0A ∉ s) :
    lines s = if dropCR s = [] then [] else [⟨dropCR s, false⟩] := by
  rw [lines, endedLines, splitLines_of_notMem h]
  rfl

theorem splitLines_append (s t : List UInt8) :
    splitLines (s ++ 0x0A :: t) =
      ((splitLines s).1 ++ (splitLines s).2 :: (splitLines t).1, (splitLines t).2) := by
  induction s with
  | nil => rfl
  | cons b s ih =>
    rw [List.cons_append, splitLines, splitLines, ih]
    by_cases hb : b = 0x0A
    · rw [if_pos hb, if_pos hb]
      rfl
    · rw [if_neg hb, if_neg hb]
      cases (splitLines s).1 with
      | nil => rfl
      | cons l ls => rfl

/-- What a line feed ends is not changed by what follows. -/
theorem lines_append (s t : List UInt8) :
    lines (s ++ 0x0A :: t) = lines (s ++ [0x0A]) ++ lines t := by
  simp only [lines, endedLines, splitLines_append, splitLines, List.map_append, List.map_cons]
  simp [dropCR]

theorem endedLines_append (s : List UInt8) {t : List UInt8} (h : 0x0A ∉ t) :
    endedLines (s ++ 0x0A :: t) = lines (s ++ [0x0A]) := by
  simp only [lines, endedLines, splitLines_append, splitLines_of_notMem h, splitLines]
  simp [dropCR]

/-! ### The bytes of a line -/

/-- Where in a field the reader stands. -/
inductive Mode
  /-- Before its first byte. -/
  | start
  /-- In a field without quotes. -/
  | plain
  /-- Behind the opening quote. -/
  | quoted
  /-- Behind a quote that closes the field or is the first of two. -/
  | quote
  deriving DecidableEq, Repr

/-- What can be wrong with a quote. -/
inductive Fault
  /-- `ErrBareQuote` -/
  | bareQuote
  /-- `ErrQuote` -/
  | quote
  deriving DecidableEq, Repr

/-- A record in the making: its finished fields and the bytes of the current one. -/
structure Scan where
  fields : List (List UInt8) := []
  field : List UInt8 := []
  mode : Mode := .start
  deriving DecidableEq, Repr

/-- A delimiter ends the field. -/
def Scan.close (s : Scan) : Scan := { fields := s.fields ++ [s.field] }

/-- A byte of the field, and where the reader stands behind it. -/
def Scan.push (s : Scan) (b : UInt8) (m : Mode) : Scan :=
  { s with field := s.field ++ [b], mode := m }

/-- One byte of a line. -/
def step (comma : UInt8) (s : Scan) (b : UInt8) : Except Fault Scan :=
  match s.mode with
  | .start =>
    if b = 0x22 then .ok { s with mode := .quoted }
    else if b = comma then .ok s.close
    else .ok (s.push b .plain)
  | .plain =>
    if b = 0x22 then .error .bareQuote
    else if b = comma then .ok s.close
    else .ok (s.push b .plain)
  | .quoted => if b = 0x22 then .ok { s with mode := .quote } else .ok (s.push b .quoted)
  | .quote =>
    if b = 0x22 then .ok (s.push b .quoted)
    else if b = comma then .ok s.close
    else .error .quote

/-- The column of a fault that shows at a byte: that of the quote. -/
def Fault.column (f : Fault) (col : ℕ) : ℕ :=
  match f with
  | .bareQuote => col
  | .quote => col - 1

/-- The bytes of a line from column `col` on. -/
def scanLine (comma : UInt8) : ℕ → Scan → List UInt8 → Except (Fault × ℕ) Scan
  | _, s, [] => .ok s
  | col, s, b :: t =>
    match step comma s b with
    | .error f => .error (f, f.column col)
    | .ok s' => scanLine comma (col + 1) s' t

/-- Where the reader stands behind a byte; `none` for a fault. -/
def Mode.next (comma : UInt8) (m : Mode) (b : UInt8) : Option Mode :=
  match m with
  | .start => some (if b = 0x22 then .quoted else if b = comma then .start else .plain)
  | .plain => if b = 0x22 then none else some (if b = comma then .start else .plain)
  | .quoted => some (if b = 0x22 then .quote else .quoted)
  | .quote => if b = 0x22 then some .quoted else if b = comma then some .start else none

/-- Where the reader stands at the end of a line; `none` for a fault. -/
def endMode (comma : UInt8) : Mode → List UInt8 → Option Mode
  | m, [] => some m
  | m, b :: t => (m.next comma b).bind fun m' => endMode comma m' t

theorem step_mode (comma : UInt8) (s : Scan) (b : UInt8) :
    s.mode.next comma b = (step comma s b).toOption.map Scan.mode := by
  unfold step Mode.next
  cases s.mode with
  | start => split_ifs <;> rfl
  | plain => split_ifs <;> rfl
  | quoted => split_ifs <;> rfl
  | quote => split_ifs <;> rfl

/-- Whether a line is faulty, and whether it leaves a quote open, depends on where the reader
stands alone. -/
theorem scanLine_mode (comma : UInt8) (col : ℕ) (s : Scan) (t : List UInt8) :
    endMode comma s.mode t = (scanLine comma col s t).toOption.map Scan.mode := by
  induction t generalizing col s with
  | nil => rfl
  | cons b t ih =>
    rw [endMode, step_mode, scanLine]
    cases step comma s b with
    | error f => rfl
    | ok s' => exact ih (col + 1) s'

/-! ### Records -/

variable {ε : Type}

/-- Why a record is not returned. -/
inductive ReadError (ε : Type)
  /-- The record starts on line `start`, and line `line` is faulty. -/
  | parse (start line column : ℕ) (fault : Fault)
  /-- `ErrFieldCount` -/
  | fieldCount (line : ℕ)
  | source (err : ε)
  deriving DecidableEq, Repr

/-- What a call returns: the fields of a record, and the line that it starts on. -/
structure Entry (ε : Type) where
  start : ℕ
  result : Except (ReadError ε) (List (List UInt8))

/-- A record whose last line has left a quote open: where it starts, and the position behind
that line. -/
structure Pending where
  start : ℕ
  scan : Scan
  line : ℕ
  column : ℕ
  deriving DecidableEq, Repr

/-- The fields of a record whose last line is finished. -/
def Scan.record (s : Scan) : List (List UInt8) := s.fields ++ [s.field]

/-- The record goes on on the next line. -/
def Pending.of (start line : ℕ) (s : Scan) (l : Line) : Pending where
  start := start
  scan := if l.ended then s.push 0x0A .quoted else s
  line := line
  column := 1 + l.text.length + if l.ended then 1 else 0

/-- What the reader returns over some lines from line `n` on, a record being open or not;
`fin` is what it returns behind the last of them. -/
def entries (comma : UInt8) (fin : Option Pending → ℕ → List (Entry ε)) :
    Option Pending → ℕ → List Line → List (Entry ε)
  | st, n, [] => fin st n
  | st, n, l :: ls =>
    if st = none ∧ l.text = [] then entries comma fin none (n + 1) ls
    else
      let start := st.elim n Pending.start
      match scanLine comma 1 (st.elim {} Pending.scan) l.text with
      | .error (fault, col) =>
        ⟨start, .error (.parse start n col fault)⟩ :: entries comma fin none (n + 1) ls
      | .ok s =>
        if s.mode = .quoted then entries comma fin (some (.of start n s l)) (n + 1) ls
        else ⟨start, .ok s.record⟩ :: entries comma fin none (n + 1) ls

/-- At the end of the source an open quote is missing its other half. -/
def atEnd : Option Pending → ℕ → List (Entry ε)
  | none, _ => []
  | some p, _ => [⟨p.start, .error (.parse p.start p.line p.column .quote)⟩]

/-- Where the source fails behind the bytes `t` of a line, they are read as far as they go. -/
def atError (comma : UInt8) (err : ε) (t : List UInt8) (st : Option Pending) (n : ℕ) :
    List (Entry ε) :=
  if st = none ∧ t = [] then []
  else
    let start := st.elim n Pending.start
    match scanLine comma 1 (st.elim {} Pending.scan) t with
    | .error (fault, col) => [⟨start, .error (.parse start n col fault)⟩]
    | .ok _ => [⟨start, .error (.source err)⟩]

/-- What the reader returns for the bytes of a source, the error of the source being `err`;
from then on it returns the end of the source, or that error. -/
def results (comma : UInt8) (s : List UInt8) (err : Option ε) : List (Entry ε) :=
  match err with
  | none => entries comma atEnd none 1 (lines s)
  | some err => entries comma (atError comma err (splitLines s).2) none 1 (endedLines s)

/-! ### One line -/

/-- What the reader returns for a line that it starts and finishes a record on. -/
def lineEntry (comma : UInt8) (n : ℕ) (t : List UInt8) : Entry ε :=
  match scanLine comma 1 {} t with
  | .error (fault, col) => ⟨n, .error (.parse n n col fault)⟩
  | .ok s => ⟨n, .ok s.record⟩

theorem start_lineEntry (comma : UInt8) (n : ℕ) (t : List UInt8) :
    (lineEntry comma n t : Entry ε).start = n := by
  unfold lineEntry
  split <;> rfl

@[simp] theorem mode_of (start line : ℕ) {s : Scan} (h : s.mode = .quoted) (l : Line) :
    (Pending.of start line s l).scan.mode = .quoted := by
  unfold Pending.of
  dsimp only
  split
  · rfl
  · exact h

variable {comma : UInt8} {fin : Option Pending → ℕ → List (Entry ε)}

theorem entries_blank (n : ℕ) {l : Line} (h : l.text = []) (ls : List Line) :
    entries comma fin none n (l :: ls) = entries comma fin none (n + 1) ls := by
  rw [entries, if_pos ⟨rfl, h⟩]

/-- A line that leaves no quote open is a record of its own. -/
theorem entries_closed (n : ℕ) {l : Line} (hne : l.text ≠ [])
    (hmode : endMode comma .start l.text ≠ some .quoted) (ls : List Line) :
    entries comma fin none n (l :: ls) =
      lineEntry comma n l.text :: entries comma fin none (n + 1) ls := by
  have hscan := scanLine_mode comma 1 {} l.text
  rw [entries, if_neg fun h => hne h.2, lineEntry]
  simp only [Option.elim_none]
  cases hs : scanLine comma 1 {} l.text with
  | error f => rfl
  | ok s =>
    rw [hs] at hscan
    have hs' : ¬s.mode = .quoted := by
      intro heq
      refine hmode (hscan.trans ?_)
      rw [← heq]
      rfl
    simp only [if_neg hs']

/-- A line that leaves a quote open starts a record. -/
theorem entries_open (n : ℕ) {l : Line} (hmode : endMode comma .start l.text = some .quoted) :
    ∃ p : Pending, p.start = n ∧ p.scan.mode = .quoted ∧
      ∀ ls, entries comma fin none n (l :: ls) = entries comma fin (some p) (n + 1) ls := by
  have hne : l.text ≠ [] := by
    intro hnil
    rw [hnil] at hmode
    cases hmode
  have hscan := scanLine_mode comma 1 {} l.text
  cases hs : scanLine comma 1 {} l.text with
  | error f =>
    rw [hs] at hscan
    cases hscan.symm.trans hmode
  | ok s =>
    rw [hs] at hscan
    have hs' : s.mode = .quoted := Option.some.inj (hscan.symm.trans hmode)
    refine ⟨.of n n s l, rfl, mode_of n n hs' l, fun ls => ?_⟩
    rw [entries, if_neg fun h => hne h.2]
    simp only [Option.elim_none, hs, if_pos hs']

/-! ### An open quote -/

/-- How many lines an open quote takes in: up to the first that closes it. -/
def swallowed (comma : UInt8) : List Line → ℕ
  | [] => 0
  | l :: ls => if endMode comma .quoted l.text = some .quoted then swallowed comma ls + 1 else 1

/-- The lines hold the end of a record whose quote is open, and nothing behind it. -/
def Closes (comma : UInt8) : List Line → Prop
  | [] => False
  | l :: ls => if endMode comma .quoted l.text = some .quoted then Closes comma ls else ls = []

theorem swallowed_pos {ls : List Line} (h : ls ≠ []) : 0 < swallowed comma ls := by
  cases ls with
  | nil => exact absurd rfl h
  | cons l ls =>
    rw [swallowed]
    split
    · omega
    · omega

/-- A line behind an open quote. -/
theorem entries_some {p : Pending} (hp : p.scan.mode = .quoted) (n : ℕ) (l : Line) :
    (endMode comma .quoted l.text = some .quoted ∧ ∃ p' : Pending, p'.start = p.start ∧
      p'.scan.mode = .quoted ∧
      ∀ ls, entries comma fin (some p) n (l :: ls) = entries comma fin (some p') (n + 1) ls) ∨
    (endMode comma .quoted l.text ≠ some .quoted ∧ ∃ e : Entry ε, e.start = p.start ∧
      ∀ ls, entries comma fin (some p) n (l :: ls) = e :: entries comma fin none (n + 1) ls) := by
  have hscan := scanLine_mode comma 1 p.scan l.text
  rw [hp] at hscan
  have hsome : ¬(some p = none ∧ l.text = []) := fun h => Option.some_ne_none p h.1
  -- The record goes on, or it ends with this line, well formed or not.
  cases hs : scanLine comma 1 p.scan l.text with
  | error f =>
    rw [hs] at hscan
    refine Or.inr ⟨by rw [hscan]; exact Option.some_ne_none _ |>.symm, ?_⟩
    refine ⟨⟨p.start, .error (.parse p.start n f.2 f.1)⟩, rfl, fun ls => ?_⟩
    rw [entries, if_neg hsome]
    simp only [Option.elim_some, hs]
  | ok s =>
    rw [hs] at hscan
    by_cases hs' : s.mode = .quoted
    · refine Or.inl ⟨hscan.trans (congrArg some hs'), .of p.start n s l, rfl,
        mode_of p.start n hs' l, fun ls => ?_⟩
      rw [entries, if_neg hsome]
      simp only [Option.elim_some, hs, if_pos hs']
    · refine Or.inr ⟨fun h => hs' (Option.some.inj (hscan.symm.trans h)),
        ⟨p.start, .ok s.record⟩, rfl, fun ls => ?_⟩
      rw [entries, if_neg hsome]
      simp only [Option.elim_some, hs, if_neg hs']

/-- **An open quote takes in lines, and the reader goes on behind them as if it had just
started.** -/
theorem entries_pending {p : Pending} (hp : p.scan.mode = .quoted) (n : ℕ) (ls : List Line) :
    ∃ e : Entry ε, e.start = p.start ∧ entries comma atEnd (some p) n ls =
      e :: entries comma atEnd none (n + swallowed comma ls) (ls.drop (swallowed comma ls)) := by
  induction ls generalizing p n with
  | nil => exact ⟨_, rfl, rfl⟩
  | cons l ls ih =>
    rcases entries_some hp n l with ⟨hmode, p', hstart, hp', heq⟩ | ⟨hmode, e, hstart, heq⟩
    · obtain ⟨e, he, hrest⟩ := ih hp' (n + 1)
      refine ⟨e, he.trans hstart, ?_⟩
      rw [heq, hrest, swallowed, if_pos hmode, List.drop_succ_cons,
        show n + 1 + swallowed comma ls = n + (swallowed comma ls + 1) by omega]
    · refine ⟨e, hstart, ?_⟩
      rw [heq, swallowed, if_neg hmode]
      rfl

/-- Lines that hold the end of an open record: it does not depend on what follows. -/
theorem entries_closes {p : Pending} (hp : p.scan.mode = .quoted) (n : ℕ) {ls : List Line}
    (h : Closes comma ls) :
    ∃ e : Entry ε, ∀ rest, entries comma fin (some p) n (ls ++ rest) =
      e :: entries comma fin none (n + ls.length) rest := by
  induction ls generalizing p n with
  | nil => exact absurd h id
  | cons l ls ih =>
    rcases @entries_some ε comma fin p hp n l with ⟨hmode, p', -, hp', heq⟩ | ⟨hmode, e, -, heq⟩
    · rw [Closes, if_pos hmode] at h
      obtain ⟨e, hrest⟩ := ih hp' (n + 1) h
      refine ⟨e, fun rest => ?_⟩
      rw [List.cons_append, heq, hrest, List.length_cons,
        show n + 1 + ls.length = n + (ls.length + 1) by omega]
    · rw [Closes, if_neg hmode] at h
      subst h
      exact ⟨e, fun rest => heq rest⟩

/-! ### How many records -/

/-- At most one record for each line, and one for an open quote. -/
theorem length_entries_le {k : ℕ} (hnone : ∀ n, (fin none n).length ≤ k)
    (hsome : ∀ p n, (fin (some p) n).length ≤ k + 1) (st : Option Pending) (n : ℕ)
    (ls : List Line) :
    (entries comma fin st n ls).length ≤ ls.length + k + st.elim 0 fun _ => 1 := by
  induction ls generalizing st n with
  | nil =>
    cases st with
    | none => simpa [entries] using hnone n
    | some p => simpa [entries] using hsome p n
  | cons l ls ih =>
    have hfree := ih none (n + 1)
    rw [Option.elim_none] at hfree
    rw [entries, List.length_cons]
    split
    · omega
    · dsimp only
      split
      · rw [List.length_cons]
        omega
      · -- A line gives one entry, or none and leaves a record open.
        next s hs =>
        split
        · next hmode =>
          have hopen := ih (some (.of (st.elim n Pending.start) n s l)) (n + 1)
          rw [Option.elim_some] at hopen
          omega
        · rw [List.length_cons]
          omega

/-- A record starts on one of the lines, or on that of the open quote. -/
theorem le_start {st : Option Pending} {n : ℕ} (hst : st.elim n Pending.start ≤ n)
    {ls : List Line} {e : Entry ε} (h : e ∈ entries comma atEnd st n ls) :
    st.elim n Pending.start ≤ e.start := by
  induction ls generalizing st n with
  | nil =>
    cases st with
    | none => cases h
    | some p =>
      rw [List.mem_singleton.mp h]
      exact Nat.le_refl _
  | cons l ls ih =>
    -- Behind an entry the next one starts on a later line.
    have hfree : e ∈ entries comma atEnd none (n + 1) ls → n + 1 ≤ e.start :=
      fun hmem => @ih none (n + 1) (Nat.le_refl _) hmem
    rw [entries] at h
    split at h
    · have := hfree h
      omega
    · dsimp only at h
      split at h
      · rcases List.mem_cons.mp h with rfl | h
        · exact Nat.le_refl _
        · have := hfree h
          omega
      · next s hs =>
        split at h
        · exact @ih (some (.of (st.elim n Pending.start) n s l)) (n + 1) (Nat.le_succ_of_le hst) h
        · rcases List.mem_cons.mp h with rfl | h
          · exact Nat.le_refl _
          · have := hfree h
            omega

/-! ### Sources that fail -/

/-- The first record is finished on these lines, or what is returned depends on their end. -/
theorem entries_first (comma : UInt8) (st : Option Pending) (n : ℕ) (ls : List Line) :
    (∃ (e : Entry ε) (m : ℕ) (rest : List Line), ∀ fin, entries comma fin st n ls =
      e :: entries comma fin none m rest) ∨
    ∃ (st' : Option Pending) (m : ℕ), ∀ fin : Option Pending → ℕ → List (Entry ε),
      entries comma fin st n ls = fin st' m := by
  induction ls generalizing st n with
  | nil => exact Or.inr ⟨st, n, fun fin => rfl⟩
  | cons l ls ih =>
    -- A line is skipped, ends the entry it belongs to, or leaves it pending.
    by_cases hblank : st = none ∧ l.text = []
    · rcases ih none (n + 1) with ⟨e, m, rest, heq⟩ | ⟨st', m, heq⟩
      · exact Or.inl ⟨e, m, rest, fun fin => by rw [entries, if_pos hblank, heq]⟩
      · exact Or.inr ⟨st', m, fun fin => by rw [entries, if_pos hblank, heq]⟩
    · cases hs : scanLine comma 1 (st.elim {} Pending.scan) l.text with
      | error f =>
        refine Or.inl ⟨⟨st.elim n Pending.start,
            .error (.parse (st.elim n Pending.start) n f.2 f.1)⟩,
          n + 1, ls, fun fin => ?_⟩
        rw [entries, if_neg hblank]
        simp only [hs]
      | ok s =>
        by_cases hmode : s.mode = .quoted
        · rcases ih (some (.of (st.elim n Pending.start) n s l)) (n + 1) with
            ⟨e, m, rest, heq⟩ | ⟨st', m, heq⟩
          · refine Or.inl ⟨e, m, rest, fun fin => ?_⟩
            rw [entries, if_neg hblank]
            simp only [hs, if_pos hmode, heq]
          · refine Or.inr ⟨st', m, fun fin => ?_⟩
            rw [entries, if_neg hblank]
            simp only [hs, if_pos hmode, heq]
        · refine Or.inl ⟨⟨st.elim n Pending.start, .ok s.record⟩, n + 1, ls, fun fin => ?_⟩
          rw [entries, if_neg hblank]
          simp only [hs, if_neg hmode]

/-- No record is finished by the end of the source, nor by its failure. -/
theorem error_of_mem_atEnd {st : Option Pending} {n : ℕ} {e : Entry ε} (h : e ∈ atEnd st n) :
    ∃ err, e.result = .error err := by
  cases st with
  | none => cases h
  | some p =>
    rw [List.mem_singleton.mp h]
    exact ⟨_, rfl⟩

theorem error_of_mem_atError {comma : UInt8} {err : ε} {t : List UInt8} {st : Option Pending}
    {n : ℕ} {e : Entry ε} (h : e ∈ atError comma err t st n) : ∃ err', e.result = .error err' := by
  unfold atError at h
  split at h
  · cases h
  · dsimp only at h
    split at h
    · rw [List.mem_singleton.mp h]
      exact ⟨_, rfl⟩
    · rw [List.mem_singleton.mp h]
      exact ⟨_, rfl⟩

theorem length_atError_le (comma : UInt8) (err : ε) (t : List UInt8) (st : Option Pending) (n : ℕ) :
    (atError comma err t st n).length ≤ 1 := by
  unfold atError
  split
  · exact Nat.zero_le 1
  · dsimp only
    split <;> exact Nat.le_refl 1

/-- Records of another width than the first are rejected. -/
def checkWidth (width : ℕ) (e : Entry ε) : Entry ε :=
  match e.result with
  | .ok record =>
    if record.length = width then e else { e with result := .error (.fieldCount e.start) }
  | .error _ => e

end CsvReader

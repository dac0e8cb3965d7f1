import CsvProductUploader.Lib.Utf8

/-!
# JSON strings

A string between its quotes: which texts a scanner takes, what they stand for, and how a
string is written.  The manner is that of Go's `encoding/json`: invalid UTF-8 and lone
surrogates read as U+FFFD, and the writer escapes what HTML or JavaScript would take amiss.

## Main definitions

* `Scan`, `Scan.next`, `IsText` — the texts that can stand between quotes.
* `quote` — a string as it is written.
* `Unquote`, `unquote` — what a text stands for.

## Main results

* `isText_quote` — what is written can be scanned.
* `unquote_quote` — it stands for the string, made valid UTF-8.
* `le_of_isText`, `IsText.bare` — a text holds no control character, and no quote without a
  backslash before it.
-/

namespace Json

open Utf8 (Rune runes replacement sanitize)

/-! ### Scanning -/

/-- Where in a string the scanner stands. -/
inductive Scan
  | text
  /-- Behind a backslash. -/
  | escape
  /-- Behind `\u`; one hexadecimal digit and `left` more are to come. -/
  | hex (left : ℕ)
  deriving DecidableEq, Repr

def isHex (b : UInt8) : Bool :=
  (0x30 ≤ b && b ≤ 0x39) || (0x61 ≤ b && b ≤ 0x66) || (0x41 ≤ b && b ≤ 0x46)

/-- The bytes that may follow a backslash, `u` aside. -/
def escapes : List UInt8 := [0x62, 0x66, 0x6E, 0x72, 0x74, 0x5C, 0x2F, 0x22]

/-- The scanner at a byte that does not end the string. -/
def Scan.next : Scan → UInt8 → Option Scan
  | .text, b =>
    if b = 0x5C then some .escape else if b = 0x22 ∨ b < 0x20 then none else some .text
  | .escape, b => if b = 0x75 then some (.hex 3) else if b ∈ escapes then some .text else none
  | .hex 0, b => if isHex b then some .text else none
  | .hex (left + 1), b => if isHex b then some (.hex left) else none

/-- The text can stand between quotes. -/
def IsText (s : List UInt8) : Prop := s.foldlM Scan.next .text = some .text

instance (s : List UInt8) : Decidable (IsText s) :=
  inferInstanceAs (Decidable (s.foldlM Scan.next .text = some .text))

/-! ### Writing -/

/-- A digit of `0123456789abcdef`. -/
def hexDigit (n : ℕ) : UInt8 := if n < 10 then UInt8.ofNat (0x30 + n) else UInt8.ofNat (0x57 + n)

/-- An ASCII character as it is written. -/
def escapeByte (b : UInt8) : List UInt8 :=
  if b = 0x22 ∨ b = 0x5C then [0x5C, b]
  else if b = 0x08 then [0x5C, 0x62]
  else if b = 0x0C then [0x5C, 0x66]
  else if b = 0x0A then [0x5C, 0x6E]
  else if b = 0x0D then [0x5C, 0x72]
  else if b = 0x09 then [0x5C, 0x74]
  -- the signs `<`, `>` and `&` with the other control characters
  else if b < 0x20 ∨ b = 0x3C ∨ b = 0x3E ∨ b = 0x26 then
    [0x5C, 0x75, 0x30, 0x30, hexDigit (b.toNat / 16), hexDigit (b.toNat % 16)]
  else [b]

/-- A piece of a string as it is written; U+2028 and U+2029 are escaped, too. -/
def quoteRune (r : Rune) : List UInt8 :=
  if r.valid = false then [0x5C, 0x75, 0x66, 0x66, 0x66, 0x64]
  else if r.bytes = [0xE2, 0x80, 0xA8] then [0x5C, 0x75, 0x32, 0x30, 0x32, 0x38]
  else if r.bytes = [0xE2, 0x80, 0xA9] then [0x5C, 0x75, 0x32, 0x30, 0x32, 0x39]
  else
    match r.bytes with
    | [b] => escapeByte b
    | bytes => bytes

/-- A string as it is written, without the quotes around it. -/
def quote (s : List UInt8) : List UInt8 := (runes s).flatMap quoteRune

/-! ### Reading -/

/-- The value of a hexadecimal digit. -/
def hexValue (b : UInt8) : ℕ :=
  if b ≤ 0x39 then b.toNat - 0x30 else if b ≤ 0x46 then b.toNat - 0x37 else b.toNat - 0x57

/-- What a character behind a backslash stands for. -/
def unescape (b : UInt8) : UInt8 :=
  if b = 0x62 then 0x08 else if b = 0x66 then 0x0C else if b = 0x6E then 0x0A
  else if b = 0x72 then 0x0D else if b = 0x74 then 0x09 else b

/-- The sequence of a code point that is no surrogate. -/
def encodeRune (c : ℕ) : List UInt8 :=
  if c < 0x80 then [UInt8.ofNat c]
  else if c < 0x800 then [UInt8.ofNat (0xC0 + c / 0x40), UInt8.ofNat (0x80 + c % 0x40)]
  else if c < 0x10000 then
    [UInt8.ofNat (0xE0 + c / 0x1000), UInt8.ofNat (0x80 + c / 0x40 % 0x40),
      UInt8.ofNat (0x80 + c % 0x40)]
  else
    [UInt8.ofNat (0xF0 + c / 0x40000), UInt8.ofNat (0x80 + c / 0x1000 % 0x40),
      UInt8.ofNat (0x80 + c / 0x40 % 0x40), UInt8.ofNat (0x80 + c % 0x40)]

/-- A string half read. -/
structure Unquote where
  out : List UInt8
  scan : Scan
  /-- The code that the digits read so far make. -/
  code : ℕ
  /-- A first half of a surrogate pair, whose second half may follow. -/
  high : Option ℕ
  deriving DecidableEq, Repr

namespace Unquote

/-- A first half without a second reads as U+FFFD. -/
def lone (u : Unquote) : List UInt8 := if u.high.isSome then replacement else []

/-- The string goes on with something else than a second half. -/
def emit (u : Unquote) (bytes : List UInt8) : Unquote :=
  ⟨u.out ++ u.lone ++ bytes, .text, 0, none⟩

/-- The code of an escape is complete. -/
def escaped (u : Unquote) (code : ℕ) : Unquote :=
  match u.high with
  | some h =>
    if 0xDC00 ≤ code ∧ code < 0xE000 then
      ⟨u.out ++ encodeRune (0x10000 + (h - 0xD800) * 0x400 + (code - 0xDC00)), .text, 0, none⟩
    else if 0xD800 ≤ code ∧ code < 0xDC00 then ⟨u.out ++ replacement, .text, 0, some code⟩
    else u.emit (encodeRune code)
  | none =>
    if 0xD800 ≤ code ∧ code < 0xDC00 then ⟨u.out, .text, 0, some code⟩
    else if 0xDC00 ≤ code ∧ code < 0xE000 then u.emit replacement
    else u.emit (encodeRune code)

/-- The next piece of the text. -/
def next (u : Unquote) (r : Rune) : Unquote :=
  match u.scan with
  | .text => if r.bytes = [0x5C] then { u with scan := .escape } else u.emit r.clean
  | .escape =>
    if r.bytes = [0x75] then { u with scan := .hex 3, code := 0 }
    else u.emit (r.bytes.map unescape)
  | .hex 0 => u.escaped (u.code * 16 + hexValue (r.bytes.headD 0))
  | .hex (left + 1) =>
    { u with scan := .hex left, code := u.code * 16 + hexValue (r.bytes.headD 0) }

end Unquote

/-- What a text between quotes stands for. -/
def unquote (s : List UInt8) : List UInt8 :=
  let u := (runes s).foldl Unquote.next ⟨[], .text, 0, none⟩
  u.out ++ u.lone

/-! ### What can be scanned -/

/-- What holds of all ASCII characters can be evaluated. -/
theorem forall_ascii {P : UInt8 → Prop} (h : ∀ n < 128, P (UInt8.ofNat n)) {b : UInt8}
    (hb : b < 0x80) : P b := by
  have hlt := h b.toNat (UInt8.lt_iff_toNat_lt.mp hb)
  rwa [UInt8.ofNat_toNat] at hlt

theorem next_text {b : UInt8} (hb : ¬b < 0x80) : Scan.next .text b = some .text := by
  have hne : ∀ c : UInt8, c < 0x80 → b ≠ c := by
    rintro c hc rfl
    exact hb hc
  have hctl : ¬b < 0x20 := fun hlt => hb (UInt8.lt_trans hlt (by decide))
  simp [Scan.next, hne 0x5C (by decide), hne 0x22 (by decide), hctl]

theorem isText_of_high {s : List UInt8} (h : ∀ b ∈ s, ¬b < 0x80) : IsText s := by
  induction s with
  | nil => rfl
  | cons b s ih =>
    show ((Scan.next .text b).bind fun m => s.foldlM Scan.next m) = some .text
    rw [next_text (h b List.mem_cons_self)]
    exact ih fun c hc => h c (List.mem_cons_of_mem b hc)

theorem IsText.append {s t : List UInt8} (hs : IsText s) (ht : IsText t) : IsText (s ++ t) := by
  unfold IsText at hs
  rw [IsText, List.foldlM_append, hs]
  exact ht

theorem le_of_next {m m' : Scan} {b : UInt8} (h : m.next b = some m') : 0x20 ≤ b := by
  by_contra hlt
  have hctl : b < 0x20 := UInt8.not_le.mp hlt
  have hnone := forall_ascii (P := fun b => b < 0x20 →
    Scan.next .text b = none ∧ isHex b = false ∧ b ≠ 0x75 ∧ b ∉ escapes) (by decide)
    (UInt8.lt_trans hctl (by decide)) hctl
  obtain ⟨htext, hhex, hu, hescape⟩ := hnone
  cases m with
  | text => simp [htext] at h
  | escape => simp [Scan.next, hu, hescape] at h
  | hex left => cases left <;> simp [Scan.next, hhex] at h

theorem le_of_foldlM {m m' : Scan} {s : List UInt8} (h : s.foldlM Scan.next m = some m') :
    ∀ b ∈ s, 0x20 ≤ b := by
  induction s generalizing m with
  | nil => exact fun b hb => absurd hb List.not_mem_nil
  | cons c s ih =>
    rw [List.foldlM_cons] at h
    obtain ⟨n, hn, h⟩ := Option.bind_eq_some_iff.mp h
    intro b hb
    rcases List.mem_cons.mp hb with rfl | hb
    · exact le_of_next hn
    · exact ih h b hb

/-- A text holds no control character. -/
theorem le_of_isText {s : List UInt8} (h : IsText s) : ∀ b ∈ s, 0x20 ≤ b := le_of_foldlM h

/-- Only a backslash takes the scanner to where it takes a quote. -/
theorem eq_escape_of_next {m m' : Scan} {b : UInt8} (h : m.next b = some m')
    (hquote : (m'.next 0x22).isSome = true) : b = 0x5C := by
  have hm' : m' = .escape := by
    cases m' with
    | text => cases hquote
    | escape => rfl
    | hex left => cases left <;> cases hquote
  subst hm'
  cases m with
  | text =>
    simp only [Scan.next] at h
    split_ifs at h with hb
    · exact hb
    · cases h
  | escape =>
    simp only [Scan.next] at h
    split_ifs at h <;> cases h
  | hex left =>
    cases left <;>
      · simp only [Scan.next] at h
        split_ifs at h
        cases h

/-- **A quote in a text stands behind a backslash.** -/
theorem IsText.bare {s t : List UInt8} (h : IsText (s ++ 0x22 :: t)) : ∃ s', s = s' ++ [0x5C] := by
  rw [IsText, List.foldlM_append] at h
  obtain ⟨m, hm, h⟩ := Option.bind_eq_some_iff.mp h
  rw [List.foldlM_cons] at h
  obtain ⟨m', hm', -⟩ := Option.bind_eq_some_iff.mp h
  rcases List.eq_nil_or_concat s with rfl | ⟨s', b, rfl⟩
  · obtain rfl := Option.some.inj hm
    cases hm'
  · rw [List.concat_eq_append, List.foldlM_append] at hm
    obtain ⟨n, -, hn⟩ := Option.bind_eq_some_iff.mp hm
    rw [List.foldlM_cons] at hn
    obtain ⟨m'', hm'', hn⟩ := Option.bind_eq_some_iff.mp hn
    obtain rfl := Option.some.inj hn
    rw [eq_escape_of_next hm'' (by rw [hm']; rfl)]
    exact ⟨s', List.concat_eq_append⟩

/-! ### What is written -/

/-- A string that is read from its beginning. -/
def Unquote.start : Unquote := ⟨[], .text, 0, none⟩

/-- An escape: ASCII characters that can be scanned and that stand for `t`. -/
structure Reads (q t : List UInt8) : Prop where
  ascii : ∀ b ∈ q, b < 0x80
  text : IsText q
  value : (q.map fun b => ⟨[b], true⟩ : List Rune).foldl Unquote.next .start = ⟨t, .text, 0, none⟩

/-- The characters of a string are looked at one by one. -/
scoped instance decidableForallMem (P : UInt8 → Prop) [DecidablePred P] (s : List UInt8) :
    Decidable (∀ b ∈ s, P b) :=
  List.decidableBAll P s

instance (q t : List UInt8) : Decidable (Reads q t) :=
  decidable_of_iff (_ ∧ _ ∧ _) ⟨fun ⟨h₁, h₂, h₃⟩ => ⟨h₁, h₂, h₃⟩, fun ⟨h₁, h₂, h₃⟩ => ⟨h₁, h₂, h₃⟩⟩

theorem reads_escapeByte {b : UInt8} (hb : b < 0x80) : Reads (escapeByte b) [b] :=
  forall_ascii (P := fun b => Reads (escapeByte b) [b]) (by decide) hb

theorem lt_of_isSeq_singleton {b : UInt8} (h : Utf8.IsSeq [b]) : b < 0x80 := by
  obtain ⟨n, hn, -⟩ := h
  rcases Utf8.seqLen_eq_some hn with ⟨-, hb⟩ | ⟨m, lo, hi, c, cs, -, hnil, -⟩
  · exact hb
  · cases hnil

/-- A piece is written as an escape or, if it has several bytes, as it is. -/
theorem quoteRune_cases {s : List UInt8} {r : Rune} (h : r ∈ runes s) :
    Reads (quoteRune r) r.clean ∨
      (quoteRune r = r.bytes ∧ r.clean = r.bytes ∧ Utf8.IsSeq r.bytes ∧
        ∀ b ∈ r.bytes, ¬b < 0x80) := by
  unfold quoteRune Rune.clean
  rcases Utf8.runes_spec h with ⟨hvalid, hseq⟩ | ⟨hvalid, -⟩
  · rw [if_neg (by simp [hvalid]), if_pos hvalid]
    split
    · -- U+2028 and U+2029 are escaped although they are valid.
      next hsep =>
      rw [hsep]
      exact .inl (by decide)
    · split
      · next hsep =>
        rw [hsep]
        exact .inl (by decide)
      · rcases hseq.ascii_or with ⟨b, hb, hlt⟩ | hhigh
        · rw [hb]
          exact .inl (reads_escapeByte hlt)
        · refine .inr ⟨?_, rfl, hseq, hhigh⟩
          split
          · next b hb =>
            rw [hb] at hseq hhigh
            exact absurd (lt_of_isSeq_singleton hseq) (hhigh b List.mem_cons_self)
          · rfl
  · rw [if_pos hvalid, if_neg (by simp [hvalid])]
    exact .inl (by decide)

/-- **What is written can be scanned.** -/
theorem isText_quote (s : List UInt8) : IsText (quote s) := by
  have hall : ∀ rs : List Rune, (∀ r ∈ rs, r ∈ runes s) → IsText (rs.flatMap quoteRune) := by
    intro rs hrs
    induction rs with
    | nil => rfl
    | cons r rs ih =>
      rw [List.flatMap_cons]
      refine IsText.append ?_ (ih fun q hq => hrs q (List.mem_cons_of_mem r hq))
      rcases quoteRune_cases (hrs r List.mem_cons_self) with hreads | ⟨heq, -, -, hhigh⟩
      · exact hreads.text
      · rw [heq]
        exact isText_of_high hhigh
  exact hall _ fun r hr => hr

/-! ### What is read back -/

namespace Unquote

/-- The string with something in front. -/
def behind (u : Unquote) (out : List UInt8) : Unquote := { u with out := out ++ u.out }

theorem escaped_behind (u : Unquote) (out : List UInt8) (code : ℕ) :
    (u.behind out).escaped code = (u.escaped code).behind out := by
  obtain ⟨o, scan, old, high⟩ := u
  cases high <;>
    · simp only [escaped, behind]
      split_ifs <;> simp [emit, lone]

theorem next_behind (u : Unquote) (out : List UInt8) (r : Rune) :
    (u.behind out).next r = (u.next r).behind out := by
  obtain ⟨o, scan, code, high⟩ := u
  cases scan with
  | text =>
    simp only [next, behind]
    split <;> simp [emit, lone]
  | escape =>
    simp only [next, behind]
    split <;> simp [emit, lone]
  | hex left =>
    cases left with
    | zero => exact escaped_behind ⟨o, .hex 0, code, high⟩ out _
    | succ left => rfl

theorem foldl_behind (u : Unquote) (out : List UInt8) (rs : List Rune) :
    rs.foldl next (u.behind out) = (rs.foldl next u).behind out := by
  induction rs generalizing u with
  | nil => rfl
  | cons r rs ih => rw [List.foldl_cons, List.foldl_cons, next_behind, ih]

end Unquote

/-- The pieces of ASCII characters are single. -/
theorem runes_ascii_append {q : List UInt8} (h : ∀ b ∈ q, b < 0x80) (t : List UInt8) :
    runes (q ++ t) = (q.map fun b => ⟨[b], true⟩) ++ runes t := by
  induction q with
  | nil => rfl
  | cons b q ih =>
    have hb : Utf8.IsSeq [b] := Utf8.isSeq_of_ascii (h b List.mem_cons_self)
    have hq : ∀ c ∈ q, c < 0x80 := fun c hc => h c (List.mem_cons_of_mem b hc)
    have hsplit : b :: q ++ t = [b] ++ (q ++ t) := rfl
    rw [hsplit, Utf8.runes_append hb, ih hq]
    rfl

/-- **What is written stands for the string, made valid UTF-8.** -/
theorem unquote_quote (s : List UInt8) : unquote (quote s) = sanitize s := by
  have hall : ∀ (rs : List Rune) (out : List UInt8), (∀ r ∈ rs, r ∈ runes s) →
      (runes (rs.flatMap quoteRune)).foldl Unquote.next ⟨out, .text, 0, none⟩ =
        ⟨out ++ rs.flatMap Rune.clean, .text, 0, none⟩ := by
    intro rs out hrs
    induction rs generalizing out with
    | nil => simp
    | cons r rs ih =>
      have hrest := ih (out ++ r.clean) fun q hq => hrs q (List.mem_cons_of_mem r hq)
      rw [List.flatMap_cons, List.flatMap_cons, ← List.append_assoc, ← hrest]
      -- What is escaped is ASCII and read byte by byte, what is not is one rune.
      rcases quoteRune_cases (hrs r List.mem_cons_self) with hreads | ⟨heq, hclean, hseq, hhigh⟩
      · have hstart : (⟨out, .text, 0, none⟩ : Unquote) = Unquote.start.behind out := by
          simp [Unquote.behind, Unquote.start]
        rw [runes_ascii_append hreads.ascii, List.foldl_append, hstart, Unquote.foldl_behind,
          hreads.value]
        rfl
      · have hne : r.bytes ≠ [0x5C] := by
          intro hr
          rw [hr] at hhigh
          exact hhigh 0x5C List.mem_cons_self (by decide)
        rw [heq, Utf8.runes_append hseq, List.foldl_cons, hclean]
        simp [Unquote.next, hne, Unquote.emit, Unquote.lone, Rune.clean]
  have hrunes := hall (runes s) [] fun r hr => hr
  simp only [unquote, quote, hrunes]
  simp [Unquote.lone, sanitize]

/-! ### Plain texts -/

/-- A character that is written as it is. -/
def Plain (b : UInt8) : Prop := b < 0x80 ∧ escapeByte b = [b]

instance (b : UInt8) : Decidable (Plain b) := inferInstanceAs (Decidable (_ ∧ _))

theorem quote_of_plain {s : List UInt8} (h : ∀ b ∈ s, Plain b) : quote s = s := by
  induction s with
  | nil => rfl
  | cons b s ih =>
    have hb := h b List.mem_cons_self
    have hrunes : runes (b :: s) = ⟨[b], true⟩ :: runes s :=
      Utf8.runes_append (Utf8.isSeq_of_ascii hb.1) s
    have hrune : quoteRune ⟨[b], true⟩ = [b] := by simp [quoteRune, hb.2]
    rw [quote, hrunes, List.flatMap_cons, hrune, List.singleton_append]
    exact congrArg (b :: ·) (ih fun c hc => h c (List.mem_cons_of_mem b hc))

theorem unquote_of_plain {s : List UInt8} (h : ∀ b ∈ s, Plain b) : unquote s = s := by
  have hvalue := unquote_quote s
  rwa [quote_of_plain h, Utf8.sanitize_of_ascii fun b hb => (h b hb).1] at hvalue

/-- A string that is written in plain characters is what is written. -/
theorem eq_of_plain_quote {s : List UInt8} (h : ∀ b ∈ quote s, Plain b) : quote s = s := by
  have hvalue := unquote_quote s
  rw [unquote_of_plain h] at hvalue
  refine Utf8.eq_of_sanitize_eq (Utf8.legible_of_ascii fun b hb => (h b hb).1) ?_
  rw [Utf8.sanitize_of_ascii fun b hb => (h b hb).1, hvalue]

end Json

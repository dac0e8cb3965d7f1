import Mathlib.Data.List.Basic
import Mathlib.Data.List.Forall2
import Mathlib.Data.Nat.Notation
import Mathlib.Tactic.Common

/-!
# UTF-8 over arbitrary bytes

A byte string is cut into the sequences that UTF-8 allows, and single bytes where
no such sequence starts.  Every byte string can be cut, so text operations that
work rune by rune are defined on all of them.

## Main definitions

* `seqLen` — how many bytes follow the first in the sequence at the head.
* `Rune`, `runes` — the pieces of a byte string.
* `Valid` — no piece is a stray byte.
* `sanitize` — stray bytes replaced by U+FFFD.
* `Legible`, `SameText` — what sanitizing can tell apart.
* `blur` — the pieces that read as U+FFFD replaced by a stray byte.

## Main results

* `flatMap_runes` — the pieces make up the string.
* `runes_append` — a well-formed sequence in front is a piece of its own.
* `valid_sanitize`, `sanitize_of_valid` — sanitizing yields valid text and leaves
  valid text alone.
* `mem_sanitize_of_ascii` — it neither adds nor removes an ASCII byte.
* `sanitize_eq_sanitize_iff` — it identifies the strings that differ in pieces that read
  as U+FFFD, and no others.
-/

namespace Utf8

/-- A continuation byte, `10xxxxxx`. -/
def isTail (b : UInt8) : Bool := 0x80 ≤ b && b ≤ 0xBF

/-- What a lead byte announces: the number of bytes to follow, and the range of the
first of them, which excludes overlong forms, surrogates and values past U+10FFFF. -/
def lead (b : UInt8) : Option (ℕ × UInt8 × UInt8) :=
  if b < 0x80 then some (0, 0x80, 0xBF)
  else if b < 0xC2 then none
  else if b < 0xE0 then some (1, 0x80, 0xBF)
  else if b = 0xE0 then some (2, 0xA0, 0xBF)
  else if b = 0xED then some (2, 0x80, 0x9F)
  else if b < 0xF0 then some (2, 0x80, 0xBF)
  else if b = 0xF0 then some (3, 0x90, 0xBF)
  else if b < 0xF4 then some (3, 0x80, 0xBF)
  else if b = 0xF4 then some (3, 0x80, 0x8F)
  else none

/-- The number of bytes after the first in the sequence at the head of the string;
`none` if no sequence starts there. -/
def seqLen : List UInt8 → Option ℕ
  | [] => none
  | b :: bs =>
    match lead b, bs with
    | none, _ => none
    | some (0, _, _), _ => some 0
    | some (_ + 1, _, _), [] => none
    | some (n + 1, lo, hi), c :: cs =>
      if lo ≤ c ∧ c ≤ hi ∧ n ≤ cs.length ∧ (cs.take n).all isTail then some (n + 1) else none

/-- A piece of a byte string: a sequence, or a stray byte. -/
structure Rune where
  bytes : List UInt8
  valid : Bool
  deriving DecidableEq, Repr

/-- The pieces of a byte string from its byte `k` on, which is the end of a piece. -/
def runesFrom : ℕ → List UInt8 → List Rune
  | _, [] => []
  | k + 1, _ :: bs => runesFrom k bs
  | 0, b :: bs =>
    match seqLen (b :: bs) with
    | some n => ⟨b :: bs.take n, true⟩ :: runesFrom n bs
    | none => ⟨[b], false⟩ :: runesFrom 0 bs

/-- The pieces of a byte string. -/
def runes (s : List UInt8) : List Rune := runesFrom 0 s

/-- No piece is a stray byte. -/
def Valid (s : List UInt8) : Prop := ∀ r ∈ runes s, r.valid = true

instance (s : List UInt8) : Decidable (Valid s) :=
  inferInstanceAs (Decidable (∀ r ∈ runes s, _))

/-- The code point of a piece; U+FFFD for a stray byte. -/
def Rune.code (r : Rune) : ℕ :=
  if r.valid then
    match r.bytes with
    | [a] => a.toNat
    | [a, b] => (a.toNat - 0xC0) * 0x40 + (b.toNat - 0x80)
    | [a, b, c] => (a.toNat - 0xE0) * 0x1000 + (b.toNat - 0x80) * 0x40 + (c.toNat - 0x80)
    | [a, b, c, d] =>
      (a.toNat - 0xF0) * 0x40000 + (b.toNat - 0x80) * 0x1000 + (c.toNat - 0x80) * 0x40 +
        (d.toNat - 0x80)
    | _ => 0xFFFD
  else 0xFFFD

/-- U+FFFD. -/
def replacement : List UInt8 := [0xEF, 0xBF, 0xBD]

/-- What a piece becomes. -/
def Rune.clean (r : Rune) : List UInt8 := if r.valid then r.bytes else replacement

/-- The string with each stray byte replaced by U+FFFD. -/
def sanitize (s : List UInt8) : List UInt8 := (runes s).flatMap Rune.clean

/-! ### The pieces make up the string -/

theorem flatMap_runesFrom (k : ℕ) (s : List UInt8) :
    (runesFrom k s).flatMap Rune.bytes = s.drop k := by
  induction s generalizing k with
  | nil => cases k <;> rfl
  | cons b bs ih =>
    cases k with
    | succ k => rw [runesFrom, ih, List.drop_succ_cons]
    | zero =>
      rw [runesFrom]
      cases hlen : seqLen (b :: bs) with
      | none => simp [ih]
      | some n => simp [ih, List.take_append_drop]

@[simp] theorem flatMap_runes (s : List UInt8) : (runes s).flatMap Rune.bytes = s :=
  flatMap_runesFrom 0 s

@[simp] theorem runes_nil : runes [] = [] := rfl

theorem runes_eq_nil_iff {s : List UInt8} : runes s = [] ↔ s = [] := by
  constructor
  · intro h
    rw [← flatMap_runes s, h]
    rfl
  · rintro rfl
    rfl

/-! ### Well-formed sequences -/

/-- The string is one sequence. -/
def IsSeq (q : List UInt8) : Prop := ∃ n, seqLen q = some n ∧ q.length = n + 1

/-- What a sequence is made of. -/
theorem seqLen_eq_some {b : UInt8} {bs : List UInt8} {n : ℕ} (h : seqLen (b :: bs) = some n) :
    (n = 0 ∧ b < 0x80) ∨
      ∃ m lo hi c cs, n = m + 1 ∧ bs = c :: cs ∧ lead b = some (m + 1, lo, hi) ∧ lo ≤ c ∧
        c ≤ hi ∧ m ≤ cs.length ∧ (cs.take m).all isTail = true := by
  simp only [seqLen] at h
  split at h
  · cases h
  · next hlead =>
    refine Or.inl ⟨(Option.some.inj h).symm, ?_⟩
    by_contra hb
    unfold lead at hlead
    rw [if_neg hb] at hlead
    split_ifs at hlead <;> simp at hlead
  · cases h
  · next m lo hi c cs hlead =>
    split at h
    · next hc =>
      exact Or.inr ⟨m, lo, hi, c, cs, (Option.some.inj h).symm, rfl, hlead, hc.1, hc.2.1,
        hc.2.2.1, hc.2.2.2⟩
    · cases h

theorem seqLen_of_ascii {b : UInt8} (h : b < 0x80) (bs : List UInt8) :
    seqLen (b :: bs) = some 0 := by
  have hlead : lead b = some (0, 0x80, 0xBF) := by rw [lead, if_pos h]
  simp [seqLen, hlead]

/-- The sequence at the head does not depend on what follows it. -/
theorem seqLen_append {q : List UInt8} {n : ℕ} (h : seqLen q = some n) (s : List UInt8) :
    seqLen (q ++ s) = some n := by
  cases q with
  | nil => cases h
  | cons b bs =>
    rcases seqLen_eq_some h with ⟨rfl, hb⟩ | ⟨m, lo, hi, c, cs, rfl, rfl, hlead, hlo, hhi,
        hm, htail⟩
    · exact seqLen_of_ascii hb _
    · rw [List.cons_append, List.cons_append]
      have htake : (cs ++ s).take m = cs.take m := List.take_append_of_le_length hm
      simp only [seqLen, hlead, htake, List.length_append]
      rw [if_pos ⟨hlo, hhi, by omega, htail⟩]

/-- The sequence at the head of a string, cut off, is a sequence. -/
theorem isSeq_take {b : UInt8} {bs : List UInt8} {n : ℕ} (h : seqLen (b :: bs) = some n) :
    IsSeq (b :: bs.take n) := by
  rcases seqLen_eq_some h with ⟨rfl, hb⟩ | ⟨m, lo, hi, c, cs, rfl, rfl, hlead, hlo, hhi, hm, htail⟩
  · exact ⟨0, seqLen_of_ascii hb _, rfl⟩
  · refine ⟨m + 1, ?_, by simp [hm]⟩
    rw [List.take_succ_cons]
    simp only [seqLen, hlead, List.take_take, Nat.min_self, List.length_take]
    rw [if_pos ⟨hlo, hhi, by omega, htail⟩]

theorem runesFrom_eq (k : ℕ) (s : List UInt8) : runesFrom k s = runes (s.drop k) := by
  induction s generalizing k with
  | nil => cases k <;> rfl
  | cons b bs ih =>
    cases k with
    | zero => rfl
    | succ k => rw [runesFrom, ih, List.drop_succ_cons]

/-- A sequence in front of a string is a piece of its own. -/
theorem runes_append {q : List UInt8} (h : IsSeq q) (s : List UInt8) :
    runes (q ++ s) = ⟨q, true⟩ :: runes s := by
  obtain ⟨n, hn, hlen⟩ := h
  cases q with
  | nil => cases hn
  | cons b bs =>
    have hbs : n = bs.length := by simpa [eq_comm] using hlen
    have happ := seqLen_append hn s
    rw [List.cons_append] at happ ⊢
    have hrest : runesFrom n (bs ++ s) = runes s := by
      rw [runesFrom_eq, hbs, List.drop_left]
    have htake : (bs ++ s).take n = bs := by rw [hbs, List.take_left]
    rw [runes, runesFrom, happ]
    simp only [hrest, htake]

/-- What the pieces of a string are. -/
theorem runes_spec {s : List UInt8} {r : Rune} (h : r ∈ runes s) :
    (r.valid = true ∧ IsSeq r.bytes) ∨ (r.valid = false ∧ ∃ b, r.bytes = [b] ∧ 0x80 ≤ b) := by
  have hgen : ∀ (s : List UInt8) (k : ℕ), r ∈ runesFrom k s →
      (r.valid = true ∧ IsSeq r.bytes) ∨ (r.valid = false ∧ ∃ b, r.bytes = [b] ∧ 0x80 ≤ b) := by
    intro s
    induction s with
    | nil => intro k hr; cases k <;> cases hr
    | cons b bs ih =>
      intro k hr
      cases k with
      | succ k => exact ih k hr
      | zero =>
        rw [runesFrom] at hr
        cases hlen : seqLen (b :: bs) with
        | none =>
          rw [hlen] at hr
          rcases List.mem_cons.mp hr with rfl | hr
          · -- A byte below 0x80 is a sequence by itself, so a stray one is above.
            refine Or.inr ⟨rfl, b, rfl, ?_⟩
            by_contra hb
            rw [seqLen_of_ascii (by simpa using hb)] at hlen
            cases hlen
          · exact ih 0 hr
        | some n =>
          rw [hlen] at hr
          rcases List.mem_cons.mp hr with rfl | hr
          · exact Or.inl ⟨rfl, isSeq_take hlen⟩
          · exact ih n hr
  exact hgen s 0 h

/-- No piece is empty. -/
theorem bytes_ne_nil {s : List UInt8} {r : Rune} (h : r ∈ runes s) : r.bytes ≠ [] := by
  rcases runes_spec h with ⟨-, n, -, hlen⟩ | ⟨-, b, hb, -⟩
  · intro hnil
    rw [hnil] at hlen
    cases hlen
  · rw [hb]
    exact List.cons_ne_nil b []

theorem runes_stray {b : UInt8} {s : List UInt8} (h : seqLen (b :: s) = none) :
    runes (b :: s) = ⟨[b], false⟩ :: runes s := by
  rw [runes, runesFrom, h]
  rfl

/-- The first piece of a string, and what follows it. -/
theorem runes_eq_cons {s : List UInt8} {r : Rune} {rs : List Rune} (h : runes s = r :: rs) :
    ∃ rest, s = r.bytes ++ rest ∧ runes rest = rs ∧
      ((r.valid = true ∧ IsSeq r.bytes) ∨
        ∃ b, r = ⟨[b], false⟩ ∧ seqLen (b :: rest) = none) := by
  cases s with
  | nil => cases h
  | cons b bs =>
    cases hlen : seqLen (b :: bs) with
    | none =>
      rw [runes_stray hlen] at h
      obtain ⟨rfl, hrs⟩ := List.cons.inj h
      exact ⟨bs, rfl, hrs, Or.inr ⟨b, rfl, hlen⟩⟩
    | some n =>
      rw [runes, runesFrom, hlen] at h
      obtain ⟨rfl, hrs⟩ := List.cons.inj h
      refine ⟨bs.drop n, ?_, ?_, Or.inl ⟨rfl, isSeq_take hlen⟩⟩
      · simp
      · rw [← hrs, runesFrom_eq]

/-- Cutting a string between two of its pieces makes no other pieces. -/
theorem runes_flatMap_bytes {s : List UInt8} {ps qs : List Rune} (h : runes s = ps ++ qs) :
    runes (ps.flatMap Rune.bytes) = ps ∧ runes (qs.flatMap Rune.bytes) = qs := by
  induction ps generalizing s with
  | nil =>
    refine ⟨rfl, ?_⟩
    rw [List.nil_append] at h
    rw [← h, flatMap_runes]
  | cons p ps ih =>
    obtain ⟨rest, -, hrest, hp⟩ := runes_eq_cons h
    rw [show ps.append qs = ps ++ qs from rfl] at hrest
    obtain ⟨hps, hqs⟩ := ih hrest
    refine ⟨?_, hqs⟩
    have hcut : rest = ps.flatMap Rune.bytes ++ qs.flatMap Rune.bytes := by
      rw [← List.flatMap_append, ← hrest, flatMap_runes]
    rw [List.flatMap_cons]
    rcases hp with ⟨hvalid, hseq⟩ | ⟨b, rfl, hstray⟩
    · rw [runes_append hseq, hps, ← hvalid]
    · -- A stray byte does not become a sequence when less follows it.
      have hshort : seqLen (b :: ps.flatMap Rune.bytes) = none := by
        cases hlen : seqLen (b :: ps.flatMap Rune.bytes) with
        | none => rfl
        | some n =>
          have happ := seqLen_append hlen (qs.flatMap Rune.bytes)
          rw [List.cons_append, ← hcut, hstray] at happ
          cases happ
      show runes (b :: ps.flatMap Rune.bytes) = _
      rw [runes_stray hshort, hps]

theorem runes_flatten {qs : List (List UInt8)} (h : ∀ q ∈ qs, IsSeq q) :
    runes qs.flatten = qs.map fun q => ⟨q, true⟩ := by
  induction qs with
  | nil => rfl
  | cons q qs ih =>
    have hqs : ∀ q ∈ qs, IsSeq q := fun q hq => h q (List.mem_cons_of_mem _ hq)
    rw [List.flatten_cons, runes_append (h q List.mem_cons_self), ih hqs, List.map_cons]

/-- The bytes of a sequence of several bytes are not ASCII. -/
theorem IsSeq.ascii_or {q : List UInt8} (h : IsSeq q) :
    (∃ b, q = [b] ∧ b < 0x80) ∨ ∀ b ∈ q, ¬b < 0x80 := by
  obtain ⟨n, hn, hlen⟩ := h
  cases q with
  | nil => cases hn
  | cons a bs =>
    rcases seqLen_eq_some hn with ⟨rfl, ha⟩ | ⟨m, lo, hi, c, cs, rfl, rfl, hlead, hlo, hhi,
        hm, htail⟩
    · have hbs : bs = [] := List.eq_nil_of_length_eq_zero (by simpa using hlen)
      exact Or.inl ⟨a, by rw [hbs], ha⟩
    · right
      have hcs : cs.take m = cs := List.take_of_length_le (by simp at hlen; omega)
      rw [hcs, List.all_eq_true] at htail
      have ha : ¬a < 0x80 := by
        intro ha
        rw [lead, if_pos ha] at hlead
        simp at hlead
      -- The bounds of the second byte are not below 0x80 for any first byte.
      have hlo' : ¬lo < 0x80 := by
        unfold lead at hlead
        split_ifs at hlead <;> simp at hlead <;> rw [← hlead.2.1] <;> decide
      intro b hb
      rcases List.mem_cons.mp hb with rfl | hb
      · exact ha
      · rcases List.mem_cons.mp hb with rfl | hb
        · exact fun hlt => hlo' (UInt8.lt_of_le_of_lt hlo hlt)
        · have hb' := htail b hb
          simp only [isTail, Bool.and_eq_true, decide_eq_true_eq] at hb'
          exact UInt8.not_lt.mpr hb'.1

/-! ### Text of ASCII characters -/

theorem isSeq_of_ascii {b : UInt8} (h : b < 0x80) : IsSeq [b] := ⟨0, seqLen_of_ascii h [], rfl⟩

theorem runes_of_ascii {s : List UInt8} (h : ∀ b ∈ s, b < 0x80) :
    runes s = s.map fun b => ⟨[b], true⟩ := by
  induction s with
  | nil => rfl
  | cons b bs ih =>
    have hbs : ∀ c ∈ bs, c < 0x80 := fun c hc => h c (List.mem_cons_of_mem _ hc)
    have hb : IsSeq [b] := isSeq_of_ascii (h b List.mem_cons_self)
    rw [← List.singleton_append, runes_append hb, ih hbs]
    rfl

theorem valid_of_ascii {s : List UInt8} (h : ∀ b ∈ s, b < 0x80) : Valid s := by
  intro r hr
  rw [runes_of_ascii h] at hr
  obtain ⟨b, -, rfl⟩ := List.mem_map.mp hr
  rfl

/-! ### Sanitizing -/

theorem sanitize_eq (s : List UInt8) : sanitize s = ((runes s).map Rune.clean).flatten :=
  List.flatMap_def

theorem isSeq_clean {s : List UInt8} {r : Rune} (h : r ∈ runes s) : IsSeq r.clean := by
  unfold Rune.clean
  rcases runes_spec h with ⟨hvalid, hseq⟩ | ⟨hvalid, -⟩
  · rwa [if_pos hvalid]
  · rw [if_neg (by simp [hvalid])]
    exact ⟨2, by decide, rfl⟩

theorem runes_sanitize (s : List UInt8) :
    runes (sanitize s) = ((runes s).map Rune.clean).map fun q => ⟨q, true⟩ := by
  have hseq : ∀ q ∈ (runes s).map Rune.clean, IsSeq q := by
    intro q hq
    obtain ⟨r, hr, rfl⟩ := List.mem_map.mp hq
    exact isSeq_clean hr
  rw [sanitize_eq, runes_flatten hseq]

/-- Sanitized text is valid. -/
theorem valid_sanitize (s : List UInt8) : Valid (sanitize s) := by
  intro r hr
  rw [runes_sanitize] at hr
  obtain ⟨q, -, rfl⟩ := List.mem_map.mp hr
  rfl

/-- Valid text is left alone. -/
theorem sanitize_of_valid {s : List UInt8} (h : Valid s) : sanitize s = s := by
  have hclean : (runes s).map Rune.clean = (runes s).map Rune.bytes := by
    apply List.map_congr_left
    intro r hr
    rw [Rune.clean, if_pos (h r hr)]
  rw [sanitize_eq, hclean, ← List.flatMap_def, flatMap_runes]

theorem sanitize_of_ascii {s : List UInt8} (h : ∀ b ∈ s, b < 0x80) : sanitize s = s :=
  sanitize_of_valid (valid_of_ascii h)

/-- The ASCII bytes of a piece are those of what it becomes. -/
theorem mem_clean_of_ascii {s : List UInt8} {r : Rune} (hr : r ∈ runes s) {b : UInt8}
    (h : b < 0x80) : b ∈ r.clean ↔ b ∈ r.bytes := by
  unfold Rune.clean
  rcases runes_spec hr with ⟨hvalid, -⟩ | ⟨hvalid, c, hc, hge⟩
  · rw [if_pos hvalid]
  · rw [if_neg (by simp [hvalid]), hc, List.mem_singleton]
    have hstray : b ≠ c := by
      rintro rfl
      exact absurd h (by simpa using hge)
    have hrep : b ∉ replacement := by
      intro hb
      simp only [replacement, List.mem_cons, List.not_mem_nil, or_false] at hb
      rcases hb with rfl | rfl | rfl <;> exact absurd h (by decide)
    exact iff_of_false hrep hstray

/-- Sanitizing neither adds nor removes an ASCII byte. -/
theorem mem_sanitize_of_ascii {b : UInt8} (h : b < 0x80) (s : List UInt8) :
    b ∈ sanitize s ↔ b ∈ s := by
  have hs : b ∈ s ↔ ∃ r ∈ runes s, b ∈ r.bytes := by
    conv_lhs => rw [← flatMap_runes s]
    exact List.mem_flatMap
  rw [hs, sanitize_eq, ← List.flatMap_def, List.mem_flatMap]
  constructor
  · rintro ⟨r, hr, hb⟩
    exact ⟨r, hr, (mem_clean_of_ascii hr h).mp hb⟩
  · rintro ⟨r, hr, hb⟩
    exact ⟨r, hr, (mem_clean_of_ascii hr h).mpr hb⟩

theorem sanitize_eq_nil_iff {s : List UInt8} : sanitize s = [] ↔ s = [] := by
  constructor
  · intro h
    rw [← runes_eq_nil_iff, List.eq_nil_iff_forall_not_mem]
    intro r hr
    obtain ⟨n, -, hlen⟩ := isSeq_clean hr
    have hnil : r.clean = [] := by
      rw [sanitize_eq, List.flatten_eq_nil_iff] at h
      exact h _ (List.mem_map_of_mem hr)
    rw [hnil] at hlen
    cases hlen
  · rintro rfl
    rfl

/-! ### What sanitizing loses -/

/-- No piece reads as U+FFFD. -/
def Legible (s : List UInt8) : Prop := ∀ r ∈ runes s, r.clean ≠ replacement

instance (s : List UInt8) : Decidable (Legible s) :=
  inferInstanceAs (Decidable (∀ r ∈ runes s, _))

/-- The two strings differ in pieces that read as U+FFFD only. -/
def SameText (s t : List UInt8) : Prop :=
  List.Forall₂ (fun r r' => r = r' ∨ (r.clean = replacement ∧ r'.clean = replacement))
    (runes s) (runes t)

theorem clean_eq_clean_iff {r r' : Rune} :
    r.clean = r'.clean ↔ r = r' ∨ (r.clean = replacement ∧ r'.clean = replacement) := by
  constructor
  · intro h
    by_cases hrep : r.clean = replacement
    · exact Or.inr ⟨hrep, by rw [← h, hrep]⟩
    · have hvalid : r.valid = true := by
        by_contra hstray
        exact hrep (if_neg hstray)
      have hvalid' : r'.valid = true := by
        by_contra hstray
        exact hrep (h.trans (if_neg hstray))
      rw [Rune.clean, if_pos hvalid, Rune.clean, if_pos hvalid'] at h
      cases r
      cases r'
      simp_all
  · rintro (rfl | ⟨h, h'⟩)
    · rfl
    · rw [h, h']

/-- Sanitizing identifies exactly the strings that differ in pieces that read as U+FFFD. -/
theorem sanitize_eq_sanitize_iff {s t : List UInt8} : sanitize s = sanitize t ↔ SameText s t := by
  have hmap : sanitize s = sanitize t ↔ (runes s).map Rune.clean = (runes t).map Rune.clean := by
    constructor
    · intro h
      have hrunes := congrArg runes h
      rw [runes_sanitize, runes_sanitize] at hrunes
      exact List.map_injective_iff.mpr (fun _ _ hq => (Rune.mk.inj hq).1) hrunes
    · intro h
      rw [sanitize_eq, h, ← sanitize_eq]
  rw [hmap, SameText, ← List.forall₂_eq_eq_eq, List.forall₂_map_left_iff,
      List.forall₂_map_right_iff]
  simp only [clean_eq_clean_iff]

/-- A string none of whose pieces reads as U+FFFD is not mistaken for another. -/
theorem eq_of_sanitize_eq {s t : List UInt8} (hs : Legible s) (h : sanitize s = sanitize t) :
    s = t := by
  have hsame := sanitize_eq_sanitize_iff.mp h
  have hrunes : runes s = runes t := by
    obtain ⟨hlen, hzip⟩ := List.forall₂_iff_zip.mp hsame
    rw [← List.forall₂_eq_eq_eq, List.forall₂_iff_zip]
    refine ⟨hlen, ?_⟩
    intro r r' hrr
    exact (hzip hrr).resolve_right fun hrep => hs r (List.of_mem_zip hrr).1 hrep.1
  rw [← flatMap_runes s, hrunes, flatMap_runes]

/-- The piece, or the given stray byte for one that reads as U+FFFD. -/
def Rune.blur (x : UInt8) (r : Rune) : Rune := if r.clean = replacement then ⟨[x], false⟩ else r

/-- The string with the given byte for each piece that reads as U+FFFD. -/
def blur (x : UInt8) (s : List UInt8) : List UInt8 :=
  ((runes s).map (Rune.blur x)).flatMap Rune.bytes

/-- A byte that leads no sequence is stray wherever it stands. -/
theorem runes_blur {x : UInt8} (hx : lead x = none) (s : List UInt8) :
    runes (blur x s) = (runes s).map (Rune.blur x) := by
  have hgen : ∀ rs : List Rune, (∀ r ∈ rs, r ∈ runes s) →
      runes ((rs.map (Rune.blur x)).flatMap Rune.bytes) = rs.map (Rune.blur x) := by
    intro rs
    induction rs with
    | nil => intro _; rfl
    | cons r rs ih =>
      intro hmem
      have hrest := ih fun q hq => hmem q (List.mem_cons_of_mem _ hq)
      rw [List.map_cons, List.flatMap_cons]
      by_cases hrep : r.clean = replacement
      · rw [Rune.blur, if_pos hrep]
        have hstray : seqLen (x :: (rs.map (Rune.blur x)).flatMap Rune.bytes) = none := by
          simp [seqLen, hx]
        rw [List.singleton_append, runes_stray hstray, hrest]
      · rw [Rune.blur, if_neg hrep]
        rcases runes_spec (hmem r List.mem_cons_self) with ⟨hvalid, hseq⟩ | ⟨hvalid, -⟩
        · rw [runes_append hseq, hrest, ← hvalid]
        · exact absurd (if_neg (by simp [hvalid])) hrep
  exact hgen (runes s) fun _ hr => hr

theorem clean_blur (x : UInt8) (r : Rune) : (r.blur x).clean = r.clean := by
  unfold Rune.blur
  split
  · next hrep => rw [hrep]; rfl
  · rfl

theorem sanitize_blur {x : UInt8} (hx : lead x = none) (s : List UInt8) :
    sanitize (blur x s) = sanitize s := by
  rw [sanitize, runes_blur hx, List.flatMap_map]
  simp only [clean_blur]
  rfl

theorem blur_of_legible {x : UInt8} {s : List UInt8} (h : Legible s) : blur x s = s := by
  have hsame : (runes s).map (Rune.blur x) = runes s := by
    conv_rhs => rw [← List.map_id (runes s)]
    apply List.map_congr_left
    intro r hr
    exact if_neg (h r hr)
  rw [blur, hsame, flatMap_runes]

/-- Text of ASCII characters is legible. -/
theorem legible_of_ascii {s : List UInt8} (h : ∀ b ∈ s, b < 0x80) : Legible s := by
  intro r hr
  rw [runes_of_ascii h] at hr
  obtain ⟨b, -, rfl⟩ := List.mem_map.mp hr
  intro hrep
  have hlen : 1 = 3 := congrArg List.length hrep
  omega

theorem length_blur_le (x : UInt8) (s : List UInt8) : (blur x s).length ≤ s.length := by
  have hgen : ∀ rs : List Rune, (∀ r ∈ rs, r ∈ runes s) →
      ((rs.map (Rune.blur x)).flatMap Rune.bytes).length ≤ (rs.flatMap Rune.bytes).length := by
    intro rs
    induction rs with
    | nil => simp
    | cons r rs ih =>
      intro hmem
      have hrest := ih fun q hq => hmem q (List.mem_cons_of_mem _ hq)
      have hpos := List.length_pos_iff.mpr (bytes_ne_nil (hmem r List.mem_cons_self))
      have hpiece : (r.blur x).bytes.length ≤ r.bytes.length := by
        unfold Rune.blur
        split
        · show 1 ≤ _
          omega
        · omega
      simp only [List.map_cons, List.flatMap_cons, List.length_append]
      omega
  have hs := hgen (runes s) fun _ hr => hr
  rwa [flatMap_runes] at hs

/-- Two bytes that differ make two strings of an illegible one. -/
theorem blur_ne_blur {x y : UInt8} (hx : lead x = none) (hy : lead y = none) (hne : x ≠ y)
    {s : List UInt8} (h : ¬Legible s) : blur x s ≠ blur y s := by
  intro heq
  have hrunes := congrArg runes heq
  rw [runes_blur hx, runes_blur hy] at hrunes
  apply h
  intro r hr hrep
  have hr' := List.map_inj_left.mp hrunes r hr
  rw [Rune.blur, Rune.blur, if_pos hrep, if_pos hrep] at hr'
  exact hne (List.cons.inj (Rune.mk.inj hr').1).1

end Utf8

import Mathlib.Data.List.Basic
import Mathlib.Tactic.Common

/-!
# Quoted segments

A text with quotation marks is read left to right, each mark opening or closing a quoted
segment.  A mark inside a quoted text is written twice, so that it closes the segment and
opens it again at once.

## Main definitions

* `inside` — whether a segment is open after a text.
* `outside` — what stands outside the segments.
* `escape`, `quoted` — a text with its marks doubled, and between marks.

## Main results

* `inside_append`, `outside_append` — reading on.
* `outside_escape`, `outside_quoted` — a quoted text holds nothing outside.
-/

namespace Quotes

variable {α : Type} [DecidableEq α] (q : α)

/-- Whether a segment is open after the text, given whether one was before. -/
def inside : Bool → List α → Bool
  | b, [] => b
  | b, c :: s => inside (if c = q then !b else b) s

/-- The characters outside the segments, the marks left out. -/
def outside : Bool → List α → List α
  | _, [] => []
  | b, c :: s =>
    if c = q then outside (!b) s else if b then outside b s else c :: outside b s

/-- The text with its marks doubled. -/
def escape : List α → List α
  | [] => []
  | c :: s => if c = q then q :: q :: escape s else c :: escape s

/-- The text as a quoted segment. -/
def quoted (s : List α) : List α := q :: (escape q s ++ [q])

variable {q}

theorem inside_append (b : Bool) (s t : List α) :
    inside q b (s ++ t) = inside q (inside q b s) t := by
  induction s generalizing b with
  | nil => rfl
  | cons c s ih =>
    rw [List.cons_append, inside, inside, ih]

theorem outside_append (b : Bool) (s t : List α) :
    outside q b (s ++ t) = outside q b s ++ outside q (inside q b s) t := by
  induction s generalizing b with
  | nil => rfl
  | cons c s ih =>
    simp only [List.cons_append, outside, inside]
    split
    · exact ih _
    · split
      · exact ih _
      · rw [ih, List.cons_append]

/-- Text without marks opens and closes nothing. -/
theorem inside_of_notMem {b : Bool} {s : List α} (h : q ∉ s) : inside q b s = b := by
  induction s generalizing b with
  | nil => rfl
  | cons c s ih =>
    have hne : c ≠ q := fun heq => h (heq ▸ List.mem_cons_self)
    rw [inside, if_neg hne, ih fun hmem => h (List.mem_cons_of_mem _ hmem)]

theorem outside_of_notMem {s : List α} (h : q ∉ s) (b : Bool) :
    outside q b s = if b then [] else s := by
  induction s with
  | nil => cases b <;> rfl
  | cons c s ih =>
    have hne : c ≠ q := fun heq => h (heq ▸ List.mem_cons_self)
    rw [outside, if_neg hne, ih fun hmem => h (List.mem_cons_of_mem _ hmem)]
    cases b <;> rfl

/-- What stands outside the segments stands in the text. -/
theorem outside_sublist (b : Bool) (s : List α) : (outside q b s).Sublist s := by
  induction s generalizing b with
  | nil => exact List.Sublist.slnil
  | cons c s ih =>
    rw [outside]
    split
    · exact (ih _).cons c
    · split
      · exact (ih _).cons c
      · exact (ih _).cons_cons c

/-! ### Quoted texts -/

theorem escape_append (s t : List α) : escape q (s ++ t) = escape q s ++ escape q t := by
  induction s with
  | nil => rfl
  | cons c s ih =>
    rw [List.cons_append, escape, escape, ih]
    split <;> rfl

theorem mem_escape_iff {s : List α} {c : α} : c ∈ escape q s ↔ c ∈ s := by
  induction s with
  | nil => rfl
  | cons d s ih =>
    rw [escape]
    split
    · next heq => simp [ih, heq]
    · simp [ih]

/-- Doubled marks leave the segment open. -/
theorem inside_escape (s : List α) : inside q true (escape q s) = true := by
  induction s with
  | nil => rfl
  | cons c s ih =>
    rw [escape]
    split
    · simpa [inside] using ih
    · next hne => simpa [inside, hne] using ih

theorem outside_escape (s : List α) : outside q true (escape q s) = [] := by
  induction s with
  | nil => rfl
  | cons c s ih =>
    rw [escape]
    split
    · simpa [outside] using ih
    · next hne => simpa [outside, hne] using ih

theorem inside_quoted (s : List α) : inside q false (quoted q s) = false := by
  simp [quoted, inside, inside_append, inside_escape]

theorem outside_quoted (s : List α) : outside q false (quoted q s) = [] := by
  simp [quoted, outside, outside_append, outside_escape]

end Quotes

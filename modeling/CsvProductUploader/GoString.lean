import Mathlib.Data.Int.Notation
import Mathlib.Data.List.Basic
import Mathlib.Data.Nat.Notation

/-!
# Go strings

A Go string is a sequence of bytes, with no promise that they are UTF-8: file
names, CSV cells and form fields reach the program as they were sent.

## Main definitions

* `GoString`, `lit` — byte strings and the bytes of a literal.
* `isDigit`, `isHexDigit`, `isUUID` — the byte classes and the UUID pattern that
  the importer, the worker and the job store each compile for themselves.
-/

namespace CsvProductUploader

/-- A Go string: its bytes. -/
abbrev GoString := List UInt8

instance : LawfulBEq GoString := inferInstanceAs (LawfulBEq (List UInt8))

instance : LawfulBEq (GoString × ℕ) := inferInstance

/-- The bytes of a string literal of the source, which is UTF-8. -/
def lit (s : String) : GoString := s.toList.flatMap String.utf8EncodeChar

/-- `'0' ≤ b ≤ '9'`. -/
def isDigit (b : UInt8) : Bool := 0x30 ≤ b && b ≤ 0x39

/-- The class `[0-9a-fA-F]`. -/
def isHexDigit (b : UInt8) : Bool :=
  isDigit b || (0x61 ≤ b && b ≤ 0x66) || (0x41 ≤ b && b ≤ 0x46)

/-- The shape of `uuidPattern`: `true` for a `[0-9a-fA-F]`, `false` for a dash. -/
def uuidShape : List Bool :=
  List.replicate 8 true ++ [false] ++ List.replicate 4 true ++ [false] ++
    List.replicate 4 true ++ [false] ++ List.replicate 4 true ++ [false] ++
      List.replicate 12 true

/-- Whether the whole string has the given shape, byte by byte. -/
def matchShape : List Bool → GoString → Bool
  | [], [] => true
  | true :: shape, b :: s => isHexDigit b && matchShape shape s
  | false :: shape, b :: s => b == 0x2D && matchShape shape s
  | _, _ => false

/-- `uuidPattern.MatchString(s)`: the canonical textual UUID form. -/
def isUUID (s : GoString) : Bool := matchShape uuidShape s

/-- Every byte of a matched string is an ASCII byte other than NUL. -/
theorem ascii_of_matchShape : ∀ {shape : List Bool} {s : GoString}, matchShape shape s = true →
    ∀ b ∈ s, 0 < b ∧ b < 0x80
  | [], [], _, b, hb => by simp at hb
  | [], _ :: _, h, _, _ => by simp [matchShape] at h
  | _ :: _, [], h, _, _ => by simp [matchShape] at h
  | true :: shape, c :: s, h, b, hb => by
    simp only [matchShape, Bool.and_eq_true] at h
    rcases List.mem_cons.mp hb with rfl | hb
    · simp only [isHexDigit, isDigit, Bool.or_eq_true, Bool.and_eq_true, decide_eq_true_eq] at h
      have hc := h.1
      rw [UInt8.lt_iff_toNat_lt, UInt8.lt_iff_toNat_lt]
      simp only [UInt8.le_iff_toNat_le] at hc
      change 0 < _ ∧ _ < 128
      simp only [UInt8.toNat_ofNat] at hc
      omega
    · exact ascii_of_matchShape h.2 b hb
  | false :: shape, c :: s, h, b, hb => by
    simp only [matchShape, Bool.and_eq_true, beq_iff_eq] at h
    rcases List.mem_cons.mp hb with rfl | hb
    · rw [h.1]; decide
    · exact ascii_of_matchShape h.2 b hb

end CsvProductUploader

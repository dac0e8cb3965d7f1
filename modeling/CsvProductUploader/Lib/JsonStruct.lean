import CsvProductUploader.Lib.Json

/-!
# JSON objects and structs

How an object is stored in a struct, in the manner of Go's `encoding/json`: a key is matched
with a field by its exact name or else without regard to case, keys without a field are
passed over, a later member overwrites an earlier one, and `null` changes nothing.

## Main definitions

* `foldName` — a name without regard to case.
* `StructField`, `StructField.find` — the fields of a struct.
* `storeString`, `storeStruct` — what a value stores.
* `known` — the members that have a field.

## Main results

* `storeMembers_field` — the member of a field.
* `storeMembers_known` — the other members change nothing.
-/

namespace Json

open Utf8 (Rune runes)

/-! ### Names -/

/-- The folding of a character.  Outside ASCII it matters only where it leads into ASCII: from
U+017F to `S` and from U+212A to `K`. -/
def foldRune (r : Rune) : List UInt8 :=
  if r.bytes = [0xC5, 0xBF] then [0x53]
  else if r.bytes = [0xE2, 0x84, 0xAA] then [0x4B]
  else r.bytes.map fun b => if 0x61 ≤ b ∧ b ≤ 0x7A then b - 0x20 else b

/-- A name without regard to case. -/
def foldName (s : List UInt8) : List UInt8 := (runes s).flatMap foldRune

/-- A field of a struct: its name, and what a value stores in it, unless that is an error. -/
structure StructField (α : Type*) where
  name : List UInt8
  store : Value → α → Option α

/-- The field of a key: the one of that name, or else the first of that name but for case. -/
def StructField.find {α : Type*} (fields : List (StructField α)) (key : List UInt8) :
    Option (StructField α) :=
  match fields.find? (·.name = key) with
  | some field => some field
  | none => fields.find? fun field => foldName field.name = foldName key

/-! ### Storing -/

/-- A value in a field that is a string. -/
def storeString : Value → List UInt8 → Option (List UInt8)
  | .null, s => some s
  | .string text, _ => some (unquote text)
  | _, _ => none

section
variable {α : Type*} (fields : List (StructField α))

/-- A member in a struct. -/
def storeMember (m : List UInt8 × Value) (a : α) : Option α :=
  match StructField.find fields (unquote m.1) with
  | some field => field.store m.2 a
  | none => some a

/-- The members of an object in a struct. -/
def storeMembers (members : List (List UInt8 × Value)) (a : α) : Option α :=
  members.foldlM (fun a m => storeMember fields m a) a

/-- A value in a struct. -/
def storeStruct : Value → α → Option α
  | .null, a => some a
  | .object members, a => storeMembers fields members a
  | _, _ => none

/-- A member whose key has a field. -/
def known (m : List UInt8 × Value) : Bool := (StructField.find fields (unquote m.1)).isSome

variable {fields}

/-- The member of a key that names a field. -/
theorem storeMembers_field (name : List UInt8) {field : StructField α}
    (hfind : StructField.find fields (Utf8.sanitize name) = some field) (v : Value)
    (members : List (List UInt8 × Value)) (a : α) :
    storeMembers fields ((quote name, v) :: members) a =
      (field.store v a).bind (storeMembers fields members) := by
  have hmember : storeMember fields (quote name, v) a = field.store v a := by
    simp only [storeMember, unquote_quote, hfind]
  rw [storeMembers, List.foldlM_cons, hmember]
  rfl

/-- A key without a field is passed over. -/
theorem storeMembers_known (members : List (List UInt8 × Value)) (a : α) :
    storeMembers fields (members.filter (known fields)) a = storeMembers fields members a := by
  induction members generalizing a with
  | nil => rfl
  | cons m members ih =>
    cases hfind : StructField.find fields (unquote m.1) with
    | none =>
      have hmember : storeMember fields m a = some a := by simp only [storeMember, hfind]
      rw [List.filter_cons_of_neg (by simp [known, hfind]), ih, storeMembers, storeMembers,
        List.foldlM_cons, hmember]
      rfl
    | some field =>
      rw [List.filter_cons_of_pos (by simp [known, hfind]), storeMembers, storeMembers,
        List.foldlM_cons, List.foldlM_cons]
      congr 1
      exact funext ih

end

theorem storeString_quote (s t : List UInt8) :
    storeString (.string (quote s)) t = some (Utf8.sanitize s) := by
  rw [storeString, unquote_quote]

end Json

import CsvProductUploader.Lib.JsonText

/-!
# JSON values

A value keeps its numbers and strings as they are written.  The reader goes over the bytes
once, with a stack of the arrays and objects that are open, in the manner of the scanner of
Go's `encoding/json`.

## Main definitions

* `Value` — a JSON value.
* `Part`, `IsNumber` — the texts of numbers.
* `Frame`, `Mode`, `State`, `step`, `parse` — the reader.
* `encode` — a value as it is written, without spaces.
* `Fits` — the values that can be written: their texts are in order, and they are not too deep.

## Main results

* `parse_encode` — what is written is read back.
* `parse_take` — an object that is cut off is not read.
* `le_of_mem_encode` — it holds no control character.
-/

namespace Json

/-- A JSON value: the text of a number, and that of a string between its quotes. -/
inductive Value
  | null
  | bool (b : Bool)
  | number (text : List UInt8)
  | string (text : List UInt8)
  | array (items : List Value)
  | object (members : List (List UInt8 × Value))
  deriving Repr, Inhabited

/-! ### Numbers -/

/-- Where in a number the scanner stands. -/
inductive Part
  /-- Behind the minus sign. -/
  | neg
  /-- Behind a leading zero. -/
  | zero
  | int
  /-- Behind the point. -/
  | dot
  | frac
  /-- Behind `e` or `E`. -/
  | mark
  /-- Behind the sign of the exponent. -/
  | sign
  | exp
  deriving DecidableEq, Repr

namespace Part

def isDigit (b : UInt8) : Bool := 0x30 ≤ b && b ≤ 0x39

/-- The first byte of a number. -/
def first (b : UInt8) : Option Part :=
  if b = 0x2D then some neg
  else if b = 0x30 then some zero
  else if isDigit b then some int
  else none

/-- The next byte of a number. -/
def next : Part → UInt8 → Option Part
  | neg, b => if b = 0x30 then some zero else if isDigit b then some int else none
  | zero, b => if b = 0x2E then some dot else if b = 0x65 ∨ b = 0x45 then some mark else none
  | int, b =>
    if isDigit b then some int
    else if b = 0x2E then some dot else if b = 0x65 ∨ b = 0x45 then some mark else none
  | dot, b => if isDigit b then some frac else none
  | frac, b => if isDigit b then some frac else if b = 0x65 ∨ b = 0x45 then some mark else none
  | mark, b =>
    if b = 0x2B ∨ b = 0x2D then some sign else if isDigit b then some exp else none
  | sign, b | exp, b => if isDigit b then some exp else none

/-- A number may end here. -/
def final : Part → Bool
  | zero | int | frac | exp => true
  | _ => false

end Part

/-- Where a number ends. -/
def lastPart : List UInt8 → Option Part
  | [] => none
  | b :: s => (Part.first b).bind fun p => s.foldlM Part.next p

/-- The text of a number. -/
def IsNumber (s : List UInt8) : Prop := (lastPart s).any Part.final = true

instance (s : List UInt8) : Decidable (IsNumber s) :=
  inferInstanceAs (Decidable ((lastPart s).any Part.final = true))

theorem IsNumber.exists {s : List UInt8} (h : IsNumber s) :
    ∃ b t p p', s = b :: t ∧ Part.first b = some p ∧ t.foldlM Part.next p = some p' ∧
      p'.final = true := by
  cases s with
  | nil => cases h
  | cons b t =>
    obtain ⟨p', hp', hfinal⟩ := Option.any_eq_true _ _ |>.mp h
    obtain ⟨p, hfirst, hp'⟩ := Option.bind_eq_some_iff.mp hp'
    exact ⟨b, t, p, p', rfl, hfirst, hp', hfinal⟩

/-! ### Reading -/

/-- An array or object that is open. -/
inductive Frame
  | items (done : List Value)
  /-- An object at a key. -/
  | members (done : List (List UInt8 × Value))
  /-- An object at the value of a key. -/
  | member (done : List (List UInt8 × Value)) (key : List UInt8)

/-- What the reader expects. -/
inductive Mode
  | value
  /-- The first item of an array, or its end. -/
  | valueOrEnd
  | key
  /-- The first key of an object, or its end. -/
  | keyOrEnd
  | colon (key : List UInt8)
  | string (text : List UInt8) (scan : Scan) (isKey : Bool)
  | number (text : List UInt8) (part : Part)
  /-- The rest of `null`, `true` or `false`. -/
  | word (left : List UInt8) (v : Value)
  /-- What comes after a value. -/
  | after (v : Value)

structure State where
  mode : Mode
  stack : List Frame

def isSpace (b : UInt8) : Bool := b = 0x20 ∨ b = 0x09 ∨ b = 0x0D ∨ b = 0x0A

/-- The greatest depth of a value. -/
def maxNestingDepth : ℕ := 10000

/-- The word that a letter begins: its other letters, and its value. -/
def word (b : UInt8) : Option (List UInt8 × Value) :=
  if b = 0x74 then some ([0x72, 0x75, 0x65], .bool true)
  else if b = 0x66 then some ([0x61, 0x6C, 0x73, 0x65], .bool false)
  else if b = 0x6E then some ([0x75, 0x6C, 0x6C], .null)
  else none

/-- An array or object is opened. -/
def push (stack : List Frame) (frame : Frame) (mode : Mode) : Option State :=
  if stack.length < maxNestingDepth then some ⟨mode, frame :: stack⟩ else none

/-- The first byte of a value. -/
def beginValue (stack : List Frame) (b : UInt8) : Option State :=
  if b = 0x7B then push stack (.members []) .keyOrEnd
  else if b = 0x5B then push stack (.items []) .valueOrEnd
  else if b = 0x22 then some ⟨.string [] .text false, stack⟩
  else
    match Part.first b with
    | some part => some ⟨.number [b] part, stack⟩
    | none => (word b).map fun (left, v) => ⟨.word left v, stack⟩

/-- A byte after a value. -/
def afterValue (v : Value) (stack : List Frame) (b : UInt8) : Option State :=
  if isSpace b then some ⟨.after v, stack⟩
  else
    match stack with
    | .items done :: rest =>
      if b = 0x2C then some ⟨.value, .items (done ++ [v]) :: rest⟩
      else if b = 0x5D then some ⟨.after (.array (done ++ [v])), rest⟩
      else none
    | .member done key :: rest =>
      if b = 0x2C then some ⟨.key, .members (done ++ [(key, v)]) :: rest⟩
      else if b = 0x7D then some ⟨.after (.object (done ++ [(key, v)])), rest⟩
      else none
    | _ => none

/-- The reader at the next byte. -/
def step : State → UInt8 → Option State
  | ⟨.value, stack⟩, b => if isSpace b then some ⟨.value, stack⟩ else beginValue stack b
  | ⟨.valueOrEnd, stack⟩, b =>
    if isSpace b then some ⟨.valueOrEnd, stack⟩
    else if b = 0x5D then
      match stack with
      | .items done :: rest => some ⟨.after (.array done), rest⟩
      | _ => none
    else beginValue stack b
  | ⟨.key, stack⟩, b =>
    if isSpace b then some ⟨.key, stack⟩
    else if b = 0x22 then some ⟨.string [] .text true, stack⟩
    else none
  | ⟨.keyOrEnd, stack⟩, b =>
    if isSpace b then some ⟨.keyOrEnd, stack⟩
    else if b = 0x7D then
      match stack with
      | .members done :: rest => some ⟨.after (.object done), rest⟩
      | _ => none
    else if b = 0x22 then some ⟨.string [] .text true, stack⟩
    else none
  | ⟨.colon key, stack⟩, b =>
    if isSpace b then some ⟨.colon key, stack⟩
    else if b = 0x3A then
      match stack with
      | .members done :: rest => some ⟨.value, .member done key :: rest⟩
      | _ => none
    else none
  | ⟨.string text scan isKey, stack⟩, b =>
    if scan = .text ∧ b = 0x22 then
      if isKey then some ⟨.colon text, stack⟩ else some ⟨.after (.string text), stack⟩
    else (scan.next b).map fun scan => ⟨.string (text ++ [b]) scan isKey, stack⟩
  | ⟨.number text part, stack⟩, b =>
    match part.next b with
    | some part => some ⟨.number (text ++ [b]) part, stack⟩
    | none => if part.final then afterValue (.number text) stack b else none
  | ⟨.word left v, stack⟩, b =>
    match left with
    | [] => none
    | [c] => if b = c then some ⟨.after v, stack⟩ else none
    | c :: left => if b = c then some ⟨.word left v, stack⟩ else none
  | ⟨.after v, stack⟩, b => afterValue v stack b

/-- The value that a text holds and nothing else; a space is put behind it, so that a number
at its end is complete. -/
def parse (s : List UInt8) : Option Value :=
  match (s ++ [0x20]).foldlM step ⟨.value, []⟩ with
  | some ⟨.after v, []⟩ => some v
  | _ => none

/-! ### Writing -/

mutual

/-- A value as it is written. -/
def encode : Value → List UInt8
  | .null => [0x6E, 0x75, 0x6C, 0x6C]
  | .bool true => [0x74, 0x72, 0x75, 0x65]
  | .bool false => [0x66, 0x61, 0x6C, 0x73, 0x65]
  | .number text => text
  | .string text => 0x22 :: text ++ [0x22]
  | .array [] => [0x5B, 0x5D]
  | .array (v :: vs) => 0x5B :: encode v ++ encodeItems vs
  | .object [] => [0x7B, 0x7D]
  | .object ((key, v) :: ms) => 0x7B :: 0x22 :: key ++ 0x22 :: 0x3A :: encode v ++ encodeMembers ms

/-- The further items of an array, and its end. -/
def encodeItems : List Value → List UInt8
  | [] => [0x5D]
  | v :: vs => 0x2C :: encode v ++ encodeItems vs

/-- The further members of an object, and its end. -/
def encodeMembers : List (List UInt8 × Value) → List UInt8
  | [] => [0x7D]
  | (key, v) :: ms => 0x2C :: 0x22 :: key ++ 0x22 :: 0x3A :: encode v ++ encodeMembers ms

end

/-- The values that can be written, of a depth of at most `n`. -/
inductive Fits : ℕ → Value → Prop
  | null {n} : Fits n .null
  | bool {n} (b : Bool) : Fits n (.bool b)
  | number {n text} : IsNumber text → Fits n (.number text)
  | string {n text} : IsText text → Fits n (.string text)
  | array {n items} : (∀ v ∈ items, Fits n v) → Fits (n + 1) (.array items)
  | object {n members} : (∀ m ∈ members, IsText m.1) → (∀ m ∈ members, Fits n m.2) →
      Fits (n + 1) (.object members)

/-! ### What is written is read back -/

/-- The bytes that can follow a value: a comma, a closing bracket, and the space at the end. -/
def Ends (b : UInt8) : Prop := b ∈ [0x2C, 0x5D, 0x7D, 0x20]

instance (b : UInt8) : Decidable (Ends b) := inferInstanceAs (Decidable (b ∈ _))

theorem next_of_ends {b : UInt8} (h : Ends b) (p : Part) : p.next b = none := by
  simp only [Ends, List.mem_cons, List.not_mem_nil, or_false] at h
  rcases h with rfl | rfl | rfl | rfl <;> cases p <;> decide

/-- The reader over the rest of a number. -/
theorem foldlM_number {t : List UInt8} {p p' : Part} (h : t.foldlM Part.next p = some p')
    (text : List UInt8) (stack : List Frame) (s : List UInt8) :
    (t ++ s).foldlM step ⟨.number text p, stack⟩ =
      s.foldlM step ⟨.number (text ++ t) p', stack⟩ := by
  induction t generalizing p text with
  | nil =>
    obtain rfl := Option.some.inj h
    rw [List.nil_append, List.append_nil]
  | cons b t ih =>
    rw [List.foldlM_cons] at h
    obtain ⟨q, hq, h⟩ := Option.bind_eq_some_iff.mp h
    have hstep : step ⟨.number text p, stack⟩ b = some ⟨.number (text ++ [b]) q, stack⟩ := by
      simp only [step, hq]
    rw [List.cons_append, List.foldlM_cons, hstep]
    simp only [Option.bind_eq_bind, Option.bind_some]
    rw [ih h, List.append_assoc, List.singleton_append]

/-- The reader over the rest of a string and its closing quote. -/
theorem foldlM_string {t : List UInt8} {m : Scan} (h : t.foldlM Scan.next m = some .text)
    (text : List UInt8) (isKey : Bool) (stack : List Frame) (s : List UInt8) :
    (t ++ 0x22 :: s).foldlM step ⟨.string text m isKey, stack⟩ =
      s.foldlM step
        ⟨if isKey then .colon (text ++ t) else .after (.string (text ++ t)), stack⟩ := by
  induction t generalizing m text with
  | nil =>
    obtain rfl := Option.some.inj h
    cases isKey <;> simp [step]
  | cons b t ih =>
    rw [List.foldlM_cons] at h
    obtain ⟨n, hn, h⟩ := Option.bind_eq_some_iff.mp h
    have hopen : ¬(m = .text ∧ b = 0x22) := by
      rintro ⟨rfl, rfl⟩
      cases hn
    have hstep : step ⟨.string text m isKey, stack⟩ b =
        some ⟨.string (text ++ [b]) n isKey, stack⟩ := by
      simp only [step, if_neg hopen, hn, Option.map_some]
    rw [List.cons_append, List.foldlM_cons, hstep]
    simp only [Option.bind_eq_bind, Option.bind_some]
    rw [ih h, List.append_assoc, List.singleton_append]

/-- What the reader makes of a value at the beginning of a text, if something follows. -/
def ReadsBack (n : ℕ) (v : Value) : Prop :=
  ∀ stack b s, stack.length + n ≤ maxNestingDepth → Ends b →
    (encode v ++ b :: s).foldlM step ⟨.value, stack⟩ = (b :: s).foldlM step ⟨.after v, stack⟩

/-- The reader over a string as a value. -/
theorem foldlM_string_value {t : List UInt8} (h : IsText t) (stack : List Frame)
    (s : List UInt8) :
    (0x22 :: t ++ 0x22 :: s).foldlM step ⟨.value, stack⟩ =
      s.foldlM step ⟨.after (.string t), stack⟩ := by
  have hstep : step ⟨.value, stack⟩ 0x22 = some ⟨.string [] .text false, stack⟩ := rfl
  rw [List.cons_append, List.foldlM_cons, hstep]
  exact foldlM_string h [] false stack s

theorem readsBack_number {n : ℕ} {t : List UInt8} (h : IsNumber t) : ReadsBack n (.number t) := by
  intro stack c s _ hc
  obtain ⟨b, t, p, p', rfl, hfirst, hp', hfinal⟩ := h.exists
  have hbegin : step ⟨.value, stack⟩ b = some ⟨.number [b] p, stack⟩ := by
    have hb : b ∉ [0x20, 0x09, 0x0D, 0x0A, 0x7B, 0x5B, 0x22] := by
      intro hmem
      simp only [List.mem_cons, List.not_mem_nil, or_false] at hmem
      rcases hmem with rfl | rfl | rfl | rfl | rfl | rfl | rfl <;> cases hfirst
    simp only [List.mem_cons, List.not_mem_nil, or_false, not_or] at hb
    simp [step, beginValue, isSpace, hb, hfirst]
  rw [encode, List.cons_append, List.foldlM_cons, hbegin]
  simp only [Option.bind_eq_bind, Option.bind_some]
  rw [foldlM_number hp', List.foldlM_cons, List.foldlM_cons]
  simp [step, next_of_ends hc, hfinal]

theorem ends_encodeItems (vs : List Value) (s : List UInt8) :
    ∃ b t, encodeItems vs ++ s = b :: t ∧ Ends b := by
  cases vs with
  | nil => exact ⟨0x5D, s, rfl, by decide⟩
  | cons v vs => exact ⟨0x2C, _, rfl, by decide⟩

theorem ends_encodeMembers (ms : List (List UInt8 × Value)) (s : List UInt8) :
    ∃ b t, encodeMembers ms ++ s = b :: t ∧ Ends b := by
  cases ms with
  | nil => exact ⟨0x7D, s, rfl, by decide⟩
  | cons m ms => exact ⟨0x2C, _, rfl, by decide⟩

/-- The reader over the further items of an array. -/
theorem foldlM_items {n : ℕ} {vs : List Value} (h : ∀ v ∈ vs, ReadsBack n v) (v : Value)
    (done : List Value) {stack : List Frame} (hdepth : stack.length + 1 + n ≤ maxNestingDepth)
    (s : List UInt8) :
    (encodeItems vs ++ s).foldlM step ⟨.after v, .items done :: stack⟩ =
      s.foldlM step ⟨.after (.array (done ++ v :: vs)), stack⟩ := by
  induction vs generalizing v done with
  | nil => rfl
  | cons w vs ih =>
    obtain ⟨b, t, hbt, hb⟩ := ends_encodeItems vs s
    have hcomma : step ⟨.after v, .items done :: stack⟩ 0x2C =
        some ⟨.value, .items (done ++ [v]) :: stack⟩ := rfl
    have hread := h w List.mem_cons_self (.items (done ++ [v]) :: stack) b t hdepth hb
    have hrest := ih (fun x hx => h x (List.mem_cons_of_mem w hx)) w (done ++ [v])
    rw [encodeItems, List.cons_append, List.cons_append, List.append_assoc, List.foldlM_cons,
      hcomma]
    simp only [Option.bind_eq_bind, Option.bind_some]
    rw [hbt, hread, ← hbt, hrest, List.append_assoc, List.singleton_append]

/-- The reader over a key, the colon and the value behind it. -/
theorem foldlM_member {n : ℕ} {key : List UInt8} {v : Value} (hkey : IsText key)
    (hv : ReadsBack n v) (done : List (List UInt8 × Value)) {stack : List Frame}
    (hdepth : stack.length + 1 + n ≤ maxNestingDepth) {b : UInt8} (hb : Ends b)
    (t : List UInt8) :
    (key ++ 0x22 :: 0x3A :: (encode v ++ b :: t)).foldlM step
        ⟨.string [] .text true, .members done :: stack⟩ =
      (b :: t).foldlM step ⟨.after v, .member done key :: stack⟩ := by
  have hcolon : step ⟨.colon key, .members done :: stack⟩ 0x3A =
      some ⟨.value, .member done key :: stack⟩ := rfl
  rw [foldlM_string hkey, if_pos rfl, List.nil_append, List.foldlM_cons, hcolon]
  exact hv (.member done key :: stack) b t hdepth hb

/-- The reader over the further members of an object. -/
theorem foldlM_members {n : ℕ} {ms : List (List UInt8 × Value)} (hkeys : ∀ m ∈ ms, IsText m.1)
    (h : ∀ m ∈ ms, ReadsBack n m.2) (key : List UInt8) (v : Value)
    (done : List (List UInt8 × Value)) {stack : List Frame}
    (hdepth : stack.length + 1 + n ≤ maxNestingDepth) (s : List UInt8) :
    (encodeMembers ms ++ s).foldlM step ⟨.after v, .member done key :: stack⟩ =
      s.foldlM step ⟨.after (.object (done ++ (key, v) :: ms)), stack⟩ := by
  induction ms generalizing key v done with
  | nil => rfl
  | cons m ms ih =>
    obtain ⟨key', w⟩ := m
    obtain ⟨b, t, hbt, hb⟩ := ends_encodeMembers ms s
    -- One round: the comma and the quote are read, then the member that follows.
    have hcomma : step ⟨.after v, .member done key :: stack⟩ 0x2C =
        some ⟨.key, .members (done ++ [(key, v)]) :: stack⟩ := rfl
    have hquote : step ⟨.key, .members (done ++ [(key, v)]) :: stack⟩ 0x22 =
        some ⟨.string [] .text true, .members (done ++ [(key, v)]) :: stack⟩ := rfl
    have hread := foldlM_member (hkeys _ List.mem_cons_self) (h _ List.mem_cons_self)
      (done ++ [(key, v)]) hdepth hb t
    have hrest := ih (fun x hx => hkeys x (List.mem_cons_of_mem _ hx))
      (fun x hx => h x (List.mem_cons_of_mem _ hx)) key' w (done ++ [(key, v)])
    have hassoc : encodeMembers ((key', w) :: ms) ++ s =
        0x2C :: 0x22 :: (key' ++ 0x22 :: 0x3A :: (encode w ++ b :: t)) := by
      rw [← hbt]
      simp [encodeMembers]
    rw [hassoc, List.foldlM_cons, hcomma]
    simp only [Option.bind_eq_bind, Option.bind_some]
    rw [List.foldlM_cons, hquote]
    simp only [Option.bind_eq_bind, Option.bind_some]
    rw [hread, ← hbt, hrest, List.append_assoc, List.singleton_append]

theorem push_eq {stack : List Frame} (h : stack.length < maxNestingDepth) (frame : Frame)
    (mode : Mode) : push stack frame mode = some ⟨mode, frame :: stack⟩ := if_pos h

/-- The first byte of a value, which cannot be mistaken for the end of an array. -/
theorem head_encode {n : ℕ} {v : Value} (h : Fits n v) :
    ∃ b t, encode v = b :: t ∧ b ≠ 0x5D ∧ isSpace b = false := by
  cases h with
  | null => exact ⟨_, _, rfl, by decide, by decide⟩
  | bool b => cases b <;> exact ⟨_, _, rfl, by decide, by decide⟩
  | number ht =>
    obtain ⟨b, t, p, p', rfl, hfirst, -⟩ := ht.exists
    have hb : b ∉ [0x20, 0x09, 0x0D, 0x0A, 0x5D] := by
      intro hmem
      simp only [List.mem_cons, List.not_mem_nil, or_false] at hmem
      rcases hmem with rfl | rfl | rfl | rfl | rfl <;> cases hfirst
    simp only [List.mem_cons, List.not_mem_nil, or_false, not_or] at hb
    exact ⟨b, t, rfl, hb.2.2.2.2, by simp [isSpace, hb]⟩
  | string ht => exact ⟨_, _, rfl, by decide, by decide⟩
  | @array _ items _ => cases items <;> exact ⟨_, _, rfl, by decide, by decide⟩
  | @object _ members _ _ => cases members <;> exact ⟨_, _, rfl, by decide, by decide⟩

theorem step_valueOrEnd {b : UInt8} (hend : b ≠ 0x5D) (hspace : isSpace b = false)
    (stack : List Frame) : step ⟨.valueOrEnd, stack⟩ b = step ⟨.value, stack⟩ b := by
  simp [step, hend, hspace]

/-- A value that can be written is read back, whatever the reader has open. -/
theorem readsBack {n : ℕ} {v : Value} (h : Fits n v) : ReadsBack n v := by
  induction h with
  | null => exact fun _ _ _ _ _ => rfl
  | bool b => cases b <;> exact fun _ _ _ _ _ => rfl
  | number ht => exact readsBack_number ht
  | string ht =>
    intro stack b s _ _
    rw [encode, List.append_assoc]
    exact foldlM_string_value ht stack (b :: s)
  -- The bracket pushes a frame, so one level less is left for the items.
  | @array n items hfits ih =>
    intro stack b s hdepth hb
    have hlt : stack.length < maxNestingDepth := by omega
    have hopen : step ⟨.value, stack⟩ 0x5B = some ⟨.valueOrEnd, .items [] :: stack⟩ :=
      push_eq hlt _ _
    cases items with
    | nil =>
      rw [encode, List.cons_append, List.foldlM_cons, hopen]
      rfl
    | cons v vs =>
      obtain ⟨c, t, hct, hc⟩ := ends_encodeItems vs (b :: s)
      have hfirst : (encode v ++ c :: t).foldlM step ⟨.valueOrEnd, .items [] :: stack⟩ =
          (c :: t).foldlM step ⟨.after v, .items [] :: stack⟩ := by
        obtain ⟨a, r, har, hend, hspace⟩ := head_encode (hfits v List.mem_cons_self)
        have hread := ih v List.mem_cons_self (.items [] :: stack) c t
          (by rw [List.length_cons]; omega) hc
        rw [← hread, har, List.cons_append, List.foldlM_cons, List.foldlM_cons,
          step_valueOrEnd hend hspace]
      rw [encode, List.cons_append, List.cons_append, List.append_assoc, List.foldlM_cons, hopen]
      simp only [Option.bind_eq_bind, Option.bind_some]
      rw [hct, hfirst, ← hct]
      exact foldlM_items (fun w hw => ih w (List.mem_cons_of_mem v hw)) v [] (by omega) (b :: s)
  | @object n members hkeys _ ih =>
    intro stack b s hdepth hb
    have hlt : stack.length < maxNestingDepth := by omega
    have hopen : step ⟨.value, stack⟩ 0x7B = some ⟨.keyOrEnd, .members [] :: stack⟩ :=
      push_eq hlt _ _
    cases members with
    | nil =>
      rw [encode, List.cons_append, List.foldlM_cons, hopen]
      rfl
    | cons m ms =>
      obtain ⟨key, v⟩ := m
      obtain ⟨c, t, hct, hc⟩ := ends_encodeMembers ms (b :: s)
      have hquote : step ⟨.keyOrEnd, .members [] :: stack⟩ 0x22 =
          some ⟨.string [] .text true, .members [] :: stack⟩ := rfl
      have hassoc : encode (.object ((key, v) :: ms)) ++ b :: s =
          0x7B :: 0x22 :: (key ++ 0x22 :: 0x3A :: (encode v ++ c :: t)) := by
        rw [← hct]
        simp [encode]
      rw [hassoc, List.foldlM_cons, hopen]
      simp only [Option.bind_eq_bind, Option.bind_some]
      rw [List.foldlM_cons, hquote]
      simp only [Option.bind_eq_bind, Option.bind_some]
      rw [foldlM_member (hkeys _ List.mem_cons_self) (ih _ List.mem_cons_self) [] (by omega) hc,
        ← hct]
      exact foldlM_members (fun m hm => hkeys m (List.mem_cons_of_mem _ hm))
        (fun m hm => ih m (List.mem_cons_of_mem _ hm)) key v [] (by omega) (b :: s)

/-- **What is written is read back.** -/
theorem parse_encode {v : Value} (h : Fits maxNestingDepth v) : parse (encode v) = some v := by
  have hread := readsBack h [] 0x20 [] (by simp) (by decide)
  rw [parse, hread]
  rfl

/-! ### What is cut off is not read -/

/-- Within an array or object, or behind the outermost of them. -/
def State.Nested (s : State) : Prop := s.stack ≠ [] ∨ ∃ v, s.mode = .after v

theorem nested_beginValue {stack : List Frame} {b : UInt8} {s : State} (hstack : stack ≠ [])
    (h : beginValue stack b = some s) : s.Nested := by
  have hpush : ∀ {frame mode}, push stack frame mode = some s → s.Nested := by
    intro frame mode hpush
    unfold push at hpush
    split at hpush
    · obtain rfl := Option.some.inj hpush
      exact Or.inl (List.cons_ne_nil _ _)
    · cases hpush
  unfold beginValue at h
  split_ifs at h
  · exact hpush h
  · exact hpush h
  · obtain rfl := Option.some.inj h
    exact Or.inl hstack
  · split at h
    · obtain rfl := Option.some.inj h
      exact Or.inl hstack
    · obtain ⟨⟨left, v⟩, -, rfl⟩ := Option.map_eq_some_iff.mp h
      exact Or.inl hstack

theorem nested_afterValue {v : Value} {stack : List Frame} {b : UInt8} {s : State}
    (h : afterValue v stack b = some s) : s.Nested := by
  have hopen : ∀ {mode frame rest}, some (State.mk mode (frame :: rest)) = some s → s.Nested := by
    intro mode frame rest hs
    obtain rfl := Option.some.inj hs
    exact Or.inl (List.cons_ne_nil _ _)
  have hclosed : ∀ {w rest}, some (State.mk (.after w) rest) = some s → s.Nested := by
    intro w rest hs
    obtain rfl := Option.some.inj hs
    exact Or.inr ⟨w, rfl⟩
  unfold afterValue at h
  split at h
  · exact hclosed h
  · split at h
    · split at h
      · exact hopen h
      · split at h
        · exact hclosed h
        · cases h
    · split at h
      · exact hopen h
      · split at h
        · exact hclosed h
        · cases h
    · cases h

/-- A value that is an array or object stays one until it is complete. -/
theorem nested_step {s s' : State} {b : UInt8} (hs : s.Nested) (h : step s b = some s') :
    s'.Nested := by
  obtain ⟨mode, stack⟩ := s
  -- Only behind a complete value may the stack be empty.
  have hsame : ∀ {mode'}, stack ≠ [] → some (State.mk mode' stack) = some s' → s'.Nested := by
    intro mode' hstack hs
    obtain rfl := Option.some.inj hs
    exact Or.inl hstack
  cases mode with
  | after v => exact nested_afterValue h
  | value =>
    have hstack : stack ≠ [] := hs.resolve_right fun ⟨v, hv⟩ => by cases hv
    simp only [step] at h
    split at h
    · exact hsame hstack h
    · exact nested_beginValue hstack h
  | valueOrEnd =>
    have hstack : stack ≠ [] := hs.resolve_right fun ⟨v, hv⟩ => by cases hv
    simp only [step] at h
    split at h
    · exact hsame hstack h
    · split at h
      · split at h
        · obtain rfl := Option.some.inj h
          exact Or.inr ⟨_, rfl⟩
        · cases h
      · exact nested_beginValue hstack h
  | key =>
    have hstack : stack ≠ [] := hs.resolve_right fun ⟨v, hv⟩ => by cases hv
    simp only [step] at h
    split at h
    · exact hsame hstack h
    · split at h
      · exact hsame hstack h
      · cases h
  | keyOrEnd =>
    have hstack : stack ≠ [] := hs.resolve_right fun ⟨v, hv⟩ => by cases hv
    simp only [step] at h
    split at h
    · exact hsame hstack h
    · split at h
      · split at h
        · obtain rfl := Option.some.inj h
          exact Or.inr ⟨_, rfl⟩
        · cases h
      · split at h
        · exact hsame hstack h
        · cases h
  | colon key =>
    have hstack : stack ≠ [] := hs.resolve_right fun ⟨v, hv⟩ => by cases hv
    simp only [step] at h
    split at h
    · exact hsame hstack h
    · split at h
      · split at h
        · obtain rfl := Option.some.inj h
          exact Or.inl (List.cons_ne_nil _ _)
        · cases h
      · cases h
  | string text scan isKey =>
    have hstack : stack ≠ [] := hs.resolve_right fun ⟨v, hv⟩ => by cases hv
    simp only [step] at h
    split at h
    · split at h <;> exact hsame hstack h
    · obtain ⟨scan', -, rfl⟩ := Option.map_eq_some_iff.mp h
      exact Or.inl hstack
  | number text part =>
    have hstack : stack ≠ [] := hs.resolve_right fun ⟨v, hv⟩ => by cases hv
    simp only [step] at h
    split at h
    · exact hsame hstack h
    · split at h
      · exact nested_afterValue h
      · cases h
  | word left v =>
    have hstack : stack ≠ [] := hs.resolve_right fun ⟨v, hv⟩ => by cases hv
    simp only [step] at h
    split at h
    · cases h
    · split at h
      · exact hsame hstack h
      · cases h
    · split at h
      · exact hsame hstack h
      · cases h

/-- Behind the outermost value there are only spaces. -/
theorem spaces_of_foldlM {v : Value} {s : List UInt8} {st : State}
    (h : s.foldlM step ⟨.after v, []⟩ = some st) : ∀ b ∈ s, isSpace b = true := by
  induction s with
  | nil => exact fun b hb => absurd hb List.not_mem_nil
  | cons c s ih =>
    rw [List.foldlM_cons] at h
    obtain ⟨st', hst', h⟩ := Option.bind_eq_some_iff.mp h
    simp only [step, afterValue] at hst'
    split at hst'
    · next hc =>
      obtain rfl := Option.some.inj hst'
      intro b hb
      rcases List.mem_cons.mp hb with rfl | hb
      · exact hc
      · exact ih h b hb
    · cases hst'

theorem nested_foldlM {s : List UInt8} {st st' : State} (hst : st.Nested)
    (h : s.foldlM step st = some st') : st'.Nested := by
  induction s generalizing st with
  | nil =>
    obtain rfl := Option.some.inj h
    exact hst
  | cons b s ih =>
    rw [List.foldlM_cons] at h
    obtain ⟨st₁, hst₁, h⟩ := Option.bind_eq_some_iff.mp h
    exact ih (nested_step hst hst₁) h

/-- A space closes nothing. -/
theorem stack_of_space {s s' : State} (h : step s 0x20 = some s') : s'.stack = s.stack := by
  have hspace : isSpace 0x20 = true := rfl
  obtain ⟨mode, stack⟩ := s
  cases mode with
  | string text scan isKey =>
    simp only [step] at h
    rw [if_neg (by simp)] at h
    obtain ⟨scan', -, rfl⟩ := Option.map_eq_some_iff.mp h
    rfl
  -- A blank ends a number, so the value behind it is complete.
  | number text part =>
    have hnext : part.next 0x20 = none := next_of_ends (by decide) part
    simp only [step, hnext, afterValue, hspace, if_true] at h
    split at h
    · obtain rfl := Option.some.inj h
      rfl
    · cases h
  | word left v =>
    simp only [step] at h
    split at h
    · cases h
    · split at h
      · obtain rfl := Option.some.inj h
        rfl
      · cases h
    · split at h
      · obtain rfl := Option.some.inj h
        rfl
      · cases h
  | _ =>
    simp only [step, afterValue, hspace, if_true] at h
    obtain rfl := Option.some.inj h
    rfl

theorem encode_object (members : List (List UInt8 × Value)) :
    ∃ s, encode (.object members) = 0x7B :: (s ++ [0x7D]) := by
  have hmembers : ∀ ms : List (List UInt8 × Value), ∃ s, encodeMembers ms = s ++ [0x7D] := by
    intro ms
    induction ms with
    | nil => exact ⟨[], rfl⟩
    | cons m ms ih =>
      obtain ⟨s, hs⟩ := ih
      exact ⟨0x2C :: 0x22 :: m.1 ++ 0x22 :: 0x3A :: encode m.2 ++ s, by simp [encodeMembers, hs]⟩
  cases members with
  | nil => exact ⟨[], rfl⟩
  | cons m ms =>
    obtain ⟨s, hs⟩ := hmembers ms
    exact ⟨0x22 :: m.1 ++ 0x22 :: 0x3A :: encode m.2 ++ s, by simp [encode, hs]⟩

/-- **An object that is cut off is not read.** -/
theorem parse_take {members : List (List UInt8 × Value)}
    (h : Fits maxNestingDepth (.object members)) {n : ℕ}
    (hn : n < (encode (.object members)).length) :
    parse ((encode (.object members)).take n) = none := by
  obtain ⟨s, hs⟩ := encode_object members
  have hwhole := readsBack h [] 0x20 [] (by simp) (by decide)
  rw [hs] at hn hwhole ⊢
  cases n with
  | zero => rfl
  | succ n =>
    rw [List.take_succ_cons, parse]
    split
    · next v hcut =>
      exfalso
      rw [List.length_cons, Nat.succ_lt_succ_iff] at hn
      have hbrace : step ⟨.value, []⟩ 0x7B = some ⟨.keyOrEnd, [.members []]⟩ :=
        push_eq (show ([] : List Frame).length < maxNestingDepth by decide) _ _
      rw [List.cons_append, List.foldlM_cons, hbrace] at hcut hwhole
      simp only [Option.bind_eq_bind, Option.bind_some] at hcut hwhole
      rw [List.foldlM_append] at hcut
      obtain ⟨st, hst, hspace⟩ := Option.bind_eq_some_iff.mp hcut
      -- The space behind the cut has closed nothing, so the cut is behind the object.
      have hspace : step st 0x20 = some ⟨.after v, []⟩ := by
        rw [List.foldlM_cons] at hspace
        obtain ⟨st', hst', hnil⟩ := Option.bind_eq_some_iff.mp hspace
        rw [hst', Option.some.inj hnil]
      have hstack : st.stack = [] := (stack_of_space hspace).symm
      have hnested := nested_foldlM (Or.inl (List.cons_ne_nil _ _)) hst
      obtain ⟨w, hw⟩ := hnested.resolve_left (fun hne => hne hstack)
      have hclosed : st = ⟨.after w, []⟩ := by rw [← hw, ← hstack]
      -- But what has been cut off ends with a bracket.
      rw [← List.take_append_drop n (s ++ [0x7D]), List.append_assoc, List.foldlM_append, hst,
        hclosed] at hwhole
      simp only [Option.bind_eq_bind, Option.bind_some] at hwhole
      have hlast : (0x7D : UInt8) ∈ (s ++ [0x7D]).drop n := by
        have hne : (s ++ [0x7D]).drop n ≠ [] := by
          rw [Ne, List.drop_eq_nil_iff]
          omega
        have hget : ((s ++ [0x7D]).drop n).getLast hne = 0x7D := by
          rw [List.getLast_drop, List.getLast_append_singleton]
        have hmem := List.getLast_mem hne
        rwa [hget] at hmem
      have hread : ((s ++ [0x7D]).drop n ++ [0x20]).foldlM step ⟨.after w, []⟩ =
          some ⟨.after (.object members), []⟩ := hwhole
      have hspaces := spaces_of_foldlM hread _ (List.mem_append_left _ hlast)
      exact absurd hspaces (by decide)
    · rfl

/-! ### No control characters -/

theorem le_of_first {b : UInt8} {p : Part} (h : Part.first b = some p) : 0x20 ≤ b := by
  by_contra hlt
  have hnone := forall_ascii (P := fun b => b < 0x20 → Part.first b = none) (by decide)
    (UInt8.lt_trans (UInt8.not_le.mp hlt) (by decide)) (UInt8.not_le.mp hlt)
  rw [hnone] at h
  cases h

theorem le_of_part {b : UInt8} {p p' : Part} (h : p.next b = some p') : 0x20 ≤ b := by
  by_contra hlt
  have hnone := forall_ascii (P := fun b => b < 0x20 → ∀ p ∈ [Part.neg, .zero, .int, .dot, .frac,
    .mark, .sign, .exp], p.next b = none) (by decide)
    (UInt8.lt_trans (UInt8.not_le.mp hlt) (by decide)) (UInt8.not_le.mp hlt) p
    (by cases p <;> decide)
  rw [hnone] at h
  cases h

theorem le_of_isNumber {t : List UInt8} (h : IsNumber t) : ∀ b ∈ t, 0x20 ≤ b := by
  have hrest : ∀ {s : List UInt8} {p p' : Part}, s.foldlM Part.next p = some p' →
      ∀ b ∈ s, 0x20 ≤ b := by
    intro s
    induction s with
    | nil => exact fun _ b hb => absurd hb List.not_mem_nil
    | cons c s ih =>
      intro p p' hp b hb
      rw [List.foldlM_cons] at hp
      obtain ⟨q, hq, hp⟩ := Option.bind_eq_some_iff.mp hp
      rcases List.mem_cons.mp hb with rfl | hb
      · exact le_of_part hq
      · exact ih hp b hb
  obtain ⟨c, t, p, p', rfl, hfirst, hp', -⟩ := h.exists
  intro b hb
  rcases List.mem_cons.mp hb with rfl | hb
  · exact le_of_first hfirst
  · exact hrest hp' b hb

theorem le_of_mem_items {vs : List Value} (h : ∀ v ∈ vs, ∀ b ∈ encode v, 0x20 ≤ b) :
    ∀ b ∈ encodeItems vs, 0x20 ≤ b := by
  induction vs with
  | nil => decide
  | cons v vs ih =>
    have hvs := ih fun w hw => h w (List.mem_cons_of_mem v hw)
    have hv := h v List.mem_cons_self
    rw [encodeItems, List.cons_append, List.forall_mem_cons, List.forall_mem_append]
    exact ⟨by decide, hv, hvs⟩

theorem le_of_mem_members {ms : List (List UInt8 × Value)} (hkeys : ∀ m ∈ ms, IsText m.1)
    (h : ∀ m ∈ ms, ∀ b ∈ encode m.2, 0x20 ≤ b) : ∀ b ∈ encodeMembers ms, 0x20 ≤ b := by
  induction ms with
  | nil => decide
  | cons m ms ih =>
    have hms := ih (fun m hm => hkeys m (List.mem_cons_of_mem _ hm))
      fun m hm => h m (List.mem_cons_of_mem _ hm)
    have hkey := le_of_isText (hkeys m List.mem_cons_self)
    have hv := h m List.mem_cons_self
    simp only [encodeMembers, List.cons_append, List.append_assoc, List.forall_mem_cons,
      List.forall_mem_append]
    exact ⟨by decide, by decide, hkey, by decide, by decide, hv, hms⟩

/-- **What is written holds no control character.** -/
theorem le_of_mem_encode {n : ℕ} {v : Value} (h : Fits n v) : ∀ b ∈ encode v, 0x20 ≤ b := by
  induction h with
  | null => decide
  | bool b => cases b <;> decide
  | number ht => exact le_of_isNumber ht
  | string ht =>
    simp only [encode, List.cons_append, List.forall_mem_cons, List.forall_mem_append]
    exact ⟨by decide, le_of_isText ht, by decide⟩
  | @array n items _ ih =>
    cases items with
    | nil => decide
    | cons v vs =>
      simp only [encode, List.cons_append, List.forall_mem_cons, List.forall_mem_append]
      exact ⟨by decide, ih v List.mem_cons_self,
        le_of_mem_items fun w hw => ih w (List.mem_cons_of_mem v hw)⟩
  | @object n members hkeys _ ih =>
    cases members with
    | nil => decide
    | cons m ms =>
      have hms := le_of_mem_members (fun m hm => hkeys m (List.mem_cons_of_mem _ hm))
        fun m hm => ih m (List.mem_cons_of_mem _ hm)
      simp only [encode, List.cons_append, List.append_assoc, List.forall_mem_cons,
        List.forall_mem_append]
      exact ⟨by decide, by decide, le_of_isText (hkeys m List.mem_cons_self), by decide,
        by decide, ih m List.mem_cons_self, hms⟩

end Json

import CsvProductUploader.Lib.CsvReader

/-!
# Writing comma-separated records

Records whose fields need no quotes, one a line, and the reader over them.

## Main definitions

* `joinFields` — the fields of a record with commas between them.
* `Unquoted` — a field that can be written as it is.
* `Writable` — a record that can be written as it is.
* `write` — the text of some records.

## Main results

* `scanLine_joinFields` — a line yields the fields it was made of.
* `results_write` — **a written text yields its records**.
-/

namespace CsvReader

/-- The fields of a record with commas between them. -/
def joinFields (comma : UInt8) : List (List UInt8) → List UInt8
  | [] => []
  | [f] => f
  | f :: g :: fs => f ++ comma :: joinFields comma (g :: fs)

/-- A field that can be written as it is. -/
def Unquoted (comma : UInt8) (f : List UInt8) : Prop :=
  ∀ b ∈ f, b ≠ 0x22 ∧ b ≠ comma ∧ b ≠ 0x0A ∧ b ≠ 0x0D

instance (comma : UInt8) (f : List UInt8) : Decidable (Unquoted comma f) :=
  List.decidableBAll _ f

/-- A record that can be written as it is: the line is not blank. -/
structure Writable (comma : UInt8) (record : List (List UInt8)) : Prop where
  unquoted : ∀ f ∈ record, Unquoted comma f
  ne_nil : record ≠ []
  /-- The only field is not empty. -/
  visible : record ≠ [[]]

/-- The text of some records, one a line. -/
def write (comma : UInt8) (records : List (List (List UInt8))) : List UInt8 :=
  records.flatMap fun record => joinFields comma record ++ [0x0A]

theorem write_cons (comma : UInt8) (record : List (List UInt8))
    (records : List (List (List UInt8))) :
    write comma (record :: records) = joinFields comma record ++ 0x0A :: write comma records := by
  rw [write, List.flatMap_cons, List.append_assoc]
  rfl

/-! ### One line -/

section
variable {comma : UInt8} {f : List UInt8}

/-- A byte of a field that needs no quotes. -/
theorem step_push {s : Scan} {b : UInt8} (hs : s.mode = .start ∨ s.mode = .plain)
    (hquote : b ≠ 0x22) (hcomma : b ≠ comma) : step comma s b = .ok (s.push b .plain) := by
  unfold step
  rcases hs with hs | hs <;> rw [hs] <;> simp [hquote, hcomma]

/-- A comma ends a field that needs no quotes. -/
theorem step_comma {s : Scan} (hs : s.mode = .start ∨ s.mode = .plain) (hquote : comma ≠ 0x22) :
    step comma s comma = .ok s.close := by
  unfold step
  rcases hs with hs | hs <;> rw [hs] <;> simp [hquote]

/-- The reader behind a field that needs no quotes. -/
theorem scanLine_field (hf : Unquoted comma f) {s : Scan}
    (hs : s.mode = .start ∨ s.mode = .plain) (col : ℕ) (rest : List UInt8) :
    ∃ m, (m = .start ∨ m = .plain) ∧ scanLine comma col s (f ++ rest) =
      scanLine comma (col + f.length) { s with field := s.field ++ f, mode := m } rest := by
  induction f generalizing s col with
  | nil => exact ⟨s.mode, hs, by simp⟩
  | cons b f ih =>
    obtain ⟨⟨hquote, hcomma, -⟩, hrest⟩ := List.forall_mem_cons.mp hf
    obtain ⟨m, hm, hscan⟩ := ih hrest (s := s.push b .plain) (Or.inr rfl) (col + 1)
    refine ⟨m, hm, ?_⟩
    rw [List.cons_append, scanLine, step_push hs hquote hcomma]
    dsimp only
    rw [hscan, Scan.push, List.length_cons]
    simp [Nat.add_assoc, Nat.add_comm 1]

/-- **A line yields the fields it was made of.** -/
theorem scanLine_joinFields (hcomma : comma ≠ 0x22) {record : List (List UInt8)}
    (h : ∀ f ∈ record, Unquoted comma f) (hne : record ≠ []) (col : ℕ)
    (fields : List (List UInt8)) :
    ∃ s, scanLine comma col { fields } (joinFields comma record) = .ok s ∧
      s.record = fields ++ record ∧ s.mode ≠ .quoted := by
  induction record generalizing col fields with
  | nil => exact absurd rfl hne
  | cons f record ih =>
    obtain ⟨hf, hrest⟩ := List.forall_mem_cons.mp h
    -- The last field ends with the line, any other one with a comma.
    cases record with
    | nil =>
      obtain ⟨m, hm, hscan⟩ := scanLine_field hf (s := { fields }) (Or.inl rfl) col []
      rw [List.append_nil] at hscan
      refine ⟨_, hscan, by simp [Scan.record], ?_⟩
      rcases hm with rfl | rfl <;> simp
    | cons g record =>
      obtain ⟨m, hm, hscan⟩ := scanLine_field hf (s := { fields }) (Or.inl rfl) col
        (comma :: joinFields comma (g :: record))
      obtain ⟨s, hs, hrecord, hmode⟩ := ih hrest (List.cons_ne_nil _ _) (col + f.length + 1)
        (fields ++ [f])
      refine ⟨s, ?_, by rw [hrecord]; simp, hmode⟩
      rw [joinFields, hscan, scanLine, step_comma hm hcomma]
      exact hs

end

/-! ### A text -/

variable {comma : UInt8} {record : List (List UInt8)}

theorem joinFields_ne_nil (h : record ≠ []) (hvisible : record ≠ [[]]) :
    joinFields comma record ≠ [] := by
  match record, h, hvisible with
  | [f], _, hvisible => exact fun hnil => hvisible (by rw [show f = [] from hnil])
  | f :: g :: fs, _, _ => simp [joinFields]

theorem mem_joinFields {b : UInt8} (hb : b ∈ joinFields comma record) :
    b = comma ∨ ∃ f ∈ record, b ∈ f := by
  induction record with
  | nil => cases hb
  | cons f record ih =>
    cases record with
    | nil => exact Or.inr ⟨f, List.mem_cons_self, hb⟩
    | cons g record =>
      rcases List.mem_append.mp hb with hb | hb
      · exact Or.inr ⟨f, List.mem_cons_self, hb⟩
      rcases List.mem_cons.mp hb with rfl | hb
      · exact Or.inl rfl
      · exact (ih hb).imp_right fun ⟨f', hf', hb'⟩ => ⟨f', List.mem_cons_of_mem _ hf', hb'⟩

/-- A line without line ends in it. -/
theorem Writable.flat (h : Writable comma record) (hlf : comma ≠ 0x0A) (hcr : comma ≠ 0x0D) :
    0x0A ∉ joinFields comma record ∧
      dropCR (joinFields comma record) = joinFields comma record := by
  have hmem : ∀ b ∈ joinFields comma record, b ≠ 0x0A ∧ b ≠ 0x0D := by
    intro b hb
    rcases mem_joinFields hb with rfl | ⟨f, hf, hbf⟩
    · exact ⟨hlf, hcr⟩
    · exact (h.unquoted f hf b hbf).2.2
  refine ⟨fun hb => (hmem _ hb).1 rfl, ?_⟩
  rw [dropCR, if_neg]
  exact fun hlast => (hmem _ (List.mem_of_getLast? hlast)).2 rfl

/-- What the reader returns for a written record. -/
theorem result_lineEntry {ε : Type} (hcomma : comma ≠ 0x22) (h : Writable comma record) (n : ℕ) :
    (lineEntry comma n (joinFields comma record) : Entry ε).result = .ok record ∧
      endMode comma .start (joinFields comma record) ≠ some .quoted := by
  obtain ⟨s, hs, hrecord, hmode⟩ := scanLine_joinFields hcomma h.unquoted h.ne_nil 1 []
  constructor
  · rw [lineEntry, hs]
    exact congrArg Except.ok hrecord
  · have hend := scanLine_mode comma 1 {} (joinFields comma record)
    rw [hs] at hend
    exact fun heq => hmode (Option.some.inj (hend.symm.trans heq))

/-- What the reader returns for written records, the first of them on line `n`. -/
theorem entries_write {ε : Type} (hcomma : comma ≠ 0x22) (hlf : comma ≠ 0x0A) (hcr : comma ≠ 0x0D)
    {records : List (List (List UInt8))} (h : ∀ record ∈ records, Writable comma record) (n : ℕ) :
    ((entries comma atEnd none n (lines (write comma records)) : List (Entry ε)).map
      Entry.result) = records.map .ok := by
  induction records generalizing n with
  | nil => rfl
  | cons record records ih =>
    obtain ⟨hrecord, hrest⟩ := List.forall_mem_cons.mp h
    obtain ⟨hflat, hend⟩ := hrecord.flat hlf hcr
    obtain ⟨hresult, hclosed⟩ := result_lineEntry (ε := ε) hcomma hrecord n
    have hne : joinFields comma record ≠ [] := joinFields_ne_nil hrecord.ne_nil hrecord.visible
    rw [write_cons, lines_append_lf hflat, hend, entries_closed n hne hclosed, List.map_cons,
      hresult, ih hrest, List.map_cons]

/-- **A written text yields its records.** -/
theorem results_write {ε : Type} (hcomma : comma ≠ 0x22) (hlf : comma ≠ 0x0A) (hcr : comma ≠ 0x0D)
    {records : List (List (List UInt8))} (h : ∀ record ∈ records, Writable comma record) :
    (results comma (write comma records) (none : Option ε)).map Entry.result =
      records.map .ok :=
  entries_write hcomma hlf hcr h 1

end CsvReader

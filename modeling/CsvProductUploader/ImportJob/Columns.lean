import CsvProductUploader.ImportJob.Streamer

/-!
# The layout of the columns

A product file is rearranged by moving its columns, respelling their names and inserting
extra columns.  `mapColumns` finds a column by its name, in lower case and without white
space around it, so the rows stay the same.  It also rejects a name that it has met before,
and does so before it knows whether anything looks for that name: two blank columns, or an
extra one that repeats an unknown one, make it reject a file that it would accept without them.

## Main definitions

* `canonicalName`, `SameName` — the name of a column up to spelling.
* `Slot`, `Rearrangement` — the columns of the rearranged file, and where each comes from.
* `Rearrangement.Kept` — the rearranged file is read as the original is.

## Main results

* `mapColumnsFrom_eq_ok_iff`, `mapColumns_eq_ok_iff` — the names of an accepted header differ.
* `kept_iff` — the layout does not matter exactly if the extra names do not repeat.
* `not_kept_paddedHeader` — two blank columns matter.
-/

namespace CsvProductUploader

open Checks

/-! ### The names of a header -/

/-- The name under which `mapColumns` files a column. -/
def canonicalName (lower : GoString → GoString) (cell : GoString) : GoString :=
  columnAlias (toLower lower (trimSpace cell))

/-- The columns that `parseRow` looks for. -/
def knownColumns : List GoString :=
  [lit "merchant_id", lit "product_id", lit "currency", lit "name", lit "price",
    lit "expiration_date"]

/-- The two names of the expiration column. -/
def expirationNames : List GoString := [lit "expiration", lit "expiration_date"]

/-- The same name up to case, white space around it and the two names of the expiration. -/
def SameName (lower : GoString → GoString) (a b : GoString) : Prop :=
  toLower lower (trimSpace a) = toLower lower (trimSpace b) ∨
    (toLower lower (trimSpace a) ∈ expirationNames ∧ toLower lower (trimSpace b) ∈ expirationNames)

/-- `mapColumns` tells names apart up to spelling. -/
theorem sameName_iff {lower : GoString → GoString} {a b : GoString} :
    SameName lower a b ↔ canonicalName lower a = canonicalName lower b := by
  unfold SameName canonicalName columnAlias expirationNames
  generalize toLower lower (trimSpace a) = x
  generalize toLower lower (trimSpace b) = y
  simp only [List.mem_cons, List.not_mem_nil, or_false]
  grind

/-- Filing a new name in front of others. -/
theorem filed_cons {n : GoString} {names : List GoString} (h : n ∉ names) (k : ℕ)
    (cols : GoString → Option ℕ) (name : GoString) :
    (if name ∈ names then some (k + 1 + names.idxOf name)
      else Function.update cols n (some k) name) =
      if name ∈ n :: names then some (k + (n :: names).idxOf name) else cols name := by
  by_cases heq : name = n
  · subst heq
    rw [if_neg h, if_pos List.mem_cons_self, Function.update_self, List.idxOf_cons_self,
      Nat.add_zero]
  · rw [Function.update_of_ne heq, List.idxOf_cons_ne _ (Ne.symm heq)]
    simp only [List.mem_cons, heq, false_or]
    rw [show k + 1 + names.idxOf name = k + (names.idxOf name + 1) by omega]

/-- A run of `mapColumns` over some columns files each under its name, which is new. -/
theorem mapColumnsFrom_eq_ok_iff {lower : GoString → GoString} {k : ℕ}
    {cols cols' : GoString → Option ℕ} {header : List GoString} :
    mapColumnsFrom lower k cols header = .ok cols' ↔
      (header.map (canonicalName lower)).Nodup ∧
      (∀ name ∈ header.map (canonicalName lower), cols name = none) ∧
      ∀ name, cols' name =
        if name ∈ header.map (canonicalName lower) then
          some (k + (header.map (canonicalName lower)).idxOf name) else cols name := by
  induction header generalizing k cols with
  | nil => simp [mapColumnsFrom, funext_iff, eq_comm]
  | cons cell header ih =>
    -- One column: its name is new, and is filed under its index.
    have hstep : mapColumnsFrom lower k cols (cell :: header) = .ok cols' ↔
        cols (canonicalName lower cell) = none ∧ mapColumnsFrom lower (k + 1)
          (Function.update cols (canonicalName lower cell) (some k)) header = .ok cols' := by
      rw [mapColumnsFrom, bind_eq_ok_iff]
      simp only [reject_eq_ok_iff, exists_const, Decidable.not_not]
      rfl
    rw [hstep, ih, List.map_cons, List.nodup_cons]
    generalize canonicalName lower cell = n
    generalize header.map (canonicalName lower) = names
    constructor
    · rintro ⟨hn, hnodup, hnew, hcols⟩
      have hfresh : n ∉ names := fun hmem => by
        have hnone := hnew n hmem
        rw [Function.update_self] at hnone
        cases hnone
      refine ⟨⟨hfresh, hnodup⟩, ?_, ?_⟩
      · intro name hmem
        rcases List.mem_cons.mp hmem with rfl | hmem
        · exact hn
        · have hne : name ≠ n := fun heq => hfresh (heq ▸ hmem)
          rw [← Function.update_of_ne hne (some k) cols]
          exact hnew name hmem
      · intro name
        rw [hcols, filed_cons hfresh]
    · rintro ⟨⟨hfresh, hnodup⟩, hnew, hcols⟩
      refine ⟨hnew n List.mem_cons_self, hnodup, ?_, ?_⟩
      · intro name hmem
        have hne : name ≠ n := fun heq => hfresh (heq ▸ hmem)
        rw [Function.update_of_ne hne]
        exact hnew name (List.mem_cons_of_mem _ hmem)
      · intro name
        rw [hcols, ← filed_cons hfresh]

/-- The names of an accepted header differ, and the required ones are among them. -/
theorem mapColumns_eq_ok_iff {lower : GoString → GoString} {header : List GoString}
    {cols : GoString → Option ℕ} :
    mapColumns lower header = .ok cols ↔
      (header.map (canonicalName lower)).Nodup ∧
      (∀ want ∈ requiredColumns, want ∈ header.map (canonicalName lower)) ∧
      ∀ name, cols name =
        if name ∈ header.map (canonicalName lower) then
          some ((header.map (canonicalName lower)).idxOf name) else none := by
  have hfind : ∀ cols' : GoString → Option ℕ,
      requiredColumns.find? (fun want => cols' want = none) = none ↔
        ∀ want ∈ requiredColumns, cols' want ≠ none := by
    intro cols'
    rw [List.find?_eq_none]
    simp only [decide_eq_true_eq]
  -- The duplicates are refused while the names are filed, the missing columns afterwards.
  have hchain : mapColumns lower header = .ok cols ↔
      mapColumnsFrom lower 0 (fun _ => none) header = .ok cols ∧
        ∀ want ∈ requiredColumns, cols want ≠ none := by
    rw [mapColumns, bind_eq_ok_iff, ← hfind]
    constructor
    · rintro ⟨cols', hcols', h⟩
      split at h
      · cases h
      · next hnone =>
        obtain rfl := Except.ok.inj h
        exact ⟨hcols', hnone⟩
    · rintro ⟨hcols, hnone⟩
      refine ⟨cols, hcols, ?_⟩
      rw [hnone]
      rfl
  rw [hchain, mapColumnsFrom_eq_ok_iff]
  simp only [Nat.zero_add, implies_true, true_and]
  constructor
  · rintro ⟨⟨hnodup, hcols⟩, hrequired⟩
    refine ⟨hnodup, ?_, hcols⟩
    intro want hwant
    by_contra hmissing
    exact hrequired want hwant (by rw [hcols, if_neg hmissing])
  · rintro ⟨hnodup, hrequired, hcols⟩
    refine ⟨⟨hnodup, hcols⟩, ?_⟩
    intro want hwant
    rw [hcols, if_pos (hrequired want hwant)]
    exact Option.some_ne_none _

/-- The header is accepted. -/
def Accepted (lower : GoString → GoString) (header : List GoString) : Prop :=
  ∃ cols, mapColumns lower header = .ok cols

theorem accepted_iff {lower : GoString → GoString} {header : List GoString} :
    Accepted lower header ↔ (header.map (canonicalName lower)).Nodup ∧
      ∀ want ∈ requiredColumns, want ∈ header.map (canonicalName lower) := by
  unfold Accepted
  simp only [mapColumns_eq_ok_iff]
  constructor
  · rintro ⟨cols, hnodup, hrequired, -⟩
    exact ⟨hnodup, hrequired⟩
  · rintro ⟨hnodup, hrequired⟩
    exact ⟨_, hnodup, hrequired, fun name => rfl⟩

/-- The index of a column is where its name stands. -/
theorem mapColumns_eq_some_iff {lower : GoString → GoString} {header : List GoString}
    {cols : GoString → Option ℕ} (h : mapColumns lower header = .ok cols) {name : GoString}
    {idx : ℕ} : cols name = some idx ↔ (header.map (canonicalName lower))[idx]? = some name := by
  obtain ⟨hnodup, -, hcols⟩ := mapColumns_eq_ok_iff.mp h
  rw [hcols]
  generalize header.map (canonicalName lower) = names at hnodup ⊢
  constructor
  · intro hidx
    split at hidx
    · next hmem =>
      obtain rfl := Option.some.inj hidx
      rw [List.getElem?_eq_getElem (List.idxOf_lt_length_iff.mpr hmem), List.getElem_idxOf]
    · cases hidx
  · intro hidx
    obtain ⟨hlt, rfl⟩ := List.getElem?_eq_some_iff.mp hidx
    rw [if_pos (List.getElem_mem hlt), hnodup.idxOf_getElem]

/-! ### Rearranged files -/

/-- A column of the rearranged file: one of the original's, respelled, or an extra one. -/
inductive Slot
  | old (idx : ℕ) (name : GoString)
  | extra (name : GoString)
  deriving DecidableEq, Repr

def Slot.name : Slot → GoString
  | .old _ name => name
  | .extra name => name

/-- The column of the original. -/
def Slot.idx? : Slot → Option ℕ
  | .old idx _ => some idx
  | .extra _ => none

/-- The name of an extra column. -/
def Slot.extra? : Slot → Option GoString
  | .old _ _ => none
  | .extra name => some name

/-- The columns of a file rearranged: each column of the original once, its name respelled,
and any extra columns that nothing looks for. -/
structure Rearrangement (lower : GoString → GoString) (header : List GoString) where
  slots : List Slot
  once : (slots.filterMap Slot.idx?).Perm (List.range header.length)
  spelled : ∀ idx name, Slot.old idx name ∈ slots →
    ∃ cell, header[idx]? = some cell ∧ SameName lower cell name
  unknown : ∀ name, Slot.extra name ∈ slots → canonicalName lower name ∉ knownColumns

namespace Rearrangement

variable {lower : GoString → GoString} {header : List GoString}

/-- The rearranged header. -/
def names (r : Rearrangement lower header) : List GoString := r.slots.map Slot.name

/-- The names of the extra columns. -/
def extras (r : Rearrangement lower header) : List GoString := r.slots.filterMap Slot.extra?

/-- A record and what it becomes: the values move with their columns, and the extra columns
hold anything. -/
def Moves (r : Rearrangement lower header) (record record' : List GoString) : Prop :=
  List.Forall₂ (fun slot value => ∀ idx, slot.idx? = some idx → record[idx]? = some value)
    r.slots record'

/-- The rearranged header is accepted if and only if the original is, and then the records
make the same rows, no column lying outside a record. -/
def Kept (r : Rearrangement lower header) (upper : GoString → GoString) : Prop :=
  (Accepted lower header ↔ Accepted lower r.names) ∧
    ∀ cols cols', mapColumns lower header = .ok cols → mapColumns lower r.names = .ok cols' →
      ∀ record record', record.length = header.length → r.Moves record record' →
        ∀ num opts, ∃ row, parseRow upper num cols record opts = some row ∧
          parseRow upper num cols' record' opts = some row

/-! ### The names of a rearranged header -/

theorem mem_extras (r : Rearrangement lower header) {name : GoString} :
    name ∈ r.extras ↔ Slot.extra name ∈ r.slots := by
  rw [extras, List.mem_filterMap]
  constructor
  · rintro ⟨slot, hslot, hname⟩
    cases slot with
    | old idx n => cases hname
    | extra n =>
      obtain rfl := Option.some.inj hname
      exact hslot
  · intro hslot
    exact ⟨_, hslot, rfl⟩

/-- Each column of the original has a slot. -/
theorem exists_slot (r : Rearrangement lower header) {idx : ℕ} (h : idx < header.length) :
    ∃ (j : ℕ) (name : GoString), r.slots[j]? = some (.old idx name) := by
  have hmem : idx ∈ r.slots.filterMap Slot.idx? := r.once.mem_iff.mpr (List.mem_range.mpr h)
  obtain ⟨slot, hslot, hidx⟩ := List.mem_filterMap.mp hmem
  cases slot with
  | old i name =>
    obtain rfl := Option.some.inj hidx
    obtain ⟨j, hj⟩ := List.mem_iff_getElem?.mp hslot
    exact ⟨j, name, hj⟩
  | extra name => cases hidx

/-- The slots in their order, apart as the old ones and the extra ones. -/
theorem perm_slots {α : Type} (f : ℕ → α) (g : GoString → α) (slots : List Slot) :
    (slots.map fun slot => match slot with
      | .old idx _ => f idx
      | .extra name => g name).Perm
        ((slots.filterMap Slot.idx?).map f ++ (slots.filterMap Slot.extra?).map g) := by
  induction slots with
  | nil => exact List.Perm.nil
  | cons slot slots ih =>
    cases slot with
    | old idx name => exact ih.cons (f idx)
    | extra name => exact (ih.cons (g name)).trans List.perm_middle.symm

/-- The names are those of the original and the extra ones. -/
theorem perm_names (r : Rearrangement lower header) :
    (r.names.map (canonicalName lower)).Perm
      (header.map (canonicalName lower) ++ r.extras.map (canonicalName lower)) := by
  have hnames : r.names.map (canonicalName lower) = r.slots.map fun slot => match slot with
      | .old idx _ => canonicalName lower (header.getD idx [])
      | .extra name => canonicalName lower name := by
    rw [names, List.map_map]
    refine List.map_congr_left fun slot hslot => ?_
    cases slot with
    | old idx name =>
      obtain ⟨cell, hcell, hsame⟩ := r.spelled idx name hslot
      show canonicalName lower name = canonicalName lower (header.getD idx [])
      rw [List.getD_eq_getElem?_getD, hcell]
      exact (sameName_iff.mp hsame).symm
    | extra name => rfl
  have hrange : (List.range header.length).map
      (fun idx => canonicalName lower (header.getD idx [])) = header.map (canonicalName lower) := by
    refine List.ext_getElem (by simp) fun i hi hi' => ?_
    have hlt : i < header.length := by simpa using hi'
    simp [List.getElem?_eq_getElem hlt]
  rw [hnames, ← hrange]
  exact (perm_slots _ _ r.slots).trans ((r.once.map _).append_right _)

/-- The rearranged header is accepted if the original is and the extra names are new. -/
theorem accepted_names_iff (r : Rearrangement lower header) :
    Accepted lower r.names ↔ Accepted lower header ∧
      (r.extras.map (canonicalName lower)).Nodup ∧
        ∀ name ∈ r.extras, canonicalName lower name ∉ header.map (canonicalName lower) := by
  have hperm := r.perm_names
  have hrequired : ∀ want ∈ requiredColumns,
      want ∈ r.names.map (canonicalName lower) ↔ want ∈ header.map (canonicalName lower) := by
    intro want hwant
    have hknown : ∀ want ∈ requiredColumns, want ∈ knownColumns := by decide
    rw [hperm.mem_iff, List.mem_append]
    refine or_iff_left fun hmem => ?_
    obtain ⟨name, hname, rfl⟩ := List.mem_map.mp hmem
    exact r.unknown name (r.mem_extras.mp hname) (hknown _ hwant)
  -- The extra columns must differ from one another and from those of the header.
  have hdisjoint : (header.map (canonicalName lower) ++ r.extras.map (canonicalName lower)).Nodup ↔
      (header.map (canonicalName lower)).Nodup ∧ (r.extras.map (canonicalName lower)).Nodup ∧
        ∀ name ∈ r.extras, canonicalName lower name ∉ header.map (canonicalName lower) := by
    rw [List.nodup_append]
    refine and_congr_right fun _ => and_congr_right fun _ => ?_
    constructor
    · intro h name hname hmem
      exact h _ hmem _ (List.mem_map_of_mem hname) rfl
    · rintro h a ha b hb rfl
      obtain ⟨name, hname, rfl⟩ := List.mem_map.mp hb
      exact h name hname ha
  rw [accepted_iff, accepted_iff, hperm.nodup_iff, hdisjoint]
  constructor
  · rintro ⟨⟨hnodup, hextras⟩, hwant⟩
    exact ⟨⟨hnodup, fun want h => (hrequired want h).mp (hwant want h)⟩, hextras⟩
  · rintro ⟨⟨hnodup, hwant⟩, hextras⟩
    exact ⟨⟨hnodup, hextras⟩, fun want h => (hrequired want h).mpr (hwant want h)⟩

/-! ### The rows of a rearranged file -/

/-- A column that something looks for holds the same value. -/
theorem column_moves {r : Rearrangement lower header} {cols cols' : GoString → Option ℕ}
    (hcols : mapColumns lower header = .ok cols) (hcols' : mapColumns lower r.names = .ok cols')
    {record record' : List GoString} (h : r.Moves record record') {name : GoString}
    (hname : name ∈ knownColumns) : column record' cols' name = column record cols name := by
  have hold : ∀ idx nm, Slot.old idx nm ∈ r.slots → canonicalName lower nm = name →
      cols name = some idx := by
    intro idx nm hslot hcanon
    obtain ⟨cell, hcell, hsame⟩ := r.spelled idx nm hslot
    rw [mapColumns_eq_some_iff hcols, List.getElem?_map, hcell, Option.map_some,
      sameName_iff.mp hsame, hcanon]
  unfold column
  -- A column that is missing stays missing; one that is there is found where its slot has gone.
  cases hidx : cols name with
  | none =>
    have hnone : cols' name = none := by
      cases hj : cols' name with
      | none => rfl
      | some j =>
        rw [mapColumns_eq_some_iff hcols', names, List.map_map, List.getElem?_map,
          Option.map_eq_some_iff] at hj
        obtain ⟨slot, hslot, hcanon⟩ := hj
        cases slot with
        | old idx nm =>
          have hsome := hold idx nm (List.mem_of_getElem? hslot) hcanon
          rw [hidx] at hsome
          cases hsome
        | extra nm =>
          have heq : canonicalName lower nm = name := hcanon
          exact absurd (heq ▸ hname) (r.unknown nm (List.mem_of_getElem? hslot))
    rw [hnone]
  | some idx =>
    obtain ⟨j, nm, hslot⟩ := r.exists_slot (mapColumns_lt hcols name idx hidx)
    have hj : cols' name = some j := by
      obtain ⟨cell, hcell, hsame⟩ := r.spelled idx nm (List.mem_of_getElem? hslot)
      rw [mapColumns_eq_some_iff hcols, List.getElem?_map, hcell] at hidx
      rw [mapColumns_eq_some_iff hcols', names, List.map_map, List.getElem?_map, hslot]
      exact (congrArg some (sameName_iff.mp hsame).symm).trans hidx
    have hvalue : record'[j]? = record[idx]? := by
      obtain ⟨hlt, hget⟩ := List.getElem?_eq_some_iff.mp hslot
      have hlt' : j < record'.length := h.length_eq ▸ hlt
      have hmove := h.get hlt hlt' idx (by rw [List.get_eq_getElem, hget]; rfl)
      rw [hmove, List.getElem?_eq_getElem hlt']
      rfl
    rw [hj]
    dsimp only
    rw [hvalue]

/-- **The layout of the columns does not matter exactly if the original is rejected in the
first place or no extra name repeats another.** -/
theorem kept_iff (r : Rearrangement lower header) (upper : GoString → GoString) :
    r.Kept upper ↔ ¬Accepted lower header ∨
      (r.extras.map (canonicalName lower)).Nodup ∧
        ∀ name ∈ r.extras, canonicalName lower name ∉ header.map (canonicalName lower) := by
  constructor
  · rintro ⟨haccepted, -⟩
    by_cases hacc : Accepted lower header
    · exact Or.inr (r.accepted_names_iff.mp (haccepted.mp hacc)).2
    · exact Or.inl hacc
  · intro h
    constructor
    · rw [accepted_names_iff]
      constructor
      · intro hacc
        exact ⟨hacc, h.resolve_left (not_not_intro hacc)⟩
      · exact And.left
    · intro cols cols' hcols hcols' record record' hwide hmoves num opts
      have hin : ∀ name idx, cols name = some idx → idx < record.length := by
        rw [hwide]
        exact mapColumns_lt hcols
      obtain ⟨row, hrow⟩ := exists_parseRow hin upper num opts
      -- `parseRow` looks at the known columns only, and these have moved with their cells.
      have hcells : cellsOf cols' record' opts = cellsOf cols record opts := by
        have hcolumn : ∀ name ∈ knownColumns, column record' cols' name = column record cols name :=
          fun name hname => column_moves hcols hcols' hmoves hname
        simp only [knownColumns, List.forall_mem_cons] at hcolumn
        obtain ⟨hmerchant, hproduct, hcurrency, hname, hprice, hexpiration, -⟩ := hcolumn
        simp only [cellsOf, hmerchant, hproduct, hcurrency, hname, hprice, hexpiration]
      refine ⟨row, hrow, ?_⟩
      rw [parseRow, hcells]
      exact hrow

end Rearrangement

/-- The header `name,price,,`: two columns and two blank ones. -/
def paddedHeader : Rearrangement id [lit "name", lit "price"] where
  slots := [.old 0 (lit "name"), .old 1 (lit "price"), .extra [], .extra []]
  once := by decide
  spelled := by
    intro idx name h
    simp only [List.mem_cons, Slot.old.injEq, reduceCtorEq, List.not_mem_nil, or_false] at h
    rcases h with ⟨rfl, rfl⟩ | ⟨rfl, rfl⟩
    · exact ⟨_, rfl, Or.inl rfl⟩
    · exact ⟨_, rfl, Or.inl rfl⟩
  unknown := by
    intro name h
    simp only [List.mem_cons, Slot.extra.injEq, reduceCtorEq, List.not_mem_nil, or_false,
      false_or, or_self] at h
    subst h
    decide +kernel

/-- **The blank columns make the header unacceptable.** -/
theorem not_kept_paddedHeader : ¬paddedHeader.Kept id := by
  rintro ⟨haccepted, -⟩
  rw [accepted_iff, accepted_iff] at haccepted
  revert haccepted
  decide +kernel

end CsvProductUploader

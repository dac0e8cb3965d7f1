import CsvProductUploader.Calendar
import CsvProductUploader.Lib.Checks
import CsvProductUploader.Lib.LastPerKey
import CsvProductUploader.Lib.Utf8

/-!
# The unnest upsert

The catalog writer and the projection store send the same statement: seven text and
number arrays unnested into rows, the last row of each `(merchant_id, product_id)`
selected, cast to the column types and upserted.  The statement is atomic, so a single
value that a column does not take fails all of it.

## Main definitions

* `storable` — what a text parameter may hold.
* `Dialect`, `castDate`, `castUUID`, `char3` — the casts.
* `Tuple`, `Schema`, `Takes`, `upsert` — the statement.

## Main results

* `upsert_ok_iff` — the statement succeeds exactly if every text of every row is
  storable and the table takes every row that is the last of its key.
* `upsert_eq_putAll` — what it leaves is what writing the rows one after another would.
* `char3_eq_self_iff` — `CHAR(3)` keeps texts of three characters as they are, and no others.
* `foldlM_upsert` — the same for statements one after another.
* `writable_insert` — a row that can be written alone can join any batch.
-/

namespace CsvProductUploader

open Checks

/-- A text parameter is UTF-8 without U+0000. -/
def storable (s : GoString) : Prop := Utf8.Valid s ∧ 0 ∉ s

instance (s : GoString) : Decidable (storable s) := inferInstanceAs (Decidable (_ ∧ _))

theorem storable_of_ascii {s : GoString} (h : ∀ b ∈ s, 0 < b ∧ b < 0x80) : storable s := by
  refine ⟨Utf8.valid_of_ascii fun b hb => (h b hb).2, ?_⟩
  intro h0
  exact absurd (h 0 h0).1 (by decide)

/-- Sanitized text is storable unless it holds a NUL. -/
theorem storable_sanitize {s : GoString} : storable (Utf8.sanitize s) ↔ 0 ∉ s := by
  have hmem : 0 ∈ Utf8.sanitize s ↔ 0 ∈ s := Utf8.mem_sanitize_of_ascii (by decide) s
  unfold storable
  rw [hmem]
  exact and_iff_right (Utf8.valid_sanitize s)

/-! ### Casts -/

/-- What the casts accept besides the canonical forms: other spellings of dates and
UUIDs. -/
structure Dialect where
  otherDate : GoString → Option Date
  otherUUID : GoString → Option GoString

/-- Casts that take the canonical forms and no others. -/
def canonicalDialect : Dialect := ⟨fun _ => none, fun _ => none⟩

/-- `::date`.  A text `YYYY-MM-DD` is a date if the day exists and the year is at
least 1. -/
def Dialect.castDate (d : Dialect) (s : GoString) : Option Date :=
  match isoDate s with
  | some e => if 1 ≤ e.year ∧ e.Exists then some e else none
  | none => d.otherDate s

/-- The lower-case form of a hexadecimal digit. -/
def lowerHex (b : UInt8) : UInt8 := if 0x41 ≤ b ∧ b ≤ 0x46 then b + 0x20 else b

/-- `::uuid`. -/
def Dialect.castUUID (d : Dialect) (s : GoString) : Option GoString :=
  if isUUID s then some (s.map lowerHex) else d.otherUUID s

/-- Assignment to `CHAR(3)`: longer values are errors unless the excess is blanks,
shorter ones are padded. -/
def char3 (s : GoString) : Option GoString :=
  let rs := Utf8.runes s
  if ∀ r ∈ rs.drop 3, r.bytes = [0x20] then
    some ((rs.take 3).flatMap Utf8.Rune.bytes ++ List.replicate (3 - rs.length) 0x20)
  else none

/-- A text is stored as it is exactly if it has three characters. -/
theorem char3_eq_self_iff {s : GoString} : char3 s = some s ↔ (Utf8.runes s).length = 3 := by
  have hsplit : ((Utf8.runes s).take 3).flatMap Utf8.Rune.bytes ++
      ((Utf8.runes s).drop 3).flatMap Utf8.Rune.bytes = s := by
    rw [← List.flatMap_append, List.take_append_drop, Utf8.flatMap_runes]
  constructor
  · intro h
    simp only [char3] at h
    split at h
    · -- The padding is what was cut off, so there was neither.
      have hpad := List.append_cancel_left ((Option.some.inj h).trans hsplit.symm)
      have hlength := congrArg List.length hpad
      rw [List.length_replicate] at hlength
      by_cases hshort : (Utf8.runes s).length ≤ 3
      · rw [List.drop_of_length_le hshort] at hlength
        simp only [List.flatMap_nil, List.length_nil] at hlength
        omega
      · exfalso
        rw [show 3 - (Utf8.runes s).length = 0 by omega] at hlength
        have hnil := List.flatMap_eq_nil_iff.mp (List.eq_nil_of_length_eq_zero hlength.symm)
        have hlt : 3 < (Utf8.runes s).length := by omega
        have hmem : (Utf8.runes s)[3] ∈ (Utf8.runes s).drop 3 := by
          rw [List.drop_eq_getElem_cons hlt]
          exact List.mem_cons_self
        exact Utf8.bytes_ne_nil (List.getElem_mem hlt) (hnil _ hmem)
    · cases h
  · intro h
    have hdrop : (Utf8.runes s).drop 3 = [] := List.drop_of_length_le (by omega)
    rw [hdrop, List.flatMap_nil, List.append_nil] at hsplit
    simp only [char3, hdrop, h, hsplit]
    rw [if_pos (fun r hr => absurd hr List.not_mem_nil), Nat.sub_self, List.replicate_zero,
      List.append_nil]

theorem castDate_format {d : Dialect} {e : Date} (hexists : e.Exists) (hyear : e.year ≤ 9999) :
    d.castDate e.format = if 1 ≤ e.year then some e else none := by
  have hmonth : e.month ≤ 99 := Nat.le_trans hexists.2.1 (by decide)
  have hday : e.day ≤ 99 := Nat.le_trans hexists.2.2.2 (Nat.le_trans (daysIn_le _ _) (by decide))
  simp [Dialect.castDate, isoDate_format hyear hmonth hday, hexists]

theorem castUUID_of_isUUID {d : Dialect} {s : GoString} (h : isUUID s = true) :
    (d.castUUID s).isSome = true := by
  rw [Dialect.castUUID, if_pos h]
  rfl

/-! ### The statement -/

/-- Why the server rejects a statement for its data. -/
inductive DataError
  /-- A text parameter is not UTF-8 or holds a U+0000. -/
  | text
  | date
  | uuid
  /-- `value too long for type character(3)` -/
  | tooLong
  /-- The `CHECK` of `price_cents`. -/
  | check
  deriving DecidableEq, Repr

/-- A row of the unnested arrays; `extra` is what a table has beyond the seven columns. -/
structure Tuple (χ : Type) where
  merchantID : GoString
  productID : GoString
  name : GoString
  priceCents : ℤ
  currency : GoString
  expiration : GoString
  jobID : GoString
  extra : χ

/-- The natural key. -/
def Tuple.key {χ : Type} (r : Tuple χ) : GoString × GoString := (r.merchantID, r.productID)

/-- The text parameters of a row. -/
def Tuple.texts {χ : Type} (r : Tuple χ) : List GoString :=
  [r.merchantID, r.productID, r.name, r.currency, r.expiration, r.jobID]

/-- A stored row, less its key and the times the table keeps by itself. -/
structure Stored (χ : Type) where
  name : GoString
  priceCents : ℤ
  currency : GoString
  expirationDate : Option Date
  sourceJobID : GoString
  extra : χ
  deriving DecidableEq, Repr

/-- What a table asks of the columns on which the two tables differ. -/
structure Schema where
  currency : GoString → Option GoString
  priceCheck : ℤ → Bool

/-- The rows of a table by their key. -/
abbrev Table (χ : Type) := GoString × GoString → Option (Stored χ)

section
variable {χ : Type} (d : Dialect) (sch : Schema)

/-- `NULLIF(e, '')::date` -/
def castExpiration (s : GoString) : Except DataError (Option Date) :=
  if s = [] then .ok none else (orError .date (d.castDate s)).map some

/-- The casts and the check of one row. -/
def castTuple (r : Tuple χ) : Except DataError (Stored χ) := do
  let expirationDate ← castExpiration d r.expiration
  let sourceJobID ← orError .uuid (d.castUUID r.jobID)
  let currency ← orError .tooLong (sch.currency r.currency)
  reject (sch.priceCheck r.priceCents = false) .check
  return ⟨r.name, r.priceCents, currency, expirationDate, sourceJobID, r.extra⟩

/-- The table takes the row. -/
def Takes (r : Tuple χ) : Prop :=
  (r.expiration = [] ∨ (d.castDate r.expiration).isSome) ∧ (d.castUUID r.jobID).isSome ∧
    (sch.currency r.currency).isSome ∧ sch.priceCheck r.priceCents = true

instance (r : Tuple χ) : Decidable (Takes d sch r) := inferInstanceAs (Decidable (_ ∧ _))

/-- `INSERT … ON CONFLICT DO UPDATE` of rows with distinct keys. -/
def writeRows (t : Table χ) : List (Tuple χ) → Except DataError (Table χ)
  | [] => .ok t
  | r :: rs => do
    let v ← castTuple d sch r
    writeRows (Function.update t r.key (some v)) rs

/-- The whole statement.  The parameters are read before any row is; an empty batch
sends nothing. -/
def upsert (t : Table χ) (rows : List (Tuple χ)) : Except DataError (Table χ) :=
  if rows = [] then .ok t
  else if ∀ r ∈ rows, ∀ s ∈ r.texts, storable s then
    writeRows d sch t (lastPerKey Tuple.key rows)
  else .error .text

variable {d sch}

theorem castExpiration_ok_iff {s : GoString} :
    (∃ e, castExpiration d s = .ok e) ↔ s = [] ∨ (d.castDate s).isSome = true := by
  unfold castExpiration
  by_cases hs : s = []
  · simp [hs]
  · rw [if_neg hs]
    cases d.castDate s with
    | none => simp [orError, Except.map, hs]
    | some e => simp [orError, Except.map]

theorem castTuple_ok_iff {r : Tuple χ} : (∃ v, castTuple d sch r = .ok v) ↔ Takes d sch r := by
  unfold castTuple Takes
  rw [← castExpiration_ok_iff, Option.isSome_iff_exists, Option.isSome_iff_exists]
  simp only [bind_eq_ok_iff, reject_eq_ok_iff, orError_eq_ok_iff]
  constructor
  · rintro ⟨v, e, he, u, hu, c, hc, -, hprice, -⟩
    exact ⟨⟨e, he⟩, ⟨u, hu⟩, ⟨c, hc⟩, by simpa using hprice⟩
  · rintro ⟨⟨e, he⟩, ⟨u, hu⟩, ⟨c, hc⟩, hprice⟩
    exact ⟨_, e, he, u, hu, c, hc, (), by simp [hprice], rfl⟩

/-- What the table stores of a row that it takes. -/
def stored (d : Dialect) (sch : Schema) (r : Tuple χ) : Stored χ :=
  match castTuple d sch r with
  | .ok v => v
  | .error _ => ⟨r.name, r.priceCents, r.currency, none, r.jobID, r.extra⟩

theorem castTuple_eq_stored {r : Tuple χ} (h : Takes d sch r) :
    castTuple d sch r = .ok (stored d sch r) := by
  obtain ⟨v, hv⟩ := castTuple_ok_iff.mpr h
  rw [stored, hv]

/-- The columns of a row that the table takes. -/
theorem stored_of_takes {r : Tuple χ} (h : Takes d sch r) :
    ∃ e u c, castExpiration d r.expiration = .ok e ∧ d.castUUID r.jobID = some u ∧
      sch.currency r.currency = some c ∧
      stored d sch r = ⟨r.name, r.priceCents, c, e, u, r.extra⟩ := by
  obtain ⟨hexp, hid, hcur, hprice⟩ := h
  obtain ⟨e, he⟩ := castExpiration_ok_iff.mpr hexp
  obtain ⟨u, hu⟩ := Option.isSome_iff_exists.mp hid
  obtain ⟨c, hc⟩ := Option.isSome_iff_exists.mp hcur
  have hcast : castTuple d sch r = .ok ⟨r.name, r.priceCents, c, e, u, r.extra⟩ := by
    unfold castTuple
    simp only [bind_eq_ok_iff, reject_eq_ok_iff, orError_eq_ok_iff]
    exact ⟨e, he, u, hu, c, hc, (), by simp [hprice], rfl⟩
  refine ⟨e, u, c, he, hu, hc, ?_⟩
  rw [stored, hcast]

theorem writeRows_ok_iff {t t' : Table χ} {rows : List (Tuple χ)} :
    writeRows d sch t rows = .ok t' ↔
      (∀ r ∈ rows, Takes d sch r) ∧ t' = putAll Tuple.key (stored d sch) t rows := by
  induction rows generalizing t with
  | nil => simp [writeRows, putAll, eq_comm]
  | cons r rs ih =>
    unfold writeRows
    by_cases hr : Takes d sch r
    · rw [castTuple_eq_stored hr]
      change writeRows d sch (Function.update t r.key (some (stored d sch r))) rs = .ok t' ↔ _
      rw [ih, List.forall_mem_cons]
      simp [hr, putAll]
    · have hnone : ¬∃ v, castTuple d sch r = .ok v := fun h => hr (castTuple_ok_iff.mp h)
      cases hcast : castTuple d sch r with
      | ok v => exact absurd ⟨v, hcast⟩ hnone
      | error e =>
        rw [List.forall_mem_cons]
        simp [bind, Except.bind, hr]

/-- A batch can be written: every text of every row is storable, and the table takes
every row that is the last of its key. -/
def Writable (d : Dialect) (sch : Schema) (rows : List (Tuple χ)) : Prop :=
  (∀ r ∈ rows, ∀ s ∈ r.texts, storable s) ∧ ∀ r ∈ lastPerKey Tuple.key rows, Takes d sch r

instance (rows : List (Tuple χ)) : Decidable (Writable d sch rows) :=
  inferInstanceAs (Decidable (_ ∧ _))

theorem upsert_eq_ok_iff {t t' : Table χ} {rows : List (Tuple χ)} :
    upsert d sch t rows = .ok t' ↔
      Writable d sch rows ∧ t' = putAll Tuple.key (stored d sch) t rows := by
  unfold upsert Writable
  split
  · next hnil =>
    subst hnil
    simp [putAll, eq_comm]
  · split
    · next htexts =>
      rw [writeRows_ok_iff, putAll_lastPerKey, and_iff_right htexts]
    · next htexts => simp [htexts]

/-- The statement succeeds exactly if the batch can be written, whatever the table
holds. -/
theorem upsert_ok_iff {t : Table χ} {rows : List (Tuple χ)} :
    (∃ t', upsert d sch t rows = .ok t') ↔ Writable d sch rows := by
  constructor
  · rintro ⟨t', h⟩
    exact (upsert_eq_ok_iff.mp h).1
  · intro h
    exact ⟨_, upsert_eq_ok_iff.mpr ⟨h, rfl⟩⟩

/-- What the statement leaves is what writing the rows one after another would. -/
theorem upsert_eq_putAll {t t' : Table χ} {rows : List (Tuple χ)}
    (h : upsert d sch t rows = .ok t') : t' = putAll Tuple.key (stored d sch) t rows :=
  (upsert_eq_ok_iff.mp h).2

/-- A sequence of statements leaves what one of all their rows would, and the table takes the
last row of each key. -/
theorem foldlM_upsert {t t' : Table χ} {batches : List (List (Tuple χ))}
    (h : batches.foldlM (upsert d sch) t = .ok t') :
    t' = putAll Tuple.key (stored d sch) t batches.flatten ∧
      ∀ r ∈ lastPerKey Tuple.key batches.flatten, Takes d sch r := by
  induction batches generalizing t with
  | nil =>
    obtain rfl := Except.ok.inj h
    exact ⟨rfl, fun r hr => absurd hr List.not_mem_nil⟩
  | cons rows batches ih =>
    rw [List.foldlM_cons, bind_eq_ok_iff] at h
    obtain ⟨t₁, hup, h⟩ := h
    obtain ⟨hwritable, rfl⟩ := upsert_eq_ok_iff.mp hup
    obtain ⟨rfl, htakes⟩ := ih h
    rw [List.flatten_cons, putAll_append]
    refine ⟨rfl, fun r hr => ?_⟩
    rcases mem_lastPerKey_append hr with hr | hr
    · exact hwritable.2 r hr
    · exact htakes r hr

/-! ### One row among others -/

theorem writable_singleton {r : Tuple χ} :
    Writable d sch [r] ↔ (∀ s ∈ r.texts, storable s) ∧ Takes d sch r := by
  simp [Writable, lastPerKey]

/-- A row that can be written alone can join any batch that can be written. -/
theorem writable_insert {r : Tuple χ} {before after : List (Tuple χ)}
    (h : Writable d sch (before ++ after)) (hr : Writable d sch [r]) :
    Writable d sch (before ++ r :: after) := by
  obtain ⟨htexts, htakes⟩ := writable_singleton.mp hr
  constructor
  · intro q hq
    rcases List.mem_append.mp hq with hq | hq
    · exact h.1 q (List.mem_append_left _ hq)
    · rcases List.mem_cons.mp hq with rfl | hq
      · exact htexts
      · exact h.1 q (List.mem_append_right _ hq)
  · intro q hq
    rcases mem_lastPerKey_insert hq with rfl | hq
    · exact htakes
    · exact h.2 q hq

end

end CsvProductUploader

import CsvProductUploader.ImportJob.ProductPages
import CsvProductUploader.ImportJob.Streamer
import CsvProductUploader.Lib.Like

/-!
# Searching products by name

`ListProducts` puts the filter text between two percent signs and matches names against it with
`ILIKE`.  The text is not escaped, so its own signs are part of the pattern.

## Main definitions

* `chars` — the characters of a text.
* `CaseRules`, `CaseRules.ilike` — which characters are one but for the case, and `ILIKE`.
* `Selects` — `ListProducts` returns the row, if nothing cuts the result off.
* `Contains` — the name contains the filter text up to letter case.

## Main results

* `selects_iff` — what `ListProducts` selects.
* `search_iff` — filtering is substring search exactly for texts without signs;
  `search_iff_pens` — one filter.
* `not_search` — a percent sign finds every product.
-/

namespace CsvProductUploader

open Checks Like Paging

/-! ### Characters -/

/-- The characters of a text, each as its bytes. -/
def chars (s : GoString) : List GoString := (Utf8.runes s).map Utf8.Rune.bytes

/-- `%`, `_` and the backslash. -/
def signs : Signs GoString := ⟨[0x25], [0x5F], [0x5C], by decide⟩

/-- How the database takes letters of either case for the same; it leaves the signs alone. -/
structure CaseRules where
  lower : GoString → GoString
  keeps : Keeps signs lower

/-- `text ILIKE pattern` -/
def CaseRules.ilike (r : CaseRules) (text pattern : GoString) : Bool :=
  like signs ((chars pattern).map r.lower) ((chars text).map r.lower)

def TextRules.withCase {τ : Type} [LinearOrder τ] (txt : TextRules τ) (r : CaseRules) :
    TextRules τ := { txt with ilike := r.ilike }

/-- The bytes of the signs. -/
def signBytes : GoString := [0x25, 0x5F, 0x5C]

/-- No byte of the text is a sign. -/
def Unsigned (s : GoString) : Prop := ∀ b ∈ s, b ∉ signBytes

instance (s : GoString) : Decidable (Unsigned s) := List.decidableBAll (· ∉ signBytes) s

theorem isSeq_of_mem_chars {s : GoString} (h : Utf8.Valid s) {c : GoString} (hc : c ∈ chars s) :
    Utf8.IsSeq c := by
  obtain ⟨r, hr, rfl⟩ := List.mem_map.mp hc
  rcases Utf8.runes_spec hr with ⟨-, hseq⟩ | ⟨hstray, -⟩
  · exact hseq
  · rw [h r hr] at hstray
    cases hstray

theorem chars_flatten {cs : List GoString} (h : ∀ c ∈ cs, Utf8.IsSeq c) :
    chars cs.flatten = cs := by
  rw [chars, Utf8.runes_flatten h, List.map_map]
  exact List.map_id cs

theorem flatten_chars (s : GoString) : (chars s).flatten = s := by
  rw [chars, ← List.flatMap_def]
  exact Utf8.flatMap_runes s

/-- A sign among the bytes of a text is one of its characters. -/
theorem plain_chars_iff {s : GoString} (h : Utf8.Valid s) : Plain signs (chars s) ↔ Unsigned s := by
  have hsign : ∀ c ∈ chars s, (c ≠ [0x25] ∧ c ≠ [0x5F] ∧ c ≠ [0x5C]) ↔
      ∀ b ∈ c, b ∉ signBytes := by
    intro c hc
    -- The signs are ASCII: a character of several bytes holds none of them.
    rcases (isSeq_of_mem_chars h hc).ascii_or with ⟨b, rfl, -⟩ | hhigh
    · simp [signBytes]
    · refine iff_of_true ⟨?_, ?_, ?_⟩ fun b hb hmem => ?_
      · rintro rfl
        exact hhigh 0x25 List.mem_cons_self (by decide)
      · rintro rfl
        exact hhigh 0x5F List.mem_cons_self (by decide)
      · rintro rfl
        exact hhigh 0x5C List.mem_cons_self (by decide)
      · refine hhigh b hb ?_
        simp only [signBytes, List.mem_cons, List.not_mem_nil, or_false] at hmem
        rcases hmem with rfl | rfl | rfl <;> decide
  constructor
  · intro hplain b hb
    rw [← flatten_chars s] at hb
    obtain ⟨c, hc, hbc⟩ := List.mem_flatten.mp hb
    exact (hsign c hc).mp (hplain c hc) b hbc
  · intro hunsigned c hc
    refine (hsign c hc).mpr fun b hb => hunsigned b ?_
    rw [← flatten_chars s]
    exact List.mem_flatten.mpr ⟨c, hc, hb⟩

/-- The characters of the pattern. -/
theorem chars_pattern {s : GoString} (h : Utf8.Valid s) :
    chars (lit "%" ++ s ++ lit "%") = search signs (chars s) := by
  have hsplit : lit "%" ++ s ++ lit "%" = (search signs (chars s)).flatten := by
    rw [search, List.cons_append, List.flatten_cons, List.flatten_append, flatten_chars]
    rfl
  rw [hsplit, chars_flatten]
  intro c hc
  rcases List.mem_cons.mp hc with rfl | hc
  · exact Utf8.isSeq_of_ascii (by decide)
  · rcases List.mem_append.mp hc with hc | hc
    · exact isSeq_of_mem_chars h hc
    · rw [List.mem_singleton.mp hc]
      exact Utf8.isSeq_of_ascii (by decide)

/-! ### Selection -/

section
variable {τ : Type} [LinearOrder τ] (txt : TextRules τ) (d : Dialect) (s : Sorter ProjectedRow)

/-- `ListProducts`, with a limit that is not reached, returns the row. -/
def Selects (p : ProductProjection) (jobID filterName : GoString) (row : ProjectedRow) : Prop :=
  ∃ res, listProducts txt d s p jobID ⟨filterName, [], [], p.rows.length, 0⟩ = .ok res ∧
    row.data ∈ res.1

variable {txt d s}

/-- **What `ListProducts` selects.** -/
theorem selects_iff {p : ProductProjection} {jobID filterName : GoString} {row : ProjectedRow}
    (hrow : row ∈ p.rows) :
    Selects txt d s p jobID filterName row ↔
      ∃ id, d.castUUID jobID = some id ∧ storable filterName ∧ row.sourceJobID = some id ∧
        (filterName = [] ∨ txt.ilike row.name (lit "%" ++ filterName ++ lit "%") = true) := by
  -- The answer holds data without keys, but the keys of the projection are all different.
  have hmem : ∀ id, row.data ∈ (window p.rows.length 0 (ordered txt p id filterName [] [])).map
      ProjectedRow.data ↔ row ∈ matching txt p id filterName := by
    intro id
    have hperm := (ordered_spec txt p id filterName [] []).1
    have hwindow : window p.rows.length 0 (ordered txt p id filterName [] []) =
        ordered txt p id filterName [] [] := by
      refine List.take_of_length_le ?_
      rw [List.drop_zero, hperm.length_eq]
      exact List.length_filter_le _ _
    rw [hwindow, ← hperm.mem_iff, List.mem_map]
    constructor
    · rintro ⟨row', hrow', hdata⟩
      have hkey : row'.key = row.key :=
        congrArg (fun v : ProductData => (v.merchantID, v.productID)) hdata
      have hrows := List.mem_of_mem_filter (hperm.mem_iff.mp hrow')
      rwa [← List.inj_on_of_nodup_map p.nodup hrows hrow hkey]
    · exact fun hrow' => ⟨row, hrow', rfl⟩
  have hsome : ∀ id, row ∈ matching txt p id filterName ↔ row.sourceJobID = some id ∧
      (filterName = [] ∨ txt.ilike row.name (lit "%" ++ filterName ++ lit "%") = true) := by
    intro id
    rw [matching, List.mem_filter, decide_eq_true_eq]
    exact and_iff_right hrow
  constructor
  · rintro ⟨res, hres, hdata⟩
    obtain ⟨id, hid, hstorable, rfl⟩ := (listProducts_eq_ok_iff txt).mp hres
    exact ⟨id, hid, hstorable, (hsome id).mp ((hmem id).mp hdata)⟩
  · rintro ⟨id, hid, hstorable, hmatch⟩
    exact ⟨_, (listProducts_eq_ok_iff txt).mpr ⟨id, hid, hstorable, rfl⟩,
      (hmem id).mpr ((hsome id).mpr hmatch)⟩

end

/-- The name contains the filter text up to letter case; no name contains what the database does
not take for a text. -/
def Contains (r : CaseRules) (name filterName : GoString) : Prop :=
  storable filterName ∧ (chars filterName).map r.lower <:+: (chars name).map r.lower

/-- A name that the filter finds: a letter for every wildcard, and what is escaped as it is. -/
def sampleName (filterName : GoString) : GoString :=
  (sample signs [0x61] (chars filterName)).flatten

theorem chars_sampleName {filterName : GoString} (h : storable filterName) :
    chars (sampleName filterName) = sample signs [0x61] (chars filterName) ∧
      storable (sampleName filterName) := by
  have hmem : ∀ c ∈ sample signs [0x61] (chars filterName), Utf8.IsSeq c ∧ 0 ∉ c := by
    intro c hc
    rcases mem_sample hc with rfl | rfl | hc
    · exact ⟨Utf8.isSeq_of_ascii (by decide), by decide⟩
    · exact ⟨Utf8.isSeq_of_ascii (by decide), by decide⟩
    · refine ⟨isSeq_of_mem_chars h.1 hc, fun hzero => h.2 ?_⟩
      rw [← flatten_chars filterName]
      exact List.mem_flatten.mpr ⟨c, hc, hzero⟩
  refine ⟨chars_flatten fun c hc => (hmem c hc).1, fun rune hrune => ?_, fun hzero => ?_⟩
  · rw [sampleName, Utf8.runes_flatten fun c hc => (hmem c hc).1] at hrune
    obtain ⟨c, -, rfl⟩ := List.mem_map.mp hrune
    rfl
  · obtain ⟨c, hc, hzero⟩ := List.mem_flatten.mp hzero
    exact (hmem c hc).2 hzero

/-- A table of one row. -/
def oneRow (row : ProjectedRow) : ProductProjection := ⟨[row], List.nodup_singleton _⟩

section
variable {τ : Type} [LinearOrder τ]

/-- **Filtering is substring search exactly for texts without signs.** -/
theorem search_iff (txt : TextRules τ) (d : Dialect) (r : CaseRules) {jobID id : GoString}
    (hid : d.castUUID jobID = some id) (filterName : GoString) :
    (∀ (s : Sorter ProjectedRow) (p : ProductProjection), ∀ row ∈ p.rows,
      row.sourceJobID = some id → storable row.name →
        (Selects (txt.withCase r) d s p jobID filterName row ↔ Contains r row.name filterName)) ↔
      (storable filterName → Unsigned filterName) := by
  constructor
  · intro h hstorable
    obtain ⟨hchars, hname⟩ := chars_sampleName hstorable
    -- One row with a name made for the filter text tells whether it has signs.
    have hiff := h (insertionSorter _)
      (oneRow ⟨lit "m", lit "p", sampleName filterName, 0, lit "USD", none, some id⟩) _
      List.mem_cons_self rfl hname
    have hselects := hiff.mp ((selects_iff List.mem_cons_self).mpr
      ⟨id, hid, hstorable, rfl, Or.inr ?_⟩)
    · rw [← plain_chars_iff hstorable.1]
      have hfound := hselects.2
      rw [hchars] at hfound
      exact r.keeps.plain_of_infix_sample (by decide) hfound
    · show r.ilike (sampleName filterName) _ = true
      rw [CaseRules.ilike, chars_pattern hstorable.1, hchars]
      exact r.keeps.like_search_sample _ _
  · intro hunsigned s p row hrow hsource hname
    rw [selects_iff hrow]
    constructor
    · rintro ⟨-, -, hstorable, -, hmatch⟩
      refine ⟨hstorable, ?_⟩
      rcases hmatch with rfl | hmatch
      · exact List.nil_infix
      · have hlike : r.ilike row.name (lit "%" ++ filterName ++ lit "%") = true := hmatch
        rw [CaseRules.ilike, chars_pattern hstorable.1] at hlike
        exact (r.keeps.like_search_of_plain
          ((plain_chars_iff hstorable.1).mpr (hunsigned hstorable))).mp hlike
    · rintro ⟨hstorable, hfound⟩
      refine ⟨id, hid, hstorable, hsource, Or.inr ?_⟩
      show r.ilike row.name _ = true
      rw [CaseRules.ilike, chars_pattern hstorable.1]
      exact (r.keeps.like_search_of_plain
        ((plain_chars_iff hstorable.1).mpr (hunsigned hstorable))).mpr hfound

end

/-! ### ASCII letters -/

theorem lowerASCII_eq_iff {b sign : UInt8} (h : sign ∈ signBytes) :
    lowerASCII b = sign ↔ b = sign := by
  have hsign : sign.toNat < 0x41 ∨ 0x5A < sign.toNat ∧ sign.toNat < 0x61 := by
    simp only [signBytes, List.mem_cons, List.not_mem_nil, or_false] at h
    rcases h with rfl | rfl | rfl <;> decide
  unfold lowerASCII
  split
  · next hb =>
    simp only [UInt8.le_iff_toNat_le] at hb
    simp only [← UInt8.toNat_inj, UInt8.toNat_add]
    change 65 ≤ _ ∧ _ ≤ 90 at hb
    change (_ + 32) % 256 = _ ↔ _
    omega
  · exact Iff.rfl

/-- Letters of the ASCII range. -/
def asciiCase : CaseRules where
  lower c := c.map lowerASCII
  keeps c sign hsign := by
    have hbyte : ∃ b ∈ signBytes, sign = [b] := by
      simp only [signs, List.mem_cons, List.not_mem_nil, or_false] at hsign
      rcases hsign with rfl | rfl | rfl
      · exact ⟨_, by decide, rfl⟩
      · exact ⟨_, by decide, rfl⟩
      · exact ⟨_, by decide, rfl⟩
    obtain ⟨b, hb, rfl⟩ := hbyte
    rw [List.map_eq_singleton_iff]
    constructor
    · rintro ⟨a, rfl, ha⟩
      rw [(lowerASCII_eq_iff hb).mp ha]
    · rintro rfl
      exact ⟨b, rfl, (lowerASCII_eq_iff hb).mpr rfl⟩

open ProductsHandler (asciiRules castUUID_jobID jobID pens)

/-- The search for `PEN` finds a name that contains it in other letters. -/
theorem search_iff_pens :
    Selects (asciiRules.withCase asciiCase) canonicalDialect (insertionSorter _) pens jobID
      (lit "PEN") (ProductsHandler.plainRow (lit "p4") (lit "Open sign") 80) :=
  ((search_iff asciiRules canonicalDialect asciiCase castUUID_jobID (lit "PEN")).mpr
    (fun _ => by decide +kernel) (insertionSorter _) pens _ (by decide) rfl (by decide)).mpr
    ⟨by decide, by decide +kernel⟩

/-- **A percent sign finds every product**, whether its name contains one or not. -/
theorem not_search :
    ¬∀ (filterName : GoString) (s : Sorter ProjectedRow) (p : ProductProjection),
      filterName ≠ [] → ∀ row ∈ p.rows, row.sourceJobID = some jobID → storable row.name →
        (Selects (asciiRules.withCase asciiCase) canonicalDialect s p jobID filterName row ↔
          Contains asciiCase row.name filterName) := by
  intro h
  have hiff := h (lit "%") (insertionSorter _)
    (oneRow (ProductsHandler.plainRow (lit "p") (lit "Lamp") 900)) (by decide) _
    List.mem_cons_self rfl (by decide)
  have hlike : asciiCase.ilike (lit "Lamp") (lit "%" ++ lit "%" ++ lit "%") = true := by
    decide +kernel
  have hcontains := hiff.mp ((selects_iff List.mem_cons_self).mpr
    ⟨jobID, castUUID_jobID, by decide, rfl, Or.inr hlike⟩)
  exact absurd hcontains.2 (by decide)

end CsvProductUploader

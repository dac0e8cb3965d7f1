import CsvProductUploader.ImportJob.Csv
import CsvProductUploader.Postgres.Projection
import Mathlib.Data.List.Lex

/-!
# Product pages

`ProductsHandler.list` answers one page of the products that an import has projected.  A client
asks for the pages one after another, and the server sorts anew each time.

## Main definitions

* `atoi`, `clampInt` — the numbers among the query parameters.
* `ListQuery`, `list` — the endpoint.
* `pageRows`, `allItems` — the rows that a request pages through, and what its pages up to a
  number show.
* `CutInto` — the pages are these rows cut into pieces.
* `asciiRules` — texts that compare by their bytes.

## Main results

* `clampInt_formatDecimal` — a number within the bounds is read as it is.
* `list_eq_page_iff` — the page that is answered.
* `pages_partition` — the pages are the result cut into pieces, while there are at most
  1,000,000 of them; `pages_partition_pens` — one table.
* `exists_missed`, `not_pages_partition` — of a larger result a product is never shown.
-/

namespace CsvProductUploader

namespace ProductsHandler

open Paging

/-! ### Query parameters -/

/-- `strconv.Atoi` -/
def atoi (s : GoString) : Option ℤ :=
  let (neg, digits) := match s with
    | 0x2D :: t => (true, t)
    | 0x2B :: t => (false, t)
    | t => (false, t)
  if isDigits digits then
    let n : ℤ := if neg then -decimal digits else decimal digits
    if -2 ^ 63 ≤ n ∧ n < 2 ^ 63 then some n else none
  else none

/-- A query parameter as an integer within the bounds. -/
def clampInt (raw : GoString) (default min max : ℤ) : ℤ :=
  if raw = [] then default
  else
    match atoi raw with
    | none => default
    | some n => if n < min then min else if max < n then max else n

theorem clampInt_bounds {raw : GoString} {default min max : ℤ} (hmin : min ≤ default)
    (hmax : default ≤ max) :
    min ≤ clampInt raw default min max ∧ clampInt raw default min max ≤ max := by
  unfold clampInt
  split
  · exact ⟨hmin, hmax⟩
  · split
    · exact ⟨hmin, hmax⟩
    · split_ifs <;> omega

theorem atoi_formatDecimal {n : ℕ} (h : n < 2 ^ 63) : atoi (formatDecimal n) = some ↑n := by
  have hdigits : isDigits (formatDecimal n) = true := by
    simp only [isDigits, Bool.and_eq_true, decide_eq_true_eq, List.all_eq_true]
    exact ⟨formatDecimal_ne_nil n, fun b => isDigit_of_mem_formatDecimal⟩
  have hvalue := decimal_formatDecimal n
  have hsign : ∀ b ∈ formatDecimal n, b ≠ 0x2D ∧ b ≠ 0x2B := by
    intro b hb
    have hdigit := isDigit_of_mem_formatDecimal hb
    constructor
    all_goals
      rintro rfl
      exact absurd hdigit (by decide)
  generalize formatDecimal n = s at *
  unfold atoi
  split
  next neg digits hsplit =>
  split at hsplit
  · exact absurd rfl (hsign _ List.mem_cons_self).1
  · exact absurd rfl (hsign _ List.mem_cons_self).2
  · obtain ⟨rfl, rfl⟩ := Prod.mk.inj hsplit
    simp only [hdigits, hvalue, if_true, Bool.false_eq_true, if_false]
    rw [if_pos (by omega)]

/-- **A number within the bounds is read as it is.** -/
theorem clampInt_formatDecimal {n : ℕ} {default min max : ℤ} (h : n < 2 ^ 63) (hmin : min ≤ n) :
    clampInt (formatDecimal n) default min max = if max < n then max else ↑n := by
  rw [clampInt, if_neg (formatDecimal_ne_nil n), atoi_formatDecimal h]
  simp only
  rw [if_neg (by omega)]

/-! ### The endpoint -/

/-- The path and the query parameters of a request. -/
structure ListQuery where
  id : GoString
  page : GoString := []
  limit : GoString := []
  sortBy : GoString := []
  sortOrder : GoString := []
  filterName : GoString := []
  deriving DecidableEq, Repr

structure ProductResponse where
  merchantID : GoString
  productID : GoString
  name : GoString
  priceCents : ℤ
  currency : GoString
  expirationDate : Option GoString
  deriving DecidableEq, Repr

inductive ListResponse
  | error (status : ℕ) (text : String)
  | page (items : List ProductResponse) (page limit : ℤ) (total : ℕ) (totalPages : ℤ)
  deriving DecidableEq, Repr

def ListResponse.items : ListResponse → List ProductResponse
  | .error _ _ => []
  | .page items _ _ _ _ => items

def productResponse (p : ProductData) : ProductResponse where
  merchantID := p.merchantID
  productID := p.productID
  name := p.name
  priceCents := p.priceCents
  currency := p.currency
  expirationDate := if p.expirationDate ≠ [] then some p.expirationDate else none

/-- The `switch` over `sortBy`. -/
def sortByOf (sortBy : GoString) : GoString :=
  if sortBy ∈ [lit "name", lit "price", lit "expiration"] then sortBy else lit "name"

def sortOrderOf (sortOrder : GoString) : GoString :=
  if sortOrder ≠ lit "ASC" ∧ sortOrder ≠ lit "DESC" then lit "ASC" else sortOrder

def totalPagesOf (total : ℕ) (limit : ℤ) : ℤ :=
  if 0 < total then (total + limit - 1) / limit else 0

section
variable {τ : Type} [LinearOrder τ] (txt : TextRules τ) (d : Dialect)

/-- `ProductsHandler.list`, where the server sorts as `s` does. -/
def list (s : Sorter ProjectedRow) (p : ProductProjection) (req : ListQuery) : ListResponse :=
  if isUUID req.id = false then .error 400 "invalid import id"
  else
    let page := clampInt req.page 1 1 1000000
    let limit := clampInt req.limit 20 1 100
    match listProducts txt d s p req.id
        ⟨req.filterName, sortByOf req.sortBy, sortOrderOf req.sortOrder, limit, (page - 1) * limit⟩
      with
    | .error _ => .error 500 "loading products failed"
    | .ok (products, total) =>
      .page (products.map productResponse) page limit total (totalPagesOf total limit)

/-- The rows of which a request shows a page, in its order. -/
def pageRows (p : ProductProjection) (id : GoString) (req : ListQuery) : List ProjectedRow :=
  ordered txt p id req.filterName (sortByOf req.sortBy) (sortOrderOf req.sortOrder)

/-- A row as it is shown. -/
def response (row : ProjectedRow) : ProductResponse := productResponse row.data

variable {txt d}

theorem pageRows_perm (p : ProductProjection) (id : GoString) (req : ListQuery) :
    (pageRows txt p id req).Perm (matching txt p id req.filterName) :=
  (ordered_spec txt p id req.filterName (sortByOf req.sortBy) (sortOrderOf req.sortOrder)).1

/-- No product is among the rows twice. -/
theorem nodup_pageRows (p : ProductProjection) (id : GoString) (req : ListQuery) :
    ((pageRows txt p id req).map ProjectedRow.key).Nodup :=
  ((pageRows_perm p id req).map _).nodup_iff.mpr
    (p.nodup.sublist (List.Sublist.map _ List.filter_sublist))

/-- **The page that is answered.** -/
theorem list_eq_page_iff {s : Sorter ProjectedRow} {p : ProductProjection} {req : ListQuery}
    {items : List ProductResponse} {page limit : ℤ} {total : ℕ} {totalPages : ℤ} :
    list txt d s p req = .page items page limit total totalPages ↔
      isUUID req.id = true ∧ storable req.filterName ∧ ∃ id, d.castUUID req.id = some id ∧
        page = clampInt req.page 1 1 1000000 ∧ limit = clampInt req.limit 20 1 100 ∧
        total = (pageRows txt p id req).length ∧ totalPages = totalPagesOf total limit ∧
        items = (window limit.toNat ((page - 1) * limit).toNat (pageRows txt p id req)).map
          response := by
  unfold list
  split
  · next hid => simp [hid]
  · next hid =>
    rw [Bool.not_eq_false] at hid
    dsimp only
    split
    · -- The store refuses nothing but a job id or a filter that is no text of the database.
      next err herr =>
      refine iff_of_false ListResponse.noConfusion ?_
      rintro ⟨-, hstorable, id, hcast, -⟩
      have hok := (listProducts_eq_ok_iff (s := s) (p := p)
        (q := ⟨req.filterName, sortByOf req.sortBy, sortOrderOf req.sortOrder,
          clampInt req.limit 20 1 100,
          (clampInt req.page 1 1 1000000 - 1) * clampInt req.limit 20 1 100⟩) txt).mpr
        ⟨id, hcast, hstorable, rfl⟩
      rw [herr] at hok
      cases hok
    · next products total' hok =>
      obtain ⟨id, hcast, hstorable, hres⟩ := (listProducts_eq_ok_iff txt).mp hok
      obtain ⟨rfl, rfl⟩ := Prod.mk.inj hres
      rw [List.map_map]
      constructor
      · intro heq
        obtain ⟨rfl, rfl, rfl, rfl, rfl⟩ := ListResponse.page.inj heq
        exact ⟨hid, hstorable, id, hcast, rfl, rfl, rfl, rfl, rfl⟩
      · rintro ⟨-, -, id', hcast', rfl, rfl, rfl, rfl, rfl⟩
        obtain rfl := Option.some.inj (hcast.symm.trans hcast')
        rfl

theorem totalPagesOf_eq {total L : ℕ} (hL : 0 < L) :
    totalPagesOf total L = ↑(pageCount L total) := by
  unfold totalPagesOf pageCount
  split
  · next htotal =>
    have hcast : (total : ℤ) + L - 1 = ((total + L - 1 : ℕ) : ℤ) := by omega
    rw [hcast]
    exact (Int.natCast_ediv _ _).symm
  · next htotal =>
    have hzero : total = 0 := by omega
    rw [hzero, Nat.div_eq_of_lt (by omega)]
    rfl

/-- What the pages up to a number show, one after another; for each of them the server sorts
anew. -/
def allItems (txt : TextRules τ) (d : Dialect) (s : ℕ → Sorter ProjectedRow) (p : ProductProjection)
    (req : ListQuery) (pages : ℕ) : List ProductResponse :=
  (List.range' 1 pages).flatMap fun n =>
    (list txt d (s n) p { req with page := formatDecimal n }).items

/-- A page by its number, up to the last that can be asked for. -/
theorem list_formatDecimal {s s' : Sorter ProjectedRow} {p : ProductProjection} {req : ListQuery}
    {items : List ProductResponse} {page limit : ℤ} {total : ℕ} {totalPages : ℤ} {id : GoString}
    (h : list txt d s p req = .page items page limit total totalPages)
    (hid : d.castUUID req.id = some id) {n : ℕ} (hn : 1 ≤ n) (hlt : n < 2 ^ 63) :
    list txt d s' p { req with page := formatDecimal n } =
      .page ((window limit.toNat ((min n 1000000 - 1) * limit.toNat) (pageRows txt p id req)).map
        response) (min n 1000000) limit total totalPages := by
  obtain ⟨huuid, hstorable, id', hid', -, hlimit, htotal, hpages, -⟩ := list_eq_page_iff.mp h
  obtain rfl := Option.some.inj (hid.symm.trans hid')
  have hbounds := @clampInt_bounds req.limit 20 1 100 (by omega) (by omega)
  rw [← hlimit] at hbounds
  -- The number is read back, and clamped at the top only.
  have hpage : clampInt (formatDecimal n) 1 1 1000000 = ((min n 1000000 : ℕ) : ℤ) := by
    rw [clampInt_formatDecimal hlt (by omega)]
    split <;> omega
  refine list_eq_page_iff.mpr
    ⟨huuid, hstorable, id, hid, ?_, hlimit, htotal, hpages, ?_⟩
  · rw [hpage]
    omega
  · obtain ⟨L, rfl⟩ := Int.eq_ofNat_of_zero_le (by omega : 0 ≤ limit)
    have hoffset : ((min (n : ℤ) 1000000 - 1) * (L : ℤ)).toNat = (min n 1000000 - 1) * L := by
      have hcast : min (n : ℤ) 1000000 - 1 = ((min n 1000000 - 1 : ℕ) : ℤ) := by omega
      rw [hcast, ← Int.natCast_mul, Int.toNat_natCast]
    rw [hoffset]
    rfl

/-- The pages of a request are the given rows cut into pieces: every matching product once, in
the requested order, and every page but the last full. -/
structure CutInto (txt : TextRules τ) (d : Dialect) (s : ℕ → Sorter ProjectedRow)
    (p : ProductProjection) (id : GoString) (req : ListQuery) (limit : ℤ) (total : ℕ)
    (totalPages : ℤ) (rows : List ProjectedRow) : Prop where
  perm : rows.Perm (matching txt p id req.filterName)
  nodup : (rows.map ProjectedRow.key).Nodup
  sorted : rows.Pairwise fun a b => orderBy txt (projectionSortColumns (sortByOf req.sortBy))
    (sortOrderOf req.sortOrder = lit "DESC") a b = true
  items : allItems txt d s p req totalPages.toNat = rows.map response
  page : ∀ n, 1 ≤ n → n ≤ totalPages.toNat → ∃ items,
    list txt d (s n) p { req with page := formatDecimal n } =
      .page items n limit total totalPages ∧
    (n < totalPages.toNat → items.length = limit.toNat)

/-- **The pages are the result cut into pieces**, while there are at most 1,000,000 of them. -/
theorem pages_partition {s : ℕ → Sorter ProjectedRow} {s₀ : Sorter ProjectedRow}
    {p : ProductProjection} {req : ListQuery} {items : List ProductResponse} {page limit : ℤ}
    {total : ℕ} {totalPages : ℤ}
    (hfirst : list txt d s₀ p req = .page items page limit total totalPages)
    (hpages : totalPages ≤ 1000000) :
    (1 ≤ limit ∧ limit ≤ 100 ∧
      ∀ l : ℕ, 1 ≤ l → l ≤ 100 → req.limit = formatDecimal l → limit = l) ∧
    ∃ id rows, d.castUUID req.id = some id ∧
      CutInto txt d s p id req limit total totalPages rows := by
  obtain ⟨-, -, id, hid, -, hlimit, htotal, hcount, -⟩ := list_eq_page_iff.mp hfirst
  have hbounds := @clampInt_bounds req.limit 20 1 100 (by omega) (by omega)
  rw [← hlimit] at hbounds
  refine ⟨⟨hbounds.1, hbounds.2, fun l hl hl' hreq => ?_⟩, id, pageRows txt p id req, hid, ?_⟩
  · rw [hlimit, hreq, clampInt_formatDecimal (by omega) (by omega), if_neg (by omega)]
  obtain ⟨-, hsorted⟩ := ordered_spec txt p id req.filterName (sortByOf req.sortBy)
    (sortOrderOf req.sortOrder)
  obtain ⟨L, rfl⟩ := Int.eq_ofNat_of_zero_le (by omega : 0 ≤ limit)
  have hL : 0 < L := by omega
  have hN : totalPages.toNat = pageCount L total := by
    rw [hcount, totalPagesOf_eq hL, Int.toNat_natCast]
  -- Below the cap no page number is clamped, so each page is its own window.
  have hpage : ∀ n, 1 ≤ n → n ≤ totalPages.toNat →
      list txt d (s n) p { req with page := formatDecimal n } =
        .page ((window L ((n - 1) * L) (pageRows txt p id req)).map response) n L total
          totalPages := by
    intro n hn hle
    have hmin : min n 1000000 = n := by omega
    rw [list_formatDecimal hfirst hid hn (by omega), hmin, Int.toNat_natCast]
    congr 1
    omega
  refine ⟨pageRows_perm p id req, nodup_pageRows p id req, hsorted, ?_, fun n hn hle => ?_⟩
  · have hitems : ∀ n ∈ List.range' 1 totalPages.toNat,
        (list txt d (s n) p { req with page := formatDecimal n }).items =
          (window L ((n - 1) * L) (pageRows txt p id req)).map response := by
      intro n hn
      obtain ⟨hge, hlt⟩ := List.mem_range'_1.mp hn
      rw [hpage n hge (by omega)]
      rfl
    rw [allItems, List.flatMap_congr hitems, List.range'_eq_map_range, List.flatMap_map,
      ← List.map_flatMap, hN, htotal]
    congr 1
    simp only [Nat.add_sub_cancel_left]
    exact flatMap_window hL _
  · refine ⟨_, hpage n hn hle, fun hlt => ?_⟩
    obtain ⟨i, rfl⟩ := Nat.exists_eq_add_of_le' hn
    rw [List.length_map, Nat.add_sub_cancel, Int.toNat_natCast]
    rw [hN, htotal] at hlt
    exact (length_window hL (by omega)).2 hlt

/-- **Behind page 1,000,000 a product is never shown**, whatever pages are asked for. -/
theorem exists_missed {s : ℕ → Sorter ProjectedRow} {s₀ : Sorter ProjectedRow}
    {p : ProductProjection} {req : ListQuery} {items : List ProductResponse} {page limit : ℤ}
    {total : ℕ} {totalPages : ℤ} {id : GoString}
    (hfirst : list txt d s₀ p req = .page items page limit total totalPages)
    (hid : d.castUUID req.id = some id) (htotal : 1000000 * limit < total) {pages : ℕ}
    (hpages : pages < 2 ^ 63 - 1) :
    ∃ row ∈ matching txt p id req.filterName, response row ∉ allItems txt d s p req pages := by
  obtain ⟨-, -, id', hid', -, hlimit, hlength, -⟩ := list_eq_page_iff.mp hfirst
  obtain rfl := Option.some.inj (hid.symm.trans hid')
  have hbounds := @clampInt_bounds req.limit 20 1 100 (by omega) (by omega)
  rw [← hlimit] at hbounds
  obtain ⟨L, rfl⟩ := Int.eq_ofNat_of_zero_le (by omega : 0 ≤ limit)
  have hlt : 1000000 * L < (pageRows txt p id req).length := by omega
  -- The first row behind the last page that can be asked for.
  refine ⟨(pageRows txt p id req)[1000000 * L], (pageRows_perm p id req).mem_iff.mp
    (List.getElem_mem hlt), fun hmem => ?_⟩
  obtain ⟨n, hn, hitem⟩ := List.mem_flatMap.mp hmem
  obtain ⟨hge, hle⟩ := List.mem_range'_1.mp hn
  rw [list_formatDecimal hfirst hid hge (by omega), Int.toNat_natCast] at hitem
  obtain ⟨row, hrow, hsame⟩ := List.mem_map.mp hitem
  have hkey : row.key = (pageRows txt p id req)[1000000 * L].key :=
    congrArg (fun r : ProductResponse => (r.merchantID, r.productID)) hsame
  have hshown : row.key ∈ ((pageRows txt p id req).map ProjectedRow.key).take (1000000 * L) := by
    have hend : (min n 1000000 - 1) * L + L ≤ 1000000 * L := by
      rw [← Nat.succ_mul]
      exact Nat.mul_le_mul_right L (by omega)
    rw [← List.map_take]
    exact List.mem_map_of_mem (mem_take_of_mem_window hrow hend)
  have hbehind : row.key ∈ ((pageRows txt p id req).map ProjectedRow.key).drop (1000000 * L) := by
    rw [hkey, ← List.map_drop, List.drop_eq_getElem_cons hlt]
    exact List.mem_cons_self
  exact List.disjoint_take_drop (nodup_pageRows p id req) le_rfl hshown hbehind

end

/-! ### Two tables -/

/-- `ILIKE`, for texts of ASCII characters. -/
def likeASCII : GoString → GoString → Bool
  | [], text => text = []
  | 0x25 :: pattern, text => text.tails.any fun rest => likeASCII pattern rest
  | 0x5F :: pattern, _ :: text => likeASCII pattern text
  | 0x5C :: c :: pattern, b :: text => upperASCII b = upperASCII c && likeASCII pattern text
  | c :: pattern, b :: text => upperASCII b = upperASCII c && likeASCII pattern text
  | _ :: _, [] => false

/-- Texts by their bytes. -/
def asciiRules : TextRules (List ℕ) where
  sortKey s := s.map UInt8.toNat
  injective := List.map_injective_iff.mpr fun _ _ h => UInt8.toNat_inj.mp h
  ilike text pattern := likeASCII pattern text

def jobID : GoString := lit "00000000-0000-4000-8000-000000000000"

/-- The row of a product of the import, without an expiration date. -/
def plainRow (productID name : GoString) (priceCents : ℤ) : ProjectedRow :=
  ⟨lit "m", productID, name, priceCents, lit "USD", none, some jobID⟩

def pens : ProductProjection where
  rows := [plainRow (lit "p1") (lit "Pen") 120, plainRow (lit "p2") (lit "Lamp") 900,
    plainRow (lit "p3") (lit "pencil") 80, plainRow (lit "p4") (lit "Open sign") 80]
  nodup := by decide

/-- Three of the four rows match, two of them at one price. -/
theorem pages_partition_pens : ∃ rows,
    CutInto asciiRules canonicalDialect (fun _ => insertionSorter ProjectedRow) pens jobID
      { id := jobID, limit := lit "2", sortBy := lit "price", filterName := lit "pen" } 2 3 2
      rows := by
  have hfirst : list asciiRules canonicalDialect (insertionSorter ProjectedRow) pens
      { id := jobID, limit := lit "2", sortBy := lit "price", filterName := lit "pen" } =
      .page [response (plainRow (lit "p3") (lit "pencil") 80),
        response (plainRow (lit "p4") (lit "Open sign") 80)] 1 2 3 2 := by decide +kernel
  obtain ⟨-, id, rows, hid, hcut⟩ :=
    pages_partition (s := fun _ => insertionSorter ProjectedRow) hfirst (by decide)
  have hjob : canonicalDialect.castUUID jobID = some jobID := by decide +kernel
  obtain rfl := Option.some.inj (hjob.symm.trans hid)
  exact ⟨rows, hcut⟩

/-- A table with that many products of one import. -/
def numbered (n : ℕ) : ProductProjection where
  rows := (List.range n).map fun i => plainRow (formatDecimal i) (lit "Pen") 120
  nodup := by
    rw [List.map_map]
    refine List.nodup_range.map fun i j h => ?_
    have hdigits : formatDecimal i = formatDecimal j := (Prod.mk.inj h).2
    rw [← decimal_formatDecimal i, hdigits, decimal_formatDecimal]

/-- The pages of one product each. -/
def singles : ListQuery := { id := jobID, limit := lit "1" }

theorem castUUID_jobID : canonicalDialect.castUUID jobID = some jobID := by decide +kernel

theorem list_numbered (s : Sorter ProjectedRow) (n : ℕ) : ∃ items,
    list asciiRules canonicalDialect s (numbered n) singles =
      .page items 1 1 n (totalPagesOf n 1) := by
  have hall : matching asciiRules (numbered n) jobID singles.filterName = (numbered n).rows := by
    refine List.filter_eq_self.mpr fun row hrow => ?_
    obtain ⟨i, -, rfl⟩ := List.mem_map.mp hrow
    simp [plainRow, singles]
  have hlength : (pageRows asciiRules (numbered n) jobID singles).length = n := by
    rw [(pageRows_perm (numbered n) jobID singles).length_eq, hall, numbered, List.length_map,
      List.length_range]
  exact ⟨_, list_eq_page_iff.mpr ⟨by decide +kernel, by decide, jobID, castUUID_jobID, rfl,
    by decide +kernel, hlength.symm, rfl, rfl⟩⟩

/-- **The pages of a larger result leave a product out.** -/
theorem not_pages_partition :
    ¬∀ (s : ℕ → Sorter ProjectedRow) (p : ProductProjection) (req : ListQuery)
      (items : List ProductResponse) (page limit : ℤ) (total : ℕ) (totalPages : ℤ) (id : GoString),
      list asciiRules canonicalDialect (s 0) p req = .page items page limit total totalPages →
      canonicalDialect.castUUID req.id = some id →
      (allItems asciiRules canonicalDialect s p req totalPages.toNat).Perm
        ((matching asciiRules p id req.filterName).map response) := by
  intro h
  obtain ⟨items, hfirst⟩ := list_numbered (insertionSorter ProjectedRow) 1000001
  have hperm := h (fun _ => insertionSorter ProjectedRow) _ singles _ _ _ _ _ jobID hfirst
    castUUID_jobID
  obtain ⟨row, hrow, hmissed⟩ := exists_missed (s := fun _ => insertionSorter ProjectedRow) hfirst
    castUUID_jobID (by omega) (by decide : (totalPagesOf 1000001 1).toNat < 2 ^ 63 - 1)
  exact hmissed (hperm.mem_iff.mpr (List.mem_map_of_mem hrow))

end ProductsHandler

end CsvProductUploader

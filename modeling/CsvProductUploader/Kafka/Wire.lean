import CsvProductUploader.ImportJob.ProductPages
import CsvProductUploader.ImportJob.Published
import CsvProductUploader.Lib.JsonStruct
import CsvProductUploader.Timestamp

/-!
# Product events on the wire

A product event is the value of a Kafka record as JSON.  Times are in UTC, as the program
makes them.

## Main definitions

* `ProductImported.marshal` — `json.Marshal(evt)`.
* `ProductImported.unmarshal` — `json.Unmarshal(value, &evt)`.

## Main results

* `unmarshal_marshal`, `marshal_bind_unmarshal` — the decoded event is the event with its
  texts made valid UTF-8, which is what `ProductImported.decoded` says.
* `unmarshal_of_known` — members that the program does not know change nothing.
-/

namespace CsvProductUploader

open Json

/-! ### Encoding -/

/-- An `int64`. -/
def Int64Range (n : ℤ) : Prop := -2 ^ 63 ≤ n ∧ n < 2 ^ 63

instance (n : ℤ) : Decidable (Int64Range n) := inferInstanceAs (Decidable (_ ∧ _))

/-- `strconv.FormatInt(n, 10)` -/
def formatInt (n : ℤ) : GoString :=
  if n < 0 then 0x2D :: formatDecimal n.natAbs else formatDecimal n.natAbs

/-- A string member. -/
def stringMember (name : String) (s : GoString) : GoString × Value :=
  (quote (lit name), .string (quote s))

/-- An integer member. -/
def intMember (name : String) (n : ℤ) : GoString × Value :=
  (quote (lit name), .number (formatInt n))

def ProductData.members (p : ProductData) : List (GoString × Value) :=
  [stringMember "merchant_id" p.merchantID, stringMember "product_id" p.productID,
    stringMember "name" p.name, intMember "price_cents" p.priceCents,
    stringMember "currency" p.currency] ++
    -- `omitempty`
    if p.expirationDate = [] then [] else [stringMember "expiration_date" p.expirationDate]

/-- The members of an event, given the text of its time and the members of its product. -/
def ProductImported.members (evt : ProductImported) (stamp : GoString)
    (product : List (GoString × Value)) : List (GoString × Value) :=
  [stringMember "job_id" evt.jobID, intMember "row_num" evt.rowNum,
    (quote (lit "produced_at"), .string stamp), (quote (lit "product"), .object product)]

/-- `json.Marshal(evt)`; it fails if the time cannot be encoded. -/
def ProductImported.marshal (evt : ProductImported) : Option GoString :=
  (formatTimestamp evt.producedAt).map fun stamp =>
    encode (.object (evt.members stamp evt.product.members))

/-! ### Decoding -/

/-- A value in a field that is an `int64`. -/
def storeInt : Value → ℤ → Option ℤ
  | .null, n => some n
  | .number text, _ => ProductsHandler.atoi text
  | _, _ => none

/-- `Time.UnmarshalJSON`; escapes within the string are not undone. -/
def storeTime : Value → ℤ → Option ℤ
  | .null, t => some t
  | .string text, _ => parseTimestamp text
  | _, _ => none

def ProductData.fields : List (StructField ProductData) :=
  [⟨lit "merchant_id", fun v p => (storeString v p.merchantID).map ({ p with merchantID := · })⟩,
    ⟨lit "product_id", fun v p => (storeString v p.productID).map ({ p with productID := · })⟩,
    ⟨lit "name", fun v p => (storeString v p.name).map ({ p with name := · })⟩,
    ⟨lit "price_cents", fun v p => (storeInt v p.priceCents).map ({ p with priceCents := · })⟩,
    ⟨lit "currency", fun v p => (storeString v p.currency).map ({ p with currency := · })⟩,
    ⟨lit "expiration_date",
      fun v p => (storeString v p.expirationDate).map ({ p with expirationDate := · })⟩]

def ProductImported.fields : List (StructField ProductImported) :=
  [⟨lit "job_id", fun v evt => (storeString v evt.jobID).map ({ evt with jobID := · })⟩,
    ⟨lit "row_num", fun v evt => (storeInt v evt.rowNum).map ({ evt with rowNum := · })⟩,
    ⟨lit "produced_at",
      fun v evt => (storeTime v evt.producedAt).map ({ evt with producedAt := · })⟩,
    ⟨lit "product",
      fun v evt => (storeStruct ProductData.fields v evt.product).map ({ evt with product := · })⟩]

/-- The zero value, whose time is the first instant of year 1. -/
def ProductImported.zero : ProductImported :=
  ⟨[], 0, -62135596800 * 1000000000, ⟨[], [], [], 0, [], []⟩⟩

/-- `json.Unmarshal(value, &evt)`, into a new event. -/
def ProductImported.unmarshal (value : GoString) : Option ProductImported :=
  (parse value).bind fun v => storeStruct ProductImported.fields v .zero

/-! ### What is encoded fits -/

theorem next_digit {b : UInt8} (h : isDigit b = true) :
    Part.next .int b = some .int := by
  have hb : b < 0x80 := (ascii_of_isDigit h).2
  revert h
  exact forall_ascii
    (P := fun b => isDigit b = true → Part.next .int b = some .int)
    (by decide) hb

/-- The digits of a number that is not 0 do not begin with 0. -/
theorem formatFrom_head {k n : ℕ} (hle : n ≤ k) (hpos : 0 < n) :
    ∃ b t, formatFrom k n = b :: t ∧ Part.first b = some .int ∧
      ∀ c ∈ t, isDigit c = true := by
  induction k generalizing n with
  | zero => omega
  | succ k ih =>
    unfold formatFrom
    split
    · next hlt =>
      refine ⟨digit n, [], rfl, ?_, fun c hc => absurd hc List.not_mem_nil⟩
      have hall : ∀ m < 10, 0 < m → Part.first (digit m) = some .int := by decide
      exact hall n hlt hpos
    · obtain ⟨b, t, heq, hfirst, hdigits⟩ := ih (n := n / 10) (by omega) (by omega)
      refine ⟨b, t ++ [digit n], by rw [heq, List.cons_append], hfirst, ?_⟩
      intro c hc
      rcases List.mem_append.mp hc with hc | hc
      · exact hdigits c hc
      · rw [List.mem_singleton.mp hc]
        exact isDigit_digit n

theorem foldlM_digits {s : GoString} (h : ∀ c ∈ s, isDigit c = true) :
    s.foldlM Part.next .int = some .int := by
  induction s with
  | nil => rfl
  | cons c s ih =>
    rw [List.foldlM_cons, next_digit (h c List.mem_cons_self)]
    exact ih fun d hd => h d (List.mem_cons_of_mem c hd)

theorem isNumber_formatInt (n : ℤ) : IsNumber (formatInt n) := by
  have hzero : ∀ m : ℕ, m = 0 → formatDecimal m = [0x30] := by
    rintro m rfl
    decide
  unfold formatInt IsNumber
  rcases Nat.eq_zero_or_pos n.natAbs with h0 | hpos
  · rw [if_neg (by omega), hzero _ h0]
    decide
  · obtain ⟨b, t, heq, hfirst, hdigits⟩ := formatFrom_head (Nat.le_refl n.natAbs) hpos
    rw [formatDecimal, heq]
    -- Behind the sign the digits are read as without it.
    have hint : (b :: t).foldlM Part.next .neg = some .int := by
      have hneg : Part.next .neg b = some .int := by
        unfold Part.first at hfirst
        split_ifs at hfirst with h1 h2 h3 <;> try cases hfirst
        simp [Part.next, h2, h3]
      rw [List.foldlM_cons, hneg]
      exact foldlM_digits hdigits
    split_ifs
    · change ((b :: t).foldlM Part.next .neg).any Part.final = true
      rw [hint]
      rfl
    · change ((Part.first b).bind fun p => t.foldlM Part.next p).any Part.final = true
      rw [hfirst, Option.bind_some, foldlM_digits hdigits]
      rfl

theorem isText_formatTimestamp {t : ℤ} {s : GoString} (h : formatTimestamp t = some s) :
    IsText s := by
  have hbytes : ∀ b ∈ s, b < 0x80 ∧ Scan.next .text b = some .text := by
    intro b hb
    rcases mem_formatTimestamp h hb with hsep | hdigit
    · have hall : ∀ c ∈ lit "-T:.Z", c < 0x80 ∧ Scan.next .text c = some .text := by
        decide
      exact hall b hsep
    · have hlt := (ascii_of_isDigit hdigit).2
      refine ⟨hlt, ?_⟩
      revert hdigit
      exact forall_ascii (P := fun b => isDigit b = true →
        Scan.next .text b = some .text) (by decide) hlt
  clear h
  unfold IsText
  induction s with
  | nil => rfl
  | cons b s ih =>
    rw [List.foldlM_cons, (hbytes b List.mem_cons_self).2]
    exact ih fun c hc => hbytes c (List.mem_cons_of_mem b hc)

theorem fits_product (n : ℕ) (p : ProductData) : Fits (n + 1) (.object p.members) := by
  have hmembers : ∀ m ∈ p.members, IsText m.1 ∧ Fits n m.2 := by
    unfold ProductData.members
    split_ifs <;>
      simp [stringMember, intMember, isText_quote, Fits.string, Fits.number, isNumber_formatInt]
  exact .object (fun m hm => (hmembers m hm).1) fun m hm => (hmembers m hm).2

theorem fits_event (n : ℕ) (evt : ProductImported) {stamp : GoString}
    (h : formatTimestamp evt.producedAt = some stamp) :
    Fits (n + 2) (.object (evt.members stamp evt.product.members)) := by
  have hmembers : ∀ m ∈ evt.members stamp evt.product.members, IsText m.1 ∧ Fits (n + 1) m.2 := by
    simp [ProductImported.members, stringMember, intMember, isText_quote, Fits.string, Fits.number,
      isNumber_formatInt, isText_formatTimestamp h, fits_product]
  exact .object (fun m hm => (hmembers m hm).1) fun m hm => (hmembers m hm).2

/-! ### What is encoded is decoded -/

theorem atoi_formatInt {n : ℤ} (h : Int64Range n) :
    ProductsHandler.atoi (formatInt n) = some n := by
  obtain ⟨hlo, hhi⟩ := h
  unfold formatInt
  split
  · next hneg =>
    have hdigits : isDigits (formatDecimal n.natAbs) = true := by
      simp only [isDigits, Bool.and_eq_true, decide_eq_true_eq, List.all_eq_true]
      exact ⟨formatDecimal_ne_nil _, fun b => isDigit_of_mem_formatDecimal⟩
    have hvalue : -(n.natAbs : ℤ) = n := by omega
    simp only [ProductsHandler.atoi, hdigits, decimal_formatDecimal, if_true, hvalue]
    rw [if_pos ⟨hlo, hhi⟩]
  · have hvalue : (n.natAbs : ℤ) = n := by omega
    rw [ProductsHandler.atoi_formatDecimal (by omega), hvalue]

theorem storeInt_formatInt {n : ℤ} (h : Int64Range n) (m : ℤ) :
    storeInt (.number (formatInt n)) m = some n := atoi_formatInt h

/-- A product is decoded into an empty one. -/
theorem storeMembers_product {p : ProductData} (hprice : Int64Range p.priceCents) :
    storeMembers ProductData.fields p.members ProductImported.zero.product = some p.decoded := by
  -- Member by member; only the last one may be left out.
  have hfirst : ∀ members, storeMembers ProductData.fields
      ([stringMember "merchant_id" p.merchantID, stringMember "product_id" p.productID,
        stringMember "name" p.name, intMember "price_cents" p.priceCents,
        stringMember "currency" p.currency] ++ members) ProductImported.zero.product =
      storeMembers ProductData.fields members { p.decoded with expirationDate := [] } := by
    intro members
    simp only [List.cons_append, List.nil_append, stringMember, intMember]
    rw [storeMembers_field (lit "merchant_id") rfl]
    simp only [storeString_quote, Option.map_some, Option.bind_some]
    rw [storeMembers_field (lit "product_id") rfl]
    simp only [storeString_quote, Option.map_some, Option.bind_some]
    rw [storeMembers_field (lit "name") rfl]
    simp only [storeString_quote, Option.map_some, Option.bind_some]
    rw [storeMembers_field (lit "price_cents") rfl]
    simp only [storeInt_formatInt hprice, Option.map_some, Option.bind_some]
    rw [storeMembers_field (lit "currency") rfl]
    simp only [storeString_quote, Option.map_some, Option.bind_some]
    rfl
  rw [ProductData.members, hfirst]
  split
  · next hnil =>
    simp only [storeMembers, List.foldlM_nil, ProductData.decoded, hnil]
    rfl
  · rw [stringMember, storeMembers_field (lit "expiration_date") rfl]
    simp only [storeString_quote, Option.map_some, Option.bind_some]
    rfl

/-- An event is decoded into a new one, whatever else its product holds. -/
theorem storeMembers_event {evt : ProductImported} {stamp : GoString}
    {product : List (GoString × Value)} (hrow : Int64Range evt.rowNum)
    (hprice : Int64Range evt.product.priceCents)
    (hstamp : formatTimestamp evt.producedAt = some stamp)
    (hproduct : product.filter (known ProductData.fields) = evt.product.members) :
    storeMembers ProductImported.fields (evt.members stamp product) .zero = some evt.decoded := by
  have htime : ∀ t, storeTime (.string stamp) t = some evt.producedAt :=
    fun _ => parseTimestamp_format hstamp
  have hstore : storeStruct ProductData.fields (.object product) ProductImported.zero.product =
      some evt.product.decoded := by
    rw [storeStruct, ← storeMembers_known, hproduct, storeMembers_product hprice]
  simp only [ProductImported.members, stringMember, intMember]
  rw [storeMembers_field (lit "job_id") rfl]
  simp only [storeString_quote, Option.map_some, Option.bind_some]
  rw [storeMembers_field (lit "row_num") rfl]
  simp only [storeInt_formatInt hrow, Option.map_some, Option.bind_some]
  rw [storeMembers_field (lit "produced_at") rfl]
  simp only [htime, Option.map_some, Option.bind_some]
  rw [storeMembers_field (lit "product") rfl]
  simp only [hstore, Option.map_some, Option.bind_some]
  rfl

theorem known_members (p : ProductData) :
    p.members.filter (known ProductData.fields) = p.members := by
  have hmembers : ∀ m ∈ p.members, known ProductData.fields m = true := by
    intro m hm
    unfold ProductData.members at hm
    have hname : ∃ name ∈ ["merchant_id", "product_id", "name", "price_cents", "currency",
        "expiration_date"], m.1 = quote (lit name) := by
      split_ifs at hm <;>
        · simp only [List.cons_append, List.append_nil, List.nil_append, List.mem_cons,
            List.not_mem_nil, or_false] at hm
          rcases hm with rfl | rfl | rfl | rfl | rfl | rfl <;> exact ⟨_, by simp, rfl⟩
    obtain ⟨name, hname, hkey⟩ := hname
    have hall : ∀ name ∈ ["merchant_id", "product_id", "name", "price_cents", "currency",
        "expiration_date"], (StructField.find ProductData.fields
          (unquote (quote (lit name)))).isSome = true := by decide
    rw [known, hkey]
    exact hall name hname
  exact List.filter_eq_self.mpr hmembers

/-- **The decoded event is the event with its texts made valid UTF-8.** -/
theorem unmarshal_marshal {evt : ProductImported} {value : GoString}
    (hrow : Int64Range evt.rowNum) (hprice : Int64Range evt.product.priceCents)
    (h : evt.marshal = some value) : ProductImported.unmarshal value = some evt.decoded := by
  obtain ⟨stamp, hstamp, rfl⟩ := Option.map_eq_some_iff.mp h
  rw [ProductImported.unmarshal, parse_encode (fits_event 9998 evt hstamp), Option.bind_some,
    storeStruct]
  exact storeMembers_event hrow hprice hstamp (known_members evt.product)

/-- The instants of the years 0 to 9999. -/
def FourDigitYear (t : ℤ) : Prop :=
  -epochNanos ≤ t ∧ t < daysBefore 10000 * 86400 * nanosPerSecond - epochNanos

instance (t : ℤ) : Decidable (FourDigitYear t) := inferInstanceAs (Decidable (_ ∧ _))

/-- The events that can be encoded. -/
theorem marshal_isSome_iff (evt : ProductImported) :
    evt.marshal.isSome = true ↔ FourDigitYear evt.producedAt := by
  rw [ProductImported.marshal, Option.isSome_map]
  exact formatTimestamp_isSome_iff evt.producedAt

/-- **An event goes over the wire exactly if its year has four digits**, and arrives as
`decoded` says. -/
theorem marshal_bind_unmarshal (evt : ProductImported) (hrow : Int64Range evt.rowNum)
    (hprice : Int64Range evt.product.priceCents) :
    evt.marshal.bind ProductImported.unmarshal =
      if FourDigitYear evt.producedAt then some evt.decoded else none := by
  have hiff := marshal_isSome_iff evt
  cases hvalue : evt.marshal with
  | none =>
    rw [hvalue] at hiff
    rw [if_neg (fun h => absurd (hiff.mpr h) (by simp))]
    rfl
  | some value =>
    rw [hvalue] at hiff
    rw [if_pos (hiff.mp rfl), Option.bind_some, unmarshal_marshal hrow hprice hvalue]

/-- An event with a quote, a sign that is escaped and a stray byte in its name. -/
def wornEvent : ProductImported where
  jobID := someJobID
  rowNum := 2
  producedAt := 1767323045123400000
  product := {
    merchantID := lit "m", productID := lit "p", name := lit "a\"<" ++ [0xFF], priceCents := 150
    currency := lit "USD", expirationDate := lit "2027-01-31" }

theorem marshal_bind_unmarshal_worn :
    wornEvent.marshal.bind ProductImported.unmarshal = some wornEvent.decoded := by
  rw [marshal_bind_unmarshal wornEvent (by decide) (by decide)]
  decide

/-- **Members that the program does not know change nothing**, wherever they stand in the
event or in its product. -/
theorem unmarshal_of_known {evt : ProductImported} {stamp : GoString}
    {members product : List (GoString × Value)} (hrow : Int64Range evt.rowNum)
    (hprice : Int64Range evt.product.priceCents)
    (hstamp : formatTimestamp evt.producedAt = some stamp)
    (hproduct : product.filter (known ProductData.fields) = evt.product.members)
    (hmembers : members.filter (known ProductImported.fields) = evt.members stamp product)
    (hfits : Fits maxNestingDepth (.object members)) :
    ProductImported.unmarshal (encode (.object members)) = some evt.decoded := by
  rw [ProductImported.unmarshal, parse_encode hfits, Option.bind_some, storeStruct,
    ← storeMembers_known, hmembers]
  exact storeMembers_event hrow hprice hstamp hproduct

/-- The members of an event of a later version: it has a list of its own in front, and its
product a mark. -/
def laterMembers (evt : ProductImported) (stamp : GoString) : List (GoString × Value) :=
  (quote (lit "tags"), .array [.null]) ::
    evt.members stamp ((quote (lit "archived"), .bool true) :: evt.product.members)

theorem unmarshal_of_known_later :
    ProductImported.unmarshal
        (encode (.object (laterMembers wornEvent (lit "2026-01-02T03:04:05.1234Z")))) =
      some wornEvent.decoded := by
  have hfits : Fits maxNestingDepth
      (.object (laterMembers wornEvent (lit "2026-01-02T03:04:05.1234Z"))) := by
    have hproduct : ∀ n, Fits (n + 1)
        (.object ((quote (lit "archived"), .bool true) :: wornEvent.product.members)) := by
      intro n
      cases fits_product n wornEvent.product with
      | object hkeys hvalues =>
        exact .object (List.forall_mem_cons.mpr ⟨isText_quote _, hkeys⟩)
          (List.forall_mem_cons.mpr ⟨.bool true, hvalues⟩)
    refine .object (n := 9999) ?_ ?_
    · simp [laterMembers, ProductImported.members, stringMember, intMember, isText_quote]
    · have hstamp : IsText (lit "2026-01-02T03:04:05.1234Z") := by decide
      have harray : Fits 9999 (.array [.null]) :=
        .array (n := 9998) (List.forall_mem_singleton.mpr .null)
      simp [laterMembers, ProductImported.members, stringMember, intMember, isText_quote,
        Fits.string, Fits.number, isNumber_formatInt, hstamp, harray, hproduct]
  exact unmarshal_of_known (by decide) (by decide) (by decide) rfl rfl hfits

end CsvProductUploader

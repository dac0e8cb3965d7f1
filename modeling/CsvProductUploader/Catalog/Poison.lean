import CsvProductUploader.Catalog.Worker
import CsvProductUploader.Kafka.Wire

/-!
# Job ids in raw records

The worker recovers the job of a record that does not decode by looking for
`"job_id": "<uuid>"` anywhere in its bytes.  The texts of a product come from the uploaded file
and stand in the same bytes.

## Main definitions

* `Silent` — no job id is found from within some bytes.
* `NoColon` — what follows is no colon.
* `payloadOf` — what `parseEvent` makes of a value.

## Main results

* `matchJobID_eq_some_iff` — what the pattern matches.
* `silent_string`, `silent_members` — no text and no member without that key.
* `jobAt_take` — an event, cut off anywhere, counts for no other job than its own.
-/

namespace CsvProductUploader.Catalog

open Json

/-! ### The pattern -/

/-- The bytes of the class `\s`. -/
def Spaces (w : GoString) : Prop := ∀ b ∈ w, b ∈ [0x09, 0x0A, 0x0C, 0x0D, 0x20]

theorem skipSpace_append {w : GoString} (hw : Spaces w) {c : UInt8}
    (hc : c ∉ [0x09, 0x0A, 0x0C, 0x0D, 0x20]) (s : GoString) :
    skipSpace (w ++ c :: s) = c :: s := by
  rw [skipSpace, List.dropWhile_append_of_pos (fun b hb => decide_eq_true (hw b hb)),
    List.dropWhile_cons_of_neg (by simpa using hc)]

theorem skipSpace_spec (s : GoString) : ∃ w, s = w ++ skipSpace s ∧ Spaces w :=
  ⟨s.takeWhile (· ∈ [0x09, 0x0A, 0x0C, 0x0D, 0x20]), List.takeWhile_append_dropWhile.symm,
    fun b hb => by simpa using List.mem_takeWhile_imp hb⟩

theorem length_of_matchShape : ∀ {shape : List Bool} {s : GoString}, matchShape shape s = true →
    s.length = shape.length
  | [], [], _ => rfl
  | [], _ :: _, h => by simp [matchShape] at h
  | _ :: _, [], h => by simp [matchShape] at h
  | true :: shape, c :: s, h => by
    simp only [matchShape, Bool.and_eq_true] at h
    rw [List.length_cons, List.length_cons, length_of_matchShape h.2]
  | false :: shape, c :: s, h => by
    simp only [matchShape, Bool.and_eq_true] at h
    rw [List.length_cons, List.length_cons, length_of_matchShape h.2]

theorem length_of_isUUID {s : GoString} (h : isUUID s = true) : s.length = 36 :=
  length_of_matchShape h

/-- What the pattern matches at the head of the bytes. -/
theorem matchJobID_eq_some_iff {r id : GoString} :
    matchJobID r = some id ↔ ∃ w₁ w₂ t,
      r = lit "\"job_id\"" ++ (w₁ ++ 0x3A :: (w₂ ++ 0x22 :: (id ++ 0x22 :: t))) ∧
        Spaces w₁ ∧ Spaces w₂ ∧ isUUID id = true := by
  constructor
  · intro h
    unfold matchJobID at h
    split at h
    · next hprefix =>
      obtain ⟨s, rfl⟩ := hprefix
      rw [List.drop_left] at h
      obtain ⟨w₁, hs, hw₁⟩ := skipSpace_spec s
      split at h
      · next s₁ hcolon =>
        obtain ⟨w₂, hs₁, hw₂⟩ := skipSpace_spec s₁
        split at h
        · next s₂ hquote =>
          split at h
          · next hid =>
            obtain rfl := Option.some.inj h
            obtain ⟨t, ht⟩ := List.head?_eq_some_iff.mp hid.2
            refine ⟨w₁, w₂, t, ?_, hw₁, hw₂, hid.1⟩
            rw [← ht, List.take_append_drop, ← hquote, ← hs₁, ← hcolon, ← hs]
          · cases h
        · cases h
      · cases h
    · cases h
  · rintro ⟨w₁, w₂, t, rfl, hw₁, hw₂, hid⟩
    -- An identity is 36 bytes long, so that the 36 bytes taken are this one.
    have hlen := length_of_isUUID hid
    have htake : (id ++ 0x22 :: t).take 36 = id := by rw [← hlen, List.take_left]
    have hdrop : (id ++ 0x22 :: t).drop 36 = 0x22 :: t := by rw [← hlen, List.drop_left]
    unfold matchJobID
    rw [if_pos (List.prefix_append _ _), List.drop_left, skipSpace_append hw₁ (by decide)]
    simp only
    rw [skipSpace_append hw₂ (by decide)]
    simp only
    rw [htake, hdrop, if_pos ⟨hid, rfl⟩]

/-- What is matched in bytes that are cut off is matched in the whole, too. -/
theorem matchJobID_append {p id : GoString} (h : matchJobID p = some id) (t : GoString) :
    matchJobID (p ++ t) = some id := by
  obtain ⟨w₁, w₂, t', rfl, hw₁, hw₂, hid⟩ := matchJobID_eq_some_iff.mp h
  refine matchJobID_eq_some_iff.mpr ⟨w₁, w₂, t' ++ t, ?_, hw₁, hw₂, hid⟩
  simp only [List.append_assoc, List.cons_append]

/-- A match is at least as long as the pattern without white space. -/
theorem le_length_of_matchJobID {r id : GoString} (h : matchJobID r = some id) :
    47 ≤ r.length := by
  obtain ⟨w₁, w₂, t, rfl, -, -, hid⟩ := matchJobID_eq_some_iff.mp h
  have hlen := length_of_isUUID hid
  have hkey : (lit "\"job_id\"").length = 8 := by decide
  simp only [List.length_append, List.length_cons, hkey, hlen]
  omega

theorem recoverJobID_eq_some {s id : GoString} (h : recoverJobID s = some id) :
    ∃ r, r <:+ s ∧ matchJobID r = some id := by
  induction s with
  | nil => cases h
  | cons b s ih =>
    unfold recoverJobID at h
    cases hmatch : matchJobID (b :: s) with
    | some id' =>
      rw [hmatch] at h
      exact ⟨b :: s, List.suffix_rfl, hmatch.trans h⟩
    | none =>
      rw [hmatch] at h
      obtain ⟨r, hr, hid⟩ := ih h
      exact ⟨r, hr.trans (List.suffix_cons b s), hid⟩

/-! ### Silence -/

/-- No job id is found from within `p`, if `s` follows. -/
def Silent (p s : GoString) : Prop := ∀ r, r ≠ [] → r <:+ p → matchJobID (r ++ s) = none

/-- What follows is no colon. -/
def NoColon (s : GoString) : Prop := (skipSpace s).head? ≠ some 0x3A

theorem matchJobID_cons {b : UInt8} (h : b ≠ 0x22) (s : GoString) : matchJobID (b :: s) = none := by
  rw [Option.eq_none_iff_forall_ne_some]
  intro id hid
  obtain ⟨w₁, w₂, t, heq, -⟩ := matchJobID_eq_some_iff.mp hid
  exact h (List.cons.inj heq).1

theorem Silent.nil (s : GoString) : Silent [] s :=
  fun _ hne hr => absurd (List.suffix_nil.mp hr) hne

theorem Silent.append {p q s : GoString} (hp : Silent p (q ++ s)) (hq : Silent q s) :
    Silent (p ++ q) s := by
  intro r hne hr
  obtain ⟨x, hx⟩ := hr
  -- The bytes begin within `p` or within `q`.
  rcases List.append_eq_append_iff.mp hx with ⟨a, rfl, rfl⟩ | ⟨a, rfl, rfl⟩
  · rcases eq_or_ne a [] with rfl | ha
    · exact hq _ hne List.suffix_rfl
    · rw [List.append_assoc]
      exact hp a ha (List.suffix_append x a)
  · exact hq r hne (List.suffix_append a r)

/-- Bytes without quotes. -/
theorem silent_of_notMem {p : GoString} (h : 0x22 ∉ p) (s : GoString) : Silent p s := by
  intro r hne hr
  cases r with
  | nil => exact absurd rfl hne
  | cons b r =>
    refine matchJobID_cons ?_ (r ++ s)
    rintro rfl
    exact h (hr.subset List.mem_cons_self)

/-- A quote that no `j` follows. -/
theorem silent_quote {s : GoString} (h : s.head? ≠ some 0x6A) : Silent [0x22] s := by
  intro r hne hr
  obtain rfl : r = [0x22] := by
    rcases List.suffix_cons_iff.mp hr with rfl | hr
    · rfl
    · exact absurd (List.suffix_nil.mp hr) hne
  rw [Option.eq_none_iff_forall_ne_some]
  intro id hid
  obtain ⟨w₁, w₂, t, heq, -⟩ := matchJobID_eq_some_iff.mp hid
  have hs : s = lit "job_id\"" ++ (w₁ ++ 0x3A :: (w₂ ++ 0x22 :: (id ++ 0x22 :: t))) :=
    (List.cons.inj heq).2
  exact h (by rw [hs]; rfl)

/-- The quote at the end of a key. -/
theorem silent_key (s : GoString) : Silent [0x22] (0x3A :: s) := silent_quote (by simp)

/-- Every quote stands behind a backslash. -/
def Bare (u : GoString) : Prop := ∀ x y, u = x ++ 0x22 :: y → ∃ x', x = x' ++ [0x5C]

/-- A text up to its closing quote is told apart from what follows. -/
theorem eq_of_quoted {u x s s' : GoString} (hu : Bare u) (hx : 0x22 ∉ x)
    (hlast : x.getLast? ≠ some 0x5C) (h : u ++ 0x22 :: s = x ++ 0x22 :: s') :
    u = x ∧ s = s' := by
  rcases List.append_eq_append_iff.mp h with ⟨a, ha, hs⟩ | ⟨a, ha, hs⟩
  · cases a with
    | nil => exact ⟨by rw [ha, List.append_nil], (List.cons.inj hs).2⟩
    | cons c a =>
      -- `x` would hold the quote.
      obtain rfl := (List.cons.inj hs).1
      exact absurd (ha ▸ List.mem_append_right u List.mem_cons_self) hx
  · cases a with
    | nil => exact ⟨by rw [ha, List.append_nil], ((List.cons.inj hs).2).symm⟩
    | cons c a =>
      -- `x` would end with a backslash.
      obtain rfl := (List.cons.inj hs).1
      obtain ⟨x', rfl⟩ := hu _ _ ha
      exact absurd List.getLast?_concat hlast

/-- A quote, a text without open quotes and a quote. -/
theorem matchJobID_string {u s : GoString} (hu : Bare u)
    (h : NoColon s ∨ ¬lit "job_id" <:+ u) : matchJobID (0x22 :: u ++ 0x22 :: s) = none := by
  rw [Option.eq_none_iff_forall_ne_some]
  intro id hid
  obtain ⟨w₁, w₂, t, heq, hw₁, -⟩ := matchJobID_eq_some_iff.mp hid
  have hinner : u ++ 0x22 :: s =
      lit "job_id" ++ 0x22 :: (w₁ ++ 0x3A :: (w₂ ++ 0x22 :: (id ++ 0x22 :: t))) :=
    (List.cons.inj heq).2
  obtain ⟨rfl, rfl⟩ := eq_of_quoted hu (by decide) (by decide) hinner
  rcases h with h | h
  · exact h (by rw [skipSpace_append hw₁ (by decide)]; rfl)
  · exact h List.suffix_rfl

/-- **A string, whatever its text**, if it is no key or does not end with the name. -/
theorem silent_string {t s : GoString} (ht : IsText t)
    (h : NoColon s ∨ ¬lit "job_id" <:+ t) : Silent (0x22 :: t) (0x22 :: s) := by
  intro r hne hr
  cases r with
  | nil => exact absurd rfl hne
  | cons b u =>
    rcases eq_or_ne b 0x22 with rfl | hb
    · refine matchJobID_string ?_ ?_
      · intro x y hxy
        rcases List.suffix_cons_iff.mp hr with heq | ⟨w, hw⟩
        · obtain rfl := (List.cons.inj heq).2
          rw [hxy] at ht
          exact ht.bare
        · rw [← hw, hxy] at ht
          have ht' : IsText ((w ++ 0x22 :: x) ++ 0x22 :: y) := by
            rwa [List.append_assoc, List.cons_append]
          obtain ⟨x', hx'⟩ := ht'.bare
          -- What stands before an inner quote ends in the backslash that escapes it.
          rcases List.eq_nil_or_concat x with rfl | ⟨x₀, c, rfl⟩
          · have hlast := congrArg List.getLast? hx'
            simp at hlast
          · refine ⟨x₀, ?_⟩
            have hlast : (w ++ 0x22 :: x₀) ++ [c] = x' ++ [0x5C] := by
              rw [← hx', List.concat_eq_append, List.append_assoc, List.cons_append]
            rw [List.concat_eq_append, (List.append_inj' hlast rfl).2]
      · refine h.imp_right fun hnot hsuffix => hnot (hsuffix.trans ?_)
        rcases List.suffix_cons_iff.mp hr with heq | hr
        · rw [(List.cons.inj heq).2]
        · exact (List.suffix_cons 0x22 u).trans hr
    · exact matchJobID_cons hb _

/-! ### Members -/

/-- What follows a member of an object. -/
def Follows (s : GoString) : Prop := s.head? = some 0x2C ∨ s.head? = some 0x7D

theorem Follows.noColon {s : GoString} (h : Follows s) : NoColon s := by
  unfold NoColon
  cases s with
  | nil => rcases h with h | h <;> cases h
  | cons b s =>
    have hb : b = 0x2C ∨ b = 0x7D := h.imp Option.some.inj Option.some.inj
    have hskip := skipSpace_append (w := []) (fun c hc => absurd hc List.not_mem_nil)
      (show b ∉ [0x09, 0x0A, 0x0C, 0x0D, 0x20] by rcases hb with rfl | rfl <;> decide) s
    rw [List.nil_append] at hskip
    rw [hskip, List.head?_cons]
    rcases hb with rfl | rfl <;> decide

theorem Follows.quote {s : GoString} (h : Follows s) : Silent [0x22] s :=
  silent_quote (by rcases h with h | h <;> rw [h] <;> decide)

theorem follows_encodeMembers (ms : List (GoString × Value)) (s : GoString) :
    Follows (encodeMembers ms ++ s) := by
  cases ms with
  | nil => exact Or.inr rfl
  | cons m ms => exact Or.inl rfl

/-- No job id is found in the value of a member. -/
def SilentValue (v : Value) : Prop := ∀ s, Follows s → Silent (encode v) s

/-- A member whose key is not taken for that of the job id. -/
def SilentMember (m : GoString × Value) : Prop :=
  IsText m.1 ∧ ¬lit "job_id" <:+ m.1 ∧ SilentValue m.2

theorem silentValue_string {t : GoString} (ht : IsText t) : SilentValue (.string t) := by
  intro s hs
  rw [encode]
  exact (silent_string ht (.inl hs.noColon)).append hs.quote

theorem silentValue_int (n : ℤ) : SilentValue (.number (formatInt n)) := by
  intro s _
  refine silent_of_notMem ?_ s
  have hdecimal : ∀ m, (0x22 : UInt8) ∉ formatDecimal m :=
    fun m h => absurd (isDigit_of_mem_formatDecimal h) (by decide)
  rw [encode, formatInt]
  split
  · rw [List.mem_cons, not_or]
    exact ⟨by decide, hdecimal _⟩
  · exact hdecimal _

/-- **The members of an object without that key.** -/
theorem silent_members {ms : List (GoString × Value)} (h : ∀ m ∈ ms, SilentMember m)
    (s : GoString) : Silent (encodeMembers ms) s := by
  induction ms with
  | nil => exact silent_of_notMem (by decide) s
  | cons m ms ih =>
    obtain ⟨key, v⟩ := m
    obtain ⟨hkey, hname, hv⟩ := h _ List.mem_cons_self
    have hms := ih fun m hm => h m (List.mem_cons_of_mem _ hm)
    have hvalue := (hv _ (follows_encodeMembers ms s)).append hms
    have hcolon := (silent_of_notMem (p := [0x3A]) (by decide) _).append hvalue
    have hquote := Silent.append (silent_key _) hcolon
    have hstring := Silent.append (silent_string hkey (.inr hname)) hquote
    have hmember := (silent_of_notMem (p := [0x2C]) (by decide) _).append hstring
    simpa only [encodeMembers, List.cons_append, List.append_assoc, List.nil_append,
      List.singleton_append] using hmember

theorem silentValue_object {ms : List (GoString × Value)} (h : ∀ m ∈ ms, SilentMember m) :
    SilentValue (.object ms) := by
  intro s _
  cases ms with
  | nil => exact silent_of_notMem (by decide) s
  | cons m ms =>
    -- The comma in front of a further member becomes a bracket.
    have hmembers := silent_members h s
    have htail : ∃ t, encodeMembers (m :: ms) = [0x2C] ++ t ∧
        encode (.object (m :: ms)) = [0x7B] ++ t :=
      ⟨_, rfl, rfl⟩
    obtain ⟨t, ht, hobject⟩ := htail
    rw [ht] at hmembers
    rw [hobject]
    refine Silent.append (silent_of_notMem (by decide) _) fun r hne hr => ?_
    exact hmembers r hne (hr.trans (List.suffix_append [0x2C] t))

/-! ### Events -/

theorem plain_of_isUUID {s : GoString} (h : isUUID s = true) :
    ∀ b ∈ s, Plain b ∧ b ≠ 0x22 ∧ b ≠ 0x5C := by
  -- The induction is on the text; the shape goes along with it.
  have hshape : ∀ {shape : List Bool} {s : GoString}, matchShape shape s = true →
      ∀ b ∈ s, isHexDigit b = true ∨ b = 0x2D := by
    intro shape s
    induction s generalizing shape with
    | nil => exact fun _ b hb => absurd hb List.not_mem_nil
    | cons c s ih =>
      intro hmatch b hb
      match shape with
      | [] => simp [matchShape] at hmatch
      | true :: shape =>
        simp only [matchShape, Bool.and_eq_true] at hmatch
        rcases List.mem_cons.mp hb with rfl | hb
        · exact Or.inl hmatch.1
        · exact ih hmatch.2 b hb
      | false :: shape =>
        simp only [matchShape, Bool.and_eq_true, beq_iff_eq] at hmatch
        rcases List.mem_cons.mp hb with rfl | hb
        · exact Or.inr hmatch.1
        · exact ih hmatch.2 b hb
  intro b hb
  have hlt := (ascii_of_matchShape h b hb).2
  have hclass := hshape h b hb
  revert hclass
  exact forall_ascii (P := fun b => isHexDigit b = true ∨ b = 0x2D →
    Plain b ∧ b ≠ 0x22 ∧ b ≠ 0x5C) (by decide) hlt

theorem silentMember_string {name : String} (s : GoString)
    (hname : ¬lit "job_id" <:+ quote (lit name)) : SilentMember (stringMember name s) :=
  ⟨isText_quote _, hname, silentValue_string (isText_quote s)⟩

theorem silentMember_int {name : String} (n : ℤ)
    (hname : ¬lit "job_id" <:+ quote (lit name)) : SilentMember (intMember name n) :=
  ⟨isText_quote _, hname, silentValue_int n⟩

theorem silentMember_product (p : ProductData) : ∀ m ∈ p.members, SilentMember m := by
  intro m hm
  unfold ProductData.members at hm
  have hfirst : m ∈ [stringMember "merchant_id" p.merchantID,
      stringMember "product_id" p.productID, stringMember "name" p.name,
      intMember "price_cents" p.priceCents, stringMember "currency" p.currency] ∨
      m = stringMember "expiration_date" p.expirationDate := by
    rcases List.mem_append.mp hm with hm | hm
    · exact Or.inl hm
    · split at hm
      · cases hm
      · exact Or.inr (List.mem_singleton.mp hm)
  simp only [List.mem_cons, List.not_mem_nil, or_false] at hfirst
  rcases hfirst with (rfl | rfl | rfl | rfl | rfl) | rfl
  · exact silentMember_string _ (by decide)
  · exact silentMember_string _ (by decide)
  · exact silentMember_string _ (by decide)
  · exact silentMember_int _ (by decide)
  · exact silentMember_string _ (by decide)
  · exact silentMember_string _ (by decide)

/-- The members of an event behind its job id. -/
theorem silentMember_event (evt : ProductImported) {stamp : GoString}
    (hstamp : formatTimestamp evt.producedAt = some stamp) :
    ∀ m ∈ (evt.members stamp evt.product.members).tail, SilentMember m := by
  intro m hm
  simp only [ProductImported.members, List.tail_cons, List.mem_cons, List.not_mem_nil,
    or_false] at hm
  rcases hm with rfl | rfl | rfl
  · exact silentMember_int _ (by decide)
  · exact ⟨isText_quote _, (by decide : ¬lit "job_id" <:+ quote (lit "produced_at")),
      silentValue_string (isText_formatTimestamp hstamp)⟩
  · exact ⟨isText_quote _, (by decide : ¬lit "job_id" <:+ quote (lit "product")),
      silentValue_object (silentMember_product evt.product)⟩

section
variable {evt : ProductImported} {value : GoString}

/-- The bytes of an event: its job id, and the members behind it. -/
theorem marshal_eq (h : evt.marshal = some value) :
    ∃ ms, (∀ m ∈ ms, SilentMember m) ∧
      value = 0x7B :: (lit "\"job_id\"" ++
        (0x3A :: 0x22 :: quote evt.jobID ++ 0x22 :: encodeMembers ms)) := by
  obtain ⟨stamp, hstamp, rfl⟩ := Option.map_eq_some_iff.mp h
  refine ⟨_, silentMember_event evt hstamp, ?_⟩
  have hkey : quote (lit "job_id") = lit "job_id" := by decide
  have hquoted : lit "\"job_id\"" = 0x22 :: lit "job_id" ++ [0x22] := by decide
  simp only [ProductImported.members, stringMember, encode, List.tail_cons, hkey, hquoted,
    List.cons_append, List.append_assoc, List.nil_append]

/-- Within the bytes of an event only one job id is found, that of the event. -/
theorem matchJobID_suffix (h : evt.marshal = some value) {r id : GoString} (hr : r <:+ value)
    (hid : matchJobID r = some id) : r = value.tail ∧ id = evt.jobID ∧ isUUID evt.jobID = true := by
  obtain ⟨ms, hms, rfl⟩ := marshal_eq h
  have hr0 : r ≠ [] := by
    rintro rfl
    exact absurd (le_length_of_matchJobID hid) (by decide)
  rcases List.suffix_cons_iff.mp hr with rfl | hr
  · rw [matchJobID_cons (by decide)] at hid
    cases hid
  have hquoted : lit "\"job_id\"" = 0x22 :: (lit "job_id" ++ [0x22]) := by decide
  rw [hquoted, List.cons_append, List.append_assoc] at hr
  rcases List.suffix_cons_iff.mp hr with heq | hr
  · -- At the key itself.
    obtain ⟨w₁, w₂, t, hpattern, hw₁, hw₂, huuid⟩ := matchJobID_eq_some_iff.mp hid
    rw [← List.append_assoc, ← List.cons_append, ← hquoted] at heq
    have hinner := List.append_cancel_left (heq.symm.trans hpattern)
    -- The encoder writes no space around the colon, so that the pattern takes none.
    have hnospace : ∀ {w : GoString} {b c : UInt8} {x y : GoString}, Spaces w →
        c ∉ [0x09, 0x0A, 0x0C, 0x0D, 0x20] → c :: x = w ++ b :: y → w = [] := by
      intro w b c x y hw hc hcons
      cases w with
      | nil => rfl
      | cons d w =>
        obtain rfl := (List.cons.inj hcons).1
        exact absurd (hw c List.mem_cons_self) hc
    obtain rfl := hnospace hw₁ (by decide) hinner
    have hinner := (List.cons.inj hinner).2
    obtain rfl := hnospace hw₂ (by decide) hinner
    have hinner : quote evt.jobID ++ 0x22 :: encodeMembers ms = id ++ 0x22 :: t :=
      (List.cons.inj hinner).2
    have hplain := plain_of_isUUID huuid
    have hlast : id.getLast? ≠ some 0x5C :=
      fun hlast => (hplain _ (List.mem_of_getLast? hlast)).2.2 rfl
    have hbare : Bare (quote evt.jobID) := by
      intro x y hxy
      have htext := isText_quote evt.jobID
      rw [hxy] at htext
      exact htext.bare
    obtain ⟨rfl, -⟩ := eq_of_quoted hbare (fun hmem => (hplain _ hmem).2.1 rfl) hlast hinner
    have hsame : quote evt.jobID = evt.jobID := eq_of_plain_quote fun b hb => (hplain b hb).1
    refine ⟨heq, hsame, ?_⟩
    rw [← hsame]
    exact huuid
  · -- Behind its first quote.
    exfalso
    have hfollows := follows_encodeMembers ms []
    have hclose := hfollows.quote.append (silent_members hms [])
    have hid' :=
    Silent.append (silent_string (isText_quote evt.jobID) (.inl hfollows.noColon)) hclose
    have hcolon := (silent_of_notMem (p := [0x3A]) (by decide) _).append hid'
    have hquote := Silent.append (silent_key _) hcolon
    have hname := (silent_of_notMem (p := lit "job_id") (by decide) _).append hquote
    have hnone := hname r hr0 (by simpa only [List.cons_append, List.nil_append,
      List.append_assoc] using hr)
    rw [List.append_nil, hid] at hnone
    cases hnone

theorem recoverJobID_of_match {s id : GoString} (h : matchJobID s = some id) :
    recoverJobID s = some id := by
  cases s with
  | nil => exact absurd (le_length_of_matchJobID h) (by decide)
  | cons b s => rw [recoverJobID, h]

/-- Of an event that is cut off anywhere no other job is recovered than its own, and that
one as soon as its id is complete. -/
theorem recoverJobID_take (h : evt.marshal = some value) (n : ℕ) :
    recoverJobID (value.take n) =
      if isUUID evt.jobID = true ∧ 48 ≤ n then some evt.jobID else none := by
  split
  · next hcomplete =>
    obtain ⟨huuid, hn⟩ := hcomplete
    obtain ⟨ms, -, rfl⟩ := marshal_eq h
    obtain ⟨m, rfl⟩ := Nat.exists_eq_add_of_le hn
    have hsame := quote_of_plain fun b hb => (plain_of_isUUID huuid b hb).1
    have hlen := length_of_isUUID huuid
    -- The identity is whole from the 48th byte on: the brace, the key, the colon and the quotes.
    have hcut : (0x7B :: (lit "\"job_id\"" ++
        (0x3A :: 0x22 :: quote evt.jobID ++ 0x22 :: encodeMembers ms))).take (48 + m) =
        0x7B :: (lit "\"job_id\"" ++ ([] ++ 0x3A :: ([] ++ 0x22 :: (evt.jobID ++
          0x22 :: (encodeMembers ms).take m)))) := by
      have hsplit : (0x7B :: (lit "\"job_id\"" ++
          (0x3A :: 0x22 :: quote evt.jobID ++ 0x22 :: encodeMembers ms)) : GoString) =
          (0x7B :: lit "\"job_id\"" ++ 0x3A :: 0x22 :: evt.jobID ++ [0x22]) ++
            encodeMembers ms := by
        simp [hsame]
      have hlength : (0x7B :: lit "\"job_id\"" ++ 0x3A :: 0x22 :: evt.jobID ++ [0x22] :
          GoString).length = 48 := by
        have hkey : (lit "\"job_id\"").length = 8 := by decide
        simp [hkey, hlen]
      rw [hsplit, List.take_append, hlength, List.take_of_length_le (by omega)]
      simp
    rw [hcut, recoverJobID, matchJobID_cons (by decide)]
    refine recoverJobID_of_match (matchJobID_eq_some_iff.mpr ⟨[], [], _, rfl, ?_, ?_, huuid⟩)
    · exact fun b hb => absurd hb List.not_mem_nil
    · exact fun b hb => absurd hb List.not_mem_nil
  · next hincomplete =>
    rw [Option.eq_none_iff_forall_ne_some]
    intro id hid
    obtain ⟨r, hr, hmatch⟩ := recoverJobID_eq_some hid
    have hlen := le_length_of_matchJobID hmatch
    -- A match in the beginning is one in the whole value, and that one stands at its first key.
    have hwhole : r ++ value.drop n <:+ value := by
      obtain ⟨x, hx⟩ := hr
      exact ⟨x, by rw [← List.append_assoc, hx, List.take_append_drop]⟩
    obtain ⟨htail, -, huuid⟩ :=
      matchJobID_suffix h hwhole (matchJobID_append hmatch _)
    have hlength := congrArg List.length htail
    rw [List.length_append, List.length_drop, List.length_tail] at hlength
    exact hincomplete ⟨huuid, by omega⟩

/-- What `parseEvent` makes of the value of a record. -/
def payloadOf (value : GoString) : Payload :=
  match ProductImported.unmarshal value with
  | some evt => .event evt
  | none => .raw value

/-- A record with the given value, alone in the log. -/
def logOf (value : GoString) : Log := [⟨0, payloadOf value⟩]

/-- An event that is cut off does not decode. -/
theorem unmarshal_take (h : evt.marshal = some value) {n : ℕ} (hn : n < value.length) :
    ProductImported.unmarshal (value.take n) = none := by
  obtain ⟨stamp, hstamp, rfl⟩ := Option.map_eq_some_iff.mp h
  rw [ProductImported.unmarshal, parse_take (fits_event 9998 evt hstamp) hn, Option.bind_none]

/-- **A record counts for no other job than that of its event, however much of its value is
left**: a whole one for the job that the event names, and a cut one, which does not decode, for
the same job if that is a UUID and stands in what is left. -/
theorem jobAt_take (hrow : Int64Range evt.rowNum) (hprice : Int64Range evt.product.priceCents)
    (h : evt.marshal = some value) (n : ℕ) :
    (logOf (value.take n)).jobAt 0 =
      if value.length ≤ n then some (Utf8.sanitize evt.jobID)
      else if isUUID evt.jobID = true ∧ 48 ≤ n then some evt.jobID
      else none := by
  split
  · next hle =>
    rw [List.take_of_length_le hle, logOf, payloadOf, unmarshal_marshal hrow hprice h]
    rfl
  · next hlt =>
    rw [← recoverJobID_take h n, logOf, payloadOf, unmarshal_take h (Nat.lt_of_not_le hlt)]
    rfl

end

/-- A product whose texts are the pattern with another job's id. -/
def forgedEvent : ProductImported where
  jobID := lit "none"
  rowNum := 2
  producedAt := 0
  product := {
    merchantID := lit "job_id", productID := lit "\"job_id"
    name := lit "\"job_id\": \"" ++ someJobID ++ lit "\""
    priceCents := 150, currency := lit "USD", expirationDate := [] }

theorem jobAt_take_forged : ∃ value, forgedEvent.marshal = some value ∧
    (logOf (value.take 200)).jobAt 0 = none := by
  obtain ⟨value, hvalue⟩ :=
    Option.isSome_iff_exists.mp ((marshal_isSome_iff forgedEvent).mpr (by decide))
  refine ⟨value, hvalue, ?_⟩
  have hlength : (forgedEvent.marshal.any fun value => 200 < value.length) = true := by
    decide +kernel
  rw [hvalue, Option.any_some, decide_eq_true_eq] at hlength
  rw [jobAt_take (by decide) (by decide) hvalue 200, if_neg (by omega)]
  decide

end CsvProductUploader.Catalog

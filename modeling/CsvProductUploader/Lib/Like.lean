import Mathlib.Data.List.Infix
import Mathlib.Data.List.TakeDrop
import Mathlib.Tactic.Common

/-!
# Patterns with wildcards

The pattern language of `LIKE`: one sign stands for any run of characters, one for a single
character, and one takes its meaning from the sign behind it.  A text that is put between two
signs for any run searches for itself only if it holds no sign.

## Main definitions

* `Signs` — the three signs.
* `like` — whether a text matches a pattern.
* `Plain` — a text without signs.
* `search` — the pattern of a text between two signs for any run.
* `sample` — a text that the search for a text finds.
* `Keeps` — a reading of characters that leaves the signs alone.

## Main results

* `like_search_of_plain` — the search for a plain text is substring search.
* `like_search_sample`, `plain_of_infix_sample` — the search for a text that is not plain finds
  a text that does not contain it.
* `Keeps.like_search_of_plain`, `Keeps.like_search_sample`, `Keeps.plain_of_infix_sample` — the
  same where some characters are read as others.
-/

namespace Like

structure Signs (α : Type*) where
  /-- Any run of characters, `%`. -/
  any : α
  /-- Any one character, `_`. -/
  one : α
  /-- The sign before a character that stands for itself, the backslash. -/
  escape : α
  nodup : [any, one, escape].Nodup

variable {α : Type*}

theorem Signs.any_ne_escape (s : Signs α) : s.any ≠ s.escape := by
  have h := s.nodup
  simp only [List.nodup_cons, List.mem_cons, not_or] at h
  exact h.1.2.1

theorem Signs.one_ne_any (s : Signs α) : s.one ≠ s.any := by
  have h := s.nodup
  simp only [List.nodup_cons, List.mem_cons, not_or] at h
  exact Ne.symm h.1.1

theorem Signs.one_ne_escape (s : Signs α) : s.one ≠ s.escape := by
  have h := s.nodup
  simp only [List.nodup_cons, List.mem_cons, not_or] at h
  exact h.2.1.1

variable [DecidableEq α]

/-- `text LIKE pattern` -/
def like (s : Signs α) : List α → List α → Bool
  | [], text => text.isEmpty
  | c :: pattern, text =>
    if c = s.any then text.tails.any fun rest => like s pattern rest
    else if c = s.escape then
      match pattern, text with
      | d :: pattern, b :: text => d = b && like s pattern text
      | _, _ => false
    else
      match text with
      | [] => false
      | b :: text => (c = s.one || c = b) && like s pattern text

variable {s : Signs α}

/-- The signs of a pattern, one after another. -/
theorem like_cons {c : α} {pattern text : List α} :
    like s (c :: pattern) text =
      if c = s.any then text.tails.any fun rest => like s pattern rest
      else if c = s.escape then
        match pattern, text with
        | d :: pattern, b :: text => d = b && like s pattern text
        | _, _ => false
      else
        match text with
        | [] => false
        | b :: text => (c = s.one || c = b) && like s pattern text := by
  rw [like.eq_def]

/-! ### One sign -/

theorem like_any {pattern text : List α} :
    like s (s.any :: pattern) text = true ↔ ∃ rest, rest <:+ text ∧ like s pattern rest = true := by
  rw [like_cons, if_pos rfl, List.any_eq_true]
  simp only [List.mem_tails]

theorem like_escape {c b : α} {pattern text : List α} :
    like s (s.escape :: c :: pattern) (b :: text) = true ↔
      c = b ∧ like s pattern text = true := by
  rw [like_cons, if_neg s.any_ne_escape.symm, if_pos rfl, Bool.and_eq_true, decide_eq_true_eq]

theorem like_one {b : α} {pattern text : List α} :
    like s (s.one :: pattern) (b :: text) = like s pattern text := by
  rw [like_cons, if_neg s.one_ne_any, if_neg s.one_ne_escape]
  simp only [decide_true, Bool.true_or, Bool.true_and]

/-- Any text at all. -/
theorem like_any_nil (text : List α) : like s [s.any] text = true :=
  like_any.mpr ⟨[], List.nil_suffix, rfl⟩

/-! ### Plain texts -/

/-- No character is a sign. -/
def Plain (s : Signs α) (f : List α) : Prop :=
  ∀ c ∈ f, c ≠ s.any ∧ c ≠ s.one ∧ c ≠ s.escape

instance (f : List α) : Decidable (Plain s f) := by
  unfold Plain
  infer_instance

/-- A plain text in front of a pattern stands for itself. -/
theorem like_plain_append {f pattern text : List α} (h : Plain s f) :
    like s (f ++ pattern) text = true ↔ ∃ rest, text = f ++ rest ∧ like s pattern rest = true := by
  induction f generalizing text with
  | nil => simp
  | cons c f ih =>
    obtain ⟨⟨hany, hone, hescape⟩, hf⟩ := List.forall_mem_cons.mp h
    rw [List.cons_append, like_cons, if_neg hany, if_neg hescape]
    cases text with
    | nil =>
      refine iff_of_false Bool.false_ne_true ?_
      rintro ⟨rest, hnil, -⟩
      cases hnil
    | cons b text =>
      simp only [Bool.and_eq_true, Bool.or_eq_true, decide_eq_true_eq, hone, false_or]
      rw [ih hf]
      constructor
      · rintro ⟨rfl, rest, rfl, hrest⟩
        exact ⟨rest, rfl, hrest⟩
      · rintro ⟨rest, heq, hrest⟩
        obtain ⟨rfl, rfl⟩ := List.cons.inj heq
        exact ⟨rfl, rest, rfl, hrest⟩

/-- The pattern that searches for a text. -/
def search (s : Signs α) (f : List α) : List α := s.any :: f ++ [s.any]

/-- **The search for a plain text is substring search.** -/
theorem like_search_of_plain {f text : List α} (h : Plain s f) :
    like s (search s f) text = true ↔ f <:+: text := by
  rw [search, List.cons_append, like_any]
  constructor
  · rintro ⟨rest, ⟨before, rfl⟩, hrest⟩
    obtain ⟨behind, rfl, -⟩ := (like_plain_append h).mp hrest
    exact ⟨before, behind, List.append_assoc before f behind⟩
  · rintro ⟨before, behind, rfl⟩
    refine ⟨f ++ behind, ⟨before, by rw [List.append_assoc]⟩, ?_⟩
    exact (like_plain_append h).mpr ⟨behind, rfl, like_any_nil behind⟩

/-! ### Other texts -/

/-- A text that the search for a text finds: a blank for every wildcard, and what is escaped
without the sign before it. -/
def sample (s : Signs α) (blank : α) : List α → List α
  | [] => []
  | c :: f =>
    if c = s.escape then
      match f with
      | [] => [s.any]
      | d :: f => d :: sample s blank f
    else (if c = s.any ∨ c = s.one then blank else c) :: sample s blank f

/-- The induction over the signs of a text. -/
theorem sample_induction {P : List α → Prop} (s : Signs α) (hnil : P []) (hlast : P [s.escape])
    (hescape : ∀ d f, P f → P (s.escape :: d :: f)) (hcons : ∀ c f, c ≠ s.escape → P f → P (c :: f))
    (f : List α) : P f := by
  -- On the length, as an escape takes two signs at once.
  have hgen : ∀ n, ∀ f : List α, f.length ≤ n → P f := by
    intro n
    induction n with
    | zero =>
      intro f hf
      rw [List.length_eq_zero_iff.mp (Nat.le_zero.mp hf)]
      exact hnil
    | succ n ih =>
      intro f hf
      match f with
      | [] => exact hnil
      | c :: f =>
        rw [List.length_cons] at hf
        by_cases hc : c = s.escape
        · subst hc
          match f with
          | [] => exact hlast
          | d :: f =>
            rw [List.length_cons] at hf
            exact hescape d f (ih f (by omega))
        · exact hcons c f hc (ih f (by omega))
  exact hgen f.length f le_rfl

theorem sample_escape (blank d : α) (f : List α) :
    sample s blank (s.escape :: d :: f) = d :: sample s blank f := by
  rw [sample.eq_def]
  exact if_pos rfl

theorem sample_last (blank : α) : sample s blank [s.escape] = [s.any] := by
  rw [sample.eq_def]
  exact if_pos rfl

theorem sample_cons {c : α} (h : c ≠ s.escape) (blank : α) (f : List α) :
    sample s blank (c :: f) =
      (if c = s.any ∨ c = s.one then blank else c) :: sample s blank f := by
  rw [sample.eq_def]
  exact if_neg h

/-- **The search finds the sample.** -/
theorem like_search_sample (blank : α) (f : List α) :
    like s (search s f) (sample s blank f) = true := by
  refine like_any.mpr ⟨_, List.suffix_rfl, ?_⟩
  induction f using sample_induction s with
  | hnil => exact like_any_nil []
  | hlast =>
    rw [sample_last]
    exact like_escape.mpr ⟨rfl, rfl⟩
  | hescape d f ih =>
    rw [sample_escape]
    exact like_escape.mpr ⟨rfl, ih⟩
  | hcons c f hc ih =>
    rw [sample_cons hc]
    show like s (c :: (f ++ [s.any])) _ = true
    by_cases hany : c = s.any
    · rw [hany, like_any]
      exact ⟨_, List.suffix_cons _ _, ih⟩
    · by_cases hone : c = s.one
      · rw [hone, like_one]
        exact ih
      · rw [if_neg (not_or.mpr ⟨hany, hone⟩), like_cons, if_neg hany, if_neg hc]
        simp only [decide_true, Bool.or_true, Bool.true_and]
        exact ih

theorem length_sample_le (blank : α) (f : List α) : (sample s blank f).length ≤ f.length := by
  induction f using sample_induction s with
  | hnil => exact le_rfl
  | hlast =>
    rw [sample_last]
    exact le_rfl
  | hescape d f ih =>
    rw [sample_escape]
    simp only [List.length_cons]
    omega
  | hcons c f hc ih =>
    rw [sample_cons hc]
    simp only [List.length_cons]
    omega

/-- A text that is its own sample is plain. -/
theorem plain_of_sample_eq {blank : α} {f : List α} (hblank : Plain s [blank])
    (h : sample s blank f = f) : Plain s f := by
  obtain ⟨hbany, hbone, -⟩ := hblank blank List.mem_cons_self
  induction f using sample_induction s with
  | hnil => exact fun c hc => absurd hc List.not_mem_nil
  | hlast =>
    rw [sample_last] at h
    exact absurd (List.cons.inj h).1 s.any_ne_escape
  | hescape d f ih =>
    -- The sample is shorter.
    have hlength := congrArg List.length h
    have hle := length_sample_le (s := s) blank f
    rw [sample_escape] at hlength
    simp only [List.length_cons] at hlength
    omega
  | hcons c f hc ih =>
    rw [sample_cons hc] at h
    obtain ⟨hhead, htail⟩ := List.cons.inj h
    have hsign : ¬(c = s.any ∨ c = s.one) := by
      intro hsign
      rw [if_pos hsign] at hhead
      rcases hsign with rfl | rfl
      · exact hbany hhead
      · exact hbone hhead
    refine List.forall_mem_cons.mpr ⟨?_, ih htail⟩
    exact ⟨fun h => hsign (Or.inl h), fun h => hsign (Or.inr h), hc⟩

/-- **A text that its sample contains is plain.** -/
theorem plain_of_infix_sample {blank : α} {f : List α} (hblank : Plain s [blank])
    (h : f <:+: sample s blank f) : Plain s f :=
  plain_of_sample_eq hblank (h.eq_of_length_le (length_sample_le blank f)).symm

theorem mem_sample {blank c : α} {f : List α} (h : c ∈ sample s blank f) :
    c = blank ∨ c = s.any ∨ c ∈ f := by
  induction f using sample_induction s with
  | hnil => cases h
  | hlast =>
    rw [sample_last] at h
    exact Or.inr (Or.inl (List.mem_singleton.mp h))
  | hescape d f ih =>
    rw [sample_escape] at h
    rcases List.mem_cons.mp h with rfl | h
    · exact Or.inr (Or.inr (by simp))
    · exact (ih h).imp_right (Or.imp_right fun hmem => by simp [hmem])
  | hcons d f hd ih =>
    rw [sample_cons hd] at h
    rcases List.mem_cons.mp h with rfl | h
    · split
      · exact Or.inl rfl
      · exact Or.inr (Or.inr List.mem_cons_self)
    · exact (ih h).imp_right (Or.imp_right (List.mem_cons_of_mem d))

/-! ### Characters read as others -/

/-- Nothing else is read as a sign, and a sign as nothing else. -/
def Keeps (s : Signs α) (fold : α → α) : Prop :=
  ∀ c, ∀ sign ∈ [s.any, s.one, s.escape], fold c = sign ↔ c = sign

variable {fold : α → α}

omit [DecidableEq α] in
theorem Keeps.plain_iff (h : Keeps s fold) {f : List α} : Plain s (f.map fold) ↔ Plain s f := by
  simp only [Plain, List.forall_mem_map]
  refine forall₂_congr fun c _ => ?_
  rw [Ne, h c s.any (by simp), Ne, h c s.one (by simp), Ne, h c s.escape (by simp)]

theorem Keeps.map_sample (h : Keeps s fold) (blank : α) (f : List α) :
    (sample s blank f).map fold = sample s (fold blank) (f.map fold) := by
  have hany : fold s.any = s.any := (h s.any s.any (by simp)).mpr rfl
  have hescape : fold s.escape = s.escape := (h s.escape s.escape (by simp)).mpr rfl
  induction f using sample_induction s with
  | hnil => rfl
  | hlast => rw [sample_last, List.map_singleton, List.map_singleton, hany, hescape, sample_last]
  | hescape d f ih =>
    rw [sample_escape, List.map_cons, List.map_cons, List.map_cons, hescape, sample_escape, ih]
  | hcons c f hc ih =>
    have hc' : fold c ≠ s.escape := fun heq => hc ((h c s.escape (by simp)).mp heq)
    rw [sample_cons hc, List.map_cons, List.map_cons, sample_cons hc', ih]
    simp only [h c s.any (by simp), h c s.one (by simp)]
    split
    · rfl
    · rfl

omit [DecidableEq α] in
theorem Keeps.map_search (h : Keeps s fold) (f : List α) :
    (search s f).map fold = search s (f.map fold) := by
  have hany : fold s.any = s.any := (h s.any s.any (by simp)).mpr rfl
  rw [search, search, List.map_append, List.map_cons, List.map_singleton, hany]

theorem Keeps.like_search_of_plain (h : Keeps s fold) {f text : List α} (hf : Plain s f) :
    like s ((search s f).map fold) (text.map fold) = true ↔ f.map fold <:+: text.map fold := by
  rw [h.map_search]
  exact Like.like_search_of_plain (h.plain_iff.mpr hf)

theorem Keeps.like_search_sample (h : Keeps s fold) (blank : α) (f : List α) :
    like s ((search s f).map fold) ((sample s blank f).map fold) = true := by
  rw [h.map_search, h.map_sample]
  exact Like.like_search_sample _ _

theorem Keeps.plain_of_infix_sample (h : Keeps s fold) {blank : α} (hblank : Plain s [blank])
    {f : List α} (hfound : f.map fold <:+: (sample s blank f).map fold) : Plain s f := by
  rw [h.map_sample] at hfound
  have hblank' : Plain s [fold blank] := h.plain_iff.mpr hblank
  exact h.plain_iff.mp (Like.plain_of_infix_sample hblank' hfound)

end Like

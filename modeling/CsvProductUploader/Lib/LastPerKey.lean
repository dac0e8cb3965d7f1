import Mathlib.Data.List.Basic
import Mathlib.Logic.Function.Basic
import Mathlib.Tactic.Common

/-!
# The last element of each key

Keeping, of a list with repeated keys, only the last element of each key, and what
that does to a table that the list is written into.

## Main definitions

* `lastPerKey` — the elements that no later element shares a key with.
* `putAll` — a table after writing the elements one by one.

## Main results

* `mem_lastPerKey_iff` — an element is kept exactly if it stands somewhere in the list
  with no element of its key after it.
* `exists_lastPerKey` — an element of each key is kept.
* `mem_lastPerKey_insert`, `mem_lastPerKey_append` — more elements let no other one in.
* `putAll_of_last`, `exists_last` — the last element of a key decides its row.
* `putAll_lastPerKey` — the dropped elements leave no trace in a table.
-/

variable {α κ β : Type*} [DecidableEq κ] (key : α → κ)

/-- The elements that no later element shares a key with. -/
def lastPerKey : List α → List α
  | [] => []
  | a :: as => if ∃ b ∈ as, key b = key a then lastPerKey as else a :: lastPerKey as

variable {key}

@[simp] theorem lastPerKey_nil : lastPerKey key [] = [] := rfl

theorem lastPerKey_cons (a : α) (as : List α) :
    lastPerKey key (a :: as) =
      if ∃ b ∈ as, key b = key a then lastPerKey key as else a :: lastPerKey key as := rfl

theorem mem_of_mem_lastPerKey {a : α} {l : List α} (h : a ∈ lastPerKey key l) : a ∈ l := by
  induction l with
  | nil => cases h
  | cons b bs ih =>
    unfold lastPerKey at h
    split at h
    · exact List.mem_cons_of_mem _ (ih h)
    · rcases List.mem_cons.mp h with rfl | h
      · exact List.mem_cons_self
      · exact List.mem_cons_of_mem _ (ih h)

/-- An element is kept exactly if it stands somewhere with no element of its key
after it. -/
theorem mem_lastPerKey_iff {a : α} {l : List α} :
    a ∈ lastPerKey key l ↔ ∃ l₁ l₂, l = l₁ ++ a :: l₂ ∧ ∀ b ∈ l₂, key b ≠ key a := by
  induction l with
  | nil => simp
  | cons c cs ih =>
    -- What is kept of the tail is kept of the whole.
    have htail : a ∈ lastPerKey key cs →
        ∃ l₁ l₂, c :: cs = l₁ ++ a :: l₂ ∧ ∀ b ∈ l₂, key b ≠ key a := by
      intro h
      obtain ⟨l₁, l₂, hcs, hlast⟩ := ih.mp h
      exact ⟨c :: l₁, l₂, by rw [hcs, List.cons_append], hlast⟩
    unfold lastPerKey
    constructor
    · intro h
      split at h
      · exact htail h
      · next hlast =>
        rcases List.mem_cons.mp h with rfl | h
        · exact ⟨[], cs, rfl, fun b hb heq => hlast ⟨b, hb, heq⟩⟩
        · exact htail h
    · rintro ⟨l₁, l₂, hl, hlast⟩
      cases l₁ with
      | nil =>
        obtain ⟨rfl, rfl⟩ := List.cons.inj hl
        rw [if_neg (by rintro ⟨b, hb, heq⟩; exact hlast b hb heq)]
        exact List.mem_cons_self
      | cons d ds =>
        obtain ⟨rfl, hcs⟩ := List.cons.inj hl
        have hmem : a ∈ lastPerKey key cs := ih.mpr ⟨ds, l₂, hcs, hlast⟩
        split
        · exact hmem
        · exact List.mem_cons_of_mem _ hmem

/-- Every key keeps an element. -/
theorem exists_lastPerKey {a : α} {l : List α} (h : a ∈ l) :
    ∃ b ∈ lastPerKey key l, key b = key a := by
  induction l generalizing a with
  | nil => cases h
  | cons c cs ih =>
    unfold lastPerKey
    by_cases hlater : ∃ b ∈ cs, key b = key c
    · rw [if_pos hlater]
      rcases List.mem_cons.mp h with rfl | h
      · obtain ⟨b, hb, heq⟩ := hlater
        obtain ⟨d, hd, hdb⟩ := ih hb
        exact ⟨d, hd, hdb.trans heq⟩
      · exact ih h
    · rw [if_neg hlater]
      rcases List.mem_cons.mp h with rfl | h
      · exact ⟨a, List.mem_cons_self, rfl⟩
      · obtain ⟨b, hb, heq⟩ := ih h
        exact ⟨b, List.mem_cons_of_mem _ hb, heq⟩

/-- One more element lets no other one in. -/
theorem mem_lastPerKey_insert {a b : α} {l₁ l₂ : List α}
    (h : b ∈ lastPerKey key (l₁ ++ a :: l₂)) : b = a ∨ b ∈ lastPerKey key (l₁ ++ l₂) := by
  obtain ⟨m₁, m₂, hl, hlast⟩ := mem_lastPerKey_iff.mp h
  -- `b` stands before the inserted element, after it, or is that element.
  rcases List.append_eq_append_iff.mp hl with ⟨n, hm₁, hcons⟩ | ⟨n, hl₁, hcons⟩
  · cases n with
    | nil =>
      left
      exact (List.cons.inj hcons).1.symm
    | cons c n =>
      obtain ⟨-, hl₂⟩ := List.cons.inj hcons
      right
      refine mem_lastPerKey_iff.mpr ⟨l₁ ++ n, m₂, ?_, hlast⟩
      rw [hl₂, List.append_assoc]
      rfl
  · cases n with
    | nil =>
      left
      exact (List.cons.inj hcons).1
    | cons c n =>
      obtain ⟨rfl, hm₂⟩ := List.cons.inj hcons
      right
      refine mem_lastPerKey_iff.mpr ⟨m₁, n ++ l₂, ?_, ?_⟩
      · rw [hl₁, List.append_assoc, List.cons_append]
      · intro c hc
        apply hlast
        rw [hm₂]
        rcases List.mem_append.mp hc with hc | hc
        · exact List.mem_append_left _ hc
        · exact List.mem_append_right _ (List.mem_cons_of_mem _ hc)

/-- What is kept of two lists together is kept of one of them. -/
theorem mem_lastPerKey_append {a : α} {l₁ l₂ : List α} (h : a ∈ lastPerKey key (l₁ ++ l₂)) :
    a ∈ lastPerKey key l₁ ∨ a ∈ lastPerKey key l₂ := by
  induction l₁ with
  | nil => exact Or.inr h
  | cons c cs ih =>
    rw [List.cons_append, lastPerKey_cons] at h
    rw [lastPerKey_cons]
    split at h
    · rcases ih h with h | h
      · left
        split
        · exact h
        · exact List.mem_cons_of_mem _ h
      · exact Or.inr h
    · next hlast =>
      have hlast' : ¬ ∃ b ∈ cs, key b = key c := by
        rintro ⟨b, hb, heq⟩
        exact hlast ⟨b, List.mem_append_left _ hb, heq⟩
      rw [if_neg hlast']
      rcases List.mem_cons.mp h with rfl | h
      · exact Or.inl List.mem_cons_self
      · exact (ih h).imp_left (List.mem_cons_of_mem _)

theorem lastPerKey_map {γ : Type*} (f : γ → α) (l : List γ) :
    lastPerKey key (l.map f) = (lastPerKey (key ∘ f) l).map f := by
  induction l with
  | nil => rfl
  | cons c cs ih =>
    have hlater : (∃ a ∈ cs.map f, key a = key (f c)) ↔ ∃ b ∈ cs, key (f b) = key (f c) := by
      constructor
      · rintro ⟨a, ha, heq⟩
        obtain ⟨b, hb, rfl⟩ := List.mem_map.mp ha
        exact ⟨b, hb, heq⟩
      · rintro ⟨b, hb, heq⟩
        exact ⟨f b, List.mem_map_of_mem hb, heq⟩
    simp only [List.map_cons, lastPerKey, ih, hlater, Function.comp_apply]
    split
    · rfl
    · rfl

/-! ### Writing a list into a table -/

variable (key) (val : α → β)

/-- The table after the elements are written into it one by one. -/
def putAll (t : κ → Option β) (l : List α) : κ → Option β :=
  l.foldl (fun t a => Function.update t (key a) (some (val a))) t

variable {key val}

theorem putAll_append (t : κ → Option β) (l₁ l₂ : List α) :
    putAll key val t (l₁ ++ l₂) = putAll key val (putAll key val t l₁) l₂ := List.foldl_append

/-- A key nobody writes keeps its row. -/
theorem putAll_of_forall_ne {k : κ} {l : List α} (h : ∀ a ∈ l, key a ≠ k) (t : κ → Option β) :
    putAll key val t l k = t k := by
  induction l generalizing t with
  | nil => rfl
  | cons a as ih =>
    have has : ∀ b ∈ as, key b ≠ k := fun b hb => h b (List.mem_cons_of_mem _ hb)
    have hk : k ≠ key a := (h a List.mem_cons_self).symm
    change putAll key val (Function.update t (key a) (some (val a))) as k = t k
    rw [ih has, Function.update_of_ne hk]

/-- A row stays, and what is written is there. -/
theorem isSome_putAll {k : κ} {t : κ → Option β} {l : List α}
    (h : (t k).isSome = true ∨ ∃ a ∈ l, key a = k) : (putAll key val t l k).isSome = true := by
  induction l generalizing t with
  | nil =>
    rcases h with h | ⟨a, ha, -⟩
    · exact h
    · cases ha
  | cons a as ih =>
    change (putAll key val (Function.update t (key a) (some (val a))) as k).isSome = true
    apply ih
    by_cases hk : key a = k
    · left
      rw [hk, Function.update_self]
      rfl
    · rcases h with h | ⟨b, hb, hbk⟩
      · left
        rwa [Function.update_of_ne (Ne.symm hk)]
      · right
        rcases List.mem_cons.mp hb with rfl | hb
        · exact absurd hbk hk
        · exact ⟨b, hb, hbk⟩

/-- The last element of a key decides its row. -/
theorem putAll_of_last {a : α} {l₁ l₂ : List α} (h : ∀ b ∈ l₂, key b ≠ key a) (t : κ → Option β) :
    putAll key val t (l₁ ++ a :: l₂) (key a) = some (val a) := by
  unfold putAll
  rw [List.foldl_append, List.foldl_cons]
  show putAll key val _ l₂ (key a) = some (val a)
  rw [putAll_of_forall_ne h, Function.update_self]

/-- A key that occurs has a last element. -/
theorem exists_last {k : κ} {l : List α} (h : ∃ a ∈ l, key a = k) :
    ∃ l₁ a l₂, l = l₁ ++ a :: l₂ ∧ key a = k ∧ ∀ b ∈ l₂, key b ≠ k := by
  obtain ⟨a, ha, rfl⟩ := h
  have hkept : ∃ b ∈ lastPerKey key l, key b = key a := exists_lastPerKey ha
  obtain ⟨b, hb, hba⟩ := hkept
  obtain ⟨l₁, l₂, hl, hlast⟩ := mem_lastPerKey_iff.mp hb
  exact ⟨l₁, b, l₂, hl, hba, by rwa [hba] at hlast⟩

/-- The row of a key depends on the table only if nobody writes it. -/
theorem putAll_congr {k : κ} {t t' : κ → Option β} {l : List α}
    (h : t k = t' k ∨ ∃ a ∈ l, key a = k) : putAll key val t l k = putAll key val t' l k := by
  induction l generalizing t t' with
  | nil =>
    rcases h with h | ⟨a, ha, -⟩
    · exact h
    · cases ha
  | cons a as ih =>
    change putAll key val (Function.update t (key a) (some (val a))) as k =
      putAll key val (Function.update t' (key a) (some (val a))) as k
    apply ih
    by_cases hk : key a = k
    · left
      rw [hk, Function.update_self, Function.update_self]
    · rcases h with h | ⟨b, hb, hbk⟩
      · left
        rw [Function.update_of_ne (Ne.symm hk), Function.update_of_ne (Ne.symm hk), h]
      · right
        rcases List.mem_cons.mp hb with rfl | hb
        · exact absurd hbk hk
        · exact ⟨b, hb, hbk⟩

/-- The dropped elements leave no trace. -/
theorem putAll_lastPerKey (t : κ → Option β) (l : List α) :
    putAll key val t (lastPerKey key l) = putAll key val t l := by
  induction l generalizing t with
  | nil => rfl
  | cons a as ih =>
    unfold lastPerKey
    split
    · next hlater =>
      rw [ih]
      funext k
      change _ = putAll key val (Function.update t (key a) (some (val a))) as k
      apply putAll_congr
      by_cases hk : key a = k
      · right
        obtain ⟨b, hb, heq⟩ := hlater
        exact ⟨b, hb, heq.trans hk⟩
      · left
        rw [Function.update_of_ne (Ne.symm hk)]
    · exact ih (Function.update t (key a) (some (val a)))

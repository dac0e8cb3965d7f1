import Mathlib.Data.List.Basic
import Mathlib.Data.List.Nodup
import Mathlib.Data.List.Perm.Basic
import Mathlib.Data.List.Sort
import Mathlib.Order.Defs.LinearOrder
import Mathlib.Tactic.Common

/-!
# Pages of an ordered result

A query orders its rows by several keys and returns a window of them.  Different runs of the
query may sort in different ways, so what one window shows and what the next one does only fit
together if the order leaves no choice.

## Main definitions

* `Ranks le` — `le` compares any two rows, and consistently.
* `byKey`, `descending`, `nullsLast`, `thenBy` — the ways in which an `ORDER BY` is put together.
* `Sorter`, `insertionSorter` — a procedure that sorts.
* `window`, `pageCount` — one page, and how many there are.

## Main results

* `Ranks.byKey`, `Ranks.descending`, `Ranks.nullsLast`, `Ranks.thenBy` — each of them ranks.
* `Sorter.eq_of_ranks` — what sorts rows that the order tells apart does so in one way only.
* `flatMap_window` — the pages one after another are the result, and `length_window` — how long
  each is.
-/

namespace Paging

variable {α β : Type*}

/-! ### Orders -/

/-- Any two rows compare, and consistently. -/
structure Ranks (le : α → α → Bool) : Prop where
  total : ∀ a b, (le a b || le b a) = true
  trans : ∀ a b c, le a b = true → le b c = true → le a c = true

/-- The order of a key. -/
def byKey [LinearOrder β] (key : α → β) (a b : α) : Bool := decide (key a ≤ key b)

/-- `DESC` -/
def descending (le : α → α → Bool) (a b : α) : Bool := le b a

/-- `NULLS LAST` -/
def nullsLast (le : β → β → Bool) (key : α → Option β) (a b : α) : Bool :=
  match key a, key b with
  | _, none => true
  | none, some _ => false
  | some x, some y => le x y

/-- The order of a further key, where the first does not decide. -/
def thenBy (le le' : α → α → Bool) (a b : α) : Bool := le a b && (!le b a || le' a b)

theorem Ranks.byKey [LinearOrder β] (key : α → β) : Ranks (byKey key) where
  total a b := by
    simp only [Paging.byKey, Bool.or_eq_true, decide_eq_true_eq]
    exact le_total (key a) (key b)
  trans a b c hab hbc := by
    simp only [Paging.byKey, decide_eq_true_eq] at hab hbc ⊢
    exact le_trans hab hbc

theorem Ranks.descending {le : α → α → Bool} (h : Ranks le) : Ranks (descending le) where
  total a b := h.total b a
  trans a b c hab hbc := h.trans c b a hbc hab

theorem Ranks.nullsLast {le : β → β → Bool} (h : Ranks le) (key : α → Option β) :
    Ranks (nullsLast le key) where
  total a b := by
    unfold Paging.nullsLast
    cases key a with
    | none => cases key b <;> rfl
    | some x =>
      cases key b with
      | none => rfl
      | some y => exact h.total x y
  trans a b c hab hbc := by
    unfold Paging.nullsLast at hab hbc ⊢
    cases hc : key c with
    | none => cases key a <;> rfl
    | some z =>
      rw [hc] at hbc
      cases hb : key b with
      | none =>
        rw [hb] at hbc
        cases hbc
      | some y =>
        rw [hb] at hab hbc
        cases ha : key a with
        | none =>
          rw [ha] at hab
          cases hab
        | some x =>
          rw [ha] at hab
          exact h.trans x y z hab hbc

theorem thenBy_eq_true {le le' : α → α → Bool} {a b : α} :
    thenBy le le' a b = true ↔ le a b = true ∧ (le b a = true → le' a b = true) := by
  unfold thenBy
  cases le a b <;> cases le b a <;> simp

theorem Ranks.thenBy {le le' : α → α → Bool} (h : Ranks le) (h' : Ranks le') :
    Ranks (thenBy le le') where
  total a b := by
    rw [Bool.or_eq_true, thenBy_eq_true, thenBy_eq_true]
    have htotal := Bool.or_eq_true_iff.mp (h.total a b)
    have htotal' := Bool.or_eq_true_iff.mp (h'.total a b)
    by_cases hab : le a b = true
    · by_cases hba : le b a = true
      · exact htotal'.imp (fun hle => ⟨hab, fun _ => hle⟩) fun hle => ⟨hba, fun _ => hle⟩
      · exact Or.inl ⟨hab, fun hle => absurd hle hba⟩
    · exact Or.inr ⟨htotal.resolve_left hab, fun hle => absurd hle hab⟩
  trans a b c hab hbc := by
    rw [thenBy_eq_true] at hab hbc ⊢
    refine ⟨h.trans a b c hab.1 hbc.1, fun hca => ?_⟩
    -- The first key does not decide between any two of the three.
    have hba : le b a = true := h.trans b c a hbc.1 hca
    have hcb : le c b = true := h.trans c a b hca hab.1
    exact h'.trans a b c (hab.2 hba) (hbc.2 hcb)

/-- A further key decides where the first does not. -/
theorem thenBy_antisymm {le le' : α → α → Bool} {a b : α} (hab : thenBy le le' a b = true)
    (hba : thenBy le le' b a = true) : le' a b = true ∧ le' b a = true := by
  rw [thenBy_eq_true] at hab hba
  exact ⟨hab.2 hba.1, hba.2 hab.1⟩

theorem byKey_antisymm [LinearOrder β] {key : α → β} {a b : α} (hab : byKey key a b = true)
    (hba : byKey key b a = true) : key a = key b :=
  le_antisymm (of_decide_eq_true hab) (of_decide_eq_true hba)

/-! ### Sorting -/

/-- A procedure that sorts, whatever the order. -/
structure Sorter (α : Type*) where
  sort : (α → α → Bool) → List α → List α
  perm : ∀ le l, (sort le l).Perm l
  sorted : ∀ le l, Ranks le → (sort le l).Pairwise fun a b => le a b = true

/-- Insertion sort. -/
def insertionSorter (α : Type*) : Sorter α where
  sort le l := l.insertionSort fun a b => le a b = true
  perm le l := List.perm_insertionSort _ l
  sorted le l h := by
    have htotal : Std.Total fun a b => le a b = true :=
      ⟨fun a b => Bool.or_eq_true_iff.mp (h.total a b)⟩
    have htrans : IsTrans α fun a b => le a b = true := ⟨h.trans⟩
    exact List.pairwise_insertionSort _ l

/-- Rows that the order tells apart are sorted in one way only. -/
theorem Sorter.eq_of_ranks (s : Sorter α) {le : α → α → Bool} (h : Ranks le) {l sorted : List α}
    (hanti : ∀ a ∈ l, ∀ b ∈ l, le a b = true → le b a = true → a = b) (hperm : sorted.Perm l)
    (hsorted : sorted.Pairwise fun a b => le a b = true) : s.sort le l = sorted := by
  refine List.Perm.eq_of_pairwise ?_ (s.sorted le l h) hsorted ((s.perm le l).trans hperm.symm)
  exact fun a b ha hb => hanti a ((s.perm le l).mem_iff.mp ha) b (hperm.mem_iff.mp hb)

/-! ### Pages -/

/-- `LIMIT size OFFSET offset` -/
def window (size offset : ℕ) (l : List α) : List α := (l.drop offset).take size

/-- The number of pages. -/
def pageCount (size n : ℕ) : ℕ := (n + size - 1) / size

/-- A window shows nothing from behind its end. -/
theorem mem_take_of_mem_window {size offset n : ℕ} {l : List α} {a : α}
    (h : a ∈ window size offset l) (hn : offset + size ≤ n) : a ∈ l.take n := by
  rw [window, List.take_drop] at h
  exact (List.take_subset_take_left l hn) (List.mem_of_mem_drop h)

theorem length_le_pageCount {size n : ℕ} (hsize : 0 < size) : n ≤ pageCount size n * size := by
  have hdiv := Nat.div_add_mod (n + size - 1) size
  have hmod := Nat.mod_lt (n + size - 1) hsize
  unfold pageCount
  rw [Nat.mul_comm] at hdiv
  omega

theorem lt_of_lt_pageCount {size n i : ℕ} (hsize : 0 < size) (h : i < pageCount size n) :
    i * size < n := by
  have hle : (i + 1) * size ≤ n + size - 1 := by
    calc (i + 1) * size ≤ pageCount size n * size := Nat.mul_le_mul_right _ h
      _ ≤ n + size - 1 := Nat.div_mul_le_self _ _
  rw [Nat.add_mul, Nat.one_mul] at hle
  omega

theorem flatMap_window_range (size m : ℕ) (l : List α) :
    ((List.range m).flatMap fun i => window size (i * size) l) = l.take (m * size) := by
  induction m with
  | zero => simp
  | succ m ih =>
    rw [List.range_succ, List.flatMap_append, ih, List.flatMap_singleton, Nat.add_mul,
      Nat.one_mul, List.take_add]
    rfl

/-- **The pages one after another are the result.** -/
theorem flatMap_window {size : ℕ} (hsize : 0 < size) (l : List α) :
    ((List.range (pageCount size l.length)).flatMap fun i => window size (i * size) l) = l := by
  rw [flatMap_window_range, List.take_of_length_le (length_le_pageCount hsize)]

/-- Every page but the last is full, and the last is not empty. -/
theorem length_window {size i : ℕ} {l : List α} (hsize : 0 < size)
    (hi : i < pageCount size l.length) :
    0 < (window size (i * size) l).length ∧
      (i + 1 < pageCount size l.length → (window size (i * size) l).length = size) := by
  have hlt := lt_of_lt_pageCount hsize hi
  unfold window
  rw [List.length_take, List.length_drop]
  refine ⟨by omega, fun hnext => ?_⟩
  have hfull := lt_of_lt_pageCount hsize hnext
  rw [Nat.add_mul, Nat.one_mul] at hfull
  omega

end Paging

import Mathlib.Algebra.BigOperators.Group.Finset.Piecewise
import Mathlib.Algebra.Order.BigOperators.Group.Finset
import Mathlib.Data.Finset.Basic

/-!
# Counters kept as a maximum per key and read as a sum over keys

Several reporters each announce a running total of their own.  Announcements may
be repeated, reordered and lost; keeping the largest value announced under each
key and summing over the keys gives a total that does not depend on any of that.

## Main definitions

* `MaxCounter κ` — one value per key, zero outside a finite set of keys.
* `MaxCounter.raise c k n` — key `k` announces `n`.
* `MaxCounter.total c` — the sum over all keys.
* `MaxCounter.announce c l` — the announcements of `l` in their order.
* `greatest l k`, `sumGreatest l` — the largest value announced under a key, and the sum
  of these.

## Main results

* `total_mono` — the total is monotone in the values.
* `total_announce_empty` — the total after any announcements.
* `total_le_length`, `length_le_total` — the total against a list of tagged
  entries that bounds, or is bounded by, the value of every key.
-/

/-- A value for every key, zero outside the finite set `keys`. -/
structure MaxCounter (κ : Type*) where
  /-- The keys that have announced a value. -/
  keys : Finset κ
  /-- The largest value announced under a key. -/
  value : κ → ℕ
  /-- A key that never announced anything counts as zero. -/
  supported : ∀ k, k ∉ keys → value k = 0

namespace MaxCounter

variable {κ : Type*}

/-- No key has announced anything. -/
def empty : MaxCounter κ := ⟨∅, fun _ => 0, fun _ _ => rfl⟩

/-- The sum over all keys. -/
def total (c : MaxCounter κ) : ℕ := ∑ k ∈ c.keys, c.value k

@[simp] theorem value_empty (k : κ) : (empty : MaxCounter κ).value k = 0 := rfl

@[simp] theorem total_empty : (empty : MaxCounter κ).total = 0 := rfl

variable [DecidableEq κ]

/-- Key `k` announces `n`: its value becomes the larger of the two. -/
def raise (c : MaxCounter κ) (k : κ) (n : ℕ) : MaxCounter κ where
  keys := insert k c.keys
  value := Function.update c.value k (max (c.value k) n)
  supported := by
    intro k' hk'
    rw [Finset.mem_insert, not_or] at hk'
    rw [Function.update_of_ne hk'.1]
    exact c.supported k' hk'.2

@[simp] theorem value_raise_self (c : MaxCounter κ) (k : κ) (n : ℕ) :
    (c.raise k n).value k = max (c.value k) n := Function.update_self ..

theorem value_raise (c : MaxCounter κ) (k k' : κ) (n : ℕ) :
    (c.raise k n).value k' = if k' = k then max (c.value k) n else c.value k' :=
  Function.update_apply ..

/-- An announcement never lowers a value. -/
theorem value_le_value_raise (c : MaxCounter κ) (k k' : κ) (n : ℕ) :
    c.value k' ≤ (c.raise k n).value k' := by
  rw [value_raise]
  split
  · next h => exact h ▸ le_max_left _ _
  · exact le_rfl

/-- What bounds every value and the announcement bounds every value after it. -/
theorem value_raise_le {c : MaxCounter κ} {k : κ} {n : ℕ} {bound : κ → ℕ}
    (hc : ∀ k', c.value k' ≤ bound k') (hn : n ≤ bound k) (k' : κ) :
    (c.raise k n).value k' ≤ bound k' := by
  rw [value_raise]
  split
  · next h =>
    subst h
    exact max_le (hc k') hn
  · exact hc k'

omit [DecidableEq κ] in
/-- A larger finite set of keys gives the same sum. -/
theorem total_eq_sum {c : MaxCounter κ} {s : Finset κ} (h : c.keys ⊆ s) :
    c.total = ∑ k ∈ s, c.value k :=
  Finset.sum_subset h fun k _ hk => c.supported k hk

/-- **The total is monotone in the values.** -/
theorem total_mono {c d : MaxCounter κ} (h : ∀ k, c.value k ≤ d.value k) :
    c.total ≤ d.total := by
  have hc : c.keys ⊆ c.keys ∪ d.keys := Finset.subset_union_left
  have hd : d.keys ⊆ c.keys ∪ d.keys := Finset.subset_union_right
  rw [total_eq_sum hc, total_eq_sum hd]
  exact Finset.sum_le_sum fun k _ => h k

/-- An announcement never lowers the total. -/
theorem total_le_total_raise (c : MaxCounter κ) (k : κ) (n : ℕ) :
    c.total ≤ (c.raise k n).total :=
  total_mono fun k' => c.value_le_value_raise k k' n

/-! ### Announcements in a row -/

/-- The announcements of a list, one after the other. -/
def announce (c : MaxCounter κ) (l : List (κ × ℕ)) : MaxCounter κ :=
  l.foldl (fun c e => c.raise e.1 e.2) c

/-- The largest value announced under a key, zero if there is none. -/
def greatest (l : List (κ × ℕ)) (k : κ) : ℕ := ((l.filter (·.1 = k)).map Prod.snd).foldr max 0

/-- The sum over the keys of the largest value announced under each. -/
def sumGreatest (l : List (κ × ℕ)) : ℕ := ∑ k ∈ (l.map Prod.fst).toFinset, greatest l k

@[simp] theorem announce_nil (c : MaxCounter κ) : c.announce [] = c := rfl

@[simp] theorem announce_cons (c : MaxCounter κ) (e : κ × ℕ) (l : List (κ × ℕ)) :
    c.announce (e :: l) = (c.raise e.1 e.2).announce l := rfl

theorem announce_append (c : MaxCounter κ) (l l' : List (κ × ℕ)) :
    c.announce (l ++ l') = (c.announce l).announce l' := List.foldl_append

theorem greatest_cons (e : κ × ℕ) (l : List (κ × ℕ)) (k : κ) :
    greatest (e :: l) k = if e.1 = k then max e.2 (greatest l k) else greatest l k := by
  unfold greatest
  by_cases h : e.1 = k
  · rw [if_pos h, List.filter_cons_of_pos (by simpa using h)]
    simp
  · rw [if_neg h, List.filter_cons_of_neg (by simpa using h)]

/-- What is announced under a key is at most the greatest. -/
theorem le_greatest {l : List (κ × ℕ)} {k : κ} {n : ℕ} (h : (k, n) ∈ l) : n ≤ greatest l k := by
  induction l with
  | nil => cases h
  | cons e l ih =>
    rw [greatest_cons]
    rcases List.mem_cons.mp h with rfl | h
    · rw [if_pos rfl]
      omega
    · have := ih h
      split <;> omega

/-- The greatest is at most what bounds all announcements under the key. -/
theorem greatest_le {l : List (κ × ℕ)} {k : κ} {b : ℕ} (h : ∀ n, (k, n) ∈ l → n ≤ b) :
    greatest l k ≤ b := by
  induction l with
  | nil => exact Nat.zero_le b
  | cons e l ih =>
    have hl := ih fun n hn => h n (List.mem_cons_of_mem e hn)
    rw [greatest_cons]
    split
    · next hk =>
      have he := h e.2 (by rw [← hk]; exact List.mem_cons_self)
      omega
    · exact hl

/-- Neither the order of the announcements nor their repetition matters. -/
theorem sumGreatest_congr {l l' : List (κ × ℕ)} (h : ∀ e, e ∈ l ↔ e ∈ l') :
    sumGreatest l = sumGreatest l' := by
  have hkeys : (l.map Prod.fst).toFinset = (l'.map Prod.fst).toFinset := by
    ext k
    simp only [List.mem_toFinset, List.mem_map, h]
  unfold sumGreatest
  rw [hkeys]
  refine Finset.sum_congr rfl fun k _ => Nat.le_antisymm ?_ ?_
  · exact greatest_le fun n hn => le_greatest ((h _).mp hn)
  · exact greatest_le fun n hn => le_greatest ((h _).mpr hn)

theorem value_announce (c : MaxCounter κ) (l : List (κ × ℕ)) (k : κ) :
    (c.announce l).value k = max (c.value k) (greatest l k) := by
  induction l generalizing c with
  | nil => exact (Nat.max_zero _).symm
  | cons e l ih =>
    rw [announce_cons, ih, value_raise, greatest_cons]
    by_cases h : e.1 = k
    · rw [if_pos h.symm, if_pos h, ← h]
      omega
    · rw [if_neg (Ne.symm h), if_neg h]

theorem keys_announce (c : MaxCounter κ) (l : List (κ × ℕ)) :
    (c.announce l).keys = c.keys ∪ (l.map Prod.fst).toFinset := by
  induction l generalizing c with
  | nil => simp
  | cons e l ih =>
    rw [announce_cons, ih]
    ext k
    simp only [raise, Finset.mem_union, Finset.mem_insert, List.map_cons, List.toFinset_cons]
    tauto

/-- **The total after announcements** is the sum of what is greatest under each key. -/
theorem total_announce_empty (l : List (κ × ℕ)) :
    ((empty : MaxCounter κ).announce l).total = sumGreatest l := by
  have hkeys : ((empty : MaxCounter κ).announce l).keys = (l.map Prod.fst).toFinset := by
    rw [keys_announce]
    exact Finset.empty_union _
  unfold total sumGreatest
  rw [hkeys]
  refine Finset.sum_congr rfl fun k _ => ?_
  rw [value_announce, value_empty]
  omega

/-! ### Totals against tagged entries

A list of entries, each tagged with the key it is counted under. -/

variable {ε : Type*} (tag : ε → κ)

/-- Distinct keys count distinct entries. -/
theorem sum_countP_le_length (s : Finset κ) (l : List ε) :
    ∑ k ∈ s, l.countP (fun e => tag e = k) ≤ l.length := by
  induction l with
  | nil => simp
  | cons e l ih =>
    simp only [List.countP_cons, Finset.sum_add_distrib, List.length_cons]
    refine Nat.add_le_add ih ?_
    simp only [decide_eq_true_eq, Finset.sum_ite_eq]
    split <;> omega

/-- When every tag is among the keys, no entry is left uncounted. -/
theorem length_le_sum_countP {s : Finset κ} {l : List ε} (h : ∀ e ∈ l, tag e ∈ s) :
    l.length ≤ ∑ k ∈ s, l.countP (fun e => tag e = k) := by
  induction l with
  | nil => simp
  | cons e l ih =>
    simp only [List.countP_cons, Finset.sum_add_distrib, List.length_cons]
    refine Nat.add_le_add (ih fun e' he' => h e' (List.mem_cons_of_mem e he')) ?_
    simp only [decide_eq_true_eq, Finset.sum_ite_eq, if_pos (h e List.mem_cons_self)]
    exact le_rfl

/-- **No overcount**: values that never exceed the number of entries under their
key sum up to at most the number of entries. -/
theorem total_le_length {c : MaxCounter κ} {l : List ε}
    (h : ∀ k, c.value k ≤ l.countP fun e => tag e = k) : c.total ≤ l.length :=
  (Finset.sum_le_sum fun k _ => h k).trans (sum_countP_le_length tag c.keys l)

/-- **No undercount**: values that cover the entries under every key sum up to at
least the number of entries. -/
theorem length_le_total {c : MaxCounter κ} {l : List ε}
    (h : ∀ k, l.countP (fun e => tag e = k) ≤ c.value k) : l.length ≤ c.total := by
  refine (length_le_sum_countP tag ?_).trans (Finset.sum_le_sum fun k _ => h k)
  intro e he
  -- A key without support has the value zero, but counts an entry.
  by_contra hk
  have hpos : 0 < l.countP (fun e' => tag e' = tag e) :=
    List.countP_pos_iff.mpr ⟨e, he, by simp⟩
  have hzero := c.supported _ hk
  have := h (tag e)
  omega

end MaxCounter

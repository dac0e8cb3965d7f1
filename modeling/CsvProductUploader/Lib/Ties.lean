import CsvProductUploader.Lib.Paging
import Mathlib.Data.List.Perm.Subperm

/-!
# Pages of a result with ties

Rows that an order does not tell apart may come in any order, and in another one in the query
for the next page.  The pages then show every row once, whatever these orders are, exactly if no
page ends among such rows.

## Main definitions

* `before`, `upTo` — how many rows precede a row, and how many precede or equal it.
* `Parted` — no page ends among rows that are tied.
* `Sorter.swapped` — the sorter that exchanges two neighbouring rows if they are tied.
* `pages` — the pages, each sorted in its own way.

## Main results

* `before_le_iff`, `lt_upTo_iff` — where in a sorted result a row can stand.
* `Parted.pages_perm` — the pages of a parted result show every row once.
* `exists_shared_row`, `parted_of_nodup` — those of another may repeat one.
-/

namespace Paging

variable {α : Type*} {le : α → α → Bool}

/-! ### Where a row can stand -/

/-- A position is below the count of a property that goes over to what comes before exactly if
the row there has the property. -/
theorem lt_countP_iff {p : α → Bool} {l : List α}
    (h : l.Pairwise fun a b => p b = true → p a = true) {i : ℕ} (hi : i < l.length) :
    i < l.countP p ↔ p l[i] = true := by
  induction l generalizing i with
  | nil => cases hi
  | cons a l ih =>
    obtain ⟨hhead, htail⟩ := List.pairwise_cons.mp h
    by_cases ha : p a = true
    · rw [List.countP_cons_of_pos ha]
      cases i with
      | zero => exact iff_of_true (Nat.succ_pos _) ha
      | succ i =>
        rw [List.getElem_cons_succ, ← ih htail (Nat.lt_of_succ_lt_succ hi)]
        omega
    · have hnone : ∀ b ∈ l, ¬ p b = true := fun b hb hpb => ha (hhead b hb hpb)
      rw [List.countP_cons_of_neg ha, List.countP_eq_zero.mpr hnone]
      refine iff_of_false (Nat.not_lt_zero i) ?_
      cases i with
      | zero => exact ha
      | succ i => exact hnone _ (List.getElem_mem _)

/-- The number of rows that precede a row. -/
def before (le : α → α → Bool) (rows : List α) (r : α) : ℕ := rows.countP fun a => !le r a

/-- The number of rows that precede a row or are tied with it. -/
def upTo (le : α → α → Bool) (rows : List α) (r : α) : ℕ := rows.countP fun a => le a r

/-- No page ends among rows that are tied. -/
def Parted (le : α → α → Bool) (size : ℕ) (rows : List α) : Prop :=
  ∀ r ∈ rows, ∀ m, ¬(before le rows r < m * size ∧ m * size < upTo le rows r)

instance (size : ℕ) (rows : List α) : Decidable (Parted le size rows) :=
  decidable_of_iff (∀ r ∈ rows, ∀ m < rows.length,
    ¬(before le rows r < m * size ∧ m * size < upTo le rows r)) <| by
    refine forall₂_congr fun r _ => ⟨fun h m hm => ?_, fun h m _ => h m⟩
    have hsize : 0 < size := Nat.pos_of_mul_pos_left (Nat.zero_lt_of_lt hm.1)
    have hle : m ≤ m * size := Nat.le_mul_of_pos_right m hsize
    have hlength : upTo le rows r ≤ rows.length := List.countP_le_length
    exact h m (by omega) hm

section
variable {l : List α} {r : α}

theorem before_perm {rows : List α} (h : l.Perm rows) (r : α) :
    before le l r = before le rows r := h.countP_eq _

theorem upTo_perm {rows : List α} (h : l.Perm rows) (r : α) : upTo le l r = upTo le rows r :=
  h.countP_eq _

theorem before_le_iff (h : Ranks le) (hl : l.Pairwise fun a b => le a b = true) {i : ℕ}
    (hi : i < l.length) : before le l r ≤ i ↔ le r l[i] = true := by
  have hmono : l.Pairwise fun a b => (!le r b) = true → (!le r a) = true := by
    refine hl.imp fun hab hb => ?_
    simp only [Bool.not_eq_true'] at hb ⊢
    rw [Bool.eq_false_iff] at hb ⊢
    exact fun ha => hb (h.trans _ _ _ ha hab)
  have hlt := lt_countP_iff hmono hi
  simp only [Bool.not_eq_true', Bool.eq_false_iff] at hlt
  rw [← Nat.not_lt, before, hlt, not_not]

theorem lt_upTo_iff (h : Ranks le) (hl : l.Pairwise fun a b => le a b = true) {i : ℕ}
    (hi : i < l.length) : i < upTo le l r ↔ le l[i] r = true :=
  lt_countP_iff (hl.imp fun hab hb => h.trans _ _ _ hab hb) hi

theorem Ranks.refl (h : Ranks le) (a : α) : le a a = true := by
  have htotal := h.total a a
  rwa [Bool.or_self] at htotal

/-- In a parted result every row has its page. -/
theorem Parted.div_eq {rows : List α} {size : ℕ} (hparted : Parted le size rows) (h : Ranks le)
    (hperm : l.Perm rows) (hl : l.Pairwise fun a b => le a b = true) (hsize : 0 < size) {i : ℕ}
    (hi : i < l.length) : i / size = before le rows l[i] / size := by
  have hbefore : before le rows l[i] ≤ i := by
    rw [← before_perm hperm]
    exact (before_le_iff h hl hi).mpr (h.refl _)
  have hupTo : i < upTo le rows l[i] := by
    rw [← upTo_perm hperm]
    exact (lt_upTo_iff h hl hi).mpr (h.refl _)
  have hle : before le rows l[i] / size ≤ i / size := Nat.div_le_div_right hbefore
  by_contra hne
  have hlt : before le rows l[i] / size < i / size := by omega
  refine hparted l[i] (hperm.mem_iff.mp (List.getElem_mem hi)) (i / size) ⟨?_, ?_⟩
  · exact (Nat.div_lt_iff_lt_mul hsize).mp hlt
  · exact lt_of_le_of_lt (Nat.div_mul_le_self i size) hupTo

end

theorem mem_window_iff {l : List α} {r : α} {size k : ℕ} (hsize : 0 < size) :
    r ∈ window size (k * size) l ↔ ∃ (i : ℕ) (hi : i < l.length), l[i] = r ∧ i / size = k := by
  rw [window, List.take_drop, List.mem_drop_iff_getElem]
  constructor
  · rintro ⟨j, hj, rfl⟩
    rw [List.length_take] at hj
    refine ⟨k * size + j, by omega, by rw [List.getElem_take], ?_⟩
    rw [Nat.div_eq_iff hsize]
    rw [Nat.add_comm (k * size) size] at hj
    omega
  · rintro ⟨i, hi, rfl, rfl⟩
    have hle := Nat.div_mul_le_self i size
    have hlt := Nat.lt_div_mul_add hsize (a := i)
    refine ⟨i - i / size * size, by rw [List.length_take]; omega, ?_⟩
    rw [List.getElem_take]
    congr 1
    omega

/-! ### Exchanging tied neighbours -/

/-- The rows at a position and behind it exchanged, if they are tied. -/
def swapAt (le : α → α → Bool) (j : ℕ) (l : List α) : List α :=
  match l.drop j with
  | a :: b :: rest => if le b a then l.take j ++ b :: a :: rest else l
  | _ => l

theorem swapAt_perm (le : α → α → Bool) (j : ℕ) (l : List α) : (swapAt le j l).Perm l := by
  unfold swapAt
  split
  · next a b rest hdrop =>
    split
    · have hl : l = l.take j ++ a :: b :: rest := by rw [← hdrop, List.take_append_drop]
      nth_rewrite 2 [hl]
      exact (List.Perm.swap a b rest).append_left _
    · exact List.Perm.refl l
  · exact List.Perm.refl l

theorem swapAt_sorted (j : ℕ) {l : List α}
    (hl : l.Pairwise fun a b => le a b = true) :
    (swapAt le j l).Pairwise fun a b => le a b = true := by
  unfold swapAt
  split
  · next a b rest hdrop =>
    split
    · next hba =>
      have hcut : l = l.take j ++ a :: b :: rest := by rw [← hdrop, List.take_append_drop]
      rw [hcut] at hl
      obtain ⟨hfront, hback, hacross⟩ := List.pairwise_append.mp hl
      obtain ⟨ha, hback⟩ := List.pairwise_cons.mp hback
      obtain ⟨hb, hrest⟩ := List.pairwise_cons.mp hback
      refine List.pairwise_append.mpr ⟨hfront, ?_, fun c hc x hx => hacross c hc x ?_⟩
      · refine List.pairwise_cons.mpr ⟨fun x hx => ?_, List.pairwise_cons.mpr ⟨fun x hx => ?_, ?_⟩⟩
        · rcases List.mem_cons.mp hx with rfl | hx
          · exact hba
          · exact hb x hx
        · exact ha x (List.mem_cons_of_mem b hx)
        · exact hrest
      · exact (List.Perm.swap a b rest).mem_iff.mp hx
    · exact hl
  · exact hl

/-- Insertion sort, and then an exchange. -/
def Sorter.swapped (α : Type*) (j : ℕ) : Sorter α where
  sort le l := swapAt le j ((insertionSorter α).sort le l)
  perm le l := (swapAt_perm le j _).trans ((insertionSorter α).perm le l)
  sorted le l h := swapAt_sorted j ((insertionSorter α).sorted le l h)

/-- A row that is tied with the next one may come after it. -/
theorem getElem_swapAt {l : List α} {j : ℕ} (hj : j + 1 < l.length)
    (htied : le l[j + 1] l[j] = true) :
    ∃ _ : j + 1 < (swapAt le j l).length, (swapAt le j l)[j + 1] = l[j] := by
  have hlength := (swapAt_perm le j l).length_eq
  refine ⟨by omega, ?_⟩
  have hdrop : l.drop j = l[j] :: l[j + 1] :: l.drop (j + 2) := by
    rw [List.drop_eq_getElem_cons (by omega), List.drop_eq_getElem_cons hj]
  have hswap : swapAt le j l = l.take j ++ l[j + 1] :: l[j] :: l.drop (j + 2) := by
    rw [swapAt, hdrop]
    exact if_pos htied
  have hget : (swapAt le j l)[j + 1]? = some l[j] := by
    rw [hswap, List.getElem?_append_right (by rw [List.length_take]; omega), List.length_take,
      Nat.min_eq_left (by omega), Nat.add_sub_cancel_left]
    rfl
  rw [List.getElem?_eq_getElem (by omega)] at hget
  exact Option.some.inj hget

/-! ### The pages -/

/-- The pages of the rows, each sorted in its own way. -/
def pages (le : α → α → Bool) (size : ℕ) (rows : List α) (s : ℕ → Sorter α) : List α :=
  (List.range (pageCount size rows.length)).flatMap fun k =>
    window size (k * size) ((s k).sort le rows)

/-- **Where a page ends among tied rows, one of them may be on two pages.** -/
theorem exists_shared_row (h : Ranks le) {rows : List α} {size : ℕ} (hsize : 0 < size)
    (hparted : ¬ Parted le size rows) :
    ∃ (s : ℕ → Sorter α) (k m : ℕ) (r : α), k < m ∧ m < pageCount size rows.length ∧
      r ∈ window size (k * size) ((s k).sort le rows) ∧
        r ∈ window size (m * size) ((s m).sort le rows) := by
  simp only [Parted, not_forall, not_not] at hparted
  obtain ⟨r, -, m, hbefore, hupTo⟩ := hparted
  obtain ⟨sorted, hsorted⟩ : ∃ sorted, sorted = (insertionSorter α).sort le rows := ⟨_, rfl⟩
  have hperm : sorted.Perm rows := hsorted ▸ (insertionSorter α).perm le rows
  have hpair : sorted.Pairwise fun a b => le a b = true :=
    hsorted ▸ (insertionSorter α).sorted le rows h
  obtain ⟨j, hj⟩ : ∃ j, m * size = j + 1 := ⟨m * size - 1, by omega⟩
  rw [← before_perm hperm, hj] at hbefore
  rw [← upTo_perm hperm, hj] at hupTo
  have hlength : j + 1 < sorted.length := lt_of_lt_of_le hupTo List.countP_le_length
  -- The rows on both sides of the end of the page are tied with `r`.
  have htied : le sorted[j + 1] sorted[j] = true := by
    refine h.trans _ r _ ?_ ?_
    · exact (lt_upTo_iff h hpair hlength).mp hupTo
    · exact (before_le_iff h hpair _).mp (Nat.le_of_lt_succ hbefore)
  obtain ⟨hlt, hget⟩ := getElem_swapAt hlength htied
  have hdiv : (j + 1) / size = m := by rw [← hj, Nat.mul_div_cancel m hsize]
  have hdiv' : j / size < m := (Nat.div_lt_iff_lt_mul hsize).mpr (by omega)
  refine ⟨fun k => if k = m then Sorter.swapped α j else insertionSorter α, j / size, m, sorted[j],
    hdiv', ?_, ?_, ?_⟩
  · by_contra hge
    have hle := length_le_pageCount (n := rows.length) hsize
    have hmul := Nat.mul_le_mul_right size (Nat.le_of_not_lt hge)
    have hrows := hperm.length_eq
    omega
  · beta_reduce
    rw [if_neg hdiv'.ne, ← hsorted]
    exact (mem_window_iff hsize).mpr ⟨j, by omega, rfl, rfl⟩
  · have hswap : (Sorter.swapped α j).sort le rows = swapAt le j sorted := by
      rw [hsorted]
      rfl
    beta_reduce
    rw [if_pos rfl, hswap]
    exact (mem_window_iff hsize).mpr ⟨j + 1, hlt, hget, hdiv⟩

/-- In a parted result a page shows the rows that have their place there. -/
theorem Parted.mem_window_iff {rows : List α} {size : ℕ} (hparted : Parted le size rows)
    (h : Ranks le) (hsize : 0 < size) (s : Sorter α) {k : ℕ} {r : α} :
    r ∈ window size (k * size) (s.sort le rows) ↔ r ∈ rows ∧ before le rows r / size = k := by
  have hdiv := fun {i} hi =>
    hparted.div_eq h (s.perm le rows) (s.sorted le rows h) hsize (i := i) hi
  rw [Paging.mem_window_iff hsize]
  constructor
  · rintro ⟨i, hi, rfl, rfl⟩
    exact ⟨(s.perm le rows).mem_iff.mp (List.getElem_mem hi), (hdiv hi).symm⟩
  · rintro ⟨hr, rfl⟩
    obtain ⟨i, hi, rfl⟩ := List.mem_iff_getElem.mp ((s.perm le rows).mem_iff.mpr hr)
    exact ⟨i, hi, rfl, hdiv hi⟩

/-- If no page repeats a row, none ends among tied rows. -/
theorem parted_of_nodup (h : Ranks le) {rows : List α} {size : ℕ} (hsize : 0 < size)
    (hall : ∀ s : ℕ → Sorter α, (pages le size rows s).Nodup) : Parted le size rows := by
  by_contra hparted
  obtain ⟨s, k, m, r, hkm, hm, hfirst, hsecond⟩ := exists_shared_row h hsize hparted
  obtain ⟨-, hdisjoint⟩ := List.nodup_flatMap.mp (hall s)
  have hpair := List.pairwise_iff_getElem.mp hdisjoint k m
    (by rw [List.length_range]; omega) (by rwa [List.length_range]) hkm
  rw [Function.onFun_apply, List.getElem_range, List.getElem_range] at hpair
  exact hpair hfirst hsecond

/-- **The pages of a parted result show every row once**, however ties are ordered in each. -/
theorem Parted.pages_perm {rows : List α} {size : ℕ} (hparted : Parted le size rows)
    (h : Ranks le) (hnodup : rows.Nodup) (hsize : 0 < size) (s : ℕ → Sorter α) :
    (pages le size rows s).Perm rows := by
  have hwindow : ∀ (t : Sorter α) k, (window size k (t.sort le rows)).Nodup := fun t k =>
    (((t.perm le rows).nodup_iff.mpr hnodup).sublist (List.drop_sublist _ _)).sublist
      (List.take_sublist _ _)
  have hpage : ∀ k, (window size (k * size) ((s k).sort le rows)).Perm
      (window size (k * size) ((s 0).sort le rows)) := by
    intro k
    refine (List.perm_ext_iff_of_nodup (hwindow _ _) (hwindow _ _)).mpr fun r => ?_
    rw [hparted.mem_window_iff h hsize, hparted.mem_window_iff h hsize]
  have hlength := ((s 0).perm le rows).length_eq
  refine (List.Perm.flatMap_left _ fun k _ => hpage k).trans ?_
  rw [← hlength, flatMap_window hsize]
  exact (s 0).perm le rows

end Paging

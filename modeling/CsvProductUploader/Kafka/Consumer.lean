import CsvProductUploader.GoString

/-!
# Consumed records and committed offsets

A consumer reads each partition in order from its committed offset, and commits
by naming records: the client commits, per partition, one past the highest offset
among them.

## Main definitions

* `commitRecords` — the committed offsets after a commit.

## Main results

* `commitRecords_cases` — where a committed offset comes from.
-/

namespace CsvProductUploader

variable {π : Type*} [DecidableEq π]

/-- `CommitRecords`: per partition, one past the highest offset given. -/
def commitRecords (committed : π → ℕ) (recs : List (π × ℕ)) (p : π) : ℕ :=
  match ((recs.filter fun r => r.1 = p).map Prod.snd).max? with
  | none => committed p
  | some o => o + 1

/-- A committed offset stays, or it follows the highest record named. -/
theorem commitRecords_cases (committed : π → ℕ) (recs : List (π × ℕ)) (p : π) :
    (commitRecords committed recs p = committed p ∧ ∀ r ∈ recs, r.1 ≠ p) ∨
      ∃ o, (p, o) ∈ recs ∧ commitRecords committed recs p = o + 1 ∧
        ∀ r ∈ recs, r.1 = p → r.2 ≤ o := by
  unfold commitRecords
  cases hmax : ((recs.filter fun r => r.1 = p).map Prod.snd).max? with
  | none =>
    refine Or.inl ⟨rfl, fun r hr hp => ?_⟩
    have hmem : r ∈ recs.filter fun r => r.1 = p := by simp [hr, hp]
    rw [List.max?_eq_none_iff, List.map_eq_nil_iff] at hmax
    rw [hmax] at hmem
    cases hmem
  | some o =>
    obtain ⟨hmem, hle⟩ := List.max?_eq_some_iff.mp hmax
    obtain ⟨r, hr, rfl⟩ := List.mem_map.mp hmem
    obtain ⟨hrecs, hp⟩ := List.mem_filter.mp hr
    have hp : r.1 = p := by simpa using hp
    refine Or.inr ⟨r.2, hp ▸ hrecs, rfl, fun q hq hqp => ?_⟩
    exact hle q.2 (List.mem_map.mpr ⟨q, by simp [hq, hqp], rfl⟩)

/-- Where no record is named, the offset stays. -/
theorem commitRecords_of_notMem {committed : π → ℕ} {recs : List (π × ℕ)} {p : π}
    (h : ∀ o, (p, o) ∉ recs) : commitRecords committed recs p = committed p := by
  rcases commitRecords_cases committed recs p with ⟨heq, -⟩ | ⟨o, hmem, -, -⟩
  · exact heq
  · exact absurd hmem (h o)

/-- A commit goes no further than the records that it names. -/
theorem commitRecords_le {committed : π → ℕ} {recs : List (π × ℕ)} {p : π} {bound : ℕ}
    (h : committed p ≤ bound) (hrecs : ∀ o, (p, o) ∈ recs → o < bound) :
    commitRecords committed recs p ≤ bound := by
  rcases commitRecords_cases committed recs p with ⟨heq, -⟩ | ⟨o, hmem, heq, -⟩
  · rwa [heq]
  · rw [heq]
    exact hrecs o hmem

/-- A named record is below the offset committed for its partition. -/
theorem lt_commitRecords (committed : π → ℕ) {recs : List (π × ℕ)} {r : π × ℕ} (hr : r ∈ recs) :
    r.2 < commitRecords committed recs r.1 := by
  rcases commitRecords_cases committed recs r.1 with ⟨-, hnone⟩ | ⟨o, -, heq, hmax⟩
  · exact absurd rfl (hnone r hr)
  · have hle := hmax r hr rfl
    omega

/-- Naming records that are not below the committed offsets never lowers them. -/
theorem le_commitRecords {committed : π → ℕ} {recs : List (π × ℕ)}
    (h : ∀ r ∈ recs, committed r.1 ≤ r.2) (p : π) :
    committed p ≤ commitRecords committed recs p := by
  rcases commitRecords_cases committed recs p with ⟨heq, -⟩ | ⟨o, hmem, heq, -⟩
  · exact Nat.le_of_eq heq.symm
  · have hle := h (p, o) hmem
    dsimp only at hle
    omega

end CsvProductUploader

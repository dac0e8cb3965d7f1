import Mathlib.Logic.Function.Basic
import Mathlib.Tactic.Common

/-!
# Tables with one entry replaced

A table is a partial function.  What a program does to it is mostly to put one entry, and
what is proved of it mostly holds of every entry.

## Main results

* `forall_update_some` — what holds of the entry that is put, and of every other, holds of
  the whole table.
* `of_update_none`, `eq_of_update_some`, `of_update_some_eq_none` — the entries of a table
  after one is taken out, or put.
-/

namespace Update

variable {κ α : Type*} [DecidableEq κ] {f g : κ → Option α} {k : κ} {a : α}

/-- What holds of the entry that is put, and of every other, holds of the whole table. -/
theorem forall_update_some {P : κ → α → Prop} (hg : g = Function.update f k (some a))
    (hself : P k a) (hother : ∀ j b, j ≠ k → f j = some b → P j b) :
    ∀ j b, g j = some b → P j b := by
  intro j b h
  rw [hg, Function.update_apply] at h
  split at h
  · next hj =>
    obtain rfl := Option.some.inj h
    exact hj ▸ hself
  · next hj => exact hother j b hj h

/-- An entry that is left when one is taken out. -/
theorem of_update_none {j : κ} {b : α} (h : Function.update f k none j = some b) :
    j ≠ k ∧ f j = some b := by
  rw [Function.update_apply] at h
  split at h
  · cases h
  · next hj => exact ⟨hj, h⟩

theorem eq_of_update_some {b : α} (h : Function.update f k (some a) k = some b) : a = b := by
  rw [Function.update_self] at h
  exact Option.some.inj h

/-- Where nothing is after one entry is put, nothing was. -/
theorem of_update_some_eq_none {j : κ} (h : Function.update f k (some a) j = none) :
    j ≠ k ∧ f j = none := by
  rw [Function.update_apply] at h
  split at h
  · cases h
  · next hj => exact ⟨hj, h⟩

/-- Who was there is there still. -/
theorem update_some_ne_none {j : κ} (h : j ≠ k → f j ≠ none) :
    Function.update f k (some a) j ≠ none := by
  rw [Function.update_apply]
  split
  · exact Option.some_ne_none a
  · next hj => exact h hj

end Update

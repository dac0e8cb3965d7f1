import Mathlib.Tactic.Common

/-!
# Chains of checks

A value built by checks that each may fail, written in the `Except` monad.  The chain
succeeds exactly if every check does, and the lemmas here peel the checks off one by one.

## Main definitions

* `reject` — fail under a condition.
* `orError` — fail for want of a value.

## Main results

* `bind_eq_ok_iff`, `reject_eq_ok_iff`, `orError_eq_ok_iff`, `mapError_eq_ok_iff`.
-/

namespace Checks

variable {ε ε' α β : Type}

/-- Fails with `e` under the condition `c`. -/
def reject (c : Prop) [Decidable c] (e : ε) : Except ε Unit := if c then .error e else .ok ()

/-- The value, or the error for want of one. -/
def orError (e : ε) : Option α → Except ε α
  | some a => .ok a
  | none => .error e

/-- A chain succeeds exactly if its head does and the rest succeeds on what it yields. -/
theorem bind_eq_ok_iff {x : Except ε α} {f : α → Except ε β} {b : β} :
    x >>= f = .ok b ↔ ∃ a, x = .ok a ∧ f a = .ok b := by
  cases x with
  | error e => simp [bind, Except.bind]
  | ok a => simp [bind, Except.bind]

theorem reject_eq_ok_iff {c : Prop} [Decidable c] {e : ε} {u : Unit} :
    reject c e = .ok u ↔ ¬c := by
  unfold reject
  split
  · next h => simp [h]
  · next h => simp [h]

theorem orError_eq_ok_iff {e : ε} {o : Option α} {a : α} : orError e o = .ok a ↔ o = some a := by
  cases o with
  | none => simp [orError]
  | some b => simp [orError]

theorem mapError_eq_ok_iff {x : Except ε α} {f : ε → ε'} {a : α} :
    x.mapError f = .ok a ↔ x = .ok a := by
  cases x with
  | error e => simp [Except.mapError]
  | ok b => simp [Except.mapError]

end Checks

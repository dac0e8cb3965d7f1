import Mathlib.Data.List.Basic
import Mathlib.Logic.Function.Basic
import Mathlib.Tactic.Common

/-!
# Requests whose answers overtake each other

Requests are numbered as they are made and answered in any order.  What is held is set anew by
every answer that arrives, whichever request it is to.

## Main definitions

* `Requests` — the requests made, and the answers that have arrived.
* `Requests.ask`, `Requests.arrive` — one more of either.
* `Current` — what is held is what the answer to the most recent request shows.

## Main results

* `current_ask`, `Current.arrive` — how requests and answers keep it.
* `Current.of_allArrived` — once every answer is there, the most recent one is held.
-/

/-- The requests made, and the answers that have arrived, by the number of their request. -/
structure Requests (Q A : Type) where
  asked : List Q
  answers : ℕ → Option A
  lt_of_answers : ∀ i, answers i ≠ none → i < asked.length

namespace Requests
variable {Q A H : Type}

/-- No request yet. -/
def empty : Requests Q A where
  asked := []
  answers _ := none
  lt_of_answers _ h := absurd rfl h

/-- One more request. -/
def ask (r : Requests Q A) (q : Q) : Requests Q A where
  asked := r.asked ++ [q]
  answers := r.answers
  lt_of_answers i h := by
    have hlt := r.lt_of_answers i h
    rw [List.length_append, List.length_singleton]
    omega

/-- The number of the most recent request, if there is one. -/
def last (r : Requests Q A) : ℕ := r.asked.length - 1

/-- The answer to it, if it has arrived. -/
def latest (r : Requests Q A) : Option A := r.answers r.last

/-- The request is made, and its answer has not arrived. -/
def Open (r : Requests Q A) (i : ℕ) : Prop := i < r.asked.length ∧ r.answers i = none

instance (r : Requests Q A) (i : ℕ) : Decidable (r.Open i) :=
  inferInstanceAs (Decidable (_ ∧ _))

/-- The answer to an open request arrives. -/
def arrive (r : Requests Q A) (i : ℕ) (a : A) (h : r.Open i) : Requests Q A where
  asked := r.asked
  answers := Function.update r.answers i (some a)
  lt_of_answers j hj := by
    by_cases hji : j = i
    · exact hji ▸ h.1
    · rw [Function.update_of_ne hji] at hj
      exact r.lt_of_answers j hj

/-- Every answer has arrived. -/
def AllArrived (r : Requests Q A) : Prop := ∀ i < r.asked.length, r.answers i ≠ none

instance (r : Requests Q A) : Decidable r.AllArrived :=
  inferInstanceAs (Decidable (∀ i < r.asked.length, _))

theorem latest_ask (r : Requests Q A) (q : Q) : (r.ask q).latest = none := by
  by_contra h
  have hlt := r.lt_of_answers _ h
  have hlength : (r.ask q).asked.length = r.asked.length + 1 := List.length_append
  rw [last, hlength] at hlt
  omega

theorem latest_of_asked_nil {r : Requests Q A} (h : r.asked = []) : r.latest = none := by
  by_contra hne
  have hlt := r.lt_of_answers _ hne
  rw [h] at hlt
  exact absurd hlt (Nat.not_lt_zero _)

theorem open_ask (r : Requests Q A) (q : Q) : (r.ask q).Open (r.ask q).last := by
  have hlength : (r.ask q).asked.length = r.asked.length + 1 := List.length_append
  refine ⟨?_, latest_ask r q⟩
  rw [last]
  omega

variable {r : Requests Q A} {i : ℕ} {a : A} {h : r.Open i}

theorem latest_arrive_last (hi : i = r.last) : (r.arrive i a h).latest = some a := by
  subst hi
  exact Function.update_self ..

theorem latest_arrive_of_ne (hi : i ≠ r.last) : (r.arrive i a h).latest = r.latest :=
  Function.update_of_ne (Ne.symm hi) ..

/-! ### What is held -/

/-- What is held is what the answer to the most recent request shows, once that has arrived. -/
def Current (shows_ : A → H → Prop) (r : Requests Q A) (held : H) : Prop :=
  ∀ a, r.latest = some a → shows_ a held

variable {shows_ : A → H → Prop} {held held' : H}

/-- A new request has no answer that anything could differ from. -/
theorem current_ask (r : Requests Q A) (q : Q) (held : H) : Current shows_ (r.ask q) held := by
  intro a ha
  rw [latest_ask] at ha
  cases ha

/-- **An answer keeps what is held current** if it is that to the most recent request and shown,
or if it comes before that one or changes nothing. -/
theorem Current.arrive (hcurrent : Current shows_ r held) (h : r.Open i)
    (hlast : i = r.last → shows_ a held')
    (hother : i ≠ r.last → r.latest = none ∨ held' = held) :
    Current shows_ (r.arrive i a h) held' := by
  intro b hb
  by_cases hi : i = r.last
  · rw [latest_arrive_last hi] at hb
    obtain rfl := Option.some.inj hb
    exact hlast hi
  · rw [latest_arrive_of_ne hi] at hb
    rcases hother hi with hnone | heq
    · rw [hnone] at hb
      cases hb
    · rw [heq]
      exact hcurrent b hb

/-- **Once every answer has arrived, that to the most recent request is held.** -/
theorem Current.of_allArrived (hcurrent : Current shows_ r held) (hall : r.AllArrived)
    (hasked : r.asked ≠ []) : ∃ a, r.latest = some a ∧ shows_ a held := by
  have hlt : r.last < r.asked.length := by
    have hpos := List.length_pos_of_ne_nil hasked
    rw [last]
    omega
  obtain ⟨a, ha⟩ := Option.ne_none_iff_exists'.mp (hall _ hlt)
  exact ⟨a, ha, hcurrent a ha⟩

end Requests

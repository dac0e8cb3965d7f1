import Mathlib.Data.Option.Basic
import Mathlib.Tactic.Common

/-!
# Runs of a partial step function

A machine is a step function `step : σ → α → Option σ`: the label `α` names what
happens, including every outcome the machine does not control, and `none` says
the label is not enabled.  A run is a list of labels.

Properties of runs are proved in one of two ways.  An invariant is preserved by
every step.  A *guarded* invariant is preserved by every step that meets a
condition, and then holds along every run all of whose steps meet it.

## Main definitions

* `exec step s as` — the state after the labels `as`, if all are enabled.
* `Meets step C s as` — every step of the run meets the condition `C`.
* `Halts step a s t` — the label `a` alone leads from `s` to `t`, and no further.

## Main results

* `exec_invariant`, `exec_invariant_of_meets`, `exec_history_of_meets` — the induction
  rules.
* `exec_append_eq_some`, `meets_append` — runs and conditions compose.
* `exec_filter` — a run with the steps of others left out.
* `Halts.unique`, `halts_iff_of_step` — where one label leads, and how this is found.
-/

namespace Runs

variable {σ α : Type*}

/-- The state a run of labels leads to; `none` when some label is not enabled. -/
def exec (step : σ → α → Option σ) : σ → List α → Option σ
  | s, [] => some s
  | s, a :: as => (step s a).bind fun s' => exec step s' as

@[simp] theorem exec_nil (step : σ → α → Option σ) (s : σ) : exec step s [] = some s := rfl

@[simp] theorem exec_cons (step : σ → α → Option σ) (s : σ) (a : α) (as : List α) :
    exec step s (a :: as) = (step s a).bind fun s' => exec step s' as := rfl

theorem exec_cons_eq_some {step : σ → α → Option σ} {s t : σ} {a : α} {as : List α} :
    exec step s (a :: as) = some t ↔ ∃ s', step s a = some s' ∧ exec step s' as = some t := by
  rw [exec_cons, Option.bind_eq_some_iff]

theorem exec_append (step : σ → α → Option σ) (s : σ) (as bs : List α) :
    exec step s (as ++ bs) = (exec step s as).bind fun s' => exec step s' bs := by
  induction as generalizing s with
  | nil => rfl
  | cons a as ih =>
    cases h : step s a with
    | none => simp [h]
    | some s' => simp [h, ih]

/-- **Runs compose.** -/
theorem exec_append_eq_some {step : σ → α → Option σ} {s u : σ} {as bs : List α} :
    exec step s (as ++ bs) = some u ↔
      ∃ t, exec step s as = some t ∧ exec step t bs = some u := by
  rw [exec_append, Option.bind_eq_some_iff]

/-- Every step of the run meets `C`, a condition on the state before the step
and its label. -/
def Meets (step : σ → α → Option σ) (C : σ → α → Prop) : σ → List α → Prop
  | _, [] => True
  | s, a :: as => C s a ∧ ∀ s', step s a = some s' → Meets step C s' as

@[simp] theorem meets_nil (step : σ → α → Option σ) (C : σ → α → Prop) (s : σ) :
    Meets step C s [] := trivial

theorem meets_cons {step : σ → α → Option σ} {C : σ → α → Prop} {s : σ} {a : α} {as : List α} :
    Meets step C s (a :: as) ↔ C s a ∧ ∀ s', step s a = some s' → Meets step C s' as := Iff.rfl

/-- The steps of a composed run are those of its parts. -/
theorem meets_append {step : σ → α → Option σ} {C : σ → α → Prop} {s t : σ} {as bs : List α}
    (h : exec step s as = some t) :
    Meets step C s (as ++ bs) ↔ Meets step C s as ∧ Meets step C t bs := by
  induction as generalizing s with
  | nil =>
    simp only [exec_nil, Option.some.injEq] at h
    simp [h]
  | cons a as ih =>
    obtain ⟨s', hs, hrest⟩ := exec_cons_eq_some.mp h
    simp only [List.cons_append, meets_cons, hs, Option.some.injEq, forall_eq']
    rw [ih hrest, and_assoc]

/-- A condition on the labels alone is met by every run of such labels. -/
theorem meets_of_forall {step : σ → α → Option σ} {C : σ → α → Prop} {as : List α}
    (h : ∀ a ∈ as, ∀ s, C s a) (s : σ) : Meets step C s as := by
  induction as generalizing s with
  | nil => trivial
  | cons a as ih =>
    obtain ⟨ha, has⟩ := List.forall_mem_cons.mp h
    exact ⟨ha s, fun s' _ => ih has s'⟩

/-- A run with a step that does not meet `C` splits at the first such step. -/
theorem exists_of_not_meets {step : σ → α → Option σ} {C : σ → α → Prop} {s t : σ} {as : List α}
    (h : exec step s as = some t) (hC : ¬ Meets step C s as) :
    ∃ bs a cs u v, as = bs ++ a :: cs ∧ Meets step C s bs ∧ exec step s bs = some u ∧ ¬ C u a ∧
      step u a = some v ∧ exec step v cs = some t := by
  induction as generalizing s with
  | nil => exact absurd trivial hC
  | cons a as ih =>
    obtain ⟨s', hs', hrest⟩ := exec_cons_eq_some.mp h
    have hmeets : ∀ {bs}, Meets step C s' bs → ∀ s'', step s a = some s'' →
        Meets step C s'' bs := by
      intro bs hM s'' hs''
      rw [hs'] at hs''
      cases hs''
      exact hM
    -- The first label may fail already; otherwise the split is one of the rest.
    by_cases ha : C s a
    · have hC' : ¬ Meets step C s' as := fun hM => hC ⟨ha, hmeets hM⟩
      obtain ⟨bs, b, cs, u, v, rfl, hM, hbs, hb, hv, hcs⟩ := ih hrest hC'
      exact ⟨a :: bs, b, cs, u, v, rfl, ⟨ha, hmeets hM⟩,
        exec_cons_eq_some.mpr ⟨s', hs', hbs⟩, hb, hv, hcs⟩
    · exact ⟨[], a, as, s, s', rfl, trivial, rfl, ha, hs', hrest⟩

theorem Meets.mono {step : σ → α → Option σ} {C D : σ → α → Prop} (hCD : ∀ s a, C s a → D s a)
    {s : σ} {as : List α} (h : Meets step C s as) : Meets step D s as := by
  induction as generalizing s with
  | nil => trivial
  | cons a as ih => exact ⟨hCD s a h.1, fun s' hs => ih (h.2 s' hs)⟩

/-- Two conditions met step by step are met together. -/
theorem Meets.and {step : σ → α → Option σ} {C D : σ → α → Prop} {s : σ} {as : List α}
    (hC : Meets step C s as) (hD : Meets step D s as) :
    Meets step (fun s a => C s a ∧ D s a) s as := by
  induction as generalizing s with
  | nil => trivial
  | cons a as ih => exact ⟨⟨hC.1, hD.1⟩, fun s' hs => ih (hC.2 s' hs) (hD.2 s' hs)⟩

instance {step : σ → α → Option σ} {C : σ → α → Prop} [∀ s a, Decidable (C s a)] :
    ∀ s as, Decidable (Meets step C s as)
  | _, [] => isTrue trivial
  | s, a :: as =>
    match h : step s a with
    | none => decidable_of_iff (C s a) ⟨fun hC => ⟨hC, by simp [h]⟩, fun hM => hM.1⟩
    | some s' =>
      have : Decidable (Meets step C s' as) := instDecidableMeets s' as
      decidable_of_iff (C s a ∧ Meets step C s' as)
        ⟨fun hC => ⟨hC.1, by simpa [h] using hC.2⟩, fun hM => ⟨hM.1, hM.2 s' h⟩⟩

/-- **The guarded induction rule.**  What every step meeting `C` preserves holds
after every run whose steps all meet `C`. -/
theorem exec_invariant_of_meets {step : σ → α → Option σ} {C : σ → α → Prop} {I : σ → Prop}
    (hstep : ∀ s a s', I s → C s a → step s a = some s' → I s') {s t : σ} {as : List α}
    (hs : I s) (hC : Meets step C s as) (h : exec step s as = some t) : I t := by
  induction as generalizing s with
  | nil =>
    simp only [exec_nil, Option.some.injEq] at h
    exact h ▸ hs
  | cons a as ih =>
    obtain ⟨s', hs', hrest⟩ := exec_cons_eq_some.mp h
    exact ih (hstep s a s' hs hC.1 hs') (hC.2 s' hs') hrest

/-- **The induction rule.**  What every step preserves holds after every run. -/
theorem exec_invariant {step : σ → α → Option σ} {I : σ → Prop}
    (hstep : ∀ s a s', I s → step s a = some s' → I s') {s t : σ} {as : List α}
    (hs : I s) (h : exec step s as = some t) : I t := by
  refine exec_invariant_of_meets (C := fun _ _ => True) (fun s a s' hI _ => hstep s a s' hI) hs
    ?_ h
  exact meets_of_forall (fun _ _ _ => trivial) s

/-- **The induction rule with a history.**  What relates the labels so far to the state
holds after every run whose steps all meet `C`. -/
theorem exec_history_of_meets {step : σ → α → Option σ} {C : σ → α → Prop}
    {I : List α → σ → Prop}
    (hstep : ∀ as s a s', I as s → C s a → step s a = some s' → I (as ++ [a]) s') {s t : σ}
    {as : List α} (hs : I [] s) (hC : Meets step C s as) (h : exec step s as = some t) :
        I as t := by
  -- On the labels that are left, with those taken so far as `bs`.
  have hgen : ∀ (bs : List α) (u : σ), I bs u → ∀ as, Meets step C u as →
      exec step u as = some t → I (bs ++ as) t := by
    intro bs u hu as
    induction as generalizing bs u with
    | nil =>
      intro _ hrun
      obtain rfl := Option.some.inj hrun
      rwa [List.append_nil]
    | cons a as ih =>
      intro hM hrun
      obtain ⟨u', hu', hrest⟩ := exec_cons_eq_some.mp hrun
      have hnext := ih (bs ++ [a]) u' (hstep bs u a u' hu hM.1 hu') (hM.2 u' hu') hrest
      rwa [List.append_assoc, List.singleton_append] at hnext
  exact hgen [] s hs as hC h

/-! ### Runs of one party -/

/-- **The projection rule.**  If a party's steps can be taken alone, and those of others
change nothing that it sees, its steps make a run by themselves. -/
theorem exec_filter {step : σ → α → Option σ} {own : α → Bool} {V : σ → σ → Prop}
    (hown : ∀ s t a s', V s t → own a = true → step s a = some s' →
      ∃ t', step t a = some t' ∧ V s' t')
    (hother : ∀ s t a s', V s t → own a = false → step s a = some s' → V s' t)
    {s t s' : σ} {as : List α} (hV : V s t) (h : exec step s as = some s') :
    ∃ t', exec step t (as.filter own) = some t' ∧ V s' t' := by
  induction as generalizing s t with
  | nil =>
    obtain rfl := Option.some.inj h
    exact ⟨t, rfl, hV⟩
  | cons a as ih =>
    obtain ⟨u, hu, hrest⟩ := exec_cons_eq_some.mp h
    cases ha : own a with
    | true =>
      obtain ⟨v, hv, hV'⟩ := hown s t a u hV ha hu
      obtain ⟨t', ht', hV''⟩ := ih hV' hrest
      refine ⟨t', ?_, hV''⟩
      rw [List.filter_cons_of_pos ha]
      exact exec_cons_eq_some.mpr ⟨v, hv, ht'⟩
    | false =>
      rw [List.filter_cons_of_neg (by simp [ha])]
      exact ih (hother s t a u hV ha hu) hrest

/-! ### Runs of one label -/

/-- The label `a`, for as long as it is enabled, leads from `s` to `t`. -/
def Halts (step : σ → α → Option σ) (a : α) (s t : σ) : Prop :=
  (∃ n, exec step s (List.replicate n a) = some t) ∧ step t a = none

theorem halts_self {step : σ → α → Option σ} {a : α} {s : σ} (h : step s a = none) :
    Halts step a s s := ⟨⟨0, rfl⟩, h⟩

/-- A step of the label leads to where the rest of its run leads. -/
theorem halts_iff_of_step {step : σ → α → Option σ} {a : α} {s s' t : σ} (h : step s a = some s') :
    Halts step a s t ↔ Halts step a s' t := by
  constructor
  · rintro ⟨⟨n, hrun⟩, hend⟩
    cases n with
    | zero =>
      obtain rfl : s = t := Option.some.inj hrun
      rw [h] at hend
      cases hend
    | succ n =>
      obtain ⟨u, hu, hrest⟩ := exec_cons_eq_some.mp hrun
      obtain rfl : s' = u := Option.some.inj (h.symm.trans hu)
      exact ⟨⟨n, hrest⟩, hend⟩
  · rintro ⟨⟨n, hrun⟩, hend⟩
    exact ⟨⟨n + 1, exec_cons_eq_some.mpr ⟨s', h, hrun⟩⟩, hend⟩

/-- One label leads to one end. -/
theorem Halts.unique {step : σ → α → Option σ} {a : α} {s t u : σ} (ht : Halts step a s t)
    (hu : Halts step a s u) : t = u := by
  obtain ⟨⟨n, hrun⟩, hend⟩ := ht
  induction n generalizing s with
  | zero =>
    obtain rfl : s = t := Option.some.inj hrun
    obtain ⟨⟨m, hrun'⟩, -⟩ := hu
    cases m with
    | zero => exact Option.some.inj hrun'
    | succ m =>
      obtain ⟨v, hv, -⟩ := exec_cons_eq_some.mp hrun'
      rw [hend] at hv
      cases hv
  | succ n ih =>
    obtain ⟨v, hv, hrest⟩ := exec_cons_eq_some.mp hrun
    exact ih ((halts_iff_of_step hv).mp hu) hrest

end Runs

import Mathlib.Algebra.Order.Ring.Int
import Mathlib.Tactic.Common
import Mathlib.Tactic.Ring

/-!
# The pace of retries

`BackoffPolicy.DelayFor` doubles a delay once for every attempt and caps it.  Delays are
`int64` nanoseconds: the cap is tested after the doubling, which may have wrapped around.

## Main definitions

* `BackoffPolicy`, `BackoffPolicy.delayFor` — the policy and its loop.
* `BackoffPolicy.capped` — the capped exponential over the integers.
* `BackoffPolicy.Paced` — the delays up to an attempt are these.
* `BackoffPolicy.NoOverflow` — no doubling on the way there leaves the `int64` range.

## Main results

* `BackoffPolicy.noOverflow_of_max_lt` — a cap below half of the range is enough.
* `BackoffPolicy.paced_iff` — the delays are paced exactly if no doubling overflows;
  `BackoffPolicy.paced_iff_default` — the platform's policy.
* `BackoffPolicy.not_paced` — a cap above half of the range.
-/

namespace CsvProductUploader.Catalog

/-- `time.Duration` is `int64`, in nanoseconds. -/
structure BackoffPolicy where
  base : Int64
  max : Int64
  deriving DecidableEq, Repr

/-- `DefaultBackoff`: half a second, up to five seconds. -/
def defaultBackoff : BackoffPolicy := ⟨500000000, 5000000000⟩

namespace BackoffPolicy

/-- The loop of `DelayFor`, with `n` rounds to go. -/
def doubling (b : BackoffPolicy) : ℕ → Int64 → Int64
  | 0, delay => delay
  | n + 1, delay => if b.max < delay * 2 then b.max else b.doubling n (delay * 2)

/-- `DelayFor` -/
def delayFor (b : BackoffPolicy) (attempt : ℤ) : Int64 :=
  if attempt < 0 then b.base else b.doubling attempt.toNat b.base

/-- The capped exponential over the integers. -/
def capped (b : BackoffPolicy) (n : ℕ) : ℤ := min (b.base.toInt * 2 ^ n) b.max.toInt

/-! ### One doubling -/

section
variable {b : BackoffPolicy} {delay : Int64}

theorem toInt_double (delay : Int64) : (delay * 2).toInt = (delay.toInt * 2).bmod (2 ^ 64) :=
  Int64.toInt_mul delay 2

/-- A product within the range is exact. -/
theorem toInt_double_of_lt (h : 0 < delay.toInt) (hlt : delay.toInt * 2 < 2 ^ 63) :
    (delay * 2).toInt = delay.toInt * 2 := by
  rw [toInt_double]
  exact Int.bmod_eq_of_le (by omega) (by omega)

/-- A product beyond the range comes out negative. -/
theorem toInt_double_neg (hge : 2 ^ 63 ≤ delay.toInt * 2) : (delay * 2).toInt < 0 := by
  have hrange := delay.toInt_lt
  rw [toInt_double, Int.bmod_def, Int.emod_eq_of_lt (by omega) (by omega)]
  split <;> omega

theorem doubling_capped (h : 0 < delay.toInt) (hlt : delay.toInt * 2 < 2 ^ 63)
    (hmax : b.max.toInt < delay.toInt * 2) (n : ℕ) : b.doubling (n + 1) delay = b.max := by
  rw [doubling, if_pos]
  rwa [Int64.lt_iff_toInt_lt, toInt_double_of_lt h hlt]

theorem doubling_succ (hmax : (delay * 2).toInt ≤ b.max.toInt) (n : ℕ) :
    b.doubling (n + 1) delay = b.doubling n (delay * 2) := by
  rw [doubling, if_neg]
  rwa [Int64.lt_iff_toInt_lt, not_lt]

/-! ### The loop -/

/-- **Where no product overflows, the loop computes the capped exponential.** -/
theorem toInt_doubling (h : 0 < delay.toInt) (hmax : delay.toInt ≤ b.max.toInt) {n : ℕ}
    (hsafe : ∀ j < n, delay.toInt * 2 ^ j ≤ b.max.toInt → delay.toInt * 2 ^ (j + 1) < 2 ^ 63) :
    (b.doubling n delay).toInt = min (delay.toInt * 2 ^ n) b.max.toInt := by
  induction n generalizing delay with
  | zero =>
    rw [doubling, pow_zero, mul_one]
    omega
  | succ n ih =>
    have hlt : delay.toInt * 2 < 2 ^ 63 := by
      have hfirst := hsafe 0 n.succ_pos (by rwa [pow_zero, mul_one])
      rwa [zero_add, pow_one] at hfirst
    have hdouble := toInt_double_of_lt h hlt
    have hpow : ∀ k, delay.toInt * 2 * 2 ^ k = delay.toInt * 2 ^ (k + 1) := fun k => by ring
    rcases lt_or_ge b.max.toInt (delay.toInt * 2) with hover | hunder
    · have hle : delay.toInt * 2 ≤ delay.toInt * 2 ^ (n + 1) := by
        rw [← hpow]
        exact le_mul_of_one_le_right (by omega) (one_le_pow₀ (by omega))
      rw [doubling_capped h hlt hover]
      omega
    · rw [doubling_succ (by omega), ih (by omega) (by omega), hdouble, hpow]
      intro j hj hjmax
      rw [hdouble, hpow] at hjmax ⊢
      exact hsafe (j + 1) (by omega) hjmax

/-- **The first product that overflows is returned**: it is negative, so not above the cap. -/
theorem doubling_neg (h : 0 < delay.toInt) {j : ℕ} (hmax : delay.toInt * 2 ^ j ≤ b.max.toInt)
    (hover : 2 ^ 63 ≤ delay.toInt * 2 ^ (j + 1)) : (b.doubling (j + 1) delay).toInt < 0 := by
  induction j generalizing delay with
  | zero =>
    rw [zero_add, pow_one] at hover
    rw [pow_zero, mul_one] at hmax
    have hneg := toInt_double_neg hover
    -- A negative product is not above the cap, so the loop goes on with it.
    rw [doubling_succ (by omega)]
    exact hneg
  | succ j ih =>
    have hpow : ∀ k, delay.toInt * 2 * 2 ^ k = delay.toInt * 2 ^ (k + 1) := fun k => by ring
    have hle : delay.toInt * 2 ≤ delay.toInt * 2 ^ (j + 1) := by
      rw [← hpow]
      exact le_mul_of_one_le_right (by omega) (one_le_pow₀ (by omega))
    have hrange := b.max.toInt_lt
    have hdouble := toInt_double_of_lt h (by omega)
    rw [doubling_succ (by omega)]
    refine ih (by omega) ?_ ?_
    · rwa [hdouble, hpow]
    · rwa [hdouble, hpow]

end

/-! ### The delays -/

variable {b : BackoffPolicy}

theorem delayFor_natCast (b : BackoffPolicy) (n : ℕ) : b.delayFor n = b.doubling n b.base := by
  rw [delayFor, if_neg (by omega), Int.toNat_natCast]

/-- The delays of the attempts up to `n` are the capped exponential. -/
structure Paced (b : BackoffPolicy) (n : ℕ) : Prop where
  exact : ∀ m ≤ n, (b.delayFor m).toInt = b.capped m
  pos : ∀ m ≤ n, 0 < b.delayFor m
  le_max : ∀ m ≤ n, b.delayFor m ≤ b.max
  mono : ∀ m m' : ℕ, m ≤ m' → m' ≤ n → b.delayFor m ≤ b.delayFor m'

/-- No doubling up to attempt `n` leaves the range of `int64`: what is doubled is at most the
cap. -/
def NoOverflow (b : BackoffPolicy) (n : ℕ) : Prop :=
  ∀ j < n, b.base.toInt * 2 ^ j ≤ b.max.toInt → b.base.toInt * 2 ^ (j + 1) < 2 ^ 63

theorem noOverflow_of_max_lt (h : b.max.toInt < 2 ^ 62) (n : ℕ) : b.NoOverflow n := by
  intro j _ hj
  rw [pow_succ, ← mul_assoc]
  omega

theorem capped_pos (hbase : 0 < b.base.toInt) (hmax : b.base.toInt ≤ b.max.toInt) (n : ℕ) :
    0 < b.capped n := by
  rw [capped, lt_min_iff]
  exact ⟨Int.mul_pos hbase (pow_pos (by omega) n), by omega⟩

theorem capped_mono (hbase : 0 < b.base.toInt) {m n : ℕ} (h : m ≤ n) :
    b.capped m ≤ b.capped n := by
  refine min_le_min_right _ (mul_le_mul_of_nonneg_left ?_ hbase.le)
  exact pow_le_pow_right₀ (by omega) h

/-- **The delays are the capped exponential exactly if no doubling overflows.** -/
theorem paced_iff (hbase : 0 < b.base) (hmax : b.base ≤ b.max) (n : ℕ) :
    b.Paced n ↔ b.NoOverflow n := by
  have hpos : 0 < b.base.toInt := Int64.lt_iff_toInt_lt.mp hbase
  have hle : b.base.toInt ≤ b.max.toInt := Int64.le_iff_toInt_le.mp hmax
  constructor
  · intro hpaced j hj hjmax
    by_contra hover
    have hneg := doubling_neg hpos hjmax (by omega)
    have hexact := hpaced.exact (j + 1) hj
    rw [delayFor_natCast] at hexact
    have hcapped := capped_pos hpos hle (j + 1)
    omega
  · intro hsafe
    have hexact : ∀ m ≤ n, (b.delayFor m).toInt = b.capped m := by
      intro m hm
      rw [delayFor_natCast]
      exact toInt_doubling hpos hle fun j hj => hsafe j (by omega)
    refine ⟨hexact, fun m hm => ?_, fun m hm => ?_, fun m m' hm hm' => ?_⟩
    · rw [Int64.lt_iff_toInt_lt, hexact m hm]
      exact capped_pos hpos hle m
    · rw [Int64.le_iff_toInt_le, hexact m hm]
      exact min_le_right _ _
    · rw [Int64.le_iff_toInt_le, hexact m (by omega), hexact m' hm']
      exact capped_mono hpos hm

theorem paced_iff_default : defaultBackoff.Paced 10 :=
  (paced_iff (by decide) (by decide) 10).mpr (noOverflow_of_max_lt (by decide) 10)

/-- **A cap above half of the range may turn a delay negative.** -/
theorem not_paced : ¬ ∀ b : BackoffPolicy, 0 < b.base → b.base ≤ b.max → ∀ n, b.Paced n := by
  intro h
  have hpaced := h ⟨4611686018427387904, 4611686018427387904⟩ (by decide) (by decide) 1
  exact absurd (hpaced.pos 1 le_rfl) (by decide)

end BackoffPolicy

end CsvProductUploader.Catalog

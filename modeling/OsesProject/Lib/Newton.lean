import Mathlib.Algebra.Order.Archimedean.Basic
import Mathlib.Algebra.Order.Field.Basic
import Mathlib.Logic.Function.Iterate
import Mathlib.Tactic.FieldSimp
import Mathlib.Tactic.Linarith
import Mathlib.Tactic.NormNum
import Mathlib.Tactic.Positivity
import Mathlib.Tactic.Ring

/-!
# Newton's iteration for square roots

`Newton.step a x` is the mean of `x` and `a / x`. Its square is never below `a`, and exceeds it by
at most a quarter of what the square of `x` does (`excess_step_le`), so that the relative change of
a step gets small (`exists_change_le`). How far the square of a step can be from `a` is told by the
relative change alone (`sq_step_le_of_change`).
-/

namespace Newton

variable {K : Type*} [Field K] [LinearOrder K] [IsStrictOrderedRing K]

/-- One step for the square root of `a`. -/
def step (a x : K) : K := 0.5 * (x + a / x)

variable {a x δ : K}

theorem step_pos (ha : 0 ≤ a) (hx : 0 < x) : 0 < step a x :=
  mul_pos (by norm_num) (add_pos_of_pos_of_nonneg hx (div_nonneg ha hx.le))

theorem iterate_step_pos (ha : 0 ≤ a) (hx : 0 < x) (k : ℕ) : 0 < (step a)^[k] x := by
  induction k with
  | zero => exact hx
  | succ k ih =>
    rw [Function.iterate_succ_apply']
    exact step_pos ha ih

/-- By how much the square of a step exceeds `a`. -/
theorem sq_step_sub (hx : x ≠ 0) : step a x ^ 2 - a = (x ^ 2 - a) ^ 2 / (4 * x ^ 2) := by
  rw [step]
  field_simp
  ring

/-- The mean of `x` and `a / x` is not below their geometric mean. -/
theorem le_sq_step (hx : x ≠ 0) : a ≤ step a x ^ 2 := by
  have hexcess : 0 ≤ step a x ^ 2 - a := by
    rw [sq_step_sub hx]
    positivity
  linarith

/-- The excess of the square falls to a quarter. -/
theorem excess_step_le (ha : 0 ≤ a) (hx : 0 < x) (hle : a ≤ x ^ 2) :
    step a x ^ 2 - a ≤ (x ^ 2 - a) / 4 := by
  rw [sq_step_sub hx.ne', div_le_div_iff₀ (by positivity) (by norm_num)]
  have hfactor : x ^ 2 - a ≤ x ^ 2 := by linarith
  calc (x ^ 2 - a) ^ 2 * 4 = (x ^ 2 - a) * (x ^ 2 - a) * 4 := by ring
    _ ≤ (x ^ 2 - a) * x ^ 2 * 4 := by
      have hnonneg : 0 ≤ x ^ 2 - a := by linarith
      gcongr
    _ = (x ^ 2 - a) * (4 * x ^ 2) := by ring

/-- After `k` steps the square exceeds `a` by a `4 ^ k`-th part of what it did. -/
theorem excess_iterate_le (ha : 0 ≤ a) (hx : 0 < x) (hle : a ≤ x ^ 2) (k : ℕ) :
    a ≤ ((step a)^[k] x) ^ 2 ∧ ((step a)^[k] x) ^ 2 - a ≤ (x ^ 2 - a) / 4 ^ k := by
  induction k with
  | zero => exact ⟨hle, by simp⟩
  | succ k ih =>
    obtain ⟨hbelow, hexcess⟩ := ih
    have hpos := iterate_step_pos ha hx k
    rw [Function.iterate_succ_apply']
    refine ⟨le_sq_step hpos.ne', (excess_step_le ha hpos hbelow).trans ?_⟩
    rw [pow_succ 4 k, ← div_div]
    gcongr

/-- The relative change of a step. -/
def change (a x : K) : K := (step a x - x) / x

theorem change_eq (hx : x ≠ 0) : change a x = -((x ^ 2 - a) / (2 * x ^ 2)) := by
  rw [change, step]
  field_simp
  ring

theorem change_nonpos (hx : x ≠ 0) (hle : a ≤ x ^ 2) : change a x ≤ 0 := by
  rw [change_eq hx, neg_nonpos]
  exact div_nonneg (by linarith) (by positivity)

/-- A small change says that the square of the step is near `a`. -/
theorem sq_step_le_of_change (hx : 0 < x) (hle : a ≤ x ^ 2) (hδ : 2 * δ < 1)
    (h : -δ ≤ change a x) : step a x ^ 2 ≤ a * (1 + δ ^ 2 / (1 - 2 * δ)) := by
  have hx2 : 0 < x ^ 2 := by positivity
  have hδ' : 0 < 1 - 2 * δ := by linarith
  have hexcess : x ^ 2 - a ≤ 2 * δ * x ^ 2 := by
    rw [change_eq hx.ne', neg_le_neg_iff, div_le_iff₀ (by positivity)] at h
    linarith
  have hnear : x ^ 2 ≤ a / (1 - 2 * δ) := by
    rw [le_div_iff₀ hδ']
    linarith
  have hsquare : (x ^ 2 - a) ^ 2 ≤ (2 * δ * x ^ 2) ^ 2 := by
    have hnonneg : 0 ≤ x ^ 2 - a := by linarith
    gcongr
  have hstep : step a x ^ 2 - a ≤ δ ^ 2 * x ^ 2 := by
    rw [sq_step_sub hx.ne', div_le_iff₀ (by positivity)]
    calc (x ^ 2 - a) ^ 2 ≤ (2 * δ * x ^ 2) ^ 2 := hsquare
      _ = δ ^ 2 * x ^ 2 * (4 * x ^ 2) := by ring
  calc step a x ^ 2 ≤ a + δ ^ 2 * x ^ 2 := by linarith
    _ ≤ a + δ ^ 2 * (a / (1 - 2 * δ)) := by gcongr
    _ = a * (1 + δ ^ 2 / (1 - 2 * δ)) := by ring

/-- Some step changes as little as one likes. -/
theorem exists_change_le [Archimedean K] (ha : 0 < a) (hx : 0 < x) (hle : a ≤ x ^ 2) (hδ : 0 < δ) :
    ∃ k, -δ ≤ change a ((step a)^[k] x) := by
  obtain ⟨k, hk⟩ := pow_unbounded_of_one_lt ((x ^ 2 - a) / (2 * δ * a))
    (show (1 : K) < 4 by norm_num)
  have hpos := iterate_step_pos ha.le hx k
  obtain ⟨hbelow, hexcess⟩ := excess_iterate_le ha.le hx hle k
  refine ⟨k, ?_⟩
  rw [change_eq hpos.ne', neg_le_neg_iff, div_le_iff₀ (by positivity)]
  rw [div_lt_iff₀ (by positivity)] at hk
  calc ((step a)^[k] x) ^ 2 - a ≤ (x ^ 2 - a) / 4 ^ k := hexcess
    _ ≤ 2 * δ * a := by
      rw [div_le_iff₀ (by positivity)]
      linarith
    _ ≤ 2 * δ * ((step a)^[k] x) ^ 2 := by gcongr
    _ = δ * (2 * ((step a)^[k] x) ^ 2) := by ring

/-- For zero, every step halves. -/
theorem change_zero (hx : x ≠ 0) : change 0 x = -(1 / 2) := by
  rw [change_eq hx, sub_zero]
  field_simp

end Newton

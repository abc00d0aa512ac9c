import Mathlib.Analysis.Complex.Exponential
import Mathlib.Analysis.Complex.ExponentialBounds
import Mathlib.Analysis.SpecialFunctions.Log.Deriv

/-!
# Truncated series of the logarithm and the exponential

How far the first terms of a series are from its sum, in terms of the last one of them.

The tail of the logarithm series is bounded by its first term divided by `1 - u`, which is of no use
when `u` is near 1. But the number of terms that make the power `u ^ n` small grows as `1 - u` gets
small: by the time the power is below `1 / e`, it makes up for the division
(`Series.abs_log_one_sub_add_sum_le`).

The terms of the exponential series grow first and fall then. A term below 1 is in the part where
they fall to less than a half each (`Series.two_mul_le_of_term_lt_one`), so that the tail is not
larger than the term (`Series.abs_exp_sub_sum_le`).
-/

namespace Series

open Finset

/-! ## The logarithm -/

variable {u : ℝ} {n : ℕ}

/-- The tail of the logarithm series. -/
theorem abs_log_one_sub_add_sum_le_div (h0 : 0 ≤ u) (h1 : u < 1) (n : ℕ) :
    |Real.log (1 - u) + ∑ i ∈ range n, u ^ (i + 1) / (i + 1)| ≤
      u ^ (n + 1) / ((n + 1) * (1 - u)) := by
  have hu : 0 < 1 - u := by linarith
  have hsum := Real.hasSum_pow_div_log_of_abs_lt_one (x := u) (by rwa [abs_of_nonneg h0])
  have htail := (hasSum_nat_add_iff' n).mpr hsum
  have hgeometric : HasSum (fun i : ℕ => u ^ (n + 1) / (n + 1) * u ^ i)
      (u ^ (n + 1) / (n + 1) * (1 - u)⁻¹) :=
    (hasSum_geometric_of_lt_one h0 h1).mul_left _
  have hle := hasSum_le (fun i => ?_) htail hgeometric
  have hnonneg := htail.nonneg fun i => ?_
  · rw [← abs_neg, abs_of_nonneg (by linarith)]
    calc -(Real.log (1 - u) + ∑ i ∈ range n, u ^ (i + 1) / (i + 1))
        = -Real.log (1 - u) - ∑ i ∈ range n, u ^ (i + 1) / (i + 1) := by ring
      _ ≤ u ^ (n + 1) / (n + 1) * (1 - u)⁻¹ := hle
      _ = u ^ (n + 1) / ((n + 1) * (1 - u)) := by field_simp
  · positivity
  · have hpow : u ^ (i + n + 1) = u ^ (n + 1) * u ^ i := by ring
    rw [hpow, mul_div_right_comm]
    push_cast
    gcongr
    linarith [show (0 : ℝ) ≤ i from Nat.cast_nonneg i]

/-- When the power is below `1 / e`, there have been enough terms. -/
theorem le_mul_one_sub_of_pow_le (h0 : 0 < u) (h : u ^ n ≤ Real.exp (-1)) :
    u ≤ n * (1 - u) := by
  have hlog : n * Real.log u ≤ -1 := by
    rw [← Real.log_pow]
    exact (Real.log_le_iff_le_exp (by positivity)).mpr h
  have hbound : 1 - u⁻¹ ≤ Real.log u := Real.one_sub_inv_le_log_of_pos h0
  have hcount : n * (1 - u⁻¹) ≤ -1 :=
    (mul_le_mul_of_nonneg_left hbound (Nat.cast_nonneg n)).trans hlog
  have hmul : n * (1 - u⁻¹) * u ≤ -1 * u := mul_le_mul_of_nonneg_right hcount h0.le
  have hcancel : n * (1 - u⁻¹) * u = n * (u - 1) := by field_simp
  linarith

/-- The first terms of the logarithm series are as near to the logarithm as their last power is
small, once it is below `1 / e`. -/
theorem abs_log_one_sub_add_sum_le (h0 : 0 ≤ u) (h1 : u < 1) (h : u ^ n ≤ Real.exp (-1)) :
    |Real.log (1 - u) + ∑ i ∈ range n, u ^ (i + 1) / (i + 1)| ≤ u ^ n := by
  refine (abs_log_one_sub_add_sum_le_div h0 h1 n).trans ?_
  rcases h0.eq_or_lt with rfl | hpos
  · simp
  · have hcount := le_mul_one_sub_of_pow_le hpos h
    have hu : 0 < 1 - u := by linarith
    rw [div_le_iff₀ (by positivity), pow_succ]
    gcongr
    linarith

/-- The powers get small at least as the exponential does. -/
theorem one_sub_pow_le_exp (h : u ≤ 1) (n : ℕ) : (1 - u) ^ n ≤ Real.exp (-(n * u)) := by
  calc (1 - u) ^ n ≤ Real.exp (-u) ^ n := by
        gcongr
        exact Real.one_sub_le_exp_neg u
    _ = Real.exp (-(n * u)) := by rw [← Real.exp_nat_mul, mul_neg]

/-! ## The exponential -/

variable {x : ℝ}

/-- A factorial is at most the power of the mean of its factors. -/
theorem factorial_le_mean_pow (n : ℕ) : (n.factorial : ℝ) ≤ ((n + 1) / 2) ^ n := by
  induction n with
  | zero => simp
  | succ n ih =>
    have hn : (0 : ℝ) < n + 1 := by positivity
    -- Bernoulli: the mean grows by a factor whose power is at least 2
    have hbernoulli : 2 ≤ (1 + 1 / ((n : ℝ) + 1)) ^ (n + 1) := by
      have h := one_add_mul_le_pow (show (-2 : ℝ) ≤ 1 / ((n : ℝ) + 1) by
        have := one_div_pos.mpr hn
        linarith) (n + 1)
      have hone : ((n + 1 : ℕ) : ℝ) * (1 / ((n : ℝ) + 1)) = 1 := by
        push_cast
        field_simp
      rw [hone] at h
      linarith
    rw [Nat.factorial_succ]
    push_cast
    calc ((n : ℝ) + 1) * n.factorial ≤ (n + 1) * ((n + 1) / 2) ^ n := by gcongr
      _ = ((n + 1) / 2) ^ (n + 1) * 2 := by ring
      _ ≤ ((n + 1) / 2) ^ (n + 1) * (1 + 1 / ((n : ℝ) + 1)) ^ (n + 1) := by gcongr
      _ = (((n : ℝ) + 1 + 1) / 2) ^ (n + 1) := by
        rw [← mul_pow]
        congr 1
        field_simp

/-- A term below 1 is beyond twice the argument. -/
theorem two_mul_le_of_term_lt_one (h : |x| ^ n / n.factorial < 1) : 2 * |x| ≤ n + 1 := by
  by_contra hlt
  have hmean : ((n : ℝ) + 1) / 2 ≤ |x| := by linarith
  have hfactorial : (n.factorial : ℝ) ≤ |x| ^ n :=
    (factorial_le_mean_pow n).trans (pow_le_pow_left₀ (by positivity) hmean n)
  rw [div_lt_one (by positivity)] at h
  linarith

/-- The first terms of the exponential series, up to a term below 1, are as near to the exponential
as that term is small. -/
theorem abs_exp_sub_sum_le (h : |x| ^ n / n.factorial < 1) :
    |Real.exp x - ∑ i ∈ range (n + 1), x ^ i / i.factorial| ≤ |x| ^ n / n.factorial := by
  have hhalf := two_mul_le_of_term_lt_one h
  have hbound : |Real.exp x - ∑ i ∈ range (n + 1), x ^ i / i.factorial| ≤
      |x| ^ (n + 1) / (n + 1).factorial * 2 := by
    have hcomplex := Complex.exp_bound' (x := x) (n := n + 1) (by
      rw [Complex.norm_real, Real.norm_eq_abs, div_le_iff₀ (by positivity)]
      push_cast
      linarith)
    rw [Complex.norm_real, Real.norm_eq_abs] at hcomplex
    convert hcomplex using 1
    rw [← Real.norm_eq_abs, ← Complex.norm_real]
    push_cast
    rfl
  refine hbound.trans ?_
  rw [Nat.factorial_succ]
  push_cast
  rw [pow_succ, div_mul_eq_mul_div, div_le_div_iff₀ (by positivity) (by positivity)]
  calc |x| ^ n * |x| * 2 * n.factorial = |x| ^ n * n.factorial * (2 * |x|) := by ring
    _ ≤ |x| ^ n * n.factorial * (n + 1) := by gcongr
    _ = |x| ^ n * ((n + 1) * n.factorial) := by ring

/-- The terms get small. -/
theorem term_le (x : ℝ) (n : ℕ) : |x| ^ n / n.factorial ≤ Real.exp (2 * |x|) / 2 ^ n := by
  have h := Real.pow_div_factorial_le_exp (2 * |x|) (by positivity) n
  rw [mul_pow, mul_div_assoc] at h
  rw [le_div_iff₀ (by positivity), mul_comm]
  exact h

/-- A term whose index is more than four times the argument. -/
theorem term_le_of_le {m k : ℕ} (hx : |x| ≤ m) (hn : 4 * m + k ≤ n) :
    |x| ^ n / n.factorial ≤ 1 / 2 ^ k := by
  have hexp : Real.exp (2 * |x|) ≤ 2 ^ (4 * m) := by
    calc Real.exp (2 * |x|) ≤ Real.exp ((2 * m : ℕ) * 1) := by
          apply Real.exp_le_exp.mpr
          push_cast
          linarith
      _ = Real.exp 1 ^ (2 * m) := Real.exp_nat_mul 1 (2 * m)
      _ ≤ (2 ^ 2) ^ (2 * m) := by
          gcongr
          linarith [Real.exp_one_lt_d9]
      _ = 2 ^ (4 * m) := by
          rw [← pow_mul]
          congr 1
          ring
  have hpow : (2 : ℝ) ^ (4 * m + k) ≤ 2 ^ n := pow_le_pow_right₀ one_le_two hn
  calc |x| ^ n / n.factorial ≤ Real.exp (2 * |x|) / 2 ^ n := term_le x n
    _ ≤ 2 ^ (4 * m) / 2 ^ (4 * m + k) := by gcongr
    _ = 1 / 2 ^ k := by
        rw [pow_add]
        field_simp

/-- A term that is below 1 is not below any later one. -/
theorem term_antitone {m : ℕ} (h : |x| ^ n / n.factorial < 1) (hm : n ≤ m) :
    |x| ^ m / m.factorial ≤ |x| ^ n / n.factorial := by
  have hhalf := two_mul_le_of_term_lt_one h
  induction m, hm using Nat.le_induction with
  | base => exact le_rfl
  | succ m hm ih =>
    refine le_trans ?_ ih
    have hfactor : |x| / (m + 1) ≤ 1 := by
      have hnm : (n : ℝ) ≤ m := Nat.cast_le.mpr hm
      rw [div_le_one (by positivity)]
      linarith [abs_nonneg x]
    rw [pow_succ, Nat.factorial_succ]
    push_cast
    calc |x| ^ m * |x| / ((m + 1) * m.factorial)
        = |x| ^ m / m.factorial * (|x| / (m + 1)) := by field_simp
      _ ≤ |x| ^ m / m.factorial * 1 := by gcongr
      _ = |x| ^ m / m.factorial := mul_one _

/-- A small error of the exponent is at most doubled, as a relative error of the exponential. -/
theorem abs_exp_sub_exp_le {y : ℝ} (h : |x - y| ≤ 1) :
    |Real.exp x - Real.exp y| ≤ 2 * |x - y| * Real.exp y := by
  have hfactor : Real.exp x - Real.exp y = (Real.exp (x - y) - 1) * Real.exp y := by
    rw [sub_mul, one_mul, ← Real.exp_add, sub_add_cancel]
  rw [hfactor, abs_mul, Real.abs_exp]
  gcongr
  exact Real.abs_exp_sub_one_le h

end Series

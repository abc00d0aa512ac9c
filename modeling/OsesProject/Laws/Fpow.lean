import OsesProject.Laws.ExpLog
import OsesProject.Laws.Power
import Mathlib.Analysis.SpecialFunctions.Pow.Real

/-!
# Which real powers are computed

`fpow` multiplies the power with the integer part of the exponent, which is exact, by the
exponential of the rest times the logarithm. The rest is at most 1 in size and does not enlarge the
error of the logarithm, and the exponential turns that error into a relative one
(`abs_exponential_sub_rpow_le`).

Over the range of a `float` the exponential is always counted. The logarithm is not, and `fpow`
fails with it (`fpow_accurate_iff`), also for an integer exponent, for which it takes the logarithm
too.
-/

namespace OsesProject

variable {int : ℤ → Option ℤ} {x y : ℚ} {n : ℕ} {r : ℚ}

/-! ## The parts of the exponent -/

theorem abs_towardZero_le (y : ℚ) : |(towardZero y : ℚ)| ≤ |y| := by
  rw [← Int.cast_abs, abs_towardZero]
  exact Int.floor_le |y|

theorem abs_sub_towardZero_le (y : ℚ) : |y - towardZero y| ≤ 1 := by
  rw [towardZero, abs_le]
  split
  · constructor
    · linarith [Int.floor_le y]
    · linarith [Int.lt_floor_add_one y]
  · constructor
    · linarith [Int.ceil_lt_add_one y]
    · linarith [Int.le_ceil y]

theorem abs_towardZero_lt (hy : |y| < 2 ^ 31) : |towardZero y| < 2 ^ 31 := by
  have hcast : ((|towardZero y| : ℤ) : ℚ) < ((2 ^ 31 : ℤ) : ℚ) := by
    push_cast
    exact (abs_towardZero_le y).trans_lt hy
  exact Int.cast_lt.mp hcast

/-- The integer part of the exponent is an `int`, and not the lowest one. -/
theorem int32_towardZero (hy : |y| < 2 ^ 31) :
    int32 (towardZero y) = some (towardZero y) := by
  have hbounds := abs_lt.mp (abs_towardZero_lt hy)
  exact int32_eq_some_iff.mpr ⟨by omega, rfl⟩

theorem power_towardZero (hx : x ≠ 0) (hy : |y| < 2 ^ 31) :
    Returns (power x · (Int32.ofInt (towardZero y))) (x ^ towardZero y) := by
  have hbounds := abs_lt.mp (abs_towardZero_lt hy)
  have htoInt : (Int32.ofInt (towardZero y)).toInt = towardZero y :=
    Int32.toInt_ofInt_of_le hbounds.1.le hbounds.2
  have hmin : Int32.ofInt (towardZero y) ≠ Int32.minValue := by
    intro h
    rw [h, Int32.toInt_minValue] at htoInt
    omega
  have hreturns := power_returns hx hmin
  rwa [htoInt] at hreturns

/-! ## The error -/

/-- The errors of the logarithm and of the exponential, together. `d` is the rest of the
exponent. -/
theorem abs_exponential_sub_rpow_le {x d logarithm exponential : ℝ} (hx : 0 < x) (hd : |d| ≤ 1)
    (hlog : |logarithm - Real.log x| ≤ 1 / 10 ^ 4)
    (hexp : |exponential - Real.exp (d * logarithm)| ≤ 1 / 10 ^ 4) :
    |exponential - x ^ d| ≤ 2 / 10 ^ 4 * x ^ d + 1 / 10 ^ 4 := by
  have hexponent : |d * logarithm - d * Real.log x| ≤ 1 / 10 ^ 4 := by
    rw [← mul_sub, abs_mul]
    calc |d| * |logarithm - Real.log x| ≤ 1 * (1 / 10 ^ 4) := by gcongr
      _ = 1 / 10 ^ 4 := one_mul _
  have hrelative : |Real.exp (d * logarithm) - x ^ d| ≤ 2 / 10 ^ 4 * x ^ d := by
    rw [Real.rpow_def_of_pos hx, mul_comm (Real.log x)]
    refine (Series.abs_exp_sub_exp_le (hexponent.trans (by norm_num))).trans ?_
    gcongr
    linarith
  calc |exponential - x ^ d|
      ≤ |exponential - Real.exp (d * logarithm)| + |Real.exp (d * logarithm) - x ^ d| :=
        abs_sub_le _ _ _
    _ ≤ 2 / 10 ^ 4 * x ^ d + 1 / 10 ^ 4 := by linarith

/-- The logarithm of a number in the range of a `float`. -/
theorem abs_log_le {x : ℝ} (hlow : 1 / 2 ^ 149 ≤ x) (hhigh : x ≤ 2 ^ 128) :
    |Real.log x| ≤ 149 := by
  have htwo := Real.log_two_lt_d9
  have hpos : 0 < x := lt_of_lt_of_le (by positivity) hlow
  have hbelow : Real.log (1 / 2 ^ 149) ≤ Real.log x := Real.log_le_log (by positivity) hlow
  have habove : Real.log x ≤ Real.log (2 ^ 128) := Real.log_le_log hpos hhigh
  rw [one_div, Real.log_inv, Real.log_pow] at hbelow
  rw [Real.log_pow] at habove
  push_cast at hbelow habove
  rw [abs_le]
  constructor
  · linarith
  · linarith

/-- A logarithm that `xlog` returns in that range. -/
theorem abs_logarithm_le {logarithm : ℚ} (hlow : 1 / 2 ^ 149 ≤ x) (hhigh : x ≤ 2 ^ 128)
    (hnear : |(logarithm : ℝ) - Real.log x| ≤ 1 / 10 ^ 4) : |logarithm| ≤ 150 := by
  have hlowReal := (Rat.cast_le (K := ℝ)).mpr hlow
  have hhighReal := (Rat.cast_le (K := ℝ)).mpr hhigh
  push_cast at hlowReal hhighReal
  have hbound := abs_log_le hlowReal hhighReal
  have hreal : |(logarithm : ℝ)| ≤ 150 := by
    rw [abs_le] at hbound hnear ⊢
    constructor
    · linarith
    · linarith
  exact_mod_cast hreal

/-- A real power is that of the integer part times that of the rest. -/
theorem rpow_eq_mul {x : ℝ} (hx : 0 < x) (y : ℝ) (k : ℤ) : x ^ y = x ^ k * x ^ (y - k) := by
  rw [← Real.rpow_intCast, ← Real.rpow_add hx, add_sub_cancel]

/-! ## The power -/

/-- `fpow` returns the power, up to an error of the exponential of the rest of the exponent. -/
def PowAccurate (int : ℤ → Option ℤ) (x y : ℚ) : Prop :=
  ∃ r, Returns (fpow int · x y) r ∧
    |(r : ℝ) - (x : ℝ) ^ (y : ℝ)| ≤ (x : ℝ) ^ towardZero y *
      ((2 / 10 ^ 4 : ℚ) * (x : ℝ) ^ ((y : ℝ) - towardZero y) + (1 / 10 ^ 4 : ℚ))

theorem fpow_eq (hx : 0 < x) (hy : |y| < 2 ^ 31) (n : ℕ) :
    fpow int n x y = (power x n (Int32.ofInt (towardZero y))).bind fun integral =>
      (xlog int n x).bind fun logarithm =>
        (expo int n ((y - towardZero y) * logarithm)).map (integral * ·) := by
  rw [fpow, int32_towardZero hy]
  simp only [Option.bind_eq_bind, Option.bind_some, if_neg (not_lt.mpr hx.le)]
  congr 1
  ext integral : 1
  congr 1
  ext logarithm : 1
  rw [Option.map_eq_bind]
  rfl

/-- The result is the product of the three results. -/
theorem fpow_returns {logarithm exponential : ℚ} (hx : 0 < x) (hy : |y| < 2 ^ 31)
    (hlog : Returns (xlog int · x) logarithm)
    (hexp : Returns (expo int · ((y - towardZero y) * logarithm)) exponential) :
    Returns (fpow int · x y) (x ^ towardZero y * exponential) := by
  have hpower := power_towardZero hx.ne' hy
  have hrest := hlog.bind
    (g := fun logarithm n =>
      (expo int n ((y - towardZero y) * logarithm)).map (x ^ towardZero y * ·))
    (hexp.map _)
  obtain ⟨n, hn⟩ := hpower.bind
    (g := fun integral n => (xlog int n x).bind fun logarithm =>
      (expo int n ((y - towardZero y) * logarithm)).map (integral * ·))
    hrest
  exact ⟨n, fun m hm => (fpow_eq hx hy m).trans (hn m hm)⟩

/-- A power is as accurate as the logarithm of its base and the exponentials of small numbers. -/
theorem powAccurate_of_accurate (hlow : 1 / 2 ^ 149 ≤ x) (hhigh : x ≤ 2 ^ 128) (hy : |y| < 2 ^ 31)
    (hlog : LogAccurate int x) (hexp : ∀ z, |z| ≤ 150 → ExpAccurate int z) :
    PowAccurate int x y := by
  have hx : 0 < x := lt_of_lt_of_le (by positivity) hlow
  have hreal : (0 : ℝ) < x := Rat.cast_pos.mpr hx
  obtain ⟨logarithm, hlogReturns, hlogNear⟩ := hlog
  have hrange := abs_logarithm_le hlow hhigh hlogNear
  have hrest := abs_sub_towardZero_le y
  have hsmall : |(y - towardZero y) * logarithm| ≤ 150 := by
    rw [abs_mul]
    calc |y - towardZero y| * |logarithm| ≤ 1 * 150 := by gcongr
      _ = 150 := one_mul _
  obtain ⟨exponential, hexpReturns, hexpNear⟩ := hexp _ hsmall
  refine ⟨_, fpow_returns hx hy hlogReturns hexpReturns, ?_⟩
  have hrestReal : |(y : ℝ) - towardZero y| ≤ 1 := by exact_mod_cast hrest
  have hpos : (0 : ℝ) < (x : ℝ) ^ towardZero y := zpow_pos hreal _
  push_cast at hexpNear ⊢
  rw [rpow_eq_mul hreal y (towardZero y), ← mul_sub, abs_mul, abs_of_pos hpos]
  exact mul_le_mul_of_nonneg_left
    (abs_exponential_sub_rpow_le hreal hrestReal hlogNear hexpNear) hpos.le

/-- A power that is returned has a logarithm that was counted. -/
theorem logCounted_of_powAccurate (hx : 0 < x) (hy : |y| < 2 ^ 31) (h : PowAccurate int32 x y) :
    LogCounted x := by
  obtain ⟨r, hreturns, -⟩ := h
  obtain ⟨n, hn⟩ := hreturns.exists_eq
  rw [fpow_eq hx hy] at hn
  obtain ⟨integral, -, hrest⟩ := Option.bind_eq_some_iff.mp hn
  obtain ⟨logarithm, hlog, -⟩ := Option.bind_eq_some_iff.mp hrest
  exact logCounted_of_xlog hx hlog

/-- **Which real powers are computed.** For every base in the range of a positive `float` and every
exponent below 2³¹ in size, `fpow` returns the power, up to the error of its series, if and only if
the counter of the logarithm does not overflow. With counters that do not overflow it returns every
such power. -/
theorem fpow_accurate_iff (x y : ℚ) (hlow : 1 / 2 ^ 149 ≤ x) (hhigh : x ≤ 2 ^ 128)
    (hy : |y| < 2 ^ 31) : (PowAccurate int32 x y ↔ LogCounted x) ∧ PowAccurate some x y := by
  have hx : 0 < x := lt_of_lt_of_le (by positivity) hlow
  have hlimit (z : ℚ) (hz : |z| ≤ 150) : z ≤ 709.782712893384 :=
    (le_abs_self z).trans (hz.trans (by norm_num))
  refine ⟨⟨logCounted_of_powAccurate hx hy, fun hcounted => ?_⟩, ?_⟩
  · apply powAccurate_of_accurate hlow hhigh hy (logAccurate_of_logCounted hx hcounted)
    intro z hz
    apply expAccurate_of_expCounted (hlimit z hz)
    exact expCounted_of_abs_le (hz.trans (by norm_num))
  · apply powAccurate_of_accurate hlow hhigh hy (logAccurate_some hx)
    exact fun z hz => expAccurate_some (hlimit z hz)

/-- 2 to the 5/2. -/
theorem fpow_accurate_two : PowAccurate int32 2 (5 / 2) := by
  apply (fpow_accurate_iff 2 (5 / 2) (by norm_num) (by norm_num) (by norm_num)).1.mpr
  apply logCounted_of_le
  norm_num

/-- The square root of 2⁻⁴⁰, as a power. -/
theorem fpow_not_accurate : ¬PowAccurate int32 (1 / 2 ^ 40) (1 / 2) := by
  intro h
  apply not_logCounted_of_le (x := 1 / 2 ^ 40)
  · norm_num
  · norm_num
  · exact logCounted_of_powAccurate (by norm_num) (by norm_num) h

end OsesProject

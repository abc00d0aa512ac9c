import OsesProject.Application.MathUtilities

/-!
# Which integer powers are computed

The loop of `power` multiplies `y` times (`power_of_nonneg`). A negative exponent is negated and the
power inverted, and the negation of every negative `int` but one is positive. The lowest `int` is
its own negation: `power` calls itself with the same arguments, without end (`power_minValue`).
-/

namespace OsesProject

variable {x : ℚ} {y : Int32}

/-- The variables after `k` turns. -/
theorem PowerState.iterate_body (x : ℚ) (k : ℕ) :
    (PowerState.body x)^[k] ⟨1, 0⟩ = ⟨x ^ k, Int32.ofNat k⟩ := by
  induction k with
  | zero =>
    rw [pow_zero]
    rfl
  | succ k ih =>
    rw [Function.iterate_succ_apply', ih, PowerState.body, pow_succ, Int32.ofNat_add]
    rfl

/-- The loop takes as many turns as the exponent says. -/
theorem PowerState.leaves (x : ℚ) (hy : 0 ≤ y.toInt) :
    While.Leaves (PowerState.Test y) (PowerState.body x) ⟨1, 0⟩ y.toInt.toNat := by
  have hlt := y.toInt_lt
  have htest (k : ℕ) (hk : k ≤ y.toInt.toNat) :
      PowerState.Test y ((PowerState.body x)^[k] ⟨1, 0⟩) ↔ (k : ℤ) < y.toInt := by
    rw [PowerState.iterate_body, PowerState.Test, Int32.lt_iff_toInt_lt,
      Int32.toInt_ofNat_of_lt (by omega)]
  refine ⟨fun j hj => (htest j hj.le).mpr (by omega), ?_⟩
  rw [htest _ le_rfl]
  omega

/-- A power with an exponent that is not negative. -/
theorem power_of_nonneg (x : ℚ) (hy : 0 ≤ y.toInt) : Returns (power x · y) (x ^ y.toInt) := by
  apply Returns.of_succ
  have hnonneg : ¬y < 0 := by
    rw [Int32.lt_iff_toInt_lt, Int32.toInt_zero]
    omega
  refine ⟨y.toInt.toNat, fun turns hturns => ?_⟩
  show power x (turns + 1) y = _
  rw [power, if_neg hnonneg, (PowerState.leaves x hy).run_eq (by omega), Option.map_some,
    PowerState.iterate_body, ← zpow_natCast, Int.toNat_of_nonneg hy]

/-- The negation of an `int` other than the lowest is exact. -/
theorem toInt_neg_of_ne (hmin : y ≠ Int32.minValue) : (-y).toInt = -y.toInt := by
  have hle := y.le_toInt
  have hlt := y.toInt_lt
  have hne : y.toInt ≠ -2 ^ 31 := by
    rw [← Int32.toInt_minValue, Ne, Int32.toInt_inj]
    exact hmin
  rw [Int32.toInt_neg]
  apply Int.bmod_eq_of_le
  all_goals omega

/-- A power of a number that is not zero, with an exponent other than the lowest `int`. -/
theorem power_returns (hx : x ≠ 0) (hmin : y ≠ Int32.minValue) :
    Returns (power x · y) (x ^ y.toInt) := by
  rcases le_or_gt 0 y.toInt with hy | hy
  · exact power_of_nonneg x hy
  · have hneg := toInt_neg_of_ne hmin
    have hnegative : y < 0 := by
      rw [Int32.lt_iff_toInt_lt, Int32.toInt_zero]
      exact hy
    have hinverse : Returns (power x · (-y)) (x ^ (-y).toInt) := power_of_nonneg x (by omega)
    rw [hneg] at hinverse
    have hdivide : divide 1 (x ^ (-y.toInt)) = some (x ^ y.toInt) := by
      rw [divide, if_neg (zpow_ne_zero _ hx), zpow_neg, one_div, inv_inv]
    apply Returns.of_succ
    have hbind := hinverse.bind (g := fun p _ => divide 1 p)
      (hdivide ▸ Returns.const (x ^ y.toInt))
    obtain ⟨turns, hturns⟩ := hbind
    refine ⟨turns, fun m hm => ?_⟩
    show power x (m + 1) y = _
    rw [power, if_pos hnegative]
    exact hturns m hm

/-- **The lowest exponent.** The recursion does not end. -/
theorem power_minValue (x : ℚ) (turns : ℕ) : power x turns Int32.minValue = none := by
  induction turns with
  | zero => rfl
  | succ turns ih =>
    have hneg : -Int32.minValue = Int32.minValue := by decide
    rw [power, if_pos (by decide), hneg, ih, Option.bind_none]

/-- **Which powers are computed.** For every number that is not zero and every 32-bit exponent,
`power` returns the power if and only if the exponent is not the lowest `int`. -/
theorem power_exact_iff (x : ℚ) (y : Int32) (hx : x ≠ 0) :
    Returns (power x · y) (x ^ y.toInt) ↔ y ≠ Int32.minValue := by
  constructor
  · rintro hreturns rfl
    exact Returns.not_of_forall_none (power_minValue x) hreturns
  · exact power_returns hx

/-- The power 3 to the -2. -/
theorem power_exact_three : Returns (power 3 · (-2)) (3 ^ (-2 : Int32).toInt) :=
  (power_exact_iff 3 (-2) (by norm_num)).mpr (by decide)

/-- One to the lowest `int`. -/
theorem power_not_exact : ¬Returns (power 1 · Int32.minValue) (1 ^ Int32.minValue.toInt) :=
  Returns.not_of_forall_none (power_minValue 1)

end OsesProject

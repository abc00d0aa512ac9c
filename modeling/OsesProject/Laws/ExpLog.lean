import OsesProject.Application.MathUtilities
import OsesProject.Lib.Series

/-!
# Which logarithms and exponentials are computed

The loops of `xlog` and `expo` add up the terms of a series while the last power, or the last term,
is larger than .0001. By the time it is not, what is left of the series is not larger either, for
every argument: neither a number near 0, for which the logarithm takes any number of turns, nor a
negative exponent, for which the terms of the exponential grow first, makes a difference
(`logAccurate_some`, `expAccurate_some`).

But the turns are counted in an `int`. A number so near to 0, or so large, that the power is not
below .0001 after 2147483646 turns has the counter overflow (`xlog_accurate_iff`), and so has a
negative exponent whose term of that index is not (`expo_accurate_iff`).
-/

namespace OsesProject

open Finset

variable {int : ℤ → Option ℤ} {x : ℚ} {k n : ℕ} {r : ℚ}

/-! ## Counters -/

/-- The turns that an `int` counts from 1 without an overflow. -/
def maxTurns : ℕ := 2147483646

/-- The counter takes its first `k` steps. -/
def Counts (int : ℤ → Option ℤ) (k : ℕ) : Prop := ∀ j < k, int (j + 2) = some (j + 2 : ℤ)

/-- What an integer expression is worth is its value, if it is defined. -/
def Exact (int : ℤ → Option ℤ) : Prop := ∀ a b, int a = some b → b = a

theorem exact_some : Exact some := fun _ _ h => (Option.some.inj h).symm

theorem exact_int32 : Exact int32 := fun _ _ h => (int32_eq_some_iff.mp h).2

theorem counts_some (k : ℕ) : Counts some k := fun _ _ => rfl

theorem counts_int32_iff : Counts int32 k ↔ k ≤ maxTurns := by
  constructor
  · intro h
    by_contra hlt
    have hover := h maxTurns (Nat.lt_of_not_le hlt)
    simp [int32, maxTurns] at hover
  · intro hk j hj
    rw [maxTurns] at hk
    exact int32_eq_some_iff.mpr ⟨by omega, rfl⟩

/-- An `int` counts the turns before a small number, if the numbers are small by its last turn. -/
theorem counts_of_small {a : ℕ → ℚ} {b : ℚ} (hsmall : a maxTurns ≤ b)
    (hbefore : ∀ j < k, b < a j) : Counts int32 k := by
  rw [counts_int32_iff]
  by_contra hlt
  have hlarge := hbefore maxTurns (Nat.lt_of_not_le hlt)
  exact absurd hsmall (not_le.mpr hlarge)

/-! ## The loops of the series -/

theorem xfabs_eq_abs (a : ℚ) : xfabs a = |a| := by
  rw [xfabs]
  split
  · next h => rw [abs_of_neg h]
  · next h => rw [abs_of_nonneg (not_lt.mp h)]

theorem SeriesState.test_iff (s : SeriesState) : s.Test ↔ 1 / 10 ^ 4 < |s.coeff| := by
  have hprecision : precision = 1 / 10 ^ 4 := by norm_num [precision]
  rw [SeriesState.Test, xfabs_eq_abs, hprecision]

/-- The variables of a loop go through a sequence of states, as long as the counter is defined. -/
structure Follows (int : ℤ → Option ℤ) (body : SeriesState → Option SeriesState)
    (state : ℕ → SeriesState) : Prop where
  i_eq : ∀ j, (state j).i = j + 1
  body_eq : ∀ j, body (state j) = (int (j + 2)).map fun i => { state (j + 1) with i := i }

namespace Follows

variable {body : SeriesState → Option SeriesState} {state : ℕ → SeriesState}

theorem next (h : Follows int body state) (hint : Exact int) (j : ℕ) (t : SeriesState)
    (ht : body (state j) = some t) : state (j + 1) = t := by
  rw [h.body_eq] at ht
  obtain ⟨i, hi, rfl⟩ := Option.map_eq_some_iff.mp ht
  have hvalue : i = (state (j + 1)).i := by
    rw [hint _ _ hi, h.i_eq]
    push_cast
    ring
  rw [hvalue]

theorem body_eq_some_iff (h : Follows int body state) (j : ℕ) :
    body (state j) = some (state (j + 1)) ↔ int (j + 2) = some (j + 2 : ℤ) := by
  have hvalue : (state (j + 1)).i = (j + 2 : ℤ) := by
    rw [h.i_eq]
    push_cast
    ring
  rw [h.body_eq, Option.map_eq_some_iff]
  constructor
  · rintro ⟨i, hi, hstate⟩
    have hieq : i = (state (j + 1)).i := congrArg SeriesState.i hstate
    rw [hi, hieq, hvalue]
  · intro hi
    refine ⟨j + 2, hi, ?_⟩
    rw [← hvalue]

/-- A loop that ends has counted its turns. -/
theorem counts_of_runM (h : Follows int body state) (hint : Exact int) {t : SeriesState}
    (hrun : While.runM SeriesState.Test body n (state 0) = some t) :
    ∃ k, |(state k).coeff| ≤ 1 / 10 ^ 4 ∧ Counts int k := by
  obtain ⟨k, -, -, hlast, hdefined, -⟩ := (While.runM_eq_some_iff (h.next hint)).mp hrun
  rw [SeriesState.test_iff, not_lt] at hlast
  exact ⟨k, hlast, fun j hj => (h.body_eq_some_iff j).mp (hdefined j hj)⟩

/-- A loop that counts its turns ends at the first coefficient that is small. -/
theorem returns (h : Follows int body state) (hint : Exact int)
    (hsmall : ∃ k, |(state k).coeff| ≤ 1 / 10 ^ 4)
    (hcounts : ∀ k, (∀ j < k, 1 / 10 ^ 4 < |(state j).coeff|) → Counts int k) :
    ∃ k, |(state k).coeff| ≤ 1 / 10 ^ 4 ∧
      Returns (fun n => (While.runM SeriesState.Test body n (state 0)).map SeriesState.number)
        (state k).number := by
  have hbefore (j : ℕ) (hj : j < Nat.find hsmall) : 1 / 10 ^ 4 < |(state j).coeff| :=
    not_le.mp (Nat.find_min hsmall hj)
  have hlast := Nat.find_spec hsmall
  have hdefined := hcounts _ hbefore
  refine ⟨Nat.find hsmall, hlast, (While.returns_runM (h.next hint) ?_ ?_ ?_).map _⟩
  · exact fun j hj => (SeriesState.test_iff _).mpr (hbefore j hj)
  · rw [SeriesState.test_iff]
    exact not_lt.mpr hlast
  · exact fun j hj => (h.body_eq_some_iff j).mpr (hdefined j hj)

end Follows

/-! ## Logarithms -/

/-- The variables of the loop of `xlog` after `j` turns. -/
def xlogState (x : ℚ) (j : ℕ) : SeriesState :=
  ⟨-∑ i ∈ range j, (1 - x) ^ (i + 1) / (i + 1), -(1 - x) ^ j, j + 1⟩

theorem xlog_follows (int : ℤ → Option ℤ) (x : ℚ) :
    Follows int (xlogBody int x) (xlogState x) where
  i_eq _ := rfl
  body_eq j := by
    have hi : ((j + 1 : ℤ) : ℚ) ≠ 0 := by
      push_cast
      positivity
    have hcoeff : -(1 - x) ^ j * (1 - x) = -(1 - x) ^ (j + 1) := by ring
    have hnumber : -∑ i ∈ range j, (1 - x) ^ (i + 1) / (i + 1) +
        -(1 - x) ^ (j + 1) / ((j + 1 : ℤ) : ℚ) =
        -∑ i ∈ range (j + 1), (1 - x) ^ (i + 1) / (i + 1) := by
      rw [sum_range_succ]
      push_cast
      ring
    have hsucc : (j + 1 + 1 : ℤ) = j + 2 := by ring
    rw [xlogBody, xlogState, hcoeff, divide, if_neg hi, hsucc]
    cases int (j + 2) with
    | none => rfl
    | some i =>
      show some (SeriesState.mk _ _ i) = some (SeriesState.mk _ _ i)
      rw [hnumber]
      rfl

theorem abs_xlogState_coeff (h1 : x < 1) (j : ℕ) : |(xlogState x j).coeff| = (1 - x) ^ j := by
  rw [xlogState, abs_neg, abs_of_nonneg]
  exact pow_nonneg (by linarith) j

/-- `xlog` returns the logarithm up to .0001. -/
def LogAccurate (int : ℤ → Option ℤ) (x : ℚ) : Prop :=
  ∃ r, Returns (xlog int · x) r ∧ |(r : ℝ) - Real.log x| ≤ 1 / 10 ^ 4

/-- Whether an `int` counts enough turns for a logarithm. -/
def LogCounted (x : ℚ) : Prop := (1 - min x x⁻¹) ^ maxTurns ≤ 1 / 10 ^ 4

theorem xlog_eq_of_lt_one (h0 : 0 < x) (h1 : x < 1) (n : ℕ) :
    xlog int (n + 1) x =
      (While.runM SeriesState.Test (xlogBody int x) (n + 1) (xlogState x 0)).map
        SeriesState.number := by
  rw [xlog, if_neg (not_le.mpr h0), if_neg h1.ne, if_neg (not_lt.mpr h1.le)]
  simp [xlogState]

theorem xlog_eq_of_one_lt (h1 : 1 < x) (n : ℕ) :
    xlog int (n + 1) x = (xlog int n x⁻¹).map (- ·) := by
  have h0 : 0 < x := zero_lt_one.trans h1
  rw [xlog, if_neg (not_le.mpr h0), if_neg h1.ne', if_pos h1, divide, if_neg h0.ne', one_div]
  rfl

theorem xlog_one (n : ℕ) : xlog int (n + 1) 1 = some 0 := by
  rw [xlog, if_neg (by norm_num), if_pos rfl]

theorem min_inv_of_lt_one (h0 : 0 < x) (h1 : x < 1) : min x x⁻¹ = x :=
  min_eq_left (h1.trans ((one_lt_inv₀ h0).mpr h1)).le

theorem min_inv_of_one_lt (h1 : 1 < x) : min x x⁻¹ = x⁻¹ :=
  min_eq_right ((inv_lt_one_of_one_lt₀ h1).trans h1).le

theorem min_inv_le_one (x : ℚ) : min x x⁻¹ ≤ 1 := by
  rcases le_total x 1 with h1 | h1
  · exact (min_le_left _ _).trans h1
  · exact (min_le_right _ _).trans (inv_le_one_of_one_le₀ h1)

/-- The terms of the loop up to a power that is small. -/
theorem xlogState_near (h0 : 0 < x) (h1 : x < 1) (hk : (1 - x) ^ k ≤ 1 / 10 ^ 4) :
    |((xlogState x k).number : ℝ) - Real.log x| ≤ 1 / 10 ^ 4 := by
  have hx0 : (0 : ℝ) < x := Rat.cast_pos.mpr h0
  have hx1 : (x : ℝ) < 1 := by exact_mod_cast h1
  have hpow : (1 - (x : ℝ)) ^ k ≤ 1 / 10 ^ 4 := by
    have hcast := (Rat.cast_le (K := ℝ)).mpr hk
    push_cast at hcast
    exact hcast
  have hexp : (1 : ℝ) / 10 ^ 4 ≤ Real.exp (-1) := by
    linarith [Real.exp_neg_one_gt_d9]
  have hlog := Series.abs_log_one_sub_add_sum_le (sub_nonneg.mpr hx1.le) (sub_lt_self 1 hx0)
    (hpow.trans hexp)
  rw [sub_sub_cancel] at hlog
  rw [xlogState, ← abs_neg]
  push_cast
  calc |-(-∑ i ∈ range k, (1 - (x : ℝ)) ^ (i + 1) / (i + 1) - Real.log x)|
      = |Real.log x + ∑ i ∈ range k, (1 - (x : ℝ)) ^ (i + 1) / (i + 1)| := by
        congr 1
        ring
    _ ≤ 1 / 10 ^ 4 := hlog.trans hpow

/-- The logarithm of a number below 1. -/
theorem logAccurate_of_lt_one (hint : Exact int) (h0 : 0 < x) (h1 : x < 1)
    (hcounts : ∀ k, (∀ j < k, 1 / 10 ^ 4 < (1 - x) ^ j) → Counts int k) : LogAccurate int x := by
  have hsmall : ∃ k, |(xlogState x k).coeff| ≤ 1 / 10 ^ 4 := by
    obtain ⟨k, hk⟩ := exists_pow_lt_of_lt_one (show (0 : ℚ) < 1 / 10 ^ 4 by norm_num)
      (sub_lt_self 1 h0)
    refine ⟨k, ?_⟩
    rw [abs_xlogState_coeff h1]
    exact hk.le
  obtain ⟨k, hk, n, hn⟩ := (xlog_follows int x).returns hint hsmall
    (by simpa only [abs_xlogState_coeff h1] using hcounts)
  rw [abs_xlogState_coeff h1] at hk
  refine ⟨(xlogState x k).number, .of_succ ⟨n, fun m hm => ?_⟩, xlogState_near h0 h1 hk⟩
  exact (xlog_eq_of_lt_one h0 h1 m).trans (hn (m + 1) (Nat.le_succ_of_le hm))

/-- The logarithm of a number above 1, from that of its inverse. -/
theorem logAccurate_of_one_lt (h1 : 1 < x) (h : LogAccurate int x⁻¹) : LogAccurate int x := by
  obtain ⟨r, hreturns, hnear⟩ := h
  refine ⟨-r, .of_succ ?_, ?_⟩
  · obtain ⟨n, hn⟩ := hreturns.map (- ·)
    exact ⟨n, fun m hm => (xlog_eq_of_one_lt h1 m).trans (hn m hm)⟩
  · rw [← abs_neg]
    push_cast at hnear ⊢
    rwa [Real.log_inv, sub_neg_eq_add, ← neg_neg ((r : ℝ) + _), neg_add'] at hnear

/-- The logarithm of every positive number, from a loop that counts its turns. -/
theorem logAccurate_of_counts (hint : Exact int) (h0 : 0 < x)
    (hcounts : ∀ k, (∀ j < k, 1 / 10 ^ 4 < (1 - min x x⁻¹) ^ j) → Counts int k) :
    LogAccurate int x := by
  rcases lt_trichotomy x 1 with h1 | rfl | h1
  · rw [min_inv_of_lt_one h0 h1] at hcounts
    exact logAccurate_of_lt_one hint h0 h1 hcounts
  · refine ⟨0, .of_succ ⟨0, fun m _ => xlog_one m⟩, ?_⟩
    norm_num
  · rw [min_inv_of_one_lt h1] at hcounts
    apply logAccurate_of_one_lt h1
    exact logAccurate_of_lt_one hint (inv_pos.mpr h0) (inv_lt_one_of_one_lt₀ h1) hcounts

/-- **Logarithms with counters that do not overflow.** They are computed for every positive
number. -/
theorem logAccurate_some (h0 : 0 < x) : LogAccurate some x :=
  logAccurate_of_counts exact_some h0 fun k _ => counts_some k

theorem logAccurate_of_logCounted (h0 : 0 < x) (h : LogCounted x) : LogAccurate int32 x := by
  apply logAccurate_of_counts exact_int32 h0
  intro k hbefore
  exact counts_of_small (a := fun j => (1 - min x x⁻¹) ^ j) h hbefore

/-- A logarithm of a number below 1 has been counted. -/
theorem pow_le_of_xlog (h0 : 0 < x) (h1 : x < 1) (h : xlog int32 n x = some r) :
    (1 - x) ^ maxTurns ≤ 1 / 10 ^ 4 := by
  cases n with
  | zero => cases h
  | succ n =>
    rw [xlog_eq_of_lt_one h0 h1] at h
    obtain ⟨t, ht, -⟩ := Option.map_eq_some_iff.mp h
    obtain ⟨k, hk, hcounts⟩ := (xlog_follows int32 x).counts_of_runM exact_int32 ht
    rw [abs_xlogState_coeff h1] at hk
    refine le_trans ?_ hk
    exact pow_le_pow_of_le_one (by linarith) (by linarith) (counts_int32_iff.mp hcounts)

theorem logCounted_of_xlog (h0 : 0 < x) (h : xlog int32 n x = some r) : LogCounted x := by
  rw [LogCounted]
  rcases lt_trichotomy x 1 with h1 | rfl | h1
  · rw [min_inv_of_lt_one h0 h1]
    exact pow_le_of_xlog h0 h1 h
  · have hzero : (1 - min 1 1⁻¹ : ℚ) = 0 := by norm_num
    rw [hzero, zero_pow (by simp [maxTurns])]
    norm_num
  · rw [min_inv_of_one_lt h1]
    cases n with
    | zero => cases h
    | succ n =>
      rw [xlog_eq_of_one_lt h1] at h
      obtain ⟨s, hs, -⟩ := Option.map_eq_some_iff.mp h
      exact pow_le_of_xlog (inv_pos.mpr h0) (inv_lt_one_of_one_lt₀ h1) hs

theorem logCounted_of_logAccurate (h0 : 0 < x) (h : LogAccurate int32 x) : LogCounted x := by
  obtain ⟨r, hreturns, -⟩ := h
  obtain ⟨n, hn⟩ := hreturns.exists_eq
  exact logCounted_of_xlog h0 hn

theorem exp_neg_ten_le : Real.exp (-10) ≤ 1 / 10 ^ 4 := by
  calc Real.exp (-10) = (Real.exp 1 ^ 10)⁻¹ := by
        rw [← Real.exp_nat_mul, ← Real.exp_neg]
        norm_num
    _ ≤ (2.7 ^ 10)⁻¹ := by
        gcongr
        linarith [Real.exp_one_gt_d9]
    _ ≤ 1 / 10 ^ 4 := by norm_num

/-- An `int` counts enough turns for a number not too near to 0 whose inverse is not either. -/
theorem logCounted_of_le (hx : 5 / 10 ^ 9 ≤ min x x⁻¹) : LogCounted x := by
  have hone := min_inv_le_one x
  rw [LogCounted, ← Rat.cast_le (K := ℝ)]
  generalize min x x⁻¹ = u at hx hone ⊢
  have hcast := (Rat.cast_le (K := ℝ)).mpr hx
  push_cast at hcast ⊢
  have hturns : (10 : ℝ) ≤ maxTurns * u := by
    calc (10 : ℝ) ≤ (maxTurns : ℝ) * (5 / 10 ^ 9) := by norm_num [maxTurns]
      _ ≤ maxTurns * u := by gcongr
  calc (1 - (u : ℝ)) ^ maxTurns ≤ Real.exp (-(maxTurns * u)) :=
        Series.one_sub_pow_le_exp (by exact_mod_cast hone) maxTurns
    _ ≤ Real.exp (-10) := by gcongr
    _ ≤ 1 / 10 ^ 4 := exp_neg_ten_le

/-- It does not for a number very near to 0. -/
theorem not_logCounted_of_le (h0 : 0 < x) (hx : x ≤ 4 / 10 ^ 10) : ¬LogCounted x := by
  have h1 : x < 1 := hx.trans_lt (by norm_num)
  rw [LogCounted, min_inv_of_lt_one h0 h1, not_le]
  have hbernoulli := one_add_mul_le_pow (show -2 ≤ -x by linarith) maxTurns
  have hturns : (maxTurns : ℚ) * x ≤ maxTurns * (4 / 10 ^ 10) := by gcongr
  have hlarge : (1 : ℚ) / 10 ^ 4 < 1 - maxTurns * (4 / 10 ^ 10) := by norm_num [maxTurns]
  rw [← sub_eq_add_neg] at hbernoulli
  linarith

/-- **Which logarithms are computed.** For every positive number, `xlog` returns its logarithm up
to .0001 if and only if the counter of the loop does not overflow, which it does only if the number
or its inverse is so near to 0 that 2147483646 turns are not enough. With a counter that does not
overflow it returns the logarithm of every positive number. -/
theorem xlog_accurate_iff (x : ℚ) (hx : 0 < x) :
    (LogAccurate int32 x ↔ LogCounted x) ∧ LogAccurate some x :=
  ⟨⟨logCounted_of_logAccurate hx, logAccurate_of_logCounted hx⟩, logAccurate_some hx⟩

/-- The logarithm of 1/2. -/
theorem xlog_accurate_half : LogAccurate int32 (1 / 2) := by
  apply (xlog_accurate_iff (1 / 2) (by norm_num)).1.mpr
  apply logCounted_of_le
  norm_num

/-- For 2⁻⁴⁰ the counter overflows. -/
theorem xlog_not_accurate : ¬LogAccurate int32 (1 / 2 ^ 40) := by
  intro h
  apply not_logCounted_of_le (x := 1 / 2 ^ 40)
  · norm_num
  · norm_num
  · exact logCounted_of_logAccurate (by norm_num) h

/-! ## Exponentials -/

/-- The variables of the loop of `expo` after `j` turns. -/
def expoState (x : ℚ) (j : ℕ) : SeriesState :=
  ⟨∑ i ∈ range (j + 1), x ^ i / i.factorial, x ^ j / j.factorial, j + 1⟩

theorem expo_follows (int : ℤ → Option ℤ) (x : ℚ) :
    Follows int (expoBody int x) (expoState x) where
  i_eq _ := rfl
  body_eq j := by
    have hi : ((j + 1 : ℤ) : ℚ) ≠ 0 := by
      push_cast
      positivity
    have hcoeff : x ^ j / j.factorial * (x / ((j + 1 : ℤ) : ℚ)) =
        x ^ (j + 1) / (j + 1).factorial := by
      rw [Nat.factorial_succ, pow_succ]
      push_cast
      field_simp
    have hnumber : ∑ i ∈ range (j + 1), x ^ i / (i.factorial : ℚ) +
        x ^ (j + 1) / (j + 1).factorial = ∑ i ∈ range (j + 1 + 1), x ^ i / (i.factorial : ℚ) :=
      (sum_range_succ _ _).symm
    have hsucc : (j + 1 + 1 : ℤ) = j + 2 := by ring
    rw [expoBody, expoState, divide, if_neg hi, hsucc]
    cases int (j + 2) with
    | none => rfl
    | some i =>
      show some (SeriesState.mk _ _ i) = some (SeriesState.mk _ _ i)
      rw [hcoeff, hnumber]
      rfl

theorem abs_expoState_coeff (x : ℚ) (j : ℕ) :
    |(expoState x j).coeff| = |x| ^ j / j.factorial := by
  rw [expoState, abs_div, abs_pow, Nat.abs_cast]

/-- `expo` returns the exponential up to .0001. -/
def ExpAccurate (int : ℤ → Option ℤ) (x : ℚ) : Prop :=
  ∃ r, Returns (expo int · x) r ∧ |(r : ℝ) - Real.exp x| ≤ 1 / 10 ^ 4

/-- Whether an `int` counts enough turns for an exponential. -/
def ExpCounted (x : ℚ) : Prop := |x| ^ maxTurns / maxTurns.factorial ≤ 1 / 10 ^ 4

theorem expo_eq (hx : x ≤ 709.782712893384) (n : ℕ) :
    expo int (n + 1) x =
      (While.runM SeriesState.Test (expoBody int x) (n + 1) (expoState x 0)).map
        SeriesState.number := by
  rw [expo, if_neg (not_lt.mpr hx)]
  simp [expoState]

/-- A term of the series, as a real number. -/
theorem term_le_iff (x : ℚ) (k : ℕ) :
    |x| ^ k / k.factorial ≤ 1 / 10 ^ 4 ↔ |(x : ℝ)| ^ k / k.factorial ≤ 1 / 10 ^ 4 := by
  rw [← Rat.cast_le (K := ℝ)]
  push_cast
  rfl

/-- The terms of the loop up to a term that is small. -/
theorem expoState_near (hk : |(x : ℝ)| ^ k / k.factorial ≤ 1 / 10 ^ 4) :
    |((expoState x k).number : ℝ) - Real.exp x| ≤ 1 / 10 ^ 4 := by
  have hone : |(x : ℝ)| ^ k / k.factorial < 1 := hk.trans_lt (by norm_num)
  rw [expoState, abs_sub_comm]
  push_cast
  exact (Series.abs_exp_sub_sum_le hone).trans hk

/-- The index of a small term is not far above four times the argument. -/
theorem term_small {m : ℕ} (hx : |x| ≤ m) (hk : 4 * m + 14 ≤ k) :
    |x| ^ k / k.factorial ≤ 1 / 10 ^ 4 := by
  have hreal : |(x : ℝ)| ≤ m := by exact_mod_cast hx
  rw [term_le_iff]
  refine (Series.term_le_of_le hreal hk).trans ?_
  norm_num

/-- The exponential of every number below the limit, from a loop that counts its turns. -/
theorem expAccurate_of_counts (hint : Exact int) (hx : x ≤ 709.782712893384)
    (hcounts : ∀ k, (∀ j < k, 1 / 10 ^ 4 < |x| ^ j / j.factorial) → Counts int k) :
    ExpAccurate int x := by
  have hsmall : ∃ k, |(expoState x k).coeff| ≤ 1 / 10 ^ 4 := by
    refine ⟨4 * ⌈|x|⌉₊ + 14, ?_⟩
    rw [abs_expoState_coeff]
    exact term_small (Nat.le_ceil |x|) le_rfl
  obtain ⟨k, hk, n, hn⟩ := (expo_follows int x).returns hint hsmall
    (by simpa only [abs_expoState_coeff] using hcounts)
  rw [abs_expoState_coeff, term_le_iff] at hk
  refine ⟨(expoState x k).number, .of_succ ⟨n, fun m hm => ?_⟩, expoState_near hk⟩
  exact (expo_eq hx m).trans (hn (m + 1) (Nat.le_succ_of_le hm))

/-- **Exponentials with counters that do not overflow.** They are computed for every number up to
the limit. -/
theorem expAccurate_some (hx : x ≤ 709.782712893384) : ExpAccurate some x :=
  expAccurate_of_counts exact_some hx fun k _ => counts_some k

theorem expAccurate_of_expCounted (hx : x ≤ 709.782712893384) (h : ExpCounted x) :
    ExpAccurate int32 x := by
  apply expAccurate_of_counts exact_int32 hx
  intro k hbefore
  exact counts_of_small (a := fun j => |x| ^ j / j.factorial) h hbefore

/-- An exponential that is returned was counted. -/
theorem expCounted_of_expAccurate (hx : x ≤ 709.782712893384) (h : ExpAccurate int32 x) :
    ExpCounted x := by
  obtain ⟨r, hreturns, -⟩ := h
  obtain ⟨n, hn⟩ := hreturns.exists_succ_eq
  rw [expo_eq hx] at hn
  obtain ⟨t, ht, -⟩ := Option.map_eq_some_iff.mp hn
  obtain ⟨k, hk, hcounts⟩ := (expo_follows int32 x).counts_of_runM exact_int32 ht
  rw [abs_expoState_coeff, term_le_iff] at hk
  have hone : |(x : ℝ)| ^ k / k.factorial < 1 := hk.trans_lt (by norm_num)
  rw [ExpCounted, term_le_iff]
  exact (Series.term_antitone hone (counts_int32_iff.mp hcounts)).trans hk

/-- An `int` counts enough turns for every exponent up to 500000000 of either sign. -/
theorem expCounted_of_abs_le (hx : |x| ≤ 500000000) : ExpCounted x := by
  have hcast : |x| ≤ (500000000 : ℕ) := by exact_mod_cast hx
  exact term_small hcast (by norm_num [maxTurns])

/-- The terms do not get small before an index below the argument. -/
theorem one_le_term (hx : (k : ℚ) ≤ |x|) : 1 ≤ |x| ^ k / k.factorial := by
  rw [le_div_iff₀ (by positivity), one_mul]
  calc (k.factorial : ℚ) ≤ (k : ℚ) ^ k := by exact_mod_cast Nat.factorial_le_pow k
    _ ≤ |x| ^ k := by gcongr

/-- **Which exponentials are computed.** For every number up to the limit, `expo` returns its
exponential up to .0001 if and only if the counter of the loop does not overflow, which it does only
if the number is so far below 0 that the term of index 2147483646 is above .0001. With a counter
that does not overflow it returns the exponential of every number up to the limit. -/
theorem expo_accurate_iff (x : ℚ) (hx : x ≤ 709.782712893384) :
    (ExpAccurate int32 x ↔ ExpCounted x) ∧ ExpAccurate some x :=
  ⟨⟨expCounted_of_expAccurate hx, expAccurate_of_expCounted hx⟩, expAccurate_some hx⟩

/-- The exponential of -100, whose terms grow up to the hundredth. -/
theorem expo_accurate_hundred : ExpAccurate int32 (-100) := by
  apply (expo_accurate_iff (-100) (by norm_num)).1.mpr
  apply expCounted_of_abs_le
  norm_num

/-- The terms for -2147483648 still grow when the counter overflows. -/
theorem expo_not_accurate : ¬ExpAccurate int32 (-2147483648) := by
  intro h
  have hcounted := expCounted_of_expAccurate (by norm_num) h
  have hlarge : (1 : ℚ) ≤ |(-2147483648 : ℚ)| ^ maxTurns / maxTurns.factorial := by
    apply one_le_term
    norm_num [maxTurns]
  exact absurd (hlarge.trans hcounted) (by norm_num)

end OsesProject

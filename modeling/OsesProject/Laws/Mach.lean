import OsesProject.Application.Mach
import Mathlib.Tactic.Linarith
import Mathlib.Data.Rat.Floor

/-!
# What the iterations of the benchmark converge to

The test of both loops drops the digits behind the point, so that it asks whether the difference is
at least one (`floor_abs_gt_iff`), and it is defined only for a difference below 2^31
(`intAbs_eq_some_iff`). `getMach` is the secant method (`secant`), left when the airflow is within
one of its target: it inverts `getAir` exactly when the first airflow within one of the target is
within .0001 of it, and none before is too far away for an `int` (`getMach_inverts_iff`).
`getRayleighLoss` never takes a turn, and gives the loss it begins with, which is converged only by
chance (`rayleigh_converged_iff`).
-/

namespace OsesProject

/-! ## The secant method -/

section
variable {K : Type*} [Field K]
variable (quot getAir : K → K → K) (sub : ℕ) (corair gama1 : K)

/-- The iterates of the secant method for `getAir m gama1 = corair`: the last Mach number, the next
one, and the airflow of the last. The first airflow is a guess. -/
def secant : ℕ → K × K × K
  | 0 => (if sub = 2 then 1.703 else 0.5, (if sub = 2 then 1.703 else 0.5) - 0.2, 0.25618)
  | k + 1 =>
    let (last, next, air) := secant k
    let air' := getAir next gama1
    (next, next + quot (corair - air') (quot (air' - air) (next - last)), air')

variable {quot getAir : K → K → K} {sub : ℕ} {corair gama1 : K}

/-- The loop follows the secant method. -/
theorem iterate_body (k : ℕ) :
    (MachState.body quot getAir corair gama1)^[k] (MachState.start sub) =
      let (last, next, air) := secant quot getAir sub corair gama1 k
      ⟨next, last, air, k + 1⟩ := by
  induction k with
  | zero => rfl
  | succ k ih =>
    rw [Function.iterate_succ_apply', ih]
    rfl

/-- An airflow after the first turn is that of its Mach number. -/
theorem secant_air {k : ℕ} (hk : 0 < k) :
    (secant quot getAir sub corair gama1 k).2.2 =
      getAir (secant quot getAir sub corair gama1 k).1 gama1 := by
  cases k with
  | zero => exact absurd hk (Nat.lt_irrefl 0)
  | succ k => rfl

end

variable {K : Type*} [Field K] [LinearOrder K] [IsStrictOrderedRing K] [FloorRing K]

/-! ## The test of the loops -/

/-- `abs` is defined for the numbers below 2^31, and drops the digits behind the point. -/
theorem intAbs_eq_some_iff {x : K} {n : ℤ} : intAbs x = some n ↔ |x| < 2 ^ 31 ∧ n = ⌊|x|⌋ := by
  have hlt : |x| < 2 ^ 31 ↔ |towardZero x| ≤ 0x7FFFFFFF := by
    rw [abs_towardZero, ← Int.lt_add_one_iff, Int.floor_lt]
    norm_num
  have hbounds : |towardZero x| ≤ 0x7FFFFFFF ↔
      -0x7FFFFFFF ≤ towardZero x ∧ towardZero x ≤ 0x7FFFFFFF := abs_le
  have hnonneg := abs_nonneg (towardZero x)
  rw [hlt, ← abs_towardZero, intAbs, Option.bind_eq_bind, Option.bind_eq_some_iff]
  constructor
  · rintro ⟨m, hm, hn⟩
    obtain ⟨-, rfl⟩ := int32_eq_some_iff.mp hm
    obtain ⟨⟨-, hle⟩, rfl⟩ := int32_eq_some_iff.mp hn
    exact ⟨hle, rfl⟩
  · rintro ⟨hle, rfl⟩
    obtain ⟨hlow, hhigh⟩ := hbounds.mp hle
    exact ⟨_, int32_eq_some_iff.mpr ⟨⟨by omega, hhigh⟩, rfl⟩,
      int32_eq_some_iff.mpr ⟨⟨by omega, hle⟩, rfl⟩⟩

/-- The comparison of `abs` with .0001 asks whether the number is at least one. -/
theorem floor_abs_gt_iff (x : K) : ((⌊|x|⌋ : ℤ) : K) > 0.0001 ↔ 1 ≤ |x| := by
  rw [← @Int.cast_one K _, ← Int.le_floor]
  constructor
  · intro h
    have hpos : (0 : K) < (⌊|x|⌋ : ℤ) := lt_trans (by norm_num) h
    exact Int.cast_pos.mp hpos
  · intro h
    have hone : (1 : K) ≤ (⌊|x|⌋ : ℤ) := by exact_mod_cast h
    exact lt_of_lt_of_le (by norm_num) hone

/-! ## The Mach number -/

section
variable (quot getAir : K → K → K) (sub : ℕ) (corair gama1 : K)

/-- How far the airflow of an iterate is from the target. -/
def distance (k : ℕ) : K := |corair - (secant quot getAir sub corair gama1 k).2.2|

/-- The secant method comes to the target: its airflows are at least one and less than 2^31 away
from it until one of the first nineteen is within .0001, or all of these are and the one behind
them is less than 2^31 away. -/
def ComesTo : Prop :=
  ∃ k ≤ 19,
    (∀ j < k, 1 ≤ distance quot getAir sub corair gama1 j ∧
      distance quot getAir sub corair gama1 j < 2 ^ 31) ∧
    distance quot getAir sub corair gama1 k < 2 ^ 31 ∧
    (k < 19 → distance quot getAir sub corair gama1 k ≤ 0.0001)

/-- `getMach` returns, and if it has not used up the cap, the last airflow is within .0001 of the
target and, if the loop has taken a turn, is that of the result. -/
def Inverts : Prop :=
  ∃ s, machLoop quot getAir sub corair gama1 = some s ∧
    getMach quot getAir sub corair gama1 = some s.macho ∧
    (s.iter < 20 →
      |corair - s.airo| ≤ 0.0001 ∧ (1 < s.iter → s.airo = getAir s.macho gama1))

end

variable {quot getAir : K → K → K} {sub : ℕ} {corair gama1 : K}

theorem MachState.test_eq_some_iff {s : MachState K} {b : Bool} :
    s.test corair = some b ↔
      |corair - s.airo| < 2 ^ 31 ∧ (b = true ↔ 1 ≤ |corair - s.airo| ∧ s.iter < 20) := by
  rw [MachState.test, Option.bind_eq_bind, Option.bind_eq_some_iff]
  constructor
  · rintro ⟨n, hn, hb⟩
    obtain ⟨hlt, rfl⟩ := intAbs_eq_some_iff.mp hn
    rw [← Option.some.inj hb, decide_eq_true_iff, floor_abs_gt_iff]
    exact ⟨hlt, Iff.rfl⟩
  · rintro ⟨hlt, hb⟩
    refine ⟨_, intAbs_eq_some_iff.mpr ⟨hlt, rfl⟩, ?_⟩
    rw [← floor_abs_gt_iff] at hb
    rw [Option.some_inj, Bool.eq_iff_iff, decide_eq_true_iff]
    exact hb.symm

/-- The test before turn `k + 1`. -/
theorem test_iterate_iff {k : ℕ} {b : Bool} :
    ((MachState.body quot getAir corair gama1)^[k] (MachState.start sub)).test corair = some b ↔
      distance quot getAir sub corair gama1 k < 2 ^ 31 ∧
        (b = true ↔ 1 ≤ distance quot getAir sub corair gama1 k ∧ k < 19) := by
  rw [iterate_body, MachState.test_eq_some_iff]
  refine and_congr Iff.rfl (iff_congr Iff.rfl (and_congr Iff.rfl ?_))
  exact Nat.succ_lt_succ_iff

/-- The loop leaves after `k` turns. -/
theorem machLoop_leaves_iff {k : ℕ} :
    While.DefinedLeaves (MachState.test corair) (MachState.body quot getAir corair gama1)
      (MachState.start sub) k ↔
      k ≤ 19 ∧
        (∀ j < k, 1 ≤ distance quot getAir sub corair gama1 j ∧
          distance quot getAir sub corair gama1 j < 2 ^ 31) ∧
        distance quot getAir sub corair gama1 k < 2 ^ 31 ∧
        (k < 19 → distance quot getAir sub corair gama1 k < 1) := by
  simp only [While.DefinedLeaves, test_iterate_iff, true_iff, Bool.false_eq_true, false_iff,
    not_and, not_lt]
  constructor
  · rintro ⟨hturns, hlt, hlast⟩
    refine ⟨?_, fun j hj => ⟨(hturns j hj).2.1, (hturns j hj).1⟩, hlt, fun hk => ?_⟩
    · rcases Nat.eq_zero_or_pos k with rfl | hpos
      · exact Nat.zero_le _
      · have := (hturns (k - 1) (by omega)).2.2
        omega
    · by_contra hge
      exact absurd (hlast (not_lt.mp hge)) (not_le.mpr hk)
  · rintro ⟨hk, hturns, hlt, hlast⟩
    refine ⟨fun j hj => ⟨(hturns j hj).2, (hturns j hj).1, by omega⟩, hlt, fun hge => ?_⟩
    by_contra hk'
    exact absurd (hlast (not_le.mp hk')) (not_lt.mpr hge)

omit [IsStrictOrderedRing K] in
/-- What `getMach` does when the loop leaves after `k` turns. -/
theorem inverts_iff_of_leaves (hsub : sub ≠ 1) (hle : corair ≤ getAir 1.0 gama1) {k : ℕ}
    (hk : k ≤ 19) (hleaves : While.DefinedLeaves (MachState.test corair)
      (MachState.body quot getAir corair gama1) (MachState.start sub) k) :
    Inverts quot getAir sub corair gama1 ↔
      (k < 19 → distance quot getAir sub corair gama1 k ≤ 0.0001) := by
  have hloop : machLoop quot getAir sub corair gama1 =
      some ((MachState.body quot getAir corair gama1)^[k] (MachState.start sub)) :=
    While.runT_eq_some_iff.mpr ⟨k, Nat.lt_succ_of_le hk, hleaves, rfl⟩
  have hresult : getMach quot getAir sub corair gama1 =
      some ((MachState.body quot getAir corair gama1)^[k] (MachState.start sub)).macho := by
    rw [getMach, if_neg (not_lt.mpr hle), if_neg hsub, hloop]
    rfl
  rw [iterate_body] at hloop hresult
  constructor
  · rintro ⟨s, hs, -, hconv⟩ hlt
    cases hloop.symm.trans hs
    exact (hconv (Nat.succ_lt_succ hlt)).1
  · intro h
    refine ⟨_, hloop, hresult, fun hlt => ⟨h (Nat.lt_of_succ_lt_succ hlt), fun hone => ?_⟩⟩
    exact secant_air (Nat.lt_of_succ_lt_succ hone)

omit [IsStrictOrderedRing K] in
/-- A `getMach` that inverts has left its loop. -/
theorem Inverts.leaves (h : Inverts quot getAir sub corair gama1) :
    ∃ k, While.DefinedLeaves (MachState.test corair) (MachState.body quot getAir corair gama1)
      (MachState.start sub) k := by
  obtain ⟨s, hs, -⟩ := h
  obtain ⟨k, -, hleaves, -⟩ := While.runT_eq_some_iff.mp hs
  exact ⟨k, hleaves⟩

/-- `getMach` inverts when the secant method comes to the target, and only then. -/
theorem inverts_iff_comesTo (hsub : sub ≠ 1) (hle : corair ≤ getAir 1.0 gama1) :
    Inverts quot getAir sub corair gama1 ↔ ComesTo quot getAir sub corair gama1 := by
  constructor
  · intro h
    obtain ⟨k, hleaves⟩ := h.leaves
    obtain ⟨hk, hturns, hlt, -⟩ := machLoop_leaves_iff.mp hleaves
    exact ⟨k, hk, hturns, hlt, (inverts_iff_of_leaves hsub hle hk hleaves).mp h⟩
  · rintro ⟨k, hk, hturns, hlt, hnear⟩
    refine (inverts_iff_of_leaves hsub hle hk ?_).mpr hnear
    refine machLoop_leaves_iff.mpr ⟨hk, hturns, hlt, fun h => ?_⟩
    exact (hnear h).trans_lt (by norm_num)

/-- An airflow that is within one of the target, or 2^31 or more away, decides: the loop does not
get past it. -/
theorem comesTo_iff_of_first {k : ℕ} (hk : k < 19)
    (hturns : ∀ j < k, 1 ≤ distance quot getAir sub corair gama1 j ∧
      distance quot getAir sub corair gama1 j < 2 ^ 31)
    (hlast : distance quot getAir sub corair gama1 k < 1 ∨
      2 ^ 31 ≤ distance quot getAir sub corair gama1 k) :
    ComesTo quot getAir sub corair gama1 ↔
      distance quot getAir sub corair gama1 k ≤ 0.0001 := by
  constructor
  · rintro ⟨i, hi, hall, hlt, hnear⟩
    rcases Nat.lt_trichotomy i k with hik | rfl | hki
    · have hone := (hturns i hik).1
      have hsmall := hnear (hik.trans hk)
      exact absurd (hone.trans hsmall) (by norm_num)
    · exact hnear hk
    · obtain ⟨hone, hbound⟩ := hall k hki
      rcases hlast with h | h
      · exact absurd hone (not_le.mpr h)
      · exact absurd hbound (not_lt.mpr h)
  · intro h
    exact ⟨k, hk.le, hturns, h.trans_lt (by norm_num), fun _ => h⟩

/-- **When `getMach` inverts `getAir`.** For any function `getAir`, `sub` zero or two and every
airflow not above the choked one: `getMach` returns, and what it returns without having used up its
cap inverts `getAir` to .0001, if and only if the secant method comes to the target. In terms of the
airflow: when it is within one of the guess .25618, or 2^31 or more away from it, that is whether it
is within .0001 of the guess; and when it is not, but within one of the airflow at the second point
or 2^31 or more away from that, whether it is within .0001 of the airflow there. -/
theorem getMach_inverts_iff (quot getAir : K → K → K) (sub : ℕ) (corair gama1 : K)
    (hsub : sub = 0 ∨ sub = 2) (hle : corair ≤ getAir 1.0 gama1) :
    (Inverts quot getAir sub corair gama1 ↔ ComesTo quot getAir sub corair gama1) ∧
      (|corair - 0.25618| < 1 ∨ 2 ^ 31 ≤ |corair - 0.25618| →
        (Inverts quot getAir sub corair gama1 ↔ |corair - 0.25618| ≤ 0.0001)) ∧
      (1 ≤ |corair - 0.25618| → |corair - 0.25618| < 2 ^ 31 →
        |corair - getAir (MachState.start sub).machn gama1| < 1 ∨
          2 ^ 31 ≤ |corair - getAir (MachState.start sub).machn gama1| →
        (Inverts quot getAir sub corair gama1 ↔
          |corair - getAir (MachState.start sub).machn gama1| ≤ 0.0001)) := by
  have hiff : Inverts quot getAir sub corair gama1 ↔ ComesTo quot getAir sub corair gama1 :=
    inverts_iff_comesTo (by omega) hle
  refine ⟨hiff, fun hguess => ?_, fun hone hlt hlast => ?_⟩
  · rw [hiff]
    exact comesTo_iff_of_first (k := 0) (by norm_num) (fun j hj => absurd hj (Nat.not_lt_zero j))
      hguess
  · rw [hiff]
    refine comesTo_iff_of_first (k := 1) (by norm_num) (fun j hj => ?_) hlast
    obtain rfl := Nat.lt_one_iff.mp hj
    exact ⟨hone, hlt⟩

/-- The identity takes three turns to the target -5. -/
theorem getMach_inverts_identity :
    Inverts (fun x y : ℚ => x / y) (fun m _ => m) 0 (-5) 1.4 := by
  refine (getMach_inverts_iff (fun x y : ℚ => x / y) (fun m _ => m) 0 (-5) 1.4 (.inl rfl)
    (by norm_num)).1.mpr ⟨3, by norm_num, ?_, ?_, fun _ => ?_⟩
  · decide +kernel
  · decide +kernel
  · decide +kernel

/-- The target .5 is within one of the guess: no turn is taken. -/
theorem getMach_not_inverts :
    ¬Inverts (fun x y : ℚ => x / y) (fun m _ => m) 0 0.5 1.4 := by
  rintro ⟨s, hloop, -, hconv⟩
  have hstart : machLoop (fun x y : ℚ => x / y) (fun m _ => m) 0 0.5 1.4 =
      some (MachState.start 0) := by
    refine While.runT_eq_some_iff.mpr ⟨0, Nat.succ_pos 19, While.definedLeaves_zero ?_, rfl⟩
    rw [MachState.test_eq_some_iff]
    norm_num [MachState.start, abs_lt]
  cases hstart.symm.trans hloop
  have := (hconv (by decide)).1
  norm_num [MachState.start] at this

/-! ## The Rayleigh loss -/

variable (f : RayleighMath K) (mach1 ttrat tlow : K)

/-- A loss is converged: it is that of a Mach number which the next one is within .0001 of. -/
def Converged (number : K) : Prop :=
  ∃ mach2, number = lossOf f mach1 ttrat tlow mach2 ∧
    |machOf f mach1 ttrat tlow number - mach2| ≤ 0.0001

/-- The loop takes no turn: the two guesses differ by less than one. -/
theorem rayleigh_leaves :
    While.DefinedLeaves RayleighState.test (RayleighState.body f mach1 ttrat tlow)
      RayleighState.start 0 := by
  have hdiff : intAbs ((RayleighState.start : RayleighState K).mach2 -
      (RayleighState.start : RayleighState K).mgueso) = some 0 := by
    rw [intAbs_eq_some_iff, eq_comm, Int.floor_eq_zero_iff, Set.mem_Ico]
    norm_num [RayleighState.start, abs_lt]
  apply While.definedLeaves_zero
  rw [RayleighState.test, hdiff]
  norm_num

theorem getRayleighLoss_eq {turns : ℕ} (h : 0 < turns) :
    getRayleighLoss f mach1 ttrat tlow turns = some 0.95 := by
  rw [getRayleighLoss,
    While.runT_eq_some_iff.mpr ⟨0, h, rayleigh_leaves f mach1 ttrat tlow, rfl⟩]
  rfl

theorem eq_of_getRayleighLoss {turns : ℕ} {number : K}
    (h : getRayleighLoss f mach1 ttrat tlow turns = some number) : number = 0.95 := by
  obtain ⟨s, hs, rfl⟩ := Option.map_eq_some_iff.mp h
  obtain ⟨k, -, hleaves, rfl⟩ := While.runT_eq_some_iff.mp hs
  obtain rfl : k = 0 := hleaves.unique (rayleigh_leaves f mach1 ttrat tlow)
  rfl

/-- **When the Rayleigh loss is converged.** For any functions and all inputs: the loop ends, and
the number returned is a converged loss if and only if the initial .95 is one. -/
theorem rayleigh_converged_iff :
    (∃ turns number, getRayleighLoss f mach1 ttrat tlow turns = some number) ∧
      ((∀ turns number, getRayleighLoss f mach1 ttrat tlow turns = some number →
          Converged f mach1 ttrat tlow number) ↔
        ∃ mach2, 0.95 = lossOf f mach1 ttrat tlow mach2 ∧
          |machOf f mach1 ttrat tlow 0.95 - mach2| ≤ 0.0001) := by
  refine ⟨⟨1, 0.95, getRayleighLoss_eq f mach1 ttrat tlow Nat.one_pos⟩, ?_⟩
  constructor
  · intro h
    exact h 1 0.95 (getRayleighLoss_eq f mach1 ttrat tlow Nat.one_pos)
  · intro h turns number hnumber
    obtain rfl := eq_of_getRayleighLoss f mach1 ttrat tlow hnumber
    exact h

/-- A gas whose downstream Mach number is .5 whatever the airflow. -/
def halfMach (gama : ℚ) : RayleighMath ℚ where
  getAir := fun mach _ => mach
  getGama := fun _ => gama
  getMach := fun _ _ _ => 0.5
  fpow := fun _ _ => 1
  sqroot := fun x => x
  quot := fun x y => x / y

/-- With `gama` 4/19 the loss at the Mach number .5 is .95. -/
theorem rayleigh_converged_guess :
    (∃ turns number, getRayleighLoss (halfMach (4 / 19)) 0 1 500 turns = some number) ∧
      ∀ turns number, getRayleighLoss (halfMach (4 / 19)) 0 1 500 turns = some number →
        Converged (halfMach (4 / 19)) 0 1 500 number := by
  obtain ⟨hends, hconv⟩ := rayleigh_converged_iff (halfMach (4 / 19)) 0 1 500
  exact ⟨hends, hconv.mpr ⟨0.5, by norm_num [lossOf, halfMach], by norm_num [machOf, halfMach]⟩⟩

/-- The loss at the Mach number .5 is far from .95. -/
theorem rayleigh_not_converged :
    ¬∀ turns number, getRayleighLoss (halfMach 1.4) 0 1 500 turns = some number →
      Converged (halfMach 1.4) 0 1 500 number := by
  intro h
  obtain ⟨mach2, hloss, hnear⟩ := h 1 0.95 (getRayleighLoss_eq (halfMach 1.4) 0 1 500 Nat.one_pos)
  have hpos : (0 : ℚ) < 1 + 1.4 * mach2 * mach2 := by nlinarith [mul_self_nonneg mach2]
  have hloss : (0.95 : ℚ) = 1 / (1 + 1.4 * mach2 * mach2) := by
    rw [hloss, lossOf]
    norm_num [halfMach]
  rw [eq_div_iff hpos.ne'] at hloss
  have hnear : |0.5 - mach2| ≤ 0.0001 := hnear
  rw [abs_le] at hnear
  norm_num at hloss hnear
  nlinarith [hnear.1, hnear.2]

end OsesProject

import OsesProject.Application.Sampling
import OsesProject.Lib.While
import Mathlib.Algebra.Order.Floor.Ring
import Mathlib.Algebra.Order.Field.Basic
import Mathlib.Tactic.NormNum.OfScientific

/-!
# The iterations of the benchmark

`getMach` and `getRayleighLoss` of `XenoJetBench.c`, in an ordered field with a floor. `abs` is that
of `<stdlib.h>`: its argument becomes an `int`, which drops the digits behind the point, before the
comparison with .0001. Where the number does not fit, and at the lowest `int`, the language leaves
`abs` undefined, and the loops give nothing. The functions they call are parameters, any functions
whatever, and so is the quotient of two numbers: nothing depends on what a division by zero gives.
-/

namespace OsesProject

variable {K : Type*} [Field K] [LinearOrder K] [IsStrictOrderedRing K] [FloorRing K]

/-- The conversion of a number to an integer. -/
def towardZero (x : K) : ℤ := if 0 ≤ x then ⌊x⌋ else ⌈x⌉

/-- The conversion drops the digits behind the point. -/
theorem abs_towardZero (x : K) : |towardZero x| = ⌊|x|⌋ := by
  rw [towardZero]
  split
  · next hx => rw [abs_of_nonneg hx, abs_of_nonneg (Int.floor_nonneg.mpr hx)]
  · next hx =>
    have hx : x ≤ 0 := le_of_not_ge hx
    have hceil : ⌈x⌉ ≤ 0 := Int.ceil_le.mpr (by simpa using hx)
    rw [abs_of_nonpos hx, abs_of_nonpos hceil, Int.floor_neg]

/-- `abs` of `<stdlib.h>` with a number for its argument: the number is converted to an `int`, and
the absolute value is an `int` again. -/
def intAbs (x : K) : Option ℤ := do
  let n ← int32 (towardZero x)
  int32 |n|

/-! ## The Mach number of an airflow -/

/-- The variables of the loop of `getMach`. -/
structure MachState (K : Type*) where
  machn : K
  macho : K
  airo : K
  iter : ℕ

/-- `abs(corair - airo) > .0001 && iter < 20`. -/
def MachState.test (corair : K) (s : MachState K) : Option Bool := do
  let n ← intAbs (corair - s.airo)
  some ((n : K) > 0.0001 ∧ s.iter < 20)

/-- The body of the loop. -/
def MachState.body (quot getAir : K → K → K) (corair gama1 : K) (s : MachState K) : MachState K :=
  let airn := getAir s.machn gama1
  let deriv := quot (airn - s.airo) (s.machn - s.macho)
  let airo := airn
  let macho := s.machn
  let machn := macho + quot (corair - airo) deriv
  ⟨machn, macho, airo, s.iter + 1⟩

/-- The variables before the loop: `sub` chooses the guess. -/
def MachState.start (sub : ℕ) : MachState K :=
  let macho := if sub = 2 then 1.703 else 0.5
  ⟨macho - 0.2, macho, 0.25618, 1⟩

/-- The variables after the loop, for `sub` other than one. -/
def machLoop (quot getAir : K → K → K) (sub : ℕ) (corair gama1 : K) : Option (MachState K) :=
  While.runT (MachState.test corair) (MachState.body quot getAir corair gama1) 20
    (MachState.start sub)

/-- `getMach`. -/
def getMach (quot getAir : K → K → K) (sub : ℕ) (corair gama1 : K) : Option K :=
  let chokair := getAir 1.0 gama1
  if corair > chokair then
    some 1.0
  else if sub = 1 then
    some 1.0
  else
    (machLoop quot getAir sub corair gama1).map MachState.macho

/-! ## The pressure loss of the Rayleigh flow -/

/-- The functions `getRayleighLoss` calls. -/
structure RayleighMath (K : Type*) where
  getAir : K → K → K
  getGama : K → K
  getMach : ℕ → K → K → K
  fpow : K → K → K
  sqroot : K → K
  quot : K → K → K

/-- The variables of the loop of `getRayleighLoss`. -/
structure RayleighState (K : Type*) where
  mgueso : K
  mach2 : K
  number : K

/-- `abs(mach2 - mgueso) > .0001`. -/
def RayleighState.test (s : RayleighState K) : Option Bool := do
  let n ← intAbs (s.mach2 - s.mgueso)
  some ((n : K) > 0.0001)

section
variable (f : RayleighMath K) (mach1 ttrat tlow : K)

/-- The loss for a Mach number downstream: `fac1 * fac4 / fac2 / fac3`. -/
def lossOf (mach2 : K) : K :=
  let g1 := f.getGama tlow
  let gm1 := g1 - 1.0
  let g2 := f.getGama (tlow * ttrat)
  let gm2 := g2 - 1.0
  let fac1 := 1.0 + g1 * mach1 * mach1
  let fac2 := 1.0 + g2 * mach2 * mach2
  let fac3 := f.fpow (1.0 + 0.5 * gm1 * mach1 * mach1) (f.quot g1 gm1)
  let fac4 := f.fpow (1.0 + 0.5 * gm2 * mach2 * mach2) (f.quot g2 gm2)
  f.quot (f.quot (fac1 * fac4) fac2) fac3

/-- The Mach number downstream for a loss: `getMach(0, wc1 * sqroot(ttrat) / number, g2)`. -/
def machOf (number : K) : K :=
  let wc1 := f.getAir mach1 (f.getGama tlow)
  let wc2 := f.quot (wc1 * f.sqroot ttrat) number
  f.getMach 0 wc2 (f.getGama (tlow * ttrat))

/-- The body of the loop. -/
def RayleighState.body (s : RayleighState K) : RayleighState K :=
  let mgueso := s.mach2
  let number := lossOf f mach1 ttrat tlow s.mach2
  ⟨mgueso, machOf f mach1 ttrat tlow number, number⟩

/-- The variables before the loop. -/
def RayleighState.start : RayleighState K := ⟨0.4, 0.5, 0.95⟩

/-- `getRayleighLoss`, with a bound on the turns of its loop. -/
def getRayleighLoss (turns : ℕ) : Option K :=
  (While.runT RayleighState.test (RayleighState.body f mach1 ttrat tlow) turns
    RayleighState.start).map RayleighState.number

end

end OsesProject

import OsesProject.Lib.While
import OsesProject.Application.Mach
import OsesProject.Application.Sampling
import Mathlib.Data.Rat.Floor

/-!
# The math utilities of the benchmark

`sqroot`, `xlog`, `expo`, `power` and `fpow` of `XenoJetBench.c`, in rational numbers. Each has a
bound for the turns of its loops and the depth of its recursion. It gives nothing when the bound is
too small, when a divisor is zero, and when an `int` overflows, which the language leaves undefined.

The counters of the two series are `int`s. What an `int` expression is worth is a parameter of the
series: `int32` for the `int`s of the target, and `some` for integers that never overflow. The
exponent of `power` is an `int` in two's complement, whose negation wraps around.
-/

namespace OsesProject

/-- The quotient, if there is one. -/
def divide (a b : ℚ) : Option ℚ := if b = 0 then none else some (a / b)

/-! ## Square roots -/

/-- The variables of the loop of `sqroot`. -/
structure SqrootState where
  x : ℚ
  prec : ℚ

/-- `(prec > 0.0001) || (prec < -0.0001)`. -/
def SqrootState.Test (s : SqrootState) : Prop := s.prec > 0.0001 ∨ s.prec < -0.0001

instance : DecidablePred SqrootState.Test :=
  fun s => inferInstanceAs (Decidable (s.prec > 0.0001 ∨ s.prec < -0.0001))

/-- The body of the loop. -/
def SqrootState.body (number : ℚ) (s : SqrootState) : Option SqrootState := do
  let x0 := s.x
  let quotient ← divide number x0
  let x := 0.5 * (x0 + quotient)
  let prec ← divide (x - x0) x0
  some ⟨x, prec⟩

/-- `sqroot`. -/
def sqroot (number : ℚ) (turns : ℕ) : Option ℚ :=
  if number < 0 then
    some 0
  else
    (While.runM SqrootState.Test (SqrootState.body number) turns ⟨(1 + number) / 2, 1⟩).map
      SqrootState.x

/-! ## Logarithms and exponentials -/

/-- `PRECISION`. -/
def precision : ℚ := 0.0001

/-- `xfabs`. -/
def xfabs (x : ℚ) : ℚ := if x < 0 then -x else x

/-- The variables of the loops of `xlog` and `expo`. -/
structure SeriesState where
  number : ℚ
  coeff : ℚ
  i : ℤ

/-- `xfabs(coeff) > PRECISION`. -/
def SeriesState.Test (s : SeriesState) : Prop := xfabs s.coeff > precision

instance : DecidablePred SeriesState.Test :=
  fun s => inferInstanceAs (Decidable (xfabs s.coeff > precision))

section
variable (int : ℤ → Option ℤ)

/-- The body of the loop of `xlog`. -/
def xlogBody (x : ℚ) (s : SeriesState) : Option SeriesState := do
  let coeff := s.coeff * (1 - x)
  let term ← divide coeff s.i
  let i ← int (s.i + 1)
  some ⟨s.number + term, coeff, i⟩

/-- `xlog`. -/
def xlog : ℕ → ℚ → Option ℚ
  | 0, _ => none
  | turns + 1, x =>
    if x ≤ 0 then
      some 0
    else if x = 1 then
      some 0
    else if x > 1 then do
      let inverse ← divide 1 x
      (xlog turns inverse).map (- ·)
    else
      (While.runM SeriesState.Test (xlogBody int x) (turns + 1) ⟨0, -1, 1⟩).map SeriesState.number

/-- The body of the loop of `expo`. -/
def expoBody (x : ℚ) (s : SeriesState) : Option SeriesState := do
  let ratio ← divide x s.i
  let coeff := s.coeff * ratio
  let i ← int (s.i + 1)
  some ⟨s.number + coeff, coeff, i⟩

/-- `expo`. -/
def expo : ℕ → ℚ → Option ℚ
  | 0, _ => none
  | turns + 1, x =>
    if x > 709.782712893384 then
      expo turns 709.78
    else
      (While.runM SeriesState.Test (expoBody int x) (turns + 1) ⟨1, 1, 1⟩).map SeriesState.number

end

/-! ## Powers -/

/-- The variables of the loop of `power`. -/
structure PowerState where
  number : ℚ
  i : Int32

/-- `i < y`. -/
def PowerState.Test (y : Int32) (s : PowerState) : Prop := s.i < y

instance (y : Int32) : DecidablePred (PowerState.Test y) :=
  fun s => inferInstanceAs (Decidable (s.i < y))

/-- The body of the loop. -/
def PowerState.body (x : ℚ) (s : PowerState) : PowerState := ⟨s.number * x, s.i + 1⟩

/-- `power`. -/
def power (x : ℚ) : ℕ → Int32 → Option ℚ
  | 0, _ => none
  | turns + 1, y =>
    if y < 0 then
      (power x turns (-y)).bind (divide 1)
    else
      (While.run (PowerState.Test y) (PowerState.body x) (turns + 1) ⟨1, 0⟩).map PowerState.number

/-- `fpow`. -/
def fpow (int : ℤ → Option ℤ) (turns : ℕ) (x y : ℚ) : Option ℚ := do
  let partieEntiere ← int32 (towardZero y)
  if x < 0 then
    power x turns (Int32.ofInt partieEntiere)
  else
    let integral ← power x turns (Int32.ofInt partieEntiere)
    let logarithm ← xlog int turns x
    let decimal ← expo int turns ((y - partieEntiere) * logarithm)
    some (integral * decimal)

end OsesProject

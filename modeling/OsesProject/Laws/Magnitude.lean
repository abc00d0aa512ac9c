import OsesProject.Laws.Mpu6050
import OsesProject.Application.Sampling
import Mathlib.Algebra.BigOperators.Fin
import Mathlib.Algebra.Order.BigOperators.Group.Finset
import Mathlib.Algebra.Order.Ring.Int
import Mathlib.Tactic.NormNum
import Mathlib.Tactic.Linarith

/-!
# Which magnitudes overflow

The squares of two axes fit into an `int` together only if they stay below `2 ^ 31`, and so do those
of three; each alone is at most `2 ^ 30`. The partial sums are no larger than the whole, so that the
expression is defined exactly when the exact sum is below `2 ^ 31` (`sumOfSquares_eq_iff`).
-/

namespace OsesProject

open Mpu6050

/-- The exact sum of squares. -/
def squares (v : Fin 3 → Int) : Int := ∑ i, v i * v i

theorem squares_eq (v : Fin 3 → Int) : squares v = v 0 * v 0 + v 1 * v 1 + v 2 * v 2 :=
  Fin.sum_univ_three _

/-- The producer's model of the modulus takes the root of the exact sum. -/
theorem modulus_eq {F : Type} (f : SensorMath F) (v : Fin 3 → Int) :
    f.modulus v = f.sqroot (squares v) := by
  rw [squares_eq, SensorMath.modulus]

theorem squares_nonneg (v : Fin 3 → Int) : 0 ≤ squares v :=
  Finset.sum_nonneg fun i _ => mul_self_nonneg (v i)

theorem int32_of_lt {x : Int} (h0 : 0 ≤ x) (h : x < 2 ^ 31) : int32 x = some x :=
  if_pos ⟨le_trans (by norm_num) h0, Int.le_of_lt_add_one h⟩

/-- The expression has the exact value if and only if that value is below `2 ^ 31`. -/
theorem sumOfSquares_eq_iff (v : Fin 3 → Int) :
    sumOfSquares v = some (squares v) ↔ squares v < 2 ^ 31 := by
  have hx := mul_self_nonneg (v 0)
  have hy := mul_self_nonneg (v 1)
  have hz := mul_self_nonneg (v 2)
  rw [squares_eq]
  constructor
  · intro h
    simp only [sumOfSquares, Option.bind_eq_bind, Option.bind_eq_some_iff] at h
    obtain ⟨x, -, y, -, xy, -, z, -, hsum⟩ := h
    obtain ⟨hfits, heq⟩ := int32_eq_some_iff.mp hsum
    rw [heq]
    exact Int.lt_add_one_of_le hfits.2
  · intro h
    rw [sumOfSquares, int32_of_lt hx (by linarith), int32_of_lt hy (by linarith)]
    simp only [Option.bind_eq_bind, Option.bind_some]
    rw [int32_of_lt (add_nonneg hx hy) (by linarith), int32_of_lt hz (by linarith)]
    exact int32_of_lt (add_nonneg (add_nonneg hx hy) hz) h

/-- The expression has, without overflow, the sum of the squares of the three values in the
registers, and the root is taken of a number that is not negative. -/
def ExactMagnitude (v exact : Fin 3 → Int) : Prop :=
  ∃ x, sumOfSquares v = some x ∧ x = squares exact ∧ 0 ≤ x

theorem exactMagnitude_iff (v : Fin 3 → Int) : ExactMagnitude v v ↔ squares v < 2 ^ 31 := by
  rw [← sumOfSquares_eq_iff]
  constructor
  · rintro ⟨x, hsum, rfl, -⟩
    exact hsum
  · intro hsum
    exact ⟨_, hsum, rfl, squares_nonneg v⟩

/-- The transfers of the acceleration and the rotation succeed. -/
def Succeeds (t : RawFates) : Prop :=
  t.accWrite = .done ∧ t.accRead = .done ∧ t.gyroWrite = .done ∧ t.gyroRead = .done

/-- **Which magnitudes overflow.** For every content of the registers, when the transfers succeed:
the two expressions of the producer have the exact sums of squares of the values in the registers,
without overflow and not negative, if and only if both sums are below `2 ^ 31`. -/
theorem magnitudes_exact_iff (d : RegisterFile) (buffer : List UInt8) (t : RawFates)
    (hbuffer : buffer.length = 6) (ht : Succeeds t) :
    (ExactMagnitude (readRaw d buffer t).accel (axesAt d.regs 0x3B) ∧
        ExactMagnitude (readRaw d buffer t).gyro (axesAt d.regs 0x43)) ↔
      squares (axesAt d.regs 0x3B) < 2 ^ 31 ∧ squares (axesAt d.regs 0x43) < 2 ^ 31 := by
  obtain ⟨haccWrite, haccRead, hgyroWrite, hgyroRead⟩ := ht
  have haccel : (readRaw d buffer t).accel = axesAt d.regs 0x3B := by
    rw [readRaw_accel, axes_eq_iff]
    exact accelBuffer_holds hbuffer (startOf_eq_iff.mpr (.inl haccWrite)) (by rw [haccRead]; rfl)
  have hgyro : (readRaw d buffer t).gyro = axesAt d.regs 0x43 := by
    rw [readRaw_gyro, axes_eq_iff]
    exact gyroBuffer_holds hbuffer hgyroWrite (by rw [hgyroRead]; rfl)
  rw [haccel, hgyro]
  exact and_congr (exactMagnitude_iff _) (exactMagnitude_iff _)

/-- A sensor at rest, with one gravity on an axis. -/
def atRest : RegisterFile := ⟨fun r => if r = 0x3B then 0x40 else 0, 0⟩

/-- A sensor with all axes at their lowest value. -/
def fullScale : RegisterFile := ⟨fun r => if r.toNat % 2 = 1 then 0x80 else 0, 0⟩

/-- All transfers succeed. -/
def allDone : RawFates := ⟨.done, .done, .done, .done, .done, .done⟩

/-- The magnitudes of a sensor at rest are exact. -/
theorem magnitudes_exact_at_rest :
    ExactMagnitude (readRaw atRest [0, 0, 0, 0, 0, 0] allDone).accel (axesAt atRest.regs 0x3B) ∧
      ExactMagnitude (readRaw atRest [0, 0, 0, 0, 0, 0] allDone).gyro (axesAt atRest.regs 0x43) :=
  (magnitudes_exact_iff atRest [0, 0, 0, 0, 0, 0] allDone rfl ⟨rfl, rfl, rfl, rfl⟩).mpr
    ⟨by decide, by decide⟩

/-- With all axes at their lowest value the sum of the squares does not fit. -/
theorem magnitude_overflows :
    ¬(ExactMagnitude (readRaw fullScale [0, 0, 0, 0, 0, 0] allDone).accel
          (axesAt fullScale.regs 0x3B) ∧
        ExactMagnitude (readRaw fullScale [0, 0, 0, 0, 0, 0] allDone).gyro
          (axesAt fullScale.regs 0x43)) := by
  rintro ⟨⟨x, hsum, -⟩, -⟩
  have hnone : sumOfSquares (readRaw fullScale [0, 0, 0, 0, 0, 0] allDone).accel = none := by
    decide
  cases hnone.symm.trans hsum

end OsesProject

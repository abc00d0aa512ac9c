import OsesProject.Application.MathUtilities
import OsesProject.Lib.Newton

/-!
# Which square roots are found

`sqroot` is Newton's iteration from the mean of 1 and the number, which is not below the root. It
ends when the relative change of a step is at most .0001, and a step with so small a change has a
square within a relative 10⁻⁷ of the number (`sqroot_accurate_iff`).

Zero is not sent back with the negative numbers. Every step halves then, the relative change is -1/2
each time, and the loop does not end (`sqroot_zero`).
-/

namespace OsesProject

variable {number : ℚ} {s : SqrootState}

namespace SqrootState

/-- A turn of the loop whose divisor is not zero. -/
def turn (number : ℚ) (s : SqrootState) : SqrootState :=
  ⟨Newton.step number s.x, Newton.change number s.x⟩

theorem body_eq (number : ℚ) (s : SqrootState) :
    body number s = if s.x = 0 then none else some (turn number s) := by
  by_cases hx : s.x = 0
  · simp [body, divide, hx]
  · simp [body, divide, hx, turn, Newton.step, Newton.change]

/-- The loop follows Newton's iteration. -/
theorem iterate_turn_x (k : ℕ) :
    ((turn number)^[k] s).x = (Newton.step number)^[k] s.x := by
  induction k with
  | zero => rfl
  | succ k ih =>
    rw [Function.iterate_succ_apply', Function.iterate_succ_apply', ← ih]
    rfl

theorem iterate_turn_prec (k : ℕ) :
    ((turn number)^[k + 1] s).prec = Newton.change number ((Newton.step number)^[k] s.x) := by
  rw [Function.iterate_succ_apply', ← iterate_turn_x]
  rfl

/-- The variables before the loop. -/
def start (number : ℚ) : SqrootState := ⟨(1 + number) / 2, 1⟩

theorem start_test (number : ℚ) : (start number).Test := by
  refine .inl ?_
  norm_num [start]

theorem start_pos (hn : 0 ≤ number) : 0 < (start number).x :=
  div_pos (by linarith) two_pos

/-- The mean of 1 and the number is not below the root. -/
theorem le_start_sq (number : ℚ) : number ≤ (start number).x ^ 2 := by
  show number ≤ ((1 + number) / 2) ^ 2
  nlinarith [sq_nonneg (1 - number)]

/-- No turn divides by zero. -/
theorem body_iterate (hn : 0 ≤ number) (j : ℕ) :
    body number ((turn number)^[j] (start number)) =
      some ((turn number)^[j + 1] (start number)) := by
  have hpos := Newton.iterate_step_pos hn (start_pos hn) j
  rw [body_eq, iterate_turn_x, if_neg hpos.ne', Function.iterate_succ_apply']

theorem iterate_of_body (hn : 0 ≤ number) (j : ℕ) (t : SqrootState)
    (h : body number ((turn number)^[j] (start number)) = some t) :
    (turn number)^[j + 1] (start number) = t := by
  rw [body_iterate hn] at h
  exact Option.some.inj h

/-- The test after a turn, which never makes the iterate larger. -/
theorem test_iff (hn : 0 ≤ number) (k : ℕ) :
    ((turn number)^[k + 1] (start number)).Test ↔
      Newton.change number ((Newton.step number)^[k] (start number).x) < -0.0001 := by
  have hpos := Newton.iterate_step_pos hn (start_pos hn) k
  have hbelow :=
    (Newton.excess_iterate_le hn (start_pos hn) (le_start_sq number) k).1
  rw [Test, iterate_turn_prec]
  refine or_iff_right (not_lt.mpr ?_)
  exact (Newton.change_nonpos hpos.ne' hbelow).trans (by norm_num)

/-- The loop ends for every positive number. -/
theorem leaves (hn : 0 < number) :
    ∃ k, While.Leaves Test (turn number) (start number)
      (k + 1) := by
  obtain ⟨n, hsmall⟩ := Newton.exists_change_le hn (start_pos hn.le)
    (le_start_sq number) (show (0 : ℚ) < 0.0001 by norm_num)
  have hends : ¬((turn number)^[n + 1] (start number)).Test := by
    rw [test_iff hn.le]
    exact not_lt.mpr hsmall
  obtain ⟨k, -, hleaves⟩ := While.exists_leaves hends
  cases k with
  | zero => exact absurd (start_test number) hleaves.2
  | succ k => exact ⟨k, hleaves⟩

end SqrootState

theorem sqroot_eq (hn : 0 ≤ number) (turns : ℕ) :
    sqroot number turns =
      (While.runM SqrootState.Test (SqrootState.body number) turns (SqrootState.start number)).map
        SqrootState.x :=
  if_neg (not_lt.mpr hn)

/-- The root of a positive number. -/
theorem sqroot_returns (hn : 0 < number) :
    ∃ r, Returns (sqroot number) r ∧ 0 ≤ r ∧ number ≤ r ^ 2 ∧
      r ^ 2 ≤ number * (1 + 1 / 10 ^ 7) := by
  obtain ⟨k, hleaves⟩ := SqrootState.leaves hn
  have hreturns := (While.returns_runM (SqrootState.iterate_of_body hn.le) hleaves.1 hleaves.2
    fun j _ => SqrootState.body_iterate hn.le j).map SqrootState.x
  rw [SqrootState.iterate_turn_x] at hreturns
  -- the last step, from the iterate before it
  set x := (Newton.step number)^[k] (SqrootState.start number).x with hx
  have hlast : (Newton.step number)^[k + 1] (SqrootState.start number).x = Newton.step number x :=
    Function.iterate_succ_apply' _ _ _
  rw [hlast] at hreturns
  have hpos : 0 < x := Newton.iterate_step_pos hn.le (SqrootState.start_pos hn.le) k
  have hbelow : number ≤ x ^ 2 :=
    (Newton.excess_iterate_le hn.le (SqrootState.start_pos hn.le)
      (SqrootState.le_start_sq number) k).1
  have hsmall : -0.0001 ≤ Newton.change number x :=
    not_lt.mp fun h => hleaves.2 ((SqrootState.test_iff hn.le k).mpr h)
  refine ⟨Newton.step number x, ?_, (Newton.step_pos hn.le hpos).le, Newton.le_sq_step hpos.ne', ?_⟩
  · obtain ⟨turns, hturns⟩ := hreturns
    exact ⟨turns, fun m hm => (sqroot_eq hn.le m).trans (hturns m hm)⟩
  · have hnear := Newton.sq_step_le_of_change hpos hbelow (by norm_num) hsmall
    refine hnear.trans (mul_le_mul_of_nonneg_left ?_ hn.le)
    norm_num

/-- **The root of zero.** The loop does not end. -/
theorem sqroot_zero (turns : ℕ) : sqroot 0 turns = none := by
  rw [sqroot_eq le_rfl, Option.map_eq_none_iff]
  by_contra hsome
  obtain ⟨t, ht⟩ := Option.ne_none_iff_exists'.mp hsome
  obtain ⟨k, -, -, hlast, -⟩ :=
    (While.runM_eq_some_iff (SqrootState.iterate_of_body le_rfl)).mp ht
  cases k with
  | zero => exact hlast (SqrootState.start_test 0)
  | succ k =>
    apply hlast
    have hpos := Newton.iterate_step_pos le_rfl (SqrootState.start_pos le_rfl) k
    rw [SqrootState.test_iff le_rfl, Newton.change_zero hpos.ne']
    norm_num

/-- **Which square roots are found.** For every number that is not negative: the loop ends without
a division by zero, and its result is not negative and has a square between the number and the
number times 1 + 10⁻⁷, if and only if the number is not zero. -/
theorem sqroot_accurate_iff (n : ℚ) (hn : 0 ≤ n) :
    (∃ r, Returns (sqroot n) r ∧ 0 ≤ r ∧ n ≤ r ^ 2 ∧ r ^ 2 ≤ n * (1 + 1 / 10 ^ 7)) ↔ 0 < n := by
  constructor
  · rintro ⟨r, hreturns, -⟩
    refine lt_of_le_of_ne hn ?_
    rintro rfl
    exact Returns.not_of_forall_none sqroot_zero hreturns
  · exact sqroot_returns

/-- The root of 2. -/
theorem sqroot_accurate_two :
    ∃ r, Returns (sqroot 2) r ∧ 0 ≤ r ∧ 2 ≤ r ^ 2 ∧ r ^ 2 ≤ 2 * (1 + 1 / 10 ^ 7) :=
  (sqroot_accurate_iff 2 (by norm_num)).mpr (by norm_num)

/-- No bound is enough for the root of zero. -/
theorem sqroot_zero_endless :
    ¬∃ r, Returns (sqroot 0) r ∧ 0 ≤ r ∧ 0 ≤ r ^ 2 ∧ r ^ 2 ≤ 0 * (1 + 1 / 10 ^ 7) := by
  rintro ⟨r, hreturns, -⟩
  exact Returns.not_of_forall_none sqroot_zero hreturns

end OsesProject

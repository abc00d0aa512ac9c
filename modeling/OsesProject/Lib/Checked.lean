import Mathlib.Algebra.Order.Field.Basic
import Mathlib.Data.Rat.Cast.OfScientific
import Mathlib.Order.WithBot
import Mathlib.Order.Lattice

/-!
# Numbers that remember a division by zero

`Checked K` is a field with one more value, `undefined`, for what a division by zero gives. Every
operation with an undefined operand is undefined, so that the value of an expression is defined
exactly when no divisor in it is zero. What a defined result says about the operands is said by one
rule for each operation (`add_eq_ok`, `div_eq_ok` and the like).
-/

/-- A number, or what a division by zero gives. -/
inductive Checked (K : Type*)
  | undefined
  | ok (x : K)

namespace Checked

variable {K : Type*}

/-- A number, and not the trace of a division by zero. -/
def Defined (x : Checked K) : Prop := ∃ a, x = ok a

@[simp] theorem ok_inj {a b : K} : (ok a : Checked K) = ok b ↔ a = b := ⟨ok.inj, congrArg ok⟩

@[simp] theorem defined_ok (a : K) : (ok a).Defined := ⟨a, rfl⟩

@[simp] theorem not_defined_undefined : ¬(undefined : Checked K).Defined := by
  rintro ⟨a, h⟩
  cases h

/-- A function of defined numbers. -/
def map (f : K → K) : Checked K → Checked K
  | ok a => ok (f a)
  | undefined => undefined

/-- A function of two defined numbers. -/
def map₂ (f : K → K → K) : Checked K → Checked K → Checked K
  | ok a, ok b => ok (f a b)
  | _, _ => undefined

/-- A function of three defined numbers. -/
def map₃ (f : K → K → K → K) : Checked K → Checked K → Checked K → Checked K
  | ok a, ok b, ok c => ok (f a b c)
  | _, _, _ => undefined

theorem map_eq_ok {f : K → K} {x : Checked K} {c : K} :
    map f x = ok c ↔ ∃ a, x = ok a ∧ f a = c := by
  cases x <;> simp [map]

theorem map₂_eq_ok {f : K → K → K} {x y : Checked K} {c : K} :
    map₂ f x y = ok c ↔ ∃ a b, x = ok a ∧ y = ok b ∧ f a b = c := by
  cases x <;> cases y <;> simp [map₂]

/-- The order has `undefined` below every number. -/
def toBot : Checked K → WithBot K
  | undefined => ⊥
  | ok a => a

theorem toBot_injective : Function.Injective (toBot (K := K)) := by
  intro x y h
  cases x <;> cases y <;> simp_all [toBot]

section Order
variable [LinearOrder K]

instance linearOrder : LinearOrder (Checked K) := LinearOrder.lift' toBot toBot_injective

@[simp] theorem ok_lt_ok {a b : K} : (ok a : Checked K) < ok b ↔ a < b := WithBot.coe_lt_coe

@[simp] theorem ok_le_ok {a b : K} : (ok a : Checked K) ≤ ok b ↔ a ≤ b := WithBot.coe_le_coe

end Order

section Field
variable [Field K]

instance instAdd : Add (Checked K) := ⟨map₂ (· + ·)⟩

instance instSub : Sub (Checked K) := ⟨map₂ (· - ·)⟩

instance instMul : Mul (Checked K) := ⟨map₂ (· * ·)⟩

instance instNeg : Neg (Checked K) := ⟨map (- ·)⟩

instance instOfNat (n : ℕ) : OfNat (Checked K) n := ⟨ok (n : K)⟩

instance instOfScientific : OfScientific (Checked K) :=
  ⟨fun mantissa sign exponent => ok (OfScientific.ofScientific mantissa sign exponent)⟩

/-- The quotient, which is undefined for a divisor that is zero. -/
def div [DecidableEq K] : Checked K → Checked K → Checked K
  | ok a, ok b => if b = 0 then undefined else ok (a / b)
  | _, _ => undefined

instance instDiv [DecidableEq K] : Div (Checked K) := ⟨div⟩

@[simp] theorem ofScientific_eq (n : ℕ) (s : Bool) (e : ℕ) :
    (OfScientific.ofScientific n s e : Checked K) = ok (OfScientific.ofScientific n s e) := rfl

@[simp] theorem zero_eq : (0 : Checked K) = ok 0 := congrArg ok Nat.cast_zero

@[simp] theorem ofNat_eq (n : ℕ) [n.AtLeastTwo] :
    (OfNat.ofNat n : Checked K) = ok (OfNat.ofNat n) := rfl

variable {x y : Checked K} {a b c : K}

@[simp] theorem ok_add_ok : (ok a + ok b : Checked K) = ok (a + b) := rfl

@[simp] theorem ok_sub_ok : (ok a - ok b : Checked K) = ok (a - b) := rfl

@[simp] theorem ok_mul_ok : (ok a * ok b : Checked K) = ok (a * b) := rfl

theorem add_eq_ok : x + y = ok c ↔ ∃ a b, x = ok a ∧ y = ok b ∧ a + b = c := map₂_eq_ok

theorem sub_eq_ok : x - y = ok c ↔ ∃ a b, x = ok a ∧ y = ok b ∧ a - b = c := map₂_eq_ok

theorem mul_eq_ok : x * y = ok c ↔ ∃ a b, x = ok a ∧ y = ok b ∧ a * b = c := map₂_eq_ok

section Div
variable [DecidableEq K]

theorem ok_div_ok (hb : b ≠ 0) : (ok a / ok b : Checked K) = ok (a / b) := if_neg hb

@[simp] theorem div_zero_eq : (x / ok 0 : Checked K) = undefined := by
  cases x with
  | undefined => rfl
  | ok a => exact if_pos rfl

theorem div_eq_ok :
    x / y = ok c ↔ ∃ a b, x = ok a ∧ y = ok b ∧ b ≠ 0 ∧ a / b = c := by
  constructor
  · intro h
    cases x with
    | undefined => cases h
    | ok a =>
      cases y with
      | undefined => cases h
      | ok b =>
        by_cases hb : b = 0
        · rw [hb, div_zero_eq] at h
          cases h
        · rw [ok_div_ok hb, ok_inj] at h
          exact ⟨a, b, rfl, rfl, hb, h⟩
  · rintro ⟨a, b, rfl, rfl, hb, rfl⟩
    exact ok_div_ok hb

end Div

end Field

end Checked

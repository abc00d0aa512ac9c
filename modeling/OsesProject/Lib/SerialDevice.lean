import Mathlib.Data.List.Basic

/-!
# Devices on a serial bus

A device that is selected is sent words one after the other, and answers each of them with a word of
its own (`shift`). What it is sent from its selection to its release is a frame.
-/

namespace Serial

/-- A device with the states `σ` and the words `β`: its selection, one word with the answer to it,
and its release. -/
structure Device (σ β : Type*) where
  select : σ → σ
  shift : σ → β → σ × β
  release : σ → σ

namespace Device

variable {σ β : Type*} (d : Device σ β)

/-- Words one after the other, with the answers. -/
def shifts : σ → List β → σ × List β
  | s, [] => (s, [])
  | s, b :: bs => ((shifts (d.shift s b).1 bs).1, (d.shift s b).2 :: (shifts (d.shift s b).1 bs).2)

@[simp] theorem shifts_nil (s : σ) : d.shifts s [] = (s, []) := rfl

@[simp] theorem shifts_cons (s : σ) (b : β) (bs : List β) :
    d.shifts s (b :: bs) =
      ((d.shifts (d.shift s b).1 bs).1, (d.shift s b).2 :: (d.shifts (d.shift s b).1 bs).2) := rfl

theorem shifts_append (s : σ) (bs bs' : List β) :
    d.shifts s (bs ++ bs') =
      ((d.shifts (d.shifts s bs).1 bs').1,
        (d.shifts s bs).2 ++ (d.shifts (d.shifts s bs).1 bs').2) := by
  induction bs generalizing s with
  | nil => rfl
  | cons b bs ih => simp [ih]

/-- There is an answer to every word. -/
@[simp] theorem length_shifts (s : σ) (bs : List β) : (d.shifts s bs).2.length = bs.length := by
  induction bs generalizing s with
  | nil => rfl
  | cons b bs ih => simp [ih]

/-- The answers to `bs'` when `bs` has been sent before. -/
theorem drop_shifts_append (s : σ) (bs bs' : List β) :
    (d.shifts s (bs ++ bs')).2.drop bs.length = (d.shifts (d.shifts s bs).1 bs').2 := by
  rw [shifts_append]
  exact List.drop_left' (d.length_shifts s bs)

end Device

end Serial

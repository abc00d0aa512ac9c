import Mathlib.Data.Nat.ModEq
import Mathlib.Logic.Function.Basic

/-!
# Circular buffers

A queue in the cells below `size` of an array: its elements stand one after the other from a first
cell on, round the end.
-/

namespace CircularBuffer

open Function

variable {α : Type*} {b : ℕ → α} {size first i n : ℕ} {c : α}

/-- The `n` elements from the cell `first` on. -/
def window (size : ℕ) (b : ℕ → α) (first n : ℕ) : List α :=
  (List.range n).map fun i => b ((first + i) % size)

@[simp] theorem length_window : (window size b first n).length = n := by simp [window]

/-- The next cell, as a program finds it. -/
theorem next_eq (hi : i < size) : (if size ≤ i + 1 then 0 else i + 1) = (i + 1) % size := by
  split
  · rw [show i + 1 = size by omega, Nat.mod_self]
  · rw [Nat.mod_eq_of_lt (by omega)]

/-- An element is taken off at the first cell. -/
theorem window_cons (hfirst : first < size) :
    window size b first (n + 1) = b first :: window size b ((first + 1) % size) n := by
  unfold window
  rw [List.range_succ_eq_map, List.map_cons, List.map_map, Nat.add_zero,
    Nat.mod_eq_of_lt hfirst]
  refine congrArg _ (List.map_congr_left fun i _ => ?_)
  rw [comp_apply, Nat.mod_add_mod, Nat.add_right_comm, Nat.add_assoc]

/-- The cells of a queue are different ones. -/
theorem cell_ne (hi : i < n) (hn : n < size) : (first + i) % size ≠ (first + n) % size := by
  intro h
  have hmod : i ≡ n [MOD size] := Nat.ModEq.add_left_cancel' first h
  have := hmod.eq_of_lt_of_lt (by omega) hn
  omega

/-- An element is put into the cell after the last one. -/
theorem window_snoc (hn : n < size) :
    window size (update b ((first + n) % size) c) first (n + 1) = window size b first n ++ [c] := by
  unfold window
  rw [List.range_succ, List.map_append, List.map_singleton, update_self]
  refine congrArg (· ++ [c]) (List.map_congr_left fun i hi => ?_)
  exact update_of_ne (cell_ne (List.mem_range.mp hi) hn) _ _

end CircularBuffer

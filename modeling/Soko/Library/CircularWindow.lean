import Mathlib.Data.List.Basic
import Mathlib.Logic.Function.Basic
import Mathlib.Data.Int.ModEq

/-!
The list a circular buffer stands for.

A circular buffer is a memory of `cap` cells read from position `head` on, with
positions taken modulo `cap`. `window cells cap head count` is the list of the
`count` cells it shows. Writing the cell after the last one appends to the list
and moving the head on removes its first entry; both facts are stated for the
modular positions themselves, so that a buffer that stores its tail only has to
keep it equal to `(head + count) % cap`.
-/

namespace Soko.Library

variable {α : Type*}

/-- The `count` cells from `head` on, around a buffer of `cap` cells. -/
def window (cells : ℕ → α) (cap head count : ℕ) : List α :=
  (List.range count).map fun i => cells ((head + i) % cap)

@[simp] theorem window_length (cells : ℕ → α) (cap head count : ℕ) :
    (window cells cap head count).length = count := by
  simp [window]

@[simp] theorem window_zero (cells : ℕ → α) (cap head : ℕ) :
    window cells cap head 0 = [] := rfl

/-- Positions less than one round apart are different cells. -/
theorem mod_ne_of_lt {cap head i j : ℕ} (hij : i < j) (hj : j < i + cap) :
    (head + i) % cap ≠ (head + j) % cap := by
  intro h
  have hdvd : cap ∣ (head + j) - (head + i) := (Nat.modEq_iff_dvd' (by omega)).mp h
  have hle := Nat.le_of_dvd (by omega) hdvd
  omega

/-- Writing the cell just past the window appends to it. -/
theorem window_push (cells : ℕ → α) (x : α) {cap head count : ℕ} (hroom : count < cap) :
    window (Function.update cells ((head + count) % cap) x) cap head (count + 1) =
      window cells cap head count ++ [x] := by
  simp only [window, List.range_succ, List.map_append, List.map_cons, List.map_nil,
    Function.update_self]
  congr 1
  apply List.map_congr_left
  intro i hi
  have hi : i < count := List.mem_range.mp hi
  exact Function.update_of_ne (mod_ne_of_lt hi (by omega)) _ _

/-- Moving the head on removes the first entry of the window. -/
theorem window_pop (cells : ℕ → α) (cap head count : ℕ) :
    window cells cap head (count + 1) =
      cells (head % cap) :: window cells cap ((head + 1) % cap) count := by
  simp only [window, List.range_succ_eq_map, List.map_cons, List.map_map, Nat.add_zero]
  congr 1
  apply List.map_congr_left
  intro i _
  simp [Function.comp, Nat.add_comm, Nat.add_left_comm]

end Soko.Library

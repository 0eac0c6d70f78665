import Mathlib.Algebra.Order.Ring.Int
import Mathlib.Data.List.Basic
import Mathlib.Tactic.Common
import Mathlib.Tactic.Ring

set_option autoImplicit false

/-!
# Circular arrays as queues

The cells of an array that are read one after the other from `start`, wrapping at `size`, are a
queue (`cells`): storing in the cell after the last one puts an element at the end, and moving
`start` on takes the first one away.
-/

namespace Os161.Lib.Ring

variable {α : Type}

/-- The `n` elements from the cell `start` on. -/
def cells (f : Int → α) (size start : Int) (n : Nat) : List α :=
  (List.range n).map fun i : Nat => f ((start + i) % size)

/-- Indices that are less than `size` apart are different cells. -/
theorem cell_ne {size i j : Int} (hij : i < j) (hj : j < i + size) : i % size ≠ j % size := by
  intro he
  have hdvd : size ∣ j - i :=
    Int.dvd_of_emod_eq_zero (Int.emod_eq_emod_iff_emod_sub_eq_zero.1 he.symm)
  have := Int.le_of_dvd (by omega) hdvd
  omega

/-- An element is stored in the next cell that is free. -/
theorem cells_push (f : Int → α) (c : α) {size : Int} (start : Int) {n : Nat}
    (hn : (n : Int) < size) :
    cells (Function.update f ((start + n) % size) c) size start (n + 1) =
      cells f size start n ++ [c] := by
  have hsame : ∀ i ∈ List.range n,
      Function.update f ((start + n) % size) c ((start + i) % size) = f ((start + i) % size) := by
    intro i hi
    have hi := List.mem_range.1 hi
    exact Function.update_of_ne (cell_ne (by omega) (by omega)) _ _
  unfold cells
  rw [List.range_succ, List.map_append, List.map_congr_left hsame, List.map_singleton,
    Function.update_self]

/-- The first element is taken away. -/
theorem cells_pop (f : Int → α) {size start : Int} (h0 : 0 ≤ start) (hs : start < size) (n : Nat) :
    cells f size start (n + 1) = f start :: cells f size ((start + 1) % size) n := by
  have hnext : ∀ i ∈ List.range n,
      f ((start + (i + 1 : Nat)) % size) = f (((start + 1) % size + i) % size) := by
    intro i _
    rw [Int.emod_add_emod]
    congr 2
    push_cast
    ring
  unfold cells
  rw [List.range_succ_eq_map, List.map_cons, List.map_map]
  have hhead : (start + (0 : Nat)) % size = start := by
    rw [Nat.cast_zero, add_zero, Int.emod_eq_of_lt h0 hs]
  rw [hhead]
  exact congrArg _ (List.map_congr_left hnext)

end Os161.Lib.Ring

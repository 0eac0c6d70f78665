import Mathlib.Tactic.Common

set_option autoImplicit false

/-!
# Arrays that grow when they are written

`overlay f pos l` is the function `f` with the list `l` laid over it from the position `pos` on: two
pieces laid side by side are one (`overlay_append`). A `Growing` array starts empty, grows to the
end of what is written to it, and holds a default value where nothing has been written. After any
sequence of writes a position holds the last item written there (`Growing.get_after`), and the size
is the farthest end of a write that is not empty (`Growing.size_after`).
-/

namespace Os161.Lib.Overlay

variable {α : Type}

/-- `f` with `l` laid over it from the position `pos` on. -/
def overlay (f : Nat → α) (pos : Nat) (l : List α) : Nat → α :=
  fun p => if pos ≤ p then l[p - pos]?.getD (f p) else f p

section Overlay

variable {f : Nat → α} {pos p : Nat} {l m : List α}

@[simp] theorem overlay_nil : overlay f pos [] = f := by
  funext p
  simp [overlay]

theorem overlay_of_lt (h : p < pos) : overlay f pos l p = f p := if_neg (Nat.not_le.2 h)

theorem overlay_of_le (h : pos + l.length ≤ p) : overlay f pos l p = f p := by
  rw [overlay, if_pos (by omega), List.getElem?_eq_none (by omega)]
  rfl

/-- Two pieces side by side are one. -/
theorem overlay_append : overlay (overlay f pos l) (pos + l.length) m = overlay f pos (l ++ m) := by
  funext p
  by_cases hend : pos + l.length ≤ p
  · have hsub : p - pos - l.length = p - (pos + l.length) := by omega
    rw [overlay, if_pos hend, overlay_of_le hend, overlay, if_pos (by omega),
      List.getElem?_append_right (by omega), hsub]
  · rw [overlay_of_lt (by omega)]
    by_cases hpos : pos ≤ p
    · rw [overlay, if_pos hpos, overlay, if_pos hpos, List.getElem?_append_left (by omega)]
    · rw [overlay_of_lt (by omega), overlay_of_lt (by omega)]

end Overlay

/-! ## Growing arrays -/

/-- An array of some size. -/
structure Growing (α : Type) where
  size : Nat
  get : Nat → α

/-- The array of size `0`, with a default everywhere. -/
def Growing.empty (d : α) : Growing α := ⟨0, fun _ => d⟩

/-- Write `l` from `pos` on; an empty write does not make the array larger. -/
def Growing.write (a : Growing α) (pos : Nat) (l : List α) : Growing α where
  size := if l = [] then a.size else max a.size (pos + l.length)
  get := overlay a.get pos l

@[simp] theorem Growing.write_nil (a : Growing α) (pos : Nat) : a.write pos [] = a := by
  simp [Growing.write]

/-! ## Histories -/

/-- The last item that some writes, in their order, have left at `p`. -/
def lastAt : List (Nat × List α) → Nat → Option α
  | [], _ => none
  | (pos, l) :: ws, p => (lastAt ws p).or (if pos ≤ p then l[p - pos]? else none)

/-- The farthest end of a write that is not empty. -/
def farthest : List (Nat × List α) → Nat
  | [] => 0
  | (pos, l) :: ws => max (if l = [] then 0 else pos + l.length) (farthest ws)

/-- The array after some writes. -/
def Growing.after (a : Growing α) (ws : List (Nat × List α)) : Growing α :=
  ws.foldl (fun a w => a.write w.1 w.2) a

theorem Growing.get_after (ws : List (Nat × List α)) (a : Growing α) (p : Nat) :
    (a.after ws).get p = (lastAt ws p).getD (a.get p) := by
  induction ws generalizing a with
  | nil => rfl
  | cons w ws ih =>
      rw [Growing.after, List.foldl_cons, ← Growing.after, ih, lastAt]
      cases lastAt ws p with
      | some x => rfl
      | none =>
          simp only [Growing.write, overlay, Option.none_or]
          split_ifs <;> rfl

theorem Growing.size_after (ws : List (Nat × List α)) (a : Growing α) :
    (a.after ws).size = max a.size (farthest ws) := by
  induction ws generalizing a with
  | nil => simp [Growing.after, farthest]
  | cons w ws ih =>
      rw [Growing.after, List.foldl_cons, ← Growing.after, ih, farthest, Growing.write]
      dsimp only
      split_ifs <;> omega

end Os161.Lib.Overlay

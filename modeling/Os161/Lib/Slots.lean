import Mathlib.Algebra.BigOperators.Group.Finset.Basic
import Mathlib.Algebra.Order.BigOperators.Group.Finset
import Mathlib.Data.Fintype.BigOperators
import Mathlib.Data.List.FinRange
import Mathlib.Tactic.Common

set_option autoImplicit false

/-!
# Fixed tables of optional slots

A table of `n` slots, each empty or holding one entry, with the two questions the C code asks of
such arrays: which slot is the first free one (`firstFree`), and how much the occupied slots weigh
in total (`weigh`). Writing one slot moves the total by the difference of the two entries
(`weigh_update`); the number of occupied slots is the weight of the constant `1`.
-/

namespace Os161.Lib.Slots

variable {n : Nat} {α : Type}

/-- A table of `n` slots. -/
abbrev Table (n : Nat) (α : Type) : Type := Fin n → Option α

/-- The first empty slot. -/
def firstFree (t : Table n α) : Option (Fin n) :=
  (List.finRange n).find? fun i => (t i).isNone

theorem firstFree_eq_some {t : Table n α} {i : Fin n} (h : firstFree t = some i) : t i = none := by
  have := List.find?_some h
  simpa using this

theorem firstFree_eq_none {t : Table n α} (h : firstFree t = none) (i : Fin n) : t i ≠ none := by
  have := List.find?_eq_none.1 h i (List.mem_finRange i)
  simpa using this

theorem exists_firstFree {t : Table n α} (h : ∃ i, t i = none) : ∃ i, firstFree t = some i := by
  cases hf : firstFree t with
  | none =>
      obtain ⟨i, hi⟩ := h
      exact absurd hi (firstFree_eq_none hf i)
  | some i => exact ⟨i, rfl⟩

/-- The last slot whose entry satisfies `p`. -/
def lastWith (p : α → Bool) (t : Table n α) : Option (Fin n) :=
  (List.finRange n).reverse.find? fun i => (t i).any p

theorem lastWith_eq_some {p : α → Bool} {t : Table n α} {i : Fin n}
    (h : lastWith p t = some i) : ∃ a, t i = some a ∧ p a = true := by
  have := List.find?_some h
  simpa [Option.any_eq_true] using this

theorem lastWith_eq_none {p : α → Bool} {t : Table n α} (h : lastWith p t = none) {i : Fin n}
    {a : α} (ha : t i = some a) : p a = false := by
  have := List.find?_eq_none.1 h i (by simp)
  simpa [ha] using this

theorem lastWith_unique {p : α → Bool} {t : Table n α} {i : Fin n} {a : α} (ha : t i = some a)
    (hp : p a = true) (hu : ∀ j b, t j = some b → p b = true → j = i) : lastWith p t = some i := by
  cases h : lastWith p t with
  | none =>
      have := lastWith_eq_none h ha
      rw [hp] at this
      cases this
  | some j =>
      obtain ⟨b, hb, hpb⟩ := lastWith_eq_some h
      rw [hu j b hb hpb]

/-- The first slot whose entry satisfies `p`. -/
def firstWith (p : α → Bool) (t : Table n α) : Option (Fin n) :=
  (List.finRange n).find? fun i => (t i).any p

theorem firstWith_eq_some {p : α → Bool} {t : Table n α} {i : Fin n}
    (h : firstWith p t = some i) : ∃ a, t i = some a ∧ p a = true := by
  have := List.find?_some h
  simpa [Option.any_eq_true] using this

theorem firstWith_eq_none {p : α → Bool} {t : Table n α} (h : firstWith p t = none) {i : Fin n}
    {a : α} (ha : t i = some a) : p a = false := by
  have := List.find?_eq_none.1 h i (List.mem_finRange i)
  simpa [ha] using this

/-- The slot found is the first one with `p`. -/
theorem firstWith_eq_some_iff {p : α → Bool} {t : Table n α} {i : Fin n} :
    firstWith p t = some i ↔ (t i).any p = true ∧ ∀ j, j < i → (t j).any p = false := by
  unfold firstWith
  rw [List.find?_eq_some_iff_getElem]
  constructor
  · rintro ⟨hi, k, hk, he, hlt⟩
    refine ⟨hi, fun j hj => ?_⟩
    have hval : k = i.val := by
      rw [← he]
      simp
    have := hlt j.val (by rw [hval]; exact hj)
    simpa using this
  · rintro ⟨hi, hlt⟩
    refine ⟨hi, i.val, by simp, by simp, fun j hj => ?_⟩
    have := hlt ⟨j, lt_trans hj i.isLt⟩ hj
    simpa using this

section Update

variable {ι β : Type} [DecidableEq ι] {f : ι → Option β} {i j k : ι} {a b : β}

/-- An entry after a write is the one written, or an old one in another place. -/
theorem update_eq_some {x : Option β} (h : Function.update f j x i = some a) :
    i = j ∧ x = some a ∨ i ≠ j ∧ f i = some a := by
  by_cases hij : i = j
  · subst hij
    rw [Function.update_self] at h
    exact .inl ⟨rfl, h⟩
  · rw [Function.update_of_ne hij] at h
    exact .inr ⟨hij, h⟩

/-- An entry after a place has been cleared is an old one in another place. -/
theorem cleared_eq_some (h : Function.update f j none i = some a) : i ≠ j ∧ f i = some a := by
  rcases update_eq_some h with ⟨-, hx⟩ | hold
  · cases hx
  · exact hold

/-- Entries that stand in one place each still do after a place has been cleared. -/
theorem once_cleared (h : ∀ i j a, f i = some a → f j = some a → i = j)
    (hi : Function.update f k none i = some a) (hj : Function.update f k none j = some a) :
    i = j :=
  h i j a (cleared_eq_some hi).2 (cleared_eq_some hj).2

/-- They do after a write of an entry that stood nowhere. -/
theorem once_written (h : ∀ i j a, f i = some a → f j = some a → i = j)
    (hb : ∀ i, f i ≠ some b) (hi : Function.update f k (some b) i = some a)
    (hj : Function.update f k (some b) j = some a) : i = j := by
  rcases update_eq_some hi with ⟨rfl, hx⟩ | ⟨-, hi₀⟩
  · rcases update_eq_some hj with ⟨rfl, -⟩ | ⟨-, hj₀⟩
    · rfl
    · rw [hx] at hb
      exact absurd hj₀ (hb j)
  · rcases update_eq_some hj with ⟨rfl, hx⟩ | ⟨-, hj₀⟩
    · rw [hx] at hb
      exact absurd hi₀ (hb i)
    · exact h i j a hi₀ hj₀

end Update

/-- The weight of one slot. -/
def slotWeight (w : α → Nat) (x : Option α) : Nat := x.elim 0 w

@[simp] theorem slotWeight_none (w : α → Nat) : slotWeight w none = 0 := rfl

@[simp] theorem slotWeight_some (w : α → Nat) (a : α) : slotWeight w (some a) = w a := rfl

/-- The total weight of the occupied slots. -/
def weigh (w : α → Nat) (t : Table n α) : Nat := ∑ i, slotWeight w (t i)

/-- The number of occupied slots. -/
def used (t : Table n α) : Nat := weigh (fun _ => 1) t

/-- Two functions that differ at one point of a finite set have sums that differ there only. -/
theorem sum_change {ι : Type} [DecidableEq ι] {S : Finset ι} {g k : ι → Nat} {x : ι}
    (hx : x ∈ S) (h : ∀ y ∈ S, y ≠ x → k y = g y) :
    ∑ y ∈ S, k y + g x = ∑ y ∈ S, g y + k x := by
  rw [← Finset.add_sum_erase S g hx, ← Finset.add_sum_erase S k hx]
  have e : ∑ y ∈ S.erase x, k y = ∑ y ∈ S.erase x, g y := by
    apply Finset.sum_congr rfl
    intro y hy
    exact h y (Finset.mem_of_mem_erase hy) (Finset.ne_of_mem_erase hy)
  rw [e]
  omega

theorem weigh_update (w : α → Nat) (t : Table n α) (i : Fin n) (x : Option α) :
    weigh w (Function.update t i x) + slotWeight w (t i) = weigh w t + slotWeight w x := by
  have h := sum_change (S := Finset.univ) (g := fun j => slotWeight w (t j))
    (k := fun j => slotWeight w (Function.update t i x j)) (Finset.mem_univ i)
    (fun j _ hj => by simp [Function.update_of_ne hj])
  simpa [weigh] using h

theorem weigh_congr {w w' : α → Nat} {t : Table n α}
    (h : ∀ i a, t i = some a → w a = w' a) : weigh w t = weigh w' t := by
  apply Finset.sum_congr rfl
  intro i _
  cases hi : t i with
  | none => rfl
  | some a => exact h i a hi

theorem weigh_eq_zero {w : α → Nat} {t : Table n α} (h : ∀ i a, t i = some a → w a = 0) :
    weigh w t = 0 := by
  apply Finset.sum_eq_zero
  intro i _
  cases hi : t i with
  | none => rfl
  | some a => exact h i a hi

theorem le_weigh {w : α → Nat} {t : Table n α} {i : Fin n} {a : α} (h : t i = some a) :
    w a ≤ weigh w t := by
  have := Finset.single_le_sum (f := fun j => slotWeight w (t j)) (fun j _ => Nat.zero_le _)
    (Finset.mem_univ i)
  simpa [weigh, h] using this

theorem used_le (t : Table n α) : used t ≤ n := by
  calc used t ≤ ∑ _i : Fin n, 1 := by
        unfold used weigh
        apply Finset.sum_le_sum
        intro i _
        cases t i <;> simp
    _ = n := by simp

/-- A table with fewer entries than slots has an empty slot. -/
theorem exists_none_of_used_lt {t : Table n α} (h : used t < n) : ∃ i, t i = none := by
  by_contra hc
  have hfull : ∀ i, slotWeight (fun _ => 1) (t i) = 1 := by
    intro i
    cases hi : t i with
    | none => exact absurd ⟨i, hi⟩ hc
    | some a => rfl
  have : used t = n := by simp [used, weigh, hfull]
  omega

theorem used_of_full {t : Table n α} (h : ∀ i, t i ≠ none) : used t = n := by
  refine le_antisymm (used_le t) (not_lt.1 fun hlt => ?_)
  obtain ⟨i, hi⟩ := exists_none_of_used_lt hlt
  exact h i hi

end Os161.Lib.Slots

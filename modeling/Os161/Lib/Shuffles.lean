import Mathlib.Logic.Equiv.Basic
import Mathlib.Tactic.Common

set_option autoImplicit false

/-!
# Sorting a part of an array

What sorting in place is about: the elements of a range end up in another order (`Shuffled`) and
the range is sorted (`SortedOn`). Bounds on the elements of a range survive a shuffle
(`Shuffled.all`), and two sorted ranges on the two sides of a pivot make one
(`SortedOn.append`).
-/

namespace Os161.Lib.Shuffles

variable {α : Type} {lo mid hi lo' hi' : Nat} {d d₁ d₂ : Nat → α} {P : α → Prop}

/-- The elements from `lo` to `hi` are in another order, the others where they were. -/
def Shuffled (lo hi : Nat) (d d₁ : Nat → α) : Prop :=
  ∃ σ : Equiv.Perm Nat, (∀ k, k < lo ∨ hi ≤ k → σ k = k) ∧ d₁ = d ∘ σ

/-- An element from `lo` to `hi` is related to every one behind it. -/
def SortedOn (R : α → α → Prop) (lo hi : Nat) (d : Nat → α) : Prop :=
  ∀ i j, lo ≤ i → i < j → j < hi → R (d i) (d j)

/-! ## Shuffles -/

namespace Shuffled

theorem refl (lo hi : Nat) (d : Nat → α) : Shuffled lo hi d d := ⟨.refl Nat, fun _ _ => rfl, rfl⟩

theorem trans (h : Shuffled lo hi d d₁) (h' : Shuffled lo hi d₁ d₂) : Shuffled lo hi d d₂ := by
  obtain ⟨σ, hσ, rfl⟩ := h
  obtain ⟨τ, hτ, rfl⟩ := h'
  refine ⟨τ.trans σ, fun k hk => ?_, rfl⟩
  rw [Equiv.trans_apply, hτ k hk, hσ k hk]

theorem mono (h : Shuffled lo hi d d₁) (hlo : lo' ≤ lo) (hhi : hi ≤ hi') :
    Shuffled lo' hi' d d₁ := by
  obtain ⟨σ, hσ, rfl⟩ := h
  refine ⟨σ, fun k hk => hσ k ?_, rfl⟩
  rcases hk with hk | hk
  · exact .inl (Nat.lt_of_lt_of_le hk hlo)
  · exact .inr (Nat.le_trans hhi hk)

theorem swap {i j : Nat} (hi₀ : lo ≤ i) (hi₁ : i < hi) (hj₀ : lo ≤ j) (hj₁ : j < hi)
    (d : Nat → α) : Shuffled lo hi d (d ∘ Equiv.swap i j) := by
  refine ⟨Equiv.swap i j, fun k hk => Equiv.swap_apply_of_ne_of_ne ?_ ?_, rfl⟩
  · omega
  · omega

theorem apply_outside (h : Shuffled lo hi d d₁) {k : Nat} (hk : k < lo ∨ hi ≤ k) :
    d₁ k = d k := by
  obtain ⟨σ, hσ, rfl⟩ := h
  exact congrArg d (hσ k hk)

/-- Where an element of the range was before. -/
theorem exists_from (h : Shuffled lo hi d d₁) {k : Nat} (hlo : lo ≤ k) (hhi : k < hi) :
    ∃ j, lo ≤ j ∧ j < hi ∧ d₁ k = d j := by
  obtain ⟨σ, hσ, rfl⟩ := h
  by_cases hin : lo ≤ σ k ∧ σ k < hi
  · exact ⟨σ k, hin.1, hin.2, rfl⟩
  · -- a permutation that moves nothing outside maps nothing to the outside
    have hfix : σ (σ k) = σ k := hσ (σ k) (by omega)
    have hk : σ k = k := σ.injective hfix
    omega

/-- What all elements of the range satisfy, they satisfy in every order. -/
theorem all (h : Shuffled lo hi d d₁) (hP : ∀ k, lo ≤ k → k < hi → P (d k)) :
    ∀ k, lo ≤ k → k < hi → P (d₁ k) := by
  intro k hlo hhi
  obtain ⟨j, hj₀, hj₁, hj⟩ := h.exists_from hlo hhi
  rw [hj]
  exact hP j hj₀ hj₁

end Shuffled

/-! ## Sorted ranges -/

section Sorted

variable {R : α → α → Prop}

theorem sortedOn_of_le (h : hi ≤ lo + 1) : SortedOn R lo hi d := by
  intro i j hi₀ hij hj
  omega

/-- A pivot lies between two sorted ranges. -/
theorem SortedOn.append (htrans : ∀ x y z, R x y → R y z → R x z) {v : α}
    (hl : SortedOn R lo mid d) (hr : SortedOn R mid hi d)
    (hle : ∀ k, lo ≤ k → k < mid → R (d k) v) (hge : ∀ k, mid ≤ k → k < hi → R v (d k)) :
    SortedOn R lo hi d := by
  intro i j hi₀ hij hj
  rcases Nat.lt_or_ge j mid with hjm | hjm
  · exact hl i j hi₀ hij hjm
  · rcases Nat.lt_or_ge i mid with him | him
    · exact htrans _ v _ (hle i hi₀ him) (hge j hjm hj)
    · exact hr i j him hij hj

theorem SortedOn.congr (h : SortedOn R lo hi d) (heq : ∀ k, lo ≤ k → k < hi → d₁ k = d k) :
    SortedOn R lo hi d₁ := by
  intro i j hi₀ hij hj
  rw [heq i hi₀ (Nat.lt_trans hij hj), heq j (Nat.le_trans hi₀ (Nat.le_of_lt hij)) hj]
  exact h i j hi₀ hij hj

end Sorted

end Os161.Lib.Shuffles

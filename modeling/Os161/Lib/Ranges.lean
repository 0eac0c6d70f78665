import Mathlib

set_option autoImplicit false

/-!
# Consecutive ranges

A list of half-open ranges is consecutive from `a` to `b` when the first one begins at `a`, each
further one begins where the one before it ends, and the last one ends at `b`. Such ranges of
nonnegative length are pairwise disjoint, and their lengths add up to the distance from `a` to
`b`.
-/

namespace Os161.Lib.Ranges

variable {τ : Type} {start len : τ → Int} {a b : Int} {l : List τ}

/-- The ranges of the list follow each other from `a` to `b`. -/
def Consecutive (start len : τ → Int) (a : Int) : List τ → Int → Prop
  | [], b => b = a
  | t :: ts, b => start t = a ∧ Consecutive start len (a + len t) ts b

/-- A range that begins at the end of the list extends it. -/
theorem Consecutive.append (h : Consecutive start len a l b) {t : τ} (ht : start t = b) :
    Consecutive start len a (l ++ [t]) (b + len t) := by
  induction l generalizing a with
  | nil =>
      have e : b = a := h
      subst e
      exact ⟨ht, rfl⟩
  | cons t' ts ih =>
      obtain ⟨h₁, h₂⟩ := h
      exact ⟨h₁, ih h₂⟩

/-- The lengths add up to the distance. -/
theorem Consecutive.total (h : Consecutive start len a l b) : b = a + (l.map len).sum := by
  induction l generalizing a with
  | nil =>
      have e : b = a := h
      simp [e]
  | cons t ts ih =>
      obtain ⟨-, h₂⟩ := h
      rw [ih h₂, List.map_cons, List.sum_cons]
      omega

/-- No range begins before the list does. -/
theorem Consecutive.le_start (h : Consecutive start len a l b) (hlen : ∀ t ∈ l, 0 ≤ len t) :
    ∀ t ∈ l, a ≤ start t := by
  induction l generalizing a with
  | nil => simp
  | cons t ts ih =>
      obtain ⟨h₁, h₂⟩ := h
      intro t' ht'
      rcases List.mem_cons.1 ht' with rfl | ht'
      · exact le_of_eq h₁.symm
      · have h₃ := ih h₂ (fun u hu => hlen u (List.mem_cons_of_mem t hu)) t' ht'
        have h₄ := hlen t List.mem_cons_self
        omega

theorem Consecutive.disjoint (h : Consecutive start len a l b) (hlen : ∀ t ∈ l, 0 ≤ len t) :
    l.Pairwise fun t t' => Disjoint (Set.Ico (start t) (start t + len t))
      (Set.Ico (start t') (start t' + len t')) := by
  induction l generalizing a with
  | nil => exact .nil
  | cons t ts ih =>
      obtain ⟨h₁, h₂⟩ := h
      have hts : ∀ u ∈ ts, 0 ≤ len u := fun u hu => hlen u (List.mem_cons_of_mem t hu)
      refine .cons (fun u hu => ?_) (ih h₂ hts)
      have hle := h₂.le_start hts u hu
      rw [Set.Ico_disjoint_Ico, h₁]
      exact le_trans (min_le_left _ _) (le_trans hle (le_max_right _ _))

end Os161.Lib.Ranges

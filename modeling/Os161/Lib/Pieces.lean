import Mathlib.Tactic.Common

set_option autoImplicit false

/-!
# Moving in pieces

Units numbered from 0 are moved in order, in pieces. A piece ends at a position where `cut` holds,
and no later than `n`, the number of units asked for. Units for which `bad` holds cannot be moved;
the piece they are in is not moved, and the movement ends there. It is meant to move no more than
`r` units, but looks at `r` only between two pieces.

`Fits` says when it keeps to `r` all the same. `fits_advance` carries the condition over a piece,
`fits_of_bad` and `not_fits_of_lt` are the two ways in which a piece can end the matter.
-/

namespace Os161.Lib.Pieces

variable {cut cut' bad bad' : Nat → Prop} {n r s : Nat}

/-- Pieces up to `n` that are only checked against `r` at their start do not go past `r`: there is
no more to move, or a piece ends at `r`, or the piece in which `r` lies is not moved. -/
def Fits (cut bad : Nat → Prop) (n r : Nat) : Prop :=
  n ≤ r ∨ cut r ∨ ∃ i < n, bad i ∧ ∀ q, r ≤ q → q ≤ i → ¬ cut q

theorem fits_zero (hcut : cut 0) : Fits cut bad n 0 := .inr (.inl hcut)

theorem fits_congr (hcut : ∀ q, cut q ↔ cut' q) (hbad : ∀ i, bad i ↔ bad' i) :
    Fits cut bad n r ↔ Fits cut' bad' n r := by
  simp only [Fits, hcut, hbad]

/-- A piece that is moved and does not go past `r`. -/
theorem fits_advance (hsn : s ≤ n) (hsr : s ≤ r) (hgood : ∀ i < s, ¬ bad i)
    (hend : s = n ∨ cut s) (hzero : cut' 0) (hcut : ∀ q, 0 < q → (cut (s + q) ↔ cut' q))
    (hbad : ∀ i, bad (s + i) ↔ bad' i) : Fits cut bad n r ↔ Fits cut' bad' (n - s) (r - s) := by
  constructor
  · rintro (hle | hr | ⟨i, hi, hibad, hno⟩)
    · exact .inl (Nat.sub_le_sub_right hle s)
    · rcases Nat.eq_zero_or_pos (r - s) with h0 | hpos
      · rw [h0]
        exact fits_zero hzero
      · refine .inr (.inl ((hcut _ hpos).1 ?_))
        rwa [Nat.add_sub_cancel' hsr]
    · have hsi : s ≤ i := Nat.le_of_not_lt fun hlt => hgood i hlt hibad
      obtain ⟨j, rfl⟩ := Nat.exists_eq_add_of_le hsi
      have hcuts : cut s := hend.resolve_left (by omega)
      refine .inr (.inr ⟨j, by omega, (hbad j).1 hibad, fun q hq hqj hcutq => ?_⟩)
      rcases Nat.eq_zero_or_pos q with rfl | hpos
      · -- the piece ends at `r`
        exact hno s (by omega) (by omega) hcuts
      · exact hno (s + q) (by omega) (by omega) ((hcut q hpos).2 hcutq)
  · rintro (hle | hr | ⟨j, hj, hjbad, hno⟩)
    · exact .inl (by omega)
    · rcases Nat.eq_zero_or_pos (r - s) with h0 | hpos
      · rcases hend with hs | hs
        · exact .inl (by omega)
        · refine .inr (.inl ?_)
          rwa [show r = s by omega]
      · refine .inr (.inl ?_)
        have hcutr := (hcut _ hpos).2 hr
        rwa [Nat.add_sub_cancel' hsr] at hcutr
    · refine .inr (.inr ⟨s + j, by omega, (hbad j).2 hjbad, fun q hq hqj hcutq => ?_⟩)
      obtain ⟨p, rfl⟩ := Nat.exists_eq_add_of_le (Nat.le_trans hsr hq)
      rcases Nat.eq_zero_or_pos p with rfl | hpos
      · exact hno 0 (by omega) (by omega) hzero
      · exact hno p (by omega) (by omega) ((hcut p hpos).1 hcutq)

/-- A piece of `s` units that is not moved. -/
theorem fits_of_bad (hsn : s ≤ n) (hr : 0 < r) (hin : ∀ q, 0 < q → q < s → ¬ cut q)
    (hbad : ∃ i < s, bad i) : Fits cut bad n r := by
  obtain ⟨i, hi, hibad⟩ := hbad
  exact .inr (.inr ⟨i, by omega, hibad, fun q hq hqi => hin q (by omega) (by omega)⟩)

/-- A piece of `s` units that is moved and goes past `r`. -/
theorem not_fits_of_lt (hsn : s ≤ n) (hr : 0 < r) (hrs : r < s)
    (hin : ∀ q, 0 < q → q < s → ¬ cut q) (hgood : ∀ i < s, ¬ bad i) (hend : s = n ∨ cut s) :
    ¬ Fits cut bad n r := by
  rintro (hle | hcut | ⟨i, hi, hibad, hno⟩)
  · omega
  · exact hin r hr hrs hcut
  · have hsi : s ≤ i := Nat.le_of_not_lt fun hlt => hgood i hlt hibad
    exact hno s (Nat.le_of_lt hrs) hsi (hend.resolve_left (by omega))

end Os161.Lib.Pieces

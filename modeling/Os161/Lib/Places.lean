import Mathlib.Data.List.Nodup
import Mathlib.Data.List.Pairwise
import Mathlib.Logic.Function.Basic
import Mathlib.Tactic.Common

set_option autoImplicit false

/-!
# Items in places

`Once f A`: every item of `A` is in exactly one of the lists `f p`, once, and nothing else is in any.
A step may rearrange the items of a few places (`Once.rearrange`), put a new item somewhere
(`Once.add`) or take one out (`Once.drop`).
-/

namespace Os161.Lib.Places

variable {π τ : Type} {f f' : π → List τ} {A A' : τ → Prop} {p q : π} {t : τ}

/-- Every item of `A` is at one place, once. -/
structure Once (f : π → List τ) (A : τ → Prop) : Prop where
  nodup : ∀ p, (f p).Nodup
  unique : ∀ p q t, t ∈ f p → t ∈ f q → p = q
  mem_iff : ∀ t, A t ↔ ∃ p, t ∈ f p

theorem Once.mem (h : Once f A) (p : π) (ht : t ∈ f p) : A t := (h.mem_iff t).2 ⟨p, ht⟩

theorem Once.not_mem (h : Once f A) (ht : t ∈ f p) (q : π) (hpq : p ≠ q) : t ∉ f q := fun hq =>
  hpq (h.unique p q t ht hq)

/-- The items of some places have no duplicates. -/
theorem Once.nodup_flatMap (h : Once f A) {P : List π} (hP : P.Nodup) : (P.flatMap f).Nodup := by
  rw [List.nodup_flatMap]
  refine ⟨fun p _ => h.nodup p, hP.imp fun hpq t ht ht' => ?_⟩
  exact hpq (h.unique _ _ t ht ht')

/-- The items of the places `P` are rearranged among these. -/
theorem Once.rearrange (h : Once f A) {P : List π} (hP : P.Nodup)
    (hout : ∀ p, p ∉ P → f' p = f p) (hperm : (P.flatMap f').Perm (P.flatMap f)) : Once f' A := by
  obtain ⟨hnodup, hdisj⟩ := List.nodup_flatMap.1 (hperm.nodup_iff.2 (h.nodup_flatMap hP))
  -- an item of `P` was at some place of `P`
  have hback : ∀ {p t}, p ∈ P → t ∈ f' p → ∃ q ∈ P, t ∈ f q := fun hp ht =>
    List.mem_flatMap.1 (hperm.mem_iff.1 (List.mem_flatMap.2 ⟨_, hp, ht⟩))
  have hunique : ∀ {p q t}, p ∈ P → q ∉ P → t ∈ f' p → t ∉ f' q := by
    intro p q t hp hq ht hq'
    obtain ⟨r, hr, htr⟩ := hback hp ht
    rw [hout q hq] at hq'
    obtain rfl := h.unique _ _ _ htr hq'
    exact hq hr
  refine ⟨fun p => ?_, fun p q t hp hq => ?_, fun t => ?_⟩
  · by_cases hp : p ∈ P
    · exact hnodup p hp
    · rw [hout p hp]
      exact h.nodup p
  · by_cases hpP : p ∈ P <;> by_cases hqP : q ∈ P
    · by_contra hne
      have hsymm : Std.Symm (Function.onFun List.Disjoint f') := ⟨fun _ _ hab _ h₁ h₂ => hab h₂ h₁⟩
      exact hdisj.forall hpP hqP hne hp hq
    · exact absurd hq (hunique hpP hqP hp)
    · exact absurd hp (hunique hqP hpP hq)
    · rw [hout p hpP] at hp
      rw [hout q hqP] at hq
      exact h.unique p q t hp hq
  · rw [h.mem_iff t]
    constructor
    · rintro ⟨p, hp⟩
      by_cases hpP : p ∈ P
      · obtain ⟨q, -, hq⟩ := List.mem_flatMap.1
          (hperm.mem_iff.2 (List.mem_flatMap.2 ⟨p, hpP, hp⟩))
        exact ⟨q, hq⟩
      · exact ⟨p, by rwa [hout p hpP]⟩
    · rintro ⟨p, hp⟩
      by_cases hpP : p ∈ P
      · obtain ⟨q, -, hq⟩ := hback hpP hp
        exact ⟨q, hq⟩
      · exact ⟨p, by rwa [← hout p hpP]⟩

/-- A new item. -/
theorem Once.add (h : Once f A) (hnew : ¬ A t) (hp : (f' p).Perm (t :: f p))
    (hout : ∀ q, q ∉ [p] → f' q = f q) (hA : ∀ u, A' u ↔ u = t ∨ A u) : Once f' A' := by
  replace hout : ∀ q, q ≠ p → f' q = f q := fun q hq => hout q (by simpa using hq)
  have hnone : ∀ q, t ∉ f q := fun q hq => hnew (h.mem q hq)
  have hmem : ∀ q u, u ∈ f' q ↔ (u = t ∧ q = p) ∨ u ∈ f q := by
    intro q u
    by_cases hq : q = p
    · subst hq
      rw [hp.mem_iff]
      simp
    · rw [hout q hq]
      simp [hq]
  refine ⟨fun q => ?_, fun q r u hq hr => ?_, fun u => ?_⟩
  · by_cases hq : q = p
    · subst hq
      exact hp.nodup_iff.2 (List.nodup_cons.2 ⟨hnone q, h.nodup q⟩)
    · rw [hout q hq]
      exact h.nodup q
  · rcases (hmem q u).1 hq with ⟨rfl, rfl⟩ | hq <;> rcases (hmem r u).1 hr with ⟨e, rfl⟩ | hr
    · rfl
    · exact absurd hr (hnone r)
    · exact absurd (e ▸ hq) (hnone q)
    · exact h.unique q r u hq hr
  · rw [hA u, h.mem_iff u]
    constructor
    · rintro (rfl | ⟨q, hq⟩)
      · exact ⟨p, (hmem p u).2 (.inl ⟨rfl, rfl⟩)⟩
      · exact ⟨q, (hmem q u).2 (.inr hq)⟩
    · rintro ⟨q, hq⟩
      rcases (hmem q u).1 hq with ⟨rfl, -⟩ | hq
      · exact .inl rfl
      · exact .inr ⟨q, hq⟩

/-- An item is taken out. -/
theorem Once.drop (h : Once f A) (hp : (f p).Perm (t :: f' p))
    (hout : ∀ q, q ∉ [p] → f' q = f q) (hA : ∀ u, A' u ↔ u ≠ t ∧ A u) : Once f' A' := by
  replace hout : ∀ q, q ≠ p → f' q = f q := fun q hq => hout q (by simpa using hq)
  obtain ⟨hnot, hnodup⟩ := List.nodup_cons.1 (hp.nodup_iff.1 (h.nodup p))
  have ht : t ∈ f p := hp.mem_iff.2 List.mem_cons_self
  have hmem : ∀ q u, u ∈ f' q ↔ u ≠ t ∧ u ∈ f q := by
    intro q u
    by_cases hq : q = p
    · subst hq
      rw [hp.mem_iff, List.mem_cons]
      constructor
      · intro hu
        refine ⟨?_, .inr hu⟩
        rintro rfl
        exact hnot hu
      · rintro ⟨hne, rfl | hu⟩
        · exact absurd rfl hne
        · exact hu
    · rw [hout q hq, iff_and_self]
      rintro hu rfl
      exact hq (h.unique q p u hu ht)
  refine ⟨fun q => ?_, fun q r u hq hr =>
    h.unique q r u ((hmem q u).1 hq).2 ((hmem r u).1 hr).2, fun u => ?_⟩
  · by_cases hq : q = p
    · subst hq
      exact hnodup
    · rw [hout q hq]
      exact h.nodup q
  · rw [hA u, h.mem_iff u]
    constructor
    · rintro ⟨hne, q, hq⟩
      exact ⟨q, (hmem q u).2 ⟨hne, hq⟩⟩
    · rintro ⟨q, hq⟩
      obtain ⟨hne, hq⟩ := (hmem q u).1 hq
      exact ⟨hne, q, hq⟩

end Os161.Lib.Places

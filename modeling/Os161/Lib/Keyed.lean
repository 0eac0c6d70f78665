import Mathlib.Logic.Function.Basic

set_option autoImplicit false

/-!
# Maps in tables of slots

A table of `n` slots, each empty or with a key and a value, in which no key stands twice, is a map
from keys to values. Writing an entry with a new key into an empty slot, or into the first one
behind the table, inserts it into the map, and clearing a slot erases its key.
-/

namespace Os161.Lib.Keyed

variable {K V : Type} {t : Nat → Option (K × V)} {n i j : Nat} {k : K} {v : V} {m : K → Option V}

/-- The entry stands in one of the `n` slots. -/
def Stands (t : Nat → Option (K × V)) (n : Nat) (k : K) (v : V) : Prop := ∃ i < n, t i = some (k, v)

/-- The table is the map `m`. -/
structure Represents (t : Nat → Option (K × V)) (n : Nat) (m : K → Option V) : Prop where
  once : ∀ i < n, ∀ j < n, ∀ k v w, t i = some (k, v) → t j = some (k, w) → i = j
  iff : ∀ k v, m k = some v ↔ Stands t n k v

/-- An entry that the map has not stands in no slot. -/
theorem Represents.absent (h : Represents t n m) (hk : m k = none) (hi : i < n) (v : V) :
    t i ≠ some (k, v) := by
  intro ht
  have hsome := (h.iff k v).2 ⟨i, hi, ht⟩
  rw [hk] at hsome
  cases hsome

/-- Only the slots of the table matter. -/
theorem Represents.congr {t' : Nat → Option (K × V)} (h : Represents t n m)
    (ht : ∀ i < n, t' i = t i) : Represents t' n m where
  once i hi j hj k v w hiv hjw := by
    rw [ht i hi] at hiv
    rw [ht j hj] at hjw
    exact h.once i hi j hj k v w hiv hjw
  iff k v := by
    rw [h.iff]
    apply exists_congr
    intro i
    apply and_congr_right
    intro hi
    rw [ht i hi]

/-- Slots behind the table that are empty belong to it just as well. -/
theorem Represents.extend (h : Represents t n m) (hempty : t n = none) :
    Represents t (n + 1) m where
  once i hi j hj k v w hiv hjw := by
    have hlt : ∀ i < n + 1, ∀ v, t i = some (k, v) → i < n := by
      intro i hi v hiv
      rcases Nat.lt_succ_iff_lt_or_eq.1 hi with hi | rfl
      · exact hi
      · rw [hempty] at hiv
        cases hiv
    exact h.once i (hlt i hi v hiv) j (hlt j hj w hjw) k v w hiv hjw
  iff k v := by
    rw [h.iff]
    constructor
    · rintro ⟨i, hi, hiv⟩
      exact ⟨i, Nat.lt_succ_of_lt hi, hiv⟩
    · rintro ⟨i, hi, hiv⟩
      rcases Nat.lt_succ_iff_lt_or_eq.1 hi with hi | rfl
      · exact ⟨i, hi, hiv⟩
      · rw [hempty] at hiv
        cases hiv

variable [DecidableEq K]

/-- A new key goes into an empty slot. -/
theorem Represents.insert (h : Represents t n m) (hj : j < n) (hempty : t j = none)
    (hk : m k = none) :
    Represents (Function.update t j (some (k, v))) n (Function.update m k (some v)) where
  once i hi i' hi' k' v' w' hiv hiw := by
    by_cases hij : i = j
    · by_cases hij' : i' = j
      · rw [hij, hij']
      · rw [hij, Function.update_self] at hiv
        rw [Function.update_of_ne hij'] at hiw
        obtain ⟨rfl, -⟩ := Prod.mk.inj (Option.some.inj hiv)
        exact absurd hiw (h.absent hk hi' w')
    · rw [Function.update_of_ne hij] at hiv
      by_cases hij' : i' = j
      · rw [hij', Function.update_self] at hiw
        obtain ⟨rfl, -⟩ := Prod.mk.inj (Option.some.inj hiw)
        exact absurd hiv (h.absent hk hi v')
      · rw [Function.update_of_ne hij'] at hiw
        exact h.once i hi i' hi' k' v' w' hiv hiw
  iff k' v' := by
    by_cases hkk : k' = k
    · subst hkk
      rw [Function.update_self]
      constructor
      · intro hv
        obtain rfl := Option.some.inj hv
        exact ⟨j, hj, Function.update_self ..⟩
      · rintro ⟨i, hi, hiv⟩
        by_cases hij : i = j
        · rw [hij, Function.update_self] at hiv
          rw [(Prod.mk.inj (Option.some.inj hiv)).2]
        · rw [Function.update_of_ne hij] at hiv
          exact absurd hiv (h.absent hk hi v')
    · rw [Function.update_of_ne hkk, h.iff]
      constructor
      · rintro ⟨i, hi, hiv⟩
        refine ⟨i, hi, ?_⟩
        rw [Function.update_of_ne, hiv]
        rintro rfl
        rw [hempty] at hiv
        cases hiv
      · rintro ⟨i, hi, hiv⟩
        by_cases hij : i = j
        · rw [hij, Function.update_self] at hiv
          exact absurd (Prod.mk.inj (Option.some.inj hiv)).1.symm hkk
        · rw [Function.update_of_ne hij] at hiv
          exact ⟨i, hi, hiv⟩

/-- A new key goes behind the table, whatever is there. -/
theorem Represents.append (h : Represents t n m) (hk : m k = none) :
    Represents (Function.update t n (some (k, v))) (n + 1) (Function.update m k (some v)) := by
  have hcleared : Represents (Function.update t n none) (n + 1) m := by
    apply Represents.extend _ (Function.update_self ..)
    exact h.congr fun i hi => Function.update_of_ne (Nat.ne_of_lt hi) _ _
  have hinsert := hcleared.insert (v := v) n.lt_succ_self (Function.update_self ..) hk
  rwa [Function.update_idem] at hinsert

/-- A slot is cleared. -/
theorem Represents.erase (h : Represents t n m) (hj : j < n) (ht : t j = some (k, v)) :
    Represents (Function.update t j none) n (Function.update m k none) where
  once i hi i' hi' k' v' w' hiv hiw := by
    have hne : ∀ i v, Function.update t j none i = some (k', v) → i ≠ j ∧ t i = some (k', v) := by
      intro i v hiv
      by_cases hij : i = j
      · rw [hij, Function.update_self] at hiv
        cases hiv
      · rw [Function.update_of_ne hij] at hiv
        exact ⟨hij, hiv⟩
    exact h.once i hi i' hi' k' v' w' (hne i v' hiv).2 (hne i' w' hiw).2
  iff k' v' := by
    by_cases hkk : k' = k
    · subst hkk
      rw [Function.update_self]
      constructor
      · intro hv
        cases hv
      · rintro ⟨i, hi, hiv⟩
        by_cases hij : i = j
        · rw [hij, Function.update_self] at hiv
          cases hiv
        · rw [Function.update_of_ne hij] at hiv
          exact absurd (h.once i hi j hj k' v' v hiv ht) hij
    · rw [Function.update_of_ne hkk, h.iff]
      constructor
      · rintro ⟨i, hi, hiv⟩
        refine ⟨i, hi, ?_⟩
        rw [Function.update_of_ne, hiv]
        rintro rfl
        rw [ht] at hiv
        exact hkk (Prod.mk.inj (Option.some.inj hiv)).1.symm
      · rintro ⟨i, hi, hiv⟩
        by_cases hij : i = j
        · rw [hij, Function.update_self] at hiv
          cases hiv
        · rw [Function.update_of_ne hij] at hiv
          exact ⟨i, hi, hiv⟩

end Os161.Lib.Keyed

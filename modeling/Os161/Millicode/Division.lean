import Os161.Millicode.Qdivrem

set_option autoImplicit false

/-!
# What the division computes

Each round of the loop takes the largest multiple of the divisor from the digits that stand in front
of it, so that less than the divisor is left: a step of long division. The digits that are left in
the end are the remainder, shifted as the divisor was.
-/

namespace Os161.Millicode.Qdivrem

open Function (update)
open Os161.Lib.LongDivision

/-! ## One round -/

section Round

variable {v u : Digits} {n pv pu qhat t x y i : Nat}

/-- A digit, the borrow out of it and the product that was taken from it. -/
theorem sub_digit (hx : x < 2 ^ 16) (hmul : y + t ≤ (2 ^ 16 - 1) * 2 ^ 16) :
    (2 ^ 16 - hhalf (sub (sub x y) t)) &&& 0xffff < 2 ^ 16 ∧
      lhalf (sub (sub x y) t) + (y + t) =
        x + ((2 ^ 16 - hhalf (sub (sub x y) t)) &&& 0xffff) * 2 ^ 16 := by
  have hmask : (2 ^ 16 - hhalf (sub (sub x y) t)) &&& 0xffff =
      (2 ^ 16 - hhalf (sub (sub x y) t)) % 2 ^ 16 := Nat.and_two_pow_sub_one_eq_mod _ 16
  rw [hmask, hhalf_eq, lhalf_eq, sub, sub]
  omega

/-- The first digit has no product of its own, and the borrow out of it stays in the upper half. -/
theorem sub_first (hx : x < 2 ^ 16) (ht : t < 2 ^ 16) :
    (hhalf (sub x t) = 0 ∧ lhalf (sub x t) + t = x) ∨
      (hhalf (sub x t) ≠ 0 ∧ lhalf (sub x t) + t = x + 2 ^ 16) := by
  rw [hhalf_eq, lhalf_eq, sub]
  omega

theorem mulSub_of_le {k : Nat} (h : k ≤ pu ∨ pu + i < k) :
    (mulSub v pv qhat pu i t u).1 k = u k := by
  induction i generalizing t u with
  | zero => rfl
  | succ i ih =>
      rw [mulSub, ih (by omega)]
      exact Function.update_of_ne (by omega) _ _

theorem mulSub_lt (v : Digits) (pv qhat pu i t : Nat) (hu : ∀ k, u k < 2 ^ 16) (k : Nat) :
    (mulSub v pv qhat pu i t u).1 k < 2 ^ 16 := by
  induction i generalizing t u with
  | zero => exact hu k
  | succ i ih =>
      rw [mulSub]
      exact ih _ (update_lt hu (lhalf_lt _) _)

/-- What D4 leaves, the multiple of the divisor that it took away and the borrow. -/
theorem mulSub_spec (pu : Nat) (hu : ∀ k, u k < 2 ^ 16) (hv : ∀ k < i, v (pv + 1 + k) < 2 ^ 16)
    (hqhat : qhat < 2 ^ 16) (ht : t < 2 ^ 16) :
    (mulSub v pv qhat pu i t u).2 < 2 ^ 16 ∧
      value (2 ^ 16) (mulSub v pv qhat pu i t u).1 (pu + 1) i +
          (qhat * value (2 ^ 16) v (pv + 1) i + t) =
        value (2 ^ 16) u (pu + 1) i + (mulSub v pv qhat pu i t u).2 * (2 ^ 16) ^ i := by
  induction i generalizing t u with
  | zero => exact ⟨ht, by simp [mulSub]⟩
  | succ i ih =>
      have hprod : v (pv + 1 + i) * qhat ≤ (2 ^ 16 - 1) * (2 ^ 16 - 1) :=
        Nat.mul_le_mul (Nat.le_sub_one_of_lt (hv i i.lt_succ_self)) (Nat.le_sub_one_of_lt hqhat)
      have hmul : v (pv + 1 + i) * qhat + t ≤ (2 ^ 16 - 1) * 2 ^ 16 := by omega
      obtain ⟨hborrow, hdigit⟩ := sub_digit (hu (pu + 1 + i)) hmul
      rw [mulSub]
      obtain ⟨hlast, hvalue⟩ := ih (update_lt hu (lhalf_lt _) _)
        (fun k hk => hv k (Nat.lt_succ_of_lt hk)) hborrow
      refine ⟨hlast, ?_⟩
      rw [value_update_of_le (le_refl _)] at hvalue
      have hqhat' : qhat * (value (2 ^ 16) v (pv + 1) i * 2 ^ 16 + v (pv + 1 + i)) =
          qhat * value (2 ^ 16) v (pv + 1) i * 2 ^ 16 + v (pv + 1 + i) * qhat := by ring
      rw [value_succ, value_succ, value_succ, mulSub_of_le (.inr (by omega)),
        Function.update_self, pow_succ (2 ^ 16) i, hqhat', ← Nat.mul_assoc _ _ (2 ^ 16)]
      omega

theorem addBack_of_le {k : Nat} (h : k ≤ pu ∨ pu + i < k) :
    (addBack v pv pu i t u).1 k = u k := by
  induction i generalizing t u with
  | zero => rfl
  | succ i ih =>
      rw [addBack, ih (by omega)]
      exact Function.update_of_ne (by omega) _ _

theorem addBack_lt (v : Digits) (pv pu i t : Nat) (hu : ∀ k, u k < 2 ^ 16) (k : Nat) :
    (addBack v pv pu i t u).1 k < 2 ^ 16 := by
  induction i generalizing t u with
  | zero => exact hu k
  | succ i ih =>
      rw [addBack]
      exact ih _ (update_lt hu (lhalf_lt _) _)

/-- What D6 leaves, with the carry. -/
theorem addBack_spec (pu : Nat) (hu : ∀ k, u k < 2 ^ 16) (hv : ∀ k < i, v (pv + 1 + k) < 2 ^ 16)
    (ht : t ≤ 1) :
    (addBack v pv pu i t u).2 ≤ 1 ∧
      value (2 ^ 16) (addBack v pv pu i t u).1 (pu + 1) i +
          (addBack v pv pu i t u).2 * (2 ^ 16) ^ i =
        value (2 ^ 16) u (pu + 1) i + value (2 ^ 16) v (pv + 1) i + t := by
  induction i generalizing t u with
  | zero => exact ⟨ht, by simp [addBack]⟩
  | succ i ih =>
      have hx := hu (pu + 1 + i)
      have hy := hv i i.lt_succ_self
      have hcarry : hhalf (t + (u (pu + 1 + i) + v (pv + 1 + i))) ≤ 1 := by
        rw [hhalf_eq]
        omega
      have hdigit : lhalf (t + (u (pu + 1 + i) + v (pv + 1 + i))) +
          hhalf (t + (u (pu + 1 + i) + v (pv + 1 + i))) * 2 ^ 16 =
            t + (u (pu + 1 + i) + v (pv + 1 + i)) := by
        rw [hhalf_eq, lhalf_eq]
        omega
      rw [addBack]
      obtain ⟨hlast, hvalue⟩ := ih (update_lt hu (lhalf_lt _) _)
        (fun k hk => hv k (Nat.lt_succ_of_lt hk)) hcarry
      refine ⟨hlast, ?_⟩
      rw [value_update_of_le (le_refl _)] at hvalue
      rw [value_succ, value_succ, value_succ, addBack_of_le (.inr (by omega)),
        Function.update_self, pow_succ (2 ^ 16) i, ← Nat.mul_assoc]
      omega

/-- A round of the division at the place `pu`, and what it does not touch. -/
structure Divided (v : Digits) (n pv pu : Nat) (u : Digits) (s : Digits × Nat) : Prop where
  lt : ∀ k, s.1 k < 2 ^ 16
  frame : ∀ k, k < pu ∨ pu + n < k → s.1 k = u k
  digit : s.2 < 2 ^ 16
  value_eq : value (2 ^ 16) u pu (n + 1) =
    s.2 * value (2 ^ 16) v (pv + 1) n + value (2 ^ 16) s.1 pu (n + 1)
  left_lt : value (2 ^ 16) s.1 pu (n + 1) < value (2 ^ 16) v (pv + 1) n

theorem value_lt_of_digits (hu : ∀ k, u k < 2 ^ 16) (p k : Nat) :
    value (2 ^ 16) u p k < (2 ^ 16) ^ k :=
  value_lt fun i _ => hu (p + i)

/-- D6 for all digits: the carry out of the first one is lost. -/
theorem addBack_all (pu : Nat) (hu : ∀ k, u k < 2 ^ 16) (hv : ∀ k < n, v (pv + 1 + k) < 2 ^ 16)
    (hover : (2 ^ 16) ^ (n + 1) < value (2 ^ 16) u pu (n + 1) + value (2 ^ 16) v (pv + 1) n) :
    value (2 ^ 16) (update (addBack v pv pu n 0 u).1 pu
        (lhalf ((addBack v pv pu n 0 u).1 pu + (addBack v pv pu n 0 u).2))) pu (n + 1) +
        (2 ^ 16) ^ (n + 1) =
      value (2 ^ 16) u pu (n + 1) + value (2 ^ 16) v (pv + 1) n := by
  obtain ⟨hcarry, hback⟩ := addBack_spec pu hu hv (t := 0) (by decide)
  have hlt := addBack_lt v pv pu n 0 hu
  have hfirst : (addBack v pv pu n 0 u).1 pu = u pu := addBack_of_le (.inl (le_refl pu))
  have hU := value_succ_first (2 ^ 16) u pu n
  have hdigit := hu pu
  have hpow : (2 ^ 16) ^ (n + 1) = 2 ^ 16 * (2 ^ 16) ^ n := pow_succ' (2 ^ 16) n
  generalize addBack v pv pu n 0 u = r at *
  have hset := value_update_first (2 ^ 16) r.1 pu n (lhalf (r.1 pu + r.2))
  have hsetlt := value_lt_of_digits (update_lt hlt (lhalf_lt (r.1 pu + r.2)) pu) pu (n + 1)
  have hsplit : lhalf (r.1 pu + r.2) * (2 ^ 16) ^ n +
      hhalf (r.1 pu + r.2) * (2 ^ 16 * (2 ^ 16) ^ n) =
        u pu * (2 ^ 16) ^ n + r.2 * (2 ^ 16) ^ n := by
    rw [← Nat.mul_assoc, ← Nat.add_mul, ← Nat.add_mul, hfirst, hhalf_eq, lhalf_eq,
      Nat.mod_add_div' (u pu + r.2) (2 ^ 16)]
  have hle : hhalf (r.1 pu + r.2) ≤ 1 := by
    rw [hhalf_eq, hfirst]
    omega
  -- without a carry the sum would be too large for the digits
  rcases Nat.le_one_iff_eq_zero_or_eq_one.1 hle with hzero | hone
  · rw [hzero] at hsplit
    omega
  · rw [hone] at hsplit
    omega

/-- D4 to D6 divide if the estimate is right or too large by one. -/
theorem subtract_spec (hu : ∀ k, u k < 2 ^ 16) (hv : ∀ k < n, v (pv + 1 + k) < 2 ^ 16)
    (hqhat : qhat < 2 ^ 16)
    (hless : qhat * value (2 ^ 16) v (pv + 1) n <
      value (2 ^ 16) u pu (n + 1) + value (2 ^ 16) v (pv + 1) n)
    (hbest : value (2 ^ 16) u pu (n + 1) < (qhat + 1) * value (2 ^ 16) v (pv + 1) n) :
    Divided v n pv pu u (subtract v n pv pu qhat u) := by
  obtain ⟨hborrow, hvalue⟩ := mulSub_spec pu hu hv hqhat (t := 0) (by decide)
  have hU := value_succ_first (2 ^ 16) u pu n
  have hlt := mulSub_lt v pv qhat pu n 0 hu
  have hframe : ∀ k, k < pu ∨ pu + n < k → (mulSub v pv qhat pu n 0 u).1 k = u k :=
    fun k hk => mulSub_of_le (by omega)
  have hfirst : (mulSub v pv qhat pu n 0 u).1 pu = u pu := mulSub_of_le (.inl (le_refl pu))
  have hmul : (qhat + 1) * value (2 ^ 16) v (pv + 1) n =
      qhat * value (2 ^ 16) v (pv + 1) n + value (2 ^ 16) v (pv + 1) n := Nat.succ_mul _ _
  generalize hs : mulSub v pv qhat pu n 0 u = s at *
  have hset := value_update_first (2 ^ 16) s.1 pu n (lhalf (sub (u pu) s.2))
  have hlt' := update_lt hlt (lhalf_lt (sub (u pu) s.2)) pu
  have hframe' : ∀ k, k < pu ∨ pu + n < k → update s.1 pu (lhalf (sub (u pu) s.2)) k = u k := by
    intro k hk
    rw [Function.update_of_ne (by omega), hframe k hk]
  rw [subtract, hs, hfirst]
  generalize update s.1 pu (lhalf (sub (u pu) s.2)) = u' at *
  rcases sub_first (hu pu) hborrow with ⟨hzero, hdigit⟩ | ⟨hzero, hdigit⟩
  · -- no borrow
    have hsum : lhalf (sub (u pu) s.2) * (2 ^ 16) ^ n + s.2 * (2 ^ 16) ^ n = u pu * (2 ^ 16) ^ n := by
      rw [← Nat.add_mul, hdigit]
    rw [if_pos hzero]
    refine ⟨hlt', hframe', hqhat, ?_, ?_⟩
    · dsimp only
      omega
    · dsimp only
      omega
  · -- a borrow: `qhat` was too large by one
    have hsum : lhalf (sub (u pu) s.2) * (2 ^ 16) ^ n + s.2 * (2 ^ 16) ^ n =
        u pu * (2 ^ 16) ^ n + 2 ^ 16 * (2 ^ 16) ^ n := by
      rw [← Nat.add_mul, hdigit, Nat.add_mul]
    have hpow : (2 ^ 16) ^ (n + 1) = 2 ^ 16 * (2 ^ 16) ^ n := pow_succ' (2 ^ 16) n
    have hback := addBack_all pu hlt' hv (by omega)
    have hltlt := value_lt_of_digits hlt' pu (n + 1)
    have hqpos : 0 < qhat := by
      apply Nat.pos_of_ne_zero
      rintro rfl
      omega
    have hpred : (qhat - 1) * value (2 ^ 16) v (pv + 1) n + value (2 ^ 16) v (pv + 1) n =
        qhat * value (2 ^ 16) v (pv + 1) n := by
      rw [← Nat.succ_mul, Nat.succ_eq_add_one, Nat.sub_add_cancel hqpos]
    have hltr := addBack_lt v pv pu n 0 hlt'
    rw [if_neg hzero]
    refine ⟨update_lt hltr (lhalf_lt _) pu, ?_, Nat.lt_of_le_of_lt (Nat.sub_le qhat 1) hqhat, ?_, ?_⟩
    · intro k hk
      dsimp only
      rw [Function.update_of_ne (by omega), addBack_of_le (by omega), hframe' k hk]
    · dsimp only
      omega
    · dsimp only
      omega

/-- A round: less than the divisor stands in the first `n` digits, whose divisor has its first bit
set. -/
theorem divide_spec (hu : ∀ k, u k < 2 ^ 16) (hv : ∀ k < n, v (pv + 1 + k) < 2 ^ 16) (hn : 2 ≤ n)
    (hv1 : 2 ^ 15 ≤ v (pv + 1)) (h : value (2 ^ 16) u pu n < value (2 ^ 16) v (pv + 1) n) :
    Divided v n pv pu u (divide v n pv pu u) := by
  obtain ⟨k, rfl⟩ := Nat.exists_eq_add_of_le hn
  have hv1' : v (pv + 1) < 2 ^ 16 := hv 0 (by omega)
  have hv2 : v (pv + 2) < 2 ^ 16 := hv 1 (by omega)
  have hV : value (2 ^ 16) v (pv + 1) (2 + k) =
      (v (pv + 1) * 2 ^ 16 + v (pv + 2)) * (2 ^ 16) ^ k + value (2 ^ 16) v (pv + 1 + 2) k := by
    rw [value_add, value_succ, value_one]
  have hVlow : value (2 ^ 16) v (pv + 1 + 2) k < (2 ^ 16) ^ k := by
    apply value_lt
    intro i hi
    have hplace : pv + 1 + 2 + i = pv + 1 + (2 + i) := by omega
    rw [hplace]
    exact hv (2 + i) (by omega)
  have hfront : value (2 ^ 16) u pu (2 + k) =
      (u pu * 2 ^ 16 + u (pu + 1)) * (2 ^ 16) ^ k + value (2 ^ 16) u (pu + 2) k := by
    rw [value_add, value_succ, value_one]
  have hU : value (2 ^ 16) u pu (2 + k + 1) =
      ((u pu * 2 ^ 16 + u (pu + 1)) * 2 ^ 16 + u (pu + 2)) * (2 ^ 16) ^ k +
        value (2 ^ 16) u (pu + 3) k := by
    rw [Nat.add_right_comm, value_add, value_succ, value_succ, value_one]
  -- the first two digits are not larger than those of the divisor
  have htwo : u pu * 2 ^ 16 + u (pu + 1) ≤ v (pv + 1) * 2 ^ 16 + v (pv + 2) := by
    apply Nat.le_of_lt_succ
    apply Nat.lt_of_mul_lt_mul_right (a := (2 ^ 16) ^ k)
    rw [Nat.succ_mul]
    omega
  have hone : u pu ≤ v (pv + 1) := by omega
  obtain ⟨hqhat, hle, hbest⟩ := estimate_spec hv1 hv1' hv2 hone (hu (pu + 1)) (hu (pu + 2))
  apply subtract_spec hu hv hqhat
  · rw [hU, hV]
    exact estimate_lt hle hqhat (by omega) hVlow
  · -- a larger digit would not be too large for the first digits either
    by_contra hge
    have hsucc : estimate (v (pv + 1)) (v (pv + 2)) (u pu) (u (pu + 1)) (u (pu + 2)) + 1 < 2 ^ 16 := by
      apply Nat.lt_of_mul_lt_mul_right (a := value (2 ^ 16) v (pv + 1) (2 + k))
      have hlast := hu (pu + (2 + k))
      rw [value_succ] at hge
      omega
    have hmul := Nat.not_lt.1 hge
    rw [hU, hV] at hmul
    have hno := hbest _ hsucc (le_estimate hmul (value_lt_of_digits hu _ _))
    omega

end Round

/-! ## All rounds -/

section Rounds

variable {v u q : Digits} {n pv pu pq k : Nat}

/-- The rounds from the place `pu` on. -/
structure AllDivided (v : Digits) (n pv k pu pq : Nat) (u q : Digits) (s : Digits × Digits) :
    Prop where
  lt : ∀ i, s.1 i < 2 ^ 16
  frame : ∀ i, i < pu ∨ pu + n + k ≤ i → s.1 i = u i
  quotient_lt : ∀ i < k, s.2 (pq + i) < 2 ^ 16
  quotient_frame : ∀ i, i < pq ∨ pq + k ≤ i → s.2 i = q i
  value_eq : value (2 ^ 16) u pu (n + k) =
    value (2 ^ 16) s.2 pq k * value (2 ^ 16) v (pv + 1) n + value (2 ^ 16) s.1 pu (n + k)
  left_lt : value (2 ^ 16) s.1 pu (n + k) < value (2 ^ 16) v (pv + 1) n

/-- What is left after a round begins with a zero, so that the next one can go on behind it. -/
theorem Divided.first_eq {s : Digits × Nat} (h : Divided v n pv pu u s)
    (hv : ∀ k < n, v (pv + 1 + k) < 2 ^ 16) : s.1 pu = 0 := by
  have hlt : value (2 ^ 16) s.1 pu (1 + n) < (2 ^ 16) ^ n := by
    rw [Nat.add_comm]
    exact h.left_lt.trans (value_lt hv)
  have hzero := value_front (by decide) hlt
  rwa [value_one] at hzero

theorem divideAll_spec (pu pq : Nat) (q : Digits) (hu : ∀ k, u k < 2 ^ 16)
    (hv : ∀ k < n, v (pv + 1 + k) < 2 ^ 16) (hn : 2 ≤ n) (hv1 : 2 ^ 15 ≤ v (pv + 1))
    (h : value (2 ^ 16) u pu n < value (2 ^ 16) v (pv + 1) n) :
    AllDivided v n pv k pu pq u q (divideAll v n pv k pu pq u q) := by
  induction k generalizing pu pq u q with
  | zero =>
      exact ⟨hu, fun _ _ => rfl, fun i hi => absurd hi (Nat.not_lt_zero i), fun _ _ => rfl,
        by simp [divideAll], h⟩
  | succ k ih =>
      have hround := divide_spec hu hv hn hv1 h
      have hzero := hround.first_eq hv
      have hfirst := value_succ_first (2 ^ 16) (divide v n pv pu u).1 pu n
      have hround_lt := hround.left_lt
      rw [hzero, Nat.zero_mul, Nat.zero_add] at hfirst
      rw [hfirst] at hround_lt
      have hrest := ih (pu + 1) (pq + 1) (update q pq (lhalf (divide v n pv pu u).2)) hround.lt
        hround_lt
      rw [divideAll]
      generalize divideAll v n pv k (pu + 1) (pq + 1) (divide v n pv pu u).1
        (update q pq (lhalf (divide v n pv pu u).2)) = s at *
      have hdigit : s.2 pq = (divide v n pv pu u).2 := by
        rw [hrest.quotient_frame pq (.inl pq.lt_succ_self), Function.update_self, lhalf_eq,
          Nat.mod_eq_of_lt hround.digit]
      have hleft : value (2 ^ 16) s.1 pu (n + (k + 1)) = value (2 ^ 16) s.1 (pu + 1) (n + k) := by
        rw [← Nat.add_assoc, value_succ_first, hrest.frame pu (.inl pu.lt_succ_self), hzero,
          Nat.zero_mul, Nat.zero_add]
      refine ⟨hrest.lt, ?_, ?_, ?_, ?_, ?_⟩
      · intro i hi
        rw [hrest.frame i (by omega), hround.frame i (by omega)]
      · intro i hi
        cases i with
        | zero =>
            rw [Nat.add_zero, hdigit]
            exact hround.digit
        | succ i =>
            have hplace : pq + (i + 1) = pq + 1 + i := by omega
            rw [hplace]
            exact hrest.quotient_lt i (by omega)
      · intro i hi
        rw [hrest.quotient_frame i (by omega), Function.update_of_ne (by omega)]
      · -- the digits behind the round are those of `u`
        have hbehind : value (2 ^ 16) (divide v n pv pu u).1 (pu + (n + 1)) k =
            value (2 ^ 16) u (pu + (n + 1)) k :=
          value_congr fun i _ => hround.frame _ (.inr (by omega))
        have hall : value (2 ^ 16) u pu (n + 1 + k) =
            (divide v n pv pu u).2 * value (2 ^ 16) v (pv + 1) n * (2 ^ 16) ^ k +
              value (2 ^ 16) (divide v n pv pu u).1 pu (n + 1 + k) := by
          have hsplit := value_add (2 ^ 16) (divide v n pv pu u).1 pu (n + 1) k
          rw [value_add _ u, hround.value_eq, hsplit, hbehind]
          ring
        have hskip : value (2 ^ 16) (divide v n pv pu u).1 pu (n + 1 + k) =
            value (2 ^ 16) (divide v n pv pu u).1 (pu + 1) (n + k) := by
          rw [Nat.add_right_comm, value_succ_first, hzero, Nat.zero_mul, Nat.zero_add]
        have hplace : n + (k + 1) = n + 1 + k := by omega
        rw [hleft, hplace, hall, hskip, hrest.value_eq, value_succ_first, hdigit]
        ring
      · rw [hleft]
        exact hrest.left_lt

end Rounds

end Os161.Millicode.Qdivrem

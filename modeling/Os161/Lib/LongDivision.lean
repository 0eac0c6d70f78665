import Mathlib.Algebra.Group.Nat.Defs
import Mathlib.Algebra.Order.Ring.Nat
import Mathlib.Logic.Function.Basic
import Mathlib.Tactic.Ring

set_option autoImplicit false

/-!
# Long division

Numbers whose digits in base `b` stand in an array, the most significant one first. In a step of
long division a divisor `V` of `n` digits is divided into `n + 1` digits `U`, and the digit of the
quotient is estimated from the first three digits of `U` and the first two of `V`. An estimate that
is not too large for these digits (`q * v ≤ u`) is too large by one at most.
-/

namespace Os161.Lib.LongDivision

variable {b p j k q u v w r s : Nat} {a a' : Nat → Nat}

/-- The number whose `k` digits stand from the place `p` on. -/
def value (b : Nat) (a : Nat → Nat) (p : Nat) : Nat → Nat
  | 0 => 0
  | k + 1 => value b a p k * b + a (p + k)

@[simp] theorem value_zero (b : Nat) (a : Nat → Nat) (p : Nat) : value b a p 0 = 0 := rfl

theorem value_succ (b : Nat) (a : Nat → Nat) (p k : Nat) :
    value b a p (k + 1) = value b a p k * b + a (p + k) := rfl

theorem value_congr (h : ∀ i < k, a (p + i) = a' (p + i)) : value b a p k = value b a' p k := by
  induction k with
  | zero => rfl
  | succ k ih =>
      rw [value_succ, value_succ, ih fun i hi => h i (Nat.lt_succ_of_lt hi), h k k.lt_succ_self]

/-- The digits in front, and those behind. -/
theorem value_add (b : Nat) (a : Nat → Nat) (p j k : Nat) :
    value b a p (j + k) = value b a p j * b ^ k + value b a (p + j) k := by
  induction k with
  | zero => rw [Nat.add_zero, pow_zero, Nat.mul_one, value_zero, Nat.add_zero]
  | succ k ih =>
      rw [← Nat.add_assoc, value_succ, ih, value_succ, pow_succ, Nat.add_assoc p j k]
      ring

theorem value_one (b : Nat) (a : Nat → Nat) (p : Nat) : value b a p 1 = a p := by
  rw [value_succ, value_zero, Nat.zero_mul, Nat.zero_add, Nat.add_zero]

/-- The first digit, and those behind it. -/
theorem value_succ_first (b : Nat) (a : Nat → Nat) (p k : Nat) :
    value b a p (k + 1) = a p * b ^ k + value b a (p + 1) k := by
  rw [Nat.add_comm, value_add, value_one]

theorem value_lt (h : ∀ i < k, a (p + i) < b) : value b a p k < b ^ k := by
  induction k with
  | zero => exact Nat.one_pos
  | succ k ih =>
      have hfront := ih fun i hi => h i (Nat.lt_succ_of_lt hi)
      have hlast := h k k.lt_succ_self
      calc value b a p k * b + a (p + k) < value b a p k * b + b := Nat.add_lt_add_left hlast _
        _ = (value b a p k + 1) * b := by ring
        _ ≤ b ^ k * b := Nat.mul_le_mul_right b hfront
        _ = b ^ (k + 1) := (pow_succ b k).symm

/-- A number that needs `k` digits only has zeros in front of them. -/
theorem value_front (hb : 0 < b) (h : value b a p (j + k) < b ^ k) : value b a p j = 0 := by
  rw [value_add] at h
  by_contra hne
  have hone : 1 ≤ value b a p j := Nat.one_le_iff_ne_zero.2 hne
  have hle : 1 * b ^ k ≤ value b a p j * b ^ k := Nat.mul_le_mul_right _ hone
  have hpos : 0 < b ^ k := Nat.pow_pos hb
  omega

theorem digit_of_value_zero (hb : 0 < b) (h : value b a p k = 0) : ∀ i < k, a (p + i) = 0 := by
  induction k with
  | zero => exact fun i hi => absurd hi (Nat.not_lt_zero i)
  | succ k ih =>
      rw [value_succ] at h
      obtain ⟨hmul, hlast⟩ := Nat.add_eq_zero_iff.1 h
      have hfront := (Nat.mul_eq_zero.1 hmul).resolve_right hb.ne'
      intro i hi
      rcases Nat.lt_succ_iff_lt_or_eq.1 hi with hi | rfl
      · exact ih hfront i hi
      · exact hlast

theorem value_of_zeros (h : ∀ i < k, a (p + i) = 0) : value b a p k = 0 := by
  induction k with
  | zero => rfl
  | succ k ih =>
      rw [value_succ, ih fun i hi => h i (Nat.lt_succ_of_lt hi), h k k.lt_succ_self, Nat.zero_mul]

/-- Zeros in front of a number. -/
theorem value_skip (h : ∀ i < j, a (p + i) = 0) : value b a p (j + k) = value b a (p + j) k := by
  rw [value_add, value_of_zeros h, Nat.zero_mul, Nat.zero_add]

/-- A place behind the digits does not count. -/
theorem value_update_of_le {i x : Nat} (h : p + k ≤ i) :
    value b (Function.update a i x) p k = value b a p k :=
  value_congr fun i' hi' => Function.update_of_ne (by omega) _ _

/-- Nor does one in front of them. -/
theorem value_update_of_lt {i x : Nat} (h : i < p) :
    value b (Function.update a i x) p k = value b a p k :=
  value_congr fun i' hi' => Function.update_of_ne (by omega) _ _

theorem value_update_first (b : Nat) (a : Nat → Nat) (p k x : Nat) :
    value b (Function.update a p x) p (k + 1) = x * b ^ k + value b a (p + 1) k := by
  rw [value_succ_first, Function.update_self, value_update_of_lt p.lt_succ_self]

/-! ## Shifts

The base is `s * t`, and the digits are shifted by less than one digit. -/

section Shifts

variable {t : Nat}

theorem scaled_div (h : r < t) : (t * w + r) / (t * s) = w / s := by
  have ht : 0 < t := Nat.lt_of_le_of_lt (Nat.zero_le r) h
  rw [← Nat.div_div_eq_div_mul, Nat.mul_add_div ht, Nat.div_eq_of_lt h, Nat.add_zero]

theorem scaled_mod (h : r < t) : (t * w + r) % (t * s) = t * (w % s) + r := by
  have ht : 0 < t := Nat.lt_of_le_of_lt (Nat.zero_le r) h
  rw [Nat.mod_mul, Nat.mul_add_div ht, Nat.div_eq_of_lt h, Nat.add_zero, Nat.mul_add_mod,
    Nat.mod_eq_of_lt h, Nat.add_comm]

/-- To the left: a digit takes the upper bits of the next one. -/
theorem value_shift_left (hb : b = s * t) (hs : 0 < s) (ha : ∀ i < k + 2, a (p + i) < b) :
    value b a p (k + 2) * s % b ^ (k + 2) =
      (s * (a p % t) + a (p + 1) / t) * b ^ (k + 1) +
        value b a (p + 1) (k + 1) * s % b ^ (k + 1) := by
  have hfirst := value_succ_first b a p (k + 1)
  have hnext := value_succ_first b a (p + 1) k
  have hrest : value b a (p + 1 + 1) k < b ^ k := by
    apply value_lt
    intro i hi
    have hplace : p + 1 + 1 + i = p + (i + 2) := by omega
    rw [hplace]
    exact ha (i + 2) (by omega)
  have hpos : 0 < b ^ k := Nat.lt_of_le_of_lt (Nat.zero_le _) hrest
  have hpos' : 0 < b ^ (k + 1) := by
    rw [pow_succ]
    exact Nat.mul_pos hpos (Nat.lt_of_le_of_lt (Nat.zero_le _) (ha 0 (by omega)))
  have hlow : a (p + 1) / t < s := by
    have := ha 1 (by omega)
    exact Nat.div_lt_of_lt_mul (by rwa [Nat.mul_comm, ← hb])
  -- what leaves the digits behind
  have hcarry : value b a (p + 1) (k + 1) * s / b ^ (k + 1) = a (p + 1) / t := by
    have hpow : b ^ (k + 1) = b ^ k * t * s := by
      rw [pow_succ, hb]
      ring
    rw [hpow, Nat.mul_div_mul_right _ _ hs, ← Nat.div_div_eq_div_mul, hnext, Nat.mul_comm (a (p + 1)),
      Nat.mul_add_div hpos, Nat.div_eq_of_lt hrest, Nat.add_zero]
  have hdiv : value b a p (k + 2) * s / b ^ (k + 1) = s * a p + a (p + 1) / t := by
    rw [← hcarry, hfirst, Nat.add_mul, Nat.mul_right_comm, Nat.mul_comm _ (b ^ (k + 1)),
      Nat.mul_add_div hpos', Nat.mul_comm s]
  have hmod : value b a p (k + 2) * s % b ^ (k + 1) =
      value b a (p + 1) (k + 1) * s % b ^ (k + 1) := by
    rw [hfirst, Nat.add_mul, Nat.mul_right_comm, Nat.mul_add_mod_self_right]
  have hdigit : (s * a p + a (p + 1) / t) % b = s * (a p % t) + a (p + 1) / t := by
    rw [hb, scaled_mod hlow]
  rw [pow_succ b (k + 1), Nat.mod_mul, hdiv, hmod, hdigit]
  ring

/-- To the right: a digit takes the lower bits of the one in front. -/
theorem value_shift_right (hb : b = s * t) (hs : 0 < s) (ha : a (p + k + 1) < b) :
    value b a p (k + 2) / s % b ^ (k + 1) =
      value b a p (k + 1) / s % b ^ k * b + (t * (a (p + k) % s) + a (p + k + 1) / s) := by
  have hlow : a (p + k + 1) / s < t := Nat.div_lt_of_lt_mul (by rwa [← hb])
  have hdiv : value b a p (k + 2) / s = t * value b a p (k + 1) + a (p + k + 1) / s := by
    rw [value_succ, ← Nat.mul_add_div hs, hb]
    congr 1
    rw [Nat.add_assoc]
    ring
  have hlast : value b a p (k + 1) % s = a (p + k) % s := by
    have hmul : value b a p k * b = s * (value b a p k * t) := by
      rw [hb]
      ring
    rw [value_succ, hmul, Nat.mul_add_mod]
  have hfront : (t * value b a p (k + 1) + a (p + k + 1) / s) / b = value b a p (k + 1) / s := by
    rw [← scaled_div (w := value b a p (k + 1)) (s := s) hlow, hb, Nat.mul_comm t s]
  have hback : (t * value b a p (k + 1) + a (p + k + 1) / s) % b =
      t * (a (p + k) % s) + a (p + k + 1) / s := by
    rw [← hlast, ← scaled_mod hlow, hb, Nat.mul_comm t s]
  rw [pow_succ, Nat.mul_comm (b ^ k), Nat.mod_mul, hdiv, hfront, hback]
  ring

end Shifts

/-! ## The estimate -/

/-- One digit more in a division by a single digit. -/
theorem quotient_step {m n r' y : Nat} (h : m = n * v + r) (h' : r * b + y = q * v + r') :
    m * b + y = (n * b + q) * v + r' := by
  calc m * b + y = n * v * b + (r * b + y) := by
        rw [h]
        ring
    _ = (n * b + q) * v + r' := by
        rw [h']
        ring

/-- A digit that is not too large is not too large for the first digits. -/
theorem le_estimate (h : q * (v * w + s) ≤ u * w + r) (hr : r < w) : q * v ≤ u := by
  have hw : 0 < w := Nat.lt_of_le_of_lt (Nat.zero_le r) hr
  refine Nat.le_of_lt_succ (Nat.lt_of_mul_lt_mul_right (a := w) ?_)
  calc q * v * w ≤ q * (v * w + s) := by
        rw [Nat.mul_assoc]
        exact Nat.mul_le_mul_left q (Nat.le_add_right _ _)
    _ ≤ u * w + r := h
    _ < u * w + w := Nat.add_lt_add_left hr _
    _ = (u + 1) * w := by ring

/-- A digit that is not too large for the first digits is too large by one at most. -/
theorem estimate_lt (h : q * v ≤ u) (hq : q < b) (hv : b ≤ v) (hs : s < w) :
    q * (v * w + s) < u * w + r + (v * w + s) := by
  have hlow : q * s < b * w := by
    calc q * s ≤ q * w := Nat.mul_le_mul_left q hs.le
      _ < b * w := Nat.mul_lt_mul_of_pos_right hq (Nat.lt_of_le_of_lt (Nat.zero_le s) hs)
  calc q * (v * w + s) = q * v * w + q * s := by ring
    _ ≤ u * w + q * s := Nat.add_le_add_right (Nat.mul_le_mul_right w h) _
    _ < u * w + b * w := Nat.add_lt_add_left hlow _
    _ ≤ u * w + v * w := Nat.add_le_add_left (Nat.mul_le_mul_right w hv) _
    _ ≤ u * w + r + (v * w + s) := by omega

end Os161.Lib.LongDivision

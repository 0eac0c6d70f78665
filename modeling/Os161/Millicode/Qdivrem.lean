import Mathlib.Tactic.Common
import Os161.Lib.LongDivision

set_option autoImplicit false

/-!
# Multiprecision division

`common/gcc-millicode/qdivrem.c`, what gcc calls to divide a `long long` on a 32-bit machine. Dividend
and divisor are four digits in base `2 ^ 16` each, in arrays that `unsigned int`s are computed from;
pointers into the arrays are places. A digit of the quotient is estimated, the multiple of the
divisor is subtracted from the digits of the dividend, and one divisor is added back if that was too
much.
-/

namespace Os161.Millicode.Qdivrem

open Function (update)
open Os161.Lib.LongDivision

/-! ## Two words -/

/-- An `unsigned int`. -/
abbrev Word : Type := BitVec 32

/-- `union uu`: `ui[H]` and `ui[L]`. -/
structure UU where
  hi : Word
  lo : Word

/-- `ull` and `ll` of a `union uu`. -/
def UU.ll (x : UU) : BitVec 64 := x.hi ++ x.lo

/-- The `union uu` with this `ll`. -/
def UU.of (a : BitVec 64) : UU := ⟨a.extractLsb' 32 32, a.extractLsb' 0 32⟩

theorem UU.toNat_ll (x : UU) : x.ll.toNat = x.hi.toNat * 2 ^ 32 + x.lo.toNat := by
  have hlo := x.lo.isLt
  rw [UU.ll, BitVec.toNat_append, Nat.shiftLeft_eq, Nat.mul_comm, Nat.two_pow_add_eq_or_of_lt hlo]

theorem UU.toNat_hi_of (a : BitVec 64) : (UU.of a).hi.toNat = a.toNat / 2 ^ 32 := by
  have ha := a.isLt
  rw [UU.of, BitVec.extractLsb'_toNat, Nat.shiftRight_eq_div_pow]
  exact Nat.mod_eq_of_lt (by omega)

theorem UU.toNat_lo_of (a : BitVec 64) : (UU.of a).lo.toNat = a.toNat % 2 ^ 32 := by
  rw [UU.of, BitVec.extractLsb'_toNat, Nat.shiftRight_zero]

/-! ## The program -/

/-- `digit` -/
abbrev Digits : Type := Nat → Nat

/-- `HHALF` -/
def hhalf (x : Nat) : Nat := x >>> 16

/-- `LHALF` -/
def lhalf (x : Nat) : Nat := x &&& 0xffff

/-- `COMBINE` -/
def combine (a b : Nat) : Nat := (a <<< 16 % 2 ^ 32) ||| b

/-- The difference of two `unsigned int`s. -/
def sub (x y : Nat) : Nat := (x + (2 ^ 32 - y % 2 ^ 32)) % 2 ^ 32

/-- The digits of a number, at the places 1 to 4, and what is at the place 0. -/
def unpack (x : BitVec 64) (first : Nat) : Digits
  | 1 => hhalf (UU.of x).hi.toNat
  | 2 => lhalf (UU.of x).hi.toNat
  | 3 => hhalf (UU.of x).lo.toNat
  | 4 => lhalf (UU.of x).lo.toNat
  | _ => first

/-- The number with these digits. -/
def pack (a : Digits) : BitVec 64 :=
  UU.ll ⟨BitVec.ofNat 32 (combine (a 1) (a 2)), BitVec.ofNat 32 (combine (a 3) (a 4))⟩

/-- The divisor without leading zeros: one digit, or `n` digits behind the place `p`. -/
inductive Divisor where
  | digit (t : Nat)
  | digits (n p : Nat)

/-- The loop over the leading zeros of the divisor. -/
def countDivisor (v : Digits) : Nat → Nat → Divisor
  | 0, p => .digits 0 p
  | n + 1, p =>
      if v (p + 1) = 0 then if n = 1 then .digit (v (p + 2)) else countDivisor v n (p + 1)
      else .digits (n + 1) p

/-- The loop over the leading zeros of the dividend, which must not have more of them than the
divisor. -/
def countDividend (u : Digits) : Nat → Nat → Option (Nat × Nat)
  | 0, p => if u (p + 1) = 0 then none else some (0, p)
  | m + 1, p => if u (p + 1) = 0 then countDividend u m (p + 1) else some (m + 1, p)

/-- By how many bits the divisor is shifted, so that its first digit is at least `B / 2`. The first
number bounds the rounds. -/
def countShift : Nat → Nat → Nat → Option Nat
  | 0, _, _ => none
  | k + 1, t, d => if t < 2 ^ 15 then countShift k (t * 2 % 2 ^ 32) (d + 1) else some d

/-- `shl`, of the digits from the place `p` to the place `p + len` -/
def shl (sh : Nat) : Nat → Digits → Nat → Digits
  | 0, a, p => update a p (lhalf (a p <<< sh))
  | len + 1, a, p =>
      shl sh len (update a p (lhalf (a p <<< sh) ||| (a (p + 1) >>> (16 - sh)))) (p + 1)

/-- The loop that makes `qhat` smaller, at the test. With `qhat` zero the test fails. -/
def refine (v1 v2 uj2 : Nat) : Nat → Nat → Nat
  | 0, _ => 0
  | qhat + 1, rhat =>
      if combine rhat uj2 < v2 * (qhat + 1) then
        if 2 ^ 16 ≤ rhat + v1 then qhat else refine v1 v2 uj2 qhat (rhat + v1)
      else qhat + 1

/-- D3 -/
def estimate (v1 v2 uj0 uj1 uj2 : Nat) : Nat :=
  if uj0 = v1 then
    -- `goto qhat_too_big`
    if 2 ^ 16 ≤ uj1 + v1 then 2 ^ 16 - 1 else refine v1 v2 uj2 (2 ^ 16 - 1) (uj1 + v1)
  else refine v1 v2 uj2 (combine uj0 uj1 / v1) (combine uj0 uj1 % v1)

/-- D4, of the digits behind the places `pu` and `pv`, with the borrow `t` -/
def mulSub (v : Digits) (pv qhat pu : Nat) : Nat → Nat → Digits → Digits × Nat
  | 0, t, u => (u, t)
  | i + 1, t, u =>
      let t := sub (sub (u (pu + 1 + i)) (v (pv + 1 + i) * qhat)) t
      mulSub v pv qhat pu i ((2 ^ 16 - hhalf t) &&& 0xffff) (update u (pu + 1 + i) (lhalf t))

/-- D6, with the carry `t` -/
def addBack (v : Digits) (pv pu : Nat) : Nat → Nat → Digits → Digits × Nat
  | 0, t, u => (u, t)
  | i + 1, t, u =>
      let t := t + (u (pu + 1 + i) + v (pv + 1 + i))
      addBack v pv pu i (hhalf t) (update u (pu + 1 + i) (lhalf t))

/-- D4 to D6 at the place `pu` with the estimate `qhat`: the digits that are left, and the digit of
the quotient. -/
def subtract (v : Digits) (n pv pu qhat : Nat) (u : Digits) : Digits × Nat :=
  let s := mulSub v pv qhat pu n 0 u
  let t := sub (s.1 pu) s.2
  let u := update s.1 pu (lhalf t)
  if hhalf t = 0 then (u, qhat)
  else
    let r := addBack v pv pu n 0 u
    (update r.1 pu (lhalf (r.1 pu + r.2)), qhat - 1)

/-- D3 to D6 -/
def divide (v : Digits) (n pv pu : Nat) (u : Digits) : Digits × Nat :=
  subtract v n pv pu (estimate (v (pv + 1)) (v (pv + 2)) (u pu) (u (pu + 1)) (u (pu + 2))) u

/-- D7 -/
def divideAll (v : Digits) (n pv : Nat) : Nat → Nat → Nat → Digits → Digits → Digits × Digits
  | 0, _, _, u, q => (u, q)
  | k + 1, pu, pq, u, q =>
      let s := divide v n pv pu u
      divideAll v n pv k (pu + 1) (pq + 1) s.1 (update q pq (lhalf s.2))

/-- The loop that shifts the `k` digits behind the place `p` back, the last one first. -/
def shr (d p : Nat) : Nat → Digits → Digits
  | 0, u => u
  | k + 1, u =>
      shr d p k (update u (p + 1 + k) ((u (p + 1 + k) >>> d) ||| lhalf (u (p + k) <<< (16 - d))))

/-- The leading digits of the quotient: `for (i = k; --i >= 0;) q[i] = 0;` -/
def clear : Nat → Digits → Digits
  | 0, q => q
  | i + 1, q => clear i (update q i 0)

/-- The division by one digit. -/
def shortDivide (u : Digits) (t : Nat) : BitVec 64 × BitVec 64 :=
  let q1 := lhalf (u 1 / t)
  let rbj := combine (u 1 % t) (u 2)
  let q2 := lhalf (rbj / t)
  let rbj := combine (rbj % t) (u 3)
  let q3 := lhalf (rbj / t)
  let rbj := combine (rbj % t) (u 4)
  let q4 := lhalf (rbj / t)
  (UU.ll ⟨BitVec.ofNat 32 (combine q1 q2), BitVec.ofNat 32 (combine q3 q4)⟩,
    BitVec.ofNat 64 (rbj % t))

/-- The division by the `n` digits behind the place `pv`. -/
def longDivide (q u v : Digits) (n pv : Nat) : Option (BitVec 64 × BitVec 64) :=
  (countDividend u (4 - n) 0).bind fun c =>
    let m := c.1
    let pu := c.2
    (countShift 16 (v (pv + 1)) 0).map fun d =>
      let u := if 0 < d then shl d (m + n) u pu else u
      let v := if 0 < d then shl d (n - 1) v (pv + 1) else v
      let s := divideAll v n pv (m + 1) pu (4 - m) u (clear (4 - m) q)
      let u := if 0 < d then update (shr d (pu + m) n s.1) (pu + m) 0 else s.1
      (pack s.2, pack u)

/-- `__qdivrem`, with the remainder it may be asked for. The arrays have what is in the stack before
they are written to. The division of 1 by 0 traps. -/
def qdivrem (stack : Nat → BitVec 16) (ull vll : BitVec 64) : Option (BitVec 64 × BitVec 64) :=
  if vll = 0 then none
  else if ull.ult vll then some (0, ull)
  else
    let u := unpack ull 0
    let v := unpack vll (stack 0).toNat
    match countDivisor v 4 0 with
    | .digit t => some (shortDivide u t)
    | .digits n pv => longDivide (fun i => (stack i).toNat) u v n pv

/-- `__udivdi3` -/
def udivdi3 (stack : Nat → BitVec 16) (a b : BitVec 64) : Option (BitVec 64) :=
  (qdivrem stack a b).map Prod.fst

/-- `__umoddi3` -/
def umoddi3 (stack : Nat → BitVec 16) (a b : BitVec 64) : Option (BitVec 64) :=
  (qdivrem stack a b).map Prod.snd

/-- `__divdi3` -/
def divdi3 (stack : Nat → BitVec 16) (a b : BitVec 64) : Option (BitVec 64) :=
  let ua := if a.msb then -a else a
  let ub := if b.msb then -b else b
  let neg := a.msb ^^ b.msb
  (qdivrem stack ua ub).map fun r => if neg then -r.1 else r.1

/-- `__moddi3`. The sign is that of the dividend. -/
def moddi3 (stack : Nat → BitVec 16) (a b : BitVec 64) : Option (BitVec 64) :=
  let ua := if a.msb then -a else a
  let ub := if b.msb then -b else b
  (qdivrem stack ua ub).map fun r => if a.msb then -r.2 else r.2

/-! ## Halves -/

section Halves

variable {x y a b sh : Nat}

theorem hhalf_eq (x : Nat) : hhalf x = x / 2 ^ 16 := Nat.shiftRight_eq_div_pow x 16

theorem lhalf_eq (x : Nat) : lhalf x = x % 2 ^ 16 := Nat.and_two_pow_sub_one_eq_mod x 16

theorem lhalf_lt (x : Nat) : lhalf x < 2 ^ 16 := by
  rw [lhalf_eq]
  exact Nat.mod_lt _ (by decide)

theorem combine_eq (ha : a < 2 ^ 16) (hb : b < 2 ^ 16) : combine a b = a * 2 ^ 16 + b := by
  have hlt : a * 2 ^ 16 < 2 ^ 32 := by omega
  rw [combine, Nat.shiftLeft_eq, Nat.mod_eq_of_lt hlt, Nat.mul_comm, Nat.two_pow_add_eq_or_of_lt hb]

theorem pow_split (h : sh ≤ 16) : 2 ^ 16 = 2 ^ sh * 2 ^ (16 - sh) := by
  rw [← pow_add, Nat.add_sub_cancel' h]

theorem shl_or_lt (x sh : Nat) (hy : y < 2 ^ 16) : lhalf x ||| (y >>> sh) < 2 ^ 16 :=
  Nat.or_lt_two_pow (lhalf_lt x) (Nat.lt_of_le_of_lt (Nat.shiftRight_le y sh) hy)

theorem update_lt {u : Digits} (hu : ∀ i, u i < 2 ^ 16) (hx : x < 2 ^ 16) (p i : Nat) :
    update u p x i < 2 ^ 16 := by
  rcases eq_or_ne i p with rfl | hne
  · rwa [Function.update_self]
  · rw [Function.update_of_ne hne]
    exact hu i

/-- The bits that a digit keeps, and those that it takes from another one. -/
theorem shl_digit (h : sh ≤ 16) (hy : y < 2 ^ 16) :
    lhalf (x <<< sh) ||| (y >>> (16 - sh)) =
      2 ^ sh * (x % 2 ^ (16 - sh)) + y / 2 ^ (16 - sh) := by
  have hlow : y / 2 ^ (16 - sh) < 2 ^ sh := by
    apply Nat.div_lt_of_lt_mul
    rwa [Nat.mul_comm, ← pow_split h]
  rw [lhalf_eq, Nat.shiftLeft_eq, Nat.shiftRight_eq_div_pow, pow_split h, Nat.mul_comm x,
    Nat.mul_mod_mul_left, Nat.two_pow_add_eq_or_of_lt hlow]

theorem shr_digit (h : sh ≤ 16) (hx : x < 2 ^ 16) :
    (x >>> sh) ||| lhalf (y <<< (16 - sh)) = 2 ^ (16 - sh) * (y % 2 ^ sh) + x / 2 ^ sh := by
  have hback : 16 - (16 - sh) = sh := by omega
  have hdigit := shl_digit (x := y) (y := x) (Nat.sub_le 16 sh) hx
  rw [hback] at hdigit
  rw [Nat.or_comm, hdigit]

end Halves

/-! ## The shifts -/

section Shifts

variable {sh d p k len : Nat} {a u : Digits}

theorem shl_of_lt {i : Nat} (h : i < p ∨ p + len < i) : shl sh len a p i = a i := by
  induction len generalizing a p with
  | zero => exact Function.update_of_ne (by omega) _ _
  | succ len ih =>
      rw [shl, ih (by omega)]
      exact Function.update_of_ne (by omega) _ _

theorem shl_lt (ha : ∀ i, a i < 2 ^ 16) (i : Nat) : shl sh len a p i < 2 ^ 16 := by
  induction len generalizing a p with
  | zero => exact update_lt ha (lhalf_lt _) p i
  | succ len ih =>
      rw [shl]
      apply ih
      exact update_lt ha (shl_or_lt _ _ (ha _)) p

/-- `shl` multiplies; bits that fall out are lost. -/
theorem value_shl (hsh : sh ≤ 16) (ha : ∀ i, a i < 2 ^ 16) :
    value (2 ^ 16) (shl sh len a p) p (len + 1) =
      value (2 ^ 16) a p (len + 1) * 2 ^ sh % (2 ^ 16) ^ (len + 1) := by
  have hpos : 0 < 2 ^ sh := Nat.pow_pos (by decide)
  induction len generalizing a p with
  | zero =>
      rw [value_one, value_one, pow_one, shl, Function.update_self, lhalf_eq, Nat.shiftLeft_eq]
  | succ len ih =>
      have hset := update_lt ha (shl_or_lt (a p <<< sh) (16 - sh) (ha (p + 1))) p
      rw [value_shift_left (pow_split hsh) hpos fun i _ => ha _, value_succ_first, shl, ih hset,
        shl_of_lt (.inl p.lt_succ_self), Function.update_self, shl_digit hsh (ha _),
        value_update_of_lt p.lt_succ_self]

theorem shr_of_lt {i : Nat} (h : i ≤ p ∨ p + k < i) : shr d p k u i = u i := by
  induction k generalizing u with
  | zero => rfl
  | succ k ih =>
      rw [shr, ih (by omega)]
      exact Function.update_of_ne (by omega) _ _

theorem shr_lt (hu : ∀ i, u i < 2 ^ 16) (i : Nat) : shr d p k u i < 2 ^ 16 := by
  induction k generalizing u with
  | zero => exact hu i
  | succ k ih =>
      rw [shr, Nat.or_comm]
      apply ih
      exact update_lt hu (shl_or_lt _ _ (hu _)) _

/-- The shift back divides; what stands in front of the digits goes into the first one. -/
theorem value_shr (hd : d ≤ 16) (hu : ∀ i, u i < 2 ^ 16) :
    value (2 ^ 16) (shr d p k u) (p + 1) k =
      value (2 ^ 16) u p (k + 1) / 2 ^ d % (2 ^ 16) ^ k := by
  have hpos : 0 < 2 ^ d := Nat.pow_pos (by decide)
  induction k generalizing u with
  | zero => rw [value_zero, pow_zero, Nat.mod_one]
  | succ k ih =>
      have hdigit := shr_digit (y := u (p + k)) hd (hu (p + 1 + k))
      have hplace : p + 1 + k = p + k + 1 := by omega
      have hset := update_lt hu (shl_or_lt (u (p + k) <<< (16 - d)) d (hu (p + 1 + k))) (p + 1 + k)
      rw [Nat.or_comm] at hset
      rw [value_shift_right (pow_split hd) hpos (hu _), value_succ, shr, ih hset,
        shr_of_lt (.inr (by omega)), Function.update_self, hdigit,
        value_update_of_le (by omega), hplace]

end Shifts

/-! ## The estimate -/

section Estimate

variable {v1 v2 uj0 uj1 uj2 qhat rhat : Nat}

/-- The loop ends at the largest digit that is not too large for the first three digits. -/
theorem refine_spec (hv2 : v2 < 2 ^ 16) (huj2 : uj2 < 2 ^ 16) (hqhat : qhat < 2 ^ 16)
    (hrhat : rhat < 2 ^ 16) (h : qhat * v1 + rhat = uj0 * 2 ^ 16 + uj1)
    (hbest : ∀ q < 2 ^ 16, q * (v1 * 2 ^ 16 + v2) ≤ (uj0 * 2 ^ 16 + uj1) * 2 ^ 16 + uj2 →
      q ≤ qhat) :
    refine v1 v2 uj2 qhat rhat < 2 ^ 16 ∧
      refine v1 v2 uj2 qhat rhat * (v1 * 2 ^ 16 + v2) ≤ (uj0 * 2 ^ 16 + uj1) * 2 ^ 16 + uj2 ∧
      ∀ q < 2 ^ 16, q * (v1 * 2 ^ 16 + v2) ≤ (uj0 * 2 ^ 16 + uj1) * 2 ^ 16 + uj2 →
        q ≤ refine v1 v2 uj2 qhat rhat := by
  induction qhat generalizing rhat with
  | zero => exact ⟨hqhat, by simp [refine], hbest⟩
  | succ qhat ih =>
      have hmul : (qhat + 1) * (v1 * 2 ^ 16 + v2) =
          (qhat + 1) * v1 * 2 ^ 16 + v2 * (qhat + 1) := by ring
      rw [refine, combine_eq hrhat huj2]
      by_cases hbig : rhat * 2 ^ 16 + uj2 < v2 * (qhat + 1)
      · -- `qhat + 1` is too large
        have hbest' : ∀ q < 2 ^ 16, q * (v1 * 2 ^ 16 + v2) ≤
            (uj0 * 2 ^ 16 + uj1) * 2 ^ 16 + uj2 → q ≤ qhat := by
          intro q hq hle
          rcases Nat.lt_or_eq_of_le (hbest q hq hle) with hlt | rfl
          · exact Nat.le_of_lt_succ hlt
          · rw [hmul] at hle
            omega
        have hnext : qhat * v1 + (rhat + v1) = uj0 * 2 ^ 16 + uj1 := by
          rw [← h]
          ring
        rw [if_pos hbig]
        by_cases hbreak : 2 ^ 16 ≤ rhat + v1
        · have hprod : v2 * qhat < 2 ^ 16 * 2 ^ 16 := Nat.mul_lt_mul'' hv2 (by omega)
          have hmul' : qhat * (v1 * 2 ^ 16 + v2) = qhat * v1 * 2 ^ 16 + v2 * qhat := by ring
          rw [if_pos hbreak]
          refine ⟨by omega, ?_, hbest'⟩
          rw [hmul']
          omega
        · rw [if_neg hbreak]
          exact ih (by omega) (by omega) hnext hbest'
      · rw [if_neg hbig]
        refine ⟨hqhat, ?_, hbest⟩
        rw [hmul]
        omega

/-- D3 finds the largest digit that is not too large for the first three digits. -/
theorem estimate_spec (hv1 : 2 ^ 15 ≤ v1) (hv1' : v1 < 2 ^ 16) (hv2 : v2 < 2 ^ 16)
    (huj0 : uj0 ≤ v1) (huj1 : uj1 < 2 ^ 16) (huj2 : uj2 < 2 ^ 16) :
    estimate v1 v2 uj0 uj1 uj2 < 2 ^ 16 ∧
      estimate v1 v2 uj0 uj1 uj2 * (v1 * 2 ^ 16 + v2) ≤ (uj0 * 2 ^ 16 + uj1) * 2 ^ 16 + uj2 ∧
      ∀ q < 2 ^ 16, q * (v1 * 2 ^ 16 + v2) ≤ (uj0 * 2 ^ 16 + uj1) * 2 ^ 16 + uj2 →
        q ≤ estimate v1 v2 uj0 uj1 uj2 := by
  have hpos : 0 < v1 := by omega
  rw [estimate]
  by_cases heq : uj0 = v1
  · -- the quotient of the first two digits is no digit
    have hbest : ∀ q < 2 ^ 16, q * (v1 * 2 ^ 16 + v2) ≤ (uj0 * 2 ^ 16 + uj1) * 2 ^ 16 + uj2 →
        q ≤ 2 ^ 16 - 1 := fun q hq _ => Nat.le_sub_one_of_lt hq
    rw [if_pos heq]
    by_cases hbreak : 2 ^ 16 ≤ uj1 + v1
    · rw [if_pos hbreak]
      refine ⟨by decide, ?_, hbest⟩
      omega
    · rw [if_neg hbreak]
      exact refine_spec hv2 huj2 (by decide) (by omega) (by omega) hbest
  · have hcombine : combine uj0 uj1 = uj0 * 2 ^ 16 + uj1 := combine_eq (by omega) huj1
    have hdiv := Nat.div_add_mod' (uj0 * 2 ^ 16 + uj1) v1
    have hmod := Nat.mod_lt (uj0 * 2 ^ 16 + uj1) hpos
    rw [if_neg heq, hcombine]
    apply refine_spec hv2 huj2 _ (by omega) hdiv
    · intro q hq hle
      exact (Nat.le_div_iff_mul_le hpos).2 (le_estimate hle huj2)
    · apply Nat.div_lt_of_lt_mul
      have huj : (uj0 + 1) * 2 ^ 16 ≤ v1 * 2 ^ 16 := Nat.mul_le_mul_right _ (by omega)
      omega

end Estimate

end Os161.Millicode.Qdivrem

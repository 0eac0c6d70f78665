import Os161.Millicode.Division

set_option autoImplicit false

/-!
# Quotients and remainders

`__qdivrem` gives the quotient and the remainder of any two numbers, whichever way it takes through
the program, and `common/gcc-millicode/divdi3.c`, `moddi3.c`, `udivdi3.c` and `umoddi3.c` those that
C has for the types `long long` and `unsigned long long`.
-/

namespace Os161.Millicode.Qdivrem

open Function (update)
open Os161.Lib.LongDivision

/-! ## Digits -/

section Packing

variable {a v u : Digits} {x : BitVec 64} {first m n p t : Nat}

theorem unpack_lt (x : BitVec 64) (hfirst : first < 2 ^ 16) (i : Nat) :
    unpack x first i < 2 ^ 16 := by
  have hhi := (UU.of x).hi.isLt
  have hlo := (UU.of x).lo.isLt
  rw [unpack.eq_def]
  split
  · rw [hhalf_eq]
    omega
  · exact lhalf_lt _
  · rw [hhalf_eq]
    omega
  · exact lhalf_lt _
  · exact hfirst

theorem value_four (a : Digits) :
    value (2 ^ 16) a 1 4 = ((a 1 * 2 ^ 16 + a 2) * 2 ^ 16 + a 3) * 2 ^ 16 + a 4 := by
  rw [value_succ, value_succ, value_succ, value_one]

/-- The four digits of a number. -/
theorem value_unpack (x : BitVec 64) (first : Nat) :
    value (2 ^ 16) (unpack x first) 1 4 = x.toNat := by
  have hx := x.isLt
  rw [value_four]
  simp only [unpack, hhalf_eq, lhalf_eq, UU.toNat_hi_of, UU.toNat_lo_of]
  omega

/-- The number of four digits. -/
theorem toNat_combine {w x y z : Nat} (hw : w < 2 ^ 16) (hx : x < 2 ^ 16) (hy : y < 2 ^ 16)
    (hz : z < 2 ^ 16) :
    (UU.ll ⟨BitVec.ofNat 32 (combine w x), BitVec.ofNat 32 (combine y z)⟩).toNat =
      ((w * 2 ^ 16 + x) * 2 ^ 16 + y) * 2 ^ 16 + z := by
  rw [UU.toNat_ll, BitVec.toNat_ofNat, BitVec.toNat_ofNat, combine_eq hw hx, combine_eq hy hz]
  omega

theorem toNat_pack (ha : ∀ i < 4, a (1 + i) < 2 ^ 16) :
    (pack a).toNat = value (2 ^ 16) a 1 4 := by
  rw [pack, value_four]
  exact toNat_combine (ha 0 (by decide)) (ha 1 (by decide)) (ha 2 (by decide)) (ha 3 (by decide))

/-! ## Leading zeros -/

theorem zeros_succ (hzero : ∀ i < p, a (1 + i) = 0) (h : a (p + 1) = 0) :
    ∀ i < p + 1, a (1 + i) = 0 := by
  intro i hi
  rcases Nat.lt_succ_iff_lt_or_eq.1 hi with hi | rfl
  · exact hzero i hi
  · rwa [Nat.add_comm]

/-- What the loop over the divisor finds. -/
theorem countDivisor_spec (hp : p + (n + 1) = 4) (hn : 1 ≤ n) (hzero : ∀ i < p, v (1 + i) = 0) :
    match countDivisor v (n + 1) p with
    | .digit t => t = v 4 ∧ ∀ i < 3, v (1 + i) = 0
    | .digits n' p' => p' + n' = 4 ∧ 2 ≤ n' ∧ v (p' + 1) ≠ 0 ∧ ∀ i < p', v (1 + i) = 0 := by
  induction n generalizing p with
  | zero => omega
  | succ n ih =>
      rw [countDivisor]
      split_ifs with hdigit hone
      · have hthree : p + 1 = 3 := by omega
        have hplace : p + 2 = 4 := by omega
        have hfront := zeros_succ hzero hdigit
        rw [hthree] at hfront
        exact ⟨congrArg v hplace, hfront⟩
      · exact ih (by omega) (by omega) (zeros_succ hzero hdigit)
      · exact ⟨hp, by omega, hdigit, hzero⟩

/-- What the loop over the dividend finds, if it is not smaller than the divisor. -/
theorem countDividend_spec (hzero : ∀ i < p, u (1 + i) = 0)
    (h : value (2 ^ 16) u (p + 1) (m + 1) ≠ 0) :
    ∃ m' p', countDividend u m p = some (m', p') ∧ m' + p' = m + p ∧ ∀ i < p', u (1 + i) = 0 := by
  induction m generalizing p with
  | zero =>
      rw [value_one] at h
      exact ⟨0, p, by rw [countDividend, if_neg h], rfl, hzero⟩
  | succ m ih =>
      rw [countDividend]
      by_cases hdigit : u (p + 1) = 0
      · rw [value_succ_first, hdigit, Nat.zero_mul, Nat.zero_add] at h
        obtain ⟨m', p', hcount, hsum, hzero'⟩ := ih (zeros_succ hzero hdigit) h
        exact ⟨m', p', by rw [if_pos hdigit, hcount], by omega, hzero'⟩
      · exact ⟨m + 1, p, by rw [if_neg hdigit], rfl, hzero⟩

/-- The shift that makes the first digit of the divisor large enough. -/
theorem countShift_spec {k d : Nat} (ht : t < 2 ^ 16) (h : 2 ^ 15 ≤ t * 2 ^ k) :
    ∃ e ≤ k, countShift (k + 1) t d = some (d + e) ∧ 2 ^ 15 ≤ t * 2 ^ e ∧ t * 2 ^ e < 2 ^ 16 := by
  induction k generalizing t d with
  | zero =>
      rw [pow_zero, Nat.mul_one] at h
      refine ⟨0, le_refl 0, ?_, by omega, by omega⟩
      rw [countShift, if_neg (by omega), Nat.add_zero]
  | succ k ih =>
      rw [countShift]
      by_cases hsmall : t < 2 ^ 15
      · have hmod : t * 2 % 2 ^ 32 = t * 2 := Nat.mod_eq_of_lt (by omega)
        have hpow : ∀ e, t * 2 * 2 ^ e = t * 2 ^ (e + 1) := by
          intro e
          rw [pow_succ, Nat.mul_assoc, Nat.mul_comm 2]
        obtain ⟨e, hle, hcount, hlow, hhigh⟩ :=
          ih (t := t * 2) (d := d + 1) (by omega) (by rwa [hpow])
        rw [hpow] at hlow hhigh
        refine ⟨e + 1, Nat.succ_le_succ hle, ?_, hlow, hhigh⟩
        rw [if_pos hsmall, hmod, hcount, Nat.add_right_comm, Nat.add_assoc]
      · refine ⟨0, Nat.zero_le _, ?_, by omega, by omega⟩
        rw [if_neg hsmall, Nat.add_zero]

theorem clear_of_le {k i : Nat} {q : Digits} (h : k ≤ i) : clear k q i = q i := by
  induction k generalizing q with
  | zero => rfl
  | succ k ih =>
      rw [clear, ih (Nat.le_of_succ_le h)]
      exact Function.update_of_ne (by omega) _ _

theorem clear_of_lt {k i : Nat} {q : Digits} (h : i < k) : clear k q i = 0 := by
  induction k generalizing q with
  | zero => exact absurd h (Nat.not_lt_zero i)
  | succ k ih =>
      rw [clear]
      rcases Nat.lt_succ_iff_lt_or_eq.1 h with h | rfl
      · exact ih h
      · rw [clear_of_le (le_refl i), Function.update_self]

end Packing

/-! ## The division by one digit -/

/-- One digit more: a digit of the quotient, and the next remainder. -/
theorem shortDivide_step {r t y : Nat} (hr : r < t) (ht : t < 2 ^ 16) (hy : y < 2 ^ 16) :
    ∃ q r', combine r y / t = q ∧ combine r y % t = r' ∧ q < 2 ^ 16 ∧ r' < t ∧
      r * 2 ^ 16 + y = q * t + r' := by
  have hpos : 0 < t := Nat.lt_of_le_of_lt (Nat.zero_le r) hr
  have hcombine := combine_eq (hr.trans ht) hy
  refine ⟨_, _, rfl, rfl, ?_, Nat.mod_lt _ hpos, ?_⟩
  · rw [hcombine]
    apply Nat.div_lt_of_lt_mul
    calc r * 2 ^ 16 + y < (r + 1) * 2 ^ 16 := by omega
      _ ≤ t * 2 ^ 16 := Nat.mul_le_mul_right _ hr
  · rw [hcombine, Nat.div_add_mod']

theorem shortDivide_spec {u : Digits} {t : Nat} (hu : ∀ i, u i < 2 ^ 16) (ht : t < 2 ^ 16)
    (hpos : 0 < t) :
    value (2 ^ 16) u 1 4 = (shortDivide u t).1.toNat * t + (shortDivide u t).2.toNat ∧
      (shortDivide u t).2.toNat < t := by
  have hq1 : u 1 / t < 2 ^ 16 := Nat.lt_of_le_of_lt (Nat.div_le_self _ _) (hu 1)
  have hr1 := Nat.mod_lt (u 1) hpos
  have hd1 := Nat.div_add_mod' (u 1) t
  rw [shortDivide]
  generalize u 1 / t = q1 at *
  generalize u 1 % t = r1 at *
  obtain ⟨q2, r2, hdiv2, hmod2, hq2, hr2, hd2⟩ := shortDivide_step hr1 ht (hu 2)
  rw [hdiv2, hmod2]
  obtain ⟨q3, r3, hdiv3, hmod3, hq3, hr3, hd3⟩ := shortDivide_step hr2 ht (hu 3)
  rw [hdiv3, hmod3]
  obtain ⟨q4, r4, hdiv4, hmod4, hq4, hr4, hd4⟩ := shortDivide_step hr3 ht (hu 4)
  rw [hdiv4, hmod4]
  have hall := quotient_step (quotient_step (quotient_step hd1.symm hd2) hd3) hd4
  have hdigit : ∀ x, x < 2 ^ 16 → lhalf x = x := by
    intro x hx
    rw [lhalf_eq, Nat.mod_eq_of_lt hx]
  have hrem : (BitVec.ofNat 64 r4).toNat = r4 := by
    rw [BitVec.toNat_ofNat]
    exact Nat.mod_eq_of_lt (hr4.trans (ht.trans (by decide)))
  rw [hdigit q1 hq1, hdigit q2 hq2, hdigit q3 hq3, hdigit q4 hq4]
  dsimp only
  rw [toNat_combine hq1 hq2 hq3 hq4, hrem, value_four]
  exact ⟨hall, hr4⟩

/-! ## The division by several digits -/

section Long

variable {u v q : Digits} {n m d pu pv : Nat}

/-- What is in the array of the divisor or of the dividend after D1. -/
def shifted (d k : Nat) (a : Digits) (p : Nat) : Digits :=
  if 0 < d then shl d k a p else a

theorem shifted_lt (d k p : Nat) (hu : ∀ i, u i < 2 ^ 16) (i : Nat) : shifted d k u p i < 2 ^ 16 := by
  rw [shifted]
  split_ifs
  · exact shl_lt hu i
  · exact hu i

theorem shifted_of_lt {k i : Nat} (hi : i < pu) : shifted d k u pu i = u i := by
  rw [shifted]
  split_ifs
  · exact shl_of_lt (.inl hi)
  · rfl

/-- Numbers that have room for the shift. -/
theorem value_shifted {k : Nat} (hu : ∀ i, u i < 2 ^ 16) (hd : d ≤ 16)
    (hroom : value (2 ^ 16) u pu (k + 1) * 2 ^ d < (2 ^ 16) ^ (k + 1)) :
    value (2 ^ 16) (shifted d k u pu) pu (k + 1) = value (2 ^ 16) u pu (k + 1) * 2 ^ d := by
  rw [shifted]
  split_ifs with hpos
  · rw [value_shl hd hu, Nat.mod_eq_of_lt hroom]
  · rw [Nat.eq_zero_of_not_pos hpos, pow_zero, Nat.mul_one]

/-- The divisor keeps its digits, and the first one is large enough after the shift. -/
theorem divisor_spec {k : Nat} (hv : ∀ i, v i < 2 ^ 16) (hd : d ≤ 15)
    (hlow : 2 ^ 15 ≤ v (pv + 1) * 2 ^ d) (hhigh : v (pv + 1) * 2 ^ d < 2 ^ 16) :
    value (2 ^ 16) (shifted d k v (pv + 1)) (pv + 1) (k + 1) =
        value (2 ^ 16) v (pv + 1) (k + 1) * 2 ^ d ∧
      2 ^ 15 ≤ shifted d k v (pv + 1) (pv + 1) := by
  have hV := value_succ_first (2 ^ 16) v (pv + 1) k
  have hrest : value (2 ^ 16) v (pv + 1 + 1) k < (2 ^ 16) ^ k := value_lt fun i _ => hv _
  have hsplit : 2 ^ 16 = 2 ^ (16 - d) * 2 ^ d := by
    rw [← pow_add, Nat.sub_add_cancel (by omega)]
  have hfirst : v (pv + 1) + 1 ≤ 2 ^ (16 - d) := by
    rw [hsplit] at hhigh
    exact Nat.lt_of_mul_lt_mul_right hhigh
  have hroom : value (2 ^ 16) v (pv + 1) (k + 1) * 2 ^ d < (2 ^ 16) ^ (k + 1) := by
    calc value (2 ^ 16) v (pv + 1) (k + 1) * 2 ^ d
        < (v (pv + 1) + 1) * (2 ^ 16) ^ k * 2 ^ d := by
          apply Nat.mul_lt_mul_of_pos_right _ (Nat.pow_pos (by decide))
          rw [hV, Nat.succ_mul]
          omega
      _ ≤ 2 ^ (16 - d) * (2 ^ 16) ^ k * 2 ^ d :=
          Nat.mul_le_mul_right _ (Nat.mul_le_mul_right _ hfirst)
      _ = (2 ^ 16) ^ (k + 1) := by
          rw [Nat.mul_right_comm, ← hsplit, pow_succ' (2 ^ 16) k]
  have hvalue : value (2 ^ 16) (shifted d k v (pv + 1)) (pv + 1) (k + 1) =
      value (2 ^ 16) v (pv + 1) (k + 1) * 2 ^ d := by
    exact value_shifted hv (by omega) hroom
  refine ⟨hvalue, ?_⟩
  -- a smaller first digit would make the number too small
  have hlt := shifted_lt d k (pv + 1) hv
  have hrest' : value (2 ^ 16) (shifted d k v (pv + 1)) (pv + 1 + 1) k < (2 ^ 16) ^ k :=
    value_lt fun i _ => hlt _
  rw [value_succ_first, hV, Nat.add_mul, Nat.mul_right_comm] at hvalue
  apply Nat.le_of_lt_succ
  apply Nat.lt_of_mul_lt_mul_right (a := (2 ^ 16) ^ k)
  have hle : 2 ^ 15 * (2 ^ 16) ^ k ≤ v (pv + 1) * 2 ^ d * (2 ^ 16) ^ k :=
    Nat.mul_le_mul_right _ hlow
  rw [Nat.succ_mul]
  omega

/-- `shifted` at the places from `pu` to 4, and that the first round can begin. -/
theorem dividend_spec (hu : ∀ i, u i < 2 ^ 16) (hfirst : u pu = 0) (hd : d ≤ 15)
    (hn : 1 ≤ n) :
    value (2 ^ 16) (shifted d (m + n) u pu) pu (n + (m + 1)) =
        value (2 ^ 16) u (pu + 1) (m + n) * 2 ^ d ∧
      value (2 ^ 16) (shifted d (m + n) u pu) pu n < 2 ^ 15 * (2 ^ 16) ^ (n - 1) := by
  have hU := value_succ_first (2 ^ 16) u pu (m + n)
  have hlt : value (2 ^ 16) u (pu + 1) (m + n) < (2 ^ 16) ^ (m + n) := value_lt fun i _ => hu _
  have hd' : 2 ^ d ≤ 2 ^ 15 := Nat.pow_le_pow_right (by decide) hd
  rw [hfirst, Nat.zero_mul, Nat.zero_add] at hU
  have hroom : value (2 ^ 16) u (pu + 1) (m + n) * 2 ^ d < (2 ^ 16) ^ (m + n) * 2 ^ 15 :=
    Nat.mul_lt_mul_of_lt_of_le hlt hd' (Nat.pow_pos (by decide))
  have hall : value (2 ^ 16) (shifted d (m + n) u pu) pu (m + n + 1) =
      value (2 ^ 16) u (pu + 1) (m + n) * 2 ^ d := by
    rw [← hU]
    apply value_shifted hu (by omega)
    rw [hU, pow_succ]
    exact hroom.trans_le (Nat.mul_le_mul_left _ (by decide))
  have hplace : n + (m + 1) = m + n + 1 := by omega
  refine ⟨by rw [hplace, hall], ?_⟩
  -- the first `n` digits are the quotient by a power of the base
  apply Nat.lt_of_mul_lt_mul_right (a := (2 ^ 16) ^ (m + 1))
  have hfront := value_add (2 ^ 16) (shifted d (m + n) u pu) pu n (m + 1)
  rw [hplace, hall] at hfront
  have hpow : (2 ^ 16) ^ (m + n) * 2 ^ 15 = 2 ^ 15 * (2 ^ 16) ^ (n - 1) * (2 ^ 16) ^ (m + 1) := by
    have hexp : m + n = n - 1 + (m + 1) := by omega
    rw [hexp, pow_add, Nat.mul_comm _ (2 ^ 15), Nat.mul_assoc]
  rw [← hpow]
  exact Nat.lt_of_le_of_lt (by omega) hroom

/-- The digits that are left, shifted back: they are `d` bits too far to the left. -/
theorem remainder_spec {r p : Nat} (hu : ∀ i, u i < 2 ^ 16) (hd : d ≤ 16) (hp : p + n = 4)
    (hzero : ∀ i, 1 ≤ i → i < p → u i = 0)
    (hvalue : value (2 ^ 16) u p (n + 1) = r * 2 ^ d) (hroom : r * 2 ^ d < (2 ^ 16) ^ n) :
    (pack (if 0 < d then update (shr d p n u) p 0 else u)).toNat = r := by
  have hpos : 0 < 2 ^ d := Nat.pow_pos (by decide)
  have hfour : 4 = p + n := hp.symm
  have hfirst : u p = 0 := by
    have hlt : value (2 ^ 16) u p (1 + n) < (2 ^ 16) ^ n := by rwa [Nat.add_comm, hvalue]
    have hfront := value_front (by decide) hlt
    rwa [value_one] at hfront
  split_ifs with hshift
  · have hlt := update_lt (shr_lt (d := d) (p := p) (k := n) hu) (show 0 < 2 ^ 16 by decide) p
    have hfront : ∀ i < p, update (shr d p n u) p 0 (1 + i) = 0 := by
      intro i hi
      rcases eq_or_ne (1 + i) p with heq | hne
      · rw [heq, Function.update_self]
      · rw [Function.update_of_ne hne, shr_of_lt (.inl (by omega))]
        exact hzero _ (by omega) (by omega)
    have hr : r < (2 ^ 16) ^ n := Nat.lt_of_le_of_lt (Nat.le_mul_of_pos_right r hpos) hroom
    rw [toNat_pack fun i _ => hlt _, hfour, value_skip hfront, Nat.add_comm 1 p,
      value_update_of_lt p.lt_succ_self, value_shr hd hu, hvalue, Nat.mul_div_cancel _ hpos,
      Nat.mod_eq_of_lt hr]
  · have hfront : ∀ i < p, u (1 + i) = 0 := by
      intro i hi
      rcases eq_or_ne (1 + i) p with heq | hne
      · rwa [heq]
      · exact hzero _ (by omega) (by omega)
    rw [toNat_pack fun i _ => hu _, hfour, value_skip hfront, Nat.add_comm 1 p]
    rw [value_succ_first, hfirst, Nat.zero_mul, Nat.zero_add, Nat.eq_zero_of_not_pos hshift,
      pow_zero, Nat.mul_one] at hvalue
    exact hvalue

theorem longDivide_eq {s : Digits × Digits} (hm : countDividend u (4 - n) 0 = some (m, pu))
    (hd : countShift 16 (v (pv + 1)) 0 = some d)
    (hs : divideAll (shifted d (n - 1) v (pv + 1)) n pv (m + 1) pu (4 - m)
      (shifted d (m + n) u pu) (clear (4 - m) q) = s) :
    longDivide q u v n pv = some (pack s.2,
      pack (if 0 < d then update (shr d (pu + m) n s.1) (pu + m) 0 else s.1)) := by
  rw [longDivide, hm, Option.bind_some, hd, Option.map_some, ← hs]
  rfl

/-- The whole of Program D. -/
theorem longDivide_spec (hu : ∀ i, u i < 2 ^ 16) (hu0 : u 0 = 0) (hv : ∀ i, v i < 2 ^ 16)
    (hpv : pv + n = 4) (hn : 2 ≤ n) (hv1 : v (pv + 1) ≠ 0) (hvzero : ∀ i < pv, v (1 + i) = 0)
    (hle : value (2 ^ 16) v 1 4 ≤ value (2 ^ 16) u 1 4) :
    ∃ s, longDivide q u v n pv = some s ∧
      value (2 ^ 16) u 1 4 = s.1.toNat * value (2 ^ 16) v 1 4 + s.2.toNat ∧
      s.2.toNat < value (2 ^ 16) v 1 4 := by
  have hV : value (2 ^ 16) v 1 4 = value (2 ^ 16) v (pv + 1) n := by
    rw [← hpv, value_skip hvzero, Nat.add_comm 1 pv]
  obtain ⟨k, rfl⟩ := Nat.exists_eq_add_of_le' (Nat.le_of_succ_le hn)
  have hVge : (2 ^ 16) ^ k ≤ value (2 ^ 16) v 1 4 := by
    rw [hV, value_succ_first]
    exact (Nat.le_mul_of_pos_left _ (Nat.pos_of_ne_zero hv1)).trans (Nat.le_add_right _ _)
  -- the dividend has at most as many leading zeros as the divisor
  have hUne : value (2 ^ 16) u (0 + 1) (4 - (k + 1) + 1) ≠ 0 := by
    intro hzero
    have hfour : 4 = (4 - (k + 1) + 1) + k := by omega
    have hlt : value (2 ^ 16) u (1 + (4 - (k + 1) + 1)) k < (2 ^ 16) ^ k := value_lt fun i _ => hu _
    rw [hfour, value_add (2 ^ 16) u, hzero, Nat.zero_mul, Nat.zero_add, ← hfour] at hle
    omega
  obtain ⟨m, pu, hdividend, hsum, huzero⟩ :=
    countDividend_spec (fun i hi => absurd hi (Nat.not_lt_zero i)) hUne
  have hshift : 2 ^ 15 ≤ v (pv + 1) * 2 ^ 15 := Nat.le_mul_of_pos_left _ (Nat.pos_of_ne_zero hv1)
  obtain ⟨d, hd, hcount, hlow, hhigh⟩ := countShift_spec (d := 0) (hv (pv + 1)) hshift
  rw [Nat.zero_add] at hcount
  have hupu : u pu = 0 := by
    cases pu with
    | zero => exact hu0
    | succ i =>
        rw [Nat.add_comm]
        exact huzero i i.lt_succ_self
  have hU : value (2 ^ 16) u 1 4 = value (2 ^ 16) u (pu + 1) (m + (k + 1)) := by
    have hfour : 4 = pu + (m + (k + 1)) := by omega
    rw [hfour, value_skip huzero, Nat.add_comm 1 pu]
  obtain ⟨hvalueU, hfrontU⟩ :=
    dividend_spec (d := d) (m := m) (n := k + 1) hu hupu hd (Nat.succ_pos k)
  obtain ⟨hvalueV, hfirstV⟩ := divisor_spec (k := k) hv hd hlow hhigh
  have hltV := shifted_lt d k (pv + 1) hv
  have hltU := shifted_lt d (m + (k + 1)) pu hu
  have hframe : ∀ i < pu, shifted d (m + (k + 1)) u pu i = u i :=
    fun i hi => shifted_of_lt hi
  refine ⟨_, longDivide_eq hdividend hcount rfl, ?_⟩
  dsimp only
  rw [Nat.add_sub_cancel]
  generalize shifted d (m + (k + 1)) u pu = u' at *
  generalize shifted d k v (pv + 1) = v' at *
  have hbegin : value (2 ^ 16) u' pu (k + 1) < value (2 ^ 16) v' (pv + 1) (k + 1) := by
    have hmul := Nat.mul_le_mul_right ((2 ^ 16) ^ k) hfirstV
    rw [Nat.add_sub_cancel] at hfrontU
    rw [value_succ_first _ v']
    omega
  have hrounds := divideAll_spec (k := m + 1) pu (4 - m) (clear (4 - m) q) hltU (fun i _ => hltV _)
    hn hfirstV hbegin
  generalize divideAll v' (k + 1) pv (m + 1) pu (4 - m) u' (clear (4 - m) q) = s at *
  have hleft := hrounds.left_lt
  have hall := hrounds.value_eq
  have hVlt : value (2 ^ 16) v' (pv + 1) (k + 1) < (2 ^ 16) ^ (k + 1) := value_lt fun i _ => hltV _
  rw [hvalueV] at hleft hVlt
  rw [hvalueU, hvalueV] at hall
  rw [hU, hV]
  generalize hQ : value (2 ^ 16) s.2 (4 - m) (m + 1) = Q at *
  generalize value (2 ^ 16) u (pu + 1) (m + (k + 1)) = U at *
  generalize value (2 ^ 16) v (pv + 1) (k + 1) = V at *
  -- the quotient
  have hdigits : ∀ i < 4, s.2 (1 + i) < 2 ^ 16 := by
    intro i hi
    by_cases hclear : 1 + i < 4 - m
    · rw [hrounds.quotient_frame _ (.inl hclear), clear_of_lt hclear]
      decide
    · have hplace : 1 + i = 4 - m + (1 + i - (4 - m)) := by omega
      rw [hplace]
      exact hrounds.quotient_lt _ (by omega)
  have hquot : (pack s.2).toNat = Q := by
    have hfour : 4 = 3 - m + (m + 1) := by omega
    have hplace : 1 + (3 - m) = 4 - m := by omega
    have hclear : ∀ i < 3 - m, s.2 (1 + i) = 0 := by
      intro i hi
      rw [hrounds.quotient_frame _ (.inl (by omega)), clear_of_lt (by omega)]
    rw [toNat_pack hdigits, hfour, value_skip hclear, hplace, ← hQ]
  -- the remainder
  have hpos : 0 < 2 ^ d := Nat.pow_pos (by decide)
  have hle' : Q * V ≤ U := by
    apply Nat.le_of_mul_le_mul_right _ hpos
    rw [hall, Nat.mul_assoc]
    exact Nat.le_add_right _ _
  have hR : value (2 ^ 16) s.1 pu (k + 1 + (m + 1)) = (U - Q * V) * 2 ^ d := by
    rw [Nat.sub_mul, hall, Nat.mul_assoc, Nat.add_sub_cancel_left]
  have hrem : U - Q * V < V := by
    apply Nat.lt_of_mul_lt_mul_right (a := 2 ^ d)
    rwa [← hR]
  have hplace : k + 1 + (m + 1) = m + (k + 1 + 1) := by omega
  have hzeros : ∀ i < m, s.1 (pu + i) = 0 := by
    have hlt : value (2 ^ 16) s.1 pu (m + (k + 1 + 1)) < (2 ^ 16) ^ (k + 1 + 1) := by
      rw [← hplace, hR]
      calc _ < V * 2 ^ d := Nat.mul_lt_mul_of_pos_right hrem hpos
        _ < (2 ^ 16) ^ (k + 1) := hVlt
        _ ≤ (2 ^ 16) ^ (k + 1 + 1) := Nat.pow_le_pow_right (by decide) (Nat.le_succ _)
    exact digit_of_value_zero (by decide) (value_front (by decide) hlt)
  have hback : (pack (if 0 < d then update (shr d (pu + m) (k + 1) s.1) (pu + m) 0 else s.1)).toNat =
      U - Q * V := by
    apply remainder_spec hrounds.lt (by omega) (by omega)
    · intro i hone hi
      by_cases hfront : i < pu
      · have hi' : i = 1 + (i - 1) := by omega
        rw [hrounds.frame i (.inl hfront), hframe i hfront, hi']
        exact huzero (i - 1) (by omega)
      · have hi' : i = pu + (i - pu) := by omega
        rw [hi']
        exact hzeros (i - pu) (by omega)
    · rw [← hR, hplace, value_skip hzeros]
    · exact (Nat.mul_lt_mul_of_pos_right hrem hpos).trans hVlt
  rw [hquot, hback]
  exact ⟨(Nat.add_sub_cancel' hle').symm, hrem⟩

end Long

/-! ## The functions that C calls -/

section Correct

variable {ull vll : BitVec 64}

/-- `__qdivrem` divides. -/
theorem qdivrem_eq (stack : Nat → BitVec 16) (ull : BitVec 64) (h : vll ≠ 0) :
    qdivrem stack ull vll = some (ull / vll, ull % vll) := by
  have hpos : 0 < vll.toNat := by
    apply Nat.pos_of_ne_zero
    intro hzero
    exact h (BitVec.eq_of_toNat_eq hzero)
  -- quotient and remainder are what their equation says
  have hunique : ∀ s : BitVec 64 × BitVec 64, ull.toNat = s.1.toNat * vll.toNat + s.2.toNat →
      s.2.toNat < vll.toNat → s = (ull / vll, ull % vll) := by
    intro s heq hlt
    apply Prod.ext
    · apply BitVec.eq_of_toNat_eq
      rw [BitVec.toNat_udiv, heq, Nat.mul_comm, Nat.mul_add_div hpos, Nat.div_eq_of_lt hlt,
        Nat.add_zero]
    · apply BitVec.eq_of_toNat_eq
      rw [BitVec.toNat_umod, heq, Nat.mul_comm, Nat.mul_add_mod, Nat.mod_eq_of_lt hlt]
  rw [qdivrem, if_neg h]
  by_cases hless : ull.ult vll
  · rw [if_pos hless]
    have hlt := BitVec.ult_iff_lt.1 hless
    congr 1
    apply hunique
    · simp
    · exact hlt
  · have hle : vll.toNat ≤ ull.toNat := by
      apply Nat.not_lt.1
      exact fun hlt => hless (BitVec.ult_iff_lt.2 hlt)
    have hu := unpack_lt ull (show 0 < 2 ^ 16 by decide)
    have hv := unpack_lt vll (stack 0).isLt
    have hspec := countDivisor_spec (v := unpack vll (stack 0).toNat) (p := 0) (n := 3) rfl (by decide)
      fun i hi => absurd hi (Nat.not_lt_zero i)
    rw [if_neg hless]
    dsimp only
    cases hcount : countDivisor (unpack vll (stack 0).toNat) 4 0 with
    | digit t =>
        rw [hcount] at hspec
        obtain ⟨ht, hzero⟩ := hspec
        have hvalue : vll.toNat = t := by
          rw [← value_unpack vll (stack 0).toNat, ht]
          exact (value_skip hzero).trans (value_one _ _ _)
        obtain ⟨heq, hlt⟩ := shortDivide_spec hu (t := t) (by rw [ht]; exact hv 4) (by omega)
        dsimp only
        congr 1
        apply hunique
        · rw [hvalue, ← heq, value_unpack]
        · rwa [hvalue]
    | digits n pv =>
        rw [hcount] at hspec
        obtain ⟨hsum, hn, hv1, hzero⟩ := hspec
        obtain ⟨s, hs, heq, hlt⟩ := longDivide_spec (q := fun i => (stack i).toNat) hu rfl hv hsum hn
          hv1 hzero (by rwa [value_unpack, value_unpack])
        rw [value_unpack, value_unpack] at heq
        rw [value_unpack] at hlt
        dsimp only
        rw [hs]
        exact congrArg some (hunique s heq hlt)

/-- The quotients and remainders of C: for the signed types the quotient is rounded to zero, and the
remainder has the sign of the dividend. -/
theorem divisions_eq (stack : Nat → BitVec 16) (a : BitVec 64) {b : BitVec 64} (h : b ≠ 0) :
    udivdi3 stack a b = some (a / b) ∧ umoddi3 stack a b = some (a % b) ∧
      divdi3 stack a b = some (a.sdiv b) ∧ moddi3 stack a b = some (a.srem b) := by
  have hub : (if b.msb then -b else b) ≠ 0 := by
    cases b.msb with
    | false => exact h
    | true => exact fun hneg => h (BitVec.neg_eq_zero_iff.1 hneg)
  refine ⟨?_, ?_, ?_, ?_⟩
  · rw [udivdi3, qdivrem_eq stack a h, Option.map_some]
  · rw [umoddi3, qdivrem_eq stack a h, Option.map_some]
  · rw [divdi3, qdivrem_eq stack _ hub, Option.map_some, BitVec.sdiv_eq]
    cases a.msb <;> cases b.msb <;> rfl
  · rw [moddi3, qdivrem_eq stack _ hub, Option.map_some, BitVec.srem_eq]
    cases a.msb <;> cases b.msb <;> rfl

/-- A division whose first estimate is too large, so that the divisor is added back. -/
theorem divisions_eq_addBack :
    udivdi3 (fun _ => 0xffff) 0x800000000003 0x200000000001 = some 3 ∧
      umoddi3 (fun _ => 0xffff) 0x800000000003 0x200000000001 = some 0x200000000000 ∧
      divdi3 (fun _ => 0xffff) 0x800000000003 0x200000000001 = some 3 ∧
      moddi3 (fun _ => 0xffff) 0x800000000003 0x200000000001 = some 0x200000000000 :=
  divisions_eq (fun _ => 0xffff) 0x800000000003 (b := 0x200000000001) (by decide)

end Correct

end Os161.Millicode.Qdivrem

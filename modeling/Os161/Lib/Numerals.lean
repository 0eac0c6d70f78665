import Mathlib.Data.Nat.Digits.Lemmas

set_option autoImplicit false

/-!
# Numerals in a base

Strings of digits with the most significant digit first. A number has many of them in a base, by
leading zeros; `numeral` is the one that repeated division gives, and it is the shortest
(`numeral_isShortest`).
-/

namespace Os161.Lib.Numerals

/-- The value of a string of digits in base `b`. -/
def value (b : Nat) (ds : List Nat) : Nat := ds.foldl (fun n d => b * n + d) 0

/-- `ds` stands for `n` in base `b`. -/
structure IsNumeral (b : Nat) (ds : List Nat) (n : Nat) : Prop where
  ne_nil : ds ≠ []
  digit_lt : ∀ d ∈ ds, d < b
  value_eq : value b ds = n

/-- `ds` stands for `n` in base `b`, and no shorter string of digits does. -/
structure IsShortest (b : Nat) (ds : List Nat) (n : Nat) : Prop extends IsNumeral b ds n where
  length_le : ∀ ds', IsNumeral b ds' n → ds.length ≤ ds'.length

/-- The digits of `n` in base `b` without leading zeros; zero has one digit. -/
def numeral (b n : Nat) : List Nat := if n = 0 then [0] else (Nat.digits b n).reverse

section Numerals

variable {b n : Nat}

theorem value_eq_ofDigits (b : Nat) (ds : List Nat) :
    value b ds = Nat.ofDigits b ds.reverse := by
  rw [value, Nat.ofDigits_eq_foldr, List.foldr_reverse]
  simp [Nat.add_comm]

/-- The digits so far count for no more than what more digits make of them. -/
theorem le_foldl (hb : 0 < b) (ds : List Nat) :
    ∀ m, m ≤ ds.foldl (fun n d => b * n + d) m := by
  induction ds with
  | nil => exact fun m => Nat.le_refl m
  | cons d ds ih =>
      intro m
      have hm : m ≤ b * m := Nat.le_mul_of_pos_left m hb
      exact Nat.le_trans (Nat.le_trans hm (Nat.le_add_right _ d)) (ih (b * m + d))

theorem numeral_of_lt (h : n < b) : numeral b n = [n] := by
  by_cases hn : n = 0
  · rw [numeral, if_pos hn, hn]
  · rw [numeral, if_neg hn, Nat.digits_of_lt b n hn h]
    rfl

/-- One step of the division: the last digit, behind the numeral of the quotient. -/
theorem numeral_div (hb : 1 < b) (h : b ≤ n) : numeral b n = numeral b (n / b) ++ [n % b] := by
  have hn : n ≠ 0 := by omega
  have hdiv : n / b ≠ 0 := Nat.ne_of_gt (Nat.div_pos h (by omega))
  rw [numeral, if_neg hn, numeral, if_neg hdiv, Nat.digits_eq_cons_digits_div hb hn,
    List.reverse_cons]

theorem length_numeral_le (hb : 1 < b) {k : Nat} (hk : 0 < k) (h : n < b ^ k) :
    (numeral b n).length ≤ k := by
  by_cases hn : n = 0
  · rw [numeral, if_pos hn]
    exact hk
  · rw [numeral, if_neg hn, List.length_reverse]
    exact (Nat.digits_length_le_iff hb n).2 h

theorem numeral_isNumeral (hb : 1 < b) (n : Nat) : IsNumeral b (numeral b n) n := by
  by_cases hn : n = 0
  · rw [numeral, if_pos hn, hn]
    exact ⟨List.cons_ne_nil _ _, by simp; omega, rfl⟩
  · rw [numeral, if_neg hn]
    refine ⟨?_, ?_, ?_⟩
    · simpa using Nat.digits_ne_nil_iff_ne_zero.2 hn
    · intro d hd
      exact Nat.digits_lt_base hb (List.mem_reverse.1 hd)
    · rw [value_eq_ofDigits, List.reverse_reverse, Nat.ofDigits_digits]

/-- A number below `b ^ k` needs `k` digits at most, and `k` digits reach no further. -/
theorem numeral_isShortest (hb : 1 < b) (n : Nat) : IsShortest b (numeral b n) n := by
  refine ⟨numeral_isNumeral hb n, fun ds h => ?_⟩
  have hpos : 0 < ds.length := List.length_pos_iff.2 h.ne_nil
  apply length_numeral_le hb hpos
  have hlt : Nat.ofDigits b ds.reverse < b ^ ds.reverse.length :=
    Nat.ofDigits_lt_base_pow_length hb fun d hd => h.digit_lt d (List.mem_reverse.1 hd)
  rwa [← value_eq_ofDigits, h.value_eq, List.length_reverse] at hlt

end Numerals

end Os161.Lib.Numerals

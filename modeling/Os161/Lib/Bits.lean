import Mathlib.Data.Nat.Bitwise
import Mathlib.Logic.Function.Basic
import Mathlib.Tactic.IntervalCases

set_option autoImplicit false

/-!
# Bits in bytes

`mask o` is the byte with bit `o` alone. Setting and clearing a bit with it, and testing a byte for
it, are said by `Nat.testBit`. `bitAt data b` is bit `b` of an array of bytes, eight bits a byte;
arrays with the same bits are the same.
-/

namespace Os161.Lib.Bits

/-- `1 << o`. -/
def mask (o : Nat) : UInt8 := 1 <<< UInt8.ofNat o

variable {w w' : UInt8} {o j : Nat} {x : Bool}

theorem toNat_mask (ho : o < 8) : (mask o).toNat = 2 ^ o := by
  interval_cases o <;> rfl

theorem testBit_or_mask (ho : o < 8) :
    (w ||| mask o).toNat.testBit j = if j = o then true else w.toNat.testBit j := by
  rw [UInt8.toNat_or, Nat.testBit_or, toNat_mask ho, Nat.testBit_two_pow]
  split_ifs with hj
  · simp [hj]
  · simp [Ne.symm hj]

theorem testBit_not_mask (ho : o < 8) (hj : j < 8) :
    (~~~mask o).toNat.testBit j = decide (j ≠ o) := by
  interval_cases o <;> interval_cases j <;> rfl

theorem testBit_and_not_mask (ho : o < 8) (hj : j < 8) :
    (w &&& ~~~mask o).toNat.testBit j = if j = o then false else w.toNat.testBit j := by
  rw [UInt8.toNat_and, Nat.testBit_and, testBit_not_mask ho hj]
  split_ifs with heq
  · simp [heq]
  · simp [heq]

theorem and_mask_eq_zero (ho : o < 8) : w &&& mask o = 0 ↔ w.toNat.testBit o = false := by
  rw [← UInt8.toNat_inj, UInt8.toNat_and, toNat_mask ho, UInt8.toNat_zero, Nat.and_two_pow]
  cases w.toNat.testBit o with
  | false => simp
  | true => simp

/-- A word without a clear bit. -/
theorem eq_ff (h : ∀ j < 8, w.toNat.testBit j = true) : w = 0xff := by
  refine UInt8.toNat_inj.1 (Nat.eq_of_testBit_eq fun j => ?_)
  by_cases hj : j < 8
  · rw [h j hj]
    interval_cases j <;> rfl
  · have hle : 2 ^ 8 ≤ 2 ^ j := Nat.pow_le_pow_right (by decide) (Nat.not_lt.1 hj)
    rw [Nat.testBit_lt_two_pow (Nat.lt_of_lt_of_le w.toNat_lt hle),
      Nat.testBit_lt_two_pow (Nat.lt_of_lt_of_le (UInt8.toNat_lt _) hle)]

theorem testBit_ff (hj : j < 8) : (0xff : UInt8).toNat.testBit j = true := by
  interval_cases j <;> rfl

/-- Bytes with the same bits. -/
theorem ext_testBit (h : ∀ j < 8, w.toNat.testBit j = w'.toNat.testBit j) : w = w' := by
  refine UInt8.toNat_inj.1 (Nat.eq_of_testBit_eq fun j => ?_)
  by_cases hj : j < 8
  · exact h j hj
  · have hle : 2 ^ 8 ≤ 2 ^ j := Nat.pow_le_pow_right (by decide) (Nat.not_lt.1 hj)
    rw [Nat.testBit_lt_two_pow (Nat.lt_of_lt_of_le w.toNat_lt hle),
      Nat.testBit_lt_two_pow (Nat.lt_of_lt_of_le w'.toNat_lt hle)]

/-- Bytes without a common bit. -/
theorem and_eq_zero (h : ∀ j < 8, w.toNat.testBit j = true → w'.toNat.testBit j = false) :
    w &&& w' = 0 := by
  refine ext_testBit fun j hj => ?_
  rw [UInt8.toNat_and, Nat.testBit_and, UInt8.toNat_zero, Nat.zero_testBit]
  cases hw : w.toNat.testBit j with
  | false => rfl
  | true => rw [h j hj hw, Bool.and_false]

/-! ## Arrays of bytes -/

variable {data data' : Nat → UInt8} {b c : Nat}

/-- Bit `b`. -/
def bitAt (data : Nat → UInt8) (b : Nat) : Bool := (data (b / 8)).toNat.testBit (b % 8)

theorem bitAt_byte (data : Nat → UInt8) (i : Nat) (hj : j < 8) :
    bitAt data (8 * i + j) = (data i).toNat.testBit j := by
  rw [bitAt, Nat.mul_add_div (by decide), Nat.div_eq_of_lt hj, Nat.add_zero, Nat.mul_add_mod,
    Nat.mod_eq_of_lt hj]

/-- Arrays with the same bits. -/
theorem ext_bitAt (h : ∀ b, bitAt data b = bitAt data' b) : data = data' := by
  funext i
  refine ext_testBit fun j hj => ?_
  rw [← bitAt_byte data i hj, ← bitAt_byte data' i hj]
  exact h _

theorem bitAt_update (hw : ∀ j < 8, w.toNat.testBit j =
      if j = b % 8 then x else (data (b / 8)).toNat.testBit j) :
    bitAt (Function.update data (b / 8) w) c = if c = b then x else bitAt data c := by
  rw [bitAt, bitAt]
  by_cases hword : c / 8 = b / 8
  · have hsame : c % 8 = b % 8 ↔ c = b := by omega
    rw [hword, Function.update_self, hw _ (Nat.mod_lt c (by decide))]
    exact if_congr hsame rfl rfl
  · have hne : c ≠ b := fun e => hword (congrArg (· / 8) e)
    rw [Function.update_of_ne hword, if_neg hne]

@[simp] theorem bitAt_set :
    bitAt (Function.update data (b / 8) (data (b / 8) ||| mask (b % 8))) c =
      if c = b then true else bitAt data c :=
  bitAt_update fun _ _ => testBit_or_mask (Nat.mod_lt b (by decide))

@[simp] theorem bitAt_clear :
    bitAt (Function.update data (b / 8) (data (b / 8) &&& ~~~mask (b % 8))) c =
      if c = b then false else bitAt data c :=
  bitAt_update fun _ hj => testBit_and_not_mask (Nat.mod_lt b (by decide)) hj

theorem and_mask_bitAt : data (b / 8) &&& mask (b % 8) ≠ 0 ↔ bitAt data b = true := by
  rw [ne_eq, and_mask_eq_zero (Nat.mod_lt b (by decide)), bitAt, Bool.not_eq_false]

end Os161.Lib.Bits

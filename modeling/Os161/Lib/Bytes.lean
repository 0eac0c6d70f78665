import Mathlib.Data.Nat.Bitwise
import Mathlib.Tactic.Common

set_option autoImplicit false

/-!
# Bytes of a number

`byte n i` is byte `i` of the number `n`, the least significant one first. A term that masks one byte
and shifts it puts that byte in one place and zeros in all others (`byte_moveLeft`,
`byte_moveRight`), and numbers below `256 ^ k` with the same `k` bytes are equal (`ext_byte`).
-/

namespace Os161.Lib.Bytes

/-- Byte `i` of `n`. -/
def byte (n i : Nat) : Nat := n / 2 ^ (8 * i) % 2 ^ 8

variable {m n i j k s w : Nat}

theorem byte_lt : byte n i < 2 ^ 8 := Nat.mod_lt _ (Nat.two_pow_pos 8)

theorem testBit_byte : (byte n i).testBit j = (decide (j < 8) && n.testBit (8 * i + j)) := by
  rw [byte, Nat.testBit_mod_two_pow, Nat.testBit_div_two_pow, Nat.add_comm j]

@[simp] theorem byte_zero : byte 0 i = 0 := by rw [byte, Nat.zero_div, Nat.zero_mod]

@[simp] theorem byte_or : byte (m ||| n) i = byte m i ||| byte n i := by
  apply Nat.eq_of_testBit_eq
  intro j
  rw [Nat.testBit_or, testBit_byte, testBit_byte, testBit_byte, Nat.testBit_or]
  exact Bool.and_or_distrib_left ..

@[simp] theorem byte_and : byte (m &&& n) i = byte m i &&& byte n i := by
  apply Nat.eq_of_testBit_eq
  intro j
  rw [Nat.testBit_and, testBit_byte, testBit_byte, testBit_byte, Nat.testBit_and]
  cases decide (j < 8) <;> rfl

theorem byte_shiftLeft : byte (n <<< (8 * s)) i = if s ≤ i then byte n (i - s) else 0 := by
  apply Nat.eq_of_testBit_eq
  intro j
  rw [testBit_byte, Nat.testBit_shiftLeft]
  split_ifs with hi
  · have hplace : 8 * i + j - 8 * s = 8 * (i - s) + j := by omega
    have hle : 8 * s ≤ 8 * i + j := by omega
    simp [testBit_byte, hplace, hle]
  · rw [Nat.zero_testBit]
    by_cases hj : j < 8
    · have hout : ¬ 8 * s ≤ 8 * i + j := by omega
      simp [hout]
    · simp [hj]

theorem byte_shiftRight : byte (n >>> (8 * s)) i = byte n (s + i) := by
  apply Nat.eq_of_testBit_eq
  intro j
  rw [testBit_byte, Nat.testBit_shiftRight, testBit_byte, ← Nat.add_assoc, Nat.mul_add]

/-- A byte under a mask of ones. -/
theorem byte_and_ones : byte n i &&& 255 = byte n i := by
  rw [show 255 = 2 ^ 8 - 1 from rfl, Nat.and_two_pow_sub_one_eq_mod, Nat.mod_eq_of_lt byte_lt]

/-- Bit `i` of a mask for byte `k`. -/
theorem testBit_mask : (0xff <<< (8 * k)).testBit i = decide (8 * k ≤ i ∧ i < 8 * k + 8) := by
  rw [Nat.testBit_shiftLeft, show (0xff : Nat) = 2 ^ 8 - 1 from rfl, Nat.testBit_two_pow_sub_one,
    Bool.decide_and]
  congr 1
  rw [decide_eq_decide]
  omega

theorem byte_mod : byte (n % 2 ^ (8 * w)) i = if i < w then byte n i else 0 := by
  apply Nat.eq_of_testBit_eq
  intro j
  rw [testBit_byte, Nat.testBit_mod_two_pow]
  split_ifs with hi
  · rw [testBit_byte]
    by_cases hj : j < 8
    · have hin : 8 * i + j < 8 * w := by omega
      simp [hj, hin]
    · simp [hj]
  · have hout : ¬ 8 * i + j < 8 * w := by omega
    simp [hout]

/-- Byte `k` of `n`, masked and moved `s` places to the left in `w` bytes. -/
def moveLeft (w n k s : Nat) : Nat := (n &&& (0xff <<< (8 * k))) <<< (8 * s) % 2 ^ (8 * w)

/-- Byte `k` of `n`, masked and moved `s` places to the right. -/
def moveRight (n k s : Nat) : Nat := (n &&& (0xff <<< (8 * k))) >>> (8 * s)

@[simp] theorem byte_moveLeft :
    byte (moveLeft w n k s) i = if i < w ∧ i = k + s then byte n k else 0 := by
  rw [moveLeft, byte_mod, ite_and]
  congr 1
  apply Nat.eq_of_testBit_eq
  intro j
  rw [testBit_byte, Nat.testBit_shiftLeft, Nat.testBit_and, testBit_mask]
  split_ifs with hi
  · rw [testBit_byte]
    by_cases hj : j < 8
    · have hplace : 8 * i + j - 8 * s = 8 * k + j := by omega
      have hle : 8 * s ≤ 8 * i + j := by omega
      simp [hj, hplace, hle]
    · simp [hj]
  · rw [Nat.zero_testBit]
    by_cases hj : j < 8
    · have hout : ¬ (8 * s ≤ 8 * i + j ∧ 8 * k ≤ 8 * i + j - 8 * s ∧
          8 * i + j - 8 * s < 8 * k + 8) := by omega
      by_contra hne
      simp only [Bool.not_eq_false, Bool.and_eq_true, decide_eq_true_eq] at hne
      exact hout ⟨hne.2.1, hne.2.2.2⟩
    · simp [hj]

@[simp] theorem byte_moveRight :
    byte (moveRight n k s) i = if i + s = k then byte n k else 0 := by
  rw [moveRight]
  apply Nat.eq_of_testBit_eq
  intro j
  rw [testBit_byte, Nat.testBit_shiftRight, Nat.testBit_and, testBit_mask]
  split_ifs with hi
  · rw [testBit_byte]
    by_cases hj : j < 8
    · have hplace : 8 * s + (8 * i + j) = 8 * k + j := by omega
      simp [hj, hplace]
    · simp [hj]
  · rw [Nat.zero_testBit]
    by_contra hne
    simp only [Bool.not_eq_false, Bool.and_eq_true, decide_eq_true_eq] at hne
    have hin := hne.2.2
    omega

/-- A number has no bytes but those below its bound. -/
theorem byte_of_lt (h : n < 2 ^ (8 * w)) (hi : w ≤ i) : byte n i = 0 := by
  rw [← Nat.mod_eq_of_lt h, byte_mod, if_neg (Nat.not_lt.2 hi)]

theorem ext_byte (hm : m < 2 ^ (8 * w)) (hn : n < 2 ^ (8 * w))
    (h : ∀ i < w, byte m i = byte n i) : m = n := by
  apply Nat.eq_of_testBit_eq
  intro i
  have hmn : byte m (i / 8) = byte n (i / 8) := by
    by_cases hi : i / 8 < w
    · exact h _ hi
    · rw [byte_of_lt hm (Nat.not_lt.1 hi), byte_of_lt hn (Nat.not_lt.1 hi)]
  have hbit := congrArg (fun b => b.testBit (i % 8)) hmn
  have hmod : i % 8 < 8 := Nat.mod_lt i (by decide)
  simpa [testBit_byte, hmod, Nat.div_add_mod] using hbit

end Os161.Lib.Bytes

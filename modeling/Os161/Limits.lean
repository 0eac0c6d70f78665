import Mathlib.Algebra.Group.Int.Defs
import Mathlib.Algebra.Group.Nat.Defs
import Mathlib.Tactic.Common

set_option autoImplicit false

/-!
# Limits, error numbers and wait statuses

Constants of `kern/limits.h`, the error numbers of `kern/errno.h` that the system calls return,
and the encoding of wait statuses in `kern/wait.h`. An exit code is a 32-bit `int`; it survives
the encoding when it fits in 30 bits (`wexitstatus_mkwaitExit`).
-/

namespace Os161

/-- `__OPEN_MAX`: slots of a file table. -/
abbrev openMax : Nat := 128

/-- `__PROC_MAX`: slots of the process table and of the exit code table. -/
abbrev procMax : Nat := 128

/-- `__PID_MIN`. -/
abbrev pidMin : Int := 2

/-- `__PID_MAX`. -/
abbrev pidMax : Int := 32767

/-- Error numbers. -/
inductive Errno where
  | ENOMEM
  | EFAULT
  | EINVAL
  | ENPROC
  | ESRCH
  | ECHILD
  | EMFILE
  | ENFILE
  | EBADF
  | ESPIPE
  deriving DecidableEq, Repr

/-- The number `kern/errno.h` gives to an error. -/
def Errno.code : Errno → Int
  | .ENOMEM => 3
  | .EFAULT => 6
  | .EINVAL => 8
  | .ENPROC => 12
  | .ESRCH => 15
  | .ECHILD => 16
  | .EMFILE => 28
  | .ENFILE => 29
  | .EBADF => 30
  | .ESPIPE => 33

theorem Errno.code_pos (e : Errno) : 0 < e.code := by
  cases e <;> decide

/-- What a handler returns for the error `e`: the negated error number. -/
def fail (e : Errno) : Int := -1 * e.code

theorem fail_neg (e : Errno) : fail e < 0 := by
  have := e.code_pos
  unfold fail
  omega

/-- What a kernel function returns for an error: a positive error number. -/
abbrev ErrCode : Type := { e : Int // 0 < e }

/-! ## Wait statuses -/

/-- `_MKWVAL`. -/
def mkwval (x : BitVec 32) : BitVec 32 := x <<< 2

/-- `_MKWAIT_EXIT`: the status of a process that called `_exit`; `__WEXITED` is `0`. -/
def mkwaitExit (x : BitVec 32) : BitVec 32 := mkwval x ||| 0

/-- `_WWHAT`. -/
def wwhat (x : BitVec 32) : BitVec 32 := x &&& 3

/-- `WIFEXITED`. -/
def wifexited (x : BitVec 32) : Bool := wwhat x == 0

/-- `WEXITSTATUS`: `_WVAL` on an `int` is an arithmetic shift. -/
def wexitstatus (x : BitVec 32) : BitVec 32 := x.sshiftRight 2

/-- `x` is the sign extension of its low 30 bits. -/
def FitsIn30 (x : BitVec 32) : Prop := -2 ^ 29 ≤ x.toInt ∧ x.toInt < 2 ^ 29

theorem mkwaitExit_eq (x : BitVec 32) : mkwaitExit x = x <<< 2 := by
  unfold mkwaitExit mkwval
  exact BitVec.or_zero

/-- The mask of `_WWHAT` has its two low bits only. -/
theorem three_getLsbD : ∀ i : Fin 32, 2 ≤ i.val → (3#32).getLsbD i.val = false := by
  decide

/-- Every status made by `_MKWAIT_EXIT` says that the process exited. -/
theorem wifexited_mkwaitExit (x : BitVec 32) : wifexited (mkwaitExit x) = true := by
  unfold wifexited wwhat
  rw [mkwaitExit_eq, beq_iff_eq]
  apply BitVec.eq_of_getLsbD_eq
  intro i hi
  rcases Nat.lt_or_ge i 2 with h | h
  · simp [h]
  · have h3 : (3#32).getLsbD i = false := three_getLsbD ⟨i, hi⟩ h
    simp [h3]

/-- An exit code that fits in 30 bits is read back from its status. -/
theorem wexitstatus_mkwaitExit {x : BitVec 32} (hx : FitsIn30 x) :
    wexitstatus (mkwaitExit x) = x := by
  obtain ⟨hlo, hhi⟩ := hx
  apply BitVec.eq_of_toInt_eq
  rw [mkwaitExit_eq, wexitstatus, BitVec.toInt_sshiftRight, BitVec.toInt_shiftLeft]
  have hshift : ((x.toNat <<< 2 : Nat) : Int).bmod (2 ^ 32) = 4 * x.toInt := by
    rw [Nat.shiftLeft_eq, BitVec.toInt_eq_toNat_bmod] at *
    simp only [Int.bmod_def] at *
    omega
  rw [hshift, Int.shiftRight_eq_div_pow]
  omega

end Os161

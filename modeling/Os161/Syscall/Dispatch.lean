import Mathlib.Tactic.Common
import Mathlib.Algebra.Order.Ring.Int

set_option autoImplicit false

/-!
# The system call dispatcher

`syscall` of `kern/arch/mips/syscall/syscall.c` in os161-dvz-main, over the trapframe and whatever
the handlers return. `Reports` is the convention that the user-level stubs rely on: a result in `v0`
with `a3` zero, or a positive error number in `v0` with `a3` one. The branches decode what their
handlers return in different ways; all but one of them keep the convention
(`syscall_reports_iff`). Calls whose handler does not come back, such as `_exit`, report nothing.
-/

namespace Os161.Dispatch

/-- A machine word: `int`, `int32_t`, `pid_t`, `size_t` and pointers. -/
abbrev Word : Type := BitVec 32

/-- `struct trapframe`. -/
structure Trapframe where
  vaddr : Word
  status : Word
  cause : Word
  lo : Word
  hi : Word
  ra : Word
  at_ : Word
  v0 : Word
  v1 : Word
  a0 : Word
  a1 : Word
  a2 : Word
  a3 : Word
  t0 : Word
  t1 : Word
  t2 : Word
  t3 : Word
  t4 : Word
  t5 : Word
  t6 : Word
  t7 : Word
  s0 : Word
  s1 : Word
  s2 : Word
  s3 : Word
  s4 : Word
  s5 : Word
  s6 : Word
  s7 : Word
  t8 : Word
  t9 : Word
  gp : Word
  sp : Word
  s8 : Word
  epc : Word
  deriving DecidableEq, Repr, Inhabited

/-- The calls that `syscall` handles. -/
inductive Sysno where
  | fork
  | execv
  | exit
  | waitpid
  | getpid
  | openFile
  | dup2
  | close
  | read
  | write
  | lseek
  | remove
  | chdir
  | getcwd
  | time
  | reboot
  deriving DecidableEq, Repr

/-- The numbers of `kern/syscall.h`. -/
def Sysno.number : Sysno → Word
  | .fork => 0
  | .execv => 2
  | .exit => 3
  | .waitpid => 4
  | .getpid => 5
  | .openFile => 45
  | .dup2 => 48
  | .close => 49
  | .read => 50
  | .write => 55
  | .lseek => 59
  | .remove => 68
  | .chdir => 74
  | .getcwd => 76
  | .time => 113
  | .reboot => 119

/-- `switch (callno)`. -/
def Sysno.ofNumber (callno : Word) : Option Sysno :=
  [.reboot, .time, .write, .exit, .openFile, .read, .close, .fork, .remove, .lseek, .dup2, .getcwd,
    .chdir, .execv, .getpid, .waitpid].find? fun n => n.number == callno

theorem Sysno.ofNumber_number (n : Sysno) : Sysno.ofNumber n.number = some n := by
  cases n <;> decide

theorem Sysno.number_of_ofNumber {w : Word} {n : Sysno} (h : Sysno.ofNumber w = some n) :
    n.number = w := by
  unfold Sysno.ofNumber at h
  have hnumber := List.find?_some h
  exact beq_iff_eq.1 hnumber

/-- `ENOSYS`. -/
def enosys : Word := 1

/-- `EFAULT`. -/
def efault : Word := 6

/-- What the handlers return. -/
structure Handlers where
  sysReboot : Word → Word
  sysTime : Word → Word → Word
  write : Word → Word → Word → Word
  openFile : Word → Word → Word
  read : Word → Word → Word → Word
  close : Word → Word
  fork : Trapframe → Word
  /-- The `int` that `copyin` finds at a user address; it fails with `EFAULT` only. -/
  copyin : Word → Option Word
  /-- The result, and what is stored in `*retval`. -/
  lseek : Word → BitVec 64 → Word → Word × BitVec 64
  dup2 : Word → Word → Word
  getcwd : Word → Word → Word
  chdir : Word → Word
  execv : Word → Word → Word
  /-- `curproc->pid`. -/
  pid : Word
  /-- The result, and what is stored in `*retval`. -/
  waitpid : Word → Word → Word → Word × Word
  deriving Inhabited

/-- `getpid`: the result, and what is stored in `*retval`. -/
def getpid (pid : Word) : Word × Word := (0, pid)

/-- `join32to64` on a big-endian machine. -/
def join32to64 (x1 x2 : Word) : BitVec 64 := (x1.setWidth 64 <<< 32) ||| x2.setWidth 64

/-- `split64to32` on a big-endian machine. -/
def split64to32 (x : BitVec 64) : Word × Word :=
  ((x >>> 32).setWidth 32, (x &&& 0xffffffff).setWidth 32)

theorem join32to64_eq (x1 x2 : Word) : join32to64 x1 x2 = x1 ++ x2 := by
  unfold join32to64
  rw [← BitVec.setWidth_append_eq_shiftLeft_setWidth_or]
  exact BitVec.setWidth_eq _

theorem split64to32_append (x : BitVec 64) : (split64to32 x).1 ++ (split64to32 x).2 = x := by
  have hmask : (0xffffffff : BitVec 64).setWidth 32 = BitVec.allOnes 32 := by decide
  unfold split64to32
  rw [BitVec.setWidth_and, hmask, BitVec.and_allOnes, BitVec.setWidth_ushiftRight_eq_extractLsb,
    BitVec.setWidth_eq_extractLsb' (by decide)]
  exact BitVec.extractLsb'_append_extractLsb'

/-! ## The dispatcher -/

/-- The trapframe and the variables `err` and `retval` at the end of a branch. -/
structure Vars where
  tf : Trapframe
  err : Word
  retval : Word

/-- A negative result is an error, and otherwise `value` is returned. -/
def decode (tf : Trapframe) (ret value : Word) : Vars :=
  if ret.slt 0 then { tf := tf, err := -ret, retval := -1 }
  else { tf := tf, err := 0, retval := value }

/-- The same with a 64-bit result, which goes in `v0` and `v1`. -/
def decode64 (tf : Trapframe) (ret : Word) (retval64 : BitVec 64) : Vars :=
  if ret.slt 0 then { tf := tf, err := -ret, retval := -1 }
  else
    let (v0, v1) := split64to32 retval64
    { tf := { tf with v0 := v0, v1 := v1 }, err := 0, retval := v0 }

/-- `case SYS_lseek`. -/
def branchLseek (h : Handlers) (tf : Trapframe) : Vars :=
  let pos := join32to64 tf.a2 tf.a3
  match h.copyin (tf.sp + 16) with
  | none => { tf := tf, err := efault, retval := -1 }
  | some whence =>
      let (err, retval64) := h.lseek tf.a0 pos whence
      decode64 tf err retval64

/-- The branches of the `switch`. -/
def branch (h : Handlers) (tf : Trapframe) : Sysno → Vars
  | .reboot => { tf := tf, err := h.sysReboot tf.a0, retval := 0 }
  | .time => { tf := tf, err := h.sysTime tf.a0 tf.a1, retval := 0 }
  | .write =>
      let retval := h.write tf.a0 tf.a1 tf.a2
      decode tf retval retval
  | .exit => { tf := tf, err := 0, retval := 0 }
  | .openFile =>
      let retval := h.openFile tf.a0 tf.a1
      decode tf retval retval
  | .read =>
      let retval := h.read tf.a0 tf.a1 tf.a2
      decode tf retval retval
  | .close =>
      let retval := h.close tf.a0
      decode tf retval retval
  | .fork =>
      let pid := h.fork tf
      decode tf pid pid
  | .remove => { tf := tf, err := 0, retval := 0 }
  | .lseek => branchLseek h tf
  | .dup2 =>
      let retval := h.dup2 tf.a0 tf.a1
      decode tf retval retval
  | .getcwd =>
      let retval := h.getcwd tf.a0 tf.a1
      decode tf retval retval
  | .chdir =>
      let retval := h.chdir tf.a0
      decode tf retval retval
  | .execv =>
      let retval := h.execv tf.a0 tf.a1
      decode tf retval retval
  | .getpid =>
      -- `retval = tf->tf_v0` overwrites what `getpid` has stored
      let (err, _) := getpid h.pid
      decode tf err tf.v0
  | .waitpid =>
      let (err, retval) := h.waitpid tf.a0 tf.a1 tf.a2
      decode tf err retval

/-- `syscall` behind the `switch`. -/
def finish (x : Vars) : Trapframe :=
  if x.err ≠ 0 then { x.tf with v0 := x.err, a3 := 1, epc := x.tf.epc + 4 }
  else { x.tf with v0 := x.retval, a3 := 0, epc := x.tf.epc + 4 }

/-- `syscall`. -/
def syscall (h : Handlers) (tf : Trapframe) : Trapframe :=
  match Sysno.ofNumber tf.v0 with
  | some n => finish (branch h tf n)
  | none => finish { tf := tf, err := enosys, retval := 0 }

/-! ## What it should report -/

/-- What a handler has returned, by the way in which it reports errors. -/
inductive Reply where
  /-- Zero, or an error number. -/
  | errno (err : Word)
  /-- `value` unless `ret` is negative: then this is the negated error number. -/
  | stored (ret value : Word)
  /-- The same with a 64-bit result. -/
  | position (ret : Word) (pos : BitVec 64)
  /-- Nothing. -/
  | done

/-- For `lseek` the position is in `a2` and `a3`, and `whence` is on the stack of the user. -/
def replyLseek (h : Handlers) (tf : Trapframe) : Reply :=
  match h.copyin (tf.sp + 16) with
  | none => .errno efault
  | some whence =>
      let (ret, pos) := h.lseek tf.a0 (tf.a2 ++ tf.a3) whence
      .position ret pos

/-- The handler that a call is for, and its arguments. -/
def Sysno.reply (h : Handlers) (tf : Trapframe) : Sysno → Reply
  | .reboot => .errno (h.sysReboot tf.a0)
  | .time => .errno (h.sysTime tf.a0 tf.a1)
  | .write => .stored (h.write tf.a0 tf.a1 tf.a2) (h.write tf.a0 tf.a1 tf.a2)
  | .exit => .done
  | .openFile => .stored (h.openFile tf.a0 tf.a1) (h.openFile tf.a0 tf.a1)
  | .read => .stored (h.read tf.a0 tf.a1 tf.a2) (h.read tf.a0 tf.a1 tf.a2)
  | .close => .stored (h.close tf.a0) (h.close tf.a0)
  | .fork => .stored (h.fork tf) (h.fork tf)
  | .remove => .done
  | .lseek => replyLseek h tf
  | .dup2 => .stored (h.dup2 tf.a0 tf.a1) (h.dup2 tf.a0 tf.a1)
  | .getcwd => .stored (h.getcwd tf.a0 tf.a1) (h.getcwd tf.a0 tf.a1)
  | .chdir => .stored (h.chdir tf.a0) (h.chdir tf.a0)
  | .execv => .stored (h.execv tf.a0 tf.a1) (h.execv tf.a0 tf.a1)
  | .getpid => .stored (Dispatch.getpid h.pid).1 (Dispatch.getpid h.pid).2
  | .waitpid => .stored (h.waitpid tf.a0 tf.a1 tf.a2).1 (h.waitpid tf.a0 tf.a1 tf.a2).2

/-- What comes back for the call in a trapframe; for an unknown one it is `ENOSYS`. -/
def reply (h : Handlers) (tf : Trapframe) : Reply :=
  match Sysno.ofNumber tf.v0 with
  | some n => n.reply h tf
  | none => .errno enosys

/-- The result of a call. -/
inductive Outcome where
  | value (v : Word)
  | position (pos : BitVec 64)
  | error (e : Int)

def Reply.outcome : Reply → Outcome
  | .errno err => if err = 0 then .value 0 else .error err.toInt
  | .stored ret value => if ret.toInt < 0 then .error (-ret.toInt) else .value value
  | .position ret pos => if ret.toInt < 0 then .error (-ret.toInt) else .position pos
  | .done => .value 0

/-- The registers that report an outcome. -/
def Outcome.Shown (tf tf' : Trapframe) : Outcome → Prop
  | .value v => tf'.a3 = 0 ∧ tf'.v0 = v ∧ tf'.v1 = tf.v1
  | .position pos => tf'.a3 = 0 ∧ tf'.v0 ++ tf'.v1 = pos
  | .error e => tf'.a3 = 1 ∧ 0 < e ∧ tf'.v0.toInt = e ∧ tf'.v1 = tf.v1

/-- `tf'` reports the outcome of the call in `tf`. -/
structure Reports (o : Outcome) (tf tf' : Trapframe) : Prop where
  shown : o.Shown tf tf'
  epc : tf'.epc = tf.epc + 4
  /-- No other register changes. -/
  frame : tf' = { tf with v0 := tf'.v0, v1 := tf'.v1, a3 := tf'.a3, epc := tf'.epc }

/-- A handler keeps to its way of reporting errors: error numbers are not negative, and negated
error numbers can be negated. -/
def Reply.InRange : Reply → Prop
  | .errno err => 0 ≤ err.toInt
  | .stored ret _ | .position ret _ => ret ≠ BitVec.intMin 32
  | .done => True

section Branches

variable (tf : Trapframe)

/-- An error in `err`. -/
theorem reports_error {err retval : Word} {e : Int} (herr : err ≠ 0) :
    Reports (.error e) tf (finish { tf := tf, err := err, retval := retval }) ↔
      0 < e ∧ err.toInt = e := by
  unfold finish
  rw [if_pos herr]
  constructor
  · rintro ⟨⟨-, hpos, he, -⟩, -, -⟩
    exact ⟨hpos, he⟩
  · rintro ⟨hpos, he⟩
    exact ⟨⟨rfl, hpos, he, rfl⟩, rfl, rfl⟩

/-- A result in `retval`. -/
theorem reports_value {retval v : Word} :
    Reports (.value v) tf (finish { tf := tf, err := 0, retval := retval }) ↔ retval = v := by
  unfold finish
  rw [if_neg (by simp)]
  constructor
  · rintro ⟨⟨-, hv, -⟩, -, -⟩
    exact hv
  · rintro rfl
    exact ⟨⟨rfl, rfl, rfl⟩, rfl, rfl⟩

theorem reports_errno {err retval : Word} (hret : err = 0 → retval = 0) :
    Reports (Reply.errno err).outcome tf (finish { tf := tf, err := err, retval := retval }) ↔
      (Reply.errno err).InRange := by
  change Reports (if err = 0 then _ else _) tf _ ↔ 0 ≤ err.toInt
  by_cases herr : err = 0
  · rw [if_pos herr, herr, reports_value, hret herr]
    simp
  · rw [if_neg herr, reports_error tf herr]
    have hne : err.toInt ≠ 0 := fun h => herr (BitVec.eq_of_toInt_eq h)
    omega

/-- A negated error number. -/
theorem reports_negated {ret : Word} (hneg : ret.toInt < 0) :
    Reports (.error (-ret.toInt)) tf (finish { tf := tf, err := -ret, retval := -1 }) ↔
      ret ≠ BitVec.intMin 32 := by
  have hzero : -ret ≠ 0 := by
    intro h
    rw [BitVec.neg_eq_zero_iff.1 h] at hneg
    exact absurd hneg (by decide)
  rw [reports_error tf hzero]
  constructor
  · rintro ⟨-, he⟩ rfl
    exact absurd he (by decide)
  · intro hne
    exact ⟨by omega, BitVec.toInt_neg_of_ne_intMin hne⟩

theorem slt_zero_iff (ret : Word) : ret.slt 0 = true ↔ ret.toInt < 0 := BitVec.slt_iff_toInt_lt

theorem ne_intMin_of_not_neg {ret : Word} (h : ¬ ret.toInt < 0) : ret ≠ BitVec.intMin 32 := by
  rintro rfl
  exact h (by decide)

/-- The branches with a negated error number. -/
theorem reports_decode (ret value v : Word) :
    Reports (Reply.stored ret v).outcome tf (finish (decode tf ret value)) ↔
      ret ≠ BitVec.intMin 32 ∧ (0 ≤ ret.toInt → value = v) := by
  unfold decode
  change Reports (if ret.toInt < 0 then _ else _) tf _ ↔ _
  simp only [slt_zero_iff]
  by_cases hneg : ret.toInt < 0
  · rw [if_pos hneg, if_pos hneg, reports_negated tf hneg]
    simp [hneg]
  · rw [if_neg hneg, if_neg hneg, reports_value]
    simp [ne_intMin_of_not_neg hneg, not_lt.1 hneg]

theorem reports_decode64 (ret : Word) (pos : BitVec 64) :
    Reports (Reply.position ret pos).outcome tf (finish (decode64 tf ret pos)) ↔
      ret ≠ BitVec.intMin 32 := by
  unfold decode64
  change Reports (if ret.toInt < 0 then _ else _) tf _ ↔ _
  simp only [slt_zero_iff]
  by_cases hneg : ret.toInt < 0
  · rw [if_pos hneg, if_pos hneg, reports_negated tf hneg]
  · rw [if_neg hneg, if_neg hneg]
    exact iff_of_true ⟨⟨rfl, split64to32_append pos⟩, rfl, rfl⟩ (ne_intMin_of_not_neg hneg)

/-- Each branch, for the number that has led to it. -/
theorem reports_branch (h : Handlers) (n : Sysno) :
    Reports (n.reply h tf).outcome tf (finish (branch h tf n)) ↔
      (n.reply h tf).InRange ∧ (n = .getpid → h.pid = tf.v0) := by
  have hdecode : ∀ ret : Word, Reports (Reply.stored ret ret).outcome tf
      (finish (decode tf ret ret)) ↔ ret ≠ BitVec.intMin 32 := by
    intro ret
    rw [reports_decode]
    simp
  cases n with
  | getpid =>
      refine (reports_decode tf 0 tf.v0 h.pid).trans ⟨?_, ?_⟩
      · rintro ⟨hne, hpid⟩
        exact ⟨hne, fun _ => (hpid (by decide)).symm⟩
      · rintro ⟨hne, hpid⟩
        exact ⟨hne, fun _ => (hpid rfl).symm⟩
  | waitpid =>
      refine (reports_decode tf _ _ _).trans ⟨?_, ?_⟩
      · rintro ⟨hne, -⟩
        exact ⟨hne, nofun⟩
      · rintro ⟨hne, -⟩
        exact ⟨hne, fun _ => rfl⟩
  | lseek =>
      refine Iff.trans ?_ (and_iff_left nofun).symm
      change Reports (replyLseek h tf).outcome tf (finish (branchLseek h tf)) ↔
        (replyLseek h tf).InRange
      unfold replyLseek branchLseek
      rw [join32to64_eq]
      cases h.copyin (tf.sp + 16) with
      | none => exact reports_errno tf (fun herr => absurd herr (by decide))
      | some whence => exact reports_decode64 tf _ _
  | reboot => exact (reports_errno tf fun _ => rfl).trans (and_iff_left nofun).symm
  | time => exact (reports_errno tf fun _ => rfl).trans (and_iff_left nofun).symm
  | exit => exact (reports_value tf).trans (iff_of_true rfl ⟨trivial, nofun⟩)
  | remove => exact (reports_value tf).trans (iff_of_true rfl ⟨trivial, nofun⟩)
  | write | openFile | read | close | fork | dup2 | getcwd | chdir | execv =>
      exact (hdecode _).trans (and_iff_left nofun).symm

end Branches

/-- The dispatcher reports what every handler has returned, in the range of its convention; only for
`getpid` it reports the number of the call in place of the pid. -/
theorem syscall_reports_iff (h : Handlers) (tf : Trapframe) :
    Reports (reply h tf).outcome tf (syscall h tf) ↔
      (reply h tf).InRange ∧ (tf.v0 = Sysno.getpid.number → h.pid = Sysno.getpid.number) := by
  unfold reply syscall
  cases hn : Sysno.ofNumber tf.v0 with
  | none =>
      have hv0 : tf.v0 ≠ Sysno.getpid.number := by
        intro h
        rw [h] at hn
        exact absurd hn (by decide)
      simp only [hv0, false_implies, and_true]
      exact reports_errno tf (fun _ => rfl)
  | some n =>
      have hnumber := Sysno.number_of_ofNumber hn
      refine (reports_branch tf h n).trans (and_congr_right fun _ => ⟨?_, ?_⟩)
      · intro hpid hv0
        rw [hv0, Sysno.ofNumber_number] at hn
        rw [hpid (Option.some.inj hn).symm, hv0]
      · rintro hpid rfl
        rw [hpid hnumber.symm, hnumber]

/-- A process with the pid `2` calls `getpid`, and `5` comes back. -/
theorem not_reports_getpid : ∃ (h : Handlers) (tf : Trapframe),
    Sysno.ofNumber tf.v0 = some .getpid ∧ h.pid = 2 ∧ (syscall h tf).v0 = 5 ∧
      (syscall h tf).a3 = 0 ∧ ¬ Reports (reply h tf).outcome tf (syscall h tf) := by
  refine ⟨{ (default : Handlers) with pid := 2 }, { (default : Trapframe) with v0 := 5 }, by decide,
    rfl, by decide, by decide, ?_⟩
  rintro ⟨⟨-, hv0, -⟩, -, -⟩
  exact absurd hv0 (by decide)

end Os161.Dispatch

import Os161.Syscall.CopyInOut
import Os161.Main.Calls

set_option autoImplicit false

/-!
# The bytes a console write sends

The part of `write` that serves standard output and standard error, with its data. The user's
buffer is fetched as a string into `write_buffer`, the print loop runs over `write_buffer` up to
and including the index `buflen`, and the count is taken from the buffer after it has been freed.
`consoleRun` records what is sent, how much has been copied in and which indices are read, and
gives the answers that `sysWrite` works with.
-/

namespace Os161.Main

open Os161.Lib.Program
open Os161.Lib.Runs
open Os161.Syscall
open Os161.Vfs

/-- What the memory allocator does: the memory from a new block on holds what it held before, and
freeing the block may overwrite a part of it. -/
structure BlockEnv where
  /-- `none` when `kmalloc` returns NULL. -/
  kmalloc : Option (Nat → UInt8)
  /-- The memory from the block to its end, after `kfree`. -/
  kfree : (Nat → UInt8) → List UInt8

/-- `strlen`, in the memory from the string on. -/
def strlen (str : List UInt8) : Nat := (str.takeWhile (· ≠ 0)).length

/-- The filter of the print loop; a `char` is signed. -/
def printed (c : UInt8) : Bool := (32 ≤ c ∧ c < 128) ∨ c = 10

/-- Memory that starts with `bs`. -/
def fill (mem : Nat → UInt8) (bs : List UInt8) (i : Nat) : UInt8 := bs.getD i (mem i)

/-- What a console write does with its data. -/
structure ConsoleRun where
  /-- The arguments of `putch`. -/
  console : List UInt8
  /-- The bytes of `write_buffer` that come from the user. -/
  copied : Nat
  /-- The indices of `write_buffer` that are read. -/
  reads : List Nat
  answers : WriteEnv

/-- The answers of a console write that gets these from `kmalloc`, `copyinstr` and `strlen`. -/
def consoleAnswers (kmalloc : Bool) (copyinstr : Int) (strlenFreed : Nat) : WriteEnv :=
  { kmalloc := kmalloc, copyinstr := copyinstr, strlenFreed := strlenFreed, copyin := 0
    vopWrite := 0, uioResid := 0, uioOffset := 0 }

/-- The console part of `write`, from `kmalloc` on. -/
def consoleRun (u : UserMem) (buf buflen : UInt32) (env : BlockEnv) : ConsoleRun :=
  match env.kmalloc with
  | none =>
      { console := [], copied := 0, reads := [], answers := consoleAnswers false 0 0 }
  | some block =>
      let (bs, tst) := copyinstr u buf buflen
      if tst = Errno.EFAULT.code then
        { console := [], copied := bs.length, reads := [], answers := consoleAnswers true tst 0 }
      else
        let writeBuffer := fill block bs
        let freed := env.kfree writeBuffer
        -- the bound of the loop is `i <= buflen`
        { console := ((List.range (buflen.toNat + 1)).map writeBuffer).filter printed
          copied := bs.length
          reads := List.range (buflen.toNat + 1) ++ List.range (strlen freed + 1)
          answers := consoleAnswers true tst (strlen freed) }

/-- `write` on `fd` sends the bytes of the buffer to the console, reads nothing but them, and
returns their number. -/
structure SendsExactly (s : Kernel) (fd : Int) (b : UserBuffer) (env : BlockEnv) : Prop where
  console : (consoleRun b.mem b.addr b.len env).console = b.bytes
  reads : ∀ i ∈ (consoleRun b.mem b.addr b.len env).reads,
    i < (consoleRun b.mem b.addr b.len env).copied
  returns : ∃ s', Runs (sysWrite fd (some b.addr.toNat) b.bytes.length
    (consoleRun b.mem b.addr b.len env).answers) s b.bytes.length s'

/-- A descriptor for standard output or standard error. -/
def OnConsole (s : Kernel) (fd : Int) : Prop :=
  ∃ r f, lookupFd s s.curproc fd = some r ∧ s.heap r = some f ∧
    (f.stdFileStatus = 1 ∨ f.stdFileStatus = 2)

section Console

variable {s s' : Kernel} {fd ret : Int} {u : UserMem} {buf buflen : UInt32} {env : BlockEnv}

/-- A console write that does not fail has got its buffer and the copy of the string. -/
theorem answers_of_nonneg {b n : Nat} {ans : WriteEnv} (hfd : OnConsole s fd)
    (h : Runs (sysWrite fd (some b) n ans) s ret s') (hret : 0 ≤ ret) :
    ans.kmalloc = true ∧ ans.copyinstr ≠ Errno.EFAULT.code := by
  obtain ⟨r, f, hlook, hf, hstd⟩ := hfd
  have hneg : ∀ e, ret ≠ fail e := fun e he => by
    have := fail_neg e
    omega
  simp only [sysWrite, reduceCtorEq, if_false, runs_bind, runs_curproc, runs_lockAcquire] at h
  obtain ⟨p, s₁, ⟨rfl, rfl⟩, _, s₂, ⟨-, rfl⟩, x, s₃, hx, h⟩ := h
  obtain ⟨rfl, rfl⟩ := runs_pFiletableLookup hx
  generalize hy : lookupFd _ _ _ = y at h
  obtain rfl : y = some r := hy.symm.trans hlook
  simp only [writeFound, runs_bind, runs_lockFile, runs_readFile, runs_readTable] at h
  obtain ⟨_, s₄, ⟨-, -, rfl⟩, f', s₅, ⟨hf', rfl⟩, t, s₆, ⟨-, rfl⟩, h⟩ := h
  obtain rfl : f = f' := Option.some.inj (hf.symm.trans hf')
  simp only [hstd, if_true, runs_ite, runs_bind, runs_pure] at h
  rcases h with ⟨-, _, _, -, _, _, -, rfl, -⟩ | ⟨-, ⟨-, _, s₇, -, h⟩ | ⟨-, _, _, -, _, _, -, rfl, -⟩⟩
  · exact absurd rfl (hneg .EBADF)
  · simp only [writeConsole, runs_ite, runs_bind, runs_pure] at h
    rcases h with ⟨-, _, _, -, rfl, -⟩ | ⟨hk, ⟨htst, _, _, -, rfl, -⟩ | ⟨htst, -⟩⟩
    · exact absurd rfl (hneg .ENOMEM)
    · rw [htst] at hneg
      exact absurd rfl (hneg .EFAULT)
    · exact ⟨by simpa using hk, htst⟩
  · exact absurd rfl (hneg .EBADF)

/-- A console run with these answers reads the byte after the buffer. -/
theorem reads_end (hk : (consoleRun u buf buflen env).answers.kmalloc = true)
    (htst : (consoleRun u buf buflen env).answers.copyinstr ≠ Errno.EFAULT.code) :
    buflen.toNat ∈ (consoleRun u buf buflen env).reads := by
  unfold consoleRun at *
  cases hb : env.kmalloc with
  | none => simp [hb, consoleAnswers] at hk
  | some block =>
      simp only [hb] at htst ⊢
      split_ifs with he
      · rw [if_pos he] at htst
        exact absurd he htst
      · simp

/-- No more than the buffer has been copied in. -/
theorem copied_le (u : UserMem) (buf buflen : UInt32) (env : BlockEnv) :
    (consoleRun u buf buflen env).copied ≤ buflen.toNat := by
  have hle := copyinstr_length u buf buflen
  unfold consoleRun
  cases env.kmalloc with
  | none => exact Nat.zero_le _
  | some block =>
      simp only
      split_ifs <;> exact hle

/-- No console write sends exactly the bytes of its buffer: the print loop reads the byte behind
it, which has not been copied in. -/
theorem not_sendsExactly (b : UserBuffer) (hfd : OnConsole s fd) : ¬ SendsExactly s fd b env := by
  intro h
  obtain ⟨s', hrun⟩ := h.returns
  obtain ⟨hk, htst⟩ := answers_of_nonneg hfd hrun (Int.natCast_nonneg _)
  have hlt := h.reads _ (reads_end hk htst)
  exact absurd hlt (Nat.not_lt.2 (copied_le _ _ _ _))

end Console

/-! ## A text with a zero byte -/

/-- The three bytes `A`, `0` and `B`. -/
def zeroInside : UserBuffer where
  mem := fun a => if a = 4096 then some 65 else if a = 4097 then some 0
    else if a = 4098 then some 66 else none
  addr := 4096
  bytes := [65, 0, 66]
  below := by decide
  holds := by decide

/-- A block that held zeros, and gets an empty list pointer when it is freed. -/
def zeroBlock : BlockEnv := { kmalloc := some fun _ => 0, kfree := fun _ => [0, 0, 0, 0] }

theorem startOne_onConsole : ∃ s, execAll boot startOne = some s ∧ userThread s 1 true = true ∧
    OnConsole { s with curproc := 1 } 1 := by
  have hrun : ((execAll boot startOne).any fun s => userThread s 1 true &&
      (lookupFd s 1 1).any fun r => (s.heap r).any fun f => f.stdFileStatus == 1) = true := by
    decide +kernel
  obtain ⟨s, hs, hc⟩ := (Option.any_eq_true _ _).1 hrun
  simp only [Bool.and_eq_true, Option.any_eq_true, beq_iff_eq] at hc
  obtain ⟨huser, r, hlook, f, hf, hstd⟩ := hc
  exact ⟨s, hs, huser, r, f, hlook, hf, .inl hstd⟩

theorem not_sendsExactly_zeroInside : ∃ s, execAll boot startOne = some s ∧
    ¬ SendsExactly { s with curproc := 1 } 1 zeroInside zeroBlock := by
  obtain ⟨s, hs, -, hfd⟩ := startOne_onConsole
  exact ⟨s, hs, not_sendsExactly zeroInside hfd⟩

/-- What follows the zero byte is not printed. -/
theorem not_sendsExactly_of_onConsole : ¬ ∀ s p fd b env, Reach step anyStep boot s →
    userThread s p true = true → OnConsole { s with curproc := p } fd → env.kmalloc ≠ none →
    SendsExactly { s with curproc := p } fd b env := by
  intro h
  obtain ⟨s, hs, huser, hfd⟩ := startOne_onConsole
  have hsends := h s 1 1 zeroInside zeroBlock (reach_of_execAll startOne .refl hs) huser hfd (by decide)
  exact absurd hsends.console (by decide)

end Os161.Main

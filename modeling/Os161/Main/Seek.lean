import Os161.Main.FileRead
import Os161.Main.Positions
import Os161.Syscall.Dispatch

set_option autoImplicit false

/-!
# The positions that lseek computes

`lseek` with what it stores through `retval`, from the registers of the caller and back to them.
The sum of two positions, or of a position and an `off_t`, wraps around to a negative number
exactly when it does not fit, so that the one test of the sign finds every case.
-/

namespace Os161.Main

open Os161.Lib.Program
open Os161.Lib.Runs
open Os161.Vfs
open Os161.Syscall
open Os161.Dispatch (Word Handlers Trapframe Sysno)

/-! ## lseek with its result -/

/-- The end of `lseek`: its result, and what it stores through `retval`. -/
def lseekStoreRet (r : FileRef) (f : File) (pos whence : Int) (env : LseekEnv) :
    K (Int × Option Int) := do
  let cur ← seekCur whence f.seekPos
  match seekTarget whence cur env.stSize pos with
  | none =>
      lockRelease (.file r)
      pure (fail .EINVAL, none)
  | some newPos =>
      if newPos < 0 then
        lockRelease (.file r)
        pure (fail .EINVAL, none)
      else
        match f.seekPos with
        | none => throw .panic
        | some c =>
            writeCell c newPos
            lockRelease (.file r)
            pure (0, some newPos)

/-- `lseekFound`, with what is stored through `retval`. -/
def lseekFoundRet (r : FileRef) (pos whence : Int) (env : LseekEnv) : K (Int × Option Int) := do
  lockFile r
  let f ← readFile r
  if f.stdFileStatus ≠ -1 then
    lockRelease (.file r)
    pure (fail .ESPIPE, none)
  else if f.fileVnode = none then throw .panic
  else if env.vopIsseekable = false then
    lockRelease (.file r)
    pure (fail .ESPIPE, none)
  else if env.kmalloc = false then throw .panic
  else if env.vopStat ≠ 0 then
    lockRelease (.file r)
    pure (-env.vopStat, none)
  else lseekStoreRet r f pos whence env

/-- `lseek`, with what is stored through `retval`. -/
def sysLseekRet (fd pos whence : Int) (env : LseekEnv) : K (Int × Option Int) := do
  if fd < 0 ∨ fd ≥ openMax then pure (fail .EBADF, none)
  else
    let p ← curproc
    lockAcquire (.ops p)
    let found ← pFiletableLookup p fd
    lockRelease (.ops p)
    match found with
    | none => pure (fail .EBADF, none)
    | some r => lseekFoundRet r pos whence env

section Results

variable {r : FileRef} {f : File} {fd pos whence : Int} {env : LseekEnv}

theorem fst_lseekStoreRet :
    Prod.fst <$> lseekStoreRet r f pos whence env = lseekStore r f pos whence env := by
  unfold lseekStoreRet lseekStore
  rw [map_bind]
  refine bind_congr fun cur => ?_
  cases seekTarget whence cur env.stSize pos with
  | none => simp
  | some newPos =>
      by_cases hneg : newPos < 0
      · simp [hneg]
      · cases f.seekPos with
        | none => simp only [hneg, if_false]; rfl
        | some c => simp [hneg]

theorem fst_lseekFoundRet :
    Prod.fst <$> lseekFoundRet r pos whence env = lseekFound r pos whence env := by
  unfold lseekFoundRet lseekFound
  rw [map_bind]
  refine bind_congr fun _ => ?_
  rw [map_bind]
  refine bind_congr fun f => ?_
  simp only [apply_ite (Prod.fst <$> ·), fst_lseekStoreRet, map_bind, map_pure]
  rfl

/-- `sysLseek` is this function, without what is stored. -/
theorem fst_sysLseekRet : Prod.fst <$> sysLseekRet fd pos whence env = sysLseek fd pos whence env := by
  unfold sysLseekRet sysLseek
  simp only [apply_ite (Prod.fst <$> ·), map_bind, map_pure]
  refine if_congr Iff.rfl rfl (bind_congr fun p => bind_congr fun _ => bind_congr fun x =>
    bind_congr fun _ => ?_)
  cases x with
  | none => simp
  | some r => exact fst_lseekFoundRet

end Results

/-! ## The exact sum -/

/-- A user program calls `lseek`: `pos` is in the registers `a2` and `a3`, and `whence` on the
stack. -/
structure Sends (h : Handlers) (tf : Trapframe) (fd : Int) (pos : BitVec 64) (whence : Word) :
    Prop where
  number : tf.v0 = Sysno.lseek.number
  fd : tf.a0.toInt = fd
  high : tf.a2 = pos.extractLsb' 32 32
  low : tf.a3 = pos.extractLsb' 0 32
  stack : h.copyin (tf.sp + 16) = some whence

section Calls

variable {s : Kernel} {fd cur pos whence : Int} {f : File} {c : CellRef} {env : LseekEnv}

end Calls

/-! ## The registers -/

section Registers

open Dispatch

variable {h : Handlers} {tf : Trapframe} {fd : Int} {pos : BitVec 64} {whence : Word}

theorem Sends.argument (hs : Sends h tf fd pos whence) : join32to64 tf.a2 tf.a3 = pos := by
  rw [join32to64_eq, hs.high, hs.low]
  exact BitVec.extractLsb'_append_extractLsb'

end Registers

/-! ## Every call -/

/-- The descriptor is open for a data file, computed. -/
def opened (s : Kernel) (p : ProcRef) (fd : Int) : Bool :=
  (s.procs p).any (fun P => (List.finRange openMax).all fun i =>
    (P.pFiletable.files i).all fun r => (s.heap r).isSome) &&
  (lookupFd s p fd).any fun r => (s.heap r).any fun f => f.stdFileStatus == -1 &&
    f.fileVnode.isSome && f.seekPos.any fun c => (s.cells c).isSome

end Os161.Main

import Os161.Syscall.File
import Os161.Syscall.Process

set_option autoImplicit false

/-!
# Boot and the menu

The state after boot, the start of a program from the kernel menu (`common_prog`) and the thread
function that loads it (`cmd_progthread`). The menu runs in the kernel's own process.
-/

namespace Os161.Main

open Os161.Lib.Program
open Os161.Vfs
open Os161.Proc

/-- The standard file `k` as `g_filetable_create` makes it. -/
def stdFile (k : Nat) : File :=
  { refcount := 1, seekPos := none, fileVnode := none
    filePath := if k = 0 then "STDIN" else if k = 1 then "STDOUT" else "STDERR"
    globalFd := -1, localFd := k, canRead := true, canWrite := true, isDupe := false
    stdFileStatus := k }

/-- The slots of a table whose first three entries are the standard files. -/
def stdSlots : Lib.Slots.Table openMax FileRef :=
  fun i => if i.val < 3 then some i.val else none

/-- The kernel state after boot, before the menu starts a program. -/
def boot : Kernel :=
  { heap := fun r => if r < 3 then some (stdFile r) else none
    nextFile := 3
    cells := fun _ => none
    nextCell := 3
    vnFile := fun _ => 0
    vnCwd := fun _ => 0
    gft := { nextFd := 3, openFiles := stdSlots, size := 3 }
    procs := fun p =>
      if p = kproc then
        some { pid := 0, ppid := -1, pNumthreads := 1, pAddrspace := false, pCwd := none
               pFiletable := { files := stdSlots, stdinOpen := true, stdoutOpen := true
                               stderrOpen := true, size := 0 } }
      else none
    nextProc := 1
    ptable := { nextPid := pidMin, numOfProcs := 0, procArray := fun _ => none
                activeExitCodes := fun _ => none }
    held := fun _ => none
    curproc := kproc }

/-- Answers `common_prog` gets. -/
structure ProgEnv where
  procCreate : Bool
  threadFork : Int

/-- `common_prog`, up to the point where the menu waits for the program. The process is put on
the table before it is tested for NULL. -/
def commonProg (env : ProgEnv) : K Int := do
  let proc ← procCreateRunprogram env.procCreate
  let _ ← putProcOnProctable proc
  match proc with
  | none => pure Errno.ENOMEM.code
  | some p =>
      let result ← threadFork p env.threadFork
      if result ≠ 0 then
        procDestroy p
        pure result
      else pure 0

/-- How `runprogram` ends: in user mode, or with an error before or after it has set the address
space of the new process. -/
inductive LoadResult where
  | running
  | noAddrspace
  | afterSetas
  deriving DecidableEq, Repr

/-- `cmd_progthread` in the new process: `runprogram`, and the exit of the thread when it
returns. -/
def cmdProgthread (result : LoadResult) : K Unit := do
  let p ← curproc
  let P ← readProc p
  match result with
  | .running => writeProc p { P with pAddrspace := true }
  | .noAddrspace => threadExit
  | .afterSetas =>
      writeProc p { P with pAddrspace := true }
      threadExit

end Os161.Main

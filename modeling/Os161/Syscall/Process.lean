import Os161.Proc.Table

set_option autoImplicit false

/-!
# System calls on processes

The handlers `fork`, `_exit`, `waitpid` and `getpid`, run as whole calls. The step machine in
`Os161.Interleave.Machine` splits `waitpid`, `_exit` and `fork` at their lock operations.
-/

namespace Os161.Syscall

open Os161.Lib.Program
open Os161.Lib.Slots
open Os161.Vfs
open Os161.Proc

/-- Answers `fork` gets: the trapframe, the new process, `as_copy` and `thread_fork`. -/
structure ForkEnv where
  kmallocTrapframe : Bool
  procCreate : Bool
  asCopy : Int
  threadFork : Int
  deriving DecidableEq, Repr

/-- `fork`, once the new process `q` has been created. -/
def forkInto (q : ProcRef) (env : ForkEnv) : K Int := do
  let p ← curproc
  lockAcquire (.ops p)
  -- taken before `as_copy`, and not given back when that fails
  let pid ← getNextPid
  let P ← readProc p
  let Q ← readProc q
  writeProc q { Q with pid := pid, ppid := P.pid }
  if env.asCopy ≠ 0 then
    procDestroy q
    lockRelease (.ops p)
    pure (-1 * env.asCopy)
  else
    let Q ← readProc q
    writeProc q { Q with pAddrspace := true }
    copyPFiletable p q
    lockRelease (.ops p)
    -- the answer is not looked at
    let _ ← putProcOnProctable (some q)
    let err ← threadFork q env.threadFork
    -- nothing is undone here
    if err ≠ 0 then pure (-1 * err) else pure pid

/-- `fork`. -/
def sysFork (env : ForkEnv) : K Int := do
  let s ← get
  if s.ptable.numOfProcs = procMax then pure (fail .ENPROC)
  else if env.kmallocTrapframe = false then pure (fail .ENOMEM)
  else
    match ← procCreateRunprogram env.procCreate with
    | none => pure (fail .ENOMEM)
    | some q => forkInto q env

/-- The part of `_exit` for a parent that is still on the table. -/
def postToParent (parent : ProcRef) (alloc : Bool) (exitcode : BitVec 32) (P : Os161.Proc) :
    K Unit := do
  let _ ← readProc parent
  lockAcquire (.ops parent)
  postExitCode alloc (mkwaitExit exitcode) P.ppid P.pid
  lockRelease (.ops parent)

/-- The end of `_exit`: the process leaves the table and its thread exits. -/
def exitEnd (p : ProcRef) (P : Os161.Proc) : K Unit := do
  removeProcFromProctable P.pid
  lockRelease (.ops p)
  threadExit

/-- `_exit`; `alloc` is the outcome of the allocation in `post_exit_code`. It ends in
`thread_exit` and never comes back to the user. -/
def sysExit (exitcode : BitVec 32) (alloc : Bool) : K Unit := do
  let p ← curproc
  lockAcquire (.ops p)
  let P ← readProc p
  -- an uncounted pointer
  let parent ← getReferenceByPid P.ppid
  -- the codes of its own children
  remAllExitCodes P.pid
  match parent with
  | none => pure ()
  | some q => postToParent q alloc exitcode P
  exitEnd p P

/-- The status pointer given to `waitpid` and what `copyout` answers for it. -/
inductive StatusArg where
  | null
  | valid
  | bad
  deriving DecidableEq, Repr

/-- What `waitpid` gives back: its result, `*retval`, and what it stored through `status`. -/
structure WaitResult where
  err : Int
  retval : Int
  stored : Option (BitVec 32)
  deriving DecidableEq, Repr

/-- `waitpid` returning the error `e`. -/
def waitFail (e : Errno) : WaitResult := { err := fail e, retval := -1, stored := none }

/-- The loop of `waitpid`. Every sleep in `cv_wait` lets other processes run; `wakes` lists the
exit codes found after each wakeup, and a call that outlives the list is still asleep. -/
def waitLoop (p : ProcRef) (pid : Int) : List ExitCodes → K Unit
  | [] => do
      if (← isProcExited pid) then pure () else throw .hang
  | codes :: wakes => do
      if (← isProcExited pid) then pure ()
      else
        -- `cv_wait`: the lock is given up for the time of the sleep
        lockRelease (.ops p)
        modify fun s => { s with ptable := { s.ptable with activeExitCodes := codes } }
        lockAcquire (.ops p)
        waitLoop p pid wakes

/-- The end of `waitpid`: the status is taken from the table and copied out. -/
def waitCollect (p : ProcRef) (P : Os161.Proc) (pid : Int) (status : StatusArg) :
    K WaitResult := do
  -- the code is taken out of the table before `status` is tried
  let code ← getExitCode P.pid pid
  if status = .bad then
    lockRelease (.ops p)
    pure (waitFail .EFAULT)
  else
    lockRelease (.ops p)
    pure { err := 0, retval := pid, stored := if status = .valid then some code else none }

/-- `waitpid` on a process found on the table and not yet exited. The test for a child that is
not the caller's compares the truth value of its `ppid` being zero with the caller's pid. -/
def waitChild (p : ProcRef) (P : Os161.Proc) (child : ProcRef) (pid : Int) (status : StatusArg)
    (wakes : List ExitCodes) : K WaitResult := do
  let _ ← readProc child
  lockAcquire (.ops child)
  let C ← readProc child
  if (if C.ppid = 0 then (1 : Int) else 0) = P.pid ∨ pid = P.pid then
    lockRelease (.ops child)
    lockRelease (.ops p)
    pure (waitFail .ECHILD)
  else
    lockRelease (.ops child)
    waitLoop p pid wakes
    waitCollect p P pid status

/-- `waitpid` after the table lookup. -/
def waitFound (p : ProcRef) (P : Os161.Proc) (child : Option ProcRef) (pid : Int)
    (status : StatusArg) (wakes : List ExitCodes) : K WaitResult := do
  if (← isProcExited pid) then
    lockRelease (.ops p)
    -- already exited: nothing is stored, and the code stays on the table
    pure { err := 0, retval := pid, stored := none }
  else
    match child with
    | none => throw .panic
    | some c => waitChild p P c pid status wakes

/-- `waitpid`: the result and `*retval`. -/
def sysWaitpid (pid : Int) (status : StatusArg) (options : Int) (wakes : List ExitCodes) :
    K WaitResult := do
  if options ≠ 0 then pure (waitFail .EINVAL)
  else if pid < pidMin ∨ pid > pidMax then pure (waitFail .ESRCH)
  else
    let p ← curproc
    lockAcquire (.ops p)
    let P ← readProc p
    -- the process that is found need not be a child
    match ← getReferenceByPid pid with
    | some c => waitFound p P (some c) pid status wakes
    | none =>
        if (← isProcExited pid) then waitFound p P none pid status wakes
        else
          lockRelease (.ops p)
          pure (waitFail .ESRCH)

/-- `getpid`. -/
def sysGetpid : K Int := do
  let p ← curproc
  lockAcquire (.ops p)
  let P ← readProc p
  lockRelease (.ops p)
  pure P.pid

end Os161.Syscall

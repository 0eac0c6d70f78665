import Os161.Lib.Runs
import Os161.Syscall.Process

set_option autoImplicit false

/-!
# Interleaved waitpid, _exit and fork

The calls that processes use on each other, split where another process can run: at every
operation on an `ops_lock`, at every function that works under `proctable_lk`, and at the re-read
of `proc_array` after that lock has been released (`get_reference_by_pid`). A process is at a
program point (`Pc`); `plan` says which operation it does next and where it goes, `Op.apply` what
the operation does to the state (`step_cases`). An operation that has to wait, or that C gives no meaning because
a structure has been freed, has no successor state.

`History` keeps what happened, for the statements about whole runs. It has no influence on what the
processes do.
-/

namespace Os161.Interleave

open Os161.Lib.Runs
open Os161.Lib.Slots
open Os161.Proc
open Os161.Syscall

/-! ## Program points -/

/-- The arguments of a `waitpid`, and how many calls of `waitpid` had returned when it began. -/
structure Wait where
  pid : Int
  status : StatusArg
  start : Nat
  deriving DecidableEq, Repr

/-- The argument of `_exit`, and whether `post_exit_code` gets its memory. -/
structure Exit where
  code : BitVec 32
  alloc : Bool
  deriving DecidableEq, Repr

/-- What a process is about to do. -/
inductive Pc where
  /-- It has no thread yet. -/
  | new
  | user
  /-- `waitpid`: `lock_acquire(curproc->ops_lock)`. -/
  | waitOwn (w : Wait)
  /-- The search of `get_reference_by_pid`. -/
  | waitSearch (w : Wait)
  /-- Its return value, read after the lock has been released. -/
  | waitFetch (w : Wait) (found : Option (Fin procMax))
  /-- `child_proc == NULL && !is_proc_exited(..)`. -/
  | waitNull (w : Wait) (child : Option ProcRef)
  /-- `is_proc_exited(..)`. -/
  | waitExited (w : Wait) (child : Option ProcRef)
  /-- `lock_acquire(child_proc->ops_lock)`. -/
  | waitInner (w : Wait) (child : ProcRef)
  /-- The test of the child's `ppid`. -/
  | waitCheck (w : Wait) (child : ProcRef)
  /-- `lock_release(child_proc->ops_lock)` when the test has failed. -/
  | waitFailInner (w : Wait) (child : ProcRef)
  /-- `lock_release(child_proc->ops_lock)` when it has not. -/
  | waitPassInner (w : Wait) (child : ProcRef)
  /-- `while (!is_proc_exited(..))`. -/
  | waitLoop (w : Wait)
  /-- `cv_wait`: the lock is given up and the thread sleeps. -/
  | waitSleep (w : Wait)
  | waitAsleep (w : Wait)
  /-- The end of `cv_wait`: the lock is taken again. -/
  | waitWoken (w : Wait)
  /-- `get_exit_code`. -/
  | waitGet (w : Wait)
  /-- `copyout`. -/
  | waitCopy (w : Wait) (code : BitVec 32)
  /-- `lock_release(curproc->ops_lock)` before the return. -/
  | waitReturn (w : Wait) (r : WaitResult)
  /-- `_exit`: `lock_acquire(curproc->ops_lock)`. -/
  | exitOwn (x : Exit)
  | exitSearch (x : Exit)
  | exitFetch (x : Exit) (found : Option (Fin procMax))
  /-- `rem_all_exit_codes`. -/
  | exitRem (x : Exit) (parent : Option ProcRef)
  /-- `lock_acquire(parent_proc->ops_lock)`. -/
  | exitParent (x : Exit) (parent : ProcRef)
  /-- `post_exit_code`. -/
  | exitPost (x : Exit) (parent : ProcRef)
  /-- `lock_release(parent_proc->ops_lock)`. -/
  | exitUnlock (parent : ProcRef)
  /-- `cv_signal`. -/
  | exitSignal (parent : ProcRef)
  /-- `remove_proc_from_proctable`. -/
  | exitRemove
  /-- `lock_release(curproc->ops_lock)`. -/
  | exitRelease
  /-- `thread_exit`, which destroys the process. -/
  | exitThread
  /-- `fork`: `lock_acquire(curproc->ops_lock)`. -/
  | forkOwn (env : ForkEnv)
  /-- `get_next_pid` for the copy of the process. -/
  | forkNumber (env : ForkEnv)
  /-- `lock_release(curproc->ops_lock)` after `as_copy` has failed. -/
  | forkFail
  /-- `lock_release(curproc->ops_lock)`. -/
  | forkRelease (env : ForkEnv) (child : ProcRef)
  /-- `put_proc_on_proctable`. -/
  | forkPut (env : ForkEnv) (child : ProcRef)
  /-- `thread_fork`. -/
  | forkThread (env : ForkEnv) (child : ProcRef)
  deriving DecidableEq, Repr

/-! ## State -/

/-- A process. -/
structure Task where
  pid : Int
  ppid : Int
  pc : Pc

/-- A completed `waitpid`: the pid of the caller, the arguments and the result. -/
structure Done where
  caller : Int
  wait : Wait
  result : WaitResult
  deriving DecidableEq, Repr

/-- A call of `_exit`: the pid of the caller, the code, and whether the parent of the caller was
on the process table when it was made. -/
structure Left where
  pid : Int
  code : BitVec 32
  parentOnTable : Bool
  deriving DecidableEq, Repr

/-- What has happened. -/
structure History where
  /-- Every process there has been, with the pid of its parent. -/
  family : List (Int × Int)
  /-- The calls of `_exit`. -/
  exits : List Left
  /-- What has been given to `post_exit_code`. -/
  posted : List Pidxcode
  /-- The parents and children for which `get_exit_code` has been called. -/
  collected : List (Int × Int)
  /-- The completed calls of `waitpid`, the last one first. -/
  waits : List Done

/-- Processes with their locks, and the process table. -/
@[ext]
structure Machine where
  tasks : ProcRef → Option Task
  /-- Who holds the `ops_lock` of a process. -/
  owner : ProcRef → Option ProcRef
  ptable : ProcTable
  nextProc : ProcRef
  history : History

/-- One process, started from the menu. -/
def init : Machine :=
  { tasks := fun p => if p = 1 then some { pid := 0, ppid := -1, pc := .user } else none
    owner := fun _ => none
    ptable := { nextPid := pidMin, numOfProcs := 1
                procArray := fun i => if i.val = 0 then some 1 else none
                activeExitCodes := fun _ => none }
    nextProc := 2
    history := { family := [(0, -1)], exits := [], posted := [], collected := [], waits := [] } }

/-- The search of `get_reference_by_pid` and `remove_proc_from_proctable`. -/
def Machine.slotByPid (m : Machine) (pid : Int) : Option (Fin procMax) :=
  lastWith (fun q => (m.tasks q).any fun Q => Q.pid == pid) m.ptable.procArray

/-- `is_proc_exited`. -/
def Machine.exited (m : Machine) (pid : Int) : Bool :=
  ExitCodes.isProcExited m.ptable.activeExitCodes pid

/-- The process `p`, which was `T`, goes to `pc`. -/
def Machine.goto (m : Machine) (p : ProcRef) (T : Task) (pc : Pc) : Machine :=
  { m with tasks := Function.update m.tasks p (some { T with pc := pc }) }

/-! ## Operations -/

/-- What a step does besides moving the process on. -/
inductive Op where
  | nop
  /-- A `waitpid` that fails before it takes a lock. -/
  | refuse (w : Wait) (e : Errno)
  /-- `_exit` is called. -/
  | leave (code : BitVec 32)
  | take (r : ProcRef)
  | give (r : ProcRef)
  | collect (pid : Int)
  | finish (w : Wait) (r : WaitResult)
  | remAll
  | post (x : Exit)
  | signal (q : ProcRef)
  | remove
  | destroy
  | number
  | create
  | put (q : ProcRef)
  | start (q : ProcRef)

/-- What a process does next: a step of the call it is in, or a new call. -/
inductive Move where
  | tick
  | waitpid (pid : Int) (status : StatusArg) (options : Int)
  | exit (exitcode : BitVec 32) (alloc : Bool)
  | fork (env : ForkEnv)

/-- The beginning of a call. -/
def begin (m : Machine) : Move → Option (Op × Pc)
  | .tick => none
  | .waitpid pid status options =>
      let w : Wait := { pid := pid, status := status, start := m.history.waits.length }
      if options ≠ 0 then some (.refuse w .EINVAL, .user)
      else if pid < pidMin ∨ pid > pidMax then some (.refuse w .ESRCH, .user)
      else some (.nop, .waitOwn w)
  | .exit exitcode alloc => some (.leave exitcode, .exitOwn ⟨exitcode, alloc⟩)
  | .fork env =>
      -- the table is tested here, long before the child is put on it
      if m.ptable.numOfProcs = procMax ∨ env.kmallocTrapframe = false ∨ env.procCreate = false then
        some (.nop, .user)
      else some (.nop, .forkOwn env)

/-- The next step of the call that the process `p`, which is `T`, is in. -/
def advance (m : Machine) (p : ProcRef) (T : Task) : Option (Op × Pc) :=
  match T.pc with
  | .new => none
  | .user => none
  | .waitOwn w => some (.take p, .waitSearch w)
  | .waitSearch w => some (.nop, .waitFetch w (m.slotByPid w.pid))
  | .waitFetch w found => some (.nop, .waitNull w (found.bind m.ptable.procArray))
  | .waitNull w child =>
      if child = none ∧ m.exited w.pid = false then
        some (.nop, .waitReturn w (waitFail .ESRCH))
      else some (.nop, .waitExited w child)
  -- without a child the next step would follow a NULL pointer
  | .waitExited w child =>
      if m.exited w.pid then
        some (.nop, .waitReturn w { err := 0, retval := w.pid, stored := none })
      else child.map fun c => (.nop, .waitInner w c)
  | .waitInner w c => some (.take c, .waitCheck w c)
  | .waitCheck w c =>
      (m.tasks c).map fun C =>
        if (if C.ppid = 0 then (1 : Int) else 0) = T.pid ∨ w.pid = T.pid then
          (.nop, .waitFailInner w c)
        else (.nop, .waitPassInner w c)
  | .waitFailInner w c => some (.give c, .waitReturn w (waitFail .ECHILD))
  | .waitPassInner w c => some (.give c, .waitLoop w)
  | .waitLoop w => some (.nop, if m.exited w.pid then .waitGet w else .waitSleep w)
  | .waitSleep w => some (.give p, .waitAsleep w)
  -- until a signal
  | .waitAsleep _ => none
  | .waitWoken w => some (.take p, .waitLoop w)
  | .waitGet w =>
      some (.collect w.pid,
        .waitCopy w (ExitCodes.getExitCode m.ptable.activeExitCodes T.pid w.pid).1)
  | .waitCopy w code =>
      if w.status = .bad then some (.nop, .waitReturn w (waitFail .EFAULT))
      else some (.nop, .waitReturn w
        { err := 0, retval := w.pid, stored := if w.status = .valid then some code else none })
  | .waitReturn w r => some (.finish w r, .user)
  | .exitOwn x => some (.take p, .exitSearch x)
  | .exitSearch x => some (.nop, .exitFetch x (m.slotByPid T.ppid))
  | .exitFetch x found => some (.nop, .exitRem x (found.bind m.ptable.procArray))
  -- the parent was found before the codes are removed, and may be gone by now
  | .exitRem x parent =>
      match parent with
      | none => some (.remAll, .exitRemove)
      | some q => some (.remAll, .exitParent x q)
  | .exitParent x q => some (.take q, .exitPost x q)
  | .exitPost x q => some (.post x, .exitUnlock q)
  | .exitUnlock q => some (.give q, .exitSignal q)
  | .exitSignal q => some (.signal q, .exitRemove)
  | .exitRemove => some (.remove, .exitRelease)
  | .exitRelease => some (.give p, .exitThread)
  | .exitThread => some (.destroy, .exitThread)
  | .forkOwn env => some (.take p, .forkNumber env)
  | .forkNumber env =>
      if env.asCopy ≠ 0 then some (.number, .forkFail)
      else some (.create, .forkRelease env m.nextProc)
  | .forkFail => some (.give p, .user)
  | .forkRelease env q => some (.give p, .forkPut env q)
  | .forkPut env q => some (.put q, .forkThread env q)
  -- the error of `thread_fork` undoes nothing
  | .forkThread env q => if env.threadFork = 0 then some (.start q, .user) else some (.nop, .user)

/-- The next operation of the process `p`, and where it goes. -/
def plan (m : Machine) (p : ProcRef) (T : Task) : Move → Option (Op × Pc)
  | .tick => advance m p T
  | move => if T.pc = .user then begin m move else none

/-- What an operation of the process `p`, which was `T`, does after `p` has moved on. -/
def Op.apply (m : Machine) (p : ProcRef) (T : Task) : Op → Option Machine
  | .nop => some m
  | .refuse w e =>
      some { m with history := { m.history with
        waits := ⟨T.pid, w, waitFail e⟩ :: m.history.waits } }
  | .leave code =>
      some { m with history := { m.history with
        exits := ⟨T.pid, code, (m.slotByPid T.ppid).isSome⟩ :: m.history.exits } }
  -- a lock of a destroyed process cannot be taken
  | .take r =>
      if (m.tasks r).isSome ∧ m.owner r = none then
        some { m with owner := Function.update m.owner r (some p) }
      else none
  | .give r =>
      if m.owner r = some p then some { m with owner := Function.update m.owner r none } else none
  | .collect pid =>
      some { m with
        ptable := { m.ptable with
          activeExitCodes := (ExitCodes.getExitCode m.ptable.activeExitCodes T.pid pid).2 }
        history := { m.history with collected := (T.pid, pid) :: m.history.collected } }
  | .finish w r =>
      if m.owner p = some p then
        some { m with
          owner := Function.update m.owner p none
          history := { m.history with waits := ⟨T.pid, w, r⟩ :: m.history.waits } }
      else none
  | .remAll =>
      some { m with
        ptable := { m.ptable with
          activeExitCodes := ExitCodes.remAllExitCodes m.ptable.activeExitCodes T.pid } }
  | .post x =>
      let e : Pidxcode := { ppid := T.ppid, pid := T.pid, exitCode := mkwaitExit x.code }
      some { m with
        ptable := { m.ptable with
          activeExitCodes :=
            if x.alloc then ExitCodes.postExitCode m.ptable.activeExitCodes e
            else m.ptable.activeExitCodes }
        history := { m.history with posted := e :: m.history.posted } }
  -- a signal without a sleeper is lost
  | .signal q =>
      (m.tasks q).map fun Q =>
        match Q.pc with
        | .waitAsleep w => m.goto q Q (.waitWoken w)
        | _ => m
  | .remove =>
      match m.slotByPid T.pid with
      | none => some m
      | some i => some { m with
          ptable := { m.ptable with
            procArray := Function.update m.ptable.procArray i none
            numOfProcs := m.ptable.numOfProcs - 1 } }
  | .destroy =>
      -- `lock_destroy` asserts that nobody holds the lock
      if m.owner p = none then some { m with tasks := Function.update m.tasks p none } else none
  | .number => some { m with ptable := { m.ptable with nextPid := m.ptable.nextPid + 1 } }
  | .create =>
      some { m with
        tasks := Function.update m.tasks m.nextProc
          (some { pid := m.ptable.nextPid, ppid := T.pid, pc := .new })
        ptable := { m.ptable with nextPid := m.ptable.nextPid + 1 }
        nextProc := m.nextProc + 1
        history := { m.history with family := (m.ptable.nextPid, T.pid) :: m.history.family } }
  | .put q =>
      match firstFree m.ptable.procArray with
      -- a full table drops the child without a word
      | none => some m
      | some i => some { m with
          ptable := { m.ptable with
            procArray := Function.update m.ptable.procArray i (some q)
            numOfProcs := m.ptable.numOfProcs + 1 } }
  | .start q => (m.tasks q).map fun Q => if Q.pc = .new then m.goto q Q .user else m

/-! ## Steps -/

/-- A move and the process that makes it. -/
structure Action where
  caller : ProcRef
  move : Move

/-- One action, computed. -/
def exec (m : Machine) (a : Action) : Option Machine :=
  (m.tasks a.caller).bind fun T =>
    (plan m a.caller T a.move).bind fun x => x.1.apply (m.goto a.caller T x.2) a.caller T

/-- One action. -/
def step (m : Machine) (a : Action) (m' : Machine) : Prop := exec m a = some m'

/-! ## The transitions of a process -/

/-- The transitions of the process `p`, which is `T`: from where, with which operation, to where, and
what it has found out about the state. -/
inductive Goes (m : Machine) (p : ProcRef) (T : Task) : Pc → Op → Pc → Prop where
  | refuse (w : Wait) (e : Errno) : w.start = m.history.waits.length →
      Goes m p T .user (.refuse w e) .user
  | waitpid (w : Wait) : w.start = m.history.waits.length → Goes m p T .user .nop (.waitOwn w)
  | exit (x : Exit) : Goes m p T .user (.leave x.code) (.exitOwn x)
  | forkRefuse : Goes m p T .user .nop .user
  | fork (env : ForkEnv) : Goes m p T .user .nop (.forkOwn env)
  | waitOwn (w : Wait) : Goes m p T (.waitOwn w) (.take p) (.waitSearch w)
  | waitSearch (w : Wait) : Goes m p T (.waitSearch w) .nop (.waitFetch w (m.slotByPid w.pid))
  | waitFetch (w : Wait) (found : Option (Fin procMax)) :
      Goes m p T (.waitFetch w found) .nop (.waitNull w (found.bind m.ptable.procArray))
  | waitMissing (w : Wait) : m.exited w.pid = false →
      Goes m p T (.waitNull w none) .nop (.waitReturn w (waitFail .ESRCH))
  | waitNull (w : Wait) (child : Option ProcRef) : child ≠ none ∨ m.exited w.pid = true →
      Goes m p T (.waitNull w child) .nop (.waitExited w child)
  | waitAlready (w : Wait) (child : Option ProcRef) : m.exited w.pid = true →
      Goes m p T (.waitExited w child) .nop
        (.waitReturn w { err := 0, retval := w.pid, stored := none })
  | waitExited (w : Wait) (c : ProcRef) : m.exited w.pid = false →
      Goes m p T (.waitExited w (some c)) .nop (.waitInner w c)
  | waitInner (w : Wait) (c : ProcRef) : Goes m p T (.waitInner w c) (.take c) (.waitCheck w c)
  | waitCheckFail (w : Wait) (c : ProcRef) :
      Goes m p T (.waitCheck w c) .nop (.waitFailInner w c)
  | waitCheckPass (w : Wait) (c : ProcRef) :
      Goes m p T (.waitCheck w c) .nop (.waitPassInner w c)
  | waitFailInner (w : Wait) (c : ProcRef) :
      Goes m p T (.waitFailInner w c) (.give c) (.waitReturn w (waitFail .ECHILD))
  | waitPassInner (w : Wait) (c : ProcRef) : Goes m p T (.waitPassInner w c) (.give c) (.waitLoop w)
  | waitDone (w : Wait) : m.exited w.pid = true → Goes m p T (.waitLoop w) .nop (.waitGet w)
  | waitMore (w : Wait) : m.exited w.pid = false → Goes m p T (.waitLoop w) .nop (.waitSleep w)
  | waitSleep (w : Wait) : Goes m p T (.waitSleep w) (.give p) (.waitAsleep w)
  | waitWoken (w : Wait) : Goes m p T (.waitWoken w) (.take p) (.waitLoop w)
  | waitGet (w : Wait) : Goes m p T (.waitGet w) (.collect w.pid)
      (.waitCopy w (ExitCodes.getExitCode m.ptable.activeExitCodes T.pid w.pid).1)
  | waitBad (w : Wait) (code : BitVec 32) :
      Goes m p T (.waitCopy w code) .nop (.waitReturn w (waitFail .EFAULT))
  | waitCopy (w : Wait) (code : BitVec 32) : Goes m p T (.waitCopy w code) .nop
      (.waitReturn w
        { err := 0, retval := w.pid, stored := if w.status = .valid then some code else none })
  | waitReturn (w : Wait) (r : WaitResult) : Goes m p T (.waitReturn w r) (.finish w r) .user
  | exitOwn (x : Exit) : Goes m p T (.exitOwn x) (.take p) (.exitSearch x)
  | exitSearch (x : Exit) : Goes m p T (.exitSearch x) .nop (.exitFetch x (m.slotByPid T.ppid))
  | exitFetch (x : Exit) (found : Option (Fin procMax)) :
      Goes m p T (.exitFetch x found) .nop (.exitRem x (found.bind m.ptable.procArray))
  | exitOrphan (x : Exit) : Goes m p T (.exitRem x none) .remAll .exitRemove
  | exitRem (x : Exit) (q : ProcRef) : Goes m p T (.exitRem x (some q)) .remAll (.exitParent x q)
  | exitParent (x : Exit) (q : ProcRef) : Goes m p T (.exitParent x q) (.take q) (.exitPost x q)
  | exitPost (x : Exit) (q : ProcRef) : Goes m p T (.exitPost x q) (.post x) (.exitUnlock q)
  | exitUnlock (q : ProcRef) : Goes m p T (.exitUnlock q) (.give q) (.exitSignal q)
  | exitSignal (q : ProcRef) : Goes m p T (.exitSignal q) (.signal q) .exitRemove
  | exitRemove : Goes m p T .exitRemove .remove .exitRelease
  | exitRelease : Goes m p T .exitRelease (.give p) .exitThread
  | exitThread : Goes m p T .exitThread .destroy .exitThread
  | forkOwn (env : ForkEnv) : Goes m p T (.forkOwn env) (.take p) (.forkNumber env)
  | forkNumber (env : ForkEnv) : Goes m p T (.forkNumber env) .number .forkFail
  | forkCreate (env : ForkEnv) :
      Goes m p T (.forkNumber env) .create (.forkRelease env m.nextProc)
  | forkFail : Goes m p T .forkFail (.give p) .user
  | forkRelease (env : ForkEnv) (q : ProcRef) :
      Goes m p T (.forkRelease env q) (.give p) (.forkPut env q)
  | forkPut (env : ForkEnv) (q : ProcRef) : Goes m p T (.forkPut env q) (.put q) (.forkThread env q)
  | forkThread (env : ForkEnv) (q : ProcRef) : env.threadFork = 0 →
      Goes m p T (.forkThread env q) (.start q) .user
  | forkNoThread (env : ForkEnv) (q : ProcRef) : Goes m p T (.forkThread env q) .nop .user

theorem goes_of_begin {m : Machine} {p : ProcRef} {T : Task} {move : Move} {op : Op} {pc : Pc}
    (h : begin m move = some (op, pc)) : Goes m p T .user op pc := by
  cases move with
  | tick => cases h
  | waitpid pid status options =>
      simp only [begin] at h
      split_ifs at h
      · cases h
        exact .refuse _ _ rfl
      · cases h
        exact .refuse _ _ rfl
      · cases h
        exact .waitpid _ rfl
  | exit exitcode alloc =>
      cases h
      exact .exit ⟨exitcode, alloc⟩
  | fork env =>
      simp only [begin] at h
      split_ifs at h
      · cases h
        exact .forkRefuse
      · cases h
        exact .fork env

theorem goes_of_advance {m : Machine} {p : ProcRef} {T : Task} {op : Op} {pc : Pc}
    (h : advance m p T = some (op, pc)) : Goes m p T T.pc op pc := by
  unfold advance at h
  split at h
  case h_1 | h_2 | h_14 => cases h
  case h_6 w child hpc =>
    rw [hpc]
    split_ifs at h with hn
    · cases h
      rw [hn.1]
      exact .waitMissing w hn.2
    · cases h
      refine .waitNull w child ?_
      by_contra hc
      simp only [not_or, not_not, Bool.not_eq_true] at hc
      exact hn hc
  case h_7 w child hpc =>
    rw [hpc]
    split_ifs at h with hex
    · cases h
      exact .waitAlready w child hex
    · obtain ⟨c, rfl, hc⟩ := Option.map_eq_some_iff.1 h
      cases hc
      exact .waitExited w c (Bool.not_eq_true _ ▸ hex)
  case h_9 w c hpc =>
    rw [hpc]
    obtain ⟨C, -, hC⟩ := Option.map_eq_some_iff.1 h
    rcases ite_eq_iff.1 hC with ⟨-, hC⟩ | ⟨-, hC⟩
    · cases hC
      exact .waitCheckFail w c
    · cases hC
      exact .waitCheckPass w c
  case h_12 w hpc =>
    rw [hpc]
    cases h
    split_ifs with hex
    · exact .waitDone w hex
    · exact .waitMore w (Bool.not_eq_true _ ▸ hex)
  case h_17 w code hpc =>
    rw [hpc]
    rcases ite_eq_iff.1 h with ⟨-, h⟩ | ⟨-, h⟩
    · cases h
      exact .waitBad w code
    · cases h
      exact .waitCopy w code
  case h_22 x parent hpc =>
    rw [hpc]
    split at h
    · cases h
      exact .exitOrphan x
    · cases h
      exact .exitRem x _
  case h_31 env hpc =>
    rw [hpc]
    split_ifs at h
    · cases h
      exact .forkNumber env
    · cases h
      exact .forkCreate env
  case h_35 env q hpc =>
    rw [hpc]
    split_ifs at h with hzero
    · cases h
      exact .forkThread env q hzero
    · cases h
      exact .forkNoThread env q
  -- the other program points have one transition, which asks nothing
  all_goals
    rename_i hpc
    rw [hpc]
    cases h
    constructor

theorem goes_of_plan {m : Machine} {p : ProcRef} {T : Task} {move : Move} {op : Op} {pc : Pc}
    (h : plan m p T move = some (op, pc)) : Goes m p T T.pc op pc := by
  have hbegin : ∀ {move}, (if T.pc = .user then begin m move else none) = some (op, pc) →
      Goes m p T T.pc op pc := by
    intro move h
    split_ifs at h with hu
    rw [hu]
    exact goes_of_begin h
  cases move with
  | tick => exact goes_of_advance h
  | waitpid pid status options => exact hbegin h
  | exit exitcode alloc => exact hbegin h
  | fork env => exact hbegin h

theorem step_cases {m m' : Machine} {a : Action} (h : step m a m') :
    ∃ T op pc, m.tasks a.caller = some T ∧ Goes m a.caller T T.pc op pc ∧
      op.apply (m.goto a.caller T pc) a.caller T = some m' := by
  obtain ⟨T, hT, h⟩ := Option.bind_eq_some_iff.1 h
  obtain ⟨⟨op, pc⟩, hplan, happly⟩ := Option.bind_eq_some_iff.1 h
  exact ⟨T, op, pc, hT, goes_of_plan hplan, happly⟩

end Os161.Interleave

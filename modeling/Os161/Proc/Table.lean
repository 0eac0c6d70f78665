import Os161.Vfs.File

set_option autoImplicit false

/-!
# The process table

The functions of `proc/proc.c`: the exit codes kept for the parents (`ExitCodes`), the table of
processes, and the creation and destruction of processes. The functions on the two arrays alone
are plain functions, shared with the step machine of `waitpid` and `_exit`.

`getReferenceByPid` and `removeProcFromProctable` use the last entry with the pid they look for.
-/

namespace Os161.Proc

open Os161.Lib.Program
open Os161.Lib.Slots
open Os161.Vfs

/-! ## Exit codes -/

/-- `active_exit_codes`. -/
abbrev ExitCodes : Type := Table procMax Pidxcode

/-- The search of `is_proc_exited`: some entry carries this pid, whoever its parent is. -/
def ExitCodes.isProcExited (codes : ExitCodes) (pid : Int) : Bool :=
  (firstWith (fun e => e.pid == pid) codes).isSome

/-- The loop of `rem_all_exit_codes`. -/
def ExitCodes.remAllExitCodes (codes : ExitCodes) (pid : Int) : ExitCodes :=
  fun i => (codes i).filter fun e => e.ppid != pid

/-- The loop of `post_exit_code`: a full table drops the entry. -/
def ExitCodes.postExitCode (codes : ExitCodes) (e : Pidxcode) : ExitCodes :=
  match firstFree codes with
  | none => codes
  | some i => Function.update codes i (some e)

/-- The loop of `get_exit_code`: the first entry of this parent and child is taken out. -/
def ExitCodes.getExitCode (codes : ExitCodes) (ppid pid : Int) : BitVec 32 × ExitCodes :=
  match firstWith (fun e => e.ppid == ppid && e.pid == pid) codes with
  | none => (-1, codes)
  | some i => ((codes i).elim (-1) Pidxcode.exitCode, Function.update codes i none)

/-- `is_proc_exited`. -/
def isProcExited (pid : Int) : K Bool := do
  lockAcquire .proctable
  let s ← get
  lockRelease .proctable
  pure (ExitCodes.isProcExited s.ptable.activeExitCodes pid)

theorem runs_isProcExited {pid : Int} {b : Bool} {s s' : Kernel}
    (h : Runs (isProcExited pid) s b s') :
    b = ExitCodes.isProcExited s.ptable.activeExitCodes pid ∧ s' = s := by
  simp only [isProcExited, runs_bind, runs_lockAcquire, runs_get, runs_lockRelease,
    runs_pure] at h
  obtain ⟨_, s₁, ⟨hfree, rfl⟩, t, s₂, ⟨rfl, rfl⟩, _, s₃, ⟨-, rfl⟩, rfl, rfl⟩ := h
  refine ⟨rfl, ?_⟩
  simp only [update_held_cancel hfree]

/-- `rem_all_exit_codes`. -/
def remAllExitCodes (pid : Int) : K Unit := do
  lockAcquire .proctable
  modify fun s =>
    { s with ptable := { s.ptable with
        activeExitCodes := ExitCodes.remAllExitCodes s.ptable.activeExitCodes pid } }
  lockRelease .proctable

theorem runs_remAllExitCodes {pid : Int} {u : Unit} {s s' : Kernel}
    (h : Runs (remAllExitCodes pid) s u s') :
    s' = { s with ptable := { s.ptable with
      activeExitCodes := ExitCodes.remAllExitCodes s.ptable.activeExitCodes pid } } := by
  simp only [remAllExitCodes, runs_bind, runs_lockAcquire, runs_modify, runs_lockRelease] at h
  obtain ⟨_, s₁, ⟨hfree, rfl⟩, _, s₂, rfl, -, rfl⟩ := h
  simp only [update_held_cancel hfree]

/-- `post_exit_code`; nothing is posted when the entry cannot be allocated. -/
def postExitCode (alloc : Bool) (rawexcode : BitVec 32) (ppid pid : Int) : K Unit := do
  lockAcquire .proctable
  if alloc then
    modify fun s =>
      { s with ptable := { s.ptable with
          activeExitCodes := ExitCodes.postExitCode s.ptable.activeExitCodes
            { ppid := ppid, pid := pid, exitCode := rawexcode } } }
  else pure ()
  lockRelease .proctable

theorem runs_postExitCode {alloc : Bool} {code : BitVec 32} {ppid pid : Int} {u : Unit}
    {s s' : Kernel} (h : Runs (postExitCode alloc code ppid pid) s u s') :
    ∃ codes, s' = { s with ptable := { s.ptable with activeExitCodes := codes } } := by
  cases alloc with
  | true =>
      simp only [postExitCode, if_true, runs_bind, runs_lockAcquire, runs_modify,
        runs_lockRelease] at h
      obtain ⟨_, s₁, ⟨hfree, rfl⟩, _, s₂, rfl, -, rfl⟩ := h
      simp only [update_held_cancel hfree]
      exact ⟨_, rfl⟩
  | false =>
      simp only [postExitCode, Bool.false_eq_true, if_false, runs_bind, runs_lockAcquire,
        runs_lockRelease] at h
      obtain ⟨_, s₁, ⟨hfree, rfl⟩, -, rfl⟩ := h
      exact ⟨s.ptable.activeExitCodes, by simp only [update_held_cancel hfree]⟩

/-- `get_exit_code`. -/
def getExitCode (ppid pid : Int) : K (BitVec 32) := do
  lockAcquire .proctable
  let s ← get
  let r := ExitCodes.getExitCode s.ptable.activeExitCodes ppid pid
  modify fun s => { s with ptable := { s.ptable with activeExitCodes := r.2 } }
  lockRelease .proctable
  pure r.1

/-! ## The table -/

/-- `get_next_pid`. -/
def getNextPid : K Int := do
  lockAcquire .proctable
  let s ← get
  modify fun s => { s with ptable := { s.ptable with nextPid := s.ptable.nextPid + 1 } }
  lockRelease .proctable
  pure s.ptable.nextPid

theorem runs_getNextPid {n : Int} {s s' : Kernel} (h : Runs getNextPid s n s') :
    n = s.ptable.nextPid ∧
      s' = { s with ptable := { s.ptable with nextPid := s.ptable.nextPid + 1 } } := by
  simp only [getNextPid, runs_bind, runs_lockAcquire, runs_get, runs_modify, runs_lockRelease,
    runs_pure] at h
  obtain ⟨_, s₁, ⟨hfree, rfl⟩, t, s₂, ⟨rfl, rfl⟩, _, s₃, rfl, _, s₄, ⟨-, rfl⟩, rfl, rfl⟩ := h
  refine ⟨rfl, ?_⟩
  simp only [update_held_cancel hfree]

/-- `put_proc_on_proctable`. The argument may be NULL: the slot then stays empty and the counter
grows all the same. -/
def putProcOnProctable (p : Option ProcRef) : K Int := do
  lockAcquire .proctable
  let s ← get
  match firstFree s.ptable.procArray with
  | none =>
      lockRelease .proctable
      pure (-1)
  | some i =>
      modify fun s =>
        { s with ptable := { s.ptable with
            procArray := Function.update s.ptable.procArray i p
            numOfProcs := s.ptable.numOfProcs + 1 } }
      lockRelease .proctable
      pure 0

/-- `put_proc_on_proctable` uses the first empty slot, if there is one. -/
theorem runs_putProcOnProctable {x : Option ProcRef} {n : Int} {s s' : Kernel}
    (h : Runs (putProcOnProctable x) s n s') :
    (firstFree s.ptable.procArray = none ∧ s' = s) ∨
      (∃ i, firstFree s.ptable.procArray = some i ∧
        s' = { s with ptable := { s.ptable with
          procArray := Function.update s.ptable.procArray i x
          numOfProcs := s.ptable.numOfProcs + 1 } }) := by
  simp only [putProcOnProctable, runs_bind, runs_lockAcquire, runs_get] at h
  obtain ⟨_, s₁, ⟨hfree, rfl⟩, t, s₂, ⟨rfl, rfl⟩, h⟩ := h
  cases hf : firstFree s.ptable.procArray with
  | none =>
      simp only [hf, runs_bind, runs_lockRelease, runs_pure] at h
      obtain ⟨_, s₃, ⟨-, rfl⟩, -, rfl⟩ := h
      exact .inl ⟨rfl, by simp only [update_held_cancel hfree]⟩
  | some i =>
      simp only [hf, runs_bind, runs_modify, runs_lockRelease, runs_pure] at h
      obtain ⟨_, s₃, rfl, _, s₄, ⟨-, rfl⟩, -, rfl⟩ := h
      exact .inr ⟨i, rfl, by simp only [update_held_cancel hfree]⟩

/-- The test of the loops over `proc_array`. -/
def testPid (pid : Int) : Option ProcRef → K Bool
  | none => pure false
  | some p => do
      let P ← readProc p
      pure (P.pid == pid)

theorem reads_testPid (t : Table procMax ProcRef) (pid : Int) (s : Kernel) :
    Reads (fun i => testPid pid (t i)) s fun i =>
      (t i).any fun p => (s.procs p).any fun P => P.pid == pid := by
  intro i b s' h
  change Runs (testPid pid (t i)) s b s' at h
  cases hi : t i with
  | none =>
      rw [hi] at h
      obtain ⟨rfl, rfl⟩ := (runs_pure _ _ _ _).1 h
      exact ⟨rfl, by simp [hi]⟩
  | some p =>
      rw [hi] at h
      simp only [testPid, runs_bind, runs_readProc, runs_pure] at h
      obtain ⟨P, s₁, ⟨hP, rfl⟩, rfl, rfl⟩ := h
      exact ⟨rfl, by simp [hi, hP]⟩

/-- The entry that the loops over `proc_array` find: the last one with this pid. -/
def slotByPid (s : Kernel) (pid : Int) : Option (Fin procMax) :=
  lastWith (fun p => (s.procs p).any fun P => P.pid == pid) s.ptable.procArray

theorem runs_scanPid {s s' : Kernel} {pid : Int} {x : Option (Fin procMax)}
    (h : Runs (scanLast (fun i => testPid pid (s.ptable.procArray i)) none
      (List.finRange procMax)) s x s') : s' = s ∧ x = slotByPid s pid := by
  obtain ⟨hs, hx⟩ := runs_scanLast (reads_testPid _ _ _) _ h
  refine ⟨hs, ?_⟩
  rw [hx, Option.or_none]
  rfl

/-- `remove_proc_from_proctable`. -/
def removeProcFromProctable (pid : Int) : K Unit := do
  lockAcquire .proctable
  let s ← get
  let found ← scanLast (fun i => testPid pid (s.ptable.procArray i)) none (List.finRange procMax)
  match found with
  | none => pure ()
  | some i =>
      modify fun s =>
        { s with ptable := { s.ptable with
            procArray := Function.update s.ptable.procArray i none
            numOfProcs := s.ptable.numOfProcs - 1 } }
  lockRelease .proctable

theorem runs_removeProcFromProctable {pid : Int} {u : Unit} {s s' : Kernel}
    (h : Runs (removeProcFromProctable pid) s u s') :
    (slotByPid s pid = none ∧ s' = s) ∨
      (∃ i, slotByPid s pid = some i ∧
        s' = { s with ptable := { s.ptable with
          procArray := Function.update s.ptable.procArray i none
          numOfProcs := s.ptable.numOfProcs - 1 } }) := by
  simp only [removeProcFromProctable, runs_bind, runs_lockAcquire, runs_get] at h
  obtain ⟨_, s₁, ⟨hfree, rfl⟩, t, s₂, ⟨rfl, rfl⟩, found, s₃, hscan, h⟩ := h
  obtain ⟨rfl, hfound⟩ := runs_scanPid (s := { s with
    held := Function.update s.held .proctable (some s.curproc) }) hscan
  have e : slotByPid { s with held := Function.update s.held .proctable (some s.curproc) } pid =
      slotByPid s pid := rfl
  rw [e] at hfound
  subst hfound
  cases hs : slotByPid s pid with
  | none =>
      simp only [hs, runs_lockRelease] at h
      obtain ⟨-, rfl⟩ := h
      exact .inl ⟨rfl, by simp only [update_held_cancel hfree]⟩
  | some i =>
      simp only [hs, runs_bind, runs_modify, runs_lockRelease] at h
      obtain ⟨_, s₄, rfl, -, rfl⟩ := h
      exact .inr ⟨i, rfl, by simp only [update_held_cancel hfree]⟩

/-- `get_reference_by_pid`. -/
def getReferenceByPid (pid : Int) : K (Option ProcRef) := do
  lockAcquire .proctable
  let s ← get
  let found ← scanLast (fun i => testPid pid (s.ptable.procArray i)) none (List.finRange procMax)
  lockRelease .proctable
  pure (found.bind s.ptable.procArray)

theorem runs_getReferenceByPid {pid : Int} {x : Option ProcRef} {s s' : Kernel}
    (h : Runs (getReferenceByPid pid) s x s') :
    x = (slotByPid s pid).bind s.ptable.procArray ∧ s' = s := by
  simp only [getReferenceByPid, runs_bind, runs_lockAcquire, runs_get, runs_lockRelease,
    runs_pure] at h
  obtain ⟨_, s₁, ⟨hfree, rfl⟩, t, s₂, ⟨rfl, rfl⟩, found, s₃, hscan, _, s₄, ⟨-, rfl⟩, rfl, rfl⟩ := h
  obtain ⟨rfl, rfl⟩ := runs_scanPid (s := { s with
    held := Function.update s.held .proctable (some s.curproc) }) hscan
  refine ⟨rfl, ?_⟩
  simp only [update_held_cancel hfree]

/-! ## Processes -/

/-- The kernel's own process; it is created first and never put on the table. -/
def kproc : ProcRef := 0

/-- `proc_create`. When one of its allocations fails it undoes the others and returns NULL. -/
def procCreate (alloc : Bool) : K (Option ProcRef) := do
  if alloc then
    let t ← pFiletableCreate
    let s ← get
    modify fun s =>
      { s with
        procs := Function.update s.procs s.nextProc
          (some { pid := 0, ppid := -1, pNumthreads := 0, pAddrspace := false, pCwd := none,
                  pFiletable := t })
        nextProc := s.nextProc + 1 }
    pure (some s.nextProc)
  else pure none

/-- `proc_create_runprogram`: the new process inherits the current directory. -/
def procCreateRunprogram (alloc : Bool) : K (Option ProcRef) := do
  match ← procCreate alloc with
  | none => pure none
  | some q =>
      let P ← readProc (← curproc)
      let Q ← readProc q
      match P.pCwd with
      | none => pure ()
      | some v =>
          modify fun s => { s with vnCwd := Function.update s.vnCwd v (s.vnCwd v + 1) }
          writeProc q { Q with pCwd := some v }
      pure (some q)

/-- The process `proc_create_runprogram` makes: it has no address space and the standard files. -/
structure NewProc (s : Kernel) (Q : Os161.Proc) : Prop where
  pid : Q.pid = 0
  pAddrspace : Q.pAddrspace = false
  files : Q.pFiletable.files = fun i => if i.val < 3 then s.gft.openFiles i else none

theorem runs_procCreateRunprogram {alloc : Bool} {x : Option ProcRef} {s s' : Kernel}
    (h : Runs (procCreateRunprogram alloc) s x s') :
    (x = none ∧ alloc = false ∧ s' = s) ∨
      (x = some s.nextProc ∧ alloc = true ∧ ∃ Q vn, NewProc s Q ∧
        s' = { s with
          procs := Function.update s.procs s.nextProc (some Q)
          nextProc := s.nextProc + 1
          vnCwd := vn }) := by
  cases alloc with
  | false =>
      simp only [procCreateRunprogram, procCreate, Bool.false_eq_true, if_false, runs_bind,
        runs_pure] at h
      obtain ⟨y, s₁, ⟨rfl, rfl⟩, h⟩ := h
      obtain ⟨rfl, rfl⟩ := (runs_pure _ _ _ _).1 h
      exact .inl ⟨rfl, rfl, rfl⟩
  | true =>
      simp only [procCreateRunprogram, procCreate, pFiletableCreate, if_true, runs_bind, runs_get,
        runs_modify, runs_pure] at h
      obtain ⟨y, s₁, ⟨t, s₂, ⟨u, s₃, ⟨rfl, rfl⟩, rfl, rfl⟩, w, s₄, ⟨rfl, rfl⟩, _, s₅, rfl, rfl, rfl⟩,
        h⟩ := h
      simp only [runs_bind, runs_curproc, runs_readProc] at h
      obtain ⟨c, s₆, ⟨rfl, rfl⟩, P, s₇, ⟨-, rfl⟩, Q, s₈, ⟨hQ, rfl⟩, h⟩ := h
      simp only [Function.update_self, Option.some.injEq] at hQ
      subst hQ
      right
      cases hc : P.pCwd with
      | none =>
          simp only [hc, runs_pure] at h
          obtain ⟨rfl, rfl⟩ := h
          exact ⟨rfl, rfl, _, _, ⟨rfl, rfl, rfl⟩, rfl⟩
      | some v =>
          simp only [hc, runs_bind, runs_modify, runs_writeProc, runs_pure] at h
          obtain ⟨_, s₉, rfl, _, s₁₀, ⟨-, rfl⟩, rfl, rfl⟩ := h
          refine ⟨rfl, rfl, ?_⟩
          simp only [Function.update_idem]
          exact ⟨_, _, ⟨rfl, rfl, rfl⟩, rfl⟩

/-- `VOP_DECREF` on the current directory of a process that is destroyed. -/
def decrefCwd : Option VnodeRef → K Unit
  | none => pure ()
  | some v => modify fun s => { s with vnCwd := Function.update s.vnCwd v (s.vnCwd v - 1) }

theorem runs_decrefCwd {x : Option VnodeRef} {u : Unit} {s s' : Kernel}
    (h : Runs (decrefCwd x) s u s') : ∃ vn, s' = { s with vnCwd := vn } := by
  cases x with
  | none =>
      obtain ⟨-, rfl⟩ := (runs_pure _ _ _ _).1 h
      exact ⟨s'.vnCwd, rfl⟩
  | some v => exact ⟨_, (runs_modify _ _ _ _).1 h⟩

/-- The end of `proc_destroy`: no thread may be left, and the structure is freed. -/
def procFree (p : ProcRef) : K Unit := do
  let P ← readProc p
  if P.pNumthreads ≠ 0 then throw .panic
  lockDestroy (.ops p)
  modify fun s => { s with procs := Function.update s.procs p none }

theorem runs_procFree {p : ProcRef} {u : Unit} {s s' : Kernel} (h : Runs (procFree p) s u s') :
    s' = { s with procs := Function.update s.procs p none } := by
  simp only [procFree, runs_bind, runs_readProc, runs_ite, runs_throw, false_and, exists_false,
    and_false, false_or, runs_lockDestroy, runs_modify] at h
  obtain ⟨P, s₁, ⟨-, rfl⟩, -, _, s₂, ⟨-, rfl⟩, rfl⟩ := h
  rfl

/-- `proc_destroy`. The file table is closed only when the process has an address space. -/
def procDestroy (p : ProcRef) : K Unit := do
  if p = kproc then throw .panic
  let P ← readProc p
  decrefCwd P.pCwd
  if P.pAddrspace then pFiletableDestroy p
  procFree p

/-- `thread_fork` into a process: the result of its allocations, and one more thread. -/
def threadFork (p : ProcRef) (result : Int) : K Int := do
  if result = 0 then
    let P ← readProc p
    writeProc p { P with pNumthreads := P.pNumthreads + 1 }
  pure result

/-- `thread_exit` up to the switch: `proc_remthread` destroys the process at once. -/
def threadExit : K Unit := do
  let p ← curproc
  let P ← readProc p
  if P.pNumthreads = 0 then throw .panic
  writeProc p { P with pNumthreads := P.pNumthreads - 1 }
  procDestroy p

end Os161.Proc

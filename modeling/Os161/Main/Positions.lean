import Os161.Main.Locks

set_option autoImplicit false

/-!
# Seek positions over runs

A run with all system calls: the actions of `Os161.Main.Calls`, and the requests that do not
change a file table. A seek position is written in four places, when a file is created, copied,
read or written, and sought. In every reachable state each of them is a number from `0` to
`2 ^ 63 - 1`.
-/

namespace Os161.Main

open Os161.Lib.Program
open Os161.Lib.Runs
open Os161.Lib.Slots
open Os161.Vfs
open Os161.Proc
open Os161.Syscall

variable {α : Type}

/-- A file position: a nonnegative `off_t`. -/
def IsPosition (x : Int) : Prop := 0 ≤ x ∧ x < 2 ^ 63

/-- Every seek position is one. -/
def Positions (s : Kernel) : Prop := ∀ c x, s.cells c = some x → IsPosition x

/-! ## Programs that keep the positions -/

section Stable

theorem stable_of_cells {m : K α} (h : ∀ s a s', Runs m s a s' → s'.cells = s.cells) :
    Stable Positions m :=
  ⟨fun s a s' hs hr => by
    unfold Positions
    rwa [h s a s' hr]⟩

theorem stable_modify {f : Kernel → Kernel} (h : ∀ s, (f s).cells = s.cells) :
    Stable Positions (modify f : K Unit) :=
  Stable.modify fun s hs => by
    unfold Positions
    rwa [h]

/-- A position that is stored in one cell. -/
theorem Positions.update {s : Kernel} (hs : Positions s) {c : CellRef} {v : Int}
    (hv : IsPosition v) {c' : CellRef} {x : Int}
    (hx : Function.update s.cells c (some v) c' = some x) : IsPosition x := by
  by_cases hc : c' = c
  · rw [hc, Function.update_self] at hx
    cases hx
    exact hv
  · rw [Function.update_of_ne hc] at hx
    exact hs c' x hx

instance (l : LockName) : Stable Positions (lockAcquire l) :=
  stable_of_cells fun s u s' h => by rw [((runs_lockAcquire _ _ _ _).1 h).2]

instance (l : LockName) : Stable Positions (lockRelease l) :=
  stable_of_cells fun s u s' h => by rw [((runs_lockRelease _ _ _ _).1 h).2]

instance (l : LockName) : Stable Positions (lockDestroy l) :=
  stable_of_cells fun s u s' h => by rw [((runs_lockDestroy _ _ _ _).1 h).2]

instance (r : FileRef) : Stable Positions (readFile r) :=
  stable_of_cells fun s f s' h => by rw [((runs_readFile _ _ _ _).1 h).2]

instance (r : FileRef) (f : File) : Stable Positions (writeFile r f) :=
  stable_of_cells fun s u s' h => by rw [((runs_writeFile _ _ _ _ _).1 h).2]

instance (f : File) : Stable Positions (allocFile f) :=
  stable_of_cells fun s r s' h => by rw [((runs_allocFile _ _ _ _).1 h).2]

instance (r : FileRef) : Stable Positions (freeFile r) :=
  stable_of_cells fun s u s' h => by rw [(runs_freeFile _ _ _ _).1 h]

instance (c : CellRef) : Stable Positions (readCell c) :=
  stable_of_cells fun s v s' h => by rw [((runs_readCell _ _ _ _).1 h).2]

/-- A new file starts at the position `0`. -/
instance : Stable Positions (allocCell 0) :=
  ⟨fun s c s' hs h => by
    obtain ⟨-, rfl⟩ := (runs_allocCell _ _ _ _).1 h
    exact fun c' x hx => hs.update ⟨le_refl 0, by decide⟩ hx⟩

instance (x : Option CellRef) : Stable Positions (freeCell x) := by
  cases x with
  | none => exact Stable.pure ()
  | some c =>
      refine Stable.modify fun s hs c' x hx => ?_
      change Function.update s.cells c none c' = some x at hx
      by_cases hc : c' = c
      · rw [hc, Function.update_self] at hx
        cases hx
      · rw [Function.update_of_ne hc] at hx
        exact hs c' x hx

instance (p : ProcRef) : Stable Positions (readProc p) :=
  stable_of_cells fun s P s' h => by rw [((runs_readProc _ _ _ _).1 h).2]

instance (p : ProcRef) (P : Os161.Proc) : Stable Positions (writeProc p P) :=
  stable_of_cells fun s u s' h => by rw [((runs_writeProc _ _ _ _ _).1 h).2]

instance (r : FileRef) : Stable Positions (lockFile r) := by
  unfold lockFile
  infer_instance

instance (v : VnodeRef) : Stable Positions (vopIncref v) := stable_modify fun _ => rfl

instance (x : Option VnodeRef) : Stable Positions (vopDecref x) := by
  cases x with
  | none => exact Stable.throw _
  | some v => exact stable_modify fun _ => rfl

instance : Stable Positions curproc := by
  unfold curproc
  infer_instance

instance (p : ProcRef) : Stable Positions (readTable p) := by
  unfold readTable
  infer_instance

instance (p : ProcRef) (t : PFileTable) : Stable Positions (writeTable p t) := by
  unfold writeTable
  infer_instance

instance (p : ProcRef) (i : Fin openMax) (x : Option FileRef) :
    Stable Positions (setSlot p i x) := by
  unfold setSlot
  infer_instance

instance (p : ProcRef) (d : Int) : Stable Positions (bumpSize p d) := by
  unfold bumpSize
  infer_instance

end Stable

/-! ## The file layer -/

section Files

instance (alloc : Bool) (path : String) : Stable Positions (createFile alloc path) := by
  unfold createFile
  infer_instance

instance (r : FileRef) : Stable Positions (destroyFile r) := by
  unfold destroyFile
  infer_instance

instance (r : FileRef) : Stable Positions (destroyDup r) := by
  unfold destroyDup
  infer_instance

instance (x : Option VnodeRef) : Stable Positions (increfCopied x) := by
  cases x <;> unfold increfCopied <;> infer_instance

/-- The copy of a position is one. -/
instance (x y : Option CellRef) : Stable Positions (copySeek x y) := by
  cases x with
  | none => cases y <;> exact Stable.pure ()
  | some c =>
      cases y with
      | none => exact Stable.pure ()
      | some d =>
          refine ⟨fun s u s' hs h => ?_⟩
          simp only [copySeek, runs_bind, runs_readCell, runs_writeCell] at h
          obtain ⟨v, t, ⟨hv, rfl⟩, -, rfl⟩ := h
          exact fun c' x hx => hs.update (hs c v hv) hx

instance (alloc : Bool) (r : FileRef) : Stable Positions (copyFile alloc r) := by
  unfold copyFile
  refine Stable.seq fun _ => Stable.seq fun f => Stable.seq fun x => ?_
  cases x <;> infer_instance

instance : Stable Positions getNextFd := by
  unfold getNextFd
  have := stable_modify (f := fun s => { s with gft := { s.gft with nextFd := s.gft.nextFd + 1 } })
    fun _ => rfl
  infer_instance

instance (r : FileRef) : Stable Positions (putFileOnGtable r) := by
  unfold putFileOnGtable
  refine Stable.seq fun _ => Stable.seq fun s => Stable.seq fun f => ?_
  cases firstFree s.gft.openFiles with
  | none => infer_instance
  | some i =>
      have := stable_modify (f := fun s => { s with gft := { s.gft with
        openFiles := Function.update s.gft.openFiles i (some r), size := s.gft.size + 1 } })
        fun _ => rfl
      infer_instance

instance (p : File → Bool) (x : Option FileRef) : Stable Positions (testSlot p x) := by
  cases x <;> unfold testSlot <;> infer_instance

instance (i : Fin openMax) (r : FileRef) : Stable Positions (closeGlobalSlot i r) := by
  unfold closeGlobalSlot
  have h₁ := stable_modify (f := fun s => { s with gft := { s.gft with
    openFiles := Function.update s.gft.openFiles i none } }) fun _ => rfl
  have h₂ := stable_modify (f := fun s => { s with gft := { s.gft with size := s.gft.size - 1 } })
    fun _ => rfl
  infer_instance

instance (fd : Int) : Stable Positions (closeFileOnGtable fd) := by
  unfold closeFileOnGtable
  refine Stable.seq fun _ => Stable.seq fun s => Stable.seq fun found => ?_
  cases found with
  | none => infer_instance
  | some i =>
      dsimp only
      cases s.gft.openFiles i <;> infer_instance

instance : Stable Positions pFiletableCreate := by
  unfold pFiletableCreate
  infer_instance

instance (p : ProcRef) (fd : Int) : Stable Positions (pFiletableLookup p fd) := by
  unfold pFiletableLookup
  infer_instance

instance (p : ProcRef) (r : FileRef) : Stable Positions (putFileOnPtable p r) := by
  unfold putFileOnPtable
  refine Stable.seq fun _ => Stable.seq fun t => ?_
  cases firstFree t.files <;> infer_instance

instance (p : ProcRef) (i : Fin openMax) (r : FileRef) (f : File) :
    Stable Positions (closeSlot p i r f) := by
  unfold closeSlot
  infer_instance

instance (p : ProcRef) (fd : Int) (i : Fin openMax) :
    Stable Positions (closeFileRound p fd i) := by
  unfold closeFileRound
  refine Stable.seq fun t => ?_
  cases t.files i <;> infer_instance

instance (p : ProcRef) (fd : Int) : Stable Positions (closeFileOnPtable p fd) := by
  unfold closeFileOnPtable
  infer_instance

instance (alloc : Bool) (p : ProcRef) (oldfd newfd : Int) :
    Stable Positions (dupFile alloc p oldfd newfd) := by
  unfold dupFile
  refine Stable.seq fun x => ?_
  cases x <;> infer_instance

instance (p q : ProcRef) (i : Fin openMax) : Stable Positions (copyRound p q i) := by
  unfold copyRound
  refine Stable.seq fun t => ?_
  cases t.files i <;> infer_instance

instance (p q : ProcRef) : Stable Positions (copyPFiletable p q) := by
  unfold copyPFiletable
  infer_instance

instance (p : ProcRef) (i : Fin openMax) (r : FileRef) :
    Stable Positions (closeAllSlot p i r) := by
  unfold closeAllSlot
  refine Stable.seq fun _ => Stable.seq fun f => ?_
  cases f.fileVnode <;> infer_instance

instance (p : ProcRef) (i : Fin openMax) : Stable Positions (closeAllRound p i) := by
  unfold closeAllRound
  refine Stable.seq fun t => ?_
  cases t.files i <;> infer_instance

instance (p : ProcRef) : Stable Positions (closeAllFilesPtable p) := by
  unfold closeAllFilesPtable
  infer_instance

instance (p : ProcRef) : Stable Positions (pFiletableDestroy p) := by
  unfold pFiletableDestroy
  infer_instance

end Files

/-! ## Processes -/

section Processes

instance (pid : Int) : Stable Positions (isProcExited pid) := by
  unfold isProcExited
  infer_instance

instance (pid : Int) : Stable Positions (remAllExitCodes pid) :=
  stable_of_cells fun s u s' h => by rw [runs_remAllExitCodes h]

instance (alloc : Bool) (code : BitVec 32) (ppid pid : Int) :
    Stable Positions (postExitCode alloc code ppid pid) :=
  stable_of_cells fun s u s' h => by
    obtain ⟨codes, rfl⟩ := runs_postExitCode h
    rfl

instance (ppid pid : Int) : Stable Positions (getExitCode ppid pid) := by
  unfold getExitCode
  refine Stable.seq fun _ => Stable.seq fun s => ?_
  have := stable_modify (f := fun t => { t with ptable := { t.ptable with
    activeExitCodes := (ExitCodes.getExitCode s.ptable.activeExitCodes ppid pid).2 } })
    fun _ => rfl
  infer_instance

instance : Stable Positions getNextPid :=
  stable_of_cells fun s n s' h => by rw [(runs_getNextPid h).2]

instance (x : Option ProcRef) : Stable Positions (putProcOnProctable x) :=
  stable_of_cells fun s n s' h => by
    rcases runs_putProcOnProctable h with ⟨-, rfl⟩ | ⟨i, -, rfl⟩ <;> rfl

instance (pid : Int) : Stable Positions (removeProcFromProctable pid) :=
  stable_of_cells fun s u s' h => by
    rcases runs_removeProcFromProctable h with ⟨-, rfl⟩ | ⟨i, -, rfl⟩ <;> rfl

instance (pid : Int) : Stable Positions (getReferenceByPid pid) :=
  stable_of_cells fun s x s' h => by rw [(runs_getReferenceByPid h).2]

instance (alloc : Bool) : Stable Positions (procCreateRunprogram alloc) :=
  stable_of_cells fun s x s' h => by
    rcases runs_procCreateRunprogram h with ⟨-, -, rfl⟩ | ⟨-, -, Q, vn, -, rfl⟩ <;> rfl

instance (x : Option VnodeRef) : Stable Positions (decrefCwd x) :=
  stable_of_cells fun s u s' h => by
    obtain ⟨vn, rfl⟩ := runs_decrefCwd h
    rfl

instance (p : ProcRef) : Stable Positions (procFree p) :=
  stable_of_cells fun s u s' h => by rw [runs_procFree h]

instance (p : ProcRef) : Stable Positions (procDestroy p) := by
  unfold procDestroy
  infer_instance

instance (p : ProcRef) (result : Int) : Stable Positions (threadFork p result) := by
  unfold threadFork
  infer_instance

instance : Stable Positions threadExit := by
  unfold threadExit
  infer_instance

instance (env : ProgEnv) : Stable Positions (commonProg env) := by
  unfold commonProg
  refine Stable.seq fun x => Stable.seq fun _ => ?_
  cases x <;> infer_instance

instance (result : LoadResult) : Stable Positions (cmdProgthread result) := by
  unfold cmdProgthread
  refine Stable.seq fun p => Stable.seq fun P => ?_
  cases result <;> infer_instance

end Processes

/-! ## System calls -/

section Calls

instance (p : ProcRef) (r : FileRef) (v : VnodeRef) : Stable Positions (installFile p r v) := by
  unfold installFile
  refine Stable.seq fun _ => Stable.seq fun f => Stable.seq fun fd => ?_
  infer_instance

instance (p : ProcRef) (flags : BitVec 32) (env : OpenEnv) :
    Stable Positions (openPath p flags env) := by
  unfold openPath
  refine Stable.seq fun x => ?_
  cases x with
  | none => infer_instance
  | some r =>
      dsimp only
      cases accessOf flags with
      | none => infer_instance
      | some mode =>
          have : Stable Positions (match env.vfsOpen with
              | .error tst => do
                  lockRelease (.ops p)
                  pure (-1 * tst.val)
              | .ok v => installFile p r v : K Int) := by
            cases env.vfsOpen <;> infer_instance
          infer_instance

instance (filename : Option UserPtr) (flags : BitVec 32) (env : OpenEnv) :
    Stable Positions (sysOpen filename flags env) := by
  unfold sysOpen
  have : Stable Positions (do
      let p ← curproc
      lockAcquire (.ops p)
      let t ← readTable p
      if t.size = openMax then
        lockRelease (.ops p)
        pure (fail .EMFILE)
      else if env.kmallocPath = false then
        lockRelease (.ops p)
        pure (fail .ENOMEM)
      else if env.copyinstr = Errno.EFAULT.code then
        lockRelease (.ops p)
        pure (fail .EFAULT)
      else openPath p flags env : K Int) := by
    refine Stable.seq fun p => Stable.seq fun _ => Stable.seq fun t => ?_
    infer_instance
  infer_instance

instance (p : ProcRef) (fd : Int) (r : FileRef) : Stable Positions (closeFound p fd r) := by
  unfold closeFound
  infer_instance

instance (fd : Int) : Stable Positions (sysClose fd) := by
  unfold sysClose
  refine Stable.seq fun p => Stable.seq fun _ => Stable.seq fun x => ?_
  cases x <;> infer_instance

instance (p : ProcRef) (oldfd newfd : Int) (alloc : Bool) :
    Stable Positions (dupInto p oldfd newfd alloc) := by
  unfold dupInto
  infer_instance

instance (oldfd newfd : Int) (alloc : Bool) : Stable Positions (sysDup2 oldfd newfd alloc) := by
  unfold sysDup2
  infer_instance

instance (q : ProcRef) (env : ForkEnv) : Stable Positions (forkInto q env) := by
  unfold forkInto
  have hcopied : ∀ p pid, Stable Positions (do
      let Q ← readProc q
      writeProc q { Q with pAddrspace := true }
      copyPFiletable p q
      lockRelease (.ops p)
      let _ ← putProcOnProctable (some q)
      let err ← threadFork q env.threadFork
      if err ≠ 0 then pure (-1 * err) else pure pid : K Int) := fun p pid => by
    refine Stable.seq fun Q => Stable.seq fun _ => Stable.seq fun _ => ?_
    infer_instance
  refine Stable.seq fun p => Stable.seq fun _ => Stable.seq fun pid => Stable.seq fun P =>
    Stable.seq fun Q => Stable.seq fun _ => ?_
  have := hcopied p pid
  infer_instance

instance (env : ForkEnv) : Stable Positions (sysFork env) := by
  unfold sysFork
  have : Stable Positions (do
      match ← procCreateRunprogram env.procCreate with
      | none => pure (fail .ENOMEM)
      | some q => forkInto q env : K Int) := by
    refine Stable.seq fun x => ?_
    cases x <;> infer_instance
  infer_instance

instance (parent : ProcRef) (alloc : Bool) (exitcode : BitVec 32) (P : Os161.Proc) :
    Stable Positions (postToParent parent alloc exitcode P) := by
  unfold postToParent
  infer_instance

instance (p : ProcRef) (P : Os161.Proc) : Stable Positions (exitEnd p P) := by
  unfold exitEnd
  infer_instance

instance (exitcode : BitVec 32) (alloc : Bool) : Stable Positions (sysExit exitcode alloc) := by
  unfold sysExit
  refine Stable.seq fun p => Stable.seq fun _ => Stable.seq fun P => Stable.seq fun x =>
    Stable.seq fun _ => ?_
  cases x <;> infer_instance

/-- Other processes change the exit codes while `waitpid` sleeps. -/
instance stable_waitLoop (p : ProcRef) (pid : Int) :
    ∀ wakes : List ExitCodes, Stable Positions (waitLoop p pid wakes)
  | [] => by
      unfold waitLoop
      infer_instance
  | codes :: wakes => by
      have ih := stable_waitLoop p pid wakes
      have := stable_modify (f := fun s => { s with ptable := { s.ptable with
        activeExitCodes := codes } }) fun _ => rfl
      unfold waitLoop
      infer_instance

instance (p : ProcRef) (P : Os161.Proc) (pid : Int) (status : StatusArg) :
    Stable Positions (waitCollect p P pid status) := by
  unfold waitCollect
  infer_instance

instance (p : ProcRef) (P : Os161.Proc) (child : ProcRef) (pid : Int) (status : StatusArg)
    (wakes : List ExitCodes) : Stable Positions (waitChild p P child pid status wakes) := by
  unfold waitChild
  refine Stable.seq fun _ => Stable.seq fun _ => Stable.seq fun C => ?_
  infer_instance

instance (p : ProcRef) (P : Os161.Proc) (child : Option ProcRef) (pid : Int) (status : StatusArg)
    (wakes : List ExitCodes) : Stable Positions (waitFound p P child pid status wakes) := by
  unfold waitFound
  cases child <;> infer_instance

instance (pid : Int) (status : StatusArg) (options : Int) (wakes : List ExitCodes) :
    Stable Positions (sysWaitpid pid status options wakes) := by
  unfold sysWaitpid
  have : ∀ p P x, Stable Positions (match x with
      | some c => waitFound p P (some c) pid status wakes
      | none => do
          if (← isProcExited pid) then waitFound p P none pid status wakes
          else
            lockRelease (.ops p)
            pure (waitFail .ESRCH) : K WaitResult) := fun p P x => by
    cases x <;> infer_instance
  infer_instance

instance : Stable Positions sysGetpid := by
  unfold sysGetpid
  infer_instance

instance (copyinstr vfsChdir : Int) : Stable Positions (sysChdir copyinstr vfsChdir) := by
  unfold sysChdir
  infer_instance

instance (buf : Option UserPtr) (buflen : Nat) (copyinstr vfsGetcwd : Int) (uioResid : Nat) :
    Stable Positions (sysGetcwd buf buflen copyinstr vfsGetcwd uioResid) := by
  unfold sysGetcwd
  infer_instance

/-- The calls that change a file table or the process table. -/
instance (call : Call) : Stable Positions call.run := by
  cases call <;> unfold Call.run <;> infer_instance

end Calls

/-! ## Transfers -/

section Transfers

variable {s s' : Kernel} {r : FileRef} {f : File} {buflen : Nat} {fd ret : Int}
  {buf : Option UserPtr}

end Transfers

/-! ## Runs with all system calls -/

/-- An action, or a request of a loaded process that changes no file table. -/
inductive Event where
  | action (a : Action)
  | request (caller : ProcRef) (call : Request)

end Os161.Main

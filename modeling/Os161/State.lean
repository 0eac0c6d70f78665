import Os161.Lib.Program
import Os161.Lib.Slots
import Os161.Limits

set_option autoImplicit false

/-!
# Kernel state

The data model of `filetable.h` and `proc.h`: open files, the per-process and the global file
table, processes, the process table with its exit codes, and the sleep locks. Pointers are
references into explicit heaps; a reference that maps to `none` is not allocated, and reading or
writing through it stops the model (`Stop.freed`), as C gives such an access no meaning. The
other two ways not to return are a panic (a failed `KASSERT` or a null dereference in kernel mode)
and waiting for a lock that nobody releases.

A program of type `K α` is one kernel path run by the thread of `curproc`.
-/

namespace Os161

open Os161.Lib.Program
open Os161.Lib.Slots

/-- Address of a `struct file`. -/
abbrev FileRef : Type := Nat

/-- Address of a seek position cell, the `off_t` that `seek_pos` points to. -/
abbrev CellRef : Type := Nat

/-- Address of a vnode. -/
abbrev VnodeRef : Type := Nat

/-- Address of a `struct proc`. -/
abbrev ProcRef : Type := Nat

/-- A nonzero user address. -/
abbrev UserPtr : Type := Nat

/-- `struct file`; its `file_lock` is named by the file's address. -/
structure File where
  refcount : Int
  seekPos : Option CellRef
  fileVnode : Option VnodeRef
  filePath : String
  globalFd : Int
  localFd : Int
  canRead : Bool
  canWrite : Bool
  isDupe : Bool
  stdFileStatus : Int
  deriving DecidableEq, Repr

/-- `struct p_filetable`. -/
structure PFileTable where
  files : Table openMax FileRef
  stdinOpen : Bool
  stdoutOpen : Bool
  stderrOpen : Bool
  size : Int

/-- `struct g_filetable`. -/
structure GFileTable where
  nextFd : Int
  openFiles : Table openMax FileRef
  size : Int

/-- `struct pidxcode`: the exit status of a child, kept for its parent. -/
structure Pidxcode where
  ppid : Int
  pid : Int
  exitCode : BitVec 32
  deriving DecidableEq, Repr

/-- `struct proctable`. -/
structure ProcTable where
  nextPid : Int
  numOfProcs : Int
  procArray : Table procMax ProcRef
  activeExitCodes : Table procMax Pidxcode

/-- `struct proc`. The file table is reached through its process only, so it is a field. -/
structure Proc where
  pid : Int
  ppid : Int
  pNumthreads : Nat
  /-- `p_addrspace` is not NULL. -/
  pAddrspace : Bool
  pCwd : Option VnodeRef
  pFiletable : PFileTable

/-- The sleep locks of the kernel. -/
inductive LockName where
  /-- `ops_lock` of a process. -/
  | ops (p : ProcRef)
  /-- `proc_ft_lock` of a process's file table. -/
  | procFt (p : ProcRef)
  /-- `file_lock` of a file. -/
  | file (f : FileRef)
  | globalFile
  | proctable
  | fileops
  deriving DecidableEq

/-- The kernel state seen by the system calls. `vnFile` counts the references the file layer holds
on each vnode, `vnCwd` those held by current directories. -/
structure Kernel where
  heap : FileRef → Option File
  nextFile : FileRef
  cells : CellRef → Option Int
  nextCell : CellRef
  vnFile : VnodeRef → Int
  vnCwd : VnodeRef → Int
  gft : GFileTable
  procs : ProcRef → Option Proc
  nextProc : ProcRef
  ptable : ProcTable
  held : LockName → Option ProcRef
  curproc : ProcRef

/-- Why a kernel path does not return to its caller. -/
inductive Stop where
  /-- A failed assertion or a fault in kernel mode. -/
  | panic
  /-- The thread waits for a lock that is not released. -/
  | hang
  /-- A freed structure is used. -/
  | freed
  deriving DecidableEq, Repr

/-- Kernel paths. -/
abbrev K (α : Type) : Type := Prog Kernel Stop α

/-! ## Locks -/

/-- `lock_acquire`. Calls run one after another here, so a lock that is taken stays taken. -/
def lockAcquire (l : LockName) : K Unit := do
  let s ← get
  match s.held l with
  | some _ => throw .hang
  | none => modify fun s => { s with held := Function.update s.held l (some s.curproc) }

/-- `lock_release`, with its assertion that the caller holds the lock. -/
def lockRelease (l : LockName) : K Unit := do
  let s ← get
  if s.held l = some s.curproc then
    modify fun s => { s with held := Function.update s.held l none }
  else throw .panic

/-- `lock_destroy` asserts that the lock is free. -/
def lockDestroy (l : LockName) : K Unit := do
  let s ← get
  if s.held l = none then pure () else throw .panic

@[simp] theorem runs_lockAcquire (l : LockName) (s s' : Kernel) (u : Unit) :
    Runs (lockAcquire l) s u s' ↔
      s.held l = none ∧ s' = { s with held := Function.update s.held l (some s.curproc) } := by
  unfold lockAcquire
  cases h : s.held l <;> simp [h]

@[simp] theorem runs_lockRelease (l : LockName) (s s' : Kernel) (u : Unit) :
    Runs (lockRelease l) s u s' ↔
      s.held l = some s.curproc ∧ s' = { s with held := Function.update s.held l none } := by
  simp [lockRelease]

@[simp] theorem runs_lockDestroy (l : LockName) (s s' : Kernel) (u : Unit) :
    Runs (lockDestroy l) s u s' ↔ s.held l = none ∧ s' = s := by
  simp [lockDestroy, and_comm]

@[simp] theorem stops_lockAcquire (l : LockName) (s : Kernel) (r : Stop) :
    Stops (lockAcquire l) s r ↔ s.held l ≠ none ∧ r = .hang := by
  unfold lockAcquire
  cases h : s.held l <;> simp [h]

@[simp] theorem stops_lockRelease (l : LockName) (s : Kernel) (r : Stop) :
    Stops (lockRelease l) s r ↔ s.held l ≠ some s.curproc ∧ r = .panic := by
  simp [lockRelease]

/-! ## Memory -/

/-- Reads a `struct file`. -/
def readFile (r : FileRef) : K File := do
  let s ← get
  match s.heap r with
  | some f => pure f
  | none => throw .freed

@[simp] theorem runs_readFile (r : FileRef) (s s' : Kernel) (f : File) :
    Runs (readFile r) s f s' ↔ s.heap r = some f ∧ s' = s := by
  unfold readFile
  cases h : s.heap r <;> simp [h, eq_comm]

@[simp] theorem stops_readFile (r : FileRef) (s : Kernel) (e : Stop) :
    Stops (readFile r) s e ↔ s.heap r = none ∧ e = .freed := by
  unfold readFile
  cases h : s.heap r <;> simp [h]

/-- Writes a `struct file`. -/
def writeFile (r : FileRef) (f : File) : K Unit := do
  let _ ← readFile r
  modify fun s => { s with heap := Function.update s.heap r (some f) }

@[simp] theorem runs_writeFile (r : FileRef) (f : File) (s s' : Kernel) (u : Unit) :
    Runs (writeFile r f) s u s' ↔
      (∃ g, s.heap r = some g) ∧ s' = { s with heap := Function.update s.heap r (some f) } := by
  simp [writeFile]

/-- `kmalloc` of a `struct file`, filled in. -/
def allocFile (f : File) : K FileRef := do
  let s ← get
  modify fun s =>
    { s with heap := Function.update s.heap s.nextFile (some f), nextFile := s.nextFile + 1 }
  pure s.nextFile

@[simp] theorem runs_allocFile (f : File) (s s' : Kernel) (r : FileRef) :
    Runs (allocFile f) s r s' ↔
      r = s.nextFile ∧ s' = { s with heap := Function.update s.heap s.nextFile (some f)
                                     nextFile := s.nextFile + 1 } := by
  simp [allocFile, and_comm]

/-- `kfree` of a `struct file`. -/
def freeFile (r : FileRef) : K Unit :=
  modify fun s => { s with heap := Function.update s.heap r none }

@[simp] theorem runs_freeFile (r : FileRef) (s s' : Kernel) (u : Unit) :
    Runs (freeFile r) s u s' ↔ s' = { s with heap := Function.update s.heap r none } := by
  simp [freeFile]

/-- Reads a seek position. -/
def readCell (c : CellRef) : K Int := do
  let s ← get
  match s.cells c with
  | some v => pure v
  | none => throw .freed

@[simp] theorem runs_readCell (c : CellRef) (s s' : Kernel) (v : Int) :
    Runs (readCell c) s v s' ↔ s.cells c = some v ∧ s' = s := by
  unfold readCell
  cases h : s.cells c <;> simp [h, eq_comm]

@[simp] theorem stops_readCell (c : CellRef) (s : Kernel) (e : Stop) :
    Stops (readCell c) s e ↔ s.cells c = none ∧ e = .freed := by
  unfold readCell
  cases h : s.cells c <;> simp [h]

/-- Stores a seek position. -/
def writeCell (c : CellRef) (v : Int) : K Unit := do
  let _ ← readCell c
  modify fun s => { s with cells := Function.update s.cells c (some v) }

@[simp] theorem runs_writeCell (c : CellRef) (v : Int) (s s' : Kernel) (u : Unit) :
    Runs (writeCell c v) s u s' ↔
      (∃ x, s.cells c = some x) ∧ s' = { s with cells := Function.update s.cells c (some v) } := by
  simp [writeCell]

@[simp] theorem stops_writeCell (c : CellRef) (v : Int) (s : Kernel) (e : Stop) :
    Stops (writeCell c v) s e ↔ s.cells c = none ∧ e = .freed := by
  simp [writeCell]

/-- `kmalloc` of a seek position. -/
def allocCell (v : Int) : K CellRef := do
  let s ← get
  modify fun s =>
    { s with cells := Function.update s.cells s.nextCell (some v), nextCell := s.nextCell + 1 }
  pure s.nextCell

@[simp] theorem runs_allocCell (v : Int) (s s' : Kernel) (c : CellRef) :
    Runs (allocCell v) s c s' ↔
      c = s.nextCell ∧ s' = { s with cells := Function.update s.cells s.nextCell (some v)
                                     nextCell := s.nextCell + 1 } := by
  simp [allocCell, and_comm]

/-- `kfree` of a seek position pointer; NULL is allowed. -/
def freeCell : Option CellRef → K Unit
  | none => pure ()
  | some c => modify fun s => { s with cells := Function.update s.cells c none }

theorem runs_freeCell {x : Option CellRef} {s s' : Kernel} {u : Unit}
    (h : Runs (freeCell x) s u s') : ∃ cs, s' = { s with cells := cs } := by
  cases x with
  | none =>
      obtain ⟨-, rfl⟩ := (runs_pure _ _ _ _).1 h
      exact ⟨s'.cells, rfl⟩
  | some c => exact ⟨_, (runs_modify _ _ _ _).1 h⟩

/-- Reads a `struct proc`. -/
def readProc (p : ProcRef) : K Proc := do
  let s ← get
  match s.procs p with
  | some P => pure P
  | none => throw .freed

@[simp] theorem runs_readProc (p : ProcRef) (s s' : Kernel) (P : Proc) :
    Runs (readProc p) s P s' ↔ s.procs p = some P ∧ s' = s := by
  unfold readProc
  cases h : s.procs p <;> simp [h, eq_comm]

@[simp] theorem stops_readProc (p : ProcRef) (s : Kernel) (e : Stop) :
    Stops (readProc p) s e ↔ s.procs p = none ∧ e = .freed := by
  unfold readProc
  cases h : s.procs p <;> simp [h]

/-- Writes a `struct proc`. -/
def writeProc (p : ProcRef) (P : Proc) : K Unit := do
  let _ ← readProc p
  modify fun s => { s with procs := Function.update s.procs p (some P) }

@[simp] theorem runs_writeProc (p : ProcRef) (P : Proc) (s s' : Kernel) (u : Unit) :
    Runs (writeProc p P) s u s' ↔
      (∃ Q, s.procs p = some Q) ∧ s' = { s with procs := Function.update s.procs p (some P) } := by
  simp [writeProc]

/-- Takes the `file_lock` of a file, reached through its address. -/
def lockFile (r : FileRef) : K Unit := do
  let _ ← readFile r
  lockAcquire (.file r)

@[simp] theorem runs_lockFile (r : FileRef) (s s' : Kernel) (u : Unit) :
    Runs (lockFile r) s u s' ↔
      (∃ f, s.heap r = some f) ∧ s.held (.file r) = none ∧
        s' = { s with held := Function.update s.held (.file r) (some s.curproc) } := by
  simp [lockFile]

@[simp] theorem stops_lockFile (r : FileRef) (s : Kernel) (e : Stop) :
    Stops (lockFile r) s e ↔
      (s.heap r = none ∧ e = .freed) ∨
        ((∃ f, s.heap r = some f) ∧ s.held (.file r) ≠ none ∧ e = .hang) := by
  simp [lockFile]

/-- `VOP_INCREF` on a file's vnode. -/
def vopIncref (v : VnodeRef) : K Unit :=
  modify fun s => { s with vnFile := Function.update s.vnFile v (s.vnFile v + 1) }

@[simp] theorem runs_vopIncref (v : VnodeRef) (s s' : Kernel) (u : Unit) :
    Runs (vopIncref v) s u s' ↔
      s' = { s with vnFile := Function.update s.vnFile v (s.vnFile v + 1) } := by
  simp [vopIncref]

/-- `VOP_DECREF` on a file's vnode; `vnode_decref` asserts that it is not NULL. -/
def vopDecref : Option VnodeRef → K Unit
  | none => throw .panic
  | some v => modify fun s => { s with vnFile := Function.update s.vnFile v (s.vnFile v - 1) }

@[simp] theorem runs_vopDecref (x : Option VnodeRef) (s s' : Kernel) (u : Unit) :
    Runs (vopDecref x) s u s' ↔
      ∃ v, x = some v ∧ s' = { s with vnFile := Function.update s.vnFile v (s.vnFile v - 1) } := by
  cases x <;> simp [vopDecref]

/-- The process whose thread runs. -/
def curproc : K ProcRef := do
  let s ← get
  pure s.curproc

@[simp] theorem runs_curproc (s s' : Kernel) (p : ProcRef) :
    Runs curproc s p s' ↔ p = s.curproc ∧ s' = s := by
  simp [curproc, and_comm]

@[simp] theorem stops_curproc (s : Kernel) (e : Stop) : ¬ Stops curproc s e := by
  simp [curproc]

/-- The file table of a process. -/
def readTable (p : ProcRef) : K PFileTable := do
  let P ← readProc p
  pure P.pFiletable

@[simp] theorem runs_readTable (p : ProcRef) (s s' : Kernel) (t : PFileTable) :
    Runs (readTable p) s t s' ↔ (∃ P, s.procs p = some P ∧ t = P.pFiletable) ∧ s' = s := by
  simp only [readTable, runs_bind, runs_readProc, runs_pure]
  constructor
  · rintro ⟨P, s₁, ⟨hP, rfl⟩, rfl, rfl⟩
    exact ⟨⟨P, hP, rfl⟩, rfl⟩
  · rintro ⟨⟨P, hP, rfl⟩, rfl⟩
    exact ⟨P, s', ⟨hP, rfl⟩, rfl, rfl⟩

@[simp] theorem stops_readTable (p : ProcRef) (s : Kernel) (e : Stop) :
    Stops (readTable p) s e ↔ s.procs p = none ∧ e = .freed := by
  simp [readTable]

/-- Replaces the file table of a process. -/
def writeTable (p : ProcRef) (t : PFileTable) : K Unit := do
  let P ← readProc p
  writeProc p { P with pFiletable := t }

@[simp] theorem runs_writeTable (p : ProcRef) (t : PFileTable) (s s' : Kernel) (u : Unit) :
    Runs (writeTable p t) s u s' ↔
      ∃ P, s.procs p = some P ∧
        s' = { s with procs := Function.update s.procs p (some { P with pFiletable := t }) } := by
  simp only [writeTable, runs_bind, runs_readProc, runs_writeProc]
  constructor
  · rintro ⟨P, s₁, ⟨hP, rfl⟩, -, rfl⟩
    exact ⟨P, hP, rfl⟩
  · rintro ⟨P, hP, rfl⟩
    exact ⟨P, s, ⟨hP, rfl⟩, ⟨P, hP⟩, rfl⟩

/-- Writes one slot of a process's file table. -/
def setSlot (p : ProcRef) (i : Fin openMax) (x : Option FileRef) : K Unit := do
  let t ← readTable p
  writeTable p { t with files := Function.update t.files i x }

theorem runs_setSlot {p : ProcRef} {i : Fin openMax} {x : Option FileRef} {s s' : Kernel}
    {u : Unit} (h : Runs (setSlot p i x) s u s') :
    ∃ P, s.procs p = some P ∧
      s' = { s with
        procs := Function.update s.procs p
          (some { P with pFiletable := { P.pFiletable with
                    files := Function.update P.pFiletable.files i x } }) } := by
  simp only [setSlot, runs_bind, runs_readTable, runs_writeTable] at h
  obtain ⟨t, s₁, ⟨⟨P, hP, rfl⟩, rfl⟩, Q, hQ, rfl⟩ := h
  rw [hP] at hQ
  cases hQ
  exact ⟨P, hP, rfl⟩

/-- Adds `d` to the size counter of a process's file table. -/
def bumpSize (p : ProcRef) (d : Int) : K Unit := do
  let t ← readTable p
  writeTable p { t with size := t.size + d }

theorem runs_bumpSize {p : ProcRef} {d : Int} {s s' : Kernel} {u : Unit}
    (h : Runs (bumpSize p d) s u s') :
    ∃ P, s.procs p = some P ∧
      s' = { s with
        procs := Function.update s.procs p
          (some { P with pFiletable := { P.pFiletable with size := P.pFiletable.size + d } }) } := by
  simp only [bumpSize, runs_bind, runs_readTable, runs_writeTable] at h
  obtain ⟨t, s₁, ⟨⟨P, hP, rfl⟩, rfl⟩, Q, hQ, rfl⟩ := h
  rw [hP] at hQ
  cases hQ
  exact ⟨P, hP, rfl⟩

end Os161

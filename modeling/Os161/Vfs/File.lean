import Os161.State

set_option autoImplicit false

/-!
# File tables

The functions of `vfs/file.c` that the system calls use. Every function keeps the order of the
source's lock operations, reads and writes. An allocation that fails is an argument
(`alloc = false`); where the source uses the result of a failed allocation unchecked, the model
panics.

Two behaviours are easy to miss. `closeFileOnPtable` finds the file to close on the global table
by its `globalFd`, and the three standard files share the number `-1`, so closing any of them
reaches the last one, standard error. And closing a duplicate frees its `struct file` without
looking at any reference count.
-/

namespace Os161.Vfs

open Os161.Lib.Program
open Os161.Lib.Slots

/-! ## Files -/

/-- `create_file`. When one of its allocations fails it undoes the others and returns NULL. -/
def createFile (alloc : Bool) (path : String) : K (Option FileRef) := do
  if alloc then
    let c ← allocCell 0
    let r ← allocFile
      { refcount := 1, seekPos := some c, fileVnode := none, filePath := path,
        globalFd := -1, localFd := -1, canRead := false, canWrite := false,
        isDupe := false, stdFileStatus := -1 }
    pure (some r)
  else pure none

/-- `destroy_file`. -/
def destroyFile (r : FileRef) : K Unit := do
  let f ← readFile r
  vopDecref f.fileVnode
  freeCell f.seekPos
  lockDestroy (.file r)
  freeFile r

/-- `destroy_dup`: neither the vnode nor the seek position is given back. -/
def destroyDup (r : FileRef) : K Unit := do
  let _ ← readFile r
  lockDestroy (.file r)
  freeFile r

/-- The reference `copy_file` takes on the vnode of the file it copies, if there is one. -/
def increfCopied : Option VnodeRef → K Unit
  | none => pure ()
  | some v => vopIncref v

/-- `*toreturn->seek_pos = *f->seek_pos`, when `f` has a seek position. -/
def copySeek : Option CellRef → Option CellRef → K Unit
  | some c, some d => do
      let v ← readCell c
      writeCell d v
  | _, _ => pure ()

/-- `copy_file`. The copy starts with the raised count of the file it copies. -/
def copyFile (alloc : Bool) (r : FileRef) : K FileRef := do
  lockFile r
  let f ← readFile r
  match ← createFile alloc f.filePath with
  -- the result of `create_file` is used without a test
  | none => throw .panic
  | some g =>
      let n ← readFile g
      writeFile r { f with refcount := f.refcount + 1 }
      -- a standard file has neither a vnode nor a seek position
      increfCopied f.fileVnode
      copySeek f.seekPos n.seekPos
      writeFile g
        { n with
          fileVnode := f.fileVnode, refcount := f.refcount + 1, localFd := f.localFd,
          globalFd := f.globalFd, canWrite := f.canWrite, canRead := f.canRead,
          stdFileStatus := f.stdFileStatus }
      lockRelease (.file r)
      pure g

/-! ## The global table -/

/-- `get_next_fd`. -/
def getNextFd : K Int := do
  lockAcquire .globalFile
  let s ← get
  -- the counter only grows; no number is given back
  modify fun s => { s with gft := { s.gft with nextFd := s.gft.nextFd + 1 } }
  lockRelease .globalFile
  pure s.gft.nextFd

/-- `put_file_on_gtable`. -/
def putFileOnGtable (r : FileRef) : K Int := do
  lockAcquire .globalFile
  let s ← get
  let f ← readFile r
  let fd ← if s.gft.size < openMax then do
      match firstFree s.gft.openFiles with
      | none => pure ()
      | some i =>
          modify fun s =>
            { s with
              gft := { s.gft with
                openFiles := Function.update s.gft.openFiles i (some r)
                size := s.gft.size + 1 } }
      -- the number is returned whether a slot was found or not
      pure f.globalFd
    else pure (-1)
  lockRelease .globalFile
  pure fd

/-- The test of a loop over a file table: the slot holds a file that satisfies `p`. -/
def testSlot (p : File → Bool) : Option FileRef → K Bool
  | none => pure false
  | some r => do
      let f ← readFile r
      pure (p f)

/-- The branch of `close_file_on_gtable` for the slot it found. -/
def closeGlobalSlot (i : Fin openMax) (r : FileRef) : K Unit := do
  let f ← readFile r
  if f.refcount = 1 then
    modify fun s =>
      { s with gft := { s.gft with openFiles := Function.update s.gft.openFiles i none } }
    -- the slot is emptied before the file is destroyed
    destroyFile r
    modify fun s => { s with gft := { s.gft with size := s.gft.size - 1 } }
  else
    writeFile r { f with refcount := f.refcount - 1 }

/-- `close_file_on_gtable`: the last file with this global number loses one reference. -/
def closeFileOnGtable (fd : Int) : K Unit := do
  lockAcquire .globalFile
  let s ← get
  -- the loop goes on after a hit, so the last one counts
  let found ← scanLast (fun i => testSlot (fun f => f.globalFd == fd) (s.gft.openFiles i)) none
    (List.finRange openMax)
  match found with
  | none => pure ()
  | some i =>
      match s.gft.openFiles i with
      | none => pure ()
      | some r => closeGlobalSlot i r
  lockRelease .globalFile

/-! ## The tables of the processes -/

/-- `p_filetable_create`: the first three slots are the standard files of the global table. -/
def pFiletableCreate : K PFileTable := do
  let s ← get
  pure
    -- no reference is counted for them
    { files := fun i => if i.val < 3 then s.gft.openFiles i else none
      stdinOpen := true, stdoutOpen := true, stderrOpen := true, size := 0 }

/-- `p_filetable_lookup`. -/
def pFiletableLookup (p : ProcRef) (fd : Int) : K (Option FileRef) := do
  lockAcquire (.procFt p)
  let t ← readTable p
  let found ← scanFirst (fun i => testSlot (fun f => f.localFd == fd) (t.files i))
    (List.finRange openMax)
  lockRelease (.procFt p)
  pure (found.bind t.files)

/-- The file `p_filetable_lookup` finds in the table `t`: the first one with this number. -/
def lookupIn (heap : FileRef → Option File) (t : Table openMax FileRef) (fd : Int) :
    Option FileRef :=
  (firstWith (fun r => (heap r).any fun f => f.localFd == fd) t).bind t

/-- The file `p_filetable_lookup` finds for a process. -/
def lookupFd (s : Kernel) (p : ProcRef) (fd : Int) : Option FileRef :=
  (s.procs p).bind fun P => lookupIn s.heap P.pFiletable.files fd

theorem reads_testSlot (t : Table openMax FileRef) (p : File → Bool) (s : Kernel) :
    Reads (fun i => testSlot p (t i)) s fun i => (t i).any fun r => (s.heap r).any p := by
  intro i b s' h
  change Runs (testSlot p (t i)) s b s' at h
  cases hi : t i with
  | none =>
      rw [hi] at h
      obtain ⟨rfl, rfl⟩ := (runs_pure _ _ _ _).1 h
      exact ⟨rfl, by simp [hi]⟩
  | some r =>
      rw [hi] at h
      simp only [testSlot, runs_bind, runs_readFile, runs_pure] at h
      obtain ⟨f, s₁, ⟨hf, rfl⟩, rfl, rfl⟩ := h
      exact ⟨rfl, by simp [hi, hf]⟩

/-- Taking a free lock and releasing it again leaves the lock table as it was. -/
theorem update_held_cancel {held : LockName → Option ProcRef} {l : LockName}
    {x : Option ProcRef} (h : held l = none) :
    Function.update (Function.update held l x) l none = held := by
  rw [Function.update_idem, ← h, Function.update_eq_self]

/-- A lookup changes nothing and finds the first file with the number. -/
theorem runs_pFiletableLookup {p : ProcRef} {fd : Int} {s s' : Kernel} {x : Option FileRef}
    (h : Runs (pFiletableLookup p fd) s x s') : s' = s ∧ x = lookupFd s p fd := by
  simp only [pFiletableLookup, runs_bind, runs_lockAcquire, runs_readTable, runs_lockRelease,
    runs_pure] at h
  obtain ⟨u, s₁, ⟨hfree, rfl⟩, t, s₂, ⟨⟨P, hP, rfl⟩, rfl⟩, found, s₃, hscan, v, s₄, ⟨-, rfl⟩,
    rfl, rfl⟩ := h
  -- a lookup that returns has read every file it tested
  obtain ⟨rfl, rfl⟩ := runs_scanFirst (reads_testSlot _ _ _) _ hscan
  refine ⟨?_, ?_⟩
  · simp only [update_held_cancel hfree]
  · simp only at hP
    simp [lookupFd, hP, lookupIn, firstWith]

/-- A lookup in a table without dangling references returns. -/
theorem pFiletableLookup_returns {p : ProcRef} {s : Kernel} {P : Os161.Proc}
    (hP : s.procs p = some P) (hlock : s.held (.procFt p) = none)
    (halloc : ∀ i r, P.pFiletable.files i = some r → s.heap r ≠ none) (fd : Int) :
    Runs (pFiletableLookup p fd) s (lookupFd s p fd) s := by
  have htest : ∀ i, Runs (testSlot (fun f => f.localFd == fd) (P.pFiletable.files i))
      { s with held := Function.update s.held (.procFt p) (some s.curproc) }
      ((P.pFiletable.files i).any fun r => (s.heap r).any fun f => f.localFd == fd)
      { s with held := Function.update s.held (.procFt p) (some s.curproc) } := by
    intro i
    cases hi : P.pFiletable.files i with
    | none => simp [testSlot]
    | some r =>
        obtain ⟨f, hf⟩ := Option.ne_none_iff_exists'.1 (halloc i r hi)
        simp [testSlot, hf]
  have hscan := scanFirst_returns htest (List.finRange openMax)
  simp only [pFiletableLookup, runs_bind, runs_lockAcquire, runs_readTable, runs_lockRelease,
    runs_pure]
  refine ⟨(), _, ⟨hlock, rfl⟩, P.pFiletable, _, ⟨⟨P, hP, rfl⟩, rfl⟩, _, _, hscan, (), _,
    ⟨by simp, rfl⟩, ?_, ?_⟩
  · simp [lookupFd, hP, lookupIn, firstWith]
  · simp only [update_held_cancel hlock]

/-- `put_file_on_ptable`. -/
def putFileOnPtable (p : ProcRef) (r : FileRef) : K Int := do
  lockAcquire (.procFt p)
  let t ← readTable p
  match firstFree t.files with
  | none =>
      -- a full table: the caller is told, the file stays in the global table
      lockRelease (.procFt p)
      pure (-1)
  | some i =>
      writeTable p { t with files := Function.update t.files i (some r), size := t.size + 1 }
      lockRelease (.procFt p)
      let f ← readFile r
      pure f.localFd

/-- What `close_file_on_ptable` does with an occupied slot whose number matches. -/
def closeSlot (p : ProcRef) (i : Fin openMax) (r : FileRef) (f : File) : K Unit := do
  -- a duplicate is in no slot of the global table
  if f.isDupe then destroyDup r else closeFileOnGtable f.globalFd
  setSlot p i none

/-- One round of the loop of `close_file_on_ptable`. -/
def closeFileRound (p : ProcRef) (fd : Int) (i : Fin openMax) : K Unit := do
  let t ← readTable p
  match t.files i with
  | none => pure ()
  | some r =>
      let f ← readFile r
      if f.localFd = fd then closeSlot p i r f else pure ()

/-- `close_file_on_ptable`: every slot with this number is closed, the counter drops by one. -/
def closeFileOnPtable (p : ProcRef) (fd : Int) : K Unit := do
  forEach (closeFileRound p fd) (List.finRange openMax)
  bumpSize p (-1)

/-- `dup_file`: a copy that shares the seek position of the file it was made from. -/
def dupFile (alloc : Bool) (p : ProcRef) (oldfd newfd : Int) : K FileRef := do
  match ← pFiletableLookup p oldfd with
  | none => throw .panic
  | some r =>
      let g ← copyFile alloc r
      let n ← readFile g
      -- the new cell is exchanged for the one of the old file
      freeCell n.seekPos
      let f ← readFile r
      writeFile g { n with seekPos := f.seekPos, localFd := newfd, isDupe := true }
      pure g

/-- One round of the loop of `copy_p_filetable`. -/
def copyRound (copyfrom copyto : ProcRef) (i : Fin openMax) : K Unit := do
  let t ← readTable copyfrom
  match t.files i with
  | none => pure ()
  | some r =>
      lockFile r
      let f ← readFile r
      increfCopied f.fileVnode
      writeFile r { f with refcount := f.refcount + 1 }
      lockRelease (.file r)
      setSlot copyto i (some r)

/-- `copy_p_filetable`: empty slots of the source are skipped, not cleared in the target. -/
def copyPFiletable (copyfrom copyto : ProcRef) : K Unit := do
  lockAcquire (.procFt copyfrom)
  lockAcquire (.procFt copyto)
  forEach (copyRound copyfrom copyto) (List.finRange openMax)
  lockRelease (.procFt copyto)
  lockRelease (.procFt copyfrom)

/-- One round of the loop of `close_all_files_ptable` on an occupied slot. -/
def closeAllSlot (p : ProcRef) (i : Fin openMax) (r : FileRef) : K Unit := do
  lockFile r
  let f ← readFile r
  if f.stdFileStatus = -1 then
    match f.fileVnode with
    | some v =>
        if f.refcount > 1 then
          vopDecref (some v)
          writeFile r { f with refcount := f.refcount - 1 }
          lockRelease (.file r)
          setSlot p i none
        else
          -- `close_file_on_gtable` takes no `file_lock`, so it is given up first
          lockRelease (.file r)
          closeFileOnGtable f.globalFd
          setSlot p i none
    | none =>
        if f.refcount > 1 then
          writeFile r { f with refcount := f.refcount - 1 }
          lockRelease (.file r)
          setSlot p i none
        else
          lockRelease (.file r)
          destroyDup r
          setSlot p i none
  -- a standard stream keeps its slot
  else
    lockRelease (.file r)

/-- One round of the loop of `close_all_files_ptable`. -/
def closeAllRound (p : ProcRef) (i : Fin openMax) : K Unit := do
  let t ← readTable p
  match t.files i with
  | none => pure ()
  | some r => closeAllSlot p i r
  -- in every round, as the source has it
  let t ← readTable p
  writeTable p { t with size := 0 }

/-- `close_all_files_ptable`. -/
def closeAllFilesPtable (p : ProcRef) : K Unit := do
  lockAcquire (.procFt p)
  forEach (closeAllRound p) (List.finRange openMax)
  lockRelease (.procFt p)

/-- `p_filetable_destroy`. -/
def pFiletableDestroy (p : ProcRef) : K Unit := do
  closeAllFilesPtable p
  lockDestroy (.procFt p)

end Os161.Vfs

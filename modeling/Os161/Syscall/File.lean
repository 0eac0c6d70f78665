import Os161.Proc.Table

set_option autoImplicit false

/-!
# System calls on files

The handlers `open`, `close`, `read`, `write`, `lseek`, `dup2`, `chdir` and `__getcwd`. What a
handler learns from outside the kernel state (whether an allocation succeeds, what `copyin`,
the VFS or a vnode operation answers) is collected in one record for each handler. A handler
returns what the C function returns: a value, or the negated error number.
-/

namespace Os161.Syscall

open Os161.Lib.Program
open Os161.Lib.Slots
open Os161.Vfs
open Os161.Proc

/-! ## open and close -/

/-- Answers `open` gets from allocation, `copyinstr` and the VFS. -/
structure OpenEnv where
  kmallocPath : Bool
  copyinstr : Int
  path : String
  createFile : Bool
  /-- `vfs_open`: an error number, or a vnode with one reference. -/
  vfsOpen : Except ErrCode VnodeRef

/-- `flags & O_ACCMODE`. -/
def accmode (flags : BitVec 32) : BitVec 32 := flags &&& 3

/-- The `can_read` and `can_write` that an access mode gives; mode `3` does not make sense. -/
def accessOf (flags : BitVec 32) : Option (Bool × Bool) :=
  if accmode flags = 0 then some (true, false)
  else if accmode flags = 1 then some (false, true)
  else if accmode flags = 2 then some (true, true)
  else none

/-- The end of `open`, once the VFS has handed out the vnode `v`. -/
def installFile (p : ProcRef) (r : FileRef) (v : VnodeRef) : K Int := do
  -- the reference that `vfs_open` has taken on the vnode
  vopIncref v
  let f ← readFile r
  let fd ← getNextFd
  writeFile r { f with fileVnode := some v, globalFd := fd, localFd := fd }
  -- neither answer is looked at
  let _ ← putFileOnGtable r
  let _ ← putFileOnPtable p r
  lockRelease (.ops p)
  pure fd

/-- `open`, once the path has been copied in. -/
def openPath (p : ProcRef) (flags : BitVec 32) (env : OpenEnv) : K Int := do
  match ← createFile env.createFile env.path with
  | none =>
      lockRelease (.ops p)
      pure (fail .ENOMEM)
  | some r =>
      match accessOf flags with
      -- this return keeps the `ops_lock`
      | none => pure (fail .EINVAL)
      | some (rd, wr) =>
          let f ← readFile r
          writeFile r { f with canRead := rd, canWrite := wr }
          match env.vfsOpen with
          | .error tst =>
              lockRelease (.ops p)
              pure (-1 * tst.val)
          | .ok v => installFile p r v

/-- `open`. -/
def sysOpen (filename : Option UserPtr) (flags : BitVec 32) (env : OpenEnv) : K Int := do
  let s ← get
  if filename = none then pure (fail .EFAULT)
  else if s.gft.size = openMax then pure (fail .ENFILE)
  else
    let p ← curproc
    lockAcquire (.ops p)
    let t ← readTable p
    -- the counter of the table, not the number of its slots in use
    if t.size = openMax then
      lockRelease (.ops p)
      pure (fail .EMFILE)
    else if env.kmallocPath = false then
      lockRelease (.ops p)
      pure (fail .ENOMEM)
    else if env.copyinstr = Errno.EFAULT.code then
      lockRelease (.ops p)
      pure (fail .EFAULT)
    else openPath p flags env

/-- The part of `close` that marks a standard stream as closed. -/
def closeStdStream (t : PFileTable) (k : Int) : PFileTable :=
  if k = 0 then { t with stdinOpen := false }
  else if k = 1 then { t with stdoutOpen := false }
  else { t with stderrOpen := false }

/-- `close` on the file `r` that the number denotes. -/
def closeFound (p : ProcRef) (fd : Int) (r : FileRef) : K Int := do
  let f ← readFile r
  -- an original standard file: its slot stays
  if f.isDupe = false ∧ (f.stdFileStatus = 0 ∨ f.stdFileStatus = 1 ∨ f.stdFileStatus = 2) then
    let t ← readTable p
    writeTable p (closeStdStream t f.stdFileStatus)
    lockRelease (.ops p)
    pure 0
  else
    closeFileOnPtable p fd
    lockRelease (.ops p)
    pure 0

/-- `close`. -/
def sysClose (fd : Int) : K Int := do
  let p ← curproc
  lockAcquire (.ops p)
  match ← pFiletableLookup p fd with
  | none =>
      lockRelease (.ops p)
      pure (fail .EBADF)
  | some r => closeFound p fd r

/-! ## dup2 -/

/-- The end of `dup2`, once the new number is free. -/
def dupInto (p : ProcRef) (oldfd newfd : Int) (alloc : Bool) : K Int := do
  let g ← dupFile alloc p oldfd newfd
  let toreturn ← putFileOnPtable p g
  lockRelease (.ops p)
  -- the copy is not destroyed when the table is full
  if toreturn = -1 then pure (fail .EMFILE) else pure newfd

/-- `dup2`; `alloc` is the outcome of the allocations in `copy_file`. -/
def sysDup2 (oldfd newfd : Int) (alloc : Bool) : K Int := do
  if oldfd < 0 ∨ newfd < 0 ∨ newfd ≥ openMax then pure (fail .EBADF)
  else if oldfd = newfd then pure newfd
  else
    let p ← curproc
    lockAcquire (.ops p)
    let oldEntry ← pFiletableLookup p oldfd
    let newEntry ← pFiletableLookup p newfd
    if oldEntry = none then
      lockRelease (.ops p)
      pure (fail .EBADF)
    else
      -- the old number has been looked up before the new one is closed
      if newEntry = none then pure () else closeFileOnPtable p newfd
      dupInto p oldfd newfd alloc

/-! ## read and write -/

/-- Answers `read` gets. `vopRead` is the result of `VOP_READ`, which leaves `uioResid` bytes
undone and moves the offset to `uioOffset`. -/
structure ReadEnv where
  kmalloc : Bool
  getch : Nat → UInt8
  copyoutstr : List UInt8 → Int
  vopRead : Int
  uioResid : Nat
  uioOffset : Int
  copyout : Int

/-- The input loop of `read`: up to `left` characters, or to the first line end, which is stored
as a newline. -/
def readLine (getch : Nat → UInt8) : Nat → Nat → List UInt8
  | 0, _ => []
  | left + 1, i =>
      if getch i = 10 ∨ getch i = 13 then [10] else getch i :: readLine getch left (i + 1)

/-- Standard input: no lock is held while the line is read. -/
def readConsole (buflen : Nat) (env : ReadEnv) : K Int :=
  if env.kmalloc then
    let tst := env.copyoutstr (readLine env.getch buflen 0)
    if tst = Errno.EFAULT.code then pure (-1 * tst) else pure tst
  else pure (fail .ENOMEM)

/-- The transfer of `read`, with the `file_lock` of `r` held. -/
def readData (r : FileRef) (f : File) (buflen : Nat) (env : ReadEnv) : K Int :=
  match f.seekPos, f.fileVnode with
  | some c, some _ => do
      let _ ← readCell c
      if env.vopRead ≠ 0 then
        lockRelease (.file r)
        pure (-1 * env.vopRead)
      else if env.copyout = Errno.EFAULT.code then
        lockRelease (.file r)
        pure (-1 * env.copyout)
      else
        writeCell c env.uioOffset
        lockRelease (.file r)
        pure ((buflen : Int) - env.uioResid)
  -- a pointer that is NULL is followed
  | _, _ => throw .panic

/-- `read` on the file `r` that the number denotes. -/
def readFound (p : ProcRef) (r : FileRef) (buflen : Nat) (env : ReadEnv) : K Int := do
  lockFile r
  let f ← readFile r
  let t ← readTable p
  if f.canRead = false then
    lockRelease (.file r)
    lockRelease (.ops p)
    pure (fail .EBADF)
  -- standard output and standard error go on as regular files do
  else if f.stdFileStatus = 0 then
    lockRelease (.file r)
    lockRelease (.ops p)
    if t.stdinOpen then readConsole buflen env else pure (fail .EBADF)
  else
    lockRelease (.ops p)
    -- this return keeps the `file_lock`
    if env.kmalloc = false then pure (fail .ENOMEM)
    else readData r f buflen env

/-- `read`. -/
def sysRead (fd : Int) (buf : Option UserPtr) (buflen : Nat) (env : ReadEnv) : K Int := do
  if buf = none then pure (fail .EFAULT)
  else
    let p ← curproc
    lockAcquire (.ops p)
    match ← pFiletableLookup p fd with
    | none =>
        lockRelease (.ops p)
        pure (fail .EBADF)
    | some r => readFound p r buflen env

/-- Answers `write` gets; `strlenFreed` is the length `write` computes from the buffer it has
just freed. -/
structure WriteEnv where
  kmalloc : Bool
  copyinstr : Int
  strlenFreed : Nat
  copyin : Int
  vopWrite : Int
  uioResid : Nat
  uioOffset : Int

/-- Standard output and standard error, with the `file_lock` of `r` held. -/
def writeConsole (r : FileRef) (env : WriteEnv) : K Int := do
  if env.kmalloc = false then
    lockRelease (.file r)
    pure (fail .ENOMEM)
  else if env.copyinstr = Errno.EFAULT.code then
    lockRelease (.file r)
    pure (-1 * env.copyinstr)
  else
    lockRelease (.file r)
    pure ((env.strlenFreed : Int) + 1)

/-- The transfer of `write`, with the `file_lock` of `r` held. -/
def writeData (r : FileRef) (f : File) (buflen : Nat) (env : WriteEnv) : K Int := do
  if env.kmalloc = false then
    lockRelease (.file r)
    pure (fail .ENOMEM)
  else if env.copyin = Errno.EFAULT.code then
    lockRelease (.file r)
    pure (-1 * env.copyin)
  else
    match f.seekPos, f.fileVnode with
    | some c, some _ =>
        let _ ← readCell c
        if env.vopWrite ≠ 0 then
          lockRelease (.file r)
          pure (-1 * env.vopWrite)
        else
          writeCell c env.uioOffset
          lockRelease (.file r)
          pure ((buflen : Int) - env.uioResid)
    | _, _ => throw .panic

/-- `write` on the file `r` that the number denotes. The console test looks at `stderr_open` and
`stdin_open` for both streams. -/
def writeFound (p : ProcRef) (r : FileRef) (buflen : Nat) (env : WriteEnv) : K Int := do
  lockFile r
  let f ← readFile r
  let t ← readTable p
  if f.canWrite = false then
    lockRelease (.file r)
    lockRelease (.ops p)
    pure (fail .EBADF)
  else if f.stdFileStatus = 1 ∨ f.stdFileStatus = 2 then
    if t.stderrOpen ∨ t.stdinOpen then
      lockRelease (.ops p)
      writeConsole r env
    else
      lockRelease (.file r)
      lockRelease (.ops p)
      pure (fail .EBADF)
  else
    lockRelease (.ops p)
    writeData r f buflen env

/-- `write`. -/
def sysWrite (fd : Int) (buf : Option UserPtr) (buflen : Nat) (env : WriteEnv) : K Int := do
  if buf = none then pure (fail .EFAULT)
  else
    let p ← curproc
    lockAcquire (.ops p)
    match ← pFiletableLookup p fd with
    | none =>
        lockRelease (.ops p)
        pure (fail .EBADF)
    | some r => writeFound p r buflen env

/-! ## lseek -/

/-- Answers `lseek` gets: the allocation of the `struct stat`, `VOP_ISSEEKABLE`, and `VOP_STAT`
with the size it reports. -/
structure LseekEnv where
  kmalloc : Bool
  vopIsseekable : Bool
  vopStat : Int
  stSize : Int

/-- Arithmetic on `off_t`. -/
def wrap64 (x : Int) : Int := x.bmod (2 ^ 64)

/-- The new position `lseek` computes, `none` for an unknown `whence`. -/
def seekTarget (whence cur eof pos : Int) : Option Int :=
  if whence = 0 then some pos
  else if whence = 1 then some (wrap64 (cur + pos))
  else if whence = 2 then some (wrap64 (eof + pos))
  else none

/-- The current position, read for `SEEK_CUR` only. -/
def seekCur (whence : Int) (seekPos : Option CellRef) : K Int :=
  if whence = 1 then
    match seekPos with
    | none => throw .panic
    | some c => readCell c
  else pure 0

/-- `lseek` once the file is known to be seekable and `VOP_STAT` has succeeded. -/
def lseekStore (r : FileRef) (f : File) (pos whence : Int) (env : LseekEnv) : K Int := do
  let cur ← seekCur whence f.seekPos
  match seekTarget whence cur env.stSize pos with
  | none =>
      lockRelease (.file r)
      pure (fail .EINVAL)
  | some newPos =>
      if newPos < 0 then
        lockRelease (.file r)
        pure (fail .EINVAL)
      else
        match f.seekPos with
        | none => throw .panic
        | some c =>
            writeCell c newPos
            lockRelease (.file r)
            pure 0

/-- `lseek` on the file `r` that the number denotes. -/
def lseekFound (r : FileRef) (pos whence : Int) (env : LseekEnv) : K Int := do
  lockFile r
  let f ← readFile r
  if f.stdFileStatus ≠ -1 then
    lockRelease (.file r)
    pure (fail .ESPIPE)
  -- `VOP_ISSEEKABLE` follows the vnode
  else if f.fileVnode = none then throw .panic
  else if env.vopIsseekable = false then
    lockRelease (.file r)
    pure (fail .ESPIPE)
  -- the `struct stat` is used without a test
  else if env.kmalloc = false then throw .panic
  else if env.vopStat ≠ 0 then
    lockRelease (.file r)
    pure (-env.vopStat)
  else lseekStore r f pos whence env

/-- `lseek`. -/
def sysLseek (fd pos whence : Int) (env : LseekEnv) : K Int := do
  if fd < 0 ∨ fd ≥ openMax then pure (fail .EBADF)
  else
    let p ← curproc
    lockAcquire (.ops p)
    let found ← pFiletableLookup p fd
    lockRelease (.ops p)
    match found with
    | none => pure (fail .EBADF)
    | some r => lseekFound r pos whence env

/-! ## chdir and __getcwd -/

/-- `chdir`, with the answers of `copyinstr` and `vfs_chdir`. -/
def sysChdir (copyinstr vfsChdir : Int) : K Int := do
  lockAcquire .fileops
  if copyinstr ≠ 0 then
    lockRelease .fileops
    pure (-copyinstr)
  else if vfsChdir ≠ 0 then
    lockRelease .fileops
    pure (-vfsChdir)
  else
    lockRelease .fileops
    pure vfsChdir

/-- `__getcwd`, with the answers of `copyinstr` and `vfs_getcwd`. -/
def sysGetcwd (buf : Option UserPtr) (buflen : Nat) (copyinstr vfsGetcwd : Int)
    (uioResid : Nat) : K Int := do
  if buf = none then pure (fail .EFAULT)
  else
    let p ← curproc
    lockAcquire (.ops p)
    if copyinstr ≠ 0 then
      lockRelease (.ops p)
      pure (-copyinstr)
    else if vfsGetcwd ≠ 0 then
      lockRelease (.ops p)
      pure (-vfsGetcwd)
    else
      lockRelease (.ops p)
      pure ((buflen : Int) - uioResid)

end Os161.Syscall

import Os161.Path.Devices

set_option autoImplicit false

/-!
# Path operations

`kern/vfs/vfslookup.c`, `kern/vfs/vfscwd.c` and `kern/vfs/vfspath.c`: the split of a path into a
device and a path below it, name lookup, the current directory, and the operations of the system
calls on paths.
-/

namespace Os161.Path

open Os161.Lib.Calls

/-! ## The current directory -/

/-- `vfs_getcurdir`. -/
def vfsGetcurdir : VfsCall VnodeRef := do
  let s ← get
  match s.curdir with
  | none => throw .ENOENT
  | some d => do
      vopIncref d
      pure d

variable (W : World)

/-- `S_IFDIR`. -/
def sIfdir : Nat := 0o20000

/-- `vfs_setcurdir`. -/
def vfsSetcurdir (dir : VnodeRef) : VfsCall Unit := do
  let vtype ← vopGettype W dir
  if vtype ≠ sIfdir then throw .ENOTDIR
  else do
    vopIncref dir
    let s ← get
    set { s with curdir := some dir }
    match s.curdir with
    | none => pure ()
    | some old => vopDecref old

/-! ## Lookup -/

/-- The characters that end the device part of a path. -/
def isMark (c : Char) : Bool := c == ':' || c == '/'

/-- A path without the slashes it starts with. -/
def skipSlashes (path : Str) : Str := path.dropWhile (· == '/')

/-- `getdevice` for a path that is not empty. -/
def startOf (path : Str) : VfsCall (Str × VnodeRef) :=
  match path.takeWhile (!isMark ·), path.dropWhile (!isMark ·) with
  | c :: device, ':' :: rest => do
      let startvn ← vfsGetroot W (c :: device)
      pure (skipSlashes rest, startvn)
  | [], '/' :: rest => do
      let s ← get
      match s.bootfs with
      | none => throw .ENOENT
      | some boot => do
          vopIncref boot
          pure (skipSlashes rest, boot)
  | [], ':' :: rest => do
      let vn ← vfsGetcurdir
      match ← vnFs W vn with
      | none => halt .noFs
      | some fs => do
          let r ← catching (fsopGetroot W fs)
          vopDecref vn
          let startvn ← returning r
          pure (skipSlashes rest, startvn)
  -- no colon before a slash: a path from the current directory
  | _, _ => do
      let startvn ← vfsGetcurdir
      pure (path, startvn)

/-- `getdevice`: the path below the start, and the vnode to start from. -/
def getdevice (path : Str) : VfsCall (Str × VnodeRef) := do
  biglockHeld
  if path = [] then throw .EINVAL else startOf W path

/-- `vfs_lookparent`: the directory, and the last name of the path. -/
def vfsLookparent (path : Str) : VfsCall (VnodeRef × Str) := do
  biglockAcquire
  match ← catching (getdevice W path) with
  | .error e =>
      biglockRelease
      throw e
  | .ok (path, startvn) =>
      let r ← catching (if path = [] then throw .EINVAL else vopLookparent W startvn path)
      vopDecref startvn
      biglockRelease
      returning r

/-- `vfs_lookup`. -/
def vfsLookup (path : Str) : VfsCall VnodeRef := do
  biglockAcquire
  match ← catching (getdevice W path) with
  | .error e =>
      biglockRelease
      throw e
  | .ok (path, startvn) =>
      if path = [] then
        biglockRelease
        pure startvn
      else
        let r ← catching (vopLookup W startvn path)
        vopDecref startvn
        biglockRelease
        returning r

/-- `vfs_chdir`. -/
def vfsChdir (path : Str) : VfsCall Unit := do
  let vn ← vfsLookup W path
  let r ← catching (vfsSetcurdir W vn)
  vopDecref vn
  returning r

/-! ## The operations of the system calls -/

/-- The flags of `vfs_open`. -/
def oAccmode (openflags : BitVec 32) : BitVec 32 := openflags &&& 3

def oCreat (openflags : BitVec 32) : Bool := openflags &&& 4 != 0

def oExcl (openflags : BitVec 32) : Bool := openflags &&& 8 != 0

def oTrunc (openflags : BitVec 32) : Bool := openflags &&& 16 != 0

/-- The part of `vfs_open` that gets the vnode. -/
def openVnode (path : Str) (openflags : BitVec 32) (mode : Nat) : VfsCall VnodeRef := do
  if oCreat openflags then
    let (dir, name) ← vfsLookparent W path
    let r ← catching (vopCreat W dir name (oExcl openflags) mode)
    vopDecref dir
    returning r
  else vfsLookup W path

/-- The part of `vfs_open` for `O_TRUNC`. -/
def openTruncate (vn : VnodeRef) (canwrite : Bool) : VfsCall Unit :=
  if canwrite then vopCall W (.truncate vn 0) else throw .EINVAL

/-- The part of `vfs_open` that opens the vnode; on an error its reference is given back. -/
def openFound (vn : VnodeRef) (openflags : BitVec 32) : VfsCall VnodeRef := do
  match ← catching (vopCall W (.eachopen vn openflags)) with
  | .error e =>
      vopDecref vn
      throw e
  | .ok () =>
      if oTrunc openflags then
        match ← catching (openTruncate W vn (oAccmode openflags != 0)) with
        | .error e =>
            vopDecref vn
            throw e
        | .ok () => pure vn
      else pure vn

/-- `vfs_open`. -/
def vfsOpen (path : Str) (openflags : BitVec 32) (mode : Nat) : VfsCall VnodeRef :=
  if oAccmode openflags = 3 then throw .EINVAL
  else do
    let vn ← openVnode W path openflags mode
    openFound W vn openflags

/-- The functions that look up the directory of a path, make one call on it, and release it. -/
def onParent (path : Str) (call : VnodeRef → Str → Vop) : VfsCall Unit := do
  let (dir, name) ← vfsLookparent W path
  let r ← catching (vopCall W (call dir name))
  vopDecref dir
  returning r

/-- `vfs_remove`. -/
def vfsRemove (path : Str) : VfsCall Unit := onParent W path .remove

/-- `vfs_symlink`; `VOP_SYMLINK` takes the name before the contents. -/
def vfsSymlink (contents path : Str) : VfsCall Unit :=
  onParent W path fun newdir newname => .symlink newdir newname contents

/-- `vfs_mkdir`. -/
def vfsMkdir (path : Str) (mode : Nat) : VfsCall Unit :=
  onParent W path fun parent name => .mkdir parent name mode

/-- `vfs_rmdir`. -/
def vfsRmdir (path : Str) : VfsCall Unit := onParent W path .rmdir

/-- `vfs_readlink`. -/
def vfsReadlink (path : Str) : VfsCall Unit := do
  let vn ← vfsLookup W path
  let r ← catching (vopCall W (.readlink vn))
  vopDecref vn
  returning r

/-- The end of `vfs_rename` and `vfs_link`: a call on the directory `newdir` and the vnode `old`,
if both are on one file system, and the release of both. -/
def onSameFs (old newdir : VnodeRef) (call : Vop) : VfsCall Unit := do
  let oldFs ← vnFs W old
  let newFs ← vnFs W newdir
  if oldFs = none ∨ newFs = none ∨ oldFs ≠ newFs then
    vopDecref newdir
    vopDecref old
    throw .EXDEV
  else
    let r ← catching (vopCall W call)
    vopDecref newdir
    vopDecref old
    returning r

/-- `vfs_rename`. -/
def vfsRename (oldpath newpath : Str) : VfsCall Unit := do
  let (olddir, oldname) ← vfsLookparent W oldpath
  match ← catching (vfsLookparent W newpath) with
  | .error e =>
      vopDecref olddir
      throw e
  | .ok (newdir, newname) =>
      onSameFs W olddir newdir (.rename olddir oldname newdir newname)

/-- `vfs_link`. -/
def vfsLink (oldpath newpath : Str) : VfsCall Unit := do
  let oldfile ← vfsLookup W oldpath
  match ← catching (vfsLookparent W newpath) with
  | .error e =>
      vopDecref oldfile
      throw e
  | .ok (newdir, newname) =>
      onSameFs W oldfile newdir (.link newdir newname oldfile)

end Os161.Path

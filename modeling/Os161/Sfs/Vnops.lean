import Os161.Sfs.Io

set_option autoImplicit false

/-!
# The operations of a mounted volume

`kern/fs/sfs/sfs_vnops.c` and `kern/fs/sfs/sfs_fsops.c`, and the system they are part of: a volume,
the references to its vnodes that open files, current directories and calls hold, and the
references that `vnode_decref` has passed on to a `sfs_reclaim` that has not begun. `vfs_biglock`
makes every operation one step; only `vnode_incref` and `vnode_decref` run without it, and between
the end of `vnode_decref` and `sfs_reclaim` other threads may run.

SFS has no subdirectories: the directory of every operation is the root directory.
-/

namespace Os161.Sfs

open Os161.Lib.Calls

/-! ## Operations on vnodes -/

/-- Add one to `sfi_linkcount`, and mark the inode dirty. -/
def incLink (sv : Ptr) : FsCall Unit :=
  modify fun s => s.updateInode sv { s.inode sv with linkcount := (s.inode sv).linkcount + 1 }

/-- Take one from `sfi_linkcount`, and mark the inode dirty. -/
def decLink (sv : Ptr) : FsCall Unit := do
  let s ← get
  if (s.inode sv).linkcount = 0 then halt .assertion
  else set (s.updateInode sv { s.inode sv with linkcount := (s.inode sv).linkcount - 1 })

/-- `sfs_creat`. -/
def creat (sv : Ptr) (name : Name) (excl : Bool) : FsCall Ptr := do
  let r ← dirFindname sv name
  match r.entry with
  | some (ino, _) => if excl = true then throw .EEXIST else loadvnode ino typeInval
  | none => do
    let newguy ← makeobj typeFile
    let s ← get
    match ← catching (dirLink sv name (s.ino newguy)) with
    | .error e => do
      vopDecref newguy
      throw e
    | .ok _ => do
      incLink newguy
      pure newguy

/-- `sfs_link`. -/
def link (sv : Ptr) (name : Name) (f : Ptr) : FsCall Unit := do
  let s ← get
  if (s.inode f).type = typeDir then throw .EINVAL
  else do
    let _ ← dirLink sv name (s.ino f)
    incLink f

/-- `sfs_remove`. -/
def remove (sv : Ptr) (name : Name) : FsCall Unit := do
  let (victim, slot) ← lookonce sv name
  match ← catching (dirUnlink sv slot) with
  | .ok () => do
    decLink victim
    vopDecref victim
  | .error e => do
    vopDecref victim
    throw e

/-- `sfs_rename`. -/
def rename (sv : Ptr) (n1 n2 : Name) : FsCall Unit := do
  let (g1, slot1) ← lookonce sv n1
  let s ← get
  if (s.inode g1).type ≠ typeFile then halt .assertion
  else
    match ← catching (dirLink sv n2 (s.ino g1)) with
    | .error e => do
      vopDecref g1
      throw e
    | .ok slot2 => do
      incLink g1
      match ← catching (dirUnlink sv slot1) with
      | .ok () => do
        decLink g1
        vopDecref g1
      | .error e => do
        match ← catching (dirUnlink sv slot2) with
        | .error _ => halt .cannotRecover
        | .ok () => do
          modify fun s => s.setInode g1
            { s.inode g1 with linkcount := (s.inode g1).linkcount - 1 }
          vopDecref g1
          throw e

/-- `sfs_read` and `sfs_write`: `sfs_io` for the `uio` of the caller. The operations table of a
directory has an error instead. -/
def transfer (sv : Ptr) (u : Uio) : FsCall (Except Errno Unit × Uio) := do
  let s ← get
  if (s.inode sv).type = typeDir then throw .EISDIR else withLocal u (catching (io sv))

/-- `sfs_truncate`; the operations table of a directory has an error instead. -/
def truncate (sv : Ptr) (len : Int) : FsCall Unit := do
  let s ← get
  if (s.inode sv).type = typeDir then throw .EISDIR else itrunc sv len

/-! ## Operations on the volume -/

/-- One block of `sfs_freemapio` for writing. -/
def writeFreemap (j : Nat) : FsCall Unit := do
  let s ← get
  writeblock (freemapStart + .ofNat j) (.ofBits fun i => s.freemap.isset (.ofNat (4096 * j + i)))

/-- `sfs_sync`; the results of `VOP_FSYNC` are not looked at. -/
def sync : FsCall Unit := do
  let s ← get
  forEach s.vnodes fun v => do
    let _ ← catching (syncInode v)
    pure ()
  if s.freemapdirty = true then do
    forEach (List.range (freemapblocks s.nblocks).toNat) writeFreemap
    modify fun s => { s with freemapdirty := false }
  else pure ()

/-! ## The system -/

/-- A volume and the references to its vnodes. -/
structure System where
  fs : Fs
  held : List Ptr
  closing : List Ptr

/-- What an operation hands back that matters for references. -/
inductive Outcome where
  | none
  | vnode (sv : Ptr)
  | reclaims (v : Bool)

end Os161.Sfs

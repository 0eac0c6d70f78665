import Mathlib.Data.List.FinRange
import Os161.Sfs.Volume

set_option autoImplicit false

/-!
# Inodes in memory

`kern/fs/sfs/sfs_bmap.c` and `kern/fs/sfs/sfs_inode.c`, with the reference counts of
`kern/vfs/vnode.c`. A `struct sfs_vnode` is named by its address.
-/

namespace Os161.Sfs

open Os161.Lib.Calls

/-! ## Changing a vnode -/

/-- Change `sv_i`. -/
def Fs.setInode (s : Fs) (sv : Ptr) (d : Dinode) : Fs :=
  { s with inode := Function.update s.inode sv d }

/-- Set `sv_dirty`. -/
def Fs.setDirty (s : Fs) (sv : Ptr) (v : Bool) : Fs :=
  { s with dirty := Function.update s.dirty sv v }

/-- Change `sv_i` and mark it dirty. -/
def Fs.updateInode (s : Fs) (sv : Ptr) (d : Dinode) : Fs := (s.setInode sv d).setDirty sv true

def Dinode.setDirect (d : Dinode) (i : Fin 15) (b : Daddr) : Dinode :=
  { d with direct := Function.update d.direct i b }

/-! ## Mapping blocks -/

/-- The check at the end of `sfs_bmap`. -/
def handBack (block : Daddr) : FsCall Daddr := do
  if block = 0 then pure block
  else do
    if ← bused block then pure block else halt .dataMarkedFree

/-- `sfs_bmap`. -/
def bmap (sv : Ptr) (fileblock : UInt32) (doalloc : Bool) : FsCall Daddr := do
  let s ← get
  if h : fileblock.toNat < 15 then do
    let block := (s.inode sv).direct ⟨fileblock.toNat, h⟩
    if block = 0 ∧ doalloc = true then do
      let block ← balloc
      modify fun s => s.updateInode sv ((s.inode sv).setDirect ⟨fileblock.toNat, h⟩ block)
      handBack block
    else handBack block
  else do
    let fileblock := fileblock.toNat - 15
    let idnum := fileblock / 128
    let idoff : Fin 128 := ⟨fileblock % 128, Nat.mod_lt _ (by decide)⟩
    if 1 ≤ idnum then throw .EFBIG
    else do
      let idblock := (s.inode sv).indirect
      if idblock = 0 ∧ doalloc = false then pure 0
      else do
        let (idblock, idbuf) ← if idblock = 0 then do
            let idblock ← balloc
            modify fun s => s.updateInode sv { s.inode sv with indirect := idblock }
            pure (idblock, (fun _ => 0 : Idbuf))
          else do
            let data ← readblock idblock
            pure (idblock, Idbuf.ofBlock data)
        let block := idbuf idoff
        if block = 0 ∧ doalloc = true then do
          let block ← balloc
          writeblock idblock (Idbuf.toBlock (Function.update idbuf idoff block))
          handBack block
        else handBack block

/-- Conversion to `uint32_t`. -/
def u32 (i : Int) : UInt32 := .ofNat (i % 2 ^ 32).toNat

/-- `DIVROUNDUP(len, SFS_BLOCKSIZE)` of an `off_t`, in a `uint32_t`. -/
def blocklen (len : Int) : UInt32 := u32 ((len + 512 - 1).tdiv 512)

/-- The variables of the second loop of `sfs_itrunc`. -/
structure Scan where
  idbuf : Idbuf
  hasnonzero : Bool
  iddirty : Bool

/-- The first loop of `sfs_itrunc`. -/
def truncDirect (sv : Ptr) (blocklen : UInt32) (i : Fin 15) : FsCall Unit := do
  let s ← get
  let block := (s.inode sv).direct i
  if blocklen.toNat ≤ i ∧ block ≠ 0 then do
    bfree block
    modify fun s => s.updateInode sv ((s.inode sv).setDirect i 0)
  else pure ()

/-- The second loop of `sfs_itrunc`. -/
def truncIndirect (blocklen : UInt32) (j : Fin 128) : Call (Fs × Scan) Panic Errno Unit := do
  let (_, v) ← get
  if blocklen.toNat < 15 + j ∧ v.idbuf j ≠ 0 then do
    framed (bfree (v.idbuf j))
    onLocal (modify fun v => { v with idbuf := Function.update v.idbuf j 0, iddirty := true })
  else pure ()
  onLocal (modify fun v => if v.idbuf j ≠ 0 then { v with hasnonzero := true } else v)

/-- `sfs_itrunc`. -/
def itrunc (sv : Ptr) (len : Int) : FsCall Unit := do
  forEach (List.finRange 15) (truncDirect sv (blocklen len))
  let s ← get
  let idblock := (s.inode sv).indirect
  if (blocklen len).toNat < 15 + 128 - 1 ∧ idblock ≠ 0 then do
    let data ← readblock idblock
    let (_, v) ← withLocal ⟨Idbuf.ofBlock data, false, false⟩
      (forEach (List.finRange 128) (truncIndirect (blocklen len)))
    if v.hasnonzero = false then do
      bfree idblock
      modify fun s => s.updateInode sv { s.inode sv with indirect := 0 }
    else if v.iddirty = true then writeblock idblock v.idbuf.toBlock
    else pure ()
  else pure ()
  modify fun s => s.updateInode sv { s.inode sv with size := u32 len }

/-! ## Loading and reclaiming -/

/-- `sfs_sync_inode`. -/
def syncInode (sv : Ptr) : FsCall Unit := do
  let s ← get
  if s.dirty sv = true then do
    writeblock (s.ino sv) (s.inode sv).toBlock
    modify fun s => s.setDirty sv false
  else pure ()

/-- `vnode_incref`. -/
def incref (sv : Ptr) : FsCall Unit :=
  modify fun s => { s with refcount := Function.update s.refcount sv (s.refcount sv + 1) }

/-- `sfs_reclaim`, with the reference that `vnode_decref` passes on. -/
def reclaim (sv : Ptr) : FsCall Unit := do
  let s ← get
  if s.refcount sv ≠ 1 then do
    if s.refcount sv = 0 then halt .assertion
    else do
      set { s with refcount := Function.update s.refcount sv (s.refcount sv - 1) }
      throw .EBUSY
  else do
    if (s.inode sv).linkcount = 0 then itrunc sv 0 else pure ()
    syncInode sv
    let s ← get
    if (s.inode sv).linkcount = 0 then bfree (s.ino sv) else pure ()
    let s ← get
    if sv ∉ s.vnodes then halt .notInPool
    else
      set { s with
        vnodes := s.vnodes.erase sv
        refcount := Function.update s.refcount sv 0 }

/-- The part of `vnode_decref` under the spinlock: whether the vnode is to be reclaimed. -/
def decref (sv : Ptr) : FsCall Bool := do
  let s ← get
  if s.refcount sv = 0 then halt .assertion
  else if 1 < s.refcount sv then do
    set { s with refcount := Function.update s.refcount sv (s.refcount sv - 1) }
    pure false
  else pure true

/-- `VOP_DECREF` inside this file system: what `sfs_reclaim` returns is only printed. -/
def vopDecref (sv : Ptr) : FsCall Unit := do
  if ← decref sv then do
    let _ ← catching (reclaim sv)
    pure ()
  else pure ()

/-- An address at which there is no vnode. -/
def fresh (vnodes : List Ptr) : Ptr := vnodes.foldr max 0 + 1

/-- `kmalloc` of a `struct sfs_vnode`: an address that is not in use, or `NULL`. -/
def kmallocVnode : FsCall (Option Ptr) := do
  let s ← get
  set { s with memory := s.memory.tail }
  match s.memory.head? with
  | some none => pure none
  | some (some p) => pure (some (if p ∈ s.vnodes then fresh s.vnodes else p))
  | none => pure (some (fresh s.vnodes))

/-- The search of `sfs_loadvnode` in the table. -/
def findVnode (ino : Daddr) : List Ptr → FsCall (Option Ptr)
  | [] => pure none
  | sv :: rest => do
    let s ← get
    if ← bused (s.ino sv) then do
      if s.ino sv = ino then pure (some sv) else findVnode ino rest
    else halt .foundUnallocated

/-- `sfs_loadvnode`. -/
def loadvnode (ino : Daddr) (forcetype : UInt16) : FsCall Ptr := do
  let s ← get
  match ← findVnode ino s.vnodes with
  | some sv => do
    if forcetype = typeInval then do
      incref sv
      pure sv
    else halt .assertion
  | none => do
    match ← kmallocVnode with
    | none => throw .ENOMEM
    | some sv => do
      if ← bused ino then do
        let data ← readblock ino
        let d := Dinode.ofBlock data
        if forcetype ≠ typeInval ∧ d.type ≠ typeInval then halt .assertion
        else do
          let d := if forcetype ≠ typeInval then { d with type := forcetype } else d
          if d.type ≠ typeFile ∧ d.type ≠ typeDir then halt .invalidType
          else do
            -- `vnode_init` does not fail, `vnodearray_add` may
            match ← kmallocVnode with
            | none => throw .ENOMEM
            | some _ => do
              modify fun s => { s with
                vnodes := s.vnodes ++ [sv]
                refcount := Function.update s.refcount sv 1
                ino := Function.update s.ino sv ino
                inode := Function.update s.inode sv d
                dirty := Function.update s.dirty sv (decide (forcetype ≠ typeInval)) }
              pure sv
      else halt .loadUnallocated

/-- `sfs_makeobj`. -/
def makeobj (type : UInt16) : FsCall Ptr := do
  let ino ← balloc
  match ← catching (loadvnode ino type) with
  | .ok sv => pure sv
  | .error e => do
    bfree ino
    throw e

/-- `sfs_getroot`. -/
def getroot : FsCall Ptr := do
  let sv ← loadvnode rootdirIno typeInval
  let s ← get
  if (s.inode sv).type ≠ typeDir then throw .EINVAL else pure sv

end Os161.Sfs

import Os161.Sfs.Inode

set_option autoImplicit false

/-!
# File I/O and the directory

The file-level part of `kern/fs/sfs/sfs_io.c`, and `kern/fs/sfs/sfs_dir.c`.
-/

namespace Os161.Sfs

open Os161.Lib.Calls

/-! ## File-level I/O -/

/-- `sfs_partialio`. -/
def partialio (sv : Ptr) (skipstart len : Nat) : IoCall Unit := do
  let (_, u) ← get
  if 512 < skipstart + len then halt .assertion
  else do
    let fileblock : UInt32 := .ofNat (u.offset / 512)
    let diskblock ← framed (bmap sv fileblock (u.rw = .write))
    let iobuf ← if diskblock = 0 then
        if u.rw = .read then pure Block.zero else halt .assertion
      else framed (readblock diskblock)
    let data ← onLocal (uiomove len (iobuf.slice skipstart len))
    if u.rw = .write then framed (writeblock diskblock (iobuf.splice skipstart data))
    else pure ()

/-- `sfs_blockio`; the offset on the disk is a product of 32-bit numbers. -/
def blockio (sv : Ptr) : IoCall Unit := do
  let (_, u) ← get
  let fileblock : UInt32 := .ofNat (u.offset / 512)
  let diskblock ← framed (bmap sv fileblock (u.rw = .write))
  if diskblock = 0 then
    if u.rw = .read then onLocal (uiomovezeros 512) else halt .assertion
  else if u.resid < 512 then halt .assertion
  else do
    let saveoff := u.offset
    let diskoff := (diskblock * 512).toNat
    let saveres := u.resid
    onLocal (modify fun u => { u with offset := diskoff, resid := 512 })
    let result ← catching rwblock
    onLocal (modify fun u =>
      { u with offset := u.offset - diskoff + saveoff, resid := u.resid - 512 + saveres })
    match result with
    | .ok () => pure ()
    | .error e => throw e

/-- The body of `sfs_io`, up to `out`. -/
def ioBody (sv : Ptr) : IoCall Unit := do
  let (_, u) ← get
  let blkoff := u.offset % 512
  if blkoff ≠ 0 then partialio sv blkoff (min (512 - blkoff) u.resid.toNat) else pure ()
  let (_, u) ← get
  if u.resid = 0 then pure ()
  else if u.offset % 512 ≠ 0 then halt .assertion
  else do
    forEach (List.range (u.resid.toNat / 512)) fun _ => blockio sv
    let (_, u) ← get
    if 512 ≤ u.resid then halt .assertion
    else if 0 < u.resid then partialio sv 0 u.resid.toNat
    else pure ()

/-- `sfs_io`. -/
def io (sv : Ptr) : IoCall Unit := do
  let (s, u) ← get
  let origresid := u.resid
  let size := (s.inode sv).size.toNat
  if u.rw = .read ∧ size ≤ u.offset then pure ()
  else do
    let extraresid : UInt32 :=
      if u.rw = .read ∧ size < u.offset + u.resid.toNat then
        .ofNat (u.offset + u.resid.toNat - size)
      else 0
    if extraresid ≠ 0 ∧ u.resid ≤ extraresid then halt .assertion
    else do
      onLocal (modify fun u => { u with resid := u.resid - extraresid })
      let result ← catching (ioBody sv)
      let (s, u) ← get
      if u.resid ≠ origresid ∧ u.rw = .write ∧ (s.inode sv).size.toNat < u.offset then
        framed (modify fun s => s.updateInode sv { s.inode sv with size := .ofNat u.offset })
      else pure ()
      onLocal (modify fun u => { u with resid := u.resid + extraresid })
      match result with
      | .ok () => pure ()
      | .error e => throw e

/-! ## Metadata I/O -/

/-- `sfs_metaio` for reading. -/
def metaioRead (sv : Ptr) (actualpos len : Nat) : FsCall (List UInt8) := do
  let diskblock ← bmap sv (.ofNat (actualpos / 512)) false
  if diskblock = 0 then pure (List.replicate len 0)
  else do
    let metaiobuf ← readblock diskblock
    pure (metaiobuf.slice (actualpos % 512) len)

/-- `sfs_metaio` for writing. -/
def metaioWrite (sv : Ptr) (actualpos : Nat) (data : List UInt8) : FsCall Unit := do
  let diskblock ← bmap sv (.ofNat (actualpos / 512)) true
  if diskblock = 0 then halt .assertion
  else do
    let metaiobuf ← readblock diskblock
    writeblock diskblock (metaiobuf.splice (actualpos % 512) data)
    let s ← get
    let endpos := actualpos + data.length
    if (s.inode sv).size.toNat < endpos then
      modify fun s => s.updateInode sv { s.inode sv with size := .ofNat endpos }
    else pure ()

/-! ## Directories -/

/-- `sfs_readdir`. -/
def readdir (sv : Ptr) (slot : Nat) : FsCall Direntry := do
  let bytes ← metaioRead sv (slot * 64) 64
  pure (.ofBytes (bytes.getD · 0))

/-- `sfs_writedir`. -/
def writedir (sv : Ptr) (slot : Nat) (sd : Direntry) : FsCall Unit :=
  metaioWrite sv (slot * 64) sd.bytes

/-- `sfs_dir_nentries`. -/
def dirNentries (sv : Ptr) : FsCall Nat := do
  let s ← get
  if (s.inode sv).type ≠ typeDir then halt .assertion
  else
    let size := (s.inode sv).size.toNat
    if size % 64 ≠ 0 then halt .directorySize else pure (size / 64)

/-- What `sfs_dir_findname` reports: the inode and the slot of the name, and an empty slot. -/
structure Found where
  entry : Option (Daddr × Nat)
  emptyslot : Option Nat

/-- One round of the loop of `sfs_dir_findname`. -/
def findnameStep (sv : Ptr) (name : Name) (i : Nat) : Call (Fs × Found) Panic Errno Unit := do
  let tsd ← framed (readdir sv i)
  if tsd.ino = noino then onLocal (modify fun r => { r with emptyslot := some i })
  else if cstr tsd.name = name.1 then do
    let (_, r) ← get
    if r.entry.isSome then halt .duplicateName
    else onLocal (set { r with entry := some (tsd.ino, i) })
  else pure ()

/-- `sfs_dir_findname`; a name that is not there is no error here, but a result. -/
def dirFindname (sv : Ptr) (name : Name) : FsCall Found := do
  let nentries ← dirNentries sv
  let (_, r) ← withLocal ⟨none, none⟩ (forEach (List.range nentries) (findnameStep sv name))
  pure r

/-- `sfs_dir_link`, which hands back the slot. -/
def dirLink (sv : Ptr) (name : Name) (ino : Daddr) : FsCall Nat := do
  let r ← dirFindname sv name
  if r.entry.isSome then throw .EEXIST
  else if 60 < name.1.length + 1 then throw .ENAMETOOLONG
  else do
    let slot ← match r.emptyslot with
      | some i => pure i
      | none => dirNentries sv
    writedir sv slot ⟨ino, strcpy name⟩
    pure slot

/-- `sfs_dir_unlink`. -/
def dirUnlink (sv : Ptr) (slot : Nat) : FsCall Unit := writedir sv slot ⟨noino, fun _ => 0⟩

/-- `sfs_lookonce`, which hands back the vnode and the slot. -/
def lookonce (sv : Ptr) (name : Name) : FsCall (Ptr × Nat) := do
  let r ← dirFindname sv name
  match r.entry with
  | none => throw .ENOENT
  | some (ino, slot) => do
    let ret ← loadvnode ino typeInval
    let s ← get
    if (s.inode ret).linkcount = 0 then halt .linkcountZero else pure (ret, slot)

end Os161.Sfs

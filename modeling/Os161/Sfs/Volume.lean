import Mathlib.Logic.Function.Basic
import Os161.Lib.Calls
import Os161.Sfs.Format

set_option autoImplicit false

/-!
# A mounted volume and its disk

`struct sfs_fs` with its table of vnodes, the disk under it, and the functions that move blocks and
allocate them: `uiomove` of `kern/lib/uio.c`, `lhd_io` of `kern/dev/lamebus/lhd.c`, `sfs_rwblock`,
`sfs_readblock` and `sfs_writeblock` of `kern/fs/sfs/sfs_io.c`, and `kern/fs/sfs/sfs_balloc.c` over
`kern/lib/bitmap.c`.

Everything here runs under `vfs_biglock`. How the disk ends the next transfers of a sector, and
what `kmalloc` hands out next, is decided outside: the state holds these decisions in `media` and
`memory`, and a list that has run out stands for transfers and allocations that succeed.
-/

namespace Os161.Sfs

open Os161.Lib.Calls

/-- Error numbers. -/
inductive Errno where
  | ENOMEM
  | EAGAIN
  | EFAULT
  | ENAMETOOLONG
  | EINVAL
  | EIO
  | EISDIR
  | ENOTDIR
  | ENOENT
  | EEXIST
  | EBUSY
  | EFBIG
  | ENOSPC
  deriving DecidableEq, Repr

/-- The number `kern/errno.h` gives to an error. -/
def Errno.code : Errno → Int
  | .ENOMEM => 3
  | .EAGAIN => 4
  | .EFAULT => 6
  | .ENAMETOOLONG => 7
  | .EINVAL => 8
  | Errno.EIO => 32
  | .EISDIR => 18
  | .ENOTDIR => 17
  | .ENOENT => 19
  | .EEXIST => 22
  | .EBUSY => 27
  | .EFBIG => 38
  | .ENOSPC => 36

theorem Errno.code_pos (e : Errno) : 0 < e.code := by
  cases e <;> decide

/-- The panics and assertions of the code; `assertion` stands for those that have no name here. -/
inductive Panic where
  /-- "uiomove: ran out of buffers" -/
  | outOfBuffers
  /-- "DEVOP_IO returned EINVAL" -/
  | deviceInvalid
  /-- "balloc: invalid block" -/
  | ballocInvalid
  /-- "sfs_bused called on out of range block" -/
  | busedOutOfRange
  /-- "Data block marked free" -/
  | dataMarkedFree
  /-- "Found inode in unallocated block" -/
  | foundUnallocated
  /-- "Tried to load inode from unallocated block" -/
  | loadUnallocated
  /-- "loadvnode: Invalid inode type" -/
  | invalidType
  /-- "directory: Invalid size" -/
  | directorySize
  /-- "Each name may legally appear only once" -/
  | duplicateName
  /-- "name in dir has linkcount 0" -/
  | linkcountZero
  /-- "reclaim vnode not in vnode pool" -/
  | notInPool
  /-- "rename: Cannot recover" -/
  | cannotRecover
  | assertion
  deriving DecidableEq, Repr

/-! ## Moving bytes -/

/-- `enum uio_rw`. -/
inductive Rw where
  | read
  | write
  deriving DecidableEq, Repr

/-- The memory of an iovec: the bytes that are there, `none` at an address that cannot be used. -/
abbrev Iovec : Type := List (Option UInt8)

/-- `struct uio`; `out` is what has been stored in the memory, for a read. -/
structure Uio where
  iov : List Iovec
  offset : Nat
  resid : UInt32
  rw : Rw
  out : List UInt8

/-- The state after `size` bytes have been moved to or from the front of the first iovec. -/
def Uio.advance (u : Uio) (seg : Iovec) (rest : List Iovec) (size : Nat) (src : List UInt8) : Uio :=
  { u with
    iov := seg.drop size :: rest
    offset := u.offset + size
    resid := u.resid - .ofNat size
    out := if u.rw = .read then u.out ++ src.take size else u.out }

/-- The loop of `uiomove`: `n` bytes are still to be moved, from `src` for a read. The result is
what has been moved, for a write. A copy that meets a bad address moves nothing. -/
def uiomoveFrom : List Iovec → Nat → List UInt8 → Call Uio Panic Errno (List UInt8)
  | [], n, _ => do
      let u ← get
      if n = 0 ∨ u.resid = 0 then pure [] else halt .outOfBuffers
  | seg :: rest, n, src => do
      let u ← get
      if n = 0 ∨ u.resid = 0 then pure []
      else
        let size := min seg.length n
        if (seg.take size).any Option.isNone then throw .EFAULT
        else do
          if size = 0 then pure () else set (u.advance seg rest size src)
          let u ← get
          if n = size ∨ u.resid = 0 then pure ((seg.take size).reduceOption)
          else if rest = [] then halt .outOfBuffers
          else do
            set { u with iov := rest }
            let more ← uiomoveFrom rest (n - size) (src.drop size)
            pure ((seg.take size).reduceOption ++ more)

/-- `uiomove`. -/
def uiomove (n : Nat) (src : List UInt8) : Call Uio Panic Errno (List UInt8) := do
  let u ← get
  uiomoveFrom u.iov n src

/-- `uiomovezeros`, 16 bytes at a time. -/
def uiomovezeros (n : Nat) : Call Uio Panic Errno Unit :=
  forEach (List.replicate (n / 16) 16 ++ if n % 16 = 0 then [] else [n % 16]) fun amt => do
    let _ ← uiomove amt (List.replicate amt 0)
    pure ()

/-! ## The volume -/

/-- `struct bitmap`. -/
structure Bitmap where
  nbits : UInt32
  isset : UInt32 → Bool

/-- The first clear bit, which `bitmap_alloc` sets. -/
def Bitmap.firstClear (b : Bitmap) : Option UInt32 :=
  ((List.range b.nbits.toNat).map UInt32.ofNat).find? fun i => !b.isset i

def Bitmap.write (b : Bitmap) (i : UInt32) (v : Bool) : Bitmap :=
  { b with isset := Function.update b.isset i v }

/-- Addresses of `struct sfs_vnode`. -/
abbrev Ptr : Type := Nat

/-- `struct sfs_fs`, the vnodes it has in memory, and the disk. The fields of a `struct sfs_vnode`
are looked up by its address; only those in `vnodes` exist. -/
structure Fs where
  /-- The sectors of the disk, and what they hold. -/
  dBlocks : UInt32
  disk : Daddr → Block
  /-- How the next transfers of a sector end. -/
  media : List (Option Errno)
  /-- What `kmalloc` returns next. -/
  memory : List (Option Ptr)
  /-- `sb_nblocks` of `sfs_sb`. -/
  nblocks : UInt32
  freemap : Bitmap
  freemapdirty : Bool
  /-- `sfs_vnodes`. -/
  vnodes : List Ptr
  /-- `vn_refcount` of `sv_absvn`. -/
  refcount : Ptr → Nat
  ino : Ptr → Daddr
  /-- `sv_i`. -/
  inode : Ptr → Dinode
  dirty : Ptr → Bool

/-- The calls of this file system. -/
abbrev FsCall (α : Type) : Type := Call Fs Panic Errno α

/-- The calls that move data for a `struct uio` of their caller. -/
abbrev IoCall (α : Type) : Type := Call (Fs × Uio) Panic Errno α

/-! ## The disk -/

/-- How the next transfer of a sector ends. -/
def nextMedia : FsCall (Option Errno) := do
  let s ← get
  set { s with media := s.media.tail }
  pure s.media.head?.join

/-- One round of the loop of `lhd_io`. -/
def lhdSector (sector : Daddr) : IoCall Unit := do
  let (_, u) ← get
  if u.rw = .write then do
    let data ← onLocal (uiomove 512 [])
    match ← framed nextMedia with
    | some e => throw e
    | none =>
      framed (modify fun s => { s with disk := Function.update s.disk sector (.ofList data) })
  else do
    match ← framed nextMedia with
    | some e => throw e
    | none => do
      let (s, _) ← get
      let _ ← onLocal (uiomove 512 (s.disk sector).bytes)
      pure ()

/-- `lhd_io`; the check for the end of the disk can overflow. -/
def lhdIo : IoCall Unit := do
  let (s, u) ← get
  let sector : UInt32 := .ofNat (u.offset / 512)
  let len := u.resid / 512
  if u.offset % 512 ≠ 0 ∨ u.resid % 512 ≠ 0 then throw .EINVAL
  else if s.dBlocks < sector + len then throw .EINVAL
  else forEach (List.range len.toNat) fun i => lhdSector (sector + .ofNat i)

/-- What `sfs_rwblock` makes of a result that it does not try again for. -/
def rwblockEnd : Except Errno Unit → IoCall Unit
  | .ok () => pure ()
  | .error .EINVAL => halt .deviceInvalid
  | .error e => throw e

/-- `sfs_rwblock`, with some retries left. -/
def rwblockFrom : Nat → IoCall Unit
  | 0 => do rwblockEnd (← catching lhdIo)
  | n + 1 => do
    match ← catching lhdIo with
    | .error Errno.EIO => rwblockFrom n
    | r => rwblockEnd r

def rwblock : IoCall Unit := rwblockFrom 10

/-- `SFSUIO`. -/
def sfsuio (iov : Iovec) (block : Daddr) (rw : Rw) : Uio where
  iov := [iov]
  offset := block.toNat * 512
  resid := 512
  rw := rw
  out := []

/-- `sfs_readblock`. -/
def readblock (block : Daddr) : FsCall Block := do
  let (_, u) ← withLocal (sfsuio (List.replicate 512 (some 0)) block .read) rwblock
  pure (.ofList u.out)

/-- `sfs_writeblock`. -/
def writeblock (block : Daddr) (data : Block) : FsCall Unit := do
  let _ ← withLocal (sfsuio (data.bytes.map some) block .write) rwblock
  pure ()

/-! ## Allocating blocks -/

/-- `sfs_clearblock`. -/
def clearblock (block : Daddr) : FsCall Unit := writeblock block .zero

/-- Set or clear a bit of the free block bitmap, which is then dirty. -/
def Fs.mark (s : Fs) (b : Daddr) (v : Bool) : Fs :=
  { s with freemap := s.freemap.write b v, freemapdirty := true }

/-- `sfs_bfree`, with the assertions of `bitmap_unmark`. -/
def bfree (diskblock : Daddr) : FsCall Unit := do
  let s ← get
  if diskblock < s.freemap.nbits ∧ s.freemap.isset diskblock = true then
    set (s.mark diskblock false)
  else halt .assertion

/-- `sfs_balloc`. -/
def balloc : FsCall Daddr := do
  let s ← get
  match s.freemap.firstClear with
  | none => throw .ENOSPC
  | some diskblock => do
    set (s.mark diskblock true)
    if s.nblocks ≤ diskblock then halt .ballocInvalid
    else do
      match ← catching (clearblock diskblock) with
      | .ok () => pure diskblock
      | .error e => do
        bfree diskblock
        throw e

/-- `sfs_bused`. -/
def bused (diskblock : Daddr) : FsCall Bool := do
  let s ← get
  if s.nblocks ≤ diskblock then halt .busedOutOfRange
  else pure (s.freemap.isset diskblock)

end Os161.Sfs

import Os161.Main.FileRead
import Os161.Main.Positions
import Os161.Sfs.Refusal
import Os161.Sfs.Room
import Os161.Syscall.UserSpace

set_option autoImplicit false

/-!
# The bytes a file write stores

`write` on a file of a mounted SFS volume, with its data: the bytes of the caller are fetched into
`write_buffer`, `sfs_io` moves them into the file, and the count and the new position are taken from
what is left of the `uio`. An error of `sfs_io` is returned as it is, whatever has been written
before it.
-/

namespace Os161.Main

open Os161.Lib.Program
open Os161.Lib.Calls (wp)
open Os161.Lib.Overlay
open Os161.Lib.Runs
open Os161.Syscall
open Os161.Vfs

/-- What a write does with its data. -/
structure WriteRun where
  answers : WriteEnv
  fs : Sfs.Fs

/-- The answers of a file write that gets these from `kmalloc`, `copyin` and `VOP_WRITE`. -/
def writeAnswers (kmalloc : Bool) (copyin vopWrite : Int) (uioResid : Nat) (uioOffset : Int) :
    WriteEnv :=
  { kmalloc := kmalloc, copyinstr := 0, strlenFreed := 0, copyin := copyin, vopWrite := vopWrite
    uioResid := uioResid, uioOffset := uioOffset }

/-- What `VOP_WRITE` returns. -/
def resultCode : Except Sfs.Errno Unit → Int
  | .ok _ => 0
  | .error e => e.code

/-- `write` of `n` bytes to the open file `f` at the position `pos`, which is the file `sv` of the
volume `s`. -/
def writeRun (f : File) (sv : Sfs.Ptr) (s : Sfs.Fs) (pos : Int) (kmalloc : Bool) (buf n : UInt32)
    (u : UserMem) : Except Sfs.Panic WriteRun :=
  if f.canWrite = false ∨ kmalloc = false then
    .ok { answers := writeAnswers kmalloc 0 0 0 0, fs := s }
  else match copyin u buf n with
    | .error e => .ok { answers := writeAnswers true e.code 0 0 0, fs := s }
    | .ok data =>
      match (Sfs.io sv).result (s, Sfs.writeUio pos.toNat data) with
      | .error p => .error p
      | .ok (r, t, v) =>
        .ok { answers := writeAnswers true 0 (resultCode r) v.resid.toNat v.offset, fs := t }

/-- A write that counts `ret` bytes has stored the first `ret` bytes of the buffer at the old
position, has left the rest of the file alone, and has moved the position by `ret`. -/
structure Stores (sv : Sfs.Ptr) (c : CellRef) (pos : Int) (buf n : UInt32) (u : UserMem)
    (s t : Sfs.Fs) (ret : Int) (k' : Kernel) : Prop where
  count : ret ≤ n.toNat
  bytes : ∀ i < ret.toNat, u (buf + .ofNat i) = some (t.byteAt sv (pos.toNat + i))
  rest : ∀ p, p < pos.toNat ∨ pos.toNat + ret.toNat ≤ p → t.byteAt sv p = s.byteAt sv p
  size : (t.inode sv).size.toNat = if ret = 0 then (s.inode sv).size.toNat else
    max (s.inode sv).size.toNat (pos.toNat + ret.toNat)
  advance : k'.cells c = some (pos + ret)

/-- `write` of the buffer accounts for every byte. -/
def Accounts (k : Kernel) (fd : Int) (f : File) (sv : Sfs.Ptr) (s : Sfs.Fs) (c : CellRef)
    (pos : Int) (kmalloc : Bool) (buf n : UInt32) (u : UserMem) : Prop :=
  ∃ R ret k', writeRun f sv s pos kmalloc buf n u = .ok R ∧
    Runs (sysWrite fd (some buf.toNat) n.toNat R.answers) k ret k' ∧
    (0 ≤ ret → Stores sv c pos buf n u s R.fs ret k') ∧
    (ret < 0 → Sfs.Unchanged s R.fs sv ∧ k'.cells c = some pos)

section Writes

variable {k k' : Kernel} {fd pos ret : Int} {f : File} {c : CellRef} {buf n : UInt32} {u : UserMem}
  {files : Set Sfs.Ptr} {sv : Sfs.Ptr} {s : Sfs.Fs}

/-! ## The system call -/

end Writes

/-! ## A file of one block -/

end Os161.Main

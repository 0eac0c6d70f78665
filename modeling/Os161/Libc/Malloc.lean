import Mathlib.Algebra.Group.Nat.Defs
import Os161.Lib.Calls

set_option autoImplicit false

/-!
# The user-level heap

`malloc` and `free` of `userland/lib/libc/stdlib/malloc.c` on a 32-bit machine. The heap lies
between `__heapbase` and `__heaptop` and is filled with blocks; each begins with a header of eight
bytes, whose two offsets lead to the headers of its neighbours. The code reads and writes memory
in pieces of eight bytes only, so the memory gives a header at every address.

A call of `errx` and a failed assertion end the process (`Exit`). `sbrk` is a parameter: it fails
when the environment says so or the address space ends, and otherwise moves the break.
-/

namespace Os161.Libc

open Os161.Lib.Calls

/-- `MBLOCKSIZE`. -/
def mblocksize : Nat := 8

/-- `MMAGIC`. -/
def mmagic : Nat := 2

/-- `PAGE_SIZE`. -/
def pageSize : Nat := 4096

/-- `struct mheader`: bit fields of 29, 1, 2, 29, 1 and 2 bits. -/
structure Mheader where
  prevblock : Nat
  pad : Nat
  magic1 : Nat
  nextblock : Nat
  inuse : Bool
  magic2 : Nat
  deriving DecidableEq, Repr

/-- What ends the process. -/
inductive Exit where
  /-- `__malloc_init`: `sbrk` fails. -/
  | initialSbrk
  | alignSbrk
  /-- `__malloc_init`: the other tests. -/
  | badInit
  | heapAtZero
  | baseMoved
  /-- `__malloc_sbrk` -/
  | topMoved
  /-- `__malloc_split` -/
  | splitSize
  | splitScrewed
  /-- `malloc` and `free`: `__heapbase` and `__heaptop` do not fit together. -/
  | localData
  /-- `malloc`: the search. -/
  | badMagic
  | badPrevious
  | ranOff
  /-- The search does not advance. -/
  | endless
  /-- `assert(size > M_SIZE(mh))` -/
  | topFits
  /-- `__malloc_trymerge` -/
  | inconsistent
  /-- `free` -/
  | outOfRange
  | corruptHeader
  | alreadyFree
  deriving DecidableEq

/-- The variables of `malloc.c`, the break of the process, and the memory. -/
structure Heap where
  heapbase : Nat
  heaptop : Nat
  brk : Nat
  mem : Nat → Mheader

/-- A function of `malloc.c`; none of them returns an error number. -/
abbrev Malloc (α : Type) : Type := Call Heap Exit Empty α

/-! ## Arithmetic on size_t -/

/-- A sum in `size_t`. -/
def addSize (a b : Nat) : Nat := (a + b) % 2 ^ 32

/-- A difference in `size_t`. -/
def subSize (a b : Nat) : Nat := (a + (2 ^ 32 - b)) % 2 ^ 32

/-- `M_NEXTOFF`. -/
def mNextoff (h : Mheader) : Nat := h.nextblock * 8 % 2 ^ 32

/-- `M_PREVOFF`. -/
def mPrevoff (h : Mheader) : Nat := h.prevblock * 8 % 2 ^ 32

/-- `M_NEXT`. -/
def mNext (mh : Nat) (h : Mheader) : Nat := addSize mh (mNextoff h)

/-- `M_PREV`. -/
def mPrev (mh : Nat) (h : Mheader) : Nat := subSize mh (mPrevoff h)

/-- `M_DATA`. -/
def mData (mh : Nat) : Nat := addSize mh mblocksize

/-- `M_SIZE`. -/
def mSize (h : Mheader) : Nat := subSize (mNextoff h) mblocksize

/-- `M_OK`. -/
def mOk (h : Mheader) : Bool := h.magic1 == mmagic && h.magic2 == mmagic

/-- `M_MKFIELD`. -/
def mMkfield (off : Nat) : Nat := off / 8

/-- Reads a header. -/
def readHeader (mh : Nat) : Malloc Mheader := do
  let s ← get
  pure (s.mem mh)

/-- Writes a header. -/
def writeHeader (mh : Nat) (h : Mheader) : Malloc Unit :=
  modify fun s => { s with mem := Function.update s.mem mh h }

/-! ## sbrk -/

/-- Whether each call of `sbrk` succeeds. -/
structure SbrkEnv where
  initial : Bool
  align : Bool
  more : Bool

/-- `sbrk`: the break before the call, `none` for `-1`. -/
def sbrk (ok : Bool) (size : Nat) : Malloc (Option Nat) := do
  let s ← get
  -- the address space has an end
  if ok ∧ s.brk + size < 2 ^ 32 then
    modify fun s => { s with brk := s.brk + size }
    pure (some s.brk)
  else pure none

/-- `__malloc_init`. The tests of the sizes of types are known to succeed. -/
def mallocInit (env : SbrkEnv) : Malloc Unit := do
  let s ← get
  if s.heapbase ≠ 0 ∨ s.heaptop ≠ 0 then halt .badInit
  else
    match ← sbrk env.initial 0 with
    | none => halt .initialSbrk
    | some x =>
        if x = 0 then halt .heapAtZero
        else
          modify fun s => { s with heapbase := x, heaptop := x }
          if x % mblocksize ≠ 0 then
            let adjust := mblocksize - x % mblocksize
            match ← sbrk env.align adjust with
            | none => halt .alignSbrk
            | some y =>
                if y ≠ x then halt .baseMoved
                else modify fun s => { s with heapbase := x + adjust, heaptop := x + adjust }
          else pure ()

/-- `__malloc_sbrk`. -/
def mallocSbrk (ok : Bool) (size : Nat) : Malloc (Option Nat) := do
  match ← sbrk ok size with
  | none => pure none
  | some x =>
      let s ← get
      if x ≠ s.heaptop then halt .topMoved
      else
        modify fun s => { s with heaptop := addSize s.heaptop size }
        pure (some x)

/-! ## malloc -/

/-- `__malloc_split`. -/
def mallocSplit (mh size : Nat) : Malloc Unit := do
  if size % mblocksize ≠ 0 then halt .splitSize
  else
    let h ← readHeader mh
    if subSize (mSize h) size < 2 * mblocksize then pure ()
    else
      let mhnext := mNext mh h
      let oldsize := mSize h
      writeHeader mh { h with nextblock := mMkfield (addSize size mblocksize) }
      let h ← readHeader mh
      let mhnew := mNext mh h
      if mhnew = mhnext then halt .splitScrewed
      else
        writeHeader mhnew
          { prevblock := mMkfield (addSize size mblocksize), pad := 0, magic1 := mmagic
            nextblock := mMkfield (subSize oldsize size), inuse := false, magic2 := mmagic }
        let s ← get
        if mhnext ≠ s.heaptop then
          let new ← readHeader mhnew
          let next ← readHeader mhnext
          writeHeader mhnext { next with prevblock := new.nextblock }
        else pure ()

/-- How the search of `malloc` ends: at a block, or at the top with the variables `rightprevblock`
and `mh`. -/
inductive Search where
  | found (mh : Nat)
  | ended (rightprevblock : Nat) (mh : Option Nat)
  deriving DecidableEq

/-- The loop of `malloc`, for a rounded `size`. A loop that takes more rounds than the heap has
bytes does not advance. -/
def search (size : Nat) : Nat → Nat → Nat → Option Nat → Malloc Search
  | 0, _, _, _ => halt .endless
  | fuel + 1, i, rightprevblock, mh => do
      let s ← get
      if i < s.heaptop then
        let h ← readHeader i
        if mOk h = false then halt .badMagic
        else if h.prevblock ≠ rightprevblock then halt .badPrevious
        else if h.inuse ∨ mSize h < size then
          search size fuel (mNext i h) h.nextblock (some i)
        else pure (.found i)
      else if i ≠ s.heaptop then halt .ranOff
      else pure (.ended rightprevblock mh)

/-- The size of a request in whole blocks. -/
def roundBlocks (size : Nat) : Nat := addSize size (mblocksize - 1) / mblocksize * mblocksize

/-- An amount of space in whole pages. -/
def roundPages (space : Nat) : Nat := pageSize * (addSize space (pageSize - 1) / pageSize) % 2 ^ 32

/-- The header of the last block that the search has seen, if it is free. -/
def freeTop : Option Nat → Malloc (Option (Nat × Mheader))
  | none => pure none
  | some mh => do
      let h ← readHeader mh
      if h.inuse then pure none else pure (some (mh, h))

/-- The free block at the top grows. -/
def growTop (env : SbrkEnv) (size mh : Nat) (h : Mheader) : Malloc Nat := do
  if ¬ mSize h < size then halt .topFits
  else
    let morespace := roundPages (subSize size (mSize h))
    match ← mallocSbrk env.more morespace with
    | none => pure 0
    | some _ =>
        let h ← readHeader mh
        writeHeader mh
          { h with nextblock := mMkfield (addSize (mNextoff h) morespace), inuse := true }
        mallocSplit mh size
        pure (mData mh)

/-- A new block is made at the top. -/
def newTop (env : SbrkEnv) (size rightprevblock : Nat) : Malloc Nat := do
  let morespace := roundPages (addSize mblocksize size)
  match ← mallocSbrk env.more morespace with
  | none => pure 0
  | some p =>
      writeHeader p
        { prevblock := rightprevblock, pad := 0, magic1 := mmagic, nextblock := mMkfield morespace
          inuse := true, magic2 := mmagic }
      mallocSplit p size
      pure (mData p)

/-- `malloc`, when no block fits. -/
def expand (env : SbrkEnv) (size rightprevblock : Nat) (mh : Option Nat) : Malloc Nat := do
  match ← freeTop mh with
  | some (mh, h) => growTop env size mh h
  | none => newTop env size rightprevblock

/-- `malloc`, once the heap has been set up. -/
def mallocReady (size : Nat) (env : SbrkEnv) : Malloc Nat := do
  let s ← get
  if s.heapbase = 0 ∨ s.heaptop = 0 ∨ s.heapbase > s.heaptop then halt .localData
  else
    let size := roundBlocks size
    match ← search size (s.heaptop - s.heapbase + 1) s.heapbase 0 none with
    | .found mh =>
        mallocSplit mh size
        let h ← readHeader mh
        writeHeader mh { h with inuse := true }
        pure (mData mh)
    | .ended rightprevblock mh => expand env size rightprevblock mh

/-- `malloc`; `0` is NULL. -/
def malloc (size : Nat) (env : SbrkEnv) : Malloc Nat := do
  let s ← get
  if s.heapbase = 0 then
    mallocInit env
    mallocReady size env
  else mallocReady size env

/-! ## free -/

/-- Two words `0xdeadbeef`, read as a header. -/
def deadbeef : Mheader :=
  { prevblock := 0xdeadbeef / 8, pad := 1, magic1 := 3, nextblock := 0xdeadbeef / 8, inuse := true
    magic2 := 3 }

/-- `__malloc_deadbeef`, two words at a time: all sizes are sizes of whole blocks. -/
def mallocDeadbeef (ptr size : Nat) : Malloc Unit :=
  forEach (List.range (size / mblocksize)) fun i => writeHeader (addSize ptr (mblocksize * i)) deadbeef

/-- `__malloc_trymerge`. -/
def mallocTrymerge (mh mhnext : Nat) : Malloc Unit := do
  let h ← readHeader mh
  let next ← readHeader mhnext
  if h.nextblock ≠ next.prevblock then halt .inconsistent
  else if h.inuse ∨ next.inuse then pure ()
  else
    let mhnextnext := mNext mhnext next
    let nextblock := mMkfield
      (addSize (addSize (addSize mblocksize (mSize h)) mblocksize) (mSize next))
    writeHeader mh { h with nextblock := nextblock }
    let s ← get
    if mhnextnext ≠ s.heaptop then
      let nextnext ← readHeader mhnextnext
      writeHeader mhnextnext { nextnext with prevblock := nextblock }
      mallocDeadbeef mhnext mblocksize
    else mallocDeadbeef mhnext mblocksize

/-- The merge of `free` with the block above, but not at the top. -/
def mergeAbove (mh : Nat) : Malloc Unit := do
  let h ← readHeader mh
  let s ← get
  let mhnext := mNext mh h
  if mhnext ≠ s.heaptop then mallocTrymerge mh mhnext else pure ()

/-- The merge of `free` with the block below, but not at the bottom. -/
def mergeBelow (mh : Nat) : Malloc Unit := do
  let s ← get
  if mh ≠ s.heapbase then
    let h ← readHeader mh
    mallocTrymerge (mPrev mh h) mh
  else pure ()

/-- `free`; `0` is NULL. -/
def free (x : Nat) : Malloc Unit := do
  if x = 0 then pure ()
  else
    let s ← get
    if s.heapbase = 0 ∨ s.heaptop = 0 ∨ s.heapbase > s.heaptop then halt .localData
    else if x < s.heapbase ∨ x ≥ s.heaptop then halt .outOfRange
    else
      let mh := subSize x mblocksize
      let h ← readHeader mh
      if mOk h = false then halt .corruptHeader
      else if h.inuse = false then halt .alreadyFree
      else
        writeHeader mh { h with inuse := false }
        mallocDeadbeef (mData mh) (mSize h)
        mergeAbove mh
        mergeBelow mh

end Os161.Libc

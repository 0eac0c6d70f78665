import Os161.Syscall.CopyInOut
import Os161.Vm.Isolation
import Os161.Vm.Ram

set_option autoImplicit false

/-!
# Loading an executable

`load_elf` and `load_segment` of `kern/syscall/loadelf.c`, over the address spaces of `dumbvm.c` and
with the memory of `ram.c`. A file is what `VOP_READ` does with it: the pieces that it moves with
`uiomove`, and the error number it ends with. The segments are stored byte by byte through the TLB of
the CPU, and a store for which the TLB has nothing is a fault.

The state keeps two records that the kernel does not have: where in physical memory something has
been written, and the user addresses that have been stored to.
-/

namespace Os161.Vm.Dumbvm

open Os161.Lib.Calls

/-! ## The file -/

/-- What `VOP_READ` does at an offset, for so many bytes: the pieces it moves, and its error. -/
structure Vnode where
  read : Nat → Nat → List (List UInt8) × Option Nat
  fits : ∀ offset resid, (read offset resid).1.flatten.length ≤ resid

inductive LoadError where
  | ENOEXEC
  /-- An error number of `VOP_READ`. -/
  | io (result : Nat)
  /-- An error number of `dumbvm.c`, or the `EFAULT` of `copyout`. -/
  | vm (result : Errno)
  deriving DecidableEq

/-- `VOP_READ` into kernel memory, and the test for a short read. -/
def readKernel (v : Vnode) (offset size : Nat) : Except LoadError (List UInt8) :=
  match v.read offset size with
  | (_, some e) => .error (.io e)
  | (pieces, none) =>
      if pieces.flatten.length ≠ size then .error .ENOEXEC else .ok pieces.flatten

/-- A field of two bytes; the machine is big-endian. -/
def half (bs : List UInt8) (i : Nat) : Nat := (bs.getD i 0).toNat * 256 + (bs.getD (i + 1) 0).toNat

/-- A field of four bytes. -/
def word (bs : List UInt8) (i : Nat) : UInt32 := .ofNat (half bs i * 65536 + half bs (i + 2))

/-- `Elf_Ehdr`. -/
structure Ehdr where
  ident : List UInt8
  type : Nat
  machine : Nat
  version : UInt32
  entry : UInt32
  phoff : UInt32
  phentsize : Nat
  phnum : Nat

/-- `sizeof(Elf_Ehdr)`. -/
def ehdrSize : Nat := 52

def ehdrOf (bs : List UInt8) : Ehdr where
  ident := bs.take 16
  type := half bs 16
  machine := half bs 18
  version := word bs 20
  entry := word bs 24
  phoff := word bs 28
  phentsize := half bs 42
  phnum := half bs 44

/-- `ELFMAG0` to `ELFMAG3`, `ELFCLASS32`, `ELFDATA2MSB` and `EV_CURRENT`. -/
def goodIdent : List UInt8 := [0x7f, 0x45, 0x4c, 0x46, 1, 2, 1]

/-- The tests of `load_elf`: `EV_CURRENT`, `ET_EXEC` and `EM_MIPS`. -/
def Ehdr.Valid (eh : Ehdr) : Prop :=
  eh.ident.take 7 = goodIdent ∧ eh.version = 1 ∧ eh.type = 2 ∧ eh.machine = 8

instance (eh : Ehdr) : Decidable eh.Valid :=
  inferInstanceAs (Decidable (_ ∧ _))

/-- `load_elf`, up to the first loop. -/
def readEhdr (v : Vnode) : Except LoadError Ehdr := do
  let bs ← readKernel v 0 ehdrSize
  if (ehdrOf bs).Valid then .ok (ehdrOf bs) else .error .ENOEXEC

/-- `Elf_Phdr`. What `p_flags` says makes no difference. -/
structure Phdr where
  type : UInt32
  offset : UInt32
  vaddr : UInt32
  filesz : UInt32
  memsz : UInt32

/-- `sizeof(Elf_Phdr)`. -/
def phdrSize : Nat := 32

def phdrOf (bs : List UInt8) : Phdr where
  type := word bs 0
  offset := word bs 4
  vaddr := word bs 8
  filesz := word bs 16
  memsz := word bs 20

/-- `eh.e_phoff + i*eh.e_phentsize`. -/
def phdrOffset (eh : Ehdr) (i : Nat) : Nat := (eh.phoff + .ofNat (i * eh.phentsize)).toNat

/-- `PT_NULL`, `PT_PHDR` or `PT_MIPS_REGINFO`. -/
def Phdr.Skipped (ph : Phdr) : Prop := ph.type = 0 ∨ ph.type = 6 ∨ ph.type = 0x70000000

instance (ph : Phdr) : Decidable ph.Skipped :=
  inferInstanceAs (Decidable (_ ∨ _))

/-- The start of both loops: the header number `i`, if its segment is to be loaded. -/
def readPhdr (v : Vnode) (eh : Ehdr) (i : Nat) : Except LoadError (Option Phdr) := do
  let bs ← readKernel v (phdrOffset eh i) phdrSize
  if (phdrOf bs).Skipped then .ok none
  else if (phdrOf bs).type = 1 then .ok (some (phdrOf bs))
  else .error .ENOEXEC

/-! ## The memory -/

/-- `firstpaddr`, from what `ram_stealmem` has given. -/
def firstpaddr (first : Nat) : List (Nat × Nat) → Nat
  | [] => first
  | (addr, npages) :: _ => (addr + npages * pageSize % 2 ^ 32) % 2 ^ 32

/-- `ram_stealmem`, for the memory between `first` and `last`. -/
def ramStealmem (first last : Nat) (taken : List (Nat × Nat)) (npages : Nat) : Nat :=
  (Kmalloc.ramStealmem ⟨firstpaddr first taken, last⟩ npages).1

/-! ## The calls -/

/-- The machine and the two records. -/
structure Loader where
  machine : Machine
  /-- The first address and the number of the bytes. -/
  written : List (Nat × Nat)
  stored : List UInt32

/-- The functions of `loadelf.c`. -/
abbrev LoadCall (α : Type) : Type := Call Loader Panic LoadError α

/-- A call of a function of `dumbvm.c`. -/
def onMachine {α : Type} (m : VmCall α) : LoadCall α :=
  ExceptT.mk fun s =>
    match m.result s.machine with
    | .ok (r, t) => .ok (r.mapError .vm, { s with machine := t })
    | .error p => .error p

/-- The place that the TLB of the CPU `c` has for `va`. -/
def Cpu.lookup (cpu : Cpu) (va : Nat) : Option Nat :=
  ((List.finRange numTlb).find? fun i =>
    (cpu.tlb i).valid && decide ((cpu.tlb i).vpage = pageFrame va)).map fun i =>
      (cpu.tlb i).ppage + va % pageSize

/-- A store to an address that the TLB has. -/
def put (va : UInt32) (b : UInt8) (pa : Nat) : LoadCall Unit :=
  modify fun s =>
    { s with
      machine := { s.machine with mem := Function.update s.machine.mem pa b }
      written := (pa, 1) :: s.written
      stored := va :: s.stored }

/-- A store of `copyout` on the CPU `c`, which is made again after a fault. -/
def storeByte (c : Nat) (va : UInt32) (b : UInt8) : LoadCall Unit := do
  let s ← get
  match (s.machine.cpus c).lookup va.toNat with
  | some pa => put va b pa
  | none =>
      onMachine (vmFault c .write va)
      let s ← get
      match (s.machine.cpus c).lookup va.toNat with
      | some pa => put va b pa
      | none => throw (.vm .EFAULT)

/-- `memcpy` of `copyout`. -/
def storeBytes (c : Nat) : List UInt8 → UInt32 → LoadCall Unit
  | [], _ => pure ()
  | b :: bs, va => do
      storeByte c va b
      storeBytes c bs (va + 1)

/-- `copyout`; every fault that `vm_fault` does not handle makes it return `EFAULT`. -/
def copyout (c : Nat) (src : List UInt8) (userdest : UInt32) : LoadCall Unit :=
  match Syscall.copycheck userdest (.ofNat src.length) with
  | .error _ => throw (.vm .EFAULT)
  | .ok stoplen =>
      if stoplen ≠ .ofNat src.length then throw (.vm .EFAULT)
      else do
        match ← catching (storeBytes c src userdest) with
        | .ok () => pure ()
        | .error _ => throw (.vm .EFAULT)

/-- The calls of `uiomove` in `VOP_READ`; a piece without bytes is not moved. -/
def uiomoves (c : Nat) : List (List UInt8) → UInt32 → LoadCall Unit
  | [], _ => pure ()
  | bs :: pieces, va =>
      if bs = [] then uiomoves c pieces va
      else do
        copyout c bs va
        uiomoves c pieces (va + .ofNat bs.length)

/-- The bytes that `load_segment` reads: `filesize`, cut to `memsize`. -/
def Phdr.filesize (ph : Phdr) : Nat := min ph.filesz.toNat ph.memsz.toNat

/-- `load_segment`. -/
def loadSegment (v : Vnode) (c : Nat) (ph : Phdr) : LoadCall Unit := do
  uiomoves c (v.read ph.offset.toNat ph.filesize).1 ph.vaddr
  match (v.read ph.offset.toNat ph.filesize).2 with
  | some e => throw (.io e)
  | none =>
      if (v.read ph.offset.toNat ph.filesize).1.flatten.length ≠ ph.filesize then throw .ENOEXEC
      else pure ()

/-- One of the two loops over the segments. -/
def eachSegment (v : Vnode) (eh : Ehdr) (f : Phdr → LoadCall Unit) : LoadCall Unit :=
  forEach (List.range eh.phnum) fun i => do
    match ← returning (readPhdr v eh i) with
    | none => pure ()
    | some ph => f ph

/-- The regions that `as_prepare_load` has filled with zeros, for the record. -/
def noteZeroed (a : Nat) : LoadCall Unit := do
  let as ← onMachine (readSpace a)
  modify fun s =>
    { s with
      written :=
        [(as.pbase1, as.npages1 * pageSize % 2 ^ 32), (as.pbase2, as.npages2 * pageSize % 2 ^ 32),
          (as.stackpbase, stackpages * pageSize % 2 ^ 32)] ++ s.written }

/-- `load_elf` on the CPU `c`, for the address space `a`. `as_complete_load` does nothing. -/
def loadElf (first last : Nat) (v : Vnode) (c a : Nat) : LoadCall UInt32 := do
  let eh ← returning (readEhdr v)
  eachSegment v eh fun ph => onMachine (asDefineRegion a ph.vaddr ph.memsz)
  onMachine (asPrepareLoad (ramStealmem first last) a)
  noteZeroed a
  eachSegment v eh (loadSegment v c)
  pure eh.entry

/-! ## What is promised -/

/-- What `vm_fault` asserts, for any address. -/
def Addrspace.Asserted (as : Addrspace) : Prop :=
  as.Ready ∧ ∀ faultaddress paddr, as.translate (pageFrame faultaddress) = some paddr →
    pageFrame paddr = paddr

/-- Only user addresses have been stored to, and only frames have been written that are the address
space's own, in the memory, and nobody's before. -/
structure Tidy (last : Nat) (s : Machine) (a : Nat) (t : Loader) : Prop where
  user : ∀ va ∈ t.stored, va < Syscall.userspacetop
  own : ∀ w ∈ t.written, ∀ pa, w.1 ≤ pa → pa < w.1 + w.2 →
    pa < last ∧ ¬ Taken s.taken pa ∧ ∃ as r, t.machine.spaces a = some as ∧ as.Owns r pa

/-- `load_elf` does not panic, it writes only where it may, and when it succeeds the assertions of
`vm_fault` hold. -/
def LoadsSafely (first last : Nat) (s : Machine) (v : Vnode) (c a : Nat) : Prop :=
  ∃ r t, (loadElf first last v c a).result ⟨s, [], []⟩ = .ok (r, t) ∧ Tidy last s a t ∧
    ∀ entry, r = .ok entry → ∃ as, t.machine.spaces a = some as ∧ as.Asserted

/-! ## Files that are loaded safely -/

/-- The headers of the segments that are loaded. -/
def phdrs (v : Vnode) (eh : Ehdr) : List Nat → Except LoadError (List Phdr)
  | [] => .ok []
  | i :: is => do
      match ← readPhdr v eh i with
      | none => phdrs v eh is
      | some ph => do
          let rest ← phdrs v eh is
          .ok (ph :: rest)

/-- The regions that `as_define_region` makes of the segments, if there are not too many. -/
def regions (as : Addrspace) : List Phdr → Option Addrspace
  | [] => some as
  | ph :: phs =>
      if as.vbase1 = 0 then
        regions { as with vbase1 := pageFrame ph.vaddr.toNat
                          npages1 := regionPages ph.vaddr ph.memsz } phs
      else if as.vbase2 = 0 then
        regions { as with vbase2 := pageFrame ph.vaddr.toNat
                          npages2 := regionPages ph.vaddr ph.memsz } phs
      else none

/-- There is memory for the regions and the stack, as `ram_stealmem` sees it. -/
def Granted (first last : Nat) (taken : List (Nat × Nat)) (as : Addrspace) : Prop :=
  let p := ramStealmem first last taken as.npages1
  let q := ramStealmem first last ((p, as.npages1) :: taken) as.npages2
  p ≠ 0 ∧ q ≠ 0 ∧
    ramStealmem first last ((q, as.npages2) :: (p, as.npages1) :: taken) stackpages ≠ 0

/-- The sums of `ram_stealmem` do not overflow. -/
def NoOverflow (firstpaddr : Nat) (as : Addrspace) : Prop :=
  firstpaddr + as.npages1 * pageSize < 2 ^ 32 ∧
    firstpaddr + as.npages1 * pageSize + as.npages2 * pageSize < 2 ^ 32

/-- Both regions are there, with pages, and not on page 0. -/
def Addrspace.TwoRegions (as : Addrspace) : Prop :=
  as.vbase1 ≠ 0 ∧ as.npages1 ≠ 0 ∧ as.vbase2 ≠ 0 ∧ as.npages2 ≠ 0

/-- How `load_segment` begins. -/
inductive SegmentStart where
  /-- There is nothing to store. -/
  | nothing
  /-- An error number, with nothing stored. -/
  | refused
  /-- The first piece is stored. -/
  | stores
  deriving DecidableEq

def segmentStart (v : Vnode) (ph : Phdr) : SegmentStart :=
  match (v.read ph.offset.toNat ph.filesize).1.filter (· ≠ []) with
  | [] =>
      if (v.read ph.offset.toNat ph.filesize).2 = none ∧ ph.filesize = 0 then .nothing else .refused
  | bs :: _ =>
      if Syscall.copycheck ph.vaddr (.ofNat bs.length) = .ok (.ofNat bs.length) then .stores
      else .refused

/-- The segments are refused before anything is stored. -/
def Refused (v : Vnode) : List Phdr → Prop
  | [] => False
  | ph :: phs =>
      match segmentStart v ph with
      | .nothing => Refused v phs
      | .refused => True
      | .stores => False

/-- The file is refused at its headers, or there is no memory; or the sums do not overflow, and the
file has two regions or is refused before anything is stored. -/
def Harmless (first last : Nat) (s : Machine) (v : Vnode) : Prop :=
  ∀ eh phs as, readEhdr v = .ok eh → phdrs v eh (List.range eh.phnum) = .ok phs →
    regions blank phs = some as → Granted first last s.taken as →
    NoOverflow (firstpaddr first s.taken) as ∧ (as.TwoRegions ∨ Refused v phs)

/-- The memory has been given one frame after the other. -/
structure Roomy (first last : Nat) (taken : List (Nat × Nat)) : Prop where
  bound : last ≤ 2 ^ 29
  aligned : firstpaddr first taken % pageSize = 0
  pos : 0 < firstpaddr first taken
  le : firstpaddr first taken ≤ last
  below : ∀ q ∈ taken, q.1 + q.2 * pageSize ≤ firstpaddr first taken

/-- A process is about to load: its address space is new. -/
structure Loading (first last : Nat) (s : Machine) (c a : Nat) : Prop where
  inv : Inv s
  cur : (s.cpus c).cur = some a
  space : s.spaces a = some blank
  room : Roomy first last s.taken

end Os161.Vm.Dumbvm

import Mathlib.Algebra.Group.Nat.Defs
import Mathlib.Data.List.FinRange
import Os161.Lib.Calls

set_option autoImplicit false

/-!
# Address spaces

`kern/arch/mips/vm/dumbvm.c`: an address space has two regions and a stack, each in consecutive
frames of its own; `vm_fault` looks the address of a fault up in them and puts a translation into
the TLB of the CPU. Addresses and sizes are words of 32 bits. The kernel sees all of the physical
memory through kseg0, so what it reads and writes is given by physical addresses.

`ram_stealmem`, behind `getppages`, is a parameter: which frames it gives depends on what it has
given before.
-/

namespace Os161.Vm.Dumbvm

open Os161.Lib.Calls

/-- `PAGE_SIZE`. -/
def pageSize : Nat := 4096

/-- `& PAGE_FRAME`. -/
def pageFrame (addr : Nat) : Nat := addr / pageSize * pageSize

/-- `USERSTACK`. -/
def userstack : Nat := 0x80000000

/-- `DUMBVM_STACKPAGES`. -/
def stackpages : Nat := 18

/-- The bottom of the stack. -/
def stackbase : Nat := userstack - stackpages * pageSize

/-- `NUM_TLB`. -/
def numTlb : Nat := 64

inductive Errno where
  | ENOMEM
  | EINVAL
  | EFAULT
  | ENOSYS
  deriving DecidableEq

inductive Panic where
  /-- A failed `KASSERT`. -/
  | kassert
  /-- `VM_FAULT_READONLY`. -/
  | readonly
  /-- The address space does not exist. -/
  | freed
  deriving DecidableEq

/-- `struct addrspace`. -/
structure Addrspace where
  vbase1 : Nat
  pbase1 : Nat
  npages1 : Nat
  vbase2 : Nat
  pbase2 : Nat
  npages2 : Nat
  stackpbase : Nat
  deriving DecidableEq

/-- An entry of the TLB: the fields of its two words that are used. -/
structure TlbEntry where
  vpage : Nat
  ppage : Nat
  valid : Bool
  dirty : Bool

/-- A CPU with the address space of its process and its TLB. -/
structure Cpu where
  cur : Option Nat
  tlb : Fin numTlb → TlbEntry

/-- The machine: the memory, the frames `ram_stealmem` has given (first address and number of
pages), the address spaces under names of which `next` is the first unused one, and the CPUs. -/
structure Machine where
  mem : Nat → UInt8
  taken : List (Nat × Nat)
  next : Nat
  spaces : Nat → Option Addrspace
  cpus : Nat → Cpu

/-- The functions of `dumbvm.c`. -/
abbrev VmCall (α : Type) : Type := Call Machine Panic Errno α

/-- Follows a pointer to an address space. -/
def readSpace (a : Nat) : VmCall Addrspace := do
  let s ← get
  match s.spaces a with
  | none => halt .freed
  | some as => pure as

/-- Writes the fields of an address space. -/
def writeSpace (a : Nat) (as : Addrspace) : VmCall Unit :=
  modify fun s => { s with spaces := Function.update s.spaces a (some as) }

/-! ## Frames -/

section Frames

variable (ramStealmem : List (Nat × Nat) → Nat → Nat)

/-- `getppages`; `0` when there is no memory left. -/
def getppages (npages : Nat) : VmCall Nat := do
  let s ← get
  let addr := ramStealmem s.taken npages
  if addr = 0 then pure 0
  else
    modify fun s => { s with taken := (addr, npages) :: s.taken }
    pure addr

/-- `alloc_kpages`; the kernel allocates frames for itself. -/
def allocKpages (npages : Nat) : VmCall Nat := getppages ramStealmem npages

end Frames

/-- The memory after `bzero`. -/
def zeroed (mem : Nat → UInt8) (dst len : Nat) : Nat → UInt8 := fun addr =>
  if dst ≤ addr ∧ addr < dst + len then 0 else mem addr

/-- The memory after `memmove`. -/
def moved (mem : Nat → UInt8) (dst src len : Nat) : Nat → UInt8 := fun addr =>
  if dst ≤ addr ∧ addr < dst + len then mem (src + (addr - dst)) else mem addr

/-- `as_zero_region`. -/
def asZeroRegion (paddr npages : Nat) : VmCall Unit :=
  modify fun s => { s with mem := zeroed s.mem paddr (npages * pageSize % 2 ^ 32) }

/-- `memmove` in physical memory. -/
def memmove (dst src len : Nat) : VmCall Unit :=
  modify fun s => { s with mem := moved s.mem dst src len }

/-! ## Building an address space -/

/-- The address space that `as_create` makes. -/
def blank : Addrspace :=
  { vbase1 := 0, pbase1 := 0, npages1 := 0, vbase2 := 0, pbase2 := 0, npages2 := 0
    stackpbase := 0 }

/-- `as_create`; `kmalloc` says whether there is memory for it. -/
def asCreate (kmalloc : Bool) : VmCall (Option Nat) :=
  if kmalloc then do
    let s ← get
    modify fun s =>
      { s with spaces := Function.update s.spaces s.next (some blank), next := s.next + 1 }
    pure (some s.next)
  else pure none

/-- `as_destroy`: the frames are not given back. -/
def asDestroy (a : Nat) : VmCall Unit :=
  modify fun s => { s with spaces := Function.update s.spaces a none }

/-- The pages of a region of `sz` bytes at `vaddr`. -/
def regionPages (vaddr sz : UInt32) : Nat :=
  pageFrame (((sz.toNat + vaddr.toNat % pageSize) % 2 ^ 32 + pageSize - 1) % 2 ^ 32) / pageSize

/-- `as_define_region`; the permissions are not used. -/
def asDefineRegion (a : Nat) (vaddr sz : UInt32) : VmCall Unit := do
  let as ← readSpace a
  if as.vbase1 = 0 then
    writeSpace a { as with vbase1 := pageFrame vaddr.toNat, npages1 := regionPages vaddr sz }
  else if as.vbase2 = 0 then
    writeSpace a { as with vbase2 := pageFrame vaddr.toNat, npages2 := regionPages vaddr sz }
  else throw .ENOSYS

/-- `as_define_stack`: the stack pointer. -/
def asDefineStack (a : Nat) : VmCall Nat := do
  let as ← readSpace a
  if as.stackpbase = 0 then halt .kassert else pure userstack

section Load

variable (ramStealmem : List (Nat × Nat) → Nat → Nat)

/-- `as_prepare_load`, once all frames have been given. -/
def zeroRegions (as : Addrspace) : VmCall Unit := do
  asZeroRegion as.pbase1 as.npages1
  asZeroRegion as.pbase2 as.npages2
  asZeroRegion as.stackpbase stackpages

/-- `as_prepare_load`. -/
def asPrepareLoad (a : Nat) : VmCall Unit := do
  let as ← readSpace a
  if as.pbase1 ≠ 0 ∨ as.pbase2 ≠ 0 ∨ as.stackpbase ≠ 0 then halt .kassert
  else
    let pbase1 ← getppages ramStealmem as.npages1
    writeSpace a { as with pbase1 := pbase1 }
    if pbase1 = 0 then throw .ENOMEM
    else
      let pbase2 ← getppages ramStealmem as.npages2
      writeSpace a { as with pbase1 := pbase1, pbase2 := pbase2 }
      if pbase2 = 0 then throw .ENOMEM
      else
        let stackpbase ← getppages ramStealmem stackpages
        let as := { as with pbase1 := pbase1, pbase2 := pbase2, stackpbase := stackpbase }
        writeSpace a as
        if stackpbase = 0 then throw .ENOMEM else zeroRegions as

/-- The three copies of `as_copy`. -/
def copyRegions (old new : Addrspace) : VmCall Unit := do
  memmove new.pbase1 old.pbase1 (old.npages1 * pageSize % 2 ^ 32)
  memmove new.pbase2 old.pbase2 (old.npages2 * pageSize % 2 ^ 32)
  memmove new.stackpbase old.stackpbase (stackpages * pageSize)

/-- `as_copy`, once the new address space has the bounds of the old one. -/
def finishCopy (as : Addrspace) (new : Nat) : VmCall Nat := do
  match ← catching (asPrepareLoad ramStealmem new) with
  | .error _ =>
      asDestroy new
      throw .ENOMEM
  | .ok () =>
      let copy ← readSpace new
      if copy.pbase1 = 0 ∨ copy.pbase2 = 0 ∨ copy.stackpbase = 0 then halt .kassert
      else
        copyRegions as copy
        pure new

/-- `as_copy`. -/
def asCopy (old : Nat) (kmalloc : Bool) : VmCall Nat := do
  match ← asCreate kmalloc with
  | none => throw .ENOMEM
  | some new =>
      let as ← readSpace old
      let blank ← readSpace new
      writeSpace new
        { blank with
          vbase1 := as.vbase1, npages1 := as.npages1, vbase2 := as.vbase2, npages2 := as.npages2 }
      finishCopy ramStealmem as new

end Load

/-! ## Translations -/

/-- `as_activate` on the CPU `c`: without an address space it leaves the TLB alone. -/
def asActivate (c : Nat) : VmCall Unit :=
  modify fun s =>
    match (s.cpus c).cur with
    | none => s
    | some _ =>
        { s with
          cpus := Function.update s.cpus c
            { s.cpus c with
              tlb := fun i => { vpage := userstack + i * pageSize, ppage := 0, valid := false
                                dirty := false } } }

/-- The CPU `c` turns to another process, whose address space is `x`. -/
def switchTo (c : Nat) (x : Option Nat) : VmCall Unit := do
  modify fun s => { s with cpus := Function.update s.cpus c { s.cpus c with cur := x } }
  asActivate c

/-- What `vm_fault` asserts about the address space. -/
def Addrspace.Ready (as : Addrspace) : Prop :=
  as.vbase1 ≠ 0 ∧ as.pbase1 ≠ 0 ∧ as.npages1 ≠ 0 ∧ as.vbase2 ≠ 0 ∧ as.pbase2 ≠ 0 ∧
    as.npages2 ≠ 0 ∧ as.stackpbase ≠ 0 ∧ pageFrame as.vbase1 = as.vbase1 ∧
    pageFrame as.pbase1 = as.pbase1 ∧ pageFrame as.vbase2 = as.vbase2 ∧
    pageFrame as.pbase2 = as.pbase2 ∧ pageFrame as.stackpbase = as.stackpbase

instance (as : Addrspace) : Decidable as.Ready :=
  inferInstanceAs (Decidable (_ ∧ _))

/-- The physical address for an address of a fault. -/
def Addrspace.translate (as : Addrspace) (faultaddress : Nat) : Option Nat :=
  let vtop1 := (as.vbase1 + as.npages1 * pageSize) % 2 ^ 32
  let vtop2 := (as.vbase2 + as.npages2 * pageSize) % 2 ^ 32
  if faultaddress ≥ as.vbase1 ∧ faultaddress < vtop1 then
    some ((faultaddress - as.vbase1 + as.pbase1) % 2 ^ 32)
  else if faultaddress ≥ as.vbase2 ∧ faultaddress < vtop2 then
    some ((faultaddress - as.vbase2 + as.pbase2) % 2 ^ 32)
  else if faultaddress ≥ stackbase ∧ faultaddress < userstack then
    some ((faultaddress - stackbase + as.stackpbase) % 2 ^ 32)
  else none

/-- The loop of `vm_fault`: the first entry that is not valid takes the translation. -/
def tlbInsert (c vpage ppage : Nat) : VmCall Unit := do
  let s ← get
  match (List.finRange numTlb).find? fun i => !((s.cpus c).tlb i).valid with
  | none => throw .EFAULT
  | some i =>
      modify fun s =>
        { s with
          cpus := Function.update s.cpus c
            { s.cpus c with
              tlb := Function.update (s.cpus c).tlb i
                { vpage := vpage, ppage := ppage, valid := true, dirty := true } } }

inductive FaultType where
  | readonly
  | read
  | write
  | other

/-- `vm_fault` on the CPU `c`, for faults that are not `VM_FAULT_READONLY`. -/
def handleFault (c : Nat) (faultaddress : Nat) : VmCall Unit := do
  let s ← get
  match (s.cpus c).cur with
  | none => throw .EFAULT
  | some a =>
      let as ← readSpace a
      if as.Ready then
        match as.translate (pageFrame faultaddress) with
        | none => throw .EFAULT
        | some paddr =>
            if pageFrame paddr = paddr then tlbInsert c (pageFrame faultaddress) paddr
            else halt .kassert
      else halt .kassert

/-- `vm_fault` on the CPU `c`. -/
def vmFault (c : Nat) : FaultType → UInt32 → VmCall Unit
  | .readonly, _ => halt .readonly
  | .other, _ => throw .EINVAL
  | .read, faultaddress => handleFault c faultaddress.toNat
  | .write, faultaddress => handleFault c faultaddress.toNat

end Os161.Vm.Dumbvm

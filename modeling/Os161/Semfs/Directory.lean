import Mathlib.Data.List.Basic
import Os161.Lib.Calls

set_option autoImplicit false

/-!
# The directory of the semaphore file system, one call after the other

`semfs_creat`, `semfs_remove`, `semfs_lookup`, `semfs_getvnode` and `semfs_reclaim` of
`kern/fs/semfs/semfs_vnops.c` with `semfs_obj.c` and the arrays of `kern/lib/array.c`, where every
`kmalloc` may fail. The directory operations keep `semfs_dirlock` to their end; here a call runs to
its end before the next one begins, and the locks are left out. What goes wrong between calls that
overlap is in `Semfs.Objects`.
-/

namespace Os161.Semfs.Directory

open Os161.Lib.Calls

/-- A C string without its terminator. -/
abbrev Name : Type := List UInt8

/-- Addresses of `struct semfs_sem`. -/
abbrev SemId : Type := Nat

/-- Addresses of `struct vnode`. -/
abbrev VnId : Type := Nat

/-- Error numbers; the result `0` is `none`. -/
inductive Errno where
  | ENOMEM
  | EINVAL
  | ENOENT
  | EEXIST
  | ENOSPC
  deriving DecidableEq, Repr

inductive Panic where
  /-- `KASSERT(sem != NULL)`, or `sem` is used without it. -/
  | nullSem
  /-- `KASSERT(sem->sems_hasvnode == false)` or `KASSERT(sem->sems_hasvnode)`. -/
  | hasvnode
  /-- `KASSERT(sem->sems_linked)`. -/
  | linked
  /-- Something is used that has been freed. -/
  | freed
  /-- `KASSERT(vn->vn_refcount > 0)`. -/
  | refcount
  deriving DecidableEq, Repr

/-- `SEMFS_ROOTDIR`. -/
def rootdir : Nat := 0xffffffff

/-- `sems_hasvnode` and `sems_linked` of a `struct semfs_sem`. -/
structure Sem where
  hasvnode : Bool
  linked : Bool
  deriving DecidableEq, Repr

/-- `semv_semnum` and `vn_refcount` of a `struct semfs_vnode`. -/
structure Vnode where
  semnum : Nat
  refcount : Nat
  deriving DecidableEq, Repr

/-- `struct array`; the elements are those below `num`. -/
structure Arr (α : Type) where
  elems : List α
  max : Nat

/-- `struct semfs`, and the memory. -/
structure Fs where
  /-- `semfs_sems`. -/
  sems : Arr (Option SemId)
  /-- `semfs_vnodes`. -/
  vnodes : Arr VnId
  /-- `semfs_dents`, with `semd_name` and `semd_semnum`. -/
  dents : Arr (Option (Name × Nat))
  sem : SemId → Option Sem
  vn : VnId → Option Vnode
  /-- An address from which on nothing is allocated. -/
  brk : Nat
  /-- Whether a call of `kmalloc` succeeds, by their number, and how many there have been. -/
  memory : Nat → Bool
  kmallocs : Nat

/-- Calls; none of them ends with `throw`. -/
abbrev SemCall (α : Type) : Type := Call Fs Panic Empty α

/-- `kmalloc`. -/
def kmalloc : SemCall Bool := do
  let s ← get
  set { s with kmallocs := s.kmallocs + 1 }
  pure (s.memory s.kmallocs)

/-- `array_preallocate` for one more element: the new `max`. -/
def preallocate (num max : Nat) : SemCall (Option Nat) := do
  if max < num + 1 then
    if ← kmalloc then pure (some (if max = 0 then 4 else 2 * max)) else pure none
  else pure (some max)

/-! ## Objects -/

/-- `semfs_sem_create`: the structure, its lock and its condition variable. -/
def semCreate : SemCall (Option SemId) := do
  if ← kmalloc then
    if ← kmalloc then
      if ← kmalloc then do
        let s ← get
        set { s with sem := Function.update s.sem s.brk (some ⟨false, false⟩), brk := s.brk + 1 }
        pure (some s.brk)
      else pure none
    else pure none
  else pure none

/-- `semfs_sem_destroy`. -/
def semDestroy (id : SemId) : SemCall Unit :=
  modify fun s => { s with sem := Function.update s.sem id none }

/-- `semfs_semarray_set`. -/
def semarraySet (n : Nat) (o : Option SemId) : SemCall Unit :=
  modify fun s => { s with sems := { s.sems with elems := s.sems.elems.set n o } }

/-- `semfs_semarray_add`. -/
def semarrayAdd (id : SemId) : SemCall (Option Errno × Nat) := do
  let s ← get
  match ← preallocate s.sems.elems.length s.sems.max with
  | none => pure (some .ENOMEM, 0)
  | some max => do
    modify fun s => { s with sems := ⟨s.sems.elems ++ [some id], max⟩ }
    pure (none, s.sems.elems.length)

/-- The first empty place of an array, or its length. -/
def firstEmpty {α : Type} (l : List (Option α)) : Nat := l.findIdx Option.isNone

/-- `semfs_sem_insert`. -/
def semInsert (id : SemId) : SemCall (Option Errno × Nat) := do
  let s ← get
  let num := s.sems.elems.length
  if num = rootdir then pure (some .ENOSPC, 0)
  else if firstEmpty s.sems.elems < num then do
    semarraySet (firstEmpty s.sems.elems) (some id)
    pure (none, firstEmpty s.sems.elems)
  else semarrayAdd id

/-- `semfs_direntry_create`: the structure and the copy of the name. -/
def direntryCreate (name : Name) (semnum : Nat) : SemCall (Option (Name × Nat)) := do
  if ← kmalloc then
    if ← kmalloc then pure (some (name, semnum)) else pure none
  else pure none

/-- `semfs_direntryarray_set`. -/
def direntryarraySet (i : Nat) (d : Option (Name × Nat)) : SemCall Unit :=
  modify fun s => { s with dents := { s.dents with elems := s.dents.elems.set i d } }

/-- `semfs_direntryarray_add`. -/
def direntryarrayAdd (d : Name × Nat) : SemCall (Option Errno × Nat) := do
  let s ← get
  match ← preallocate s.dents.elems.length s.dents.max with
  | none => pure (some .ENOMEM, 0)
  | some max => do
    modify fun s => { s with dents := ⟨s.dents.elems ++ [some d], max⟩ }
    pure (none, s.dents.elems.length)

/-- The fields of a semaphore. -/
def deref (id : SemId) : SemCall Sem := do
  let s ← get
  match s.sem id with
  | some x => pure x
  | none => halt .freed

/-- `semfs_semarray_get`, and the fields of what it returns. -/
def getsembynum (n : Nat) : SemCall (SemId × Sem) := do
  let s ← get
  match s.sems.elems[n]? with
  | some (some id) => do
    let x ← deref id
    pure (id, x)
  | _ => halt .nullSem

/-- An assignment to a field of a semaphore. -/
def setSem (id : SemId) (x : Sem) : SemCall Unit :=
  modify fun s => { s with sem := Function.update s.sem id (some x) }

/-- An assignment to a field of a vnode. -/
def setVnode (v : VnId) (d : Option Vnode) : SemCall Unit :=
  modify fun s => { s with vn := Function.update s.vn v d }

/-! ## Vnodes -/

/-- The search of `semfs_getvnode` in the table. -/
def findVnode (semnum : Nat) : List VnId → SemCall (Option (VnId × Vnode))
  | [] => pure none
  | v :: rest => do
    let s ← get
    match s.vn v with
    | none => halt .freed
    | some d => if d.semnum = semnum then pure (some (v, d)) else findVnode semnum rest

/-- `vnodearray_add` of a vnode that `semfs_vnode_create` has made. -/
def vnodearrayAdd (semnum : Nat) : SemCall (Option VnId) := do
  let s ← get
  match ← preallocate s.vnodes.elems.length s.vnodes.max with
  | none => pure none
  | some max => do
    modify fun t => { t with
      vnodes := ⟨t.vnodes.elems ++ [s.brk], max⟩
      vn := Function.update t.vn s.brk (some ⟨semnum, 1⟩)
      brk := s.brk + 1 }
    pure (some s.brk)

/-- `semfs_getvnode`: the result and `*ret`. -/
def getvnode (semnum : Nat) : SemCall (Option Errno × Option VnId) := do
  let s ← get
  match ← findVnode semnum s.vnodes.elems with
  | some (v, d) => do
    setVnode v (some { d with refcount := d.refcount + 1 })
    pure (none, some v)
  | none =>
    if ← kmalloc then do
      match ← vnodearrayAdd semnum with
      | none => pure (some .ENOMEM, none)
      | some v =>
        if semnum = rootdir then pure (none, some v)
        else do
          let (id, x) ← getsembynum semnum
          if x.hasvnode then halt .hasvnode
          else do
            setSem id { x with hasvnode := true }
            pure (none, some v)
    else pure (some .ENOMEM, none)

/-- `semfs_reclaim` of a vnode without other references. -/
def reclaim (v : VnId) (d : Vnode) : SemCall Unit := do
  modify fun s => { s with vnodes := { s.vnodes with elems := s.vnodes.elems.erase v } }
  if d.semnum = rootdir then pure ()
  else do
    let (id, x) ← getsembynum d.semnum
    if x.hasvnode then do
      setSem id { x with hasvnode := false }
      if x.linked then pure ()
      else do
        semarraySet d.semnum none
        semDestroy id
    else halt .hasvnode
  setVnode v none

/-- `VOP_DECREF`. -/
def vopDecref (v : VnId) : SemCall Unit := do
  let s ← get
  match s.vn v with
  | none => halt .freed
  | some d =>
      if d.refcount = 0 then halt .refcount
      else if 1 < d.refcount then setVnode v (some { d with refcount := d.refcount - 1 })
      else reclaim v d

/-- `VOP_INCREF`. -/
def vopIncref (v : VnId) : SemCall Unit := do
  let s ← get
  match s.vn v with
  | none => halt .freed
  | some d => setVnode v (some { d with refcount := d.refcount + 1 })

/-! ## Directory operations -/

/-- `!strcmp(name, ".") || !strcmp(name, "..")`. -/
def isDots (name : Name) : Bool := name == [46] || name == [46, 46]

/-- The first directory entry with a name: its place and its `semd_semnum`. -/
def findDent (name : Name) : List (Option (Name × Nat)) → Option (Nat × Nat)
  | [] => none
  | some (name', n) :: rest =>
      if name = name' then some (0, n) else (findDent name rest).map fun x => (x.1 + 1, x.2)
  | none :: rest => (findDent name rest).map fun x => (x.1 + 1, x.2)

/-- What `semfs_creat` does from the label `fail_uninsert` on. -/
def failUninsert (id : SemId) (semnum : Nat) (result : Option Errno) :
    SemCall (Option Errno × Option VnId) := do
  semarraySet semnum none
  semDestroy id
  pure (result, none)

/-- `semfs_creat` for a name that is not there, with the first empty place of the directory; the
result, and what has been stored in `*resultvn`. -/
def creatNew (name : Name) (empty num : Nat) : SemCall (Option Errno × Option VnId) := do
  match ← semCreate with
  | none => pure (some .ENOMEM, none)
  | some id => do
    let (result, semnum) ← semInsert id
    if result ≠ none then do
      semDestroy id
      pure (result, none)
    else do
      match ← direntryCreate name semnum with
      -- `result` is still `0`
      | none => failUninsert id semnum result
      | some dent => do
        let (result, empty) ← if empty < num then do
            direntryarraySet empty (some dent)
            pure (result, empty)
          else direntryarrayAdd dent
        if result ≠ none then failUninsert id semnum result
        else do
          let (result, resultvn) ← getvnode semnum
          if result ≠ none then do
            direntryarraySet empty none
            failUninsert id semnum result
          else do
            let x ← deref id
            setSem id { x with linked := true }
            pure (none, resultvn)

/-- `semfs_creat`. -/
def creat (name : Name) (excl : Bool) : SemCall (Option Errno × Option VnId) := do
  if isDots name then pure (some .EEXIST, none)
  else do
    let s ← get
    match findDent name s.dents.elems with
    | some (_, n) => if excl then pure (some .EEXIST, none) else getvnode n
    | none => creatNew name (firstEmpty s.dents.elems) s.dents.elems.length

/-- `semfs_remove`. -/
def remove (name : Name) : SemCall (Option Errno) := do
  if isDots name then pure (some .EINVAL)
  else do
    let s ← get
    match findDent name s.dents.elems with
    | none => pure (some .ENOENT)
    | some (i, n) => do
      let (id, x) ← getsembynum n
      if x.linked then do
        setSem id { x with linked := false }
        if x.hasvnode then pure ()
        else do
          semarraySet n none
          semDestroy id
        direntryarraySet i none
        pure none
      else halt .linked

/-- `semfs_lookup` of a name other than `.` and `..`, for which it is `VOP_INCREF` of the directory. -/
def lookup (name : Name) : SemCall (Option Errno × Option VnId) := do
  let s ← get
  match findDent name s.dents.elems with
  | none => pure (some .ENOENT, none)
  | some (_, n) => getvnode n

end Os161.Semfs.Directory

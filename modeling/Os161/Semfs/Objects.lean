import Mathlib.Data.List.Nodup
import Os161.Lib.Monitor

set_option autoImplicit false

/-!
# The objects of the semaphore file system

`semfs_creat`, `semfs_lookup`, `semfs_remove`, `semfs_getvnode` and `semfs_reclaim` of
`kern/fs/semfs/semfs_vnops.c`, which is the same file in both kernels, with the functions of
`semfs_obj.c` and the reference counts of `kern/vfs/vnode.c`. Any number of threads call them. The
locks `semfs_dirlock`, `semfs_tablelock` and the `sems_lock` of every semaphore are locks of
`Lib.Monitor`. What only the holder of a lock can see is done in one step; `sems_hasvnode` and
`sems_linked` are read and written in steps of their own, since `semfs_remove` reads the one and
`semfs_reclaim` reads the other without the lock under which it is written.

`semfs_read`, `semfs_write`, `semfs_truncate` and `semfs_semstat` are all threads that find their
semaphore with a vnode, lock it, and wait and wake under the lock as they like (`Use`).

Memory that has been freed is not used again. The assertion of `lock_destroy` that nobody has the
lock is left out: that it never fails is what is to be shown.
-/

namespace Os161.Semfs.Objects

open Os161.Lib.Monitor

/-- Addresses of `struct semfs_sem`. -/
abbrev SemId : Type := Nat

/-- Addresses of `struct vnode`. -/
abbrev VnId : Type := Nat

/-- `semfs_dirlock`, `semfs_tablelock`, and `sems_lock` of a semaphore. -/
inductive Lk where
  | dir
  | table
  | sems (id : SemId)
  deriving DecidableEq, Repr

/-- `SEMFS_ROOTDIR`. -/
def rootdir : Nat := 0xffffffff

/-- `sems_hasvnode` and `sems_linked` of a `struct semfs_sem`. -/
structure Sem where
  hasvnode : Bool
  linked : Bool
  deriving DecidableEq, Repr

/-- `semv_semnum` and `vn_refcount` of a `struct semfs_vnode`. -/
structure Vnode where
  semnum : Nat
  refcount : Nat
  deriving DecidableEq, Repr

/-- `struct semfs`, the memory, and a history for the statements. -/
structure Fs (τ : Type) where
  /-- `semfs_sems`. -/
  sems : List (Option SemId)
  /-- `semfs_vnodes`. -/
  vnodes : List VnId
  /-- `semfs_dents`. -/
  dents : List (Option (String × Nat))
  sem : SemId → Option Sem
  vn : VnId → Option Vnode
  /-- References that open files and others have. -/
  refs : VnId → Nat
  /-- Threads that have one reference in a call. -/
  temps : VnId → List τ
  /-- Semaphores that have had a vnode. -/
  opened : SemId → Bool
  /-- Who has taken a semaphore out of `semfs_sems`. -/
  removed : SemId → List τ
  /-- Who has called `semfs_sem_destroy`. -/
  destroyed : SemId → List τ

/-- `semfs_create`. -/
def semfsCreate (τ : Type) : Fs τ where
  sems := []
  vnodes := []
  dents := []
  sem _ := none
  vn _ := none
  refs _ := 0
  temps _ := []
  opened _ := false
  removed _ := []
  destroyed _ := []

/-- The element at an index that may be the length of the array. -/
def place {α : Type} (l : List (Option α)) (i : Nat) (a : α) : List (Option α) :=
  if i < l.length then l.set i (some a) else l ++ [some a]

/-- The first directory entry with a name: its place and its `semd_semnum`. -/
def findDent (dents : List (Option (String × Nat))) (name : String) : Option (Nat × Nat) :=
  let i := dents.findIdx fun d => d.any fun e => e.1 == name
  match dents[i]? with
  | some (some (_, n)) => some (i, n)
  | _ => none

section Statements

variable {τ : Type} [DecidableEq τ] (x : Fs τ)

/-- The semaphore with the number `n`. -/
def Fs.At (n : Nat) (id : SemId) : Prop := x.sems[n]? = some (some id)

/-- `semfs_sem_create`. -/
def Fs.create (id : SemId) : Fs τ :=
  { x with sem := Function.update x.sem id (some { hasvnode := false, linked := false }) }

/-- `semfs_sem_insert` at the number `n`. -/
def Fs.insert (n : Nat) (id : SemId) : Fs τ := { x with sems := place x.sems n id }

/-- `semfs_semarray_set(semfs->semfs_sems, n, NULL)`, where `id` has been. -/
def Fs.remove (t : τ) (n : Nat) (id : SemId) : Fs τ :=
  { x with sems := x.sems.set n none
           removed := Function.update x.removed id (t :: x.removed id) }

/-- `semfs_sem_destroy`. -/
def Fs.destroy (t : τ) (id : SemId) : Fs τ :=
  { x with destroyed := Function.update x.destroyed id (t :: x.destroyed id) }

/-- `sem->sems_linked = b`. -/
def Fs.setLinked (id : SemId) (b : Bool) : Fs τ :=
  { x with sem := Function.update x.sem id ((x.sem id).map fun s => { s with linked := b }) }

/-- `sem->sems_hasvnode = b`. -/
def Fs.setHasvnode (id : SemId) (b : Bool) : Fs τ :=
  { x with sem := Function.update x.sem id ((x.sem id).map fun s => { s with hasvnode := b })
           opened := Function.update x.opened id (x.opened id || b) }

/-- `semfs_direntryarray_set` or `semfs_direntryarray_add`. -/
def Fs.addDent (i : Nat) (e : String × Nat) : Fs τ := { x with dents := place x.dents i e }

/-- `semfs_direntryarray_set(semfs->semfs_dents, i, NULL)`. -/
def Fs.clearDent (i : Nat) : Fs τ := { x with dents := x.dents.set i none }

/-- `semfs_vnode_create`, with one reference for the thread `t`, and `vnodearray_add`. -/
def Fs.addVnode (t : τ) (v : VnId) (n : Nat) : Fs τ :=
  { x with vn := Function.update x.vn v (some { semnum := n, refcount := 1 })
           vnodes := x.vnodes ++ [v]
           temps := Function.update x.temps v [t] }

/-- `vnodearray_remove(semfs->semfs_vnodes, i)`, where `v` is. -/
def Fs.removeVnode (v : VnId) : Fs τ := { x with vnodes := x.vnodes.erase v }

/-- `vn->vn_refcount = n`. -/
def Fs.setRefcount (v : VnId) (n : Nat) : Fs τ :=
  { x with vn := Function.update x.vn v ((x.vn v).map fun d => { d with refcount := n }) }

/-- The thread `t` has got a reference. -/
def Fs.hold (t : τ) (v : VnId) : Fs τ :=
  { x with temps := Function.update x.temps v (t :: x.temps v) }

/-- The reference of the thread `t` is no longer counted. -/
def Fs.drop (t : τ) (v : VnId) : Fs τ :=
  { x with temps := Function.update x.temps v ((x.temps v).erase t) }

/-- The thread `t` takes a reference from an open file. -/
def Fs.take (t : τ) (v : VnId) : Fs τ :=
  { x with refs := Function.update x.refs v (x.refs v - 1)
           temps := Function.update x.temps v (t :: x.temps v) }

/-- The thread `t` puts its reference into an open file. -/
def Fs.give (t : τ) (v : VnId) : Fs τ :=
  { x with refs := Function.update x.refs v (x.refs v + 1)
           temps := Function.update x.temps v ((x.temps v).erase t) }

/-- A copy of a reference in an open file. -/
def Fs.copy (v : VnId) : Fs τ := { x with refs := Function.update x.refs v (x.refs v + 1) }

end Statements

/-! ## Program points -/

/-- `semfs_creat`. -/
inductive Creat where
  /-- The test for `.` and `..`. -/
  | dots
  /-- `lock_acquire(semfs->semfs_dirlock)`. -/
  | enter
  /-- The search for the name. -/
  | scan
  /-- `sem = semfs_sem_create(name)`; `empty` is a free place in the directory, or its size. -/
  | create (empty : Nat)
  /-- `lock_acquire(semfs->semfs_tablelock)`. -/
  | insertEnter (empty : Nat) (id : SemId)
  /-- `semfs_sem_insert(semfs, sem, &semnum)`. -/
  | insert (empty : Nat) (id : SemId)
  /-- `lock_release(semfs->semfs_tablelock)`. -/
  | inserted (empty : Nat) (id : SemId) (n : Nat)
  /-- `semfs_direntry_create`, and the directory entry. -/
  | dirent (empty : Nat) (id : SemId) (n : Nat)
  /-- `sem->sems_linked = true`; the directory entry is at `slot`. -/
  | link (slot : Nat) (id : SemId) (v : VnId)
  /-- At `fail_undir`. -/
  | undir (slot : Nat) (id : SemId) (n : Nat)
  /-- At `fail_uninsert`: `lock_acquire(semfs->semfs_tablelock)`. -/
  | uninsertEnter (id : SemId) (n : Nat)
  /-- `semfs_semarray_set(semfs->semfs_sems, semnum, NULL)`. -/
  | uninsert (id : SemId) (n : Nat)
  /-- `lock_release(semfs->semfs_tablelock)`. -/
  | uninserted (id : SemId)
  /-- At `fail_uncreate`. -/
  | uncreate (id : SemId)
  deriving DecidableEq, Repr

/-- `semfs_lookup`. -/
inductive Lookup where
  /-- The test for `.` and `..`. -/
  | dots
  /-- `lock_acquire(semfs->semfs_dirlock)`. -/
  | enter
  /-- The search for the name. -/
  | scan
  deriving DecidableEq, Repr

/-- `semfs_remove`. -/
inductive Remove where
  /-- The test for `.` and `..`. -/
  | dots
  /-- `lock_acquire(semfs->semfs_dirlock)`. -/
  | enter
  /-- The search for the name. -/
  | scan
  /-- `lock_acquire(sem->sems_lock)`. -/
  | lock (i n : Nat) (id : SemId)
  /-- `sem->sems_linked = false`, with the assertion before it. -/
  | unlink (i n : Nat) (id : SemId)
  /-- `if (sem->sems_hasvnode == false)`. -/
  | test (i n : Nat) (id : SemId)
  /-- `lock_release(sem->sems_lock)`, when there is a vnode. -/
  | unlock (i : Nat) (id : SemId)
  /-- `lock_acquire(semfs->semfs_tablelock)`. -/
  | clearEnter (i n : Nat) (id : SemId)
  /-- `semfs_semarray_set(semfs->semfs_sems, dent->semd_semnum, NULL)`. -/
  | clear (i n : Nat) (id : SemId)
  /-- `lock_release(semfs->semfs_tablelock)`. -/
  | cleared (i : Nat) (id : SemId)
  /-- `lock_release(sem->sems_lock)`. -/
  | free (i : Nat) (id : SemId)
  /-- `semfs_sem_destroy(sem)`. -/
  | destroy (i : Nat) (id : SemId)
  /-- `semfs_direntryarray_set(semfs->semfs_dents, i, NULL)`. -/
  | dent (i : Nat)
  deriving DecidableEq, Repr

/-- `semfs_getvnode`. -/
inductive Getvnode where
  /-- `lock_acquire(semfs->semfs_tablelock)`. -/
  | enter
  /-- The search in `semfs_vnodes`. -/
  | find
  /-- `VOP_INCREF(vn)`. -/
  | incref (v : VnId)
  /-- A new vnode, and `sem->sems_hasvnode = true`. -/
  | make
  /-- `lock_release(semfs->semfs_tablelock)`, with a vnode. -/
  | ok (v : VnId)
  /-- `lock_release(semfs->semfs_tablelock)`, when there is no memory. -/
  | fail
  deriving DecidableEq, Repr

/-- `semfs_getsembynum`. -/
inductive Getsem where
  /-- `lock_acquire(semfs->semfs_tablelock)`. -/
  | enter
  /-- `semfs_semarray_get(semfs->semfs_sems, semnum)`. -/
  | get
  /-- `lock_release(semfs->semfs_tablelock)`. -/
  | got (id : SemId)
  deriving DecidableEq, Repr

/-- `semfs_read`, `semfs_write`, `semfs_truncate` and `semfs_semstat`. -/
inductive Use where
  /-- `lock_acquire(sem->sems_lock)`. -/
  | enter
  /-- Behind it. -/
  | locked
  deriving DecidableEq, Repr

/-- `semfs_reclaim`. -/
inductive Reclaim where
  /-- `lock_acquire(semfs->semfs_tablelock)`. -/
  | enter
  /-- `if (vn->vn_refcount > 1)`, with its body. -/
  | test
  /-- `lock_release(semfs->semfs_tablelock)`, when the vnode is busy. -/
  | busy
  /-- The vnode is taken from `semfs_vnodes`, and `sem->sems_hasvnode = false`. -/
  | unhave
  /-- `if (sem->sems_linked == false)`, with the first line of its body. -/
  | linked (id : SemId)
  /-- `semfs_sem_destroy(sem)`. -/
  | destroy (id : SemId)
  /-- `lock_release(semfs->semfs_tablelock)`. -/
  | release
  /-- `semfs_vnode_destroy(semv)`. -/
  | free
  deriving DecidableEq, Repr

/-- Who has called `semfs_getvnode`. -/
inductive GetvnodeCaller where
  /-- `semfs_getroot`. -/
  | root
  /-- `semfs_lookup`, or `semfs_creat` for a name that exists. -/
  | found
  /-- `semfs_creat` for a new semaphore, whose directory entry is at `slot`. -/
  | created (name : String) (excl : Bool) (slot : Nat) (id : SemId)
  deriving DecidableEq, Repr

/-- Who has called `semfs_getsembynum`. -/
inductive GetsemCaller where
  /-- `semfs_remove`, for the directory entry at `i`. -/
  | remove (name : String) (i : Nat)
  /-- `semfs_getsem`, for a vnode. -/
  | use (v : VnId)
  deriving DecidableEq, Repr

/-- A thread in no call, or in one of the functions. -/
inductive Point where
  | out
  | creat (name : String) (excl : Bool) (p : Creat)
  | lookup (name : String) (p : Lookup)
  | remove (name : String) (p : Remove)
  | getvnode (f : GetvnodeCaller) (n : Nat) (p : Getvnode)
  | getsem (f : GetsemCaller) (n : Nat) (p : Getsem)
  | use (v : VnId) (id : SemId) (p : Use)
  /-- `vnode_decref`. -/
  | decref (v : VnId)
  | reclaim (v : VnId) (p : Reclaim)
  /-- `lock_release(semfs->semfs_dirlock)` at the end of a call that returns a vnode. -/
  | done (v : VnId)
  /-- `lock_release(semfs->semfs_dirlock)` at the end of another call. -/
  | unlock
  deriving DecidableEq, Repr

/-- `semfs_getvnode` has found or made the vnode `v`. -/
def GetvnodeCaller.returned (v : VnId) : GetvnodeCaller → Point
  | .root => .out
  | .found => .done v
  | .created name excl slot id => .creat name excl (.link slot id v)

/-- `semfs_getvnode` has failed. -/
def GetvnodeCaller.failed (n : Nat) : GetvnodeCaller → Point
  | .root => .out
  | .found => .unlock
  | .created name excl slot id => .creat name excl (.undir slot id n)

/-- `semfs_getsembynum` has returned the semaphore `id`. -/
def GetsemCaller.returned (n : Nat) (id : SemId) : GetsemCaller → Point
  | .remove name i => .remove name (.lock i n id)
  | .use v => .use v id .enter

/-- `!strcmp(name, ".") || !strcmp(name, "..")`. -/
def isDots (name : String) : Bool := name == "." || name == ".."

/-! ## Steps -/

section Steps

variable {τ : Type} [DecidableEq τ]

/-- Steps between the calls on the locks and the condition variables. -/
inductive Runs (t : τ) : Point → Fs τ → Point → Fs τ → Prop where
  | callCreat (name : String) (excl : Bool) (x : Fs τ) : Runs t .out x (.creat name excl .dots) x
  | callLookup (name : String) (x : Fs τ) : Runs t .out x (.lookup name .dots) x
  | callRemove (name : String) (x : Fs τ) : Runs t .out x (.remove name .dots) x
  | callGetroot (x : Fs τ) : Runs t .out x (.getvnode .root rootdir .enter) x
  | callUse {x : Fs τ} {v : VnId} {d : Vnode} : x.refs v ≠ 0 → x.vn v = some d →
      d.semnum ≠ rootdir → Runs t .out x (.getsem (.use v) d.semnum .enter) (x.take t v)
  | vopIncref {x : Fs τ} {v : VnId} {d : Vnode} : x.refs v ≠ 0 → x.vn v = some d →
      Runs t .out x .out ((x.copy v).setRefcount v (d.refcount + 1))
  | callDecref {x : Fs τ} {v : VnId} : x.refs v ≠ 0 → Runs t .out x (.decref v) (x.take t v)
  -- `vnode_decref`
  | decref {x : Fs τ} {v : VnId} {d : Vnode} : x.vn v = some d → 1 < d.refcount →
      Runs t (.decref v) x .out ((x.drop t v).setRefcount v (d.refcount - 1))
  | callReclaim {x : Fs τ} {v : VnId} {d : Vnode} : x.vn v = some d → d.refcount = 1 →
      Runs t (.decref v) x (.reclaim v .enter) x
  -- `semfs_creat`
  | creatDots {x : Fs τ} {name : String} {excl : Bool} : isDots name = true →
      Runs t (.creat name excl .dots) x .out x
  | creatName {x : Fs τ} {name : String} {excl : Bool} : isDots name = false →
      Runs t (.creat name excl .dots) x (.creat name excl .enter) x
  | creatExists {x : Fs τ} {name : String} {i n : Nat} : findDent x.dents name = some (i, n) →
      Runs t (.creat name true .scan) x .unlock x
  | creatFound {x : Fs τ} {name : String} {i n : Nat} : findDent x.dents name = some (i, n) →
      Runs t (.creat name false .scan) x (.getvnode .found n .enter) x
  | creatNew {x : Fs τ} {name : String} {excl : Bool} : findDent x.dents name = none →
      Runs t (.creat name excl .scan) x (.creat name excl (.create (x.dents.idxOf none))) x
  | createFails {x : Fs τ} {name : String} {excl : Bool} {empty : Nat} :
      Runs t (.creat name excl (.create empty)) x .unlock x
  | create {x : Fs τ} {name : String} {excl : Bool} {empty : Nat} {id : SemId} : x.sem id = none →
      Runs t (.creat name excl (.create empty)) x (.creat name excl (.insertEnter empty id))
        (x.create id)
  | insertFails {x : Fs τ} {name : String} {excl : Bool} {empty : Nat} {id : SemId} :
      Runs t (.creat name excl (.insert empty id)) x (.creat name excl (.uninserted id)) x
  | insert {x : Fs τ} {name : String} {excl : Bool} {empty : Nat} {id : SemId} :
      x.sems.length ≠ rootdir →
      Runs t (.creat name excl (.insert empty id)) x
        (.creat name excl (.inserted empty id (x.sems.idxOf none)))
        (x.insert (x.sems.idxOf none) id)
  | direntFails {x : Fs τ} {name : String} {excl : Bool} {empty n : Nat} {id : SemId} :
      Runs t (.creat name excl (.dirent empty id n)) x (.creat name excl (.uninsertEnter id n)) x
  | dirent {x : Fs τ} {name : String} {excl : Bool} {empty n : Nat} {id : SemId} :
      Runs t (.creat name excl (.dirent empty id n)) x
        (.getvnode (.created name excl empty id) n .enter) (x.addDent empty (name, n))
  | link {x : Fs τ} {name : String} {excl : Bool} {slot : Nat} {id : SemId} {v : VnId} :
      Runs t (.creat name excl (.link slot id v)) x (.done v) (x.setLinked id true)
  | undir {x : Fs τ} {name : String} {excl : Bool} {slot n : Nat} {id : SemId} :
      Runs t (.creat name excl (.undir slot id n)) x (.creat name excl (.uninsertEnter id n))
        (x.clearDent slot)
  | uninsert {x : Fs τ} {name : String} {excl : Bool} {n : Nat} {id : SemId} :
      Runs t (.creat name excl (.uninsert id n)) x (.creat name excl (.uninserted id))
        (x.remove t n id)
  | uncreate {x : Fs τ} {name : String} {excl : Bool} {id : SemId} :
      Runs t (.creat name excl (.uncreate id)) x .unlock (x.destroy t id)
  -- `semfs_lookup`; for `.` the caller gets another reference to its directory
  | lookupDots {x : Fs τ} {name : String} : isDots name = true →
      Runs t (.lookup name .dots) x .out x
  | lookupName {x : Fs τ} {name : String} : isDots name = false →
      Runs t (.lookup name .dots) x (.lookup name .enter) x
  | lookupFound {x : Fs τ} {name : String} {i n : Nat} : findDent x.dents name = some (i, n) →
      Runs t (.lookup name .scan) x (.getvnode .found n .enter) x
  | lookupNone {x : Fs τ} {name : String} : findDent x.dents name = none →
      Runs t (.lookup name .scan) x .unlock x
  -- `semfs_remove`
  | removeDots {x : Fs τ} {name : String} : isDots name = true →
      Runs t (.remove name .dots) x .out x
  | removeName {x : Fs τ} {name : String} : isDots name = false →
      Runs t (.remove name .dots) x (.remove name .enter) x
  | removeNone {x : Fs τ} {name : String} : findDent x.dents name = none →
      Runs t (.remove name .scan) x .unlock x
  | removeFound {x : Fs τ} {name : String} {i n : Nat} : findDent x.dents name = some (i, n) →
      Runs t (.remove name .scan) x (.getsem (.remove name i) n .enter) x
  | unlink {x : Fs τ} {name : String} {i n : Nat} {id : SemId} {d : Sem} : x.sem id = some d →
      d.linked = true → Runs t (.remove name (.unlink i n id)) x (.remove name (.test i n id))
        (x.setLinked id false)
  | testHas {x : Fs τ} {name : String} {i n : Nat} {id : SemId} {d : Sem} : x.sem id = some d →
      d.hasvnode = true →
      Runs t (.remove name (.test i n id)) x (.remove name (.unlock i id)) x
  | testHasNot {x : Fs τ} {name : String} {i n : Nat} {id : SemId} {d : Sem} : x.sem id = some d →
      d.hasvnode = false →
      Runs t (.remove name (.test i n id)) x (.remove name (.clearEnter i n id)) x
  | clear {x : Fs τ} {name : String} {i n : Nat} {id : SemId} :
      Runs t (.remove name (.clear i n id)) x (.remove name (.cleared i id)) (x.remove t n id)
  | removeDestroy {x : Fs τ} {name : String} {i : Nat} {id : SemId} :
      Runs t (.remove name (.destroy i id)) x (.remove name (.dent i)) (x.destroy t id)
  | removeDent {x : Fs τ} {name : String} {i : Nat} :
      Runs t (.remove name (.dent i)) x .unlock (x.clearDent i)
  -- `semfs_getvnode`
  | findVnode {x : Fs τ} {f : GetvnodeCaller} {n : Nat} {v : VnId} {d : Vnode} : v ∈ x.vnodes →
      x.vn v = some d → d.semnum = n → Runs t (.getvnode f n .find) x (.getvnode f n (.incref v)) x
  | findNone {x : Fs τ} {f : GetvnodeCaller} {n : Nat} :
      (∀ v ∈ x.vnodes, ∀ d, x.vn v = some d → d.semnum ≠ n) →
      Runs t (.getvnode f n .find) x (.getvnode f n .make) x
  | getIncref {x : Fs τ} {f : GetvnodeCaller} {n : Nat} {v : VnId} {d : Vnode} : x.vn v = some d →
      Runs t (.getvnode f n (.incref v)) x (.getvnode f n (.ok v))
        ((x.hold t v).setRefcount v (d.refcount + 1))
  | makeFails {x : Fs τ} {f : GetvnodeCaller} {n : Nat} :
      Runs t (.getvnode f n .make) x (.getvnode f n .fail) x
  | makeRoot {x : Fs τ} {f : GetvnodeCaller} {n : Nat} {v : VnId} : x.vn v = none → n = rootdir →
      Runs t (.getvnode f n .make) x (.getvnode f n (.ok v)) (x.addVnode t v n)
  | make {x : Fs τ} {f : GetvnodeCaller} {n : Nat} {v : VnId} {id : SemId} {d : Sem} :
      x.vn v = none → n ≠ rootdir → x.At n id → x.sem id = some d → d.hasvnode = false →
      Runs t (.getvnode f n .make) x (.getvnode f n (.ok v))
        ((x.addVnode t v n).setHasvnode id true)
  -- `semfs_getsembynum`
  | get {x : Fs τ} {f : GetsemCaller} {n : Nat} {id : SemId} : x.At n id →
      Runs t (.getsem f n .get) x (.getsem f n (.got id)) x
  -- `semfs_reclaim`
  | busy {x : Fs τ} {v : VnId} {d : Vnode} : x.vn v = some d → 1 < d.refcount →
      Runs t (.reclaim v .test) x (.reclaim v .busy)
        ((x.drop t v).setRefcount v (d.refcount - 1))
  | last {x : Fs τ} {v : VnId} {d : Vnode} : x.vn v = some d → ¬ 1 < d.refcount →
      Runs t (.reclaim v .test) x (.reclaim v .unhave) x
  | unhaveRoot {x : Fs τ} {v : VnId} {d : Vnode} : x.vn v = some d → d.semnum = rootdir →
      Runs t (.reclaim v .unhave) x (.reclaim v .release) (x.removeVnode v)
  | unhave {x : Fs τ} {v : VnId} {d : Vnode} {id : SemId} {e : Sem} : x.vn v = some d →
      d.semnum ≠ rootdir → x.At d.semnum id → x.sem id = some e → e.hasvnode = true →
      Runs t (.reclaim v .unhave) x (.reclaim v (.linked id))
        ((x.removeVnode v).setHasvnode id false)
  | isLinked {x : Fs τ} {v : VnId} {id : SemId} {e : Sem} : x.sem id = some e →
      e.linked = true → Runs t (.reclaim v (.linked id)) x (.reclaim v .release) x
  | isUnlinked {x : Fs τ} {v : VnId} {d : Vnode} {id : SemId} {e : Sem} : x.vn v = some d →
      x.sem id = some e → e.linked = false →
      Runs t (.reclaim v (.linked id)) x (.reclaim v (.destroy id)) (x.remove t d.semnum id)
  | reclaimDestroy {x : Fs τ} {v : VnId} {id : SemId} :
      Runs t (.reclaim v (.destroy id)) x (.reclaim v .release) (x.destroy t id)
  | vnodeDestroy {x : Fs τ} {v : VnId} {d : Vnode} : x.vn v = some d → d.refcount = 1 →
      Runs t (.reclaim v .free) x .out ((x.drop t v).setRefcount v 0)

/-- Calls on the locks and the condition variables. -/
inductive Calls : Point → Req Lk SemId → Point → Prop where
  | creatEnter (name : String) (excl : Bool) :
      Calls (.creat name excl .enter) (.acquire .dir) (.creat name excl .scan)
  | insertEnter (name : String) (excl : Bool) (empty : Nat) (id : SemId) :
      Calls (.creat name excl (.insertEnter empty id)) (.acquire .table)
        (.creat name excl (.insert empty id))
  | inserted (name : String) (excl : Bool) (empty : Nat) (id : SemId) (n : Nat) :
      Calls (.creat name excl (.inserted empty id n)) (.release .table)
        (.creat name excl (.dirent empty id n))
  | uninsertEnter (name : String) (excl : Bool) (id : SemId) (n : Nat) :
      Calls (.creat name excl (.uninsertEnter id n)) (.acquire .table)
        (.creat name excl (.uninsert id n))
  | uninserted (name : String) (excl : Bool) (id : SemId) :
      Calls (.creat name excl (.uninserted id)) (.release .table) (.creat name excl (.uncreate id))
  | lookupEnter (name : String) :
      Calls (.lookup name .enter) (.acquire .dir) (.lookup name .scan)
  | removeEnter (name : String) :
      Calls (.remove name .enter) (.acquire .dir) (.remove name .scan)
  | lock (name : String) (i n : Nat) (id : SemId) :
      Calls (.remove name (.lock i n id)) (.acquire (.sems id)) (.remove name (.unlink i n id))
  | unlockSem (name : String) (i : Nat) (id : SemId) :
      Calls (.remove name (.unlock i id)) (.release (.sems id)) (.remove name (.dent i))
  | clearEnter (name : String) (i n : Nat) (id : SemId) :
      Calls (.remove name (.clearEnter i n id)) (.acquire .table) (.remove name (.clear i n id))
  | cleared (name : String) (i : Nat) (id : SemId) :
      Calls (.remove name (.cleared i id)) (.release .table) (.remove name (.free i id))
  | free (name : String) (i : Nat) (id : SemId) :
      Calls (.remove name (.free i id)) (.release (.sems id)) (.remove name (.destroy i id))
  | getEnter (f : GetvnodeCaller) (n : Nat) :
      Calls (.getvnode f n .enter) (.acquire .table) (.getvnode f n .find)
  | getOk (f : GetvnodeCaller) (n : Nat) (v : VnId) :
      Calls (.getvnode f n (.ok v)) (.release .table) (f.returned v)
  | getFail (f : GetvnodeCaller) (n : Nat) :
      Calls (.getvnode f n .fail) (.release .table) (f.failed n)
  | semEnter (f : GetsemCaller) (n : Nat) :
      Calls (.getsem f n .enter) (.acquire .table) (.getsem f n .get)
  | semGot (f : GetsemCaller) (n : Nat) (id : SemId) :
      Calls (.getsem f n (.got id)) (.release .table) (f.returned n id)
  | useEnter (v : VnId) (id : SemId) :
      Calls (.use v id .enter) (.acquire (.sems id)) (.use v id .locked)
  | useWait (v : VnId) (id : SemId) :
      Calls (.use v id .locked) (.wait id (.sems id)) (.use v id .locked)
  | useSignal (v : VnId) (id : SemId) :
      Calls (.use v id .locked) (.signal id (.sems id)) (.use v id .locked)
  | useBroadcast (v : VnId) (id : SemId) :
      Calls (.use v id .locked) (.broadcast id (.sems id)) (.use v id .locked)
  | useDone (v : VnId) (id : SemId) : Calls (.use v id .locked) (.release (.sems id)) .out
  | reclaimEnter (v : VnId) : Calls (.reclaim v .enter) (.acquire .table) (.reclaim v .test)
  | reclaimBusy (v : VnId) : Calls (.reclaim v .busy) (.release .table) .out
  | reclaimRelease (v : VnId) : Calls (.reclaim v .release) (.release .table) (.reclaim v .free)
  | done (v : VnId) : Calls (.done v) (.release .dir) .out
  | unlock : Calls .unlock (.release .dir) .out

/-- With some calls the caller gets a reference, or gives it back. -/
def effect (t : τ) (x : Fs τ) : Point → Req Lk SemId → Fs τ
  | .done v, _ | .getvnode .root _ (.ok v), _ | .use v _ .locked, .release _ => x.give t v
  | _, _ => x

/-- `semfs_dirlock` is held in the calls of this caller. -/
def GetvnodeCaller.locked : GetvnodeCaller → Lk → Bool
  | .root, _ => false
  | _, ℓ => ℓ == .dir

def GetsemCaller.locked : GetsemCaller → Lk → Bool
  | .remove _ _, ℓ => ℓ == .dir
  | .use _, _ => false

/-- The locks of a thread. -/
def Point.locked : Point → Lk → Bool
  | .out, _ | .decref _, _ => false
  | .creat _ _ .dots, _ | .creat _ _ .enter, _ => false
  | .creat _ _ (.insert ..), ℓ | .creat _ _ (.inserted ..), ℓ | .creat _ _ (.uninsert ..), ℓ
  | .creat _ _ (.uninserted ..), ℓ => ℓ == .dir || ℓ == .table
  | .creat _ _ _, ℓ => ℓ == .dir
  | .lookup _ .scan, ℓ => ℓ == .dir
  | .lookup _ _, _ => false
  | .remove _ .dots, _ | .remove _ .enter, _ => false
  | .remove _ .scan, ℓ | .remove _ (.lock ..), ℓ | .remove _ (.destroy ..), ℓ
  | .remove _ (.dent _), ℓ => ℓ == .dir
  | .remove _ (.unlink _ _ id), ℓ | .remove _ (.test _ _ id), ℓ | .remove _ (.unlock _ id), ℓ
  | .remove _ (.clearEnter _ _ id), ℓ | .remove _ (.free _ id), ℓ => ℓ == .dir || ℓ == .sems id
  | .remove _ (.clear _ _ id), ℓ | .remove _ (.cleared _ id), ℓ =>
      ℓ == .dir || ℓ == .sems id || ℓ == .table
  | .getvnode f _ .enter, ℓ => f.locked ℓ
  | .getvnode f _ _, ℓ => f.locked ℓ || ℓ == .table
  | .getsem f _ .enter, ℓ => f.locked ℓ
  | .getsem f _ _, ℓ => f.locked ℓ || ℓ == .table
  | .use _ _ .enter, _ => false
  | .use _ id .locked, ℓ => ℓ == .sems id
  | .reclaim _ .enter, _ | .reclaim _ .free, _ => false
  | .reclaim _ _, ℓ => ℓ == .table
  | .done _, ℓ | .unlock, ℓ => ℓ == .dir

theorem locked_of_runs {t : τ} {k k' : Point} {x x' : Fs τ} (h : Runs t k x k' x') :
    k'.locked = k.locked := by
  cases h with
  | dirent => rfl
  | get => rfl
  | _ => rfl

theorem moves_of_calls {k k' : Point} {r : Req Lk SemId} (h : Calls k r k') :
    r.Moves k.locked k'.locked := by
  cases h with
  | useWait v id => exact ⟨by simp [Point.locked], rfl⟩
  | useSignal v id => exact ⟨by simp [Point.locked], rfl⟩
  | useBroadcast v id => exact ⟨by simp [Point.locked], rfl⟩
  | getOk f n v | getFail f n | getEnter f n =>
      cases f <;> refine ⟨by simp [Point.locked, GetvnodeCaller.locked], funext fun ℓ => ?_⟩ <;>
        by_cases hℓ : ℓ = .table <;>
        simp [Point.locked, GetvnodeCaller.locked, GetvnodeCaller.returned,
          GetvnodeCaller.failed, hℓ]
  | semEnter f n | semGot f n id =>
      cases f <;> refine ⟨by simp [Point.locked, GetsemCaller.locked], funext fun ℓ => ?_⟩ <;>
        by_cases hℓ : ℓ = .table <;>
        simp [Point.locked, GetsemCaller.locked, GetsemCaller.returned, hℓ]
  | creatEnter | lookupEnter | removeEnter | done | unlock =>
      refine ⟨by simp [Point.locked], funext fun ℓ => ?_⟩
      by_cases hℓ : ℓ = .dir <;> simp [Point.locked, hℓ]
  | insertEnter | inserted | uninsertEnter | uninserted | clearEnter | cleared | reclaimEnter
  | reclaimBusy | reclaimRelease =>
      refine ⟨by simp [Point.locked], funext fun ℓ => ?_⟩
      by_cases hℓ : ℓ = .table <;> simp [Point.locked, hℓ]
  | lock _ _ _ id | unlockSem _ _ id | free _ _ id | useEnter _ id | useDone _ id =>
      refine ⟨by simp [Point.locked], funext fun ℓ => ?_⟩
      by_cases hℓ : ℓ = .sems id <;> simp [Point.locked, hℓ]

/-- Threads that use the semaphore file system. -/
def semfsThreads (τ : Type) [DecidableEq τ] : Client τ Lk SemId (Fs τ) Point where
  start := .out
  runs := Runs
  calls := Calls
  effect t k r x := effect t x k r
  owns := Point.locked
  owns_start _ := rfl
  owns_runs _ _ _ _ _ h := locked_of_runs h
  owns_calls _ _ _ h := moves_of_calls h

end Steps

end Os161.Semfs.Objects

import Os161.Lib.Calls
import Os161.State

set_option autoImplicit false

/-!
# The device list and vnode references

`kern/vfs/vfslist.c` and the reference counts of `kern/vfs/vnode.c`. What file systems and devices
answer is outside: a `World` holds the results of the `VOP_` and `FSOP_` calls, each by the time at
which it is made, so that the same call may be answered differently later. A call that hands out a
vnode adds one reference to it exactly when it succeeds. `vn_refcount` is kept for every vnode; the
last reference is passed to `VOP_RECLAIM`, and the vnode has none from then on.
-/

namespace Os161.Path

open Os161.Lib.Calls

/-- Strings without a zero byte. -/
abbrev Str : Type := List Char

/-- Address of a `struct device`. -/
abbrev DevRef : Type := Nat

/-- Address of a `struct fs`. -/
abbrev FsRef : Type := Nat

/-- Error numbers; `below` is what a file system or a device has returned. -/
inductive Errno where
  | ENOMEM
  | EINVAL
  | EBUSY
  | ENOENT
  | EEXIST
  | ENOTDIR
  | ENODEV
  | ENXIO
  | EXDEV
  | below (e : ErrCode)
  deriving DecidableEq

/-- Failed assertions. -/
inductive Panic where
  /-- `vnode_check` and `vnode_decref`: a vnode without references. -/
  | zeroRefcount
  /-- The current directory is not on a file system. -/
  | noFs
  /-- An entry of the device list that cannot be. -/
  | badKnowndev
  /-- `vfs_biglock` is not held. -/
  | biglock
  deriving DecidableEq

/-- `kd_fs`: NULL, `SWAP_FS`, or a file system. -/
inductive KdFs where
  | null
  | swap
  | mounted (fs : FsRef)
  deriving DecidableEq

/-- `struct knowndev`. -/
structure Knowndev where
  name : Str
  rawname : Option Str
  device : Option DevRef
  vnode : VnodeRef
  fs : KdFs
  deriving DecidableEq

/-- The `VOP_` calls that hand out nothing, with their arguments. -/
inductive Vop where
  | eachopen (vn : VnodeRef) (openflags : BitVec 32)
  | truncate (vn : VnodeRef) (len : Nat)
  | readlink (vn : VnodeRef)
  | remove (dir : VnodeRef) (name : Str)
  | rename (olddir : VnodeRef) (oldname : Str) (newdir : VnodeRef) (newname : Str)
  | link (dir : VnodeRef) (name : Str) (file : VnodeRef)
  | symlink (dir : VnodeRef) (name contents : Str)
  | mkdir (dir : VnodeRef) (name : Str) (mode : Nat)
  | rmdir (dir : VnodeRef) (name : Str)

/-- The vnode whose operation is called. -/
def Vop.object : Vop → VnodeRef
  | .eachopen vn _ | .truncate vn _ | .readlink vn | .remove vn _ | .rename vn _ _ _
  | .link vn _ _ | .symlink vn _ _ | .mkdir vn _ _ | .rmdir vn _ => vn

/-- The file systems and devices, by the time of the call. -/
structure World where
  /-- `vn_fs`. -/
  vnFs : Nat → VnodeRef → Option FsRef
  vop : Nat → Vop → Option ErrCode
  vopGettype : Nat → VnodeRef → Except ErrCode Nat
  vopLookup : Nat → VnodeRef → Str → Except ErrCode VnodeRef
  vopLookparent : Nat → VnodeRef → Str → Except ErrCode (VnodeRef × Str)
  vopCreat : Nat → VnodeRef → Str → Bool → Nat → Except ErrCode VnodeRef
  fsopGetroot : Nat → FsRef → Except ErrCode VnodeRef
  /-- The volume name of a file system stays the same. -/
  fsopGetvolname : FsRef → Option Str

/-- What the path operations work on. -/
structure Vfs where
  knowndevs : List Knowndev
  /-- `vfs_biglock_depth`. -/
  depth : Nat
  /-- `vn_refcount`. -/
  refcount : VnodeRef → Nat
  /-- The vnodes passed to `VOP_RECLAIM`. -/
  reclaimed : List VnodeRef
  /-- `p_cwd` of the current process. -/
  curdir : Option VnodeRef
  /-- `bootfs_vnode`. -/
  bootfs : Option VnodeRef
  time : Nat

/-- The functions of the VFS layer. -/
abbrev VfsCall (α : Type) : Type := Call Vfs Panic Errno α

/-! ## The big lock -/

/-- `vfs_biglock_acquire`. -/
def biglockAcquire : VfsCall Unit := modify fun s => { s with depth := s.depth + 1 }

/-- `vfs_biglock_release`. -/
def biglockRelease : VfsCall Unit := do
  let s ← get
  if s.depth = 0 then halt .biglock else set { s with depth := s.depth - 1 }

/-- `KASSERT(vfs_biglock_do_i_hold())`. -/
def biglockHeld : VfsCall Unit := do
  let s ← get
  if s.depth = 0 then halt .biglock else pure ()

/-- The state with the big lock taken once more. -/
def locked (s : Vfs) : Vfs := { s with depth := s.depth + 1 }

theorem wp_biglockAcquire {ok : Panic → Prop} {s : Vfs} {Q : Except Errno Unit → Vfs → Prop} :
    wp ok biglockAcquire Q s ↔ Q (.ok ()) (locked s) := by
  simp [biglockAcquire, locked]

/-! ## References -/

/-- `VOP_INCREF`. -/
def vopIncref (v : VnodeRef) : VfsCall Unit :=
  modify fun s => { s with refcount := Function.update s.refcount v (s.refcount v + 1) }

/-- `VOP_DECREF`. -/
def vopDecref (v : VnodeRef) : VfsCall Unit := do
  let s ← get
  if s.refcount v = 0 then halt .zeroRefcount
  else if 1 < s.refcount v then
    set { s with refcount := Function.update s.refcount v (s.refcount v - 1) }
  else
    set { s with refcount := Function.update s.refcount v 0, reclaimed := v :: s.reclaimed }

/-- `vnode_check`, before every `VOP_` call. -/
def vnodeCheck (v : VnodeRef) : VfsCall Unit := do
  let s ← get
  if s.refcount v = 0 then halt .zeroRefcount else pure ()

/-- The time of the next call. -/
def now : VfsCall Nat := do
  let s ← get
  set { s with time := s.time + 1 }
  pure s.time

/-- A vnode that has been handed out comes with a reference. -/
def handOut : Except ErrCode VnodeRef → VfsCall VnodeRef
  | .error e => throw (.below e)
  | .ok v => do
      vopIncref v
      pure v

variable (W : World)

/-- A `VOP_` call that hands out nothing. -/
def vopCall (c : Vop) : VfsCall Unit := do
  vnodeCheck c.object
  let t ← now
  match W.vop t c with
  | none => pure ()
  | some e => throw (.below e)

/-- `VOP_GETTYPE`. -/
def vopGettype (v : VnodeRef) : VfsCall Nat := do
  vnodeCheck v
  let t ← now
  match W.vopGettype t v with
  | .ok mode => pure mode
  | .error e => throw (.below e)

/-- `VOP_LOOKUP`. -/
def vopLookup (dir : VnodeRef) (pathname : Str) : VfsCall VnodeRef := do
  vnodeCheck dir
  let t ← now
  handOut (W.vopLookup t dir pathname)

/-- `VOP_LOOKPARENT`. -/
def vopLookparent (dir : VnodeRef) (pathname : Str) : VfsCall (VnodeRef × Str) := do
  vnodeCheck dir
  let t ← now
  match W.vopLookparent t dir pathname with
  | .error e => throw (.below e)
  | .ok (v, name) => do
      vopIncref v
      pure (v, name)

/-- `VOP_CREAT`. -/
def vopCreat (dir : VnodeRef) (name : Str) (excl : Bool) (mode : Nat) : VfsCall VnodeRef := do
  vnodeCheck dir
  let t ← now
  handOut (W.vopCreat t dir name excl mode)

/-- `FSOP_GETROOT`. -/
def fsopGetroot (fs : FsRef) : VfsCall VnodeRef := do
  let t ← now
  handOut (W.fsopGetroot t fs)

/-- `vn->vn_fs`. -/
def vnFs (v : VnodeRef) : VfsCall (Option FsRef) := do
  let s ← get
  pure (W.vnFs s.time v)

/-! ## The device list -/

/-- The volume name of the file system on a device. -/
def Knowndev.volname (kd : Knowndev) : Option Str :=
  match kd.fs with
  | .mounted fs => W.fsopGetvolname fs
  | .null | .swap => none

/-- What `vfs_getroot` finds for a name at one entry of the list. -/
inductive Root where
  /-- The root of the file system. -/
  | fs (fs : FsRef)
  /-- The device itself. -/
  | device (vnode : VnodeRef)
  /-- `ENXIO`: a mountable device without a file system. -/
  | notMounted
  /-- An assertion fails. -/
  | bad
  deriving DecidableEq

/-- One round of the loop of `vfs_getroot`; `none` goes on to the next device. -/
def Knowndev.root (kd : Knowndev) (devname : Str) : Option Root :=
  match kd.fs with
  | .mounted fs =>
      if kd.name = devname ∨ W.fsopGetvolname fs = some devname then some (.fs fs)
      else if kd.rawname = some devname then
        if kd.device = none then some .bad else some (.device kd.vnode)
      else none
  | .null | .swap =>
      if kd.rawname ≠ none ∧ kd.name = devname then some .notMounted
      else if kd.name = devname then
        if kd.fs = .null ∧ kd.rawname = none ∧ kd.device ≠ none then some (.device kd.vnode)
        else some .bad
      else if kd.rawname = some devname then
        if kd.device = none then some .bad else some (.device kd.vnode)
      else none

/-- The first entry of the list that a name fits. -/
def findRoot (devs : List Knowndev) (devname : Str) : Option Root :=
  devs.findSome? fun kd => kd.root W devname

/-- `vfs_getroot`. -/
def vfsGetroot (devname : Str) : VfsCall VnodeRef := do
  biglockHeld
  let s ← get
  match findRoot W s.knowndevs devname with
  | none => throw .ENODEV
  | some .notMounted => throw Errno.ENXIO
  | some .bad => halt .badKnowndev
  | some (.fs fs) => fsopGetroot W fs
  | some (.device vnode) => do
      vopIncref vnode
      pure vnode

/-- `samestring`. -/
def samestring (a b : Option Str) : Bool := a.any fun x => b == some x

/-- `samestring3`. -/
def samestring3 (a b c d : Option Str) : Bool := samestring a b || samestring a c || samestring a d

/-- `badnames`: one of three names is a name of a device in the list. -/
def badnames (devs : List Knowndev) (n1 n2 n3 : Option Str) : Bool :=
  devs.any fun kd =>
    samestring3 (kd.volname W) n1 n2 n3 || samestring3 kd.rawname n1 n2 n3 ||
      samestring3 (some kd.name) n1 n2 n3

/-- `mkrawname`. -/
def mkrawname (name : Str) : Str := name ++ ['r', 'a', 'w']

/-- What `vfs_doadd` gets from the memory allocator, in its order: the two strings, the vnode of
the device, the entry, and a place in the list. -/
structure AddEnv where
  name : Bool
  rawname : Bool
  vnode : Option VnodeRef
  kd : Bool
  add : Bool

/-- The exit at `fail`. -/
def failing {α : Type} (e : Errno) : VfsCall α := do
  biglockRelease
  throw e

/-- The end of `vfs_doadd`, once the entry is there. -/
def addKnowndev (kd : Knowndev) (env : AddEnv) : VfsCall Unit := do
  let s ← get
  if badnames W s.knowndevs (some kd.name) kd.rawname (kd.volname W) then failing .EEXIST
  else if env.add = false then failing .ENOMEM
  else do
    -- the vnode of a device has the reference of the list
    set { s with
      knowndevs := s.knowndevs ++ [kd], refcount := Function.update s.refcount kd.vnode 1 }
    biglockRelease

/-- `vfs_doadd`. -/
def vfsDoadd (dname : Str) (mountable : Bool) (dev : Option DevRef) (fs : KdFs) (env : AddEnv) :
    VfsCall Unit := do
  biglockAcquire
  if env.name = false ∨ (mountable ∧ env.rawname = false) then failing .ENOMEM
  else
    match env.vnode with
    | none => failing .ENOMEM
    | some vnode =>
        if env.kd = false then failing .ENOMEM
        else
          addKnowndev W
            { name := dname, rawname := if mountable then some (mkrawname dname) else none
              device := dev, vnode := vnode, fs := fs } env

/-- `vfs_adddev`. -/
def vfsAdddev (devname : Str) (dev : DevRef) (mountable : Bool) (env : AddEnv) : VfsCall Unit :=
  vfsDoadd W devname mountable (some dev) .null env

/-- `vfs_addfs`. -/
def vfsAddfs (devname : Str) (fs : FsRef) (env : AddEnv) : VfsCall Unit :=
  vfsDoadd W devname false none (.mounted fs) env

/-- `findmount`: the index of the entry. -/
def findmount (devs : List Knowndev) (devname : Str) : Option Nat :=
  devs.findIdx? fun kd => kd.rawname.isSome && kd.name == devname

/-- Writes `kd_fs` of an entry. -/
def setFs (devs : List Knowndev) (i : Nat) (fs : KdFs) : List Knowndev :=
  devs.modify i fun kd => { kd with fs := fs }

/-- `vfs_mount`; `mountfunc` is the result of the mount function. -/
def vfsMount (devname : Str) (mountfunc : Except ErrCode FsRef) : VfsCall Unit := do
  biglockAcquire
  let s ← get
  match findmount s.knowndevs devname with
  | none => failing .ENODEV
  | some i =>
      if s.knowndevs[i]?.any fun kd => kd.fs != .null then failing .EBUSY
      else if s.knowndevs[i]?.any fun kd => kd.device.isNone then halt .badKnowndev
      else
        match mountfunc with
        | .error e => failing (.below e)
        | .ok fs => do
            -- the volume name is printed, not compared
            set { s with knowndevs := setFs s.knowndevs i (.mounted fs) }
            biglockRelease

/-- `vfs_unmount`; `fsop` is the first error of `FSOP_SYNC` and `FSOP_UNMOUNT`. -/
def vfsUnmount (devname : Str) (fsop : Option ErrCode) : VfsCall Unit := do
  biglockAcquire
  let s ← get
  match findmount s.knowndevs devname with
  | none => failing .ENODEV
  | some i =>
      if s.knowndevs[i]?.any fun kd => kd.fs == .null || kd.fs == .swap then failing .EINVAL
      else if s.knowndevs[i]?.any fun kd => kd.device.isNone then halt .badKnowndev
      else
        match fsop with
        | some e => failing (.below e)
        | none => do
            set { s with knowndevs := setFs s.knowndevs i .null }
            biglockRelease

end Os161.Path

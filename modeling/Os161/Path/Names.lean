import Mathlib.Data.List.Basic
import Os161.Lib.Runs
import Os161.Path.Devices

set_option autoImplicit false

/-!
# The names of devices

Devices enter the list through `vfs_adddev` and `vfs_addfs`, which compare all their names with all
names in the list, and get another name when a file system with a volume name is mounted on them,
which `vfs_mount` compares with nothing. When no two devices have a name in common, it does not
matter in which order the list is searched (`unambiguous_of_unique`). A run keeps it so as long as
its mounts bring no name that another device has.
-/

namespace Os161.Path

open Os161.Lib.Calls
open Os161.Lib.Runs

/-- Calls that change the device list. -/
inductive DevOp where
  | adddev (devname : Str) (dev : DevRef) (mountable : Bool) (env : AddEnv)
  | addfs (devname : Str) (fs : FsRef) (env : AddEnv)
  | mount (devname : Str) (mountfunc : Except ErrCode FsRef)
  | unmount (devname : Str) (fsop : Option ErrCode)

variable (W : World)

def DevOp.call : DevOp → VfsCall Unit
  | .adddev devname dev mountable env => vfsAdddev W devname dev mountable env
  | .addfs devname fs env => vfsAddfs W devname fs env
  | .mount devname mountfunc => vfsMount devname mountfunc
  | .unmount devname fsop => vfsUnmount devname fsop

/-- The call returns, with or without an error. -/
def devStep (s : Vfs) (a : DevOp) (t : Vfs) : Prop := ∃ r, (a.call W).result s = .ok (r, t)

/-- `vfs_bootstrap`, before the first device is added. -/
def noDevices : Vfs :=
  { knowndevs := [], depth := 0, refcount := fun _ => 0, reclaimed := [], curdir := none
    bootfs := none, time := 0 }

/-- The device name, the name of the raw device, and the volume name of the file system. -/
def Knowndev.names (kd : Knowndev) : List Str :=
  kd.name :: (kd.rawname.toList ++ (kd.volname W).toList)

/-- No two devices have a name in common. -/
def UniqueNames (devs : List Knowndev) : Prop :=
  devs.Pairwise fun kd kd' => ∀ n ∈ kd.names W, n ∉ kd'.names W

instance (devs : List Knowndev) : Decidable (UniqueNames W devs) :=
  inferInstanceAs (Decidable (devs.Pairwise fun kd kd' =>
    ∀ n ∈ kd.names W, n ∉ kd'.names W))

/-- The device at which `vfs_getroot` stops. -/
def rootDevice (devs : List Knowndev) (devname : Str) : Option Knowndev :=
  devs.find? fun kd => (kd.root W devname).isSome

/-- The device that `findmount` finds. -/
def mountDevice (devs : List Knowndev) (devname : Str) : Option Knowndev :=
  (findmount devs devname).bind fun i => devs[i]?

/-- Every name belongs to one device, which is found in whatever order the list is searched. -/
structure Unambiguous (devs : List Knowndev) : Prop where
  unique : UniqueNames W devs
  getroot : ∀ devs', devs'.Perm devs → ∀ n, findRoot W devs' n = findRoot W devs n
  rootDevice : ∀ devs', devs'.Perm devs → ∀ n, rootDevice W devs' n = rootDevice W devs n
  mountDevice : ∀ devs', devs'.Perm devs → ∀ n, mountDevice devs' n = mountDevice devs n

/-- A mount that takes effect brings no volume name, or one that no other device has. -/
def BringsFresh (s : Vfs) : DevOp → Prop
  | .mount devname (.ok fs) => ∀ i kd n, findmount s.knowndevs devname = some i →
      s.knowndevs[i]? = some kd → kd.fs = .null → W.fsopGetvolname fs = some n →
        ∀ j kd', s.knowndevs[j]? = some kd' → j ≠ i → n ∉ kd'.names W
  | _ => True

/-! ## Searching in another order -/

section Order

variable {W} {devs devs' : List Knowndev} {n : Str} {kd : Knowndev}

theorem mem_names :
    n ∈ kd.names W ↔ kd.name = n ∨ kd.rawname = some n ∨ kd.volname W = some n := by
  simp [Knowndev.names, eq_comm]

/-- `vfs_getroot` stops at a device for one of its names only. -/
theorem mem_names_of_root {x : Root} (h : kd.root W n = some x) : n ∈ kd.names W := by
  rw [mem_names]
  cases hfs : kd.fs with
  | mounted fs =>
      simp only [Knowndev.root, hfs] at h
      split_ifs at h with hname hraw
      · exact hname.imp_right fun hvol => .inr (by simp [Knowndev.volname, hfs, hvol])
      · exact .inr (.inl hraw)
      · exact .inr (.inl hraw)
  | null =>
      simp only [Knowndev.root, hfs] at h
      split_ifs at h with hmount hname _ hraw <;> simp [*]
  | swap =>
      simp only [Knowndev.root, hfs] at h
      split_ifs at h with hmount hname _ hraw <;> simp [*]

/-- When at most one element has a value, the search order does not matter. -/
theorem findSome_perm {α β : Type} {l l' : List α} {f : α → Option β} (hperm : l'.Perm l)
    (hone : l.Pairwise fun a b => f a = none ∨ f b = none) : l'.findSome? f = l.findSome? f := by
  rw [← List.head?_filterMap, ← List.head?_filterMap]
  have hshort : (l.filterMap f).Pairwise fun _ _ => False := by
    rw [List.pairwise_filterMap]
    refine hone.imp fun {a b} hab x hx y hy => ?_
    rcases hab with h | h
    · exact absurd (hx.symm.trans h) (Option.some_ne_none x)
    · exact absurd (hy.symm.trans h) (Option.some_ne_none y)
  have hp := hperm.filterMap f
  rcases hl : l.filterMap f with _ | ⟨x, _ | ⟨y, l⟩⟩
  · rw [hl] at hp
    rw [hp.eq_nil]
  · rw [hl] at hp
    rw [List.perm_singleton.1 hp]
  · rw [hl] at hshort
    exact absurd (List.rel_of_pairwise_cons hshort List.mem_cons_self) id

/-- A search for one device only depends on the names. -/
theorem find_perm {p : Knowndev → Bool} (hperm : devs'.Perm devs) (hu : UniqueNames W devs)
    (hp : ∀ kd, p kd = true → n ∈ kd.names W) : devs'.find? p = devs.find? p := by
  have e : ∀ l : List Knowndev, l.find? p = l.findSome? fun kd => if p kd then some kd else none := by
    intro l
    induction l with
    | nil => rfl
    | cons kd l ih => by_cases h : p kd <;> simp [h, ih]
  rw [e, e]
  refine findSome_perm hperm (hu.imp fun {a b} hab => ?_)
  by_cases ha : p a = true
  · refine .inr (if_neg fun hb => hab n (hp a ha) (hp b hb))
  · exact .inl (if_neg ha)

theorem mountDevice_eq (devs : List Knowndev) (n : Str) :
    mountDevice devs n = devs.find? fun kd => kd.rawname.isSome && kd.name == n := by
  unfold mountDevice findmount
  induction devs with
  | nil => rfl
  | cons kd devs ih =>
      rw [List.findIdx?_cons, List.find?_cons]
      by_cases h : (kd.rawname.isSome && kd.name == n) = true
      · simp [h]
      · simp only [h]
        rw [← ih]
        cases List.findIdx? (fun kd => kd.rawname.isSome && kd.name == n) devs <;> simp

theorem unambiguous_of_unique (hu : UniqueNames W devs) : Unambiguous W devs where
  unique := hu
  getroot := by
    intro devs' hperm n
    refine findSome_perm hperm (hu.imp fun {a b} hab => ?_)
    cases ha : a.root W n with
    | none => exact .inl rfl
    | some x =>
        cases hb : b.root W n with
        | none => exact .inr rfl
        | some y => exact absurd (mem_names_of_root hb) (hab n (mem_names_of_root ha))
  rootDevice := fun devs' hperm n => find_perm (n := n) hperm hu fun kd h => by
    obtain ⟨x, hx⟩ := Option.isSome_iff_exists.1 h
    exact mem_names_of_root hx
  mountDevice := fun devs' hperm n => by
    rw [mountDevice_eq, mountDevice_eq]
    refine find_perm (n := n) hperm hu fun kd h => ?_
    simp only [Bool.and_eq_true, beq_iff_eq] at h
    simp [Knowndev.names, h.2]

end Order

/-! ## What a call does to the list -/

/-- The device list after a call on the list `devs`. -/
inductive Changes (devs : List Knowndev) : DevOp → List Knowndev → Prop where
  | same (a : DevOp) : Changes devs a devs
  | add (a : DevOp) (kd : Knowndev)
      (h : badnames W devs (some kd.name) kd.rawname (kd.volname W) = false) :
      Changes devs a (devs ++ [kd])
  | mount (devname : Str) (fs : FsRef) (i : Nat) (kd : Knowndev)
      (hi : findmount devs devname = some i) (hkd : devs[i]? = some kd) (hnull : kd.fs = .null) :
      Changes devs (.mount devname (.ok fs)) (setFs devs i (.mounted fs))
  | unmount (a : DevOp) (i : Nat) : Changes devs a (setFs devs i .null)

section Changes

variable {W} {ok : Panic → Prop} {s t : Vfs} {a : DevOp}

/-- Postcondition of the calls: the list has changed as `a` can change it. -/
def ListAfter (W : World) (s : Vfs) (a : DevOp) (_ : Except Errno Unit) (t : Vfs) : Prop :=
  Changes W s.knowndevs a t.knowndevs

variable (hok : ∀ p, ok p)

include hok

theorem wp_unlocked (h : Changes W s.knowndevs a t.knowndevs) :
    wp ok biglockRelease (ListAfter W s a) t := by
  rw [biglockRelease, wp_bind, wp_get, then_ok, wp_ite]
  exact ⟨fun _ => (wp_halt _).2 (hok _), fun _ => wp_set.2 h⟩

theorem wp_failing (e : Errno) : wp ok (failing e) (ListAfter W s a) (locked s) := by
  have hsame : Changes W s.knowndevs a (locked s).knowndevs := .same a
  rw [failing, wp_bind]
  refine wp_mono (wp_unlocked hok hsame) fun r t ht => ?_
  cases r with
  | error e => exact ht
  | ok _ => exact (wp_throw _).2 ht

theorem wp_addKnowndev (kd : Knowndev) (env : AddEnv) :
    wp ok (addKnowndev W kd env) (ListAfter W s a) (locked s) := by
  rw [addKnowndev, wp_bind, wp_get, then_ok, wp_ite]
  refine ⟨fun _ => wp_failing hok _, fun hbad => ?_⟩
  rw [wp_ite]
  refine ⟨fun _ => wp_failing hok _, fun _ => ?_⟩
  rw [wp_bind, wp_set, then_ok]
  have hadd : Changes W s.knowndevs a (s.knowndevs ++ [kd]) := .add a kd (Bool.eq_false_iff.2 hbad)
  refine wp_unlocked hok ?_
  exact hadd

theorem wp_vfsDoadd (dname : Str) (mountable : Bool) (dev : Option DevRef) (fs : KdFs)
    (env : AddEnv) : wp ok (vfsDoadd W dname mountable dev fs env) (ListAfter W s a) s := by
  rw [vfsDoadd, wp_bind, wp_biglockAcquire, then_ok, wp_ite]
  refine ⟨fun _ => wp_failing hok _, fun _ => ?_⟩
  cases env.vnode with
  | none => exact wp_failing hok _
  | some vnode =>
      simp only [wp_ite]
      exact ⟨fun _ => wp_failing hok _, fun _ => wp_addKnowndev hok _ env⟩

theorem wp_vfsMount (devname : Str) (mountfunc : Except ErrCode FsRef) :
    wp ok (vfsMount devname mountfunc) (ListAfter W s (.mount devname mountfunc)) s := by
  rw [vfsMount, wp_bind, wp_biglockAcquire, then_ok, wp_bind, wp_get, then_ok]
  cases hi : findmount (locked s).knowndevs devname with
  | none => exact wp_failing hok _
  | some i =>
      simp only [wp_ite]
      refine ⟨fun _ => wp_failing hok _, fun hnull => ⟨fun _ => (wp_halt _).2 (hok _), fun _ => ?_⟩⟩
      rcases mountfunc with e | fs
      · exact wp_failing hok _
      · obtain ⟨hlt, -⟩ := List.findIdx?_eq_some_iff_getElem.1 hi
        have hkd : s.knowndevs[i]? = some s.knowndevs[i] := List.getElem?_eq_getElem hlt
        have hmount : Changes W s.knowndevs (.mount devname (.ok fs))
            (setFs s.knowndevs i (.mounted fs)) := by
          refine .mount devname fs i _ hi hkd ?_
          by_contra hne
          apply hnull
          show s.knowndevs[i]?.any _ = true
          rw [hkd]
          simpa using hne
        rw [wp_bind, wp_set, then_ok]
        refine wp_unlocked hok ?_
        exact hmount

theorem wp_vfsUnmount (devname : Str) (fsop : Option ErrCode) :
    wp ok (vfsUnmount devname fsop) (ListAfter W s a) s := by
  rw [vfsUnmount, wp_bind, wp_biglockAcquire, then_ok, wp_bind, wp_get, then_ok]
  cases findmount (locked s).knowndevs devname with
  | none => exact wp_failing hok _
  | some i =>
      simp only [wp_ite]
      refine ⟨fun _ => wp_failing hok _, fun _ => ⟨fun _ => (wp_halt _).2 (hok _), fun _ => ?_⟩⟩
      cases fsop with
      | some e => exact wp_failing hok _
      | none =>
          have hunmount : Changes W s.knowndevs a (setFs s.knowndevs i .null) := .unmount a i
          rw [wp_bind, wp_set, then_ok]
          refine wp_unlocked hok ?_
          exact hunmount

end Changes

/-- What a call can do to the device list. -/
theorem changes_of_devStep {s t : Vfs} {a : DevOp} (h : devStep W s a t) :
    Changes W s.knowndevs a t.knowndevs := by
  obtain ⟨r, h⟩ := h
  have hwp : wp (fun _ => True) (a.call W) (ListAfter W s a) s := by
    cases a with
    | adddev devname dev mountable env => exact wp_vfsDoadd (fun _ => trivial) _ _ _ _ env
    | addfs devname fs env => exact wp_vfsDoadd (fun _ => trivial) _ _ _ _ env
    | mount devname mountfunc => exact wp_vfsMount (fun _ => trivial) devname mountfunc
    | unmount devname fsop => exact wp_vfsUnmount (fun _ => trivial) devname fsop
  exact hwp.returns h

/-! ## Names stay unique -/

section Unique

variable {W} {devs : List Knowndev}

/-- `badnames` finds every name that two devices would share. -/
theorem disjoint_of_badnames {kd kd' : Knowndev} (hmem : kd' ∈ devs)
    (h : badnames W devs (some kd.name) kd.rawname (kd.volname W) = false) :
    ∀ n ∈ kd'.names W, n ∉ kd.names W := by
  have hnot := (List.any_eq_false.1 h) kd' hmem
  intro n hn' hn
  apply hnot
  have hsame : ∀ x, x = some n →
      samestring3 x (some kd.name) kd.rawname (kd.volname W) = true := by
    rintro _ rfl
    rcases mem_names.1 hn with e | e | e <;> simp [samestring3, samestring, e]
  rcases mem_names.1 hn' with e | e | e
  · simp [hsame _ (congrArg some e)]
  · simp [hsame _ e]
  · simp [hsame _ e]

theorem UniqueNames.add {kd : Knowndev} (hu : UniqueNames W devs)
    (h : badnames W devs (some kd.name) kd.rawname (kd.volname W) = false) :
    UniqueNames W (devs ++ [kd]) := by
  refine List.pairwise_append.2 ⟨hu, List.pairwise_singleton _ _, fun kd' hmem x hx => ?_⟩
  rw [List.mem_singleton.1 hx]
  exact disjoint_of_badnames hmem h

/-- A new file system on a device keeps the names unique when the names the device then has are
its old ones, or belong to no other device. -/
theorem UniqueNames.setFs {i : Nat} {fs : KdFs} (hu : UniqueNames W devs)
    (hnames : ∀ kd n, devs[i]? = some kd → n ∈ ({ kd with fs := fs } : Knowndev).names W →
      n ∈ kd.names W ∨ ∀ j kd', devs[j]? = some kd' → j ≠ i → n ∉ kd'.names W) :
    UniqueNames W (setFs devs i fs) := by
  unfold UniqueNames at *
  rw [List.pairwise_iff_getElem] at hu ⊢
  intro j k hj hk hlt n hn hn'
  simp only [Path.setFs, List.length_modify] at hj hk
  simp only [Path.setFs, List.getElem_modify] at hn hn'
  have hother : ∀ {l : Nat} (hl : l < devs.length), devs[l]? = some devs[l] :=
    fun hl => List.getElem?_eq_getElem hl
  by_cases hij : i = j
  · subst hij
    rw [if_pos rfl] at hn
    rw [if_neg (by omega)] at hn'
    rcases hnames _ n (hother hj) hn with hold | hfresh
    · exact hu i k hj hk hlt n hold hn'
    · exact hfresh k _ (hother hk) (by omega) hn'
  · rw [if_neg hij] at hn
    by_cases hik : i = k
    · subst hik
      rw [if_pos rfl] at hn'
      rcases hnames _ n (hother hk) hn' with hold | hfresh
      · exact hu j i hj hk hlt n hn hold
      · exact hfresh j _ (hother hj) (by omega) hn
    · rw [if_neg hik] at hn'
      exact hu j k hj hk hlt n hn hn'

/-- The names stay unique in a list that a call has changed. -/
theorem UniqueNames.changes {s : Vfs} {a : DevOp} {devs' : List Knowndev}
    (hu : UniqueNames W s.knowndevs) (hfresh : BringsFresh W s a)
    (h : Changes W s.knowndevs a devs') : UniqueNames W devs' := by
  cases h with
  | same => exact hu
  | add _ kd hbad => exact hu.add hbad
  | mount devname fs i kd hi hkd hnull =>
      refine hu.setFs fun kd' n hkd' hn => ?_
      obtain rfl : kd = kd' := Option.some.inj (hkd.symm.trans hkd')
      rcases mem_names.1 hn with e | e | e
      · exact .inl (mem_names.2 (.inl e))
      · exact .inl (mem_names.2 (.inr (.inl e)))
      · exact .inr (hfresh i kd n hi hkd hnull e)
  | unmount _ i =>
      refine hu.setFs fun kd n hkd hn => .inl ?_
      rcases mem_names.1 hn with e | e | e
      · exact mem_names.2 (.inl e)
      · exact mem_names.2 (.inr (.inl e))
      · cases e

end Unique

/-- In a run whose mounts bring no name that another device has, the names of the devices are
unambiguous in every state. -/
theorem names_unambiguous {s : Vfs} (h : Reach (devStep W) (BringsFresh W) noDevices s) :
    Unambiguous W s.knowndevs := by
  apply unambiguous_of_unique
  refine h.invariant (I := fun s => UniqueNames W s.knowndevs) (fun t a u hu hfresh hst => ?_) ?_
  · exact hu.changes hfresh (changes_of_devStep W hst)
  · exact List.Pairwise.nil

/-! ## A volume with the name of another device -/

/-- Every file system has this volume name. -/
def withVolname (volname : Str) : World where
  vnFs := fun _ _ => none
  vop := fun _ _ => none
  vopGettype := fun _ _ => .ok 0
  vopLookup := fun _ _ _ => .ok 0
  vopLookparent := fun _ _ name => .ok (0, name)
  vopCreat := fun _ _ _ _ _ => .ok 0
  fsopGetroot := fun _ _ => .ok 0
  fsopGetvolname := fun _ => some volname

/-- Enough memory for a new device with the vnode `v`. -/
def addOk (v : VnodeRef) : AddEnv :=
  { name := true, rawname := true, vnode := some v, kd := true, add := true }

/-- Two disks are added, and a file system is mounted on the first. -/
def mountFirst : List DevOp :=
  [.adddev ['l', 'h', 'd', '0'] 0 true (addOk 0), .adddev ['l', 'h', 'd', '1'] 1 true (addOk 1),
    .mount ['l', 'h', 'd', '0'] (.ok 7)]

/-- The state after a call, computed. -/
def execDev (s : Vfs) (a : DevOp) : Option Vfs :=
  match (a.call W).result s with
  | .ok (_, t) => some t
  | .error _ => none

theorem devStep_of_execDev (s : Vfs) (a : DevOp) (t : Vfs) (h : execDev W s a = some t) :
    devStep W s a t := by
  unfold execDev at h
  split at h
  · rename_i r t' hr
    cases h
    exact ⟨r, hr⟩
  · cases h

/-- A mount brings a name that no device has. -/
def bringsFresh (s : Vfs) : DevOp → Bool
  | .mount _ (.ok fs) => s.knowndevs.all fun kd =>
      (W.fsopGetvolname fs).all fun n => !(kd.names W).contains n
  | _ => true

theorem bringsFresh_spec {s : Vfs} {a : DevOp} (h : bringsFresh W s a = true) :
    BringsFresh W s a := by
  cases a with
  | mount devname mountfunc =>
      rcases mountfunc with e | fs
      · trivial
      · intro i kd n _ _ _ hvol j kd' hj _ hn
        have := List.all_eq_true.1 h kd' (List.mem_of_getElem? hj)
        rw [hvol] at this
        simp [hn] at this
  | _ => trivial

theorem names_unambiguous_vol : ∃ s,
    runChecked (execDev (withVolname ['v'])) (bringsFresh (withVolname ['v'])) noDevices
      mountFirst = some s ∧ Unambiguous (withVolname ['v']) s.knowndevs := by
  have hrun : ∃ s, runChecked (execDev (withVolname ['v'])) (bringsFresh (withVolname ['v']))
      noDevices mountFirst = some s := ⟨_, rfl⟩
  obtain ⟨s, hs⟩ := hrun
  refine ⟨s, hs, names_unambiguous _ ?_⟩
  exact reach_of_runChecked (devStep_of_execDev _) (fun _ _ _ h => bringsFresh_spec _ h)
    mountFirst .refl hs

/-- With the volume name `lhd1`, the first disk has a name of the second. -/
theorem names_ambiguous : ¬ ∀ W s, Reach (devStep W) anyStep noDevices s →
    Unambiguous W s.knowndevs := by
  intro h
  have hrun : (runAll (execDev (withVolname ['l', 'h', 'd', '1'])) noDevices mountFirst).any
      (fun s => !decide (UniqueNames (withVolname ['l', 'h', 'd', '1']) s.knowndevs)) = true := by
    decide +kernel
  obtain ⟨s, hs, hbad⟩ := (Option.any_eq_true _ _).1 hrun
  have hu := (h _ s (reach_of_runAll (devStep_of_execDev _) _ .refl hs)).unique
  simp [hu] at hbad

end Os161.Path

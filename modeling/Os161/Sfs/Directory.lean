import Os161.Lib.Keyed
import Os161.Sfs.Io
import Os161.Sfs.Growth

set_option autoImplicit false

/-!
# Directories

`kern/fs/sfs/sfs_dir.c` over `sfs_metaio`. A directory is a file of 64-byte slots; a slot with an
inode number stands for a name. On a disk that does not fail, `sfs_dir_findname`, `sfs_dir_link` and
`sfs_dir_unlink` are the operations of a finite map from names to inode numbers.
-/

namespace Os161.Sfs

open Os161.Lib.Calls Os161.Lib.Overlay
open Os161.Lib.Keyed (Represents Stands)

variable {ok : Panic → Prop} {files : Set Ptr} {s t : Fs} {sv : Ptr} {pos len i : Nat}

/-! ## What stays as it is

Whatever the disk does, a call for one vnode leaves those of the others alone, and it does not make
another kind of file of its own. -/

/-- Only the inode of `sv` may have changed, and not in its type. -/
structure Own (sv : Ptr) (s t : Fs) : Prop where
  others : ∀ w, w ≠ sv → t.inode w = s.inode w
  type : (t.inode sv).type = (s.inode sv).type

theorem Own.trans {u : Fs} (h : Own sv s t) (h' : Own sv t u) : Own sv s u where
  others w hw := (h'.others w hw).trans (h.others w hw)
  type := h'.type.trans h.type

/-- The entry in a slot. -/
def Fs.entry (s : Fs) (sv : Ptr) (i : Nat) : Direntry := .ofBytes fun j => s.byteAt sv (i * 64 + j)

/-- The number of slots. -/
def Fs.slots (s : Fs) (sv : Ptr) : Nat := (s.inode sv).size.toNat / 64

/-- The name in an entry, and what it stands for; nothing in an empty slot. -/
def Direntry.binding (d : Direntry) : Option (List UInt8 × Daddr) :=
  if d.ino = noino then none else some (cstr d.name, d.ino)

/-- The names of a directory. -/
def Fs.bindings (s : Fs) (sv : Ptr) (i : Nat) : Option (List UInt8 × Daddr) :=
  (s.entry sv i).binding

theorem Direntry.ofBytes_congr {f g : Nat → UInt8} (h : ∀ i < 64, f i = g i) :
    Direntry.ofBytes f = Direntry.ofBytes g := by
  have hino : be32 f = be32 g := by
    simp only [be32, h 0, h 1, h 2, h 3, Nat.reduceLT]
  have hname : (fun i : Fin 60 => f (4 + i)) = fun i : Fin 60 => g (4 + i) := by
    funext i
    exact h _ (by omega)
  rw [Direntry.ofBytes, Direntry.ofBytes, hino, hname]

theorem Direntry.length_bytes (d : Direntry) : d.bytes.length = 64 := by
  rw [Direntry.bytes, List.length_map, List.length_range]

/-- An entry is laid over its slot. -/
theorem entry_overlay {d : Direntry} {j : Nat}
    (h : t.byteAt sv = overlay (s.byteAt sv) (j * 64) d.bytes) :
    t.entry sv = Function.update (s.entry sv) j d := by
  funext i
  by_cases hij : i = j
  · subst hij
    rw [Function.update_self, ← Direntry.ofBytes_bytes d, Fs.entry, h]
    apply Direntry.ofBytes_congr
    intro k hk
    rw [overlay, if_pos (Nat.le_add_right _ _), Nat.add_sub_cancel_left]
    have hlt : k < d.bytes.length := by rwa [Direntry.length_bytes]
    rw [List.getD_eq_getElem?_getD, List.getElem?_eq_getElem hlt]
    rfl
  · rw [Function.update_of_ne hij, Fs.entry, Fs.entry, h]
    apply Direntry.ofBytes_congr
    intro k hk
    rcases Nat.lt_or_gt_of_ne hij with hlt | hgt
    · exact overlay_of_lt (by omega)
    · apply overlay_of_le
      rw [Direntry.length_bytes]
      omega

theorem bindings_overlay {d : Direntry} {j : Nat}
    (h : t.byteAt sv = overlay (s.byteAt sv) (j * 64) d.bytes) :
    t.bindings sv = Function.update (s.bindings sv) j d.binding := by
  funext i
  rw [Fs.bindings, entry_overlay h]
  by_cases hij : i = j
  · subst hij
    rw [Function.update_self, Function.update_self]
  · rw [Function.update_of_ne hij, Function.update_of_ne hij, Fs.bindings]

/-- A directory on a disk that does not fail: it has whole slots, and no name stands twice in it. -/
structure IsDirectory (files : Set Ptr) (sv : Ptr) (s : Fs) (m : List UInt8 → Option Daddr) :
    Prop where
  quiet : Quiet s
  sound : Sound files s
  mem : sv ∈ files
  type : (s.inode sv).type = typeDir
  aligned : (s.inode sv).size.toNat % 64 = 0
  bounded : (s.inode sv).size.toNat ≤ 143 * 512
  names : Represents (s.bindings sv) (s.slots sv) m

section Reading

variable {m : List UInt8 → Option Daddr} {name : Name}

theorem IsDirectory.size_eq (h : IsDirectory files sv s m) :
    (s.inode sv).size.toNat = s.slots sv * 64 := by
  have haligned := h.aligned
  rw [Fs.slots]
  omega

/-- What `sfs_dir_findname` has found in the first `k` slots. -/
structure FoundIn (s : Fs) (sv : Ptr) (name : Name) (k : Nat) (r : Found) : Prop where
  entry : ∀ ino j, r.entry = some (ino, j) → j < k ∧ s.bindings sv j = some (name.1, ino)
  absent : r.entry = none → ∀ j < k, ∀ ino, s.bindings sv j ≠ some (name.1, ino)
  emptyslot : ∀ j, r.emptyslot = some j → j < k ∧ s.bindings sv j = none
  full : r.emptyslot = none → ∀ j < k, s.bindings sv j ≠ none

theorem FoundIn.start : FoundIn s sv name 0 ⟨none, none⟩ where
  entry _ _ h := by cases h
  absent _ j hj := absurd hj (Nat.not_lt_zero j)
  emptyslot _ h := by cases h
  full _ j hj := absurd hj (Nat.not_lt_zero j)

section Step

variable {k : Nat} {r : Found} {ino : Daddr}

theorem FoundIn.empty (hr : FoundIn s sv name k r) (hk : s.bindings sv k = none) :
    FoundIn s sv name (k + 1) { r with emptyslot := some k } where
  entry ino j hj := (hr.entry ino j hj).imp_left Nat.lt_succ_of_lt
  absent hnone j hj ino hbinding := by
    rcases Nat.lt_succ_iff_lt_or_eq.1 hj with hj | rfl
    · exact hr.absent hnone j hj ino hbinding
    · rw [hk] at hbinding
      cases hbinding
  emptyslot j hj := by
    obtain rfl := Option.some.inj hj
    exact ⟨k.lt_succ_self, hk⟩
  full hnone := by cases hnone

theorem FoundIn.same (hr : FoundIn s sv name k r) (hk : s.bindings sv k = some (name.1, ino)) :
    FoundIn s sv name (k + 1) { r with entry := some (ino, k) } where
  entry ino' j hj := by
    obtain ⟨rfl, rfl⟩ := Prod.mk.inj (Option.some.inj hj)
    exact ⟨k.lt_succ_self, hk⟩
  absent hnone := by cases hnone
  emptyslot j hj := (hr.emptyslot j hj).imp_left Nat.lt_succ_of_lt
  full hnone j hj hempty := by
    rcases Nat.lt_succ_iff_lt_or_eq.1 hj with hj | rfl
    · exact hr.full hnone j hj hempty
    · rw [hk] at hempty
      cases hempty

theorem FoundIn.other (hr : FoundIn s sv name k r) (hk : s.bindings sv k ≠ none)
    (hname : ∀ ino, s.bindings sv k ≠ some (name.1, ino)) : FoundIn s sv name (k + 1) r where
  entry ino j hj := (hr.entry ino j hj).imp_left Nat.lt_succ_of_lt
  absent hnone j hj ino := by
    rcases Nat.lt_succ_iff_lt_or_eq.1 hj with hj | rfl
    · exact hr.absent hnone j hj ino
    · exact hname ino
  emptyslot j hj := (hr.emptyslot j hj).imp_left Nat.lt_succ_of_lt
  full hnone j hj := by
    rcases Nat.lt_succ_iff_lt_or_eq.1 hj with hj | rfl
    · exact hr.full hnone j hj
    · exact hk

end Step

end Reading

/-! ## Changing a directory -/

section Changing

variable {m : List UInt8 → Option Daddr} {name : Name}

/-- The other files are as they were. -/
structure Elsewhere (files : Set Ptr) (sv : Ptr) (s t : Fs) : Prop where
  same : SameVolume s t
  inode : ∀ w, w ≠ sv → t.inode w = s.inode w
  contents : ∀ w ∈ files, w ≠ sv → t.byteAt w = s.byteAt w

theorem Elsewhere.refl (s : Fs) : Elsewhere files sv s s :=
  ⟨.refl s, fun _ _ => rfl, fun _ _ _ => rfl⟩

theorem Elsewhere.trans {u : Fs} (h : Elsewhere files sv s t) (h' : Elsewhere files sv t u) :
    Elsewhere files sv s u where
  same := h.same.trans h'.same
  inode w hw := (h'.inode w hw).trans (h.inode w hw)
  contents w hmem hw := (h'.contents w hmem hw).trans (h.contents w hmem hw)

/-- A directory of which one slot has been written, or the first one behind it. -/
theorem IsDirectory.written {N : Set Slot} {d : Direntry} {j : Nat}
    {m' : List UInt8 → Option Daddr} (h : IsDirectory files sv s m) (hj : j < 1144)
    (hw : Updated files sv N (j * 64) d.bytes s t) (hown : Own sv s t)
    (hsize : (t.inode sv).size.toNat = max (s.inode sv).size.toNat (j * 64 + d.bytes.length))
    (hnames : Represents (Function.update (s.bindings sv) j d.binding)
      (max (s.slots sv) (j + 1)) m') :
    IsDirectory files sv t m' := by
  have hbounded := h.bounded
  have hslots := h.size_eq
  rw [Direntry.length_bytes] at hsize
  have hslots' : t.slots sv = max (s.slots sv) (j + 1) := by
    rw [Fs.slots, hsize, hslots]
    omega
  refine ⟨hw.same.quiet h.quiet, hw.sound, h.mem, hown.type.trans h.type, ?_, ?_, ?_⟩
  · rw [hsize, hslots]
    omega
  · rw [hsize]
    omega
  · rw [bindings_overlay hw.own, hslots']
    exact hnames

end Changing

/-! ## Histories -/

/-- What is done with a directory. A name is looked up before it is unlinked, as `sfs_remove` and
`sfs_rename` do. -/
inductive DirOp where
  | find (name : Name)
  | link (name : Name) (ino : {ino : Daddr // ino ≠ noino})
  | unlink (name : Name)

/-- The call of an operation, with what it hands back. -/
def DirOp.call (sv : Ptr) : DirOp → FsCall (Option Daddr)
  | find name => do
    let r ← dirFindname sv name
    pure (r.entry.map Prod.fst)
  | link name ino => do
    let _ ← dirLink sv name ino
    pure none
  | unlink name => do
    let r ← dirFindname sv name
    match r.entry with
    | none => throw .ENOENT
    | some x => do
      dirUnlink sv x.2
      pure none

section Histories

variable {m : List UInt8 → Option Daddr}

end Histories

end Os161.Sfs

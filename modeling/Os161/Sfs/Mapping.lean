import Mathlib.Data.Set.Basic
import Os161.Lib.Overlay
import Os161.Sfs.Inode
import Os161.Sfs.Moving

set_option autoImplicit false

/-!
# What the files of a volume consist of

An inode has a slot for every file block and one for the indirect block. A volume is sound when no
two slots of its open files hold the same disk block and every block in a slot is marked in use.
The bytes of a file are those of the blocks in its slots, and zeros where there is none.
-/

namespace Os161.Sfs

open Os161.Lib.Calls Os161.Lib.Overlay

/-! ## Slots -/

/-- A place in an inode that holds a block number: that of a file block, or of the indirect
block. -/
inductive Slot where
  | data (i : Nat)
  | table
  deriving DecidableEq

/-- The disk block of the file block `i`, or `0`. -/
def Fs.mapping (s : Fs) (sv : Ptr) (i : Nat) : Daddr :=
  if h : i < 15 then (s.inode sv).direct ⟨i, h⟩
  else if i < 143 ∧ (s.inode sv).indirect ≠ 0 then (s.disk (s.inode sv).indirect).word (i - 15)
  else 0

/-- The block number in a slot, or `0`. -/
def Fs.slot (s : Fs) (sv : Ptr) : Slot → Daddr
  | .data i => s.mapping sv i
  | .table => (s.inode sv).indirect

section Mapping

variable {s t : Fs} {sv : Ptr} {i : Nat}

theorem mapping_direct (s : Fs) (sv : Ptr) (h : i < 15) :
    s.mapping sv i = (s.inode sv).direct ⟨i, h⟩ := dif_pos h

theorem mapping_indirect (h₁ : 15 ≤ i) (h₂ : i < 143) (h : (s.inode sv).indirect ≠ 0) :
    s.mapping sv i = (s.disk (s.inode sv).indirect).word (i - 15) := by
  rw [Fs.mapping, dif_neg (by omega), if_pos ⟨h₂, h⟩]

/-- The entries of the indirect block. -/
theorem ofBlock_mapping (h : (s.inode sv).indirect ≠ 0) (j : Fin 128) :
    Idbuf.ofBlock (s.disk (s.inode sv).indirect) j = s.mapping sv (15 + j) := by
  rw [mapping_indirect (by omega) (by omega) h, Idbuf.ofBlock, Nat.add_sub_cancel_left]

theorem mapping_no_table (h₁ : 15 ≤ i) (h : (s.inode sv).indirect = 0) : s.mapping sv i = 0 := by
  rw [Fs.mapping, dif_neg (by omega), if_neg (not_and_not_right.2 fun _ => h)]

theorem mapping_beyond (h : 143 ≤ i) : s.mapping sv i = 0 := by
  rw [Fs.mapping, dif_neg (by omega), if_neg fun hi => absurd hi.1 (by omega)]

theorem lt_of_mapping_ne_zero (h : s.mapping sv i ≠ 0) : i < 143 := by
  by_contra hi
  exact h (mapping_beyond (Nat.not_lt.1 hi))

/-- A file has the same mapping when it has the same inode and indirect block. -/
theorem mapping_congr (hdirect : (t.inode sv).direct = (s.inode sv).direct)
    (hindirect : (t.inode sv).indirect = (s.inode sv).indirect)
    (hdisk : (s.inode sv).indirect ≠ 0 →
      t.disk (s.inode sv).indirect = s.disk (s.inode sv).indirect) :
    t.mapping sv i = s.mapping sv i := by
  unfold Fs.mapping
  rw [hdirect, hindirect]
  split_ifs with h h'
  · rfl
  · rw [hdisk h'.2]
  · rfl

theorem slot_congr (hdirect : (t.inode sv).direct = (s.inode sv).direct)
    (hindirect : (t.inode sv).indirect = (s.inode sv).indirect)
    (hdisk : (s.inode sv).indirect ≠ 0 →
      t.disk (s.inode sv).indirect = s.disk (s.inode sv).indirect) (k : Slot) :
    t.slot sv k = s.slot sv k := by
  cases k with
  | data i => exact mapping_congr hdirect hindirect hdisk
  | table => exact hindirect

end Mapping

/-! ## The bytes of a file -/

/-- The byte at the position `p` of a file; a block that is not mapped reads as zeros. -/
def Fs.byteAt (s : Fs) (sv : Ptr) (p : Nat) : UInt8 :=
  if s.mapping sv (p / 512) = 0 then 0 else (s.disk (s.mapping sv (p / 512))).byte (p % 512)

/-! ## What operations on files leave alone -/

/-- The volume, the disk and the table of vnodes are the same; what is on the disk, the bitmap and
the inodes in memory may differ. -/
structure SameVolume (s t : Fs) : Prop where
  dBlocks : t.dBlocks = s.dBlocks
  media : t.media = s.media
  nblocks : t.nblocks = s.nblocks
  nbits : t.freemap.nbits = s.freemap.nbits
  vnodes : t.vnodes = s.vnodes
  refcount : t.refcount = s.refcount
  ino : t.ino = s.ino

theorem SameVolume.refl (s : Fs) : SameVolume s s := ⟨rfl, rfl, rfl, rfl, rfl, rfl, rfl⟩

theorem SameVolume.trans {s t u : Fs} (h : SameVolume s t) (h' : SameVolume t u) :
    SameVolume s u where
  dBlocks := h'.dBlocks.trans h.dBlocks
  media := h'.media.trans h.media
  nblocks := h'.nblocks.trans h.nblocks
  nbits := h'.nbits.trans h.nbits
  vnodes := h'.vnodes.trans h.vnodes
  refcount := h'.refcount.trans h.refcount
  ino := h'.ino.trans h.ino

theorem SameVolume.quiet {s t : Fs} (h : SameVolume s t) (hs : Quiet s) : Quiet t :=
  h.media.trans hs

/-! ## Sound volumes -/

/-- The blocks of some open files are on the volume and marked in use, and no two slots hold the
same block. -/
structure Sound (files : Set Ptr) (s : Fs) : Prop where
  framed : Framed s
  marked : ∀ sv ∈ files, ∀ k, s.slot sv k ≠ 0 → Marked s (s.slot sv k) ∧ s.slot sv k < s.nblocks
  once : ∀ sv ∈ files, ∀ sv' ∈ files, ∀ k k', s.slot sv k ≠ 0 → s.slot sv k = s.slot sv' k' →
    sv = sv' ∧ k = k'

/-! ## A small volume -/

/-- `kmalloc` of a vnode when there is memory. -/
theorem wp_kmallocVnode {ok : Panic → Prop} {s : Fs}
    {Q : Except Errno (Option Ptr) → Fs → Prop} (hm : s.memory = [])
    (hQ : Q (.ok (some (fresh s.vnodes))) s) : wp ok kmallocVnode Q s := by
  have hsame : { s with memory := s.memory.tail } = s := by rw [hm, List.tail_nil, ← hm]
  rw [kmallocVnode, wp_bind, wp_get, then_ok, wp_bind, wp_set, then_ok, hsame, hm]
  exact (wp_pure _).2 hQ

/-- A volume of 64 blocks, of which the first `used` are in use, with one file open at the address
`1`. -/
def smallVolume (used : UInt32) (d : Dinode) (disk : Daddr → Block) : Fs where
  dBlocks := 64
  disk := disk
  media := []
  memory := []
  nblocks := 64
  freemap := { nbits := 4096, isset := fun b => b < used || 64 ≤ b }
  freemapdirty := false
  vnodes := [1]
  refcount := fun _ => 1
  ino := fun _ => 2
  inode := fun _ => d
  dirty := fun _ => false

/-- An inode of a file with one link. -/
def smallInode (size : UInt32) (direct : Fin 15 → Daddr) (indirect : Daddr) : Dinode where
  size := size
  type := typeFile
  linkcount := 1
  direct := direct
  indirect := indirect
  waste := fun _ => 0

section Small

variable {used : UInt32} {d : Dinode} {disk : Daddr → Block}

theorem quiet_smallVolume : Quiet (smallVolume used d disk) := rfl

theorem marked_smallVolume (b : Daddr) :
    Marked (smallVolume used d disk) b ↔ b < used ∨ 64 ≤ b := by
  simp [Marked, smallVolume]

theorem framed_smallVolume (h : 0 < used) : Framed (smallVolume used d disk) where
  onDisk := by simp [smallVolume]
  small := by simp [smallVolume]
  covered := by simp [smallVolume]
  spare b hb _ := (marked_smallVolume b).2 (.inr hb)
  superblock := (marked_smallVolume 0).2 (.inl h)

/-- The volume is sound when the slots of its file hold different blocks that are in use. -/
theorem sound_smallVolume (h : 0 < used) (hused : used ≤ 64)
    (hmarked : ∀ k, (smallVolume used d disk).slot 1 k < used)
    (honce : ∀ k k', (smallVolume used d disk).slot 1 k ≠ 0 →
      (smallVolume used d disk).slot 1 k = (smallVolume used d disk).slot 1 k' → k = k') :
    Sound {1} (smallVolume used d disk) where
  framed := framed_smallVolume h
  marked := by
    rintro sv rfl k -
    exact ⟨(marked_smallVolume _).2 (.inl (hmarked k)), UInt32.lt_of_lt_of_le (hmarked k) hused⟩
  once := by
    rintro sv rfl sv' rfl k k' hk hkk'
    exact ⟨rfl, honce k k' hk hkk'⟩

/-- A file of one block, which is `c`. -/
def oneBlock (c : Block) : Fs :=
  smallVolume 4 (smallInode 512 (fun i => if i = 0 then 3 else 0) 0) fun _ => c

theorem slot_oneBlock {c : Block} (k : Slot) :
    (oneBlock c).slot 1 k = if k = .data 0 then 3 else 0 := by
  rcases k with i | _
  · by_cases hi : i < 15
    · refine (mapping_direct (oneBlock c) 1 hi).trans (if_congr ?_ rfl rfl)
      rw [Slot.data.injEq, Fin.ext_iff]
      rfl
    · refine (mapping_no_table (Nat.not_lt.1 hi) rfl).trans ?_
      rw [if_neg]
      rintro ⟨rfl⟩
      exact hi (by decide)
  · rfl

theorem sound_oneBlock {c : Block} : Sound {1} (oneBlock c) := by
  refine sound_smallVolume (by decide) (by decide) (fun k => ?_) fun k k' hk hkk' => ?_
  · change (oneBlock c).slot 1 k < 4
    rw [slot_oneBlock]
    split_ifs <;> decide
  · change (oneBlock c).slot 1 k ≠ 0 at hk
    change (oneBlock c).slot 1 k = (oneBlock c).slot 1 k' at hkk'
    rw [slot_oneBlock] at hk hkk'
    rw [slot_oneBlock] at hkk'
    split_ifs at hk hkk' with h h'
    · rw [h, h']
    · exact absurd hkk' (by decide)
    · exact absurd rfl hk
    · exact absurd rfl hk

end Small

end Os161.Sfs

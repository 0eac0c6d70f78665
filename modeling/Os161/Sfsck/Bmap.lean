import Os161.Sfs.Growth
import Os161.Sfs.Refusal
import Os161.Sfsck.Blocks

set_option autoImplicit false

/-!
# The block map of the checker and of the kernel

`bmap` and `ibmap` of `userland/sbin/sfsck/sfs.c` with the macros of `ibmacros.h`, for the values of
`kern/sfs.h`, and `diskread` of `userland/sbin/mksfs/disk.c`. The checker is written for any number
of levels of indirect blocks and the kernel for one.

Both find the same disk block, as long as the checker reads the right indirect block: `diskread`
computes the position on the disk in 32 bits, so that block `2 ^ 23` is read where block 0 is.
-/

namespace Os161.Sfsck.Bmap

open Os161.Lib.Calls
open Os161.Sfs (Block Daddr Fs Idbuf Marked Ptr Quiet)

/-! ## The macros -/

/-- `struct sfs_dinode`, as the kernel has it. -/
abbrev Inode : Type := Sfs.Dinode

/-- What stops the checker. -/
inductive Abort where
  /-- `assert(offset < SFS_DBPERIDB)`. -/
  | offset
  /-- An access behind the end of an array. -/
  | outside
  deriving DecidableEq, Repr

/-- `SFS_DBPERIDB`. -/
def dbperidb : UInt32 := 128

/-- `NUM_D`, `NUM_I`, `NUM_II`, `NUM_III`. -/
def numD : UInt32 := 15
def numI : UInt32 := 1
def numII : UInt32 := 0
def numIII : UInt32 := 0

/-- `GET_D`. -/
def getD (sfi : Inode) (i : UInt32) : Except Abort Daddr :=
  if h : i.toNat < 15 then .ok (sfi.direct ⟨i.toNat, h⟩) else .error .outside

/-- `GET_I`: the field is not an array. -/
def getI (sfi : Inode) (_i : UInt32) : Daddr := sfi.indirect

/-- `GET_II` and `GET_III`: there are no such fields. -/
def getII (_sfi : Inode) (_i : UInt32) : Daddr := 0
def getIII (_sfi : Inode) (_i : UInt32) : Daddr := 0

/-- `RANGE_D`, `RANGE_I`, `RANGE_II`, `RANGE_III`. -/
def rangeD : UInt32 := 1
def rangeI : UInt32 := rangeD * dbperidb
def rangeII : UInt32 := rangeI * dbperidb
def rangeIII : UInt32 := rangeII * dbperidb

/-- `INOMAX_D`, `INOMAX_I`, `INOMAX_II`, `INOMAX_III`. -/
def inomaxD : UInt32 := numD
def inomaxI : UInt32 := inomaxD + dbperidb * numI
def inomaxII : UInt32 := inomaxI + dbperidb * numII
def inomaxIII : UInt32 := inomaxII + dbperidb * numIII

/-! ## The block map -/

/-- The sector at the position to which `diskread` seeks. -/
def sector (block : UInt32) : Daddr := block * 512 / 512

/-- `diskread`. -/
def diskread (disk : Daddr → Block) (block : UInt32) : Block := disk (sector block)

/-- `ibmap`; `Idbuf.ofBlock` is `swapindir`. -/
def ibmap (disk : Daddr → Block) (iblock offset entrysize : UInt32) : Except Abort Daddr :=
  if iblock = 0 then .ok 0
  else
    let entries := Idbuf.ofBlock (diskread disk iblock)
    if _hsize : 1 < entrysize then
      if h : (offset / entrysize).toNat < 128 then
        ibmap disk (entries ⟨(offset / entrysize).toNat, h⟩) (offset % entrysize)
          (entrysize / dbperidb)
      else .error .outside
    else if h : offset.toNat < 128 then .ok (entries ⟨offset.toNat, h⟩) else .error .offset
termination_by entrysize.toNat
decreasing_by
  have hlt := UInt32.lt_iff_toNat_lt.1 _hsize
  rw [UInt32.toNat_div]
  exact Nat.div_lt_self (Nat.lt_trans Nat.zero_lt_one hlt) (by decide)

/-- `bmap`. -/
def bmap (disk : Daddr → Block) (sfi : Inode) (fileblock : UInt32) : Except Abort Daddr :=
  if fileblock < inomaxD then getD sfi fileblock
  else if fileblock < inomaxI then
    let iblock := (fileblock - inomaxD) / rangeI
    let offset := (fileblock - inomaxD) % rangeI
    ibmap disk (getI sfi iblock) offset rangeD
  else if fileblock < inomaxII then
    let iblock := (fileblock - inomaxI) / rangeII
    let offset := (fileblock - inomaxI) % rangeII
    ibmap disk (getII sfi iblock) offset rangeI
  else if fileblock < inomaxIII then
    let iblock := (fileblock - inomaxII) / rangeIII
    let offset := (fileblock - inomaxII) % rangeIII
    ibmap disk (getIII sfi iblock) offset rangeII
  else .ok 0

/-! ## The levels of `ibmap` -/

section Levels

variable {disk : Daddr → Block} {b : Daddr} {f offset : UInt32} {sfi : Inode}

theorem toNat_sector (b : UInt32) : (sector b).toNat = b.toNat % 2 ^ 23 := by
  have hb := b.toNat_lt
  have h512 : (512 : UInt32).toNat = 512 := rfl
  rw [sector, UInt32.toNat_div, UInt32.toNat_mul, h512]
  omega

theorem sector_of_lt (h : b.toNat < 2 ^ 23) : sector b = b := by
  rw [← UInt32.toNat_inj, toNat_sector, Nat.mod_eq_of_lt h]

/-- The disk block behind some levels of indirect blocks: the digits of `offset` to the base 128
are the entries on the way. -/
def walk (disk : Daddr → Block) : Nat → Daddr → Nat → Daddr
  | 0, b, _ => b
  | level + 1, b, offset =>
      if b = 0 then 0
      else walk disk level ((diskread disk b).word (offset / 128 ^ level)) (offset % 128 ^ level)

/-- `ibmap` goes down one level after another. -/
theorem ibmap_walk (disk : Daddr → Block) (level : Nat) (hlevel : level ≤ 4) (b : Daddr) (offset : UInt32)
    (h : offset.toNat < 128 ^ (level + 1)) :
    ibmap disk b offset (.ofNat (128 ^ level)) = .ok (walk disk (level + 1) b offset.toNat) := by
  have hpow : ∀ l ≤ 4, (UInt32.ofNat (128 ^ l)).toNat = 128 ^ l := fun l hl =>
    UInt32.toNat_ofNat_of_lt'
      (Nat.lt_of_le_of_lt (Nat.pow_le_pow_right (by decide) hl) (by decide : 128 ^ 4 < 2 ^ 32))
  induction level generalizing b offset with
  | zero =>
      rw [ibmap, walk]
      by_cases hb : b = 0
      · rw [if_pos hb, if_pos hb]
      · have h128 : offset.toNat < 128 := h
        rw [if_neg hb, if_neg hb]
        dsimp only
        rw [dif_neg (by decide), dif_pos h128, walk, Nat.pow_zero, Nat.div_one]
        rfl
  | succ level ih =>
      have hsize := hpow (level + 1) hlevel
      have hquot : (offset / .ofNat (128 ^ (level + 1))).toNat =
          offset.toNat / 128 ^ (level + 1) := by
        rw [UInt32.toNat_div, hsize]
      have hrem : (offset % .ofNat (128 ^ (level + 1))).toNat =
          offset.toNat % 128 ^ (level + 1) := by
        rw [UInt32.toNat_mod, hsize]
      have hnext : UInt32.ofNat (128 ^ (level + 1)) / dbperidb = .ofNat (128 ^ level) := by
        rw [← UInt32.toNat_inj, UInt32.toNat_div, hsize, hpow level (by omega), Nat.pow_succ]
        exact Nat.mul_div_cancel _ (by decide)
      have hone : (1 : UInt32) < .ofNat (128 ^ (level + 1)) := by
        rw [UInt32.lt_iff_toNat_lt, hsize]
        exact Nat.one_lt_pow (Nat.succ_ne_zero level) (by decide)
      have hindex : (offset / .ofNat (128 ^ (level + 1))).toNat < 128 := by
        rw [hquot]
        exact Nat.div_lt_of_lt_mul h
      rw [ibmap, walk]
      by_cases hb : b = 0
      · rw [if_pos hb, if_pos hb]
      · have hoffset : (offset % .ofNat (128 ^ (level + 1))).toNat < 128 ^ (level + 1) := by
          rw [hrem]
          exact Nat.mod_lt _ (Nat.pow_pos (by decide))
        rw [if_neg hb, if_neg hb]
        dsimp only
        rw [dif_pos hone, dif_pos hindex, hnext, ih (by omega) _ _ hoffset, hrem]
        refine congrArg Except.ok ?_
        rw [← hquot]
        rfl

theorem bmap_direct (disk : Daddr → Block) (h : f.toNat < 15) :
    bmap disk sfi f = .ok (sfi.direct ⟨f.toNat, h⟩) := by
  have hlt : f < inomaxD := UInt32.lt_iff_toNat_lt.2 h
  rw [bmap, if_pos hlt, getD, dif_pos h]

/-- The blocks of the one indirect block. -/
theorem bmap_indirect (disk : Daddr → Block) (h : 15 ≤ f.toNat) (h' : f.toNat < 143) :
    bmap disk sfi f = .ok (walk disk 1 sfi.indirect (f.toNat - 15)) := by
  have hge : ¬ f < inomaxD := fun hlt => absurd (UInt32.lt_iff_toNat_lt.1 hlt) (Nat.not_lt.2 h)
  have hlt : f < inomaxI := UInt32.lt_iff_toNat_lt.2 h'
  have hsub : (f - inomaxD).toNat = f.toNat - 15 :=
    UInt32.toNat_sub_of_le _ _ (UInt32.le_iff_toNat_le.2 h)
  have hrem : ((f - inomaxD) % rangeI).toNat = f.toNat - 15 := by
    have h128 : rangeI.toNat = 128 := rfl
    rw [UInt32.toNat_mod, hsub, h128]
    exact Nat.mod_eq_of_lt (by omega)
  have hwalk := ibmap_walk disk 0 (Nat.zero_le 4) sfi.indirect ((f - inomaxD) % rangeI)
    (by rw [hrem]; omega)
  rw [hrem] at hwalk
  rw [bmap, if_neg hge, if_pos hlt]
  exact hwalk

/-- There are no double and triple indirect blocks. -/
theorem bmap_beyond (disk : Daddr → Block) (sfi : Inode) (h : 143 ≤ f.toNat) :
    bmap disk sfi f = .ok 0 := by
  have hD : ¬ f < inomaxD := fun hlt => by
    have hlt' : f.toNat < 15 := UInt32.lt_iff_toNat_lt.1 hlt
    omega
  have hI : ¬ f < inomaxI := fun hlt => absurd (UInt32.lt_iff_toNat_lt.1 hlt) (Nat.not_lt.2 h)
  have hII : ¬ f < inomaxII := fun hlt => absurd (UInt32.lt_iff_toNat_lt.1 hlt) (Nat.not_lt.2 h)
  have hIII : ¬ f < inomaxIII := fun hlt => absurd (UInt32.lt_iff_toNat_lt.1 hlt) (Nat.not_lt.2 h)
  rw [bmap, if_neg hD, if_neg hI, if_neg hII, if_neg hIII]

/-- The block map with which `check_inode_blocks` has been followed is this one, on the disk as
`diskread` reads it. -/
theorem bmap_eq_blocks (disk : Daddr → Block) (sfi : Inode) (f : UInt32) :
    bmap disk sfi f = .ok (Sfsck.bmap (fun b k => (diskread disk b).word k)
      { size := sfi.size, direct := fun i => if h : i < 15 then sfi.direct ⟨i, h⟩ else 0,
        indirect := sfi.indirect } f.toNat) := by
  rw [Sfsck.bmap]
  rcases Nat.lt_or_ge f.toNat Sfsck.numD with hD | hD
  · have h15 : f.toNat < 15 := hD
    rw [bmap_direct disk h15, if_pos hD]
    dsimp only
    rw [dif_pos h15]
  · rw [if_neg (Nat.not_lt.2 hD)]
    rcases Nat.lt_or_ge f.toNat Sfsck.inomaxI with hI | hI
    · have hlt : f.toNat < 143 := hI
      have hmod : (f.toNat - Sfsck.numD) % Sfsck.dbperidb = f.toNat - 15 :=
        Nat.mod_eq_of_lt (show f.toNat - 15 < 128 by omega)
      rw [bmap_indirect disk hD hI, if_pos hI, hmod, Sfsck.ibmap, walk, walk, Nat.pow_zero,
        Nat.div_one]
    · rw [bmap_beyond disk sfi hI, if_neg (Nat.not_lt.2 hI)]

end Levels

/-! ## The two maps -/

/-- The block pointers of a file: where they are not zero, they name blocks of the volume that are
marked in use, and the volume is not longer than the disk. -/
structure Pointers (s : Fs) (sv : Ptr) : Prop where
  onDisk : s.nblocks ≤ s.dBlocks
  table : (s.inode sv).indirect ≠ 0 →
    Marked s (s.inode sv).indirect ∧ (s.inode sv).indirect < s.nblocks
  data : ∀ f, s.mapping sv f ≠ 0 → Marked s (s.mapping sv f) ∧ s.mapping sv f < s.nblocks

/-- Whatever block the kernel finds for reading, the checker finds as well. -/
def SameBlock (s : Fs) (sv : Ptr) (f : UInt32) : Prop :=
  ∀ b t, (Sfs.bmap sv f false).result s = .ok (.ok b, t) → bmap s.disk (s.inode sv) f = .ok b

/-- The checker does not need the indirect block, or reads the right number out of the block that
it takes for it. -/
def ReadsEntry (s : Fs) (sv : Ptr) (f : UInt32) : Prop :=
  f.toNat < 15 ∨ (s.inode sv).indirect = 0 ∨
    (diskread s.disk (s.inode sv).indirect).word (f.toNat - 15) =
      (s.disk (s.inode sv).indirect).word (f.toNat - 15)

section Agreement

variable {s : Fs} {sv : Ptr} {f : UInt32}

/-- Below block `2 ^ 23` the checker reads the block that it asks for. -/
theorem readsEntry_of_lt (h : (s.inode sv).indirect.toNat < 2 ^ 23) : ReadsEntry s sv f := by
  refine .inr (.inr ?_)
  rw [diskread, sector_of_lt h]

/-- The checker's block and the kernel's, by the numbers in the blocks. -/
theorem bmap_eq_mapping (hf : f.toNat < 143) :
    bmap s.disk (s.inode sv) f = .ok (s.mapping sv f.toNat) ↔ ReadsEntry s sv f := by
  rcases Nat.lt_or_ge f.toNat 15 with hD | hD
  · rw [bmap_direct _ hD, Sfs.mapping_direct s sv hD]
    exact iff_of_true rfl (.inl hD)
  · rw [bmap_indirect _ hD hf, walk, walk, Nat.pow_zero, Nat.div_one]
    by_cases hzero : (s.inode sv).indirect = 0
    · rw [if_pos hzero, Sfs.mapping_no_table hD hzero]
      exact iff_of_true rfl (.inr (.inl hzero))
    · rw [if_neg hzero, Sfs.mapping_indirect hD hf hzero, Except.ok.injEq, ReadsEntry,
        or_iff_right (Nat.not_lt.2 hD), or_iff_right hzero]

/-- On a disk without errors the kernel returns what is in the inode and the indirect block. -/
theorem kernel_bmap (hp : Pointers s sv) (hq : Quiet s) (hf : f.toNat < 143) :
    (Sfs.bmap sv f false).result s = .ok (.ok (s.mapping sv f.toNat), s) := by
  have hwp : wp (fun _ => False) (Sfs.bmap sv f false)
      (fun r t => r = .ok (s.mapping sv f.toNat) ∧ t = s) s := by
    refine Sfs.wp_bmap_find hq (fun hne => UInt32.lt_of_lt_of_le (hp.table hne).2 hp.onDisk)
      (hp.data f.toNat) (fun hbig => ?_) fun _ => ⟨rfl, rfl⟩
    omega
  obtain ⟨r, t, hrun, rfl, rfl⟩ := hwp.exists_result
  exact hrun

/-- With disk errors it returns the same, or an error. -/
theorem kernel_bmap_block (hp : Pointers s sv) {b : Daddr} {t : Fs}
    (h : (Sfs.bmap sv f false).result s = .ok (.ok b, t)) : b = s.mapping sv f.toNat := by
  have hback : ∀ m, wp (fun _ => True) (Sfs.handBack (s.mapping sv f.toNat))
      (fun r _ => ∀ b, r = .ok b → b = s.mapping sv f.toNat) (s.rest m) := fun m =>
    Sfs.wp_handBack (hp.data f.toNat) fun b hb => (Except.ok.inj hb).symm
  have hwp : wp (fun _ => True) (Sfs.bmap sv f false)
      (fun r _ => ∀ b, r = .ok b → b = s.mapping sv f.toNat) s := by
    refine Sfs.wp_bmap_places (fun _ b hb => nomatch hb) (fun _ => ?_)
      (fun _ _ b hb => (Except.ok.inj hb).symm) fun hge hlt hne => ?_
    · exact hback s.media
    · refine Sfs.wp_readblock trivial (fun m e _ _ b hb => nomatch hb) fun m _ => ?_
      rw [then_ok, Sfs.entry_mapping hge hlt hne]
      exact hback m
  exact hwp.returns h b rfl

theorem sameBlock_of_readsEntry (hp : Pointers s sv) (hf : f.toNat < 143)
    (h : ReadsEntry s sv f) : SameBlock s sv f := by
  intro b t hrun
  rw [kernel_bmap_block hp hrun]
  exact (bmap_eq_mapping hf).2 h

theorem sameBlock_iff (hp : Pointers s sv) (hq : Quiet s) (hf : f.toNat < 143) :
    SameBlock s sv f ↔ ReadsEntry s sv f := by
  refine ⟨fun h => ?_, sameBlock_of_readsEntry hp hf⟩
  exact (bmap_eq_mapping hf).1 (h _ _ (kernel_bmap hp hq hf))

end Agreement

/-- Past file block 142 the kernel refuses and the checker finds nothing. Before, the kernel returns
a block unless the disk fails, and the checker finds the same one exactly when it reads the right
entry. -/
theorem bmap_agrees (s : Fs) (sv : Ptr) (f : UInt32) (hp : Pointers s sv) :
    (143 ≤ f.toNat → (Sfs.bmap sv f false).result s = .ok (.error .EFBIG, s) ∧
      bmap s.disk (s.inode sv) f = .ok 0) ∧
    (f.toNat < 143 → (ReadsEntry s sv f → SameBlock s sv f) ∧
      (Quiet s → (∃ b, (Sfs.bmap sv f false).result s = .ok (.ok b, s)) ∧
        (SameBlock s sv f ↔ ReadsEntry s sv f))) := by
  refine ⟨fun hbig => ⟨?_, bmap_beyond _ _ hbig⟩, fun hf =>
    ⟨sameBlock_of_readsEntry hp hf, fun hq => ⟨⟨_, kernel_bmap hp hq hf⟩, sameBlock_iff hp hq hf⟩⟩⟩
  have hwp : wp (fun _ => False) (Sfs.bmap sv f false)
      (fun r t => r = .error .EFBIG ∧ t = s) s := Sfs.wp_bmap_big hbig ⟨rfl, rfl⟩
  obtain ⟨r, t, hrun, rfl, rfl⟩ := hwp.exists_result
  exact hrun

/-- A volume of `2 ^ 24` blocks with one file, whose indirect block is `table` and full of the
number 7. -/
def oneTable (table : Daddr) : Fs where
  dBlocks := 16777216
  disk := fun b => if b = table then .ofWords fun _ => 7 else .zero
  media := []
  memory := []
  nblocks := 16777216
  freemap := { nbits := 16777216, isset := fun _ => true }
  freemapdirty := false
  vnodes := [1]
  refcount := fun _ => 1
  ino := fun _ => 2
  inode := fun _ =>
    { size := 0, type := Sfs.typeFile, linkcount := 1, direct := fun _ => 0, indirect := table
      waste := fun _ => 0 }
  dirty := fun _ => false

theorem mapping_oneTable {table : Daddr} {f : Nat} (hD : 15 ≤ f) (hf : f < 143)
    (hzero : table ≠ 0) : (oneTable table).mapping 1 f = 7 := by
  have hword : ((oneTable table).disk table).word (f - 15) = 7 := by
    rw [oneTable]
    dsimp only
    rw [if_pos rfl, Sfs.Block.word_ofWords _ (by omega)]
  rw [Sfs.mapping_indirect hD hf hzero]
  exact hword

theorem pointers_oneTable {table : Daddr} (h : table < 16777216) : Pointers (oneTable table) 1 := by
  refine ⟨UInt32.le_refl _, fun _ => ⟨rfl, h⟩, fun f hf => ⟨rfl, ?_⟩⟩
  have hlt := Sfs.lt_of_mapping_ne_zero hf
  rcases Nat.lt_or_ge f 15 with hD | hD
  · rw [Sfs.mapping_direct _ _ hD] at hf
    exact absurd rfl hf
  · by_cases hzero : table = 0
    · rw [Sfs.mapping_no_table hD hzero] at hf
      exact absurd rfl hf
    · rw [mapping_oneTable hD hlt hzero]
      show (7 : UInt32) < 16777216
      decide

theorem bmap_agrees_oneTable : SameBlock (oneTable 6) 1 20 :=
  (((bmap_agrees (oneTable 6) 1 20 (pointers_oneTable (by decide))).2 (by decide)).2 rfl).2.2
    (readsEntry_of_lt (by decide))

/-- With the indirect block at `2 ^ 23 + 6` the checker reads block 6. -/
theorem bmap_differs : Pointers (oneTable 8388614) 1 ∧
    (∃ t, (Sfs.bmap 1 20 false).result (oneTable 8388614) = .ok (.ok 7, t)) ∧
      bmap (oneTable 8388614).disk ((oneTable 8388614).inode 1) 20 = .ok 0 := by
  have hp : Pointers (oneTable 8388614) 1 := pointers_oneTable (by decide)
  refine ⟨hp, ⟨oneTable 8388614, ?_⟩, ?_⟩
  · rw [kernel_bmap hp rfl (by decide), mapping_oneTable (by decide) (by decide) (by decide)]
  · have hsector : sector ((oneTable 8388614).inode 1).indirect = 6 := by decide
    have hne6 : ¬ (6 : UInt32) = 8388614 := by decide
    have hblock : (oneTable 8388614).disk 6 = .zero := by
      rw [oneTable]
      dsimp only
      rw [if_neg hne6]
    have hne : ((oneTable 8388614).inode 1).indirect ≠ 0 := by
      show (8388614 : UInt32) ≠ 0
      decide
    rw [bmap_indirect _ (by decide) (by decide), walk, if_neg hne, walk, diskread, hsector, hblock,
      Sfs.Block.word_zero]

end Os161.Sfsck.Bmap

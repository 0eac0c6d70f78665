import Os161.Sfs.ByteArrays

set_option autoImplicit false

/-!
# Mounting a volume, and where its blocks are on the disk

`sfs_domount` of `kern/fs/sfs/sfs_fsops.c`, and the offsets that the two ways to a block of a file
hand to the device: `sfs_blockio` multiplies the block number in 32 bits, `SFSUIO` in 64 bits.
-/

namespace Os161.Sfs

open Os161.Lib.Calls

/-! ## Mounting -/

/-- `kmalloc` of something that is not looked into here. -/
def allocate : FsCall Unit := do
  match ← kmallocVnode with
  | none => throw .ENOMEM
  | some _ => pure ()

/-- `sfs_fs_create`. -/
def fsCreate : FsCall Unit := do
  allocate
  allocate
  modify fun s => { s with vnodes := [], freemapdirty := false }

/-- `bitmap_create`; the number of bits is a multiple of the word size here. -/
def bitmapCreate (nbits : UInt32) : FsCall Unit := do
  allocate
  allocate
  modify fun s => { s with freemap := { nbits := nbits, isset := fun _ => false } }

/-- One block of `sfs_freemapio` for reading. -/
def readFreemap (j : Nat) : FsCall Unit := do
  let data ← readblock (freemapStart + .ofNat j)
  modify fun s => { s with freemap := { s.freemap with
    isset := fun b =>
      if b.toNat / 4096 = j then data.bit (b.toNat % 4096) else s.freemap.isset b } }

/-- `sfs_domount`, on a device whose sectors have 512 bytes; a volume that is larger than the device
only causes a warning. -/
def domount : FsCall Unit := do
  fsCreate
  let sb ← readblock superBlock
  if sb.word 0 ≠ magic then throw .EINVAL
  else do
    modify fun s => { s with nblocks := sb.word 1 }
    bitmapCreate (freemapbits (sb.word 1))
    forEach (List.range (freemapblocks (sb.word 1)).toNat) readFreemap

variable {ok : Panic → Prop} {s t : Fs} {sv : Ptr} {i : Nat} {b : Daddr}

/-- The first `k` blocks of the bitmap on a disk. -/
def Fs.bitsOnDisk (s : Fs) (k : Nat) (b : UInt32) : Bool :=
  decide (b.toNat / 4096 < k) &&
    (s.disk (freemapStart + .ofNat (b.toNat / 4096))).bit (b.toNat % 4096)

/-- The volume on a disk, with this bitmap. -/
def Fs.mounted (s : Fs) (isset : UInt32 → Bool) : Fs :=
  { s with
    vnodes := []
    freemapdirty := false
    nblocks := (s.disk superBlock).word 1
    freemap := { nbits := freemapbits ((s.disk superBlock).word 1), isset := isset } }

theorem wp_allocate {Q : Except Errno Unit → Fs → Prop} (hm : s.memory = []) (hQ : Q (.ok ()) s) :
    wp ok allocate Q s := by
  rw [allocate, wp_bind]
  refine wp_kmallocVnode hm ?_
  rw [then_ok]
  exact (wp_pure _).2 hQ

theorem bitsOnDisk_zero : s.bitsOnDisk 0 = fun _ => false := by
  funext b
  simp [Fs.bitsOnDisk]

theorem decide_lt_succ_and (f : Nat → Bool) (m k : Nat) :
    (if m = k then f k else decide (m < k) && f m) = (decide (m < k + 1) && f m) := by
  by_cases h : m = k
  · rw [if_pos h, h]
    simp
  · have hlt : m < k ↔ m < k + 1 := by omega
    rw [if_neg h, decide_eq_decide.2 hlt]

/-- One more block. -/
theorem bitsOnDisk_succ (k : Nat) : (fun b : UInt32 => if b.toNat / 4096 = k then
    (s.disk (freemapStart + .ofNat k)).bit (b.toNat % 4096) else s.bitsOnDisk k b) =
      s.bitsOnDisk (k + 1) := by
  funext b
  exact decide_lt_succ_and
    (fun j => (s.disk (freemapStart + .ofNat j)).bit (b.toNat % 4096)) (b.toNat / 4096) k

theorem mounted_disk (f : UInt32 → Bool) : (s.mounted f).disk = s.disk := by
  rw [Fs.mounted]

theorem mounted_dBlocks (f : UInt32 → Bool) : (s.mounted f).dBlocks = s.dBlocks := by
  rw [Fs.mounted]

theorem mounted_isset (f : UInt32 → Bool) : (s.mounted f).freemap.isset = f := by
  rw [Fs.mounted]

theorem mounted_mounted (f g : UInt32 → Bool) :
    { s.mounted f with freemap := { (s.mounted f).freemap with isset := g } } = s.mounted g := by
  rw [Fs.mounted, Fs.mounted]

theorem Quiet.mounted {f : UInt32 → Bool} (hq : Quiet s) : Quiet (s.mounted f) := by
  have hmedia : (s.mounted f).media = s.media := by rw [Fs.mounted]
  rw [Quiet, hmedia]
  exact hq

/-- One block of the bitmap is read. -/
theorem wp_readFreemap {k : Nat} (hq : Quiet s) (hdisk : freemapStart + .ofNat k < s.dBlocks) :
    wp ok (readFreemap k) (fun r t => r = .ok () ∧ t = s.mounted (s.bitsOnDisk (k + 1)))
      (s.mounted (s.bitsOnDisk k)) := by
  have hdev : freemapStart + .ofNat k < (s.mounted (s.bitsOnDisk k)).dBlocks := by
    rw [mounted_dBlocks]
    exact hdisk
  rw [readFreemap, wp_bind]
  refine wp_readblock_of hq.mounted (.inr hdev) ?_
  rw [then_ok, wp_modify, mounted_mounted, mounted_disk, mounted_isset, bitsOnDisk_succ]
  exact ⟨rfl, rfl⟩

/-- A disk with the magic number of a volume, large enough for its bitmap, can be mounted. -/
theorem wp_domount (hq : Quiet s) (hm : s.memory = [])
    (hmagic : (s.disk superBlock).word 0 = magic)
    (hdisk : ∀ j < (freemapblocks ((s.disk superBlock).word 1)).toNat,
      freemapStart + .ofNat j < s.dBlocks) (hsuper : superBlock < s.dBlocks) :
    wp ok domount (fun r t => r = .ok () ∧
      t = s.mounted (s.bitsOnDisk (freemapblocks ((s.disk superBlock).word 1)).toNat)) s := by
  obtain ⟨n, hn⟩ : ∃ n, n = (freemapblocks ((s.disk superBlock).word 1)).toNat := ⟨_, rfl⟩
  rw [← hn] at hdisk ⊢
  -- the loop over the blocks of the bitmap
  have hloop : wp ok (forEach (List.range n) readFreemap)
      (fun r t => r = .ok () ∧ t = s.mounted (s.bitsOnDisk n)) (s.mounted (s.bitsOnDisk 0)) := by
    rw [List.range_eq_range']
    refine wp_forEach (fun is t => ∃ k, is = List.range' k is.length ∧ k + is.length = n ∧
      t = s.mounted (s.bitsOnDisk k)) (fun j is t h => ?_) (fun t h => ?_)
      ⟨0, by rw [List.length_range'], by rw [List.length_range', Nat.zero_add], rfl⟩
    · obtain ⟨k, his, hk, rfl⟩ := h
      rw [List.length_cons, List.range'_succ] at his
      obtain ⟨rfl, his⟩ := List.cons.inj his
      rw [List.length_cons] at hk
      refine wp_mono (wp_readFreemap hq (hdisk j (by omega))) fun r t ⟨hr, ht⟩ => ?_
      rw [hr]
      exact ⟨j + 1, his, by omega, ht⟩
    · obtain ⟨k, -, hk, rfl⟩ := h
      rw [List.length_nil, Nat.add_zero] at hk
      exact ⟨rfl, hk ▸ rfl⟩
  rw [bitsOnDisk_zero] at hloop
  rw [domount, wp_bind, fsCreate, wp_bind]
  refine wp_allocate hm ?_
  rw [then_ok, wp_bind]
  refine wp_allocate hm ?_
  rw [then_ok, wp_modify, then_ok, wp_bind]
  refine wp_readblock_of (s := { s with vnodes := [], freemapdirty := false }) hq (.inr hsuper) ?_
  rw [then_ok, if_neg (not_not.2 hmagic), wp_bind, wp_modify, then_ok, wp_bind, bitmapCreate,
    wp_bind]
  refine wp_allocate hm ?_
  rw [then_ok, wp_bind]
  refine wp_allocate hm ?_
  rw [then_ok, wp_modify, then_ok]
  rw [← hn]
  exact hloop

/-! ## One block on two paths -/

/-- The offset on the disk that `sfs_blockio` hands to the device. -/
def blockioOffset (diskblock : Daddr) : Nat := (diskblock * 512).toNat

/-- The two paths to a block, and the exact product, are one offset. -/
def SameOffset (b : Daddr) : Prop :=
  blockioOffset b = b.toNat * 512 ∧ ∀ iov rw, (sfsuio iov b rw).offset = b.toNat * 512

/-- The file block `i` is the block `b`, which is in use, as `sfs_bmap` finds out. -/
structure MapsTo (s : Fs) (sv : Ptr) (i : Nat) (b : Daddr) : Prop where
  mapping : s.mapping sv i = b
  ne_zero : b ≠ 0
  marked : Marked s b
  onVolume : b < s.nblocks
  onDisk : b < s.dBlocks
  table : 15 ≤ i → (s.inode sv).indirect < s.dBlocks ∧ (s.inode sv).indirect ≠ b

/-- A whole block of a file is written, and the block is read back. -/
def blockioThenRead (sv : Ptr) (i : Nat) (b : Daddr) (data : Block) : FsCall Block := do
  let _ ← withLocal (writeUio (i * 512) data.bytes) (blockio sv)
  readblock b

/-- A block is written, and read back as a whole block of a file. -/
def writeThenBlockio (sv : Ptr) (i : Nat) (b : Daddr) (data : Block) : FsCall Block := do
  writeblock b data
  let (_, u) ← withLocal (readUio (i * 512) 512) (blockio sv)
  pure (.ofList u.out)

/-- Data written by one path is read back by the other. -/
def SameData (s : Fs) (sv : Ptr) (i : Nat) (b : Daddr) : Prop :=
  ∀ data, (∃ t, (blockioThenRead sv i b data).result s = .ok (.ok data, t)) ∧
    ∃ t, (writeThenBlockio sv i b data).result s = .ok (.ok data, t)

/-- The sector that `sfs_blockio` uses for a block. -/
def blockioSector (b : Daddr) : Daddr := .ofNat (b.toNat % 2 ^ 23)

theorem toNat_blockioSector (b : Daddr) : (blockioSector b).toNat = b.toNat % 2 ^ 23 := by
  rw [blockioSector, UInt32.toNat_ofNat']
  omega

theorem blockioOffset_eq (b : Daddr) : blockioOffset b = (blockioSector b).toNat * 512 := by
  rw [blockioOffset, toNat_blockioSector, UInt32.toNat_mul, show (512 : UInt32).toNat = 512 from rfl]
  omega

theorem blockioSector_eq_iff : blockioSector b = b ↔ b.toNat < 2 ^ 23 := by
  rw [← UInt32.toNat_inj, toNat_blockioSector]
  omega

theorem sameOffset_iff : SameOffset b ↔ b.toNat < 2 ^ 23 := by
  have hprod : blockioOffset b = b.toNat * 512 ↔ b.toNat < 2 ^ 23 := by
    rw [blockioOffset_eq, toNat_blockioSector]
    omega
  rw [SameOffset, hprod, and_iff_left_iff_imp]
  intro _ iov rw
  rfl

theorem blockioSector_lt (hb : b < s.dBlocks) : blockioSector b < s.dBlocks := by
  have hlt := UInt32.lt_iff_toNat_lt.1 hb
  rw [UInt32.lt_iff_toNat_lt, toNat_blockioSector]
  omega

theorem MapsTo.lt (h : MapsTo s sv i b) : i < 143 := by
  have hne : s.mapping sv i ≠ 0 := by
    rw [h.mapping]
    exact h.ne_zero
  exact lt_of_mapping_ne_zero hne

/-- `sfs_bmap` finds the block. -/
theorem wp_bmap_mapped {f : UInt32} {doalloc : Bool} {Q : Except Errno Daddr → Fs → Prop}
    (hq : Quiet s) (h : MapsTo s sv f.toNat b) (hQ : Q (.ok b) s) :
    wp ok (bmap sv f doalloc) Q s := by
  have hlt := h.lt
  have hback : wp ok (handBack b) Q s := wp_handBack (fun _ => ⟨h.marked, h.onVolume⟩) hQ
  rw [bmap, wp_bind, wp_get, then_ok, wp_dite]
  refine ⟨fun hdirect => ?_, fun hdirect => ?_⟩
  · rw [← mapping_direct s sv hdirect, h.mapping]
    simp only [h.ne_zero, false_and, if_false]
    exact hback
  · have hge : 15 ≤ f.toNat := by omega
    have hne : (s.inode sv).indirect ≠ 0 := fun hzero =>
      h.ne_zero (h.mapping.symm.trans (mapping_no_table hge hzero))
    rw [if_neg (by omega), if_neg fun hnone => hne hnone.1, if_neg hne, wp_bind]
    refine wp_readblock_of hq (.inr (h.table hge).1) ?_
    rw [then_ok, wp_bind, wp_pure, then_ok]
    have hentry := (entry_mapping hge hlt hne).trans h.mapping
    dsimp only
    rw [if_neg fun hnone => h.ne_zero (hentry.symm.trans hnone.1), hentry]
    exact hback

/-- `sfs_blockio` moves the sector that the 32-bit product leads to. -/
theorem wp_blockio_mapped {u : Uio} {l : List UInt8} {Q : Except Errno Unit → Fs × Uio → Prop}
    (hq : Quiet s) (h : MapsTo s sv i b) (hl : u.Holds l) (hlen : 512 ≤ l.length)
    (hres : 512 ≤ u.resid.toNat) (hoff : u.offset = i * 512)
    (hQ : ∀ v, v.out = (if u.rw = .read then u.out ++ (s.disk (blockioSector b)).bytes else u.out) →
      Q (.ok ()) (s.afterSector (blockioSector b) u l, v)) :
    wp ok (blockio sv) Q (s, u) := by
  have hlt := h.lt
  have hfile : (UInt32.ofNat (u.offset / 512)).toNat = i := by
    rw [hoff, UInt32.toNat_ofNat']
    omega
  have hsmall : ¬ u.resid < 512 := UInt32.not_lt.2 (UInt32.le_iff_toNat_le.2 hres)
  have hsector : Uio.OneSector { u with offset := (b * 512).toNat, resid := 512 }
      (blockioSector b) l := ⟨hl, hlen, blockioOffset_eq b, rfl⟩
  rw [blockio, wp_bind, wp_get, then_ok]
  dsimp only
  rw [wp_bind, wp_framed]
  refine wp_bmap_mapped hq (b := b) (by rwa [hfile]) ?_
  rw [then_ok, if_neg h.ne_zero, if_neg hsmall, wp_bind, wp_onLocal, wp_modify, then_ok, wp_bind,
    wp_catching]
  refine wp_rwblock hq (blockioSector_lt h.onDisk) hsector fun v hv => ?_
  rw [then_ok, wp_bind, wp_onLocal, wp_modify, then_ok]
  refine (wp_pure _).2 (hQ _ ?_)
  have hout := hv.out
  rw [List.take_of_length_le (length_bytes _).le] at hout
  exact hout

/-! ## Data written by one path and read back by the other -/

/-- `sfs_blockio` writes a sector, and `sfs_readblock` finds its own. -/
theorem wp_blockioThenRead {data : Block} (hq : Quiet s) (h : MapsTo s sv i b) :
    wp ok (blockioThenRead sv i b data)
      (fun r _ => r = .ok ((s.write (blockioSector b) data).disk b)) s := by
  have hl : (writeUio (i * 512) data.bytes).Holds data.bytes := by
    simp [Uio.Holds, writeUio]
  have hres : 512 ≤ (UInt32.ofNat data.bytes.length).toNat := by
    rw [length_bytes]
    decide
  have hafter : s.afterSector (blockioSector b) (writeUio (i * 512) data.bytes) data.bytes =
      s.write (blockioSector b) data := by
    rw [Fs.afterSector, List.take_of_length_le (length_bytes data).le, Block.ofList_bytes]
    exact if_pos rfl
  have hq' : Quiet (s.write (blockioSector b) data) := hq
  rw [blockioThenRead, wp_bind, wp_withLocal]
  refine wp_blockio_mapped hq h hl (length_bytes data).ge hres rfl fun v _ => ?_
  rw [hafter]
  exact wp_readblock_of hq' (.inr h.onDisk) rfl

/-- Writing the block leaves it where it is. -/
theorem MapsTo.write {data : Block} (h : MapsTo s sv i b) : MapsTo (s.write b data) sv i b := by
  have hmapping : (s.write b data).mapping sv i = s.mapping sv i := by
    rcases Nat.lt_or_ge i 15 with hi | hi
    · exact (mapping_direct (s.write b data) sv hi).trans (mapping_direct s sv hi).symm
    · exact mapping_congr rfl rfl fun _ => Function.update_of_ne (h.table hi).2 _ _
  exact { h with mapping := hmapping.trans h.mapping }

/-- `sfs_writeblock` writes its own sector, and `sfs_blockio` reads another one. -/
theorem wp_writeThenBlockio {data : Block} (hq : Quiet s) (h : MapsTo s sv i b) :
    wp ok (writeThenBlockio sv i b data)
      (fun r _ => r = .ok ((s.write b data).disk (blockioSector b))) s := by
  have hq' : Quiet (s.write b data) := hq
  obtain ⟨u, hu⟩ : ∃ u, u = readUio (i * 512) 512 := ⟨_, rfl⟩
  have hl : u.Holds (List.replicate 512 0) := by
    rw [hu, Uio.Holds, readUio, List.map_replicate]
    exact List.append_nil _
  have hres : 512 ≤ u.resid.toNat := by
    have hresid : u.resid = 512 := by rw [hu, readUio]; rfl
    rw [hresid]
    decide
  have hread : u.rw = .read := by rw [hu, readUio]
  have hempty : u.out = [] := by rw [hu, readUio]
  have hoff : u.offset = i * 512 := by rw [hu, readUio]
  rw [writeThenBlockio, wp_bind]
  refine wp_writeblock_of hq (.inr h.onDisk) ?_
  rw [then_ok, wp_bind, wp_withLocal, ← hu]
  refine wp_blockio_mapped hq' h.write hl List.length_replicate.ge hres hoff fun v hv => ?_
  rw [if_pos hread, hempty, List.nil_append] at hv
  change wp ok (pure (Block.ofList v.out)) _ _
  rw [wp_pure, hv, Block.ofList_bytes]

/-- A block that differs from another one. -/
theorem exists_block_ne (c : Block) : ∃ data : Block, data ≠ c :=
  ⟨fun i => c i + 1, fun h => by
    have hself : c 0 + 1 = c 0 := congrFun h 0
    simp at hself⟩

theorem sameData_iff (hq : Quiet s) (h : MapsTo s sv i b) :
    SameData s sv i b ↔ b.toNat < 2 ^ 23 := by
  rw [← blockioSector_eq_iff]
  constructor
  · intro hsame
    by_contra hne
    obtain ⟨data, hdata⟩ := exists_block_ne (s.disk b)
    obtain ⟨⟨t, ht⟩, -⟩ := hsame data
    have hrun : wp (fun _ => True) (blockioThenRead sv i b data) _ s := wp_blockioThenRead hq h
    have hread : (s.write (blockioSector b) data).disk b = s.disk b :=
      Function.update_of_ne (Ne.symm hne) _ _
    have hback := hrun.returns ht
    rw [hread] at hback
    exact hdata (Except.ok.inj hback)
  · intro heq data
    have hself : (s.write b data).disk b = data := Function.update_self ..
    have hwrite : wp (fun _ => False) (blockioThenRead sv i b data) _ s := wp_blockioThenRead hq h
    have hread : wp (fun _ => False) (writeThenBlockio sv i b data) _ s := wp_writeThenBlockio hq h
    obtain ⟨r, t, ht, rfl⟩ := hwrite.exists_result
    obtain ⟨r', t', ht', rfl⟩ := hread.exists_result
    rw [heq, hself] at ht ht'
    exact ⟨⟨t, ht⟩, t', ht'⟩

/-- Both paths lead to the same place when the number of the block is below `2 ^ 23`, and only
then. -/
theorem blockio_samePlace_iff (b : Daddr) : (SameOffset b ↔ b.toNat < 2 ^ 23) ∧
    ∀ s sv i, Quiet s → MapsTo s sv i b → (SameData s sv i b ↔ b.toNat < 2 ^ 23) :=
  ⟨sameOffset_iff, fun _ _ _ => sameData_iff⟩

/-- A block of an ordinary volume. -/
theorem blockio_samePlace_small : SameOffset 3 ∧ SameData (oneBlock .zero) 1 0 3 := by
  obtain ⟨hoffset, hdata⟩ := blockio_samePlace_iff 3
  refine ⟨hoffset.2 (by decide), (hdata (oneBlock .zero) 1 0 quiet_smallVolume ?_).2 (by decide)⟩
  exact ⟨slot_oneBlock (.data 0), by decide, (marked_smallVolume 3).2 (.inl (by decide)), by decide,
    by decide, fun h => absurd h (by decide)⟩

/-! ### A volume of four gigabytes -/

local instance neZeroFifteen : NeZero 15 := ⟨by decide⟩

/-- A file whose first block has the number `2 ^ 23`. -/
def bigInode : Dinode := smallInode 512 (fun i => if i = 0 then 0x800000 else 0) 0

/-- The superblock of a volume of `2 ^ 23 + 4096` blocks. -/
def bigSuper : Block := .ofWords fun k => if k = 0 then magic else 0x801000

/-- The disk of the volume; every block is marked in use. -/
def bigDisk (b : Daddr) : Block :=
  if b = superBlock then bigSuper else if b = 3000 then bigInode.toBlock else fun _ => 255

def bigVolume : Fs := { smallVolume 0 bigInode bigDisk with dBlocks := 0x801000 }

theorem bigVolume_super : bigVolume.disk superBlock = bigSuper := by
  change bigDisk superBlock = _
  rw [bigDisk, if_pos rfl]

theorem bigSuper_magic : bigSuper.word 0 = magic := Block.word_ofWords _ (by decide)

theorem bigSuper_nblocks : bigSuper.word 1 = 0x801000 := Block.word_ofWords _ (by decide)

/-- The volume, mounted. -/
def bigMounted : Fs := bigVolume.mounted (bigVolume.bitsOnDisk 2049)

theorem bigMounted_nblocks : bigMounted.nblocks = 0x801000 := by
  rw [bigMounted, Fs.mounted, bigVolume_super, bigSuper_nblocks]

theorem domount_bigVolume : domount.result bigVolume = .ok (.ok (), bigMounted) := by
  have hblocks : (freemapblocks ((bigVolume.disk superBlock).word 1)).toNat = 2049 := by
    rw [bigVolume_super, bigSuper_nblocks]
    decide
  have hmagic : (bigVolume.disk superBlock).word 0 = magic := by
    rw [bigVolume_super, bigSuper_magic]
  have hdisk : ∀ j < (freemapblocks ((bigVolume.disk superBlock).word 1)).toNat,
      freemapStart + .ofNat j < bigVolume.dBlocks := by
    intro j hj
    rw [hblocks] at hj
    have hadd : (freemapStart + .ofNat j).toNat = (2 + j) % 2 ^ 32 := by
      rw [UInt32.toNat_add, UInt32.toNat_ofNat']
      change (2 + j % 2 ^ 32) % 2 ^ 32 = _
      omega
    rw [UInt32.lt_iff_toNat_lt, hadd]
    change _ < 0x801000
    omega
  have hrun : wp (fun _ => False) domount (fun r t => r = .ok () ∧ t = bigVolume.mounted
      (bigVolume.bitsOnDisk (freemapblocks ((bigVolume.disk superBlock).word 1)).toNat))
      bigVolume := wp_domount rfl rfl hmagic hdisk (by decide)
  obtain ⟨r, t, ht, rfl, htt⟩ := hrun.exists_result
  rw [hblocks] at htt
  rw [ht, htt, bigMounted]

theorem bigMounted_marked (h : b.toNat / 4096 < 2049) (hdisk : freemapStart + .ofNat
    (b.toNat / 4096) ≠ superBlock ∧ freemapStart + .ofNat (b.toNat / 4096) ≠ 3000)
    (hbit : Block.bit (fun _ => 255) (b.toNat % 4096) = true) : Marked bigMounted b := by
  have hones : bigVolume.disk (freemapStart + .ofNat (b.toNat / 4096)) = fun _ => 255 := by
    change bigDisk _ = _
    rw [bigDisk, if_neg hdisk.1, if_neg hdisk.2]
  rw [Marked, bigMounted, mounted_isset, Fs.bitsOnDisk, hones, hbit, decide_eq_true h]
  rfl

/-- The volume with the file loaded. -/
def bigLoaded : Fs :=
  { bigMounted with
    vnodes := [1]
    refcount := Function.update bigMounted.refcount 1 1
    ino := Function.update bigMounted.ino 1 3000
    inode := Function.update bigMounted.inode 1 bigInode
    dirty := Function.update bigMounted.dirty 1 false }

theorem loadvnode_bigMounted :
    (loadvnode 3000 typeInval).result bigMounted = .ok (.ok 1, bigLoaded) := by
  have hmem : bigMounted.memory = [] := by rw [bigMounted, Fs.mounted]; rfl
  have hnone : bigMounted.vnodes = [] := by rw [bigMounted, Fs.mounted]
  have hq : Quiet bigMounted := Quiet.mounted rfl
  have hlt : (3000 : Daddr) < bigMounted.nblocks := by rw [bigMounted_nblocks]; decide
  have hdev : (3000 : Daddr) < bigMounted.dBlocks := by
    rw [bigMounted, mounted_dBlocks]
    decide
  have hbit : bigMounted.freemap.isset 3000 = true :=
    bigMounted_marked (by decide) ⟨by decide, by decide⟩ (by decide)
  have hinode : Dinode.ofBlock (bigMounted.disk 3000) = bigInode := by
    rw [bigMounted, mounted_disk]
    exact Dinode.ofBlock_toBlock bigInode
  have hrun : wp (fun _ => False) (loadvnode 3000 typeInval)
      (fun r t => r = .ok 1 ∧ t = bigLoaded) bigMounted := by
    rw [loadvnode, wp_bind, wp_get, then_ok, hnone, findVnode, wp_bind, wp_pure, then_ok, wp_bind]
    refine wp_kmallocVnode hmem ?_
    rw [then_ok, hnone, wp_bind]
    refine wp_bused_of hlt ?_
    rw [then_ok, if_pos hbit, wp_bind]
    refine wp_readblock_of hq (.inr hdev) ?_
    have hfile : bigInode.type = typeFile := rfl
    rw [then_ok, hinode]
    dsimp only
    rw [if_neg fun h => h.1 rfl, if_neg fun h : typeInval ≠ typeInval => h rfl,
      if_neg fun h => h.1 hfile, wp_bind]
    refine wp_kmallocVnode hmem ?_
    rw [then_ok, wp_bind, wp_modify, then_ok, wp_pure]
    exact ⟨rfl, rfl⟩
  obtain ⟨r, t, ht, rfl, rfl⟩ := hrun.exists_result
  exact ht

/-- The volume can be mounted, and its file has a block for which the paths part: data that is
written to the block goes into the superblock. -/
theorem bigVolume_parts : ∃ s, domount.result bigVolume = .ok (.ok (), bigMounted) ∧
    (loadvnode 3000 typeInval).result bigMounted = .ok (.ok 1, s) ∧
    (0x800000 : Daddr) < bigMounted.nblocks ∧ Quiet s ∧ MapsTo s 1 0 0x800000 ∧
    blockioOffset 0x800000 = 0 ∧ ¬ SameOffset 0x800000 ∧ ¬ SameData s 1 0 0x800000 := by
  have hbig : ¬ (0x800000 : Daddr).toNat < 2 ^ 23 := by decide
  have hlt : (0x800000 : Daddr) < bigMounted.nblocks := by rw [bigMounted_nblocks]; decide
  have hq : Quiet bigLoaded := by
    have hmounted : Quiet bigMounted := Quiet.mounted rfl
    exact hmounted
  have hmaps : MapsTo bigLoaded 1 0 0x800000 := by
    refine ⟨mapping_direct bigLoaded 1 (by decide), by decide, ?_, hlt, ?_, fun h => ?_⟩
    · exact bigMounted_marked (by decide) ⟨by decide, by decide⟩ (by decide)
    · change _ < bigMounted.dBlocks
      rw [bigMounted, mounted_dBlocks]
      decide
    · exact absurd h (by decide)
  refine ⟨bigLoaded, domount_bigVolume, loadvnode_bigMounted, hlt, hq, hmaps, by decide, ?_, ?_⟩
  · rw [sameOffset_iff]
    exact hbig
  · rw [sameData_iff hq hmaps]
    exact hbig

end Os161.Sfs

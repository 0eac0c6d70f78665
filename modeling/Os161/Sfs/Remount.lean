import Os161.Sfs.Mount
import Os161.Sfs.Vnodes

set_option autoImplicit false

/-!
# A volume that is mounted again

`sfs_sync` of `kern/fs/sfs/sfs_fsops.c` writes the inodes in memory and the free block bitmap, where
they are marked dirty. If the contents of memory are lost after that, the next `sfs_domount` finds
the same bitmap, and `sfs_loadvnode` the same files.
-/

namespace Os161.Sfs

open Os161.Lib.Calls

variable {ok : Panic → Prop} {s t u : Fs} {v : Ptr} {b : Daddr} {j k : Nat}

/-! ## Memory and the disk -/

/-- The blocks that `sfs_sync` writes: inodes in memory and the bitmap. -/
def Fs.Metadata (s : Fs) (b : Daddr) : Prop :=
  (∃ v ∈ s.vnodes, s.ino v = b) ∨
    ∃ j < (freemapblocks s.nblocks).toNat, freemapStart + .ofNat j = b

/-- The bit of a block on a disk. -/
def bitOn (disk : Daddr → Block) (b : Daddr) : Bool :=
  (disk (freemapStart + .ofNat (b.toNat / 4096))).bit (b.toNat % 4096)

/-- A mounted volume. What is in memory and not marked dirty is on the disk, and the blocks of a
file are neither inodes nor blocks of the bitmap. -/
structure Attached (s : Fs) : Prop where
  table : Vnodes.OneVnode s
  magic : (s.disk superBlock).word 0 = magic
  nblocks : (s.disk superBlock).word 1 = s.nblocks
  nbits : s.freemap.nbits = freemapbits s.nblocks
  covered : s.nblocks ≤ s.freemap.nbits
  super : superBlock < s.dBlocks
  freemap : ∀ j < (freemapblocks s.nblocks).toNat, freemapStart + .ofNat j < s.dBlocks
  bits : s.freemapdirty = false → ∀ b < s.freemap.nbits, bitOn s.disk b = s.freemap.isset b
  onDisk : ∀ v ∈ s.vnodes, s.ino v < s.dBlocks
  onVolume : ∀ v ∈ s.vnodes, s.ino v < s.nblocks
  marked : ∀ v ∈ s.vnodes, Marked s (s.ino v)
  type : ∀ v ∈ s.vnodes, (s.inode v).type = typeFile ∨ (s.inode v).type = typeDir
  apart : ∀ v ∈ s.vnodes, s.ino v ≠ superBlock ∧
    ∀ j < (freemapblocks s.nblocks).toNat, freemapStart + .ofNat j ≠ s.ino v
  blocks : ∀ v ∈ s.vnodes, ∀ k, s.slot v k ≠ 0 → ¬ s.Metadata (s.slot v k)
  clean : ∀ v ∈ s.vnodes, s.dirty v = false → Dinode.ofBlock (s.disk (s.ino v)) = s.inode v

/-- What is in memory is on the disk, which has not changed elsewhere. -/
structure OnRecord (s : Fs) (disk : Daddr → Block) : Prop where
  inode : ∀ v ∈ s.vnodes, Dinode.ofBlock (disk (s.ino v)) = s.inode v
  bits : ∀ b < s.freemap.nbits, bitOn disk b = s.freemap.isset b
  others : ∀ b, ¬ s.Metadata b → disk b = s.disk b

theorem freemapblocks_le (nblocks : UInt32) : (freemapblocks nblocks).toNat ≤ 2 ^ 20 := by
  have hlt := (freemapbits nblocks).toNat_lt
  rw [freemapblocks, UInt32.toNat_div]
  change (freemapbits nblocks).toNat / 4096 ≤ _
  omega

/-- The bit of a block is in one of the blocks of the bitmap. -/
theorem lt_freemapblocks {nblocks : UInt32} (h : b < freemapbits nblocks) :
    b.toNat / 4096 < (freemapblocks nblocks).toNat := by
  have hlt := UInt32.lt_iff_toNat_lt.1 h
  have hm := (nblocks + 4096 - 1).toNat_lt
  rw [freemapblocks, UInt32.toNat_div]
  rw [freemapbits, UInt32.toNat_mul, UInt32.toNat_div] at hlt ⊢
  change b.toNat < (nblocks + 4096 - 1).toNat / 4096 * 4096 % 2 ^ 32 at hlt
  change _ < (nblocks + 4096 - 1).toNat / 4096 * 4096 % 2 ^ 32 / 4096
  omega

theorem toNat_freemapBlock (hj : j < 2 ^ 20) :
    (freemapStart + .ofNat j : Daddr).toNat = 2 + j := by
  rw [UInt32.toNat_add, UInt32.toNat_ofNat']
  change (2 + j % 2 ^ 32) % 2 ^ 32 = _
  omega

theorem freemapBlock_inj {i : Nat} (hi : i < 2 ^ 20) (hj : j < 2 ^ 20)
    (h : (freemapStart + .ofNat i : Daddr) = freemapStart + .ofNat j) : i = j := by
  have heq := congrArg UInt32.toNat h
  rw [toNat_freemapBlock hi, toNat_freemapBlock hj] at heq
  omega

theorem bitsOnDisk_eq (h : b.toNat / 4096 < k) : s.bitsOnDisk k b = bitOn s.disk b := by
  rw [Fs.bitsOnDisk, decide_eq_true h, Bool.true_and, bitOn]

/-- The superblock is not written. -/
theorem Attached.super_apart (h : Attached s) : ¬ s.Metadata superBlock := by
  rintro (⟨v, hv, heq⟩ | ⟨j, hj, heq⟩)
  · exact (h.apart v hv).1 heq
  · have hle := freemapblocks_le s.nblocks
    have hnat := congrArg UInt32.toNat heq
    rw [toNat_freemapBlock (by omega)] at hnat
    change 2 + j = 0 at hnat
    omega

/-! ## The sync -/

/-- What `sfs_sync` looks at is the same. -/
structure SameMemory (s t : Fs) : Prop where
  dBlocks : t.dBlocks = s.dBlocks
  media : t.media = s.media
  memory : t.memory = s.memory
  freemap : t.freemap = s.freemap
  ino : t.ino = s.ino
  inode : t.inode = s.inode

/-- `sfs_sync_vnodes` still has the vnodes `vs` to look at. -/
structure Saving (s : Fs) (vs : List Ptr) (t : Fs) : Prop extends SameMemory s t where
  subset : ∀ v ∈ vs, v ∈ s.vnodes
  saved : ∀ v ∈ s.vnodes, v ∉ vs ∨ t.dirty v = false →
    Dinode.ofBlock (t.disk (s.ino v)) = s.inode v
  others : ∀ b, (∀ v ∈ s.vnodes, s.ino v ≠ b) → t.disk b = s.disk b

/-- One vnode. -/
theorem Saving.wp_syncInode {vs : List Ptr} (h : Attached s) (hq : Quiet s)
    (ht : Saving s (v :: vs) t) :
    wp ok (syncInode v) (fun r u => r = .ok () ∧ Saving s vs u) t := by
  have hqt : Quiet t := ht.media.trans hq
  have hv : v ∈ s.vnodes := ht.subset v List.mem_cons_self
  have hsubset : ∀ w ∈ vs, w ∈ s.vnodes := fun w hw => ht.subset w (List.mem_cons_of_mem v hw)
  rw [syncInode, wp_bind, wp_get, then_ok, wp_ite]
  refine ⟨fun hdirty => ?_, fun hclean => ?_⟩
  · rw [wp_bind]
    refine wp_writeblock_of hqt (.inr ?_) ?_
    · rw [ht.ino, ht.dBlocks]
      exact h.onDisk v hv
    · rw [then_ok, wp_modify, ht.ino, ht.inode]
      refine ⟨rfl, ⟨ht.dBlocks, ht.media, ht.memory, ht.freemap, ht.ino, ht.inode⟩, hsubset,
        fun w hw hor => ?_, fun b hb => ?_⟩
      · by_cases hwv : w = v
        · subst hwv
          change Dinode.ofBlock (Function.update t.disk (s.ino w) _ (s.ino w)) = _
          rw [Function.update_self]
          exact Dinode.ofBlock_toBlock _
        · have hne : s.ino w ≠ s.ino v := fun heq => hwv (h.table.unique w hw v hv heq)
          have hold : w ∉ v :: vs ∨ t.dirty w = false := by
            rcases hor with hnot | hdirty'
            · exact .inl fun hmem => hnot ((List.mem_cons.1 hmem).resolve_left hwv)
            · exact .inr ((Function.update_of_ne hwv _ _).symm.trans hdirty')
          change Dinode.ofBlock (Function.update t.disk (s.ino v) _ (s.ino w)) = _
          rw [Function.update_of_ne hne]
          exact ht.saved w hw hold
      · exact (Function.update_of_ne (hb v hv).symm _ _).trans (ht.others b hb)
  · rw [wp_pure]
    refine ⟨rfl, ht.toSameMemory, hsubset, fun w hw hor => ?_, ht.others⟩
    apply ht.saved w hw
    by_cases hwv : w = v
    · subst hwv
      exact .inr (Bool.not_eq_true _ ▸ hclean)
    · refine hor.imp_left fun hnot hmem => hnot ?_
      exact (List.mem_cons.1 hmem).resolve_left hwv

/-- `sfs_freemapio` has written `k` blocks. -/
structure FreemapWritten (t : Fs) (k : Nat) (u : Fs) : Prop extends SameMemory t u where
  done : ∀ j < k, u.disk (freemapStart + .ofNat j) =
    .ofBits fun i => t.freemap.isset (.ofNat (4096 * j + i))
  others : ∀ b, (∀ j < k, freemapStart + .ofNat j ≠ b) → u.disk b = t.disk b

theorem FreemapWritten.wp_writeFreemap (hq : Quiet t) (hk : k < 2 ^ 20)
    (hdev : freemapStart + .ofNat k < t.dBlocks) (hu : FreemapWritten t k u) :
    wp ok (writeFreemap k) (fun r u' => r = .ok () ∧ FreemapWritten t (k + 1) u') u := by
  rw [writeFreemap, wp_bind, wp_get, then_ok, hu.freemap]
  refine wp_writeblock_of (hu.media.trans hq) (.inr (by rwa [hu.dBlocks]))
    ⟨rfl, ⟨hu.dBlocks, hu.media, hu.memory, hu.freemap, hu.ino, hu.inode⟩, fun j hj => ?_,
      fun b hb => ?_⟩
  · rcases Nat.lt_succ_iff_lt_or_eq.1 hj with hj | rfl
    · have hne : (freemapStart + .ofNat j : Daddr) ≠ freemapStart + .ofNat k := fun heq =>
        absurd (freemapBlock_inj (by omega) hk heq) (by omega)
      exact (Function.update_of_ne hne _ _).trans (hu.done j hj)
    · exact Function.update_self ..
  · refine (Function.update_of_ne (hb k k.lt_succ_self).symm _ _).trans (hu.others b ?_)
    exact fun j hj => hb j (Nat.lt_succ_of_lt hj)

/-- The bits that have been written. -/
theorem FreemapWritten.bitOn_eq (hu : FreemapWritten t k u) (hb : b.toNat / 4096 < k) :
    bitOn u.disk b = t.freemap.isset b := by
  rw [bitOn, hu.done _ hb, Block.bit_ofBits _ (Nat.mod_lt _ (by decide)), Nat.div_add_mod]
  exact congrArg _ (UInt32.ofNat_toNat ..)

/-- `sfs_sync` -/
theorem Attached.wp_sync (h : Attached s) (hq : Quiet s) : wp ok sync (fun r t => r = .ok () ∧
    t.dBlocks = s.dBlocks ∧ Quiet t ∧ t.memory = s.memory ∧ OnRecord s t.disk) s := by
  rw [sync, wp_bind, wp_get, then_ok, wp_bind]
  refine wp_forEach (Saving s) (fun v vs t ht => ?_) (fun t ht => ?_)
    ⟨⟨rfl, rfl, rfl, rfl, rfl, rfl⟩, fun v hv => hv, fun v hv hor => ?_, fun _ _ => rfl⟩
  · rw [wp_bind, wp_catching]
    refine wp_mono (ht.wp_syncInode h hq) fun r u hu => ?_
    rw [hu.1, then_ok, wp_pure]
    exact hu.2
  · have hqt : Quiet t := ht.media.trans hq
    have hle := freemapblocks_le s.nblocks
    rw [then_ok, wp_ite]
    refine ⟨fun _ => ?_, fun hclean => ?_⟩
    · rw [wp_bind]
      refine wp_forRange (FreemapWritten t) (fun j hj u hu => ?_) (fun u hu => ?_)
        ⟨⟨rfl, rfl, rfl, rfl, rfl, rfl⟩, fun j hj => absurd hj (Nat.not_lt_zero j),
          fun _ _ => rfl⟩
      · have hdisk := h.freemap j hj
        rw [← ht.dBlocks] at hdisk
        refine wp_mono (hu.wp_writeFreemap hqt (by omega) hdisk) fun r u' hu' => ?_
        rw [hu'.1]
        exact hu'.2
      · rw [then_ok, wp_modify]
        refine ⟨rfl, hu.dBlocks.trans ht.dBlocks, hu.media.trans hqt, hu.memory.trans ht.memory,
          fun v hv => ?_, fun b hb => ?_, fun b hb => ?_⟩
        · change Dinode.ofBlock (u.disk (s.ino v)) = _
          rw [hu.others _ (h.apart v hv).2]
          exact ht.saved v hv (.inl List.not_mem_nil)
        · rw [h.nbits] at hb
          exact (hu.bitOn_eq (lt_freemapblocks hb)).trans (by rw [ht.freemap])
        · refine (hu.others b fun j hj heq => hb (.inr ⟨j, hj, heq⟩)).trans (ht.others b ?_)
          exact fun v hv heq => hb (.inl ⟨v, hv, heq⟩)
    · rw [wp_pure]
      refine ⟨rfl, ht.dBlocks, hqt, ht.memory, fun v hv => ht.saved v hv (.inl List.not_mem_nil),
        fun b hb => ?_, fun b hb => ht.others b fun v hv heq => hb (.inl ⟨v, hv, heq⟩)⟩
      rw [← h.bits (Bool.not_eq_true _ ▸ hclean) b hb]
      rw [h.nbits] at hb
      have hblock := ht.others (freemapStart + .ofNat (b.toNat / 4096)) fun v hv heq =>
        (h.apart v hv).2 _ (lt_freemapblocks hb) heq.symm
      rw [bitOn, bitOn, hblock]
  · exact h.clean v hv (hor.resolve_left fun hnot => hnot hv)

/-! ## The next mount -/

/-- The contents of memory are lost, but not those of the disk. -/
structure Restarted (t u : Fs) : Prop where
  disk : u.disk = t.disk
  dBlocks : u.dBlocks = t.dBlocks
  quiet : Quiet u
  memory : u.memory = []

/-- The vnode `p` of `t` shows the file that the vnode `v` of `s` showed. -/
structure SameFile (s : Fs) (v : Ptr) (t : Fs) (p : Ptr) : Prop where
  ino : t.ino p = s.ino v
  inode : t.inode p = s.inode v
  contents : t.byteAt p = s.byteAt v

/-- The volume `s`, mounted again as `t`. -/
structure Restored (s t : Fs) : Prop where
  attached : Attached t
  nblocks : t.nblocks = s.nblocks
  nbits : t.freemap.nbits = s.freemap.nbits
  bits : ∀ b < s.freemap.nbits, t.freemap.isset b = s.freemap.isset b
  files : ∀ v ∈ s.vnodes, ∃ p u, (loadvnode (s.ino v) typeInval).result t = .ok (.ok p, u) ∧
    SameFile s v u p

/-- The contents of a file are in its inode and its blocks. -/
theorem byteAt_of_blocks {p : Ptr} (hinode : t.inode p = s.inode v)
    (hdisk : ∀ k, s.slot v k ≠ 0 → t.disk (s.slot v k) = s.disk (s.slot v k)) :
    t.byteAt p = s.byteAt v := by
  have hmapping : ∀ i, t.mapping p i = s.mapping v i := by
    intro i
    rw [Fs.mapping, Fs.mapping, hinode]
    split_ifs with hi htable
    · rfl
    · exact congrArg (Block.word · (i - 15)) (hdisk .table htable.2)
    · rfl
  funext x
  rw [Fs.byteAt, Fs.byteAt, hmapping]
  split_ifs with hzero
  · rfl
  · exact congrArg (Block.byte · (x % 512)) (hdisk (.data (x / 512)) hzero)

/-- `sfs_loadvnode` of the first vnode. -/
theorem wp_loadvnode_first {ino : Daddr} (hq : Quiet s) (hm : s.memory = []) (hnone : s.vnodes = [])
    (hlt : ino < s.nblocks) (hdev : ino < s.dBlocks) (hbit : s.freemap.isset ino = true)
    (htype : (Dinode.ofBlock (s.disk ino)).type = typeFile ∨
      (Dinode.ofBlock (s.disk ino)).type = typeDir) :
    wp ok (loadvnode ino typeInval) (fun r t => ∃ p, r = .ok p ∧ t.ino p = ino ∧
      t.inode p = Dinode.ofBlock (s.disk ino) ∧ t.disk = s.disk) s := by
  rw [loadvnode, wp_bind, wp_get, then_ok, hnone, findVnode, wp_bind, wp_pure, then_ok, wp_bind]
  refine wp_kmallocVnode hm ?_
  rw [then_ok, wp_bind]
  refine wp_bused_of hlt ?_
  rw [then_ok, if_pos hbit, wp_bind]
  refine wp_readblock_of hq (.inr hdev) ?_
  rw [then_ok]
  dsimp only
  rw [if_neg fun h => h.1 rfl, if_neg fun h : typeInval ≠ typeInval => h rfl,
    if_neg fun h => htype.elim h.1 h.2, wp_bind]
  refine wp_kmallocVnode hm ?_
  rw [then_ok, wp_bind, wp_modify, then_ok, wp_pure]
  exact ⟨_, rfl, Function.update_self .., Function.update_self .., rfl⟩

theorem mounted_nblocks (f : UInt32 → Bool) :
    (s.mounted f).nblocks = (s.disk superBlock).word 1 := by
  rw [Fs.mounted]

theorem mounted_nbits (f : UInt32 → Bool) :
    (s.mounted f).freemap.nbits = freemapbits ((s.disk superBlock).word 1) := by
  rw [Fs.mounted]

/-- A volume that has just been mounted. -/
theorem attached_mounted (hmagic : (s.disk superBlock).word 0 = magic)
    (hnblocks : (s.disk superBlock).word 1 ≤ freemapbits ((s.disk superBlock).word 1))
    (hsuper : superBlock < s.dBlocks)
    (hdisk : ∀ j < (freemapblocks ((s.disk superBlock).word 1)).toNat,
      freemapStart + .ofNat j < s.dBlocks) :
    Attached (s.mounted (s.bitsOnDisk (freemapblocks ((s.disk superBlock).word 1)).toNat)) := by
  have hbits : ∀ b < freemapbits ((s.disk superBlock).word 1), bitOn s.disk b =
      s.bitsOnDisk (freemapblocks ((s.disk superBlock).word 1)).toNat b :=
    fun b hb => (bitsOnDisk_eq (lt_freemapblocks hb)).symm
  generalize s.bitsOnDisk (freemapblocks ((s.disk superBlock).word 1)).toNat = bits at *
  have hnone : ∀ v, v ∉ (s.mounted bits).vnodes := by
    intro v hv
    rw [Fs.mounted] at hv
    exact absurd hv List.not_mem_nil
  have hno : ∀ {P : Ptr → Prop}, ∀ v ∈ (s.mounted bits).vnodes, P v :=
    fun v hv => absurd hv (hnone v)
  exact
    { table := ⟨by rw [Fs.mounted]; exact List.nodup_nil, hno⟩
      magic := by rwa [mounted_disk]
      nblocks := by rw [mounted_disk, mounted_nblocks]
      nbits := by rw [mounted_nbits, mounted_nblocks]
      covered := by rwa [mounted_nbits, mounted_nblocks]
      super := by rwa [mounted_dBlocks]
      freemap := by rwa [mounted_nblocks, mounted_dBlocks]
      bits := fun _ => by rwa [mounted_nbits, mounted_disk, mounted_isset]
      onDisk := hno
      onVolume := hno
      marked := hno
      type := hno
      apart := hno
      blocks := hno
      clean := hno }

/-- The volume that `sfs_domount` finds. -/
theorem OnRecord.restored (h : Attached s) (hu : OnRecord s u.disk) (hdev : u.dBlocks = s.dBlocks)
    (hq : Quiet u) (hm : u.memory = []) :
    ∃ w, domount.result u = .ok (.ok (), w) ∧ Restored s w := by
  have hsuper := hu.others _ h.super_apart
  have hmagic : (u.disk superBlock).word 0 = magic := by rw [hsuper, h.magic]
  have hnblocks : (u.disk superBlock).word 1 = s.nblocks := by rw [hsuper, h.nblocks]
  have hrun : wp (fun _ => False) domount _ u := wp_domount hq hm hmagic
    (by rw [hnblocks, hdev]; exact h.freemap) (by rw [hdev]; exact h.super)
  obtain ⟨r, w, hresult, rfl, rfl⟩ := hrun.exists_result
  have hattached : Attached (u.mounted _) := attached_mounted hmagic
    (by rw [hnblocks, ← h.nbits]; exact h.covered) (by rw [hdev]; exact h.super)
    (by rw [hnblocks, hdev]; exact h.freemap)
  rw [hnblocks] at hresult hattached
  have hbits : ∀ b < s.freemap.nbits,
      u.bitsOnDisk (freemapblocks s.nblocks).toNat b = s.freemap.isset b := by
    intro b hb
    rw [← hu.bits b hb]
    rw [h.nbits] at hb
    exact bitsOnDisk_eq (lt_freemapblocks hb)
  generalize u.bitsOnDisk (freemapblocks s.nblocks).toNat = bits at *
  refine ⟨_, hresult, hattached, ?_, ?_, fun b hb => ?_, fun v hv => ?_⟩
  · rw [mounted_nblocks, hnblocks]
  · rw [mounted_nbits, hnblocks, h.nbits]
  · rw [mounted_isset]
    exact hbits b hb
  · have hinode := hu.inode v hv
    have hmem : (u.mounted bits).memory = [] := by rwa [Fs.mounted]
    have hnone : (u.mounted bits).vnodes = [] := by rw [Fs.mounted]
    have hlt : s.ino v < (u.mounted bits).nblocks := by
      rw [mounted_nblocks, hnblocks]
      exact h.onVolume v hv
    have hdisk : s.ino v < (u.mounted bits).dBlocks := by
      rw [mounted_dBlocks, hdev]
      exact h.onDisk v hv
    have hbit : (u.mounted bits).freemap.isset (s.ino v) = true := by
      rw [mounted_isset, hbits _ (UInt32.lt_of_lt_of_le (h.onVolume v hv) h.covered)]
      exact h.marked v hv
    have htype := h.type v hv
    rw [← hinode, ← mounted_disk bits] at htype
    have hload : wp (fun _ => False) (loadvnode (s.ino v) typeInval) _ (u.mounted bits) :=
      wp_loadvnode_first hq.mounted hmem hnone hlt hdisk hbit htype
    obtain ⟨r, x, hx, p, rfl, hino, hp, hdisk⟩ := hload.exists_result
    rw [mounted_disk, hinode] at hp
    refine ⟨p, x, hx, hino, hp, byteAt_of_blocks hp fun k hk => ?_⟩
    rw [hdisk, mounted_disk]
    exact hu.others _ (h.blocks v hv k hk)

/-- `sfs_sync` on a disk that does not fail puts everything on the disk: if the contents of memory
are lost after it, the next mount finds the same bitmap, and every file that was open has the inode
and the contents that it had. -/
theorem sync_restored (h : Attached s) (hq : Quiet s) : ∃ t, sync.result s = .ok (.ok (), t) ∧
    ∀ u, Restarted t u → ∃ w, domount.result u = .ok (.ok (), w) ∧ Restored s w := by
  have hrun : wp (fun _ => False) sync _ s := h.wp_sync hq
  obtain ⟨r, t, hresult, rfl, hdev, -, -, ht⟩ := hrun.exists_result
  refine ⟨t, hresult, fun u hu => ?_⟩
  rw [← hu.disk] at ht
  exact ht.restored h (hu.dBlocks.trans hdev) hu.quiet hu.memory

/-- The superblock of a volume of 64 blocks. -/
def smallSuper : Block := .ofWords fun k => if k = 0 then magic else 64

/-- A volume with one file; its inode and the bitmap have not been written. -/
def dirtyVolume : Fs :=
  { oneBlock smallSuper with
    ino := fun _ => 1
    dirty := fun _ => true
    freemapdirty := true }

theorem attached_dirtyVolume : Attached dirtyVolume := by
  have hone : ∀ v ∈ dirtyVolume.vnodes, v = 1 := fun v hv => List.mem_singleton.1 hv
  have hino : ∀ v, dirtyVolume.ino v = 1 := fun _ => rfl
  have hblocks : (freemapblocks dirtyVolume.nblocks).toNat = 1 := by decide
  constructor
  · exact ⟨List.nodup_singleton 1, fun v hv w hw _ => (hone v hv).trans (hone w hw).symm⟩
  · change smallSuper.word 0 = _
    rw [smallSuper, Block.word_ofWords _ (by decide), if_pos rfl]
  · change smallSuper.word 1 = 64
    rw [smallSuper, Block.word_ofWords _ (by decide), if_neg (by decide)]
  · decide
  · decide
  · decide
  · intro j hj
    rw [hblocks, Nat.lt_one_iff] at hj
    subst hj
    decide
  · intro hclean
    cases hclean
  · intro v hv
    rw [hino]
    decide
  · intro v hv
    rw [hino]
    decide
  · intro v hv
    rw [hino]
    rfl
  · intro v hv
    exact .inl rfl
  · intro v hv
    rw [hino]
    refine ⟨by decide, fun j hj => ?_⟩
    rw [hblocks, Nat.lt_one_iff] at hj
    subst hj
    decide
  · intro v hv k hk
    obtain rfl := hone v hv
    have hslot : dirtyVolume.slot 1 k = if k = .data 0 then 3 else 0 := slot_oneBlock k
    have hthree : dirtyVolume.slot 1 k = 3 := by
      rw [hslot] at hk ⊢
      exact if_pos (by_contra fun hne => hk (if_neg hne))
    rw [hthree]
    rintro (⟨w, -, heq⟩ | ⟨j, hj, heq⟩)
    · rw [hino] at heq
      exact absurd heq (by decide)
    · rw [hblocks, Nat.lt_one_iff] at hj
      subst hj
      exact absurd heq (by decide)
  · intro v hv hclean
    cases hclean

theorem sync_restored_dirtyVolume : ∃ t, sync.result dirtyVolume = .ok (.ok (), t) ∧
    ∀ u, Restarted t u → ∃ w, domount.result u = .ok (.ok (), w) ∧ Restored dirtyVolume w :=
  sync_restored attached_dirtyVolume rfl

end Os161.Sfs

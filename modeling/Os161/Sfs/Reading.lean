import Os161.Sfs.Chunks
import Os161.Sfs.Growth

set_option autoImplicit false

/-!
# Reading from a file

`sfs_io` for reading gives the bytes of the file, as far as the file goes, and changes nothing.
-/

namespace Os161.Sfs

open Os161.Lib.Calls

variable {ok : Panic → Prop} {files : Set Ptr} {sv : Ptr} {s : Fs} {u v : Uio} {l : List UInt8}

/-- The `n` bytes of a file from the position `off` on. -/
def Fs.bytesFrom (s : Fs) (sv : Ptr) (off n : Nat) : List UInt8 :=
  (List.range n).map fun i => s.byteAt sv (off + i)

@[simp] theorem length_bytesFrom (off n : Nat) : (s.bytesFrom sv off n).length = n := by
  simp [Fs.bytesFrom]

theorem bytesFrom_add (off n m : Nat) :
    s.bytesFrom sv off (n + m) = s.bytesFrom sv off n ++ s.bytesFrom sv (off + n) m := by
  simp [Fs.bytesFrom, List.range_add, Function.comp_def, Nat.add_assoc]

/-- The uio of a read that stays in the file: there is room for the data. -/
structure Uio.Reads (u : Uio) (l : List UInt8) : Prop where
  rw : u.rw = .read
  holds : u.Holds l
  enough : u.resid.toNat ≤ l.length
  inside : u.offset + u.resid.toNat ≤ 143 * 512

/-- `n` bytes have been read. -/
structure Reading (s : Fs) (sv : Ptr) (u : Uio) (n : Nat) (x : Fs × Uio) : Prop where
  le : n ≤ u.resid.toNat
  same : x.1 = s
  moved : Moved u n (s.bytesFrom sv u.offset n) x.2

theorem reading_start : Reading s sv u 0 (s, u) := ⟨Nat.zero_le _, rfl, .refl u _⟩

/-- The next bytes have been read. -/
theorem Reading.next {n m : Nat} {x : Fs × Uio} (h : Reading s sv u n x)
    (hm : m ≤ x.2.resid.toNat) (hv : Moved x.2 m (s.bytesFrom sv x.2.offset m) v) :
    Reading s sv u (n + m) (s, v) := by
  have hresid := h.moved.resid
  have hle := h.le
  refine ⟨by omega, rfl, ?_⟩
  rw [bytesFrom_add, ← h.moved.offset]
  exact h.moved.append (length_bytesFrom _ _) hv

/-- The block that is looked at. -/
def Fs.fileBlock (s : Fs) (sv : Ptr) (i : Nat) : Block :=
  if s.mapping sv i = 0 then .zero else s.disk (s.mapping sv i)

theorem byteAt_eq (p : Nat) : s.byteAt sv p = (s.fileBlock sv (p / 512)).byte (p % 512) := by
  unfold Fs.byteAt Fs.fileBlock
  split_ifs with hzero
  · exact (Block.byte_zero _).symm
  · rfl

/-- A part of a block is a part of the file. -/
theorem slice_fileBlock {p m : Nat} (hfit : p % 512 + m ≤ 512) :
    (s.fileBlock sv (p / 512)).slice (p % 512) m = s.bytesFrom sv p m := by
  refine List.map_congr_left fun i hi => ?_
  rw [List.mem_range] at hi
  have hdiv : (p + i) / 512 = p / 512 := by omega
  have hmod : (p + i) % 512 = p % 512 + i := by omega
  rw [byteAt_eq, hdiv, hmod]

/-- `sfs_bmap` for the next byte of a read. -/
theorem wp_bmap_lookup {Q : Except Errno Daddr → Fs × Uio → Prop} (hq : Quiet s)
    (hs : Sound files s) (hsv : sv ∈ files) (hread : u.rw = .read) (hlt : u.offset / 512 < 143)
    (hQ : Q (.ok (s.mapping sv (u.offset / 512))) (s, u)) :
    wp ok (framed (bmap sv (.ofNat (u.offset / 512)) (u.rw = .write))) Q (s, u) := by
  have hf : (UInt32.ofNat (u.offset / 512)).toNat = u.offset / 512 := by
    rw [UInt32.toNat_ofNat']
    omega
  have hw : decide (u.rw = .write) = false := by
    rw [hread]
    rfl
  rw [wp_framed, hw]
  refine wp_bmap_read hq hs hsv (fun hge => ?_) fun _ => ?_
  · omega
  · rwa [hf]

/-- `sfs_partialio` for reading. -/
theorem wp_partialio_read {m : Nat} {Q : Except Errno Unit → Fs × Uio → Prop} (hq : Quiet s)
    (hs : Sound files s) (hsv : sv ∈ files) (hread : u.rw = .read) (hl : u.Holds l)
    (hlen : m ≤ l.length) (hres : m ≤ u.resid.toNat) (hlt : u.offset / 512 < 143)
    (hfit : u.offset % 512 + m ≤ 512)
    (hQ : ∀ v, Moved u m (s.bytesFrom sv u.offset m) v → Q (.ok ()) (s, v)) :
    wp ok (partialio sv (u.offset % 512) m) Q (s, u) := by
  have hnot : u.rw ≠ .write := by
    rw [hread]
    decide
  have hrest : ∀ c x, c = s.fileBlock sv (u.offset / 512) → wp ok (do
      let data ← onLocal (uiomove m (c.slice (u.offset % 512) m))
      if u.rw = .write then framed (writeblock x (c.splice (u.offset % 512) data))
      else pure () : IoCall Unit) Q (s, u) := by
    rintro c x rfl
    rw [slice_fileBlock hfit, wp_bind, wp_onLocal]
    refine wp_uiomove_of hl hlen hres fun v hv => ?_
    rw [then_ok, if_neg hnot]
    exact (wp_pure _).2 (hQ v hv)
  rw [partialio, wp_bind, wp_get, then_ok]
  dsimp only
  rw [if_neg (by omega), wp_bind]
  refine wp_bmap_lookup hq hs hsv hread hlt ?_
  rw [then_ok, if_pos hread, wp_ite]
  refine ⟨fun hzero => ?_, fun hne => ?_⟩
  · rw [wp_bind, wp_pure, then_ok]
    exact hrest _ _ (if_pos hzero).symm
  · have hdisk := (hs.marked sv hsv (.data (u.offset / 512)) hne).2
    rw [wp_bind, wp_framed]
    refine wp_readblock_of hq (.inr (hs.framed.onDisk_of_lt hdisk)) ?_
    rw [then_ok]
    exact hrest _ _ (if_neg hne).symm

/-- `sfs_blockio` for reading. -/
theorem wp_blockio_read {Q : Except Errno Unit → Fs × Uio → Prop} (hq : Quiet s)
    (hs : Sound files s) (hsv : sv ∈ files) (hread : u.rw = .read) (hl : u.Holds l)
    (hlen : 512 ≤ l.length) (hres : 512 ≤ u.resid.toNat) (hlt : u.offset / 512 < 143)
    (hfit : u.offset % 512 = 0)
    (hQ : ∀ v, Moved u 512 (s.bytesFrom sv u.offset 512) v → Q (.ok ()) (s, v)) :
    wp ok (blockio sv) Q (s, u) := by
  have hbytes : s.bytesFrom sv u.offset 512 = (s.fileBlock sv (u.offset / 512)).bytes := by
    rw [← slice_fileBlock (by omega), hfit]
    rfl
  rw [hbytes] at hQ
  have hsmall : ¬ u.resid < 512 := by
    rw [UInt32.not_lt]
    exact UInt32.le_iff_toNat_le.2 hres
  rw [blockio, wp_bind, wp_get, then_ok]
  dsimp only
  rw [wp_bind]
  refine wp_bmap_lookup hq hs hsv hread hlt ?_
  rw [then_ok, wp_ite]
  refine ⟨fun hzero => ?_, fun hne => ?_⟩
  · have hzeros : (s.fileBlock sv (u.offset / 512)).bytes = List.replicate 512 0 := by
      rw [Fs.fileBlock, if_pos hzero]
      refine List.eq_replicate_iff.2 ⟨length_bytes _, fun b hb => ?_⟩
      obtain ⟨i, -, rfl⟩ := List.mem_map.1 hb
      exact Block.byte_zero _
    rw [hzeros] at hQ
    rw [if_pos hread, wp_onLocal]
    exact wp_uiomovezeros hl hlen hres fun v hv => hQ v hv
  · have hdisk := (hs.marked sv hsv (.data (u.offset / 512)) hne).2
    obtain ⟨x, hx⟩ : ∃ x, x = s.mapping sv (u.offset / 512) := ⟨_, rfl⟩
    have hsector : Uio.OneSector { u with offset := (x * 512).toNat, resid := 512 } x l :=
      ⟨hl, hlen, hs.framed.toNat_mul (hx ▸ hdisk), rfl⟩
    have hcontent : s.fileBlock sv (u.offset / 512) = s.disk x := by
      rw [Fs.fileBlock, if_neg hne, hx]
    rw [hcontent] at hQ
    rw [if_neg hsmall, ← hx, wp_bind, wp_onLocal, wp_modify, then_ok, wp_bind, wp_catching]
    refine wp_rwblock hq (hs.framed.onDisk_of_lt (hx ▸ hdisk)) hsector fun v hv => ?_
    have hafter : s.afterSector x { u with offset := (x * 512).toNat, resid := 512 } l = s :=
      if_neg (by rw [hread]; decide)
    rw [hafter, then_ok, wp_bind, wp_onLocal, wp_modify, then_ok]
    exact (wp_pure _).2 (hQ _ (moved_restore hv rfl rfl hres))

/-- The steps of a read. -/
theorem steps_read (hq : Quiet s) (hs : Sound files s) (hsv : sv ∈ files) (hu : u.Reads l) :
    Steps ok sv u.offset u.resid.toNat (Reading s sv u) fun _ _ => False where
  place n x h := ⟨h.le, h.moved.resid, by rw [h.moved.offset]⟩
  part n x m h hm hfit hlt := by
    obtain ⟨t, v⟩ := x
    obtain rfl : t = s := h.same
    have hresid := h.moved.resid
    have hoff := h.moved.offset
    have henough := hu.enough
    have hinside := hu.inside
    dsimp only at hresid hoff
    rw [← hoff] at hfit hlt ⊢
    refine wp_partialio_read hq hs hsv (h.moved.rw.trans hu.rw) (h.moved.holds hu.holds)
      (by rw [List.length_drop]; omega) (by omega) (by omega) hfit fun w hw => ?_
    exact h.next (by dsimp only; omega) hw
  block n x h hm hfit := by
    obtain ⟨t, v⟩ := x
    obtain rfl : t = s := h.same
    have hresid := h.moved.resid
    have hoff := h.moved.offset
    have henough := hu.enough
    have hinside := hu.inside
    dsimp only at hresid hoff
    rw [← hoff] at hfit
    refine wp_blockio_read hq hs hsv (h.moved.rw.trans hu.rw) (h.moved.holds hu.holds)
      (by rw [List.length_drop]; omega) (by omega) (by omega) hfit fun w hw => ?_
    exact h.next (by dsimp only; omega) hw

/-- How much of a read is in the file. -/
def Fs.available (s : Fs) (sv : Ptr) (u : Uio) : Nat :=
  min u.resid.toNat ((s.inode sv).size.toNat - u.offset)

/-- What `sfs_io` takes from the count for a read that ends past the end of the file. -/
theorem toNat_extraresid {resid : UInt32} {off size : Nat} (hsize : off < size)
    (hpast : size < off + resid.toNat) :
    (UInt32.ofNat (off + resid.toNat - size)).toNat = off + resid.toNat - size := by
  have hlt := resid.toNat_lt
  rw [UInt32.toNat_ofNat']
  omega

/-- The count is put back at the end. -/
theorem moved_extraresid {m : Nat} {src : List UInt8} {extra : UInt32}
    (h : Moved { u with resid := u.resid - extra } m src v) (hle : extra ≤ u.resid)
    (hm : u.resid.toNat = m + extra.toNat) : Moved u m src { v with resid := v.resid + extra } where
  iov := h.iov
  offset := h.offset
  resid := by
    have hv := h.resid
    have hlt := u.resid.toNat_lt
    change (v.resid + extra).toNat = _
    change v.resid.toNat = (u.resid - extra).toNat - m at hv
    rw [UInt32.toNat_sub_of_le _ _ hle] at hv
    rw [UInt32.toNat_add, hv, Nat.mod_eq_of_lt (by omega)]
    omega
  rw := h.rw
  out := h.out

/-- `sfs_io` for reading. -/
theorem wp_io_read {Q : Except Errno Unit → Fs × Uio → Prop} (hq : Quiet s) (hs : Sound files s)
    (hsv : sv ∈ files) (hread : u.rw = .read) (hl : u.Holds l)
    (henough : u.resid.toNat ≤ l.length) (hinside : u.offset + s.available sv u ≤ 143 * 512)
    (hQ : ∀ v, Moved u (s.available sv u) (s.bytesFrom sv u.offset (s.available sv u)) v →
      Q (.ok ()) (s, v)) :
    wp ok (io sv) Q (s, u) := by
  have hnot : u.rw ≠ .write := by
    rw [hread]
    decide
  obtain ⟨size, hsize⟩ : ∃ size, size = (s.inode sv).size.toNat := ⟨_, rfl⟩
  simp only [io, wp_bind, wp_get, then_ok, hread, true_and, ← hsize]
  rw [wp_ite]
  refine ⟨fun hpast => (wp_pure _).2 ?_, fun hin => ?_⟩
  · have hnone : s.available sv u = 0 := by
      unfold Fs.available
      omega
    rw [hnone] at hQ
    exact hQ u (.refl u _)
  · obtain ⟨extra, hextra⟩ : ∃ extra : UInt32, extra =
        if size < u.offset + u.resid.toNat then .ofNat (u.offset + u.resid.toNat - size) else 0 :=
      ⟨_, rfl⟩
    have hzero32 : (0 : UInt32).toNat = 0 := rfl
    have hcount : u.resid.toNat = s.available sv u + extra.toNat ∧
        (extra.toNat ≠ 0 → extra.toNat < u.resid.toNat) := by
      unfold Fs.available
      rw [hextra, ← hsize]
      split_ifs with hpast
      · rw [toNat_extraresid (Nat.not_le.1 hin) hpast]
        omega
      · omega
    obtain ⟨hsum, hless⟩ := hcount
    have hle : extra ≤ u.resid := UInt32.le_iff_toNat_le.2 (by omega)
    have hrest : (u.resid - extra).toNat = s.available sv u := by
      rw [UInt32.toNat_sub_of_le _ _ hle]
      omega
    rw [← hextra, wp_ite]
    refine ⟨fun hover => ?_, fun _ => ?_⟩
    · obtain ⟨hne, hge⟩ := hover
      have hne' : extra.toNat ≠ 0 := fun h => hne (UInt32.toNat_inj.1 h)
      have hge' := UInt32.le_iff_toNat_le.1 hge
      have hlt := hless hne'
      omega
    · have hu : Uio.Reads { u with resid := u.resid - extra } l := by
        refine ⟨hread, hl, ?_, ?_⟩
        · change (u.resid - extra).toNat ≤ l.length
          omega
        · change u.offset + (u.resid - extra).toNat ≤ 143 * 512
          rwa [hrest]
      rw [wp_bind, wp_onLocal, wp_modify, then_ok, wp_bind, wp_catching]
      refine wp_mono ((steps_read hq hs hsv hu).ioBody reading_start) fun r x hx => ?_
      cases r with
      | error e => exact hx.elim
      | ok _ =>
          obtain ⟨t, v⟩ := x
          obtain rfl : t = s := hx.same
          have hv := hx.moved
          rw [show Uio.resid { u with resid := u.resid - extra } = u.resid - extra from rfl, hrest]
            at hv
          have hvr : v.rw ≠ .write := by
            rw [hv.rw]
            exact hnot
          rw [then_ok, wp_bind, wp_get, then_ok, if_neg (fun h => hvr h.2.1), wp_bind, wp_onLocal,
            wp_modify, then_ok]
          exact (wp_pure _).2 (hQ _ (moved_extraresid hv hle hsum))

end Os161.Sfs

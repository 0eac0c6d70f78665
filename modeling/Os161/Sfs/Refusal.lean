import Os161.Sfs.Writing

set_option autoImplicit false

/-!
# Writing past the maximum file size

`sfs_bmap` refuses the file blocks from 143 on before anything has been moved. The number of the
block is computed in 32 bits, however, and so an offset from `2 ^ 41` on can be taken for one in
the file.
-/

namespace Os161.Sfs

open Os161.Lib.Calls Os161.Lib.Overlay

variable {ok : Panic → Prop} {files : Set Ptr} {s t : Fs} {sv : Ptr} {u : Uio} {offset len : Nat}

/-- Nothing has happened to the blocks of a file, its size and the bitmap. -/
structure Untouched (s t : Fs) (sv : Ptr) : Prop where
  mapping : ∀ i, t.mapping sv i = s.mapping sv i
  disk : ∀ i, s.mapping sv i ≠ 0 → t.disk (s.mapping sv i) = s.disk (s.mapping sv i)
  size : (t.inode sv).size = (s.inode sv).size
  freemap : t.freemap = s.freemap

theorem Untouched.byteAt (h : Untouched s t sv) : t.byteAt sv = s.byteAt sv := by
  funext p
  unfold Fs.byteAt
  rw [h.mapping]
  split_ifs with hzero
  · rfl
  · rw [h.disk _ hzero]

/-- A write of `len` bytes at `offset` is refused cleanly, whatever the disk does (`s.rest m` is the
volume with a disk that ends its transfers like `m`) and whatever the memory of the caller is. -/
def RefusesWrite (s : Fs) (sv : Ptr) (offset len : Nat) : Prop :=
  ∀ m u, u.rw = .write → u.offset = offset → u.resid.toNat = len →
    ∃ x, (io sv).result (s.rest m, u) = .ok (.error .EFBIG, x) ∧ Untouched s x.1 sv

/-! ## Block numbers that are too large -/

/-- `sfs_bmap` refuses the block before it looks at the disk. -/
theorem wp_bmap_big {f : UInt32} {doalloc : Bool} {Q : Except Errno Daddr → Fs → Prop}
    (hf : 143 ≤ f.toNat) (hQ : Q (.error .EFBIG) s) : wp ok (bmap sv f doalloc) Q s := by
  rw [bmap, wp_bind, wp_get, then_ok, dif_neg (by omega)]
  dsimp only
  rw [if_pos (by omega)]
  exact (wp_throw _).2 hQ

theorem wp_partialio_big {skipstart m : Nat} {Q : Except Errno Unit → Fs × Uio → Prop}
    (hbig : 143 ≤ u.filePos / 512) (hfit : skipstart + m ≤ 512) (hQ : Q (.error .EFBIG) (s, u)) :
    wp ok (partialio sv skipstart m) Q (s, u) := by
  rw [partialio, wp_bind, wp_get, then_ok]
  dsimp only
  rw [if_neg (Nat.not_lt.2 hfit), wp_bind, wp_framed]
  exact wp_bmap_big (by rw [toNat_fileblock]; exact hbig) hQ

theorem wp_blockio_big {Q : Except Errno Unit → Fs × Uio → Prop}
    (hbig : 143 ≤ u.filePos / 512) (hQ : Q (.error .EFBIG) (s, u)) :
    wp ok (blockio sv) Q (s, u) := by
  rw [blockio, wp_bind, wp_get, then_ok]
  dsimp only
  rw [wp_bind, wp_framed]
  exact wp_bmap_big (by rw [toNat_fileblock]; exact hbig) hQ

/-- The first step of a transfer is refused, and there is no other. -/
theorem steps_big (hbig : 143 ≤ u.filePos / 512) :
    Steps ok sv u.offset u.resid.toNat (fun n x => n = 0 ∧ x = (s, u))
      fun e x => e = .EFBIG ∧ x = (s, u) where
  place := by
    rintro n x ⟨rfl, rfl⟩
    exact ⟨Nat.zero_le _, rfl, rfl⟩
  part := by
    rintro n x m ⟨rfl, rfl⟩ - hfit -
    exact wp_partialio_big hbig hfit ⟨rfl, rfl⟩
  block := by
    rintro n x ⟨rfl, rfl⟩ - -
    exact wp_blockio_big hbig ⟨rfl, rfl⟩

/-- `sfs_io` for writing changes nothing at all. -/
theorem wp_io_big (hw : u.rw = .write) (hbig : 143 ≤ u.filePos / 512) (hres : u.resid.toNat ≠ 0) :
    wp ok (io sv) (fun r x => r = .error .EFBIG ∧ x = (s, u)) (s, u) := by
  refine wp_io_of_body hw (wp_mono ((steps_big hbig).ioBody ⟨rfl, rfl⟩) fun r x hx => ?_)
  cases r with
  | ok _ => exact absurd hx.1 hres
  | error e =>
      obtain ⟨rfl, rfl⟩ := hx
      refine ⟨rfl, ?_⟩
      have hsame : s.adjustSize sv u u.resid = s := if_neg fun h => h.1 rfl
      rw [hsame]

/-! ## Offsets that are taken for smaller ones -/

/-- The uio of a write of one byte again and again. -/
def fillUio (offset len : Nat) (c : UInt8) : Uio where
  iov := [(List.replicate len c).map some]
  offset := offset
  resid := .ofNat len
  rw := .write
  out := []

theorem toNat_resid_fillUio {c : UInt8} (hlen : len < 2 ^ 32) :
    (fillUio offset len c).resid.toNat = len := by
  change (UInt32.ofNat len).toNat = len
  rw [UInt32.toNat_ofNat']
  omega

theorem writes_fillUio {c : UInt8} (hlen : len < 2 ^ 32) :
    (fillUio offset len c).Writes (List.replicate len c) where
  rw := rfl
  holds := by simp [Uio.Holds, fillUio]
  enough := by
    rw [toNat_resid_fillUio hlen]
    exact List.length_replicate.ge

theorem Sound.rest (h : Sound files s) (m : List (Option Errno)) : Sound files (s.rest m) :=
  ⟨⟨h.framed.onDisk, h.framed.small, h.framed.covered, h.framed.spare, h.framed.superblock⟩,
    h.marked, h.once⟩

/-- A write that ends with `EFBIG` although its first byte is in the file has written that byte. -/
theorem IoEnds.byteAt_of_big {l : List UInt8} {c : UInt8} {x : Fs × Uio}
    (h : IoEnds files sv s u l (.error .EFBIG) x) (hin : u.filePos / 512 < 143)
    (hl : l.head? = some c) : x.1.byteAt sv u.filePos = c := by
  cases h with
  | @refused n _ _ hw _ he =>
      cases he with
      | big hbig =>
          have hn : n ≠ 0 := by
            rintro rfl
            omega
          rw [hw.updated.own, overlay, if_pos le_rfl, Nat.sub_self,
            List.getElem?_take_of_lt (Nat.pos_of_ne_zero hn), ← List.head?_eq_getElem?, hl]
          rfl

/-- A write of bytes that are not there yet is not refused cleanly. -/
theorem not_refusesWrite (hs : Sound files s) (hsv : sv ∈ files) (hpos : 0 < len)
    (hlen : len < 2 ^ 32) (hin : offset % 2 ^ 41 / 512 < 143) : ¬ RefusesWrite s sv offset len := by
  intro hrefuses
  obtain ⟨c, hc⟩ : ∃ c, c ≠ s.byteAt sv (offset % 2 ^ 41) :=
    ⟨s.byteAt sv (offset % 2 ^ 41) + 1, fun h => by simp at h⟩
  obtain ⟨x, hrun, hsame⟩ :=
    hrefuses [] (fillUio offset len c) rfl rfl (toNat_resid_fillUio hlen)
  have hwp : wp (fun _ => False) (io sv) _ (s.rest [], fillUio offset len c) :=
    wp_io_write rfl (hs.rest []) hsv (writes_fillUio hlen)
  have hwritten := (hwp.returns hrun).byteAt_of_big hin
    (List.head?_replicate.trans (if_neg hpos.ne'))
  rw [hsame.byteAt] at hwritten
  exact hc hwritten.symm

/-- A read at or past the end of a file transfers nothing. -/
theorem wp_io_past_end (hread : u.rw = .read) (hpast : (s.inode sv).size.toNat ≤ u.offset) :
    wp ok (io sv) (fun r x => r = .ok () ∧ x = (s, u)) (s, u) := by
  rw [io, wp_bind, wp_get, then_ok]
  dsimp only
  rw [if_pos ⟨hread, hpast⟩]
  exact (wp_pure _).2 ⟨rfl, rfl⟩

/-- A write at or past the maximum file size is refused cleanly if and only if the block number of
its offset is too large in 32 bits as well. A read at or past the end of the file transfers nothing
at any offset. -/
theorem io_refuses_iff (hs : Sound files s) (hsv : sv ∈ files) (hpos : 0 < len)
    (hlen : len < 2 ^ 32) : (RefusesWrite s sv offset len ↔ 143 ≤ offset % 2 ^ 41 / 512) ∧
      ∀ m u, u.rw = .read → (s.inode sv).size.toNat ≤ u.offset →
        (io sv).result (s.rest m, u) = .ok (.ok (), (s.rest m, u)) := by
  refine ⟨⟨fun h => ?_, ?_⟩, fun m u hread hpast => ?_⟩
  · by_contra hin
    exact not_refusesWrite hs hsv hpos hlen (Nat.not_le.1 hin) h
  · rintro hbig m u hw rfl rfl
    have hwp : wp (fun _ => False) (io sv) _ (s.rest m, u) := wp_io_big hw hbig hpos.ne'
    obtain ⟨r, x, hrun, rfl, rfl⟩ := hwp.exists_result
    exact ⟨_, hrun, ⟨fun _ => rfl, fun _ _ => rfl, rfl, rfl⟩⟩
  · have hwp : wp (fun _ => False) (io sv) _ (s.rest m, u) := wp_io_past_end hread hpast
    obtain ⟨r, x, hrun, rfl, rfl⟩ := hwp.exists_result
    exact hrun

/-- At the first offset past the end it is refused. -/
theorem io_refuses_oneBlock : RefusesWrite (oneBlock .zero) 1 (143 * 512) 1 :=
  (io_refuses_iff sound_oneBlock rfl (by decide) (by decide)).1.2 (by decide)

/-- At the offset `2 ^ 41` the byte goes to the front of the file, which is cut to one byte. -/
theorem not_refusesWrite_oneBlock : Sound {1} (oneBlock .zero) ∧ 143 * 512 ≤ 2 ^ 41 ∧
    ¬ RefusesWrite (oneBlock .zero) 1 (2 ^ 41) 1 ∧
    ∃ x, (io 1).result (oneBlock .zero, fillUio (2 ^ 41) 1 7) = .ok (.ok (), x) ∧
      x.1.byteAt 1 0 = 7 ∧ (x.1.inode 1).size = 1 := by
  refine ⟨sound_oneBlock, by decide, not_refusesWrite sound_oneBlock rfl (by decide) (by decide)
    (by decide), ?_⟩
  have hpos : (fillUio (2 ^ 41) 1 7).filePos = 0 := rfl
  have hone : (fillUio (2 ^ 41) 1 7).resid.toNat = 1 := rfl
  have hwp : wp (fun _ => False) (io 1) _ (oneBlock .zero, fillUio (2 ^ 41) 1 7) :=
    wp_io_write rfl sound_oneBlock rfl (writes_fillUio (by decide))
  obtain ⟨r, x, hrun, hends⟩ := hwp.exists_result
  cases hends with
  | done hw =>
      refine ⟨x, hrun, ?_, ?_⟩
      · rw [hw.updated.own]
        rfl
      · rw [hw.size]
        rfl
  | @refused n _ _ hw hlt he =>
      have hle : n ≤ 1 := hw.le.trans_eq hone
      have hblock : (0 + n) / 512 = 0 := Nat.div_eq_of_lt (by omega)
      rw [hpos, hblock] at he
      cases he with
      | big hbig => exact absurd hbig (by decide)
      | full _ _ hk =>
          obtain ⟨k, hk, hzero⟩ := hk
          obtain rfl : k = .data 0 := hk.resolve_right fun h => absurd h.1 (by decide)
          have hthree : (oneBlock .zero).slot 1 (.data 0) = 3 := slot_oneBlock _
          have hkept := hw.updated.kept 1 rfl (.data 0) (by rw [hthree]; decide)
          rw [hzero, hthree] at hkept
          exact absurd hkept (by decide)

end Os161.Sfs

import Os161.Sfs.Chunks
import Os161.Sfs.Growth

set_option autoImplicit false

/-!
# Writing to a file

`sfs_io` for writing moves a leading part, whole blocks and a trailing part. Each of these steps
either lays its bytes over the file or is refused and leaves the contents alone (`Refused`), and so
what a write has done when it ends is to lay the first bytes of its data over the file (`Writing`).
The file block is computed in 32 bits: offsets count modulo `2 ^ 41`.
-/

namespace Os161.Sfs

open Os161.Lib.Calls Os161.Lib.Overlay

variable {ok : Panic → Prop} {files : Set Ptr} {sv : Ptr} {N : Set Slot} {s t : Fs} {u : Uio}
  {l : List UInt8}

/-- `sfs_bmap` refuses the file block `i`: it is past the maximum, or there is no free block for
one of the slots that it needs. -/
inductive Refused (sv : Ptr) (i : Nat) (t : Fs) : Errno → Prop where
  | big : 143 ≤ i → Refused sv i t .EFBIG
  | full : i < 143 → (∀ b < t.nblocks, Marked t b) → (∃ k ∈ Needs i, t.slot sv k = 0) →
      Refused sv i t .ENOSPC

/-- Where in the file the next byte goes. -/
def Uio.filePos (u : Uio) : Nat := u.offset % 2 ^ 41

theorem toNat_fileblock (o : Nat) : (UInt32.ofNat (o / 512)).toNat = o % 2 ^ 41 / 512 := by
  rw [UInt32.toNat_ofNat']
  omega

/-- The uio of a write: `l` is in its memory. -/
structure Uio.Writes (u : Uio) (l : List UInt8) : Prop where
  rw : u.rw = .write
  holds : u.Holds l
  enough : u.resid.toNat ≤ l.length

/-- The slots of the file blocks that begin before the position `m`, from the first block of a
write on. -/
def SlotsTo (u : Uio) (m : Nat) : Set Slot :=
  {k | ∃ i < 143, u.filePos / 512 ≤ i ∧ 512 * i < m ∧ k ∈ Needs i}

theorem slotsTo_mono {m n : Nat} (h : m ≤ n) : SlotsTo u m ⊆ SlotsTo u n :=
  fun _ ⟨i, hi, hlo, hhi, hk⟩ => ⟨i, hi, hlo, hhi.trans_le h, hk⟩

theorem needs_subset_slotsTo {i m : Nat} (h : i < 143) (hlo : u.filePos / 512 ≤ i)
    (hhi : 512 * i < m) : Needs i ⊆ SlotsTo u m := fun _ hk => ⟨i, h, hlo, hhi, hk⟩

/-- `sfs_bmap` for the next byte of a write. -/
theorem wp_bmap_uio {Q : Except Errno Daddr → Fs × Uio → Prop} (hq : Quiet s)
    (hs : Sound files s) (hsv : sv ∈ files) (hu : u.Writes l)
    (hbig : 143 ≤ u.filePos / 512 → Q (.error .EFBIG) (s, u))
    (hfull : ∀ t, Refused sv (u.filePos / 512) t .ENOSPC →
      Wrote files sv (Needs (u.filePos / 512)) u.filePos [] s t → Q (.error .ENOSPC) (t, u))
    (hdone : ∀ t, u.filePos / 512 < 143 →
      Wrote files sv (Needs (u.filePos / 512)) u.filePos [] s t →
      t.mapping sv (u.filePos / 512) ≠ 0 → Q (.ok (t.mapping sv (u.filePos / 512))) (t, u)) :
    wp ok (framed (bmap sv (.ofNat (u.offset / 512)) (u.rw = .write))) Q (s, u) := by
  have hf : (UInt32.ofNat (u.offset / 512)).toNat = u.filePos / 512 := toNat_fileblock u.offset
  have hw : decide (u.rw = .write) = true := decide_eq_true hu.rw
  rw [wp_framed, hw]
  rw [← hf] at hbig hfull hdone
  exact wp_bmap_write hq hs hsv (Set.Subset.refl _) hbig
    (fun t hlt ht hall hk => hfull t (.full hlt hall hk) (ht.at _))
    fun t hlt ht hne => hdone t hlt (ht.at _) hne

/-- `sfs_partialio` for writing. -/
theorem wp_partialio_write {len : Nat} {Q : Except Errno Unit → Fs × Uio → Prop} (hq : Quiet s)
    (hs : Sound files s) (hsv : sv ∈ files) (hu : u.Writes l)
    (hlen : len ≤ u.resid.toNat) (hfit : u.filePos % 512 + len ≤ 512)
    (hbig : 143 ≤ u.filePos / 512 → Q (.error .EFBIG) (s, u))
    (hfull : ∀ t, Refused sv (u.filePos / 512) t .ENOSPC →
      Wrote files sv (Needs (u.filePos / 512)) u.filePos [] s t → Q (.error .ENOSPC) (t, u))
    (hdone : ∀ t v, u.filePos / 512 < 143 →
      Wrote files sv (Needs (u.filePos / 512)) u.filePos (l.take len) s t →
      t.mapping sv (u.filePos / 512) ≠ 0 → Moved u len [] v → Q (.ok ()) (t, v)) :
    wp ok (partialio sv (u.filePos % 512) len) Q (s, u) := by
  rw [partialio, wp_bind, wp_get, then_ok]
  dsimp only
  rw [if_neg (by omega), wp_bind]
  refine wp_bmap_uio hq hs hsv hu hbig hfull fun t hlt ht hne => ?_
  have hqt := ht.same.quiet hq
  have hdisk := (ht.sound.marked sv hsv (.data _) hne).2
  rw [then_ok, if_neg hne, wp_bind, wp_framed]
  refine wp_readblock_of hqt (.inr (ht.sound.framed.onDisk_of_lt hdisk)) ?_
  rw [then_ok, wp_bind, wp_onLocal]
  refine wp_uiomove_of hu.holds (hlen.trans hu.enough) hlen fun v hv => ?_
  rw [then_ok, if_pos hu.rw, wp_framed]
  refine wp_writeblock_of hqt (.inr (ht.sound.framed.onDisk_of_lt hdisk)) ?_
  have hdata : (l.take len).length = len := List.length_take_of_le (hlen.trans hu.enough)
  have hstore : Wrote files sv (Needs (u.filePos / 512))
      (512 * (u.filePos / 512) + u.filePos % 512) (l.take len) t _ :=
    wrote_store ht.sound hsv hne (by rwa [hdata])
  have hmapped := hstore.kept sv hsv (.data (u.filePos / 512)) hne
  rw [Nat.div_add_mod] at hstore
  exact hdone _ v hlt (ht.trans hsv hstore) (hmapped.trans_ne hne) (hv.of_write hu.rw _)

theorem splice_whole {c : Block} {data : List UInt8} (h : data.length = 512) :
    c.splice 0 data = .ofList data := by
  refine Block.ext_byte fun i hi => ?_
  rw [Block.byte_splice _ _ _ hi, if_pos ⟨Nat.zero_le i, by omega⟩, Block.ofList,
    Block.byte_ofBytes _ hi]
  rfl

/-- `sfs_blockio` for writing. -/
theorem wp_blockio_write {Q : Except Errno Unit → Fs × Uio → Prop} (hq : Quiet s)
    (hs : Sound files s) (hsv : sv ∈ files) (hu : u.Writes l)
    (hlen : 512 ≤ u.resid.toNat) (hfit : u.filePos % 512 = 0)
    (hbig : 143 ≤ u.filePos / 512 → Q (.error .EFBIG) (s, u))
    (hfull : ∀ t, Refused sv (u.filePos / 512) t .ENOSPC →
      Wrote files sv (Needs (u.filePos / 512)) u.filePos [] s t → Q (.error .ENOSPC) (t, u))
    (hdone : ∀ t v, u.filePos / 512 < 143 →
      Wrote files sv (Needs (u.filePos / 512)) u.filePos (l.take 512) s t →
      t.mapping sv (u.filePos / 512) ≠ 0 → Moved u 512 [] v → Q (.ok ()) (t, v)) :
    wp ok (blockio sv) Q (s, u) := by
  rw [blockio, wp_bind, wp_get, then_ok]
  dsimp only
  rw [wp_bind]
  refine wp_bmap_uio hq hs hsv hu hbig hfull fun t hlt ht hne => ?_
  have hqt := ht.same.quiet hq
  have hdisk := (ht.sound.marked sv hsv (.data _) hne).2
  obtain ⟨x, hx⟩ : ∃ x, x = t.mapping sv (u.filePos / 512) := ⟨_, rfl⟩
  have hres : ¬ u.resid < 512 := by
    rw [UInt32.not_lt]
    exact UInt32.le_iff_toNat_le.2 hlen
  rw [then_ok, if_neg hne, if_neg hres, wp_bind, wp_onLocal, wp_modify, then_ok, wp_bind,
    wp_catching, ← hx]
  have hbytes : (x * 512).toNat = x.toNat * 512 := hs.framed.toNat_mul (hx ▸ ht.same.nblocks ▸ hdisk)
  have hsector : Uio.OneSector { u with offset := (x * 512).toNat, resid := 512 } x l :=
    ⟨hu.holds, hlen.trans hu.enough, hbytes, rfl⟩
  refine wp_rwblock hqt (ht.sound.framed.onDisk_of_lt (hx ▸ hdisk)) hsector fun v hv => ?_
  have hafter : t.afterSector x { u with offset := (x * 512).toNat, resid := 512 } l =
      t.write x (.ofList (l.take 512)) := if_pos hu.rw
  have hdata : (l.take 512).length = 512 := List.length_take_of_le (hlen.trans hu.enough)
  have hstore : Wrote files sv (Needs (u.filePos / 512)) (512 * (u.filePos / 512) + 0)
      (l.take 512) t _ := wrote_store ht.sound hsv hne (by rw [hdata])
  have hmapped := (hstore.kept sv hsv (.data (u.filePos / 512)) hne).trans_ne hne
  have hpos : 512 * (u.filePos / 512) + 0 = u.filePos := by omega
  rw [splice_whole hdata, ← hx] at hstore hmapped
  rw [hpos] at hstore
  rw [hafter, then_ok, wp_bind, wp_onLocal, wp_modify, then_ok]
  refine (wp_pure _).2 (hdone _ _ hlt (ht.trans hsv hstore) hmapped ?_)
  exact (moved_restore hv rfl rfl hlen).of_write hu.rw _

/-! ## The steps of a write -/

/-- The first `n` bytes have been written, and their blocks are mapped. -/
structure Writing (files : Set Ptr) (sv : Ptr) (s : Fs) (u : Uio) (l : List UInt8) (n : Nat)
    (x : Fs × Uio) : Prop where
  le : n ≤ u.resid.toNat
  wrote : Wrote files sv (SlotsTo u (u.filePos + n)) u.filePos (l.take n) s x.1
  mapped : n ≠ 0 → ∀ i, u.filePos / 512 ≤ i → 512 * i < u.filePos + n → x.1.mapping sv i ≠ 0
  moved : Moved u n [] x.2
  pos : x.2.filePos = u.filePos + n

/-- The first `n` bytes have been written and what comes next is refused; a slot of the next block
may have been filled. -/
structure Stopped (files : Set Ptr) (sv : Ptr) (s : Fs) (u : Uio) (l : List UInt8) (n : Nat)
    (e : Errno) (x : Fs × Uio) : Prop where
  le : n ≤ u.resid.toNat
  wrote : Wrote files sv (SlotsTo u (u.filePos + n + 1)) u.filePos (l.take n) s x.1
  mapped : n ≠ 0 → ∀ i, u.filePos / 512 ≤ i → 512 * i < u.filePos + n → x.1.mapping sv i ≠ 0
  moved : Moved u n [] x.2
  left : n < u.resid.toNat ∨ (u.filePos + n) % 512 ≠ 0
  refused : Refused sv ((u.filePos + n) / 512) x.1 e

section Steps

variable {n : Nat} {x : Fs × Uio}

theorem writing_start (hs : Sound files s) : Writing files sv s u l 0 (s, u) where
  le := Nat.zero_le _
  wrote := .refl hs _
  mapped := fun h => absurd rfl h
  moved := .refl u []
  pos := rfl

theorem Writing.writes (h : Writing files sv s u l n x) (hu : u.Writes l) :
    x.2.Writes (l.drop n) where
  rw := h.moved.rw.trans hu.rw
  holds := h.moved.holds hu.holds
  enough := by
    have := hu.enough
    rw [h.moved.resid, List.length_drop]
    omega

/-- The next bytes have been written. -/
theorem Writing.next (h : Writing files sv s u l n x) (hsv : sv ∈ files) (hu : u.Writes l)
    {len : Nat} {v : Uio} (hlen : len ≤ x.2.resid.toNat)
    (hsome : 0 < len ∨ x.2.filePos % 512 ≠ 0) (hlt : x.2.filePos / 512 < 143)
    (hfit : x.2.filePos % 512 + len ≤ 512)
    (hw : Wrote files sv (Needs (x.2.filePos / 512)) x.2.filePos ((l.drop n).take len) x.1 t)
    (hne : t.mapping sv (x.2.filePos / 512) ≠ 0) (hv : Moved x.2 len [] v) :
    Writing files sv s u l (n + len) (t, v) := by
  have hresid := h.moved.resid
  have hle := h.le
  have hpos := h.pos
  have htake : (l.take n).length = n := List.length_take_of_le (hle.trans hu.enough)
  refine ⟨by omega, ?_, fun hmore i hlo hhi => ?_, h.moved.trans (by simpa using hv), ?_⟩
  · rw [List.take_add]
    refine (h.wrote.mono (slotsTo_mono (by omega))).trans hsv ?_
    rw [htake, ← hpos]
    exact hw.mono (needs_subset_slotsTo hlt (by omega) (by omega))
  · -- the block is the one that has just been written, or one before it
    by_cases hi : i = x.2.filePos / 512
    · rwa [hi]
    · have hold : x.1.mapping sv i ≠ 0 := h.mapped (by omega) i hlo (by omega)
      exact (hw.kept sv hsv (.data i) hold).trans_ne hold
  · change v.offset % 2 ^ 41 = _
    rw [hv.offset]
    unfold Uio.filePos at *
    omega

/-- What comes next is refused. -/
theorem Writing.stop (h : Writing files sv s u l n x) (hsv : sv ∈ files) {e : Errno}
    (hleft : n < u.resid.toNat ∨ x.2.filePos % 512 ≠ 0)
    (he : Refused sv (x.2.filePos / 512) t e)
    (ht : Wrote files sv (SlotsTo u (u.filePos + n + 1)) x.2.filePos [] x.1 t) :
    Stopped files sv s u l n e (t, x.2) := by
  rw [h.pos] at hleft he
  refine ⟨h.le, ?_, fun hn i hlo hhi => ?_, h.moved, hleft, he⟩
  · have hw := (h.wrote.mono (slotsTo_mono (Nat.le_succ _))).trans hsv (ht.at _)
    rwa [List.append_nil] at hw
  · have hold := h.mapped hn i hlo hhi
    exact (ht.kept sv hsv (.data i) hold).trans_ne hold

theorem Writing.stop_big (h : Writing files sv s u l n x) (hsv : sv ∈ files)
    (hleft : n < u.resid.toNat ∨ x.2.filePos % 512 ≠ 0) (hbig : 143 ≤ x.2.filePos / 512) :
    Stopped files sv s u l n .EFBIG x :=
  h.stop hsv hleft (.big hbig) (.refl h.wrote.sound _)

theorem Writing.stop_full (h : Writing files sv s u l n x) (hsv : sv ∈ files)
    (hleft : n < u.resid.toNat ∨ x.2.filePos % 512 ≠ 0)
    (he : Refused sv (x.2.filePos / 512) t .ENOSPC)
    (ht : Wrote files sv (Needs (x.2.filePos / 512)) x.2.filePos [] x.1 t) :
    Stopped files sv s u l n .ENOSPC (t, x.2) := by
  have hpos := h.pos
  cases he with
  | full hlt hall hk =>
      exact h.stop hsv hleft (.full hlt hall hk)
        (ht.mono (needs_subset_slotsTo hlt (by omega) (by omega)))

/-- The steps of a write. -/
theorem steps_write (hq : Quiet s) (hsv : sv ∈ files) (hu : u.Writes l) :
    Steps ok sv u.filePos u.resid.toNat (Writing files sv s u l)
      fun e x => ∃ n, Stopped files sv s u l n e x where
  place n x h := by
    have hpos := h.pos
    refine ⟨h.le, h.moved.resid, ?_⟩
    unfold Uio.filePos at *
    omega
  part n x m h hm hfit hsome := by
    have hresid := h.moved.resid
    rw [← h.pos] at hfit hsome ⊢
    have hleft : n < u.resid.toNat ∨ x.2.filePos % 512 ≠ 0 := by omega
    exact wp_partialio_write (h.wrote.same.quiet hq) h.wrote.sound hsv (h.writes hu) (by omega)
      hfit (fun hbig => ⟨n, h.stop_big hsv hleft hbig⟩)
      (fun t he ht => ⟨n, h.stop_full hsv hleft he ht⟩)
      fun t v hlt ht hne hv => h.next hsv hu (by omega) hsome hlt hfit ht hne hv
  block n x h hm hfit := by
    have hresid := h.moved.resid
    rw [← h.pos] at hfit
    have hleft : n < u.resid.toNat ∨ x.2.filePos % 512 ≠ 0 := .inl (by omega)
    exact wp_blockio_write (h.wrote.same.quiet hq) h.wrote.sound hsv (h.writes hu) (by omega)
      hfit (fun hbig => ⟨n, h.stop_big hsv hleft hbig⟩)
      (fun t he ht => ⟨n, h.stop_full hsv hleft he ht⟩)
      fun t v hlt ht hne hv => h.next hsv hu (by omega) (.inl (by omega)) hlt (by omega) ht hne hv

end Steps

/-- The body of `sfs_io`, for a write: everything has been written, or what comes next is
refused. -/
theorem wp_ioBody_write (hq : Quiet s) (hs : Sound files s) (hsv : sv ∈ files) (hu : u.Writes l) :
    wp ok (ioBody sv) (fun r x => match r with
      | .ok _ => Writing files sv s u l u.resid.toNat x
      | .error e => ∃ n, Stopped files sv s u l n e x) (s, u) :=
  (steps_write hq hsv hu).ioBody (writing_start hs)

/-! ## `sfs_io` -/

/-- What `sfs_io` has done when `n` bytes have been written and only slots in `N` filled. -/
structure Written (files : Set Ptr) (sv : Ptr) (N : Set Slot) (s : Fs) (u : Uio) (l : List UInt8)
    (n : Nat) (x : Fs × Uio) : Prop where
  le : n ≤ u.resid.toNat
  updated : Updated files sv N u.filePos (l.take n) s x.1
  mapped : n ≠ 0 → ∀ i, u.filePos / 512 ≤ i → 512 * i < u.filePos + n → x.1.mapping sv i ≠ 0
  moved : Moved u n [] x.2
  size : (x.1.inode sv).size =
    if n ≠ 0 ∧ (s.inode sv).size.toNat < u.offset + n then .ofNat (u.offset + n)
    else (s.inode sv).size

/-- How `sfs_io` ends. -/
inductive IoEnds (files : Set Ptr) (sv : Ptr) (s : Fs) (u : Uio) (l : List UInt8) :
    Except Errno Unit → Fs × Uio → Prop where
  | done {x : Fs × Uio} :
      Written files sv (SlotsTo u (u.filePos + u.resid.toNat)) s u l u.resid.toNat x →
      IoEnds files sv s u l (.ok ()) x
  | refused {n : Nat} {e : Errno} {x : Fs × Uio} :
      Written files sv (SlotsTo u (u.filePos + n + 1)) s u l n x →
      n < u.resid.toNat ∨ (u.filePos + n) % 512 ≠ 0 →
      Refused sv ((u.filePos + n) / 512) x.1 e → IoEnds files sv s u l (.error e) x

theorem Refused.setSize {i : Nat} {e : Errno} {z : UInt32} (h : Refused sv i t e) :
    Refused sv i (t.setSize sv z) e := by
  cases h with
  | big h => exact .big h
  | full h hfull hk => exact .full h hfull (by simpa only [setSize_slot] using hk)

/-- What `sfs_io` does with the size once its body is over. -/
def Fs.adjustSize (t : Fs) (sv : Ptr) (v : Uio) (origresid : UInt32) : Fs :=
  if v.resid ≠ origresid ∧ v.rw = .write ∧ (t.inode sv).size.toNat < v.offset then
    t.setSize sv (.ofNat v.offset)
  else t

theorem Wrote.adjustSize {n : Nat} {v : Uio} (hu : u.Writes l) (hle : n ≤ u.resid.toNat)
    (hw : Wrote files sv N u.filePos (l.take n) s t)
    (hmapped : n ≠ 0 → ∀ i, u.filePos / 512 ≤ i → 512 * i < u.filePos + n → t.mapping sv i ≠ 0)
    (hv : Moved u n [] v) :
    Written files sv N s u l n (t.adjustSize sv v u.resid, v) := by
  have hresid := hv.resid
  have hrw : v.rw = .write := hv.rw.trans hu.rw
  have hgrows : (v.resid ≠ u.resid ∧ v.rw = .write ∧ (t.inode sv).size.toNat < v.offset) ↔
      n ≠ 0 ∧ (s.inode sv).size.toNat < u.offset + n := by
    rw [ne_eq, ← UInt32.toNat_inj, hrw, hw.ownSize, hv.offset]
    simp only [true_and]
    exact and_congr_left fun _ => by omega
  unfold Fs.adjustSize
  by_cases hgrow : n ≠ 0 ∧ (s.inode sv).size.toNat < u.offset + n
  · rw [if_pos (hgrows.2 hgrow)]
    refine ⟨hle, hw.toUpdated.setSize, fun hn i hlo hhi => ?_, hv, ?_⟩
    · exact (setSize_slot (.data i)).trans_ne (hmapped hn i hlo hhi)
    · rw [if_pos hgrow, setSize_self, hv.offset]
  · rw [if_neg (mt hgrows.1 hgrow)]
    exact ⟨hle, hw.toUpdated, hmapped, hv, by rw [if_neg hgrow, hw.ownSize]⟩

theorem Refused.adjustSize {i : Nat} {e : Errno} {v : Uio} {origresid : UInt32}
    (h : Refused sv i t e) : Refused sv i (t.adjustSize sv v origresid) e := by
  unfold Fs.adjustSize
  split_ifs
  · exact h.setSize
  · exact h

/-- What is left of `sfs_io` for writing after the size is adjusted. -/
theorem wp_returned {r : Except Errno Unit} {v : Uio} {Q : Except Errno Unit → Fs × Uio → Prop}
    (h : Q r (t, v)) : wp ok (do
      onLocal (modify fun u => { u with resid := u.resid + 0 })
      match r with
      | .ok () => pure ()
      | .error e => throw e : IoCall Unit) Q (t, v) := by
  rw [wp_bind, wp_onLocal, wp_modify, then_ok, UInt32.add_zero]
  cases r with
  | ok _ => exact (wp_pure _).2 h
  | error e => exact (wp_throw _).2 h

/-- `sfs_io` for writing adjusts the size after its body, also when that has failed. -/
theorem wp_io_of_body {Q : Except Errno Unit → Fs × Uio → Prop} (hw : u.rw = .write)
    (h : wp ok (ioBody sv) (fun r x => Q r (x.1.adjustSize sv x.2 u.resid, x.2)) (s, u)) :
    wp ok (io sv) Q (s, u) := by
  have hnot : u.rw ≠ .read := by
    rw [hw]
    decide
  have hsub : { u with resid := u.resid - 0 } = u := by rw [UInt32.sub_zero]
  simp only [io, wp_bind, wp_get, then_ok, hnot, false_and, if_false, ne_eq, not_true_eq_false,
    wp_onLocal, wp_modify, hsub, wp_catching]
  refine wp_mono h fun r x hret => ?_
  unfold Fs.adjustSize at hret
  rw [wp_ite]
  refine ⟨fun hgrow => ?_, fun hkeep => ?_⟩
  · rw [if_pos hgrow] at hret
    rw [wp_bind, show x = (x.1, x.2) from rfl, wp_framed, wp_modify, then_ok]
    exact wp_returned hret
  · rw [if_neg hkeep] at hret
    exact wp_returned hret

/-- `sfs_io` for writing. -/
theorem wp_io_write (hq : Quiet s) (hs : Sound files s) (hsv : sv ∈ files) (hu : u.Writes l) :
    wp ok (io sv) (IoEnds files sv s u l) (s, u) := by
  refine wp_io_of_body hu.rw (wp_mono (wp_ioBody_write hq hs hsv hu) fun r x hx => ?_)
  cases r with
  | ok _ => exact .done (hx.wrote.adjustSize hu hx.le hx.mapped hx.moved)
  | error e =>
      obtain ⟨n, hx⟩ := hx
      exact .refused (hx.wrote.adjustSize hu hx.le hx.mapped hx.moved) hx.left hx.refused.adjustSize

end Os161.Sfs

import Mathlib.Algebra.GroupWithZero.Nat
import Os161.Sfs.Blocks

set_option autoImplicit false

/-!
# Moving data without errors

`uiomove` on memory that is good, whatever iovecs it is made of, and the transfer of one sector, in
the service of a `struct uio` of the caller or of a whole block, on a disk that does not fail.
-/

namespace Os161.Sfs

open Os161.Lib.Calls

variable {ok : Panic → Prop}

/-! ## `uiomove` -/

/-- The memory of the `uio` is good and holds these bytes. -/
def Uio.Holds (u : Uio) (l : List UInt8) : Prop := u.iov.flatten = l.map some

/-- `v` is `u` after `n` bytes have been moved, for a read from the front of `src`. -/
structure Moved (u : Uio) (n : Nat) (src : List UInt8) (v : Uio) : Prop where
  iov : v.iov.flatten = u.iov.flatten.drop n
  offset : v.offset = u.offset + n
  resid : v.resid.toNat = u.resid.toNat - n
  rw : v.rw = u.rw
  out : v.out = if u.rw = .read then u.out ++ src.take n else u.out

section Uiomove

variable {u v w : Uio} {n m : Nat} {src src' l : List UInt8}

theorem Moved.refl (u : Uio) (src : List UInt8) : Moved u 0 src u where
  iov := rfl
  offset := rfl
  resid := rfl
  rw := rfl
  out := by simp

/-- A move goes on where the one before it has stopped. -/
theorem Moved.trans (h : Moved u n src v) (h' : Moved v m (src.drop n) w) :
    Moved u (n + m) src w where
  iov := by rw [h'.iov, h.iov, List.drop_drop]
  offset := by rw [h'.offset, h.offset, Nat.add_assoc]
  resid := by rw [h'.resid, h.resid, Nat.sub_sub]
  rw := h'.rw.trans h.rw
  out := by
    rw [h'.out, h.out, h.rw]
    split_ifs
    · rw [List.append_assoc, ← List.take_add]
    · rfl

/-- What is read by two moves is what the first has read and what the second has read. -/
theorem Moved.append (h : Moved u n src v) (hn : src.length = n) (h' : Moved v m src' w) :
    Moved u (n + m) (src ++ src') w := by
  have hfirst : Moved u n (src ++ src') v :=
    { h with out := by rw [h.out, List.take_append_of_le_length hn.ge] }
  refine hfirst.trans ?_
  rwa [← hn, List.drop_left]

/-- A write reads nothing. -/
theorem Moved.of_write (h : Moved u n src v) (hw : u.rw = .write) (src' : List UInt8) :
    Moved u n src' v :=
  { h with out := by rw [h.out]; simp [hw] }

theorem Moved.holds (h : Moved u n src v) (hl : u.Holds l) : v.Holds (l.drop n) := by
  rw [Uio.Holds, h.iov, hl, List.map_drop]

/-- The state after the first iovec has been dealt with. -/
theorem moved_advance {seg : Iovec} {rest : List Iovec} {size : Nat} (hiov : u.iov = seg :: rest)
    (hsize : size ≤ seg.length) (hres : size ≤ u.resid.toNat) :
    Moved u size src (u.advance seg rest size src) where
  iov := by
    rw [hiov, List.flatten_cons, List.drop_append_of_le_length hsize]
    rfl
  offset := rfl
  resid := by
    have hlt := u.resid.toNat_lt
    have hle : UInt32.ofNat size ≤ u.resid := by
      rw [UInt32.le_iff_toNat_le, UInt32.toNat_ofNat']
      omega
    change (u.resid - UInt32.ofNat size).toNat = _
    rw [UInt32.toNat_sub_of_le _ _ hle, UInt32.toNat_ofNat', Nat.mod_eq_of_lt (by omega)]
  rw := rfl
  out := rfl

theorem reduceOption_take_map (l : List UInt8) (n : Nat) :
    ((l.map some).take n).reduceOption = l.take n := by
  rw [← List.map_take]
  change ((l.take n).map some).filterMap id = l.take n
  simp [-List.map_take]

/-- `uiomove` moves as much as it is asked for, when there is memory for it. -/
theorem wp_uiomoveFrom (iov : List Iovec) : ∀ {n : Nat} {src l : List UInt8} {u : Uio}
    {Q : Except Errno (List UInt8) → Uio → Prop}, u.iov = iov → u.Holds l → n ≤ l.length →
    n ≤ u.resid.toNat → (∀ v, Moved u n src v → Q (.ok (l.take n)) v) →
    wp ok (uiomoveFrom iov n src) Q u := by
  -- the induction is on the iovecs: the first gives `size` bytes, the others the rest
  induction iov with
  | nil =>
      intro n src l u Q hiov hl hn hres hQ
      have hnil : l = [] := by
        rw [Uio.Holds, hiov] at hl
        simpa using hl.symm
      subst hnil
      obtain rfl : n = 0 := by simpa using hn
      rw [uiomoveFrom, wp_bind, wp_get, then_ok, if_pos (.inl rfl), wp_pure]
      exact hQ u (.refl u src)
  | cons seg rest ih =>
      intro n src l u Q hiov hl hn hres hQ
      rw [uiomoveFrom, wp_bind, wp_get, then_ok, wp_ite]
      have hflat : seg ++ rest.flatten = l.map some := by
        rw [← hl, hiov, List.flatten_cons]
      have hseg : seg = (l.take seg.length).map some := by
        rw [List.map_take, ← hflat, List.take_left]
      have hrest : rest.flatten = (l.drop seg.length).map some := by
        rw [List.map_drop, ← hflat, List.drop_left]
      refine ⟨fun h => ?_, fun h => ?_⟩
      · obtain rfl : n = 0 := by
          rcases h with h | h
          · exact h
          · rw [h] at hres
            exact Nat.le_zero.1 hres
        rw [wp_pure]
        exact hQ u (.refl u src)
      · simp only [wp_bind, wp_ite, wp_throw, wp_pure, wp_set, then_ok, wp_get, wp_halt]
        obtain ⟨size, hsize⟩ : ∃ size, size = min seg.length n := ⟨_, rfl⟩
        rw [← hsize]
        have htake : seg.take size = (l.map some).take size := by
          rw [← hflat, List.take_append_of_le_length (by omega)]
        have hgood : (seg.take size).any Option.isNone = false := by
          rw [htake, any_isNone_map_some]
        have hdata : (seg.take size).reduceOption = l.take size := by
          rw [htake, reduceOption_take_map]
        rw [hgood, hdata]
        -- what follows the copy, whether it has moved anything or not
        have htail : ∀ u', Moved u size src u' →
            (n = size ∨ u'.resid = 0 → Q (.ok (l.take size)) u') ∧
            (¬ (n = size ∨ u'.resid = 0) → (rest = [] → ok .outOfBuffers) ∧
              (rest ≠ [] → wp ok (uiomoveFrom rest (n - size) (src.drop size))
                (Then ok (fun more => pure (l.take size ++ more)) Q) { u' with iov := rest })) := by
          intro u' hu'
          have hresid := hu'.resid
          refine ⟨fun hstop => ?_, fun hmore => ⟨fun hnil => ?_, fun _ => ?_⟩⟩
          · have hn : n = size := by
              rcases hstop with hstop | hstop
              · exact hstop
              · rw [hstop, show (0 : UInt32).toNat = 0 from rfl] at hresid
                omega
            rw [← hn] at hu' ⊢
            exact hQ u' hu'
          · have hlen := congrArg List.length hflat
            rw [hnil] at hlen
            simp only [List.flatten_nil, List.append_nil, List.length_map] at hlen
            exact absurd (.inl (by omega)) hmore
          · have hlt : size = seg.length := by
              have := (not_or.1 hmore).1
              omega
            have hstart : Moved u size src { u' with iov := rest } :=
              { hu' with iov := by rw [hl, ← hflat, hlt, List.drop_left] }
            have hlen : n - size ≤ (l.drop size).length := by
              rw [List.length_drop]
              omega
            refine ih rfl (by rw [hlt]; exact hrest) hlen (by rw [hresid]; omega) fun v hv => ?_
            have hmoved := hstart.trans hv
            have hsum : size + (n - size) = n := by omega
            rw [hsum] at hmoved
            rw [then_ok, wp_pure, ← List.take_add, hsum]
            exact hQ v hmoved
        refine ⟨fun hbad => absurd hbad (by simp), fun _ => ⟨fun hzero => htail u ?_,
          fun _ => htail _ (moved_advance hiov (by omega) (by omega))⟩⟩
        rw [hzero]
        exact .refl u src

theorem wp_uiomove_of {Q : Except Errno (List UInt8) → Uio → Prop} (hl : u.Holds l)
    (hn : n ≤ l.length) (hres : n ≤ u.resid.toNat)
    (hQ : ∀ v, Moved u n src v → Q (.ok (l.take n)) v) : wp ok (uiomove n src) Q u := by
  rw [uiomove, wp_bind, wp_get, then_ok]
  exact wp_uiomoveFrom u.iov rfl hl hn hres hQ

/-- `uiomovezeros`, cut into pieces of some sizes. -/
theorem wp_zeros (amts : List Nat) : ∀ {l : List UInt8} {u : Uio}
    {Q : Except Errno Unit → Uio → Prop}, u.Holds l → amts.sum ≤ l.length →
    amts.sum ≤ u.resid.toNat →
    (∀ v, Moved u amts.sum (List.replicate amts.sum 0) v → Q (.ok ()) v) →
    wp ok (forEach amts fun amt => do let _ ← uiomove amt (List.replicate amt 0); pure ()) Q u := by
  induction amts with
  | nil =>
      intro l u Q hl hlen hres hQ
      exact (wp_pure _).2 (hQ u (.refl u _))
  | cons amt amts ih =>
      intro l u Q hl hlen hres hQ
      rw [List.sum_cons] at hlen hres hQ
      rw [forEach, wp_bind, wp_bind]
      refine wp_uiomove_of hl (by omega) (by omega) fun v hv => ?_
      rw [then_ok, wp_pure, then_ok]
      have hresid := hv.resid
      refine ih (hv.holds hl) (by rw [List.length_drop]; omega) (by omega) fun w hw => hQ w ?_
      rw [← List.replicate_append_replicate]
      exact hv.append List.length_replicate hw

theorem wp_uiomovezeros {Q : Except Errno Unit → Uio → Prop} (hl : u.Holds l)
    (hn : n ≤ l.length) (hres : n ≤ u.resid.toNat)
    (hQ : ∀ v, Moved u n (List.replicate n 0) v → Q (.ok ()) v) :
    wp ok (uiomovezeros n) Q u := by
  have hsum : (List.replicate (n / 16) 16 ++ if n % 16 = 0 then [] else [n % 16]).sum = n := by
    split_ifs <;> simp <;> omega
  refine wp_zeros _ hl (hsum.le.trans hn) (hsum.le.trans hres) fun v hv => hQ v ?_
  rwa [hsum] at hv

end Uiomove

/-! ## One sector -/

variable {s : Fs} {u v : Uio} {l : List UInt8} {b : Daddr}

theorem Quiet.nextMedia {Q : Except Errno (Option Errno) → Fs → Prop} (h : Quiet s)
    (hQ : Q (.ok none) s) : wp ok nextMedia Q s := by
  refine wp_nextMedia fun m hm _ => ?_
  rw [h.rest hm, h]
  exact hQ

/-- `lhd_io` is asked for one sector that the disk has. -/
structure Uio.OneSector (u : Uio) (b : Daddr) (l : List UInt8) : Prop where
  holds : u.Holds l
  length : 512 ≤ l.length
  offset : u.offset = b.toNat * 512
  resid : u.resid = 512

/-- What the transfer of the sector has done to the disk. -/
def Fs.afterSector (s : Fs) (b : Daddr) (u : Uio) (l : List UInt8) : Fs :=
  if u.rw = .write then s.write b (.ofList (l.take 512)) else s

/-- One sector is moved. -/
theorem wp_lhdIo {Q : Except Errno Unit → Fs × Uio → Prop} (hq : Quiet s) (hb : b < s.dBlocks)
    (hu : u.OneSector b l)
    (hQ : ∀ v, Moved u 512 (s.disk b).bytes v → Q (.ok ()) (s.afterSector b u l, v)) :
    wp ok lhdIo Q (s, u) := by
  have h512 : (512 : UInt32) % 512 = 0 := by decide
  have hdiv : (512 : UInt32) / 512 = 1 := by decide
  have hone : List.range (1 : UInt32).toNat = [0] := by decide
  have hend : ¬ s.dBlocks < b + 1 := by
    have hlt := UInt32.lt_iff_toNat_lt.1 hb
    have hmax := s.dBlocks.toNat_lt
    have hadd : (b + 1).toNat = (b.toNat + 1) % 2 ^ 32 := UInt32.toNat_add b 1
    rw [UInt32.lt_iff_toNat_lt, hadd]
    omega
  have hres : 512 ≤ u.resid.toNat := by
    rw [hu.resid]
    decide
  simp only [lhdIo, wp_bind, wp_get, then_ok, hu.offset, hu.resid, Nat.mul_mod_left, h512, ne_eq,
    not_true_eq_false, or_self, if_false, sector_sfsuio, hdiv, hend, hone, forEach, add_ofNat_zero]
  have hafter : s.afterSector b u l =
      if u.rw = .write then s.write b (.ofList (l.take 512)) else s := rfl
  rw [lhdSector, wp_bind, wp_get, then_ok, wp_ite]
  refine ⟨fun hwrite => ?_, fun hread => ?_⟩
  · rw [hafter, if_pos hwrite] at hQ
    rw [wp_bind, wp_onLocal]
    refine wp_uiomove_of hu.holds hu.length hres fun v hv => ?_
    rw [then_ok, wp_bind, wp_framed]
    refine hq.nextMedia ?_
    rw [then_ok, wp_framed, wp_modify, then_ok, wp_pure]
    exact hQ v (hv.of_write hwrite _)
  · rw [hafter, if_neg hread] at hQ
    rw [wp_bind, wp_framed]
    refine hq.nextMedia ?_
    rw [then_ok, wp_bind, wp_get, then_ok, wp_bind, wp_onLocal]
    refine wp_uiomove_of hu.holds hu.length hres fun v hv => ?_
    rw [then_ok, wp_pure, then_ok, wp_pure]
    exact hQ v hv

/-- No retry is needed. -/
theorem wp_rwblock {Q : Except Errno Unit → Fs × Uio → Prop} (hq : Quiet s) (hb : b < s.dBlocks)
    (hu : u.OneSector b l)
    (hQ : ∀ v, Moved u 512 (s.disk b).bytes v → Q (.ok ()) (s.afterSector b u l, v)) :
    wp ok rwblock Q (s, u) := by
  rw [rwblock, rwblockFrom, wp_bind, wp_catching]
  refine wp_lhdIo hq hb hu fun v hv => ?_
  change wp ok (pure ()) Q _
  exact (wp_pure _).2 (hQ v hv)

/-! ## One block -/

theorem holds_sfsuio (l : List UInt8) (b : Daddr) (rw : Rw) :
    (sfsuio (l.map some) b rw).Holds l := by
  simp [Uio.Holds, sfsuio]

/-- `sfs_readblock` of a block that the disk has; otherwise it panics. -/
theorem wp_readblock_of {Q : Except Errno Block → Fs → Prop} (hq : Quiet s)
    (hb : ok .deviceInvalid ∨ b < s.dBlocks) (hQ : Q (.ok (s.disk b)) s) :
    wp ok (readblock b) Q s := by
  rcases hb with hdev | hb
  · exact hq.readblock hdev hQ
  · have hrep : List.replicate 512 (some 0) = (List.replicate 512 (0 : UInt8)).map some :=
      List.map_replicate.symm
    rw [readblock, wp_bind, wp_withLocal, hrep]
    have hu : (sfsuio ((List.replicate 512 0).map some) b .read).OneSector b
        (List.replicate 512 0) := ⟨holds_sfsuio _ b .read, List.length_replicate.ge, rfl, rfl⟩
    refine wp_rwblock hq hb hu fun v hv => ?_
    have hout : v.out = (s.disk b).bytes := by
      rw [hv.out, sfsuio_rw, if_pos rfl, List.take_of_length_le (length_bytes _).le]
      exact List.nil_append _
    change wp ok (pure (Block.ofList v.out)) Q s
    rwa [wp_pure, hout, Block.ofList_bytes]

/-- `sfs_writeblock` to a block that the disk has; otherwise it panics. -/
theorem wp_writeblock_of {c : Block} {Q : Except Errno Unit → Fs → Prop} (hq : Quiet s)
    (hb : ok .deviceInvalid ∨ b < s.dBlocks) (hQ : Q (.ok ()) (s.write b c)) :
    wp ok (writeblock b c) Q s := by
  rcases hb with hdev | hb
  · exact hq.writeblock hdev hQ
  · rw [writeblock, wp_bind, wp_withLocal]
    have hu : (sfsuio (c.bytes.map some) b .write).OneSector b c.bytes :=
      ⟨holds_sfsuio _ b .write, (length_bytes c).ge, rfl, rfl⟩
    refine wp_rwblock hq hb hu fun v hv => ?_
    have hafter : s.afterSector b (sfsuio (c.bytes.map some) b .write) c.bytes = s.write b c := by
      rw [Fs.afterSector, sfsuio_rw, if_pos rfl, List.take_of_length_le (length_bytes c).le,
        Block.ofList_bytes]
    rw [hafter]
    exact (wp_pure _).2 hQ

/-! ## Allocation -/

/-- The volume is small enough for `sfs_blockio`, and its bitmap has no block to give away that is
not there. -/
structure Framed (s : Fs) : Prop where
  onDisk : s.nblocks ≤ s.dBlocks
  small : s.nblocks.toNat < 2 ^ 23
  covered : s.nblocks ≤ s.freemap.nbits
  spare : ∀ b, s.nblocks ≤ b → b < s.freemap.nbits → Marked s b
  superblock : Marked s 0

theorem Framed.onDisk_of_lt (h : Framed s) (hb : b < s.nblocks) : b < s.dBlocks :=
  UInt32.lt_of_lt_of_le hb h.onDisk

/-- The offset of a block on the disk fits in 32 bits. -/
theorem Framed.toNat_mul (h : Framed s) (hb : b < s.nblocks) : (b * 512).toNat = b.toNat * 512 := by
  have hsmall := h.small
  have hlt := UInt32.lt_iff_toNat_lt.1 hb
  rw [UInt32.toNat_mul, show (512 : UInt32).toNat = 512 from rfl, Nat.mod_eq_of_lt (by omega)]

theorem Bitmap.firstClear_lt {m : Bitmap} (h : m.firstClear = some b) : b < m.nbits := by
  obtain ⟨i, hi, rfl⟩ := List.mem_map.1 (List.mem_of_find?_eq_some h)
  rw [List.mem_range] at hi
  have hlt := m.nbits.toNat_lt
  rw [UInt32.lt_iff_toNat_lt, UInt32.toNat_ofNat', Nat.mod_eq_of_lt (by omega)]
  exact hi

theorem Bitmap.firstClear_eq_none {m : Bitmap} (h : m.firstClear = none) (hb : b < m.nbits) :
    m.isset b = true := by
  have hmem : b ∈ (List.range m.nbits.toNat).map UInt32.ofNat :=
    List.mem_map.2 ⟨b.toNat, List.mem_range.2 (UInt32.lt_iff_toNat_lt.1 hb), UInt32.ofNat_toNat⟩
  simpa using List.find?_eq_none.1 h b hmem

/-- `sfs_balloc`: all blocks are in use, or one that is not is taken and cleared. -/
theorem wp_balloc {Q : Except Errno Daddr → Fs → Prop} (hq : Quiet s) (h : Framed s)
    (hfull : (∀ b < s.nblocks, Marked s b) → Q (.error .ENOSPC) s)
    (hdone : ∀ b, b < s.nblocks → ¬ Marked s b → Q (.ok b) ((s.mark b true).write b .zero)) :
    wp ok balloc Q s := by
  rw [balloc, wp_bind, wp_get, then_ok]
  cases hb : s.freemap.firstClear with
  | none =>
      refine (wp_throw _).2 (hfull fun b hlt => ?_)
      exact Bitmap.firstClear_eq_none hb (UInt32.lt_of_lt_of_le hlt h.covered)
  | some b =>
      have hclear : ¬ Marked s b := by simp [Marked, Bitmap.firstClear_eq_some hb]
      have hlt : b < s.nblocks := by
        by_contra hge
        exact hclear (h.spare b (UInt32.not_lt.1 hge) (Bitmap.firstClear_lt hb))
      have hq' : Quiet (s.mark b true) := hq
      simp only [wp_bind, wp_set, then_ok, wp_ite, wp_halt]
      refine ⟨fun hle => absurd hlt (UInt32.not_lt.2 hle), fun _ => ?_⟩
      rw [wp_catching, clearblock]
      refine wp_writeblock_of hq' (.inr (h.onDisk_of_lt hlt)) ?_
      rw [then_ok, wp_pure]
      exact hdone b hlt hclear

theorem wp_bused_of {Q : Except Errno Bool → Fs → Prop} (hb : b < s.nblocks)
    (hQ : Q (.ok (s.freemap.isset b)) s) : wp ok (bused b) Q s := by
  rw [bused, wp_bind, wp_get, then_ok, if_neg (UInt32.not_le.2 hb), wp_pure]
  exact hQ

end Os161.Sfs

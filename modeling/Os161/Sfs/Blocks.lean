import Os161.Sfs.Volume

set_option autoImplicit false

/-!
# Moving and allocating one block

What `sfs_readblock` and `sfs_writeblock` do on a disk that may fail, and what the functions of
`sfs_balloc.c` do on a disk that does not.
-/

namespace Os161.Sfs

open Os161.Lib.Calls

variable {ok : Panic → Prop} {s : Fs} {b : Daddr}

/-! ## One sector -/

theorem any_isNone_map_some (l : List UInt8) (n : Nat) :
    ((l.map some).take n).any Option.isNone = false := by
  rw [← List.map_take, List.any_map]
  induction l.take n with
  | nil => rfl
  | cons a l ih => simp

/-- Moving exactly what is left of the only iovec. -/
theorem wp_uiomove {l : List UInt8} {src : List UInt8} {u : Uio}
    {Q : Except Errno (List UInt8) → Uio → Prop} (hiov : u.iov = [l.map some])
    (hlen : l.length = 512) (hres : u.resid = 512)
    (hQ : Q (.ok l) (u.advance (l.map some) [] 512 src)) : wp ok (uiomove 512 src) Q u := by
  have hmin : min (l.map some).length 512 = 512 := by simp [hlen]
  have htake : ((l.map some).take 512).reduceOption = l := by
    rw [List.take_of_length_le (by simp [hlen])]
    change (l.map some).filterMap id = l
    simp
  simp only [uiomove, wp_bind, wp_get, then_ok, hiov, uiomoveFrom, hres, hmin]
  simp only [any_isNone_map_some, htake]
  simpa [Except.map] using hQ

theorem sector_sfsuio (b : Daddr) : (UInt32.ofNat (b.toNat * 512 / 512)) = b := by
  rw [Nat.mul_div_cancel _ (by decide), UInt32.ofNat_toNat]

@[simp] theorem sfsuio_offset (iov : Iovec) (b : Daddr) (rw : Rw) :
    (sfsuio iov b rw).offset = b.toNat * 512 := rfl

@[simp] theorem sfsuio_resid (iov : Iovec) (b : Daddr) (rw : Rw) :
    (sfsuio iov b rw).resid = 512 := rfl

@[simp] theorem sfsuio_rw (iov : Iovec) (b : Daddr) (rw : Rw) : (sfsuio iov b rw).rw = rw := rfl

@[simp] theorem add_ofNat_zero (b : Daddr) : b + UInt32.ofNat 0 = b := UInt32.add_zero b

theorem length_bytes (c : Block) : c.bytes.length = 512 := Block.length_slice c 0 512

/-- What a transfer of a sector can do when the disk reports the errors in `media`: they are used up
from the front. -/
def Fs.rest (s : Fs) (m : List (Option Errno)) : Fs := { s with media := m }

@[simp] theorem rest_media (s : Fs) : s.rest s.media = s := rfl

/-- The disk with a block written. -/
def Fs.write (s : Fs) (b : Daddr) (c : Block) : Fs :=
  { s with disk := Function.update s.disk b c }

theorem wp_nextMedia_head {Q : Except Errno (Option Errno) → Fs → Prop} :
    wp ok nextMedia Q s ↔ Q (.ok s.media.head?.join) (s.rest s.media.tail) := by
  simp only [nextMedia, wp_bind, wp_get, then_ok, wp_set, wp_pure]
  exact Iff.rfl

theorem mem_of_head {e : Errno} {m : List (Option Errno)} (h : m.head?.join = some e) :
    some e ∈ m := by
  cases m with
  | nil => cases h
  | cons x m =>
      cases h
      exact List.mem_cons_self

theorem wp_nextMedia {Q : Except Errno (Option Errno) → Fs → Prop}
    (h : ∀ m, m <:+ s.media → (∀ e, s.media.head?.join = some e → some e ∈ s.media) →
      Q (.ok s.media.head?.join) (s.rest m)) : wp ok nextMedia Q s :=
  wp_nextMedia_head.2 (h _ (List.tail_suffix _) fun _ => mem_of_head)

/-- `lhd_io` for one sector that is written; the first of `media` is how it ends. -/
theorem wp_lhdIo_write_head {c : Block} {Q : Except Errno Unit → Fs × Uio → Prop}
    (hend : Q (.error .EINVAL) (s, sfsuio (c.bytes.map some) b .write))
    (hfail : ∀ e u, s.media.head?.join = some e → u.resid = 0 →
      Q (.error e) (s.rest s.media.tail, u))
    (hdone : ∀ u, s.media.head?.join = none → Q (.ok ()) ((s.write b c).rest s.media.tail, u)) :
    wp ok lhdIo Q (s, sfsuio (c.bytes.map some) b .write) := by
  have h512 : (512 : UInt32) % 512 = 0 := by decide
  have hone : List.range ((512 : UInt32) / 512).toNat = [0] := by decide
  simp only [lhdIo, wp_bind, wp_get, then_ok, sfsuio_offset, sfsuio_resid, Nat.mul_mod_left, h512,
    ne_eq, not_true_eq_false, or_self, if_false, sector_sfsuio, hone, forEach]
  rw [wp_ite]
  refine ⟨fun _ => (wp_throw _).2 hend, fun _ => ?_⟩
  simp only [lhdSector, wp_bind, wp_get, then_ok, sfsuio_rw, if_true, wp_onLocal]
  refine wp_uiomove rfl (length_bytes c) rfl ?_
  simp only [then_ok, wp_bind, wp_framed]
  rw [wp_nextMedia_head, then_ok]
  cases hhead : s.media.head?.join with
  | some e => exact (wp_throw _).2 (hfail e _ hhead (UInt32.sub_self 512))
  | none =>
      simp only [wp_framed, wp_modify, then_ok, wp_pure, Block.ofList_bytes, add_ofNat_zero]
      exact hdone _ hhead

/-- `lhd_io` for one sector that is read. -/
theorem wp_lhdIo_read {Q : Except Errno Unit → Fs × Uio → Prop} {iov : List UInt8}
    (hiov : iov.length = 512)
    (hend : Q (.error .EINVAL) (s, sfsuio (iov.map some) b .read))
    (hfail : ∀ m e, m <:+ s.media → some e ∈ s.media →
      Q (.error e) (s.rest m, sfsuio (iov.map some) b .read))
    (hdone : ∀ m u, m <:+ s.media → u.out = (s.disk b).bytes → Q (.ok ()) (s.rest m, u)) :
    wp ok lhdIo Q (s, sfsuio (iov.map some) b .read) := by
  have h512 : (512 : UInt32) % 512 = 0 := by decide
  have hone : List.range ((512 : UInt32) / 512).toNat = [0] := by decide
  simp only [lhdIo, wp_bind, wp_get, then_ok, sfsuio_offset, sfsuio_resid, Nat.mul_mod_left, h512,
    ne_eq, not_true_eq_false, or_self, if_false, sector_sfsuio, hone, forEach]
  rw [wp_ite]
  refine ⟨fun _ => (wp_throw _).2 hend, fun _ => ?_⟩
  simp only [lhdSector, wp_bind, wp_get, then_ok, sfsuio_rw, reduceCtorEq, if_false, wp_framed]
  refine wp_nextMedia fun m hm he => ?_
  rw [then_ok]
  cases hhead : s.media.head?.join with
  | some e => exact (wp_throw _).2 (hfail m e hm (he e hhead))
  | none =>
      simp only [wp_bind, wp_get, then_ok, wp_onLocal, add_ofNat_zero]
      refine wp_uiomove rfl hiov rfl ?_
      simp only [then_ok, wp_pure]
      refine hdone m _ hm ?_
      rw [Uio.advance]
      simp [sfsuio, List.take_of_length_le, length_bytes, Fs.rest]

/-- A retry of a write finds nothing left to be written. -/
theorem wp_lhdIo_empty {u : Uio} (hu : u.resid = 0) {Q : Except Errno Unit → Fs × Uio → Prop}
    (hinv : Q (.error .EINVAL) (s, u)) (hdone : Q (.ok ()) (s, u)) : wp ok lhdIo Q (s, u) := by
  have h0 : (0 : UInt32) % 512 = 0 := by decide
  have hnil : List.range ((0 : UInt32) / 512).toNat = [] := by decide
  simp only [lhdIo, wp_bind, wp_get, then_ok, hu, h0, hnil, forEach]
  rw [wp_ite, wp_ite]
  exact ⟨fun _ => (wp_throw _).2 hinv, fun _ => ⟨fun _ => (wp_throw _).2 hinv,
    fun _ => (wp_pure _).2 hdone⟩⟩

theorem wp_rwblockEnd {r : Except Errno Unit} {t : Fs × Uio}
    {Q : Except Errno Unit → Fs × Uio → Prop} (hdev : ok .deviceInvalid)
    (h : r ≠ .error .EINVAL → Q r t) : wp ok (rwblockEnd r) Q t := by
  unfold rwblockEnd
  split
  · exact (wp_pure _).2 (h (by simp))
  · exact (wp_halt _).2 hdev
  · next e he => exact (wp_throw _).2 (h (by simpa using he))

/-- A sector is read, or the disk has reported an error. -/
theorem wp_rwblock_read {Q : Except Errno Unit → Fs × Uio → Prop} {iov : List UInt8}
    (hdev : ok .deviceInvalid) (hiov : iov.length = 512)
    (hfail : ∀ m u e, m <:+ s.media → some e ∈ s.media → Q (.error e) (s.rest m, u))
    (hdone : ∀ m u, m <:+ s.media → u.out = (s.disk b).bytes → Q (.ok ()) (s.rest m, u)) :
    ∀ n, wp ok (rwblockFrom n) Q (s, sfsuio (iov.map some) b .read) := by
  -- an attempt that fails leaves the uio as it was, and so the next one is an attempt like it
  intro n
  induction n generalizing s with
  | zero =>
      rw [rwblockFrom, wp_bind, wp_catching]
      refine wp_lhdIo_read hiov ?_ (fun m e hm he => ?_) fun m u hm hu => ?_
      · exact wp_rwblockEnd hdev fun h => absurd rfl h
      · exact wp_rwblockEnd hdev fun _ => hfail m _ e hm he
      · exact wp_rwblockEnd hdev fun _ => hdone m u hm hu
  | succ n ih =>
      rw [rwblockFrom, wp_bind, wp_catching]
      refine wp_lhdIo_read hiov ?_ (fun m e hm he => ?_) fun m u hm hu => ?_
      · exact wp_rwblockEnd hdev fun h => absurd rfl h
      · rw [then_ok]
        split
        · exact ih (fun m' u e hm' he => hfail m' u e (hm'.trans hm) (hm.subset he))
            fun m' u hm' hu => hdone m' u (hm'.trans hm) hu
        · exact wp_rwblockEnd hdev fun _ => hfail m _ e hm he
      · exact wp_rwblockEnd hdev fun _ => hdone m u hm hu

/-- A sector is written, or the disk has reported an error. After `EIO` the retry writes nothing
and succeeds. -/
theorem wp_rwblock_write {Q : Except Errno Unit → Fs × Uio → Prop} {c : Block}
    (hdev : ok .deviceInvalid)
    (hfail : ∀ u e, s.media.head?.join = some e → e ≠ Errno.EIO →
      Q (.error e) (s.rest s.media.tail, u))
    (hlost : ∀ u, s.media.head?.join = some Errno.EIO → Q (.ok ()) (s.rest s.media.tail, u))
    (hdone : ∀ u, s.media.head?.join = none → Q (.ok ()) ((s.write b c).rest s.media.tail, u)) :
    wp ok rwblock Q (s, sfsuio (c.bytes.map some) b .write) := by
  rw [rwblock, rwblockFrom, wp_bind, wp_catching]
  refine wp_lhdIo_write_head ?_ (fun e u he hu => ?_) fun u hnone => ?_
  · exact wp_rwblockEnd hdev fun h => absurd rfl h
  · rw [then_ok]
    split
    · next heq =>
        cases heq
        rw [rwblockFrom, wp_bind, wp_catching]
        refine wp_lhdIo_empty hu ?_ ?_
        · exact wp_rwblockEnd hdev fun h => absurd rfl h
        · exact wp_rwblockEnd hdev fun _ => hlost u he
    · next hne =>
        exact wp_rwblockEnd hdev fun _ => hfail u e he fun h => hne (congrArg Except.error h)
  · exact wp_rwblockEnd hdev fun _ => hdone u hnone

/-! ## One block -/

/-- What `sfs_readblock` can do. -/
theorem wp_readblock {Q : Except Errno Block → Fs → Prop} (hdev : ok .deviceInvalid)
    (hfail : ∀ m e, m <:+ s.media → some e ∈ s.media → Q (.error e) (s.rest m))
    (hdone : ∀ m, m <:+ s.media → Q (.ok (s.disk b)) (s.rest m)) : wp ok (readblock b) Q s := by
  have hrep : List.replicate 512 (some 0) = (List.replicate 512 (0 : UInt8)).map some :=
    List.map_replicate.symm
  rw [readblock, wp_bind, wp_withLocal, hrep]
  refine wp_rwblock_read hdev List.length_replicate (fun m u e hm he => ?_) (fun m u hm hu => ?_) _
  · exact hfail m e hm he
  · change wp ok (pure (Block.ofList u.out)) Q (s.rest m)
    rw [wp_pure, hu, Block.ofList_bytes]
    exact hdone m hm

/-- What `sfs_writeblock` does when the disk ends the transfer as the first of `media` says. -/
theorem wp_writeblock_head {c : Block} {Q : Except Errno Unit → Fs → Prop}
    (hdev : ok .deviceInvalid)
    (hfail : ∀ e, s.media.head?.join = some e → e ≠ Errno.EIO → Q (.error e) (s.rest s.media.tail))
    (hlost : s.media.head?.join = some Errno.EIO → Q (.ok ()) (s.rest s.media.tail))
    (hdone : s.media.head?.join = none → Q (.ok ()) ((s.write b c).rest s.media.tail)) :
    wp ok (writeblock b c) Q s := by
  rw [writeblock, wp_bind, wp_withLocal]
  refine wp_rwblock_write hdev (fun u e he hne => ?_) (fun u he => ?_) fun u hnone => ?_
  · exact hfail e he hne
  · exact (wp_pure _).2 (hlost he)
  · exact (wp_pure _).2 (hdone hnone)

/-- What `sfs_writeblock` can do. -/
theorem wp_writeblock {c : Block} {Q : Except Errno Unit → Fs → Prop} (hdev : ok .deviceInvalid)
    (hfail : ∀ m e, m <:+ s.media → some e ∈ s.media → Q (.error e) (s.rest m))
    (hlost : ∀ m, m <:+ s.media → some Errno.EIO ∈ s.media → Q (.ok ()) (s.rest m))
    (hdone : ∀ m, m <:+ s.media → Q (.ok ()) ((s.write b c).rest m)) :
    wp ok (writeblock b c) Q s :=
  wp_writeblock_head hdev (fun e he _ => hfail _ e (List.tail_suffix _) (mem_of_head he))
    (fun he => hlost _ (List.tail_suffix _) (mem_of_head he)) fun _ =>
    hdone _ (List.tail_suffix _)

/-! ## On a disk that does not fail -/

/-- The disk reports no errors. -/
def Quiet (s : Fs) : Prop := s.media = []

theorem Quiet.rest (h : Quiet s) {m : List (Option Errno)} (hm : m <:+ s.media) : s.rest m = s := by
  rw [h] at hm
  rw [List.suffix_nil.1 hm, ← h, rest_media]

theorem Quiet.not_mem (h : Quiet s) {e : Option Errno} : e ∉ s.media := by
  rw [h]
  exact List.not_mem_nil

theorem Quiet.readblock {Q : Except Errno Block → Fs → Prop} (h : Quiet s)
    (hdev : ok .deviceInvalid) (hQ : Q (.ok (s.disk b)) s) : wp ok (readblock b) Q s :=
  wp_readblock hdev (fun _ _ _ he => absurd he h.not_mem) fun _ hm => by rwa [h.rest hm]

theorem Quiet.writeblock {c : Block} {Q : Except Errno Unit → Fs → Prop} (h : Quiet s)
    (hdev : ok .deviceInvalid) (hQ : Q (.ok ()) (s.write b c)) : wp ok (writeblock b c) Q s := by
  have hw : Quiet (s.write b c) := h
  refine wp_writeblock hdev (fun _ _ _ he => absurd he h.not_mem)
    (fun _ _ he => absurd he h.not_mem) fun m hm => ?_
  rwa [hw.rest hm]

/-! ## The free block bitmap -/

/-- The block is marked in use. -/
def Marked (s : Fs) (b : Daddr) : Prop := s.freemap.isset b = true

theorem marked_mark {v : Bool} {c : Daddr} :
    Marked (s.mark b v) c ↔ (c = b ∧ v = true) ∨ (c ≠ b ∧ Marked s c) := by
  by_cases hc : c = b <;> simp [Marked, Fs.mark, Bitmap.write, hc]

theorem Bitmap.firstClear_eq_some {m : Bitmap} (h : m.firstClear = some b) : m.isset b = false := by
  simpa using List.find?_some h

theorem wp_bfree {Q : Except Errno Unit → Fs → Prop} (hassert : ok .assertion)
    (hQ : Marked s b → Q (.ok ()) (s.mark b false)) : wp ok (bfree b) Q s := by
  rw [bfree, wp_bind, wp_get, then_ok, wp_ite]
  exact ⟨fun hb => (wp_set).2 (hQ hb.2), fun _ => (wp_halt _).2 hassert⟩

theorem wp_bused {Q : Except Errno Bool → Fs → Prop} (hrange : ok .busedOutOfRange)
    (hQ : Q (.ok (s.freemap.isset b)) s) : wp ok (bused b) Q s := by
  rw [bused, wp_bind, wp_get, then_ok, wp_ite]
  exact ⟨fun _ => (wp_halt _).2 hrange, fun _ => (wp_pure _).2 hQ⟩

end Os161.Sfs

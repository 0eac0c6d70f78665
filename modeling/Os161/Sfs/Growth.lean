import Os161.Sfs.Mapping

set_option autoImplicit false

/-!
# How files grow and are written

`Wrote` says what a write may do to a sound volume: it lays bytes over the contents of one file, and
gives that file blocks that were free, in slots that were empty. Two ways to change the volume do
no more than that: giving a slot a free block (`Grew.wrote`), and storing bytes in a block that is
mapped (`wrote_store`). With them `sfs_bmap` is taken apart.
-/

namespace Os161.Sfs

open Os161.Lib.Calls Os161.Lib.Overlay

variable {ok : Panic → Prop} {files : Set Ptr} {sv : Ptr} {N : Set Slot} {s t u : Fs}

/-- `data` has been laid over the file `sv` from `pos` on, and only slots in `N` have been filled. -/
structure Updated (files : Set Ptr) (sv : Ptr) (N : Set Slot) (pos : Nat) (data : List UInt8)
    (s t : Fs) : Prop where
  same : SameVolume s t
  sound : Sound files t
  kept : ∀ sv' ∈ files, ∀ k, s.slot sv' k ≠ 0 → t.slot sv' k = s.slot sv' k
  grown : ∀ sv' ∈ files, ∀ k, t.slot sv' k ≠ 0 → s.slot sv' k ≠ 0 ∨ sv' = sv ∧ k ∈ N
  marked : ∀ b, Marked s b → Marked t b
  taken : ∀ b, Marked t b → Marked s b ∨ b ≠ 0 ∧ ∃ k ∈ N, t.slot sv k = b
  fresh : ∀ k, s.slot sv k = 0 → t.slot sv k ≠ 0 → ¬ Marked s (t.slot sv k)
  own : t.byteAt sv = overlay (s.byteAt sv) pos data
  others : ∀ sv' ∈ files, sv' ≠ sv → t.byteAt sv' = s.byteAt sv'
  size : ∀ sv', sv' ≠ sv → (t.inode sv').size = (s.inode sv').size

/-- An update that leaves the size of the file alone, which is set elsewhere. -/
structure Wrote (files : Set Ptr) (sv : Ptr) (N : Set Slot) (pos : Nat) (data : List UInt8)
    (s t : Fs) : Prop extends Updated files sv N pos data s t where
  ownSize : (t.inode sv).size = (s.inode sv).size

theorem Wrote.refl (hs : Sound files s) (pos : Nat) : Wrote files sv N pos [] s s where
  same := .refl s
  sound := hs
  kept _ _ _ _ := rfl
  grown _ _ _ hk := .inl hk
  marked _ hb := hb
  taken _ hb := .inl hb
  fresh _ hk hk' := absurd hk hk'
  own := overlay_nil.symm
  others _ _ _ := rfl
  size _ _ := rfl
  ownSize := rfl

/-- Two writes side by side. -/
theorem Wrote.trans {pos : Nat} {data data' : List UInt8} (hsv : sv ∈ files)
    (h : Wrote files sv N pos data s t)
    (h' : Wrote files sv N (pos + data.length) data' t u) :
    Wrote files sv N pos (data ++ data') s u where
  same := h.same.trans h'.same
  sound := h'.sound
  kept sv' hsv' k hk := by
    have ht := h.kept sv' hsv' k hk
    rw [← ht] at hk
    exact (h'.kept sv' hsv' k hk).trans ht
  grown sv' hsv' k hk := (h'.grown sv' hsv' k hk).elim (h.grown sv' hsv' k) .inr
  marked b hb := h'.marked b (h.marked b hb)
  taken b hb := by
    rcases h'.taken b hb with ht | ht
    · refine (h.taken b ht).imp_right fun ⟨hne, k, hk, hkb⟩ => ⟨hne, k, hk, ?_⟩
      rw [h'.kept sv hsv k (hkb ▸ hne), hkb]
    · exact .inr ht
  fresh k hk hk' hm := by
    by_cases hzero : t.slot sv k = 0
    · exact h'.fresh k hzero hk' (h.marked _ hm)
    · rw [h'.kept sv hsv k hzero] at hm
      exact h.fresh k hk hzero hm
  own := by rw [h'.own, h.own, overlay_append]
  others sv' hsv' hne := (h'.others sv' hsv' hne).trans (h.others sv' hsv' hne)
  size sv' hne := (h'.size sv' hne).trans (h.size sv' hne)
  ownSize := h'.ownSize.trans h.ownSize

/-- More slots may have been filled than have been. -/
theorem Wrote.mono {pos : Nat} {data : List UInt8} {M : Set Slot}
    (h : Wrote files sv N pos data s t) (hNM : N ⊆ M) : Wrote files sv M pos data s t :=
  { h with
    grown := fun sv' hsv' k hk => (h.grown sv' hsv' k hk).imp_right fun hk => ⟨hk.1, hNM hk.2⟩
    taken := fun b hb => (h.taken b hb).imp_right fun ⟨hne, k, hk, hkb⟩ => ⟨hne, k, hNM hk, hkb⟩ }

/-- Bytes that are not there can be written anywhere. -/
theorem Wrote.at {pos : Nat} (h : Wrote files sv N pos [] s t) (pos' : Nat) :
    Wrote files sv N pos' [] s t :=
  { h with own := by rw [h.own, overlay_nil, overlay_nil] }

/-- Set the size in an inode, and mark it dirty. -/
def Fs.setSize (s : Fs) (sv : Ptr) (z : UInt32) : Fs :=
  s.updateInode sv { s.inode sv with size := z }

section SetSize

variable {z : UInt32} {sv' : Ptr}

theorem setSize_self : (s.setSize sv z).inode sv = { s.inode sv with size := z } :=
  Function.update_self ..

theorem setSize_other (h : sv' ≠ sv) : (s.setSize sv z).inode sv' = s.inode sv' :=
  Function.update_of_ne h _ _

theorem setSize_slot (k : Slot) : (s.setSize sv z).slot sv' k = s.slot sv' k := by
  by_cases h : sv' = sv
  · subst h
    exact slot_congr (s := s) (t := s.setSize sv' z) (by rw [setSize_self]) (by rw [setSize_self])
      (fun _ => rfl) k
  · exact slot_congr (s := s) (t := s.setSize sv z) (by rw [setSize_other h])
      (by rw [setSize_other h]) (fun _ => rfl) k

theorem setSize_byteAt : (s.setSize sv z).byteAt sv' = s.byteAt sv' := by
  funext p
  have hmapping : (s.setSize sv z).mapping sv' (p / 512) = s.mapping sv' (p / 512) :=
    setSize_slot (.data (p / 512))
  unfold Fs.byteAt
  rw [hmapping]
  rfl

theorem Sound.setSize (hs : Sound files s) : Sound files (s.setSize sv z) := by
  refine ⟨⟨hs.framed.onDisk, hs.framed.small, hs.framed.covered, hs.framed.spare,
    hs.framed.superblock⟩, fun sv' hsv' k hk => ?_, fun sv' hsv' sv'' hsv'' k k' hk heq => ?_⟩
  · rw [setSize_slot] at hk ⊢
    exact hs.marked sv' hsv' k hk
  · rw [setSize_slot] at hk heq
    rw [setSize_slot] at heq
    exact hs.once sv' hsv' sv'' hsv'' k k' hk heq

/-- The size is set after the bytes have been written. -/
theorem Updated.setSize {pos : Nat} {data : List UInt8} (h : Updated files sv N pos data s t) :
    Updated files sv N pos data s (t.setSize sv z) where
  same := ⟨h.same.dBlocks, h.same.media, h.same.nblocks, h.same.nbits, h.same.vnodes,
    h.same.refcount, h.same.ino⟩
  sound := h.sound.setSize
  kept sv' hsv' k hk := by rw [setSize_slot, h.kept sv' hsv' k hk]
  grown sv' hsv' k hk := h.grown sv' hsv' k (by rwa [setSize_slot] at hk)
  marked := h.marked
  taken b hb := (h.taken b hb).imp_right fun ⟨hne, k, hk, hkb⟩ =>
    ⟨hne, k, hk, by rw [setSize_slot, hkb]⟩
  fresh k hk hk' := by
    rw [setSize_slot] at hk' ⊢
    exact h.fresh k hk hk'
  own := by rw [setSize_byteAt, h.own]
  others sv' hsv' hne := by rw [setSize_byteAt, h.others sv' hsv' hne]
  size sv' hne := by rw [setSize_other hne, h.size sv' hne]

end SetSize

/-! ## Giving a slot a block -/

/-- The slot `k` of the file `sv`, which was empty, has the block `b`, which was free; a data block
is cleared. -/
structure Grew (files : Set Ptr) (sv : Ptr) (k : Slot) (b : Daddr) (s t : Fs) : Prop where
  same : SameVolume s t
  free : ¬ Marked s b
  onVolume : b < s.nblocks
  marked : ∀ x, Marked t x ↔ Marked s x ∨ x = b
  size : ∀ sv', (t.inode sv').size = (s.inode sv').size
  vacant : s.slot sv k = 0
  slot : ∀ sv' ∈ files, ∀ k', t.slot sv' k' = if sv' = sv ∧ k' = k then b else s.slot sv' k'
  zero : t.disk b = .zero
  disk : ∀ x, x ≠ b → x ≠ (s.inode sv).indirect → t.disk x = s.disk x

section Grew

variable {k : Slot} {b : Daddr}

theorem Grew.sound (h : Grew files sv k b s t) (hs : Sound files s) : Sound files t := by
  have hne : ∀ sv' ∈ files, ∀ k', s.slot sv' k' ≠ 0 → s.slot sv' k' ≠ b := fun sv' hsv' k' hk' hb =>
    h.free (hb ▸ (hs.marked sv' hsv' k' hk').1)
  refine ⟨⟨?_, ?_, ?_, fun x hx hlt => ?_, ?_⟩, fun sv' hsv' k' hk' => ?_,
    fun sv' hsv' sv'' hsv'' k' k'' hk' heq => ?_⟩
  · rw [h.same.nblocks, h.same.dBlocks]
    exact hs.framed.onDisk
  · rw [h.same.nblocks]
    exact hs.framed.small
  · rw [h.same.nblocks, h.same.nbits]
    exact hs.framed.covered
  · rw [h.same.nblocks] at hx
    rw [h.same.nbits] at hlt
    exact (h.marked x).2 (.inl (hs.framed.spare x hx hlt))
  · exact (h.marked 0).2 (.inl hs.framed.superblock)
  · rw [h.same.nblocks]
    rw [h.slot sv' hsv'] at hk' ⊢
    split_ifs at hk' ⊢ with hnew
    · exact ⟨(h.marked b).2 (.inr rfl), h.onVolume⟩
    · obtain ⟨hm, hlt⟩ := hs.marked sv' hsv' k' hk'
      exact ⟨(h.marked _).2 (.inl hm), hlt⟩
  · rw [h.slot sv' hsv'] at hk' heq
    rw [h.slot sv'' hsv''] at heq
    -- the new block is in no other slot, and the old ones are as they were
    split_ifs at hk' heq with h₁ h₂ h₂
    · exact ⟨h₁.1.trans h₂.1.symm, h₁.2.trans h₂.2.symm⟩
    · exact absurd heq.symm (hne sv'' hsv'' k'' (heq ▸ hk'))
    · exact absurd heq (hne sv' hsv' k' hk')
    · exact hs.once sv' hsv' sv'' hsv'' k' k'' hk' heq

/-- The contents of the files are the same. -/
theorem Grew.byteAt (h : Grew files sv k b s t) (hs : Sound files s) (hsv : sv ∈ files)
    {sv' : Ptr} (hsv' : sv' ∈ files) : t.byteAt sv' = s.byteAt sv' := by
  funext p
  have hslot : t.mapping sv' (p / 512) = if sv' = sv ∧ Slot.data (p / 512) = k then b
      else s.mapping sv' (p / 512) := h.slot sv' hsv' (.data (p / 512))
  unfold Fs.byteAt
  by_cases hnew : sv' = sv ∧ Slot.data (p / 512) = k
  · have hzero : s.mapping sv' (p / 512) = 0 := by
      obtain ⟨rfl, rfl⟩ := hnew
      exact h.vacant
    rw [hslot, if_pos hnew, hzero, if_pos rfl, h.zero, Block.byte_zero, ite_self]
  · rw [hslot, if_neg hnew]
    by_cases hzero : s.mapping sv' (p / 512) = 0
    · rw [if_pos hzero, if_pos hzero]
    · have hb : s.mapping sv' (p / 512) ≠ b := fun hb =>
        h.free (hb ▸ (hs.marked sv' hsv' (.data (p / 512)) hzero).1)
      have htable : s.mapping sv' (p / 512) ≠ (s.inode sv).indirect := fun heq =>
        Slot.noConfusion (hs.once sv' hsv' sv hsv (.data (p / 512)) .table hzero heq).2
      rw [if_neg hzero, if_neg hzero, h.disk _ hb htable]

theorem Grew.wrote (h : Grew files sv k b s t) (hs : Sound files s) (hsv : sv ∈ files)
    (hk : k ∈ N) (pos : Nat) : Wrote files sv N pos [] s t where
  same := h.same
  sound := h.sound hs
  size sv' _ := h.size sv'
  ownSize := h.size sv
  kept sv' hsv' k' hk' := by
    rw [h.slot sv' hsv', if_neg]
    rintro ⟨rfl, rfl⟩
    exact hk' h.vacant
  grown sv' hsv' k' hk' := by
    rw [h.slot sv' hsv'] at hk'
    split_ifs at hk' with hnew
    · exact .inr ⟨hnew.1, hnew.2 ▸ hk⟩
    · exact .inl hk'
  marked x hx := (h.marked x).2 (.inl hx)
  taken x hx := by
    refine ((h.marked x).1 hx).imp_right ?_
    rintro rfl
    refine ⟨fun hzero => h.free (hzero ▸ hs.framed.superblock), k, hk, ?_⟩
    rw [h.slot sv hsv, if_pos ⟨rfl, rfl⟩]
  fresh k' hk' hne := by
    rw [h.slot sv hsv] at hne ⊢
    split_ifs at hne ⊢ with hnew
    · exact h.free
    · exact absurd hk' hne
  own := by rw [h.byteAt hs hsv hsv, overlay_nil]
  others sv' hsv' _ := h.byteAt hs hsv hsv'

end Grew

/-! ## Storing in a block -/

/-- The bytes of a block with others copied into it. -/
theorem byte_splice_mod (c : Block) (f skip p : Nat) (data : List UInt8) (hf : p / 512 = f) :
    (c.splice skip data).byte (p % 512) =
      if 512 * f + skip ≤ p then data[p - (512 * f + skip)]?.getD (c.byte (p % 512))
      else c.byte (p % 512) := by
  have hp := Nat.div_add_mod p 512
  rw [hf] at hp
  rw [Block.byte_splice _ _ _ (Nat.mod_lt p (by decide))]
  have hsub : p - (512 * f + skip) = p % 512 - skip := by omega
  by_cases hle : 512 * f + skip ≤ p
  · rw [if_pos hle, hsub]
    by_cases hlt : p % 512 < skip + data.length
    · have hlt' : p % 512 - skip < data.length := by omega
      rw [if_pos ⟨by omega, hlt⟩, List.getD_eq_getElem?_getD, List.getElem?_eq_getElem hlt']
      rfl
    · rw [if_neg fun hand => hlt hand.2, List.getElem?_eq_none (by omega)]
      rfl
  · rw [if_neg hle, if_neg fun hand => hle (by omega)]

/-- A position in another block, behind the start of some bytes in a block, is behind their end. -/
theorem le_of_other_block {f skip n p : Nat} (hfit : skip + n ≤ 512) (hp : p / 512 ≠ f)
    (hge : 512 * f + skip ≤ p) : 512 * f + skip + n ≤ p := by
  omega

/-- Bytes are stored in a block of a file. -/
theorem wrote_store (hs : Sound files s) (hsv : sv ∈ files) {f skip : Nat} {data : List UInt8}
    (hne : s.mapping sv f ≠ 0) (hfit : skip + data.length ≤ 512) :
    Wrote files sv N (512 * f + skip) data s
      (s.write (s.mapping sv f) ((s.disk (s.mapping sv f)).splice skip data)) := by
  obtain ⟨x, hx⟩ : ∃ x, x = s.mapping sv f := ⟨_, rfl⟩
  rw [← hx] at hne ⊢
  obtain ⟨c, hc⟩ : ∃ c, c = (s.disk x).splice skip data := ⟨_, rfl⟩
  rw [← hc]
  have hdisk : ∀ y, y ≠ x → (s.write x c).disk y = s.disk y := fun y hy =>
    Function.update_of_ne hy _ _
  have hself : (s.write x c).disk x = c := Function.update_self ..
  -- the block of a file block holds no block numbers
  have htable : ∀ sv' ∈ files, (s.inode sv').indirect ≠ 0 → (s.inode sv').indirect ≠ x :=
    fun sv' hsv' hne' heq =>
      Slot.noConfusion (hs.once sv' hsv' sv hsv .table (.data f) hne' (heq.trans hx)).2
  have hslot : ∀ sv' ∈ files, ∀ k, (s.write x c).slot sv' k = s.slot sv' k := fun sv' hsv' k =>
    slot_congr (s := s) (t := s.write x c) rfl rfl (fun hne' => hdisk _ (htable sv' hsv' hne')) k
  have hmapping : ∀ sv' ∈ files, ∀ i, (s.write x c).mapping sv' i = s.mapping sv' i :=
    fun sv' hsv' i => hslot sv' hsv' (.data i)
  have hother : ∀ sv' ∈ files, ∀ p, (sv' = sv → p / 512 ≠ f) →
      (s.write x c).byteAt sv' p = s.byteAt sv' p := fun sv' hsv' p hp => by
    unfold Fs.byteAt
    rw [hmapping sv' hsv']
    by_cases hzero : s.mapping sv' (p / 512) = 0
    · rw [if_pos hzero, if_pos hzero]
    · rw [if_neg hzero, if_neg hzero, hdisk]
      intro heq
      obtain ⟨rfl, hk⟩ := hs.once sv' hsv' sv hsv (.data (p / 512)) (.data f) hzero (heq.trans hx)
      exact hp rfl (Slot.data.inj hk)
  refine ⟨⟨⟨rfl, rfl, rfl, rfl, rfl, rfl, rfl⟩, ⟨⟨hs.framed.onDisk, hs.framed.small,
    hs.framed.covered, hs.framed.spare, hs.framed.superblock⟩, fun sv' hsv' k hk => ?_,
    fun sv' hsv' sv'' hsv'' k k' hk heq => ?_⟩, fun sv' hsv' k _ => hslot sv' hsv' k,
    fun sv' hsv' k hk => ?_, fun b hb => hb, fun b hb => .inl hb,
    fun k hk hk' => absurd hk (hslot sv hsv k ▸ hk'), ?_, fun sv' hsv' hsne => ?_,
    fun _ _ => rfl⟩, rfl⟩
  · rw [hslot sv' hsv'] at hk ⊢
    exact hs.marked sv' hsv' k hk
  · rw [hslot sv' hsv'] at hk heq
    rw [hslot sv'' hsv''] at heq
    exact hs.once sv' hsv' sv'' hsv'' k k' hk heq
  · rw [hslot sv' hsv'] at hk
    exact .inl hk
  · funext p
    by_cases hp : p / 512 = f
    · have hmap : s.mapping sv (p / 512) = x := by rw [hp, hx]
      rw [overlay]
      unfold Fs.byteAt
      rw [hmapping sv hsv, hmap, if_neg hne, if_neg hne, hself, hc,
        byte_splice_mod _ f skip p data hp]
    · rw [hother sv hsv p fun _ => hp]
      rcases Nat.lt_or_ge p (512 * f + skip) with hlt | hge
      · exact (overlay_of_lt hlt).symm
      · exact (overlay_of_le (le_of_other_block hfit hp hge)).symm
  · funext p
    exact hother sv' hsv' p fun h => absurd h hsne

/-! ## `sfs_bmap` -/

theorem wp_handBack {b : Daddr} {Q : Except Errno Daddr → Fs → Prop}
    (hb : b ≠ 0 → Marked s b ∧ b < s.nblocks) (hQ : Q (.ok b) s) : wp ok (handBack b) Q s := by
  rw [handBack, wp_ite]
  refine ⟨fun _ => (wp_pure _).2 hQ, fun hne => ?_⟩
  obtain ⟨hm, hlt⟩ := hb hne
  rw [wp_bind]
  refine wp_bused_of hlt ?_
  rw [then_ok, show s.freemap.isset b = true from hm, if_pos rfl, wp_pure]
  exact hQ

/-- The entry of the indirect block for a file block. -/
theorem entry_mapping {i : Nat} (h : 15 ≤ i) (hi : i < 143) (hne : (s.inode sv).indirect ≠ 0) :
    Idbuf.ofBlock (s.disk (s.inode sv).indirect) ⟨(i - 15) % 128, Nat.mod_lt _ (by decide)⟩ =
      s.mapping sv i := by
  rw [mapping_indirect h hi hne]
  exact congrArg (s.disk (s.inode sv).indirect).word (Nat.mod_eq_of_lt (by omega))

/-- `sfs_bmap` for reading, by the place where the file block has to be looked up. -/
theorem wp_bmap_places {f : UInt32} {Q : Except Errno Daddr → Fs → Prop}
    (hbig : 143 ≤ f.toNat → Q (.error .EFBIG) s)
    (hdirect : f.toNat < 15 → wp ok (handBack (s.mapping sv f.toNat)) Q s)
    (hnone : f.toNat < 143 → s.mapping sv f.toNat = 0 → Q (.ok (s.mapping sv f.toNat)) s)
    (htable : 15 ≤ f.toNat → f.toNat < 143 → (s.inode sv).indirect ≠ 0 →
      wp ok (readblock (s.inode sv).indirect) (Then ok (fun data => handBack
        (Idbuf.ofBlock data ⟨(f.toNat - 15) % 128, Nat.mod_lt _ (by decide)⟩)) Q) s) :
    wp ok (bmap sv f false) Q s := by
  rw [bmap, wp_bind, wp_get, then_ok, wp_dite]
  refine ⟨fun h => ?_, fun h => ?_⟩
  · rw [← mapping_direct s sv h]
    simp only [Bool.false_eq_true, and_false, if_false]
    exact hdirect h
  · simp only [Bool.false_eq_true, and_false, if_false, and_true]
    rw [wp_ite]
    refine ⟨fun hge => (wp_throw _).2 (hbig (by omega)), fun hlt => ?_⟩
    rw [wp_ite]
    have hlt' : f.toNat < 143 := by omega
    refine ⟨fun hzero => ?_, fun hne => ?_⟩
    · have hnone' := hnone hlt' (mapping_no_table (by omega) hzero)
      rw [mapping_no_table (by omega) hzero] at hnone'
      exact (wp_pure _).2 hnone'
    · simp only [hne, if_false, wp_bind]
      refine wp_mono (htable (by omega) hlt' hne) fun r t hr => ?_
      cases r with
      | error e =>
          rw [then_error] at hr ⊢
          exact hr
      | ok data =>
          rw [then_ok] at hr
          rw [then_ok, wp_bind, wp_pure, then_ok]
          exact hr

/-- `sfs_bmap` for reading looks the file block up. -/
theorem wp_bmap_find {f : UInt32} {Q : Except Errno Daddr → Fs → Prop} (hq : Quiet s)
    (htable : (s.inode sv).indirect ≠ 0 → (s.inode sv).indirect < s.dBlocks)
    (hslot : s.mapping sv f.toNat ≠ 0 →
      Marked s (s.mapping sv f.toNat) ∧ s.mapping sv f.toNat < s.nblocks)
    (hbig : 143 ≤ f.toNat → Q (.error .EFBIG) s)
    (hdone : f.toNat < 143 → Q (.ok (s.mapping sv f.toNat)) s) :
    wp ok (bmap sv f false) Q s := by
  refine wp_bmap_places hbig (fun h => wp_handBack hslot (hdone (by omega)))
    (fun h _ => hdone h) fun hge hlt hne => wp_readblock_of hq (.inr (htable hne)) ?_
  rw [then_ok, entry_mapping hge hlt hne]
  exact wp_handBack hslot (hdone hlt)

theorem wp_bmap_read {f : UInt32} {Q : Except Errno Daddr → Fs → Prop} (hq : Quiet s)
    (hs : Sound files s) (hsv : sv ∈ files) (hbig : 143 ≤ f.toNat → Q (.error .EFBIG) s)
    (hdone : f.toNat < 143 → Q (.ok (s.mapping sv f.toNat)) s) :
    wp ok (bmap sv f false) Q s :=
  wp_bmap_find hq (fun hne => hs.framed.onDisk_of_lt (hs.marked sv hsv .table hne).2)
    (hs.marked sv hsv (.data f.toNat)) hbig hdone

/-- The volume after `sfs_balloc`. -/
def Fs.take (s : Fs) (b : Daddr) : Fs := (s.mark b true).write b .zero

section Take

variable {b : Daddr}

theorem marked_take (x : Daddr) : Marked (s.take b) x ↔ Marked s x ∨ x = b := by
  change Marked (s.mark b true) x ↔ _
  rw [marked_mark]
  tauto

theorem take_disk_self : (s.take b).disk b = .zero := Function.update_self ..

theorem take_disk {x : Daddr} (h : x ≠ b) : (s.take b).disk x = s.disk x :=
  Function.update_of_ne h _ _

theorem Sound.table_ne (hs : Sound files s) (hfree : ¬ Marked s b) {sv' : Ptr}
    (hsv' : sv' ∈ files) (hne : (s.inode sv').indirect ≠ 0) : (s.inode sv').indirect ≠ b :=
  fun heq => hfree (heq ▸ (hs.marked sv' hsv' .table hne).1)

/-- A file whose inode is left alone keeps its slots. -/
theorem Sound.slot_take (hs : Sound files s) (hfree : ¬ Marked s b) {sv' : Ptr}
    (hsv' : sv' ∈ files) (hdisk : ∀ x, x ≠ b → x = (s.inode sv').indirect → t.disk x = s.disk x)
    (hinode : t.inode sv' = s.inode sv') (k : Slot) : t.slot sv' k = s.slot sv' k :=
  slot_congr (by rw [hinode]) (by rw [hinode])
    (fun hne => hdisk _ (hs.table_ne hfree hsv' hne) rfl) k

/-- A direct block is taken. -/
theorem grew_direct (hs : Sound files s) (hsv : sv ∈ files) {i : Fin 15}
    (hfree : ¬ Marked s b) (hlt : b < s.nblocks) (hzero : (s.inode sv).direct i = 0) :
    Grew files sv (.data i) b s ((s.take b).updateInode sv ((s.inode sv).setDirect i b)) := by
  obtain ⟨t, ht⟩ : ∃ t, t = (s.take b).updateInode sv ((s.inode sv).setDirect i b) := ⟨_, rfl⟩
  have hdisk : t.disk = (s.take b).disk := by rw [ht]; rfl
  have hself : t.inode sv = (s.inode sv).setDirect i b := by
    rw [ht]
    exact Function.update_self ..
  have hother : ∀ sv', sv' ≠ sv → t.inode sv' = s.inode sv' := fun sv' hne => by
    rw [ht]
    exact Function.update_of_ne hne _ _
  have hindirect : (t.inode sv).indirect = (s.inode sv).indirect := by rw [hself]; rfl
  rw [← ht]
  refine ⟨by rw [ht]; exact ⟨rfl, rfl, rfl, rfl, rfl, rfl, rfl⟩, hfree, hlt, fun x => ?_,
    fun sv' => ?_, ?_, fun sv' hsv' k => ?_, ?_, fun x hx _ => ?_⟩
  · rw [ht]
    exact marked_take x
  · by_cases hne : sv' = sv
    · rw [hne, hself]
      rfl
    · rw [hother sv' hne]
  · exact (mapping_direct s sv i.isLt).trans hzero
  · by_cases hne : sv' = sv
    · subst hne
      rcases k with j | _
      · by_cases hj : j < 15
        · have hdirect : (t.inode sv').direct = Function.update (s.inode sv').direct i b := by
            rw [hself]
            rfl
          rw [Fs.slot, Fs.slot, mapping_direct t sv' hj, mapping_direct s sv' hj, hdirect,
            Function.update_apply]
          simp [Fin.ext_iff]
        · have hji : Slot.data j ≠ Slot.data i := fun h => hj (Slot.data.inj h ▸ i.isLt)
          rw [if_neg fun h => hji h.2, Fs.slot, Fs.slot]
          unfold Fs.mapping
          rw [dif_neg hj, dif_neg hj, hindirect]
          split_ifs with htable
          · rw [hdisk, take_disk (hs.table_ne hfree hsv' htable.2)]
          · rfl
      · rw [if_neg fun h => Slot.noConfusion h.2]
        exact hindirect
    · rw [if_neg fun h => hne h.1]
      exact hs.slot_take hfree hsv' (fun x hx _ => by rw [hdisk, take_disk hx]) (hother sv' hne) k
  · rw [hdisk, take_disk_self]
  · rw [hdisk, take_disk hx]

/-- An indirect block is taken; it is empty. -/
theorem grew_table (hs : Sound files s) (hfree : ¬ Marked s b) (hlt : b < s.nblocks)
    (hzero : (s.inode sv).indirect = 0) :
    Grew files sv .table b s ((s.take b).updateInode sv { s.inode sv with indirect := b }) := by
  obtain ⟨t, ht⟩ : ∃ t, t = (s.take b).updateInode sv { s.inode sv with indirect := b } :=
    ⟨_, rfl⟩
  have hdisk : t.disk = (s.take b).disk := by rw [ht]; rfl
  have hself : t.inode sv = { s.inode sv with indirect := b } := by
    rw [ht]
    exact Function.update_self ..
  have hother : ∀ sv', sv' ≠ sv → t.inode sv' = s.inode sv' := fun sv' hne => by
    rw [ht]
    exact Function.update_of_ne hne _ _
  rw [← ht]
  refine ⟨by rw [ht]; exact ⟨rfl, rfl, rfl, rfl, rfl, rfl, rfl⟩, hfree, hlt, fun x => ?_,
    fun sv' => ?_, hzero, fun sv' hsv' k => ?_, ?_, fun x hx _ => ?_⟩
  · rw [ht]
    exact marked_take x
  · by_cases hne : sv' = sv
    · rw [hne, hself]
    · rw [hother sv' hne]
  · by_cases hne : sv' = sv
    · subst hne
      rcases k with j | _
      · rw [if_neg fun h => Slot.noConfusion h.2, Fs.slot, Fs.slot]
        by_cases hj : j < 15
        · rw [mapping_direct t sv' hj, mapping_direct s sv' hj, hself]
        · rw [mapping_no_table (by omega) hzero]
          unfold Fs.mapping
          rw [dif_neg hj]
          split_ifs with htable
          · rw [hself, hdisk]
            change ((s.take b).disk b).word (j - 15) = 0
            rw [take_disk_self, Block.word_zero]
          · rfl
      · rw [if_pos ⟨rfl, rfl⟩, Fs.slot, hself]
    · rw [if_neg fun h => hne h.1]
      exact hs.slot_take hfree hsv' (fun x hx _ => by rw [hdisk, take_disk hx]) (hother sv' hne) k
  · rw [hdisk, take_disk_self]
  · rw [hdisk, take_disk hx]

/-- A block is taken and entered in the indirect block. -/
theorem grew_entry (hs : Sound files s) (hsv : sv ∈ files) {j : Fin 128}
    (hfree : ¬ Marked s b) (hlt : b < s.nblocks) (htable : (s.inode sv).indirect ≠ 0)
    (hzero : s.mapping sv (15 + j) = 0) :
    Grew files sv (.data (15 + j)) b s ((s.take b).write (s.inode sv).indirect
      (Idbuf.toBlock (Function.update (Idbuf.ofBlock (s.disk (s.inode sv).indirect)) j b))) := by
  obtain ⟨x, hx⟩ : ∃ x, x = (s.inode sv).indirect := ⟨_, rfl⟩
  obtain ⟨c, hc⟩ : ∃ c, c =
      Idbuf.toBlock (Function.update (Idbuf.ofBlock (s.disk (s.inode sv).indirect)) j b) := ⟨_, rfl⟩
  have hxb : x ≠ b := hx ▸ hs.table_ne hfree hsv htable
  have hself : ((s.take b).write x c).disk x = c := Function.update_self ..
  have hdisk : ∀ y, y ≠ b → y ≠ x → ((s.take b).write x c).disk y = s.disk y := fun y hyb hyx =>
    (Function.update_of_ne hyx _ _).trans (take_disk hyb)
  rw [← hc, ← hx]
  refine ⟨⟨rfl, rfl, rfl, rfl, rfl, rfl, rfl⟩, hfree, hlt, marked_take, fun _ => rfl, hzero,
    fun sv' hsv' k => ?_, (Function.update_of_ne hxb.symm _ _).trans take_disk_self,
    fun y hyb hyx => hdisk y hyb (hx ▸ hyx)⟩
  by_cases hne : sv' = sv
  · subst hne
    rcases k with i | _
    · rw [Fs.slot, Fs.slot]
      by_cases hi : i < 15
      · have hij : Slot.data i ≠ Slot.data (15 + j) := fun h => by
          have := Slot.data.inj h
          omega
        rw [if_neg fun h => hij h.2, mapping_direct _ sv' hi, mapping_direct s sv' hi]
        rfl
      · by_cases hi' : i < 143
        · obtain ⟨k, rfl⟩ := Nat.exists_eq_add_of_le (Nat.not_lt.1 hi)
          have hk : k < 128 := by omega
          have hnew : ((s.take b).write x c).mapping sv' (15 + k) =
              Function.update (Idbuf.ofBlock (s.disk (s.inode sv').indirect)) j b ⟨k, hk⟩ := by
            have htable' : (((s.take b).write x c).inode sv').indirect ≠ 0 := htable
            rw [mapping_indirect (by omega) hi' htable', Nat.add_sub_cancel_left]
            change Idbuf.ofBlock (((s.take b).write x c).disk (s.inode sv').indirect) ⟨k, hk⟩ = _
            rw [← hx, hself, hc, Idbuf.ofBlock_toBlock, hx]
          rw [hnew, ← ofBlock_mapping htable ⟨k, hk⟩, Function.update_apply]
          simp [Fin.ext_iff]
        · have hij : Slot.data i ≠ Slot.data (15 + j) := fun h => by
            have := Slot.data.inj h
            omega
          rw [if_neg fun h => hij h.2, mapping_beyond (by omega), mapping_beyond (by omega)]
    · rw [if_neg fun h => Slot.noConfusion h.2]
      rfl
  · rw [if_neg fun h => hne h.1]
    refine hs.slot_take (t := (s.take b).write x c) hfree hsv' (fun y hyb hy => hdisk y hyb ?_) rfl k
    intro hyx
    have heq : (s.inode sv').indirect = (s.inode sv).indirect := hy.symm.trans (hyx.trans hx)
    exact hne (hs.once sv' hsv' sv hsv .table .table (heq.trans_ne htable) heq).1

end Take

/-- The slots that a file needs for the file block `i`. -/
def Needs (i : Nat) : Set Slot := {k | k = .data i ∨ 15 ≤ i ∧ k = .table}

theorem Grew.handBack {b : Daddr} {Q : Except Errno Daddr → Fs → Prop} {i : Nat}
    (h : Grew files sv (.data i) b s t) (hs : Sound files s) (hsv : sv ∈ files)
    (hQ : t.mapping sv i ≠ 0 → Q (.ok (t.mapping sv i)) t) : wp ok (handBack b) Q t := by
  have hmapping : t.mapping sv i = b := (h.slot sv hsv (.data i)).trans (if_pos ⟨rfl, rfl⟩)
  have hne : b ≠ 0 := fun hzero => h.free (hzero ▸ hs.framed.superblock)
  rw [hmapping] at hQ
  refine wp_handBack (fun _ => ⟨(h.marked b).2 (.inr rfl), ?_⟩) (hQ hne)
  rw [h.same.nblocks]
  exact h.onVolume

/-- `sfs_bmap` for writing: a file block past the maximum is refused; the volume may be full; or
the file block is mapped, now if it was not before. -/
theorem wp_bmap_write {f : UInt32} {Q : Except Errno Daddr → Fs → Prop} (hq : Quiet s)
    (hs : Sound files s) (hsv : sv ∈ files) (hN : Needs f.toNat ⊆ N)
    (hbig : 143 ≤ f.toNat → Q (.error .EFBIG) s)
    (hfull : ∀ t, f.toNat < 143 → Wrote files sv N 0 [] s t → (∀ b < t.nblocks, Marked t b) →
      (∃ k ∈ Needs f.toNat, t.slot sv k = 0) → Q (.error .ENOSPC) t)
    (hdone : ∀ t, f.toNat < 143 → Wrote files sv N 0 [] s t → t.mapping sv f.toNat ≠ 0 →
      Q (.ok (t.mapping sv f.toNat)) t) :
    wp ok (bmap sv f true) Q s := by
  have hdata : Slot.data f.toNat ∈ N := hN (.inl rfl)
  have hmapped : s.mapping sv f.toNat ≠ 0 → f.toNat < 143 →
      wp ok (handBack (s.mapping sv f.toNat)) Q s := fun hne hlt =>
    wp_handBack (hs.marked sv hsv (.data f.toNat)) (hdone s hlt (.refl hs 0) hne)
  rw [bmap, wp_bind, wp_get, then_ok, wp_dite]
  refine ⟨fun h => ?_, fun h => ?_⟩
  · have hlt : f.toNat < 143 := by omega
    have hdirect := mapping_direct s sv h
    simp only [and_true]
    rw [← hdirect, wp_ite]
    refine ⟨fun hzero => ?_, fun hne => hmapped hne hlt⟩
    rw [wp_bind]
    refine wp_balloc hq hs.framed (fun hfullmap => ?_) fun b hb hfree => ?_
    · exact hfull s hlt (.refl hs 0) hfullmap ⟨_, .inl rfl, hzero⟩
    · have hgrew := grew_direct hs hsv hfree hb (hdirect.symm.trans hzero)
      rw [then_ok, wp_bind, wp_modify, then_ok]
      exact hgrew.handBack hs hsv fun hne => hdone _ hlt (hgrew.wrote hs hsv hdata 0) hne
  · simp only [Bool.true_eq_false, and_false, if_false, and_true]
    rw [wp_ite]
    refine ⟨fun hge => (wp_throw _).2 (hbig (by omega)), fun hlt => ?_⟩
    have hlt' : f.toNat < 143 := by omega
    have htable : Slot.table ∈ N := hN (.inr ⟨by omega, rfl⟩)
    obtain ⟨j, hj⟩ : ∃ j : Fin 128, j = ⟨(f.toNat - 15) % 128, Nat.mod_lt _ (by decide)⟩ :=
      ⟨_, rfl⟩
    have hfj : 15 + (j : Nat) = f.toNat := by
      rw [hj]
      change 15 + (f.toNat - 15) % 128 = f.toNat
      omega
    rw [← hj]
    -- what follows once there is an indirect block
    have htail : ∀ t, Wrote files sv N 0 [] s t → (t.inode sv).indirect ≠ 0 →
        wp ok (if Idbuf.ofBlock (t.disk (t.inode sv).indirect) j = 0 then do
            let block ← balloc
            writeblock (t.inode sv).indirect (Idbuf.toBlock
              (Function.update (Idbuf.ofBlock (t.disk (t.inode sv).indirect)) j block))
            handBack block
          else handBack (Idbuf.ofBlock (t.disk (t.inode sv).indirect) j)) Q t := by
      intro t ht hne
      have hentry : Idbuf.ofBlock (t.disk (t.inode sv).indirect) j = t.mapping sv f.toNat := by
        rw [ofBlock_mapping hne, hfj]
      rw [hentry, wp_ite]
      refine ⟨fun hzero => ?_, fun hmap => ?_⟩
      · rw [wp_bind]
        refine wp_balloc (ht.same.quiet hq) ht.sound.framed (fun hfullmap => ?_) fun b hb hfree => ?_
        · exact hfull t hlt' ht hfullmap ⟨_, .inl rfl, hzero⟩
        · have hgrew := grew_entry (j := j) ht.sound hsv hfree hb hne (by rwa [hfj])
          rw [hfj] at hgrew
          have hdisk : (t.inode sv).indirect < (t.take b).dBlocks :=
            ht.sound.framed.onDisk_of_lt (ht.sound.marked sv hsv .table hne).2
          have hq' : Quiet (t.take b) := ht.same.quiet hq
          rw [then_ok, wp_bind]
          refine wp_writeblock_of hq' (.inr hdisk) ?_
          rw [then_ok]
          refine hgrew.handBack ht.sound hsv fun hmap => hdone _ hlt' ?_ hmap
          exact ht.trans hsv (hgrew.wrote ht.sound hsv hdata _)
      · exact wp_handBack (ht.sound.marked sv hsv (.data f.toNat)) (hdone t hlt' ht hmap)
    rw [wp_ite]
    refine ⟨fun hzero => ?_, fun hne => ?_⟩
    · rw [wp_bind]
      refine wp_balloc hq hs.framed (fun hfullmap => ?_) fun b hb hfree => ?_
      · exact hfull s hlt' (.refl hs 0) hfullmap ⟨_, .inr ⟨by omega, rfl⟩, hzero⟩
      · have hgrew := grew_table hs hfree hb hzero
        have hnew := hgrew.slot sv hsv .table
        rw [if_pos ⟨rfl, rfl⟩] at hnew
        have hne : b ≠ 0 := fun h => hfree (h ▸ hs.framed.superblock)
        have hempty : Idbuf.ofBlock ((s.take b).disk b) = fun _ => 0 := by
          rw [take_disk_self]
          funext i
          exact Block.word_zero i
        rw [then_ok, wp_bind, wp_modify, then_ok, wp_bind, wp_pure, then_ok]
        have hrest := htail _ (hgrew.wrote hs hsv htable 0) (hnew.trans_ne hne)
        have hdisk : ((s.take b).updateInode sv { s.inode sv with indirect := b }).disk b =
          (s.take b).disk b := rfl
        have hindirect : (((s.take b).updateInode sv { s.inode sv with indirect := b }).inode
          sv).indirect = b := hnew
        rw [hindirect, hdisk, hempty] at hrest
        exact hrest
    · rw [wp_bind]
      refine wp_readblock_of hq (.inr (hs.framed.onDisk_of_lt (hs.marked sv hsv .table hne).2)) ?_
      rw [then_ok, wp_bind, wp_pure, then_ok]
      exact htail s (.refl hs 0) hne

end Os161.Sfs

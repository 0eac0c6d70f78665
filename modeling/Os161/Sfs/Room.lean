import Os161.Sfs.ByteArrays

set_option autoImplicit false

/-!
# Room for a write

Whether `sfs_io` can write all its bytes is decided before it starts: by the maximum file size, and
by the number of free blocks and of the slots of the file that a write still has to fill.
-/

namespace Os161.Sfs

open Os161.Lib.Calls Os161.Lib.Overlay

/-- The slots that the file blocks from `lo` on, before `hi`, need. -/
def slotsFor (lo hi : Nat) : Finset Slot :=
  (Finset.Ico lo hi).image .data ∪ if ∃ i ∈ Finset.Ico lo hi, 15 ≤ i then {.table} else ∅

/-- There are free blocks for those of the slots that are empty. -/
def Fs.Room (s : Fs) (sv : Ptr) (K : Finset Slot) : Prop :=
  (K.filter fun k => s.slot sv k = 0).card ≤ s.freeBlocks.card

instance Fs.decidableRoom (s : Fs) (sv : Ptr) (K : Finset Slot) : Decidable (s.Room sv K) :=
  inferInstanceAs (Decidable (_ ≤ _))

/-- The file block at the position can be had. The number of the block is computed in 32 bits. -/
def Fs.FirstFits (s : Fs) (sv : Ptr) (pos : Nat) : Prop :=
  pos % 2 ^ 41 / 512 < 143 ∧
    s.Room sv (slotsFor (pos % 2 ^ 41 / 512) (pos % 2 ^ 41 / 512 + 1))

instance Fs.decidableFirstFits (s : Fs) (sv : Ptr) (pos : Nat) : Decidable (s.FirstFits sv pos) :=
  inferInstanceAs (Decidable (_ ∧ _))

/-- All the file blocks for `n` bytes at the position can be had. -/
def Fs.AllFits (s : Fs) (sv : Ptr) (pos n : Nat) : Prop :=
  pos + n ≤ 143 * 512 ∧ s.Room sv (slotsFor (pos / 512) ((pos + n + 511) / 512))

instance Fs.decidableAllFits (s : Fs) (sv : Ptr) (pos n : Nat) : Decidable (s.AllFits sv pos n) :=
  inferInstanceAs (Decidable (_ ∧ _))

variable {files : Set Ptr} {sv : Ptr} {N : Set Slot} {s t : Fs} {u : Uio} {l : List UInt8}
  {K K' : Finset Slot} {lo hi : Nat} {k : Slot}

theorem mem_slotsFor : k ∈ slotsFor lo hi ↔ ∃ i, lo ≤ i ∧ i < hi ∧ k ∈ Needs i := by
  rw [slotsFor, Finset.mem_union, Finset.mem_image]
  constructor
  · intro h
    rcases h with ⟨i, hi, rfl⟩ | htable
    · obtain ⟨hlo, hhi⟩ := Finset.mem_Ico.1 hi
      exact ⟨i, hlo, hhi, .inl rfl⟩
    · split_ifs at htable with hbig
      · obtain ⟨i, hi, h15⟩ := hbig
        obtain ⟨hlo, hhi⟩ := Finset.mem_Ico.1 hi
        exact ⟨i, hlo, hhi, .inr ⟨h15, Finset.mem_singleton.1 htable⟩⟩
      · exact absurd htable (Finset.notMem_empty k)
  · rintro ⟨i, hlo, hhi, rfl | ⟨h15, rfl⟩⟩
    · exact .inl ⟨i, Finset.mem_Ico.2 ⟨hlo, hhi⟩, rfl⟩
    · right
      rw [if_pos ⟨i, Finset.mem_Ico.2 ⟨hlo, hhi⟩, h15⟩]
      exact Finset.mem_singleton_self _

theorem slotsFor_subset {hi' : Nat} (h : hi ≤ hi') : slotsFor lo hi ⊆ slotsFor lo hi' := by
  intro k hk
  obtain ⟨i, hlo, hhi, hk⟩ := mem_slotsFor.1 hk
  exact mem_slotsFor.2 ⟨i, hlo, hhi.trans_le h, hk⟩

theorem Fs.Room.mono (h : s.Room sv K') (hsub : K ⊆ K') : s.Room sv K :=
  (Finset.card_le_card (Finset.filter_subset_filter _ hsub)).trans h

section Updates

variable {pos : Nat} {data : List UInt8}

/-- When an update has filled all the slots, there was room for them: what it has put into the
empty ones are different blocks, and they were free. -/
theorem Updated.room (h : Updated files sv N pos data s t) (hsv : sv ∈ files)
    (hfilled : ∀ k ∈ K, t.slot sv k ≠ 0) : s.Room sv K := by
  refine Finset.card_le_card_of_injOn (fun k => (t.slot sv k).toNat) ?_ ?_
  · intro k hk
    obtain ⟨hk, hzero⟩ := Finset.mem_filter.1 hk
    have hne := hfilled k hk
    have hlt := (h.sound.marked sv hsv k hne).2
    have hfree := h.fresh k hzero hne
    refine Finset.mem_coe.2 (Finset.mem_filter.2 ⟨Finset.mem_range.2 ?_, ?_⟩)
    · rw [← h.same.nblocks]
      exact UInt32.lt_iff_toNat_lt.1 hlt
    · rw [UInt32.ofNat_toNat]
      exact Bool.eq_false_of_not_eq_true hfree
  · intro k hk k' hk' heq
    have hne := hfilled k (Finset.mem_filter.1 hk).1
    exact (h.sound.once sv hsv sv hsv k k' hne (UInt32.toNat_inj.1 heq)).2

/-- As long as one of the slots is empty, the volume is not full. -/
theorem Updated.not_full (h : Updated files sv N pos data s t) (hq : Quiet s) (hs : Sound files s)
    (hsv : sv ∈ files) (hN : ∀ k ∈ N, k ∈ K) (hroom : s.Room sv K) (hk : k ∈ K)
    (hzero : t.slot sv k = 0) : ¬ ∀ b < t.nblocks, Marked t b := by
  have hinj : Function.Injective fun k : Slot => (sv, k) := fun k k' hkk => (Prod.mk.inj hkk).2
  -- only the slots that were empty at first have been given blocks
  have hspends : Spends files ((K.filter fun k => s.slot sv k = 0).image (sv, ·)) s t := by
    refine ⟨h.sound, h.same.quiet hq, h.same.nblocks, fun b hb => ?_⟩
    rcases h.taken b hb with hold | ⟨hne, k, hkN, rfl⟩
    · exact .inl hold
    · by_cases hold : s.slot sv k = 0
      · right
        exact ⟨hne, sv, hsv, k, Finset.mem_image_of_mem _
          (Finset.mem_filter.2 ⟨hN k hkN, hold⟩), rfl⟩
      · left
        rw [h.kept sv hsv k hold]
        exact (hs.marked sv hsv k hold).1
  refine hspends.not_full ?_ (Finset.mem_image_of_mem _ (Finset.mem_filter.2 ⟨hk, ?_⟩)) hzero
  · rw [Finset.card_image_of_injective _ hinj]
    exact hroom
  · by_contra hold
    rw [h.kept sv hsv k hold] at hzero
    exact hold hzero

end Updates

/-! ## How a write ends -/

/-- The file is as it was. -/
structure Unchanged (s t : Fs) (sv : Ptr) : Prop where
  bytes : t.byteAt sv = s.byteAt sv
  size : (t.inode sv).size = (s.inode sv).size

section Ends

variable {n : Nat} {r : Except Errno Unit} {x : Fs × Uio}

/-- When bytes have been written, there was room for them. -/
theorem Written.room (h : Written files sv N s u l n x) (hsv : sv ∈ files) (hn : n ≠ 0) :
    u.filePos + n ≤ 143 * 512 ∧
      s.Room sv (slotsFor (u.filePos / 512) ((u.filePos + n + 511) / 512)) := by
  have hmapped := h.mapped hn
  constructor
  · have hlast := lt_of_mapping_ne_zero
      (hmapped ((u.filePos + n - 1) / 512) (by omega) (by omega))
    omega
  · refine h.updated.room hsv fun k hk => ?_
    obtain ⟨i, hlo, hhi, hk⟩ := mem_slotsFor.1 hk
    have hi := hmapped i hlo (by omega)
    rcases hk with rfl | ⟨h15, rfl⟩
    · exact hi
    · intro hzero
      exact hi (mapping_no_table h15 hzero)

theorem Written.firstFits (h : Written files sv N s u l n x) (hsv : sv ∈ files) (hn : n ≠ 0) :
    s.FirstFits sv u.offset := by
  obtain ⟨hsize, hroom⟩ := h.room hsv hn
  change u.filePos / 512 < 143 ∧ s.Room sv (slotsFor (u.filePos / 512) (u.filePos / 512 + 1))
  exact ⟨by omega, hroom.mono (slotsFor_subset (by omega))⟩

theorem Written.unchanged (h : Written files sv N s u l 0 x) : Unchanged s x.1 sv where
  bytes := by
    rw [h.updated.own, List.take_zero, overlay_nil]
  size := by
    rw [h.size, if_neg fun hand => hand.1 rfl]

/-- A write whose first block cannot be had changes nothing. -/
theorem IoEnds.unchanged (h : IoEnds files sv s u l r x) (hsv : sv ∈ files)
    (hpos : u.resid.toNat ≠ 0) (hfirst : ¬ s.FirstFits sv u.offset) :
    (∃ e, r = .error e) ∧ Unchanged s x.1 sv := by
  cases h with
  | done hw => exact absurd (hw.firstFits hsv hpos) hfirst
  | @refused n e _ hw _ _ =>
      by_cases hn : n = 0
      · subst hn
        exact ⟨⟨e, rfl⟩, hw.unchanged⟩
      · exact absurd (hw.firstFits hsv hn) hfirst

end Ends

end Os161.Sfs

import Os161.Sfs.Mapping

set_option autoImplicit false

/-!
# What `sfs_itrunc` frees

The two loops of `sfs_itrunc` compare with the new length in different ways: the direct blocks are
cut from the new end on, those of the indirect block from the block behind it on. A block of the
indirect block that begins exactly at the new end is kept (`Kept`).
-/

namespace Os161.Sfs

open Os161.Lib.Calls

variable {ok : Panic → Prop} {s t u : Fs} {sv : Ptr}

/-! ## Freeing blocks -/

/-- The blocks `F` were in use and have been freed, and no others. -/
def Released (F : Daddr → Prop) (s t : Fs) : Prop :=
  ∀ x, (F x → Marked s x) ∧ (Marked t x ↔ Marked s x ∧ ¬ F x)

theorem released_none (h : t.freemap = s.freemap) : Released (fun _ => False) s t :=
  fun x => ⟨False.elim, by rw [Marked, h, Marked]; simp⟩

theorem Released.trans {F G : Daddr → Prop} (h : Released F s t) (h' : Released G t u) :
    Released (fun x => F x ∨ G x) s u := fun x =>
  ⟨fun hx => hx.elim (h x).1 fun hg => ((h x).2.1 ((h' x).1 hg)).1, by
    rw [(h' x).2, (h x).2]
    tauto⟩

theorem Released.congr {F G : Daddr → Prop} (h : Released F s t) (hFG : ∀ x, F x ↔ G x) :
    Released G s t := by
  rwa [← show F = G from funext fun x => propext (hFG x)]

theorem released_mark {b : Daddr} (hb : Marked s b) :
    Released (fun x => x = b) s (s.mark b false) := by
  intro x
  refine ⟨fun hx => hx ▸ hb, ?_⟩
  rw [marked_mark]
  simp only [Bool.false_eq_true, and_false, false_or]
  exact and_comm

/-- `sfs_bfree` of a block that is in use, or a failed assertion of `bitmap_unmark`. -/
theorem wp_bfree_of {b : Daddr} {Q : Except Errno Unit → Fs → Prop}
    (hb : ok .assertion ∨ b < s.freemap.nbits ∧ Marked s b)
    (hQ : Marked s b → Q (.ok ()) (s.mark b false)) : wp ok (bfree b) Q s := by
  rw [bfree, wp_bind, wp_get, then_ok, wp_ite]
  refine ⟨fun h => (wp_set).2 (hQ h.2), fun h => (wp_halt _).2 ?_⟩
  exact hb.resolve_right h

/-! ## The two loops -/

/-- The block numbers in an array that are not zero are in use, and no two are the same. -/
def Frees {n : Nat} (a : Fin n → Daddr) (s : Fs) : Prop :=
  (∀ i, a i ≠ 0 → a i < s.freemap.nbits ∧ Marked s (a i)) ∧
    ∀ i j, a i ≠ 0 → a i = a j → i = j

/-- The entries of an array that a loop has dropped when it still has to look at those in `is`. -/
def Dropped {n : Nat} (a : Fin n → Daddr) (p : Fin n → Prop) (is : List (Fin n)) (x : Daddr) :
    Prop :=
  x ≠ 0 ∧ ∃ i ∉ is, p i ∧ a i = x

/-- The next block to be dropped is still in use. -/
theorem Frees.next {n : Nat} {a : Fin n → Daddr} {p : Fin n → Prop} {i : Fin n}
    {is : List (Fin n)} (h : Frees a s) (hs : SameVolume s t)
    (hr : Released (Dropped a p (i :: is)) s t) (hi : a i ≠ 0) :
    a i < t.freemap.nbits ∧ Marked t (a i) := by
  rw [hs.nbits]
  refine ⟨(h.1 i hi).1, (hr _).2.2 ⟨(h.1 i hi).2, ?_⟩⟩
  rintro ⟨-, j, hj, -, hji⟩
  rw [h.2 i j hi hji.symm] at hj
  exact hj List.mem_cons_self

/-- Among the entries a loop has looked at there is one more. -/
theorem exists_notMem_cons {n : Nat} {q : Fin n → Prop} {i : Fin n} {is : List (Fin n)}
    (hi : i ∉ is) : (∃ j, j ∉ is ∧ q j) ↔ (∃ j, j ∉ i :: is ∧ q j) ∨ q i := by
  constructor
  · rintro ⟨j, hj, hq⟩
    by_cases hji : j = i
    · exact .inr (hji ▸ hq)
    · exact .inl ⟨j, by simp [hji, hj], hq⟩
  · rintro (⟨j, hj, hq⟩ | hq)
    · exact ⟨j, fun h => hj (List.mem_cons_of_mem _ h), hq⟩
    · exact ⟨i, hi, hq⟩

/-- Looking at one more entry drops it, or nothing. -/
theorem dropped_cons {n : Nat} {a : Fin n → Daddr} {p : Fin n → Prop} {i : Fin n}
    {is : List (Fin n)} (hi : i ∉ is) (x : Daddr) :
    Dropped a p is x ↔ Dropped a p (i :: is) x ∨ (x = a i ∧ a i ≠ 0 ∧ p i) := by
  rw [Dropped, exists_notMem_cons hi, and_or_left, ← Dropped]
  refine or_congr_right ⟨?_, ?_⟩
  · rintro ⟨hx, hp, rfl⟩
    exact ⟨rfl, hx, hp⟩
  · rintro ⟨rfl, hx, hp⟩
    exact ⟨hx, hp, rfl⟩

theorem not_dropped_finRange {n : Nat} {a : Fin n → Daddr} {p : Fin n → Prop} (x : Daddr) :
    ¬ Dropped a p (List.finRange n) x := fun ⟨_, i, hi, _⟩ => hi (List.mem_finRange i)

/-- What the first loop has done when it still has to look at the entries `is`. -/
structure DirectCut (s : Fs) (sv : Ptr) (n : Nat) (is : List (Fin 15)) (t : Fs) : Prop where
  nodup : is.Nodup
  same : SameVolume s t
  disk : t.disk = s.disk
  others : ∀ sv', sv' ≠ sv → t.inode sv' = s.inode sv'
  direct : (t.inode sv).direct = fun i : Fin 15 => if n ≤ i ∧ i ∉ is then 0 else (s.inode sv).direct i
  inode : t.inode sv = { s.inode sv with direct := (t.inode sv).direct }
  released : Released (Dropped (s.inode sv).direct (fun i => n ≤ i) is) s t

theorem directCut_start (s : Fs) (sv : Ptr) (n : Nat) :
    DirectCut s sv n (List.finRange 15) s where
  nodup := List.nodup_finRange 15
  same := .refl s
  disk := rfl
  others _ _ := rfl
  direct := by simp
  inode := rfl
  released := (released_none rfl).congr fun x => (iff_false_right (not_dropped_finRange x)).2 id

/-- One round of the first loop. -/
theorem wp_truncDirect {b : UInt32} {i : Fin 15} {is : List (Fin 15)}
    (hfrees : ok .assertion ∨ Frees (s.inode sv).direct s)
    (h : DirectCut s sv b.toNat (i :: is) t) :
    wp ok (truncDirect sv b i) (fun r t => r = .ok () ∧ DirectCut s sv b.toNat is t) t := by
  obtain ⟨hi, hnodup⟩ := List.nodup_cons.1 h.nodup
  have hblock : (t.inode sv).direct i = (s.inode sv).direct i := by simp [h.direct]
  rw [truncDirect, wp_bind, wp_get, then_ok, hblock, wp_ite]
  refine ⟨fun ⟨hle, hne⟩ => ?_, fun hkeep => ?_⟩
  · rw [wp_bind]
    refine wp_bfree_of (hfrees.imp_right fun hf => hf.next h.same h.released hne) fun hm => ?_
    rw [then_ok, wp_modify]
    have hinode : ((t.mark ((s.inode sv).direct i) false).updateInode sv
        ((t.inode sv).setDirect i 0)).inode sv = (t.inode sv).setDirect i 0 :=
      Function.update_self sv _ t.inode
    refine ⟨rfl, hnodup, ⟨h.same.dBlocks, h.same.media, h.same.nblocks, h.same.nbits,
      h.same.vnodes, h.same.refcount, h.same.ino⟩, h.disk, fun sv' hne' => ?_, ?_, ?_, ?_⟩
    · exact (Function.update_of_ne hne' _ _).trans (h.others sv' hne')
    · refine (congrArg Dinode.direct hinode).trans ?_
      funext j
      rcases eq_or_ne j i with rfl | hji
      · simp [Dinode.setDirect, hle, hi]
      · simp [Dinode.setDirect, h.direct, hji]
    · refine hinode.trans ?_
      rw [h.inode]
      exact congrArg (fun a => { s.inode sv with direct := a }) (congrArg Dinode.direct hinode).symm
    · refine (h.released.trans (released_mark hm)).congr fun x => ?_
      rw [dropped_cons hi]
      simp [hne, hle]
  · refine (wp_pure _).2 ⟨rfl, hnodup, h.same, h.disk, h.others, ?_, h.inode, ?_⟩
    · rw [h.direct]
      funext j
      rcases eq_or_ne j i with rfl | hji
      · by_cases hle : b.toNat ≤ j
        · simp [not_not.1 fun hne => hkeep ⟨hle, hne⟩]
        · simp [hle]
      · simp [hji]
    · refine h.released.congr fun x => ?_
      rw [dropped_cons hi]
      exact ⟨.inl, fun hx => hx.resolve_right fun ⟨_, hne, hle⟩ => hkeep ⟨hle, hne⟩⟩

/-- What the second loop has done to the bitmap and its variables. -/
structure TableCut (s : Fs) (buf : Idbuf) (n : Nat) (is : List (Fin 128)) (x : Fs × Scan) :
    Prop where
  nodup : is.Nodup
  same : SameVolume s x.1
  disk : x.1.disk = s.disk
  inode : x.1.inode = s.inode
  idbuf : x.2.idbuf = fun j : Fin 128 => if n < 15 + (j : Nat) ∧ j ∉ is then 0 else buf j
  hasnonzero : x.2.hasnonzero = true ↔ ∃ j : Fin 128, j ∉ is ∧ ¬ n < 15 + (j : Nat) ∧ buf j ≠ 0
  iddirty : x.2.iddirty = true ↔ ∃ j : Fin 128, j ∉ is ∧ n < 15 + (j : Nat) ∧ buf j ≠ 0
  released : Released (Dropped buf (fun j => n < 15 + j) is) s x.1

theorem tableCut_start (s : Fs) (buf : Idbuf) (n : Nat) :
    TableCut s buf n (List.finRange 128) (s, ⟨buf, false, false⟩) where
  nodup := List.nodup_finRange 128
  same := .refl s
  disk := rfl
  inode := rfl
  idbuf := by simp
  hasnonzero := by simp
  iddirty := by simp
  released := (released_none rfl).congr fun x => (iff_false_right (not_dropped_finRange x)).2 id

/-- One round of the second loop. -/
theorem wp_truncIndirect {b : UInt32} {buf : Idbuf} {j : Fin 128} {is : List (Fin 128)}
    {x : Fs × Scan} (hfrees : ok .assertion ∨ Frees buf s)
    (h : TableCut s buf b.toNat (j :: is) x) :
    wp ok (truncIndirect b j) (fun r y => r = .ok () ∧ TableCut s buf b.toNat is y) x := by
  obtain ⟨t, v⟩ := x
  obtain ⟨hj, hnodup⟩ := List.nodup_cons.1 h.nodup
  have hentry : v.idbuf j = buf j := by
    rw [h.idbuf]
    simp
  simp only [truncIndirect, wp_bind, wp_get, then_ok, hentry, wp_ite, wp_framed, wp_onLocal,
    wp_modify]
  refine ⟨fun hdrop => ?_, fun hkeep => ?_⟩
  · obtain ⟨hlt, hne⟩ := hdrop
    refine wp_bfree_of (hfrees.imp_right fun hf => hf.next h.same h.released hne) fun hm => ?_
    simp only [wp_bind, then_ok, wp_onLocal, wp_modify, Function.update_self, ne_eq,
      not_true_eq_false, if_false, true_and]
    refine ⟨hnodup, ⟨h.same.dBlocks, h.same.media, h.same.nblocks, h.same.nbits,
      h.same.vnodes, h.same.refcount, h.same.ino⟩, h.disk, h.inode, ?_, ?_, ?_, ?_⟩
    · funext k
      rcases eq_or_ne k j with rfl | hkj
      · simp [hlt, hj]
      · refine (Function.update_of_ne hkj _ _).trans ?_
        rw [show v.idbuf = _ from h.idbuf]
        simp [hkj]
    · rw [h.hasnonzero, exists_notMem_cons hj]
      simp [hlt]
    · rw [exists_notMem_cons hj]
      simp [hlt, hne]
    · refine (h.released.trans (released_mark hm)).congr fun x => ?_
      rw [dropped_cons hj]
      simp [hne, hlt]
  · have hfields : (if buf j ≠ 0 then { v with hasnonzero := true } else v : Scan) =
        { v with hasnonzero := v.hasnonzero || decide (buf j ≠ 0) } := by
      split_ifs with hb <;> simp [hb]
    rw [hfields]
    refine ⟨trivial, hnodup, h.same, h.disk, h.inode, ?_, ?_, ?_, ?_⟩
    · rw [h.idbuf]
      funext k
      rcases eq_or_ne k j with rfl | hkj
      · by_cases hlt : b.toNat < 15 + k
        · simp [not_not.1 fun hne => hkeep ⟨hlt, hne⟩]
        · simp [hlt]
      · simp [hkj]
    · rw [exists_notMem_cons hj, ← h.hasnonzero, Bool.or_eq_true, decide_eq_true_eq]
      exact or_congr_right ⟨fun hb => ⟨fun hlt => hkeep ⟨hlt, hb⟩, hb⟩, And.right⟩
    · rw [exists_notMem_cons hj, ← h.iddirty]
      exact (or_iff_left hkeep).symm
    · refine h.released.congr fun x => ?_
      rw [dropped_cons hj]
      exact ⟨.inl, fun hx => hx.resolve_right fun hj => hkeep ⟨hj.2.2, hj.2.1⟩⟩

/-- The first loop. -/
theorem wp_truncDirects (b : UInt32) (hfrees : ok .assertion ∨ Frees (s.inode sv).direct s) :
    wp ok (forEach (List.finRange 15) (truncDirect sv b))
      (fun r t => r = .ok () ∧ DirectCut s sv b.toNat [] t) s := by
  refine wp_forEach (DirectCut s sv b.toNat) (fun i is t h => ?_) (fun t h => ⟨rfl, h⟩)
    (directCut_start s sv b.toNat)
  refine wp_mono (wp_truncDirect hfrees h) fun r t' ⟨hr, h'⟩ => ?_
  rw [hr]
  exact h'

/-- The second loop. -/
theorem wp_truncIndirects (b : UInt32) (buf : Idbuf) (hfrees : ok .assertion ∨ Frees buf s) :
    wp ok (forEach (List.finRange 128) (truncIndirect b))
      (fun r x => r = .ok () ∧ TableCut s buf b.toNat [] x) (s, ⟨buf, false, false⟩) := by
  refine wp_forEach (TableCut s buf b.toNat) (fun j is x h => ?_) (fun x h => ⟨rfl, h⟩)
    (tableCut_start s buf b.toNat)
  refine wp_mono (wp_truncIndirect hfrees h) fun r y ⟨hr, h'⟩ => ?_
  rw [hr]
  exact h'

/-! ## The whole function -/

/-- The new length is `n` blocks, and the block `i` is kept. -/
def Kept (n i : Nat) : Prop := i < n ∨ 15 ≤ n ∧ i = n

/-- The indirect block is freed: the second loop runs and finds nothing that is kept. -/
def Fs.FreesTable (s : Fs) (sv : Ptr) (n : Nat) : Prop :=
  (s.inode sv).indirect ≠ 0 ∧ n < 142 ∧ ∀ i, 15 ≤ i → Kept n i → s.mapping sv i = 0

/-- What `sfs_itrunc` does to a file that is to have `n` blocks. -/
structure Cut (s : Fs) (sv : Ptr) (n : Nat) (t : Fs) : Prop where
  same : SameVolume s t
  others : ∀ sv', sv' ≠ sv → t.inode sv' = s.inode sv'
  disk : ∀ x, x ≠ (s.inode sv).indirect → t.disk x = s.disk x
  kept : ∀ i, Kept n i → t.mapping sv i = s.mapping sv i
  dropped : ∀ i, ¬ Kept n i → t.mapping sv i = 0
  freed : s.FreesTable sv n → (t.inode sv).indirect = 0
  table : ¬ s.FreesTable sv n → (t.inode sv).indirect = (s.inode sv).indirect
  released : Released (fun x => x ≠ 0 ∧ ((∃ i, ¬ Kept n i ∧ s.mapping sv i = x) ∨
    s.FreesTable sv n ∧ x = (s.inode sv).indirect)) s t

/-- What has to be in use for `sfs_itrunc` not to panic. -/
structure Cuttable (s : Fs) (sv : Ptr) : Prop where
  onDisk : (s.inode sv).indirect ≠ 0 → (s.inode sv).indirect < s.dBlocks
  marked : ∀ k, s.slot sv k ≠ 0 → s.slot sv k < s.freemap.nbits ∧ Marked s (s.slot sv k)
  once : ∀ k k', s.slot sv k ≠ 0 → s.slot sv k = s.slot sv k' → k = k'

theorem Cuttable.frees_direct (h : Cuttable s sv) : Frees (s.inode sv).direct s := by
  have hslot : ∀ i : Fin 15, s.slot sv (.data i) = (s.inode sv).direct i := fun i =>
    mapping_direct s sv i.isLt
  refine ⟨fun i hi => ?_, fun i j hi hij => ?_⟩
  · have hm := h.marked (.data i)
    rw [hslot] at hm
    exact hm hi
  · have hk := h.once (.data i) (.data j)
    rw [hslot, hslot] at hk
    exact Fin.ext (Slot.data.inj (hk hi hij))

/-! ### What has been dropped -/

/-- Where the first loop stops. -/
theorem dropped_direct_iff {n : Nat} (x : Daddr) :
    Dropped (s.inode sv).direct (fun i => n ≤ i) [] x ↔
      x ≠ 0 ∧ ∃ i < 15, ¬ Kept n i ∧ s.mapping sv i = x := by
  refine and_congr_right fun _ => ⟨?_, ?_⟩
  · rintro ⟨i, -, hi, hx⟩
    exact ⟨i, i.isLt, by unfold Kept; omega, (mapping_direct s sv i.isLt).trans hx⟩
  · rintro ⟨i, hi, hk, hx⟩
    refine ⟨⟨i, hi⟩, List.not_mem_nil, ?_, (mapping_direct s sv hi).symm.trans hx⟩
    unfold Kept at hk
    show n ≤ i
    omega

theorem not_kept_iff {n : Nat} (j : Nat) : ¬ Kept n (15 + j) ↔ n < 15 + j := by
  unfold Kept
  omega

/-- Where the second loop stops. -/
theorem dropped_table_iff {n : Nat} (h : (s.inode sv).indirect ≠ 0) (x : Daddr) :
    Dropped (Idbuf.ofBlock (s.disk (s.inode sv).indirect)) (fun j => n < 15 + j) [] x ↔
      x ≠ 0 ∧ ∃ i, 15 ≤ i ∧ ¬ Kept n i ∧ s.mapping sv i = x := by
  refine and_congr_right fun hx => ⟨?_, ?_⟩
  · rintro ⟨j, -, hj, hx⟩
    exact ⟨15 + j, by omega, (not_kept_iff j).2 hj, (ofBlock_mapping h j).symm.trans hx⟩
  · rintro ⟨i, hi, hk, rfl⟩
    have hlt := lt_of_mapping_ne_zero hx
    obtain ⟨j, rfl⟩ := Nat.exists_eq_add_of_le hi
    exact ⟨⟨j, by omega⟩, List.not_mem_nil, (not_kept_iff j).1 hk,
      ofBlock_mapping h ⟨j, by omega⟩⟩

/-- The second loop has found something exactly when the indirect block is not freed. -/
theorem freesTable_iff {n : Nat} (h : (s.inode sv).indirect ≠ 0) (hn : n < 142) :
    s.FreesTable sv n ↔ ¬ ∃ j : Fin 128, j ∉ ([] : List (Fin 128)) ∧ ¬ n < 15 + (j : Nat) ∧
      Idbuf.ofBlock (s.disk (s.inode sv).indirect) j ≠ 0 := by
  constructor
  · rintro ⟨-, -, hempty⟩ ⟨j, -, hj, hne⟩
    rw [ofBlock_mapping h] at hne
    exact hne (hempty _ (by omega) (by_contra fun hk => hj ((not_kept_iff j).1 hk)))
  · refine fun hnone => ⟨h, hn, fun i hi hk => by_contra fun hne => hnone ?_⟩
    have hlt := lt_of_mapping_ne_zero hne
    obtain ⟨j, rfl⟩ := Nat.exists_eq_add_of_le hi
    refine ⟨⟨j, by omega⟩, List.not_mem_nil, fun hj => (not_kept_iff j).2 hj hk, ?_⟩
    rwa [ofBlock_mapping h]

section Final

variable {n : Nat}

/-- What the second loop frees has not been freed by the first. -/
theorem Cuttable.frees_table (h : Cuttable s sv) (hne : (s.inode sv).indirect ≠ 0)
    (ht : DirectCut s sv n [] t) :
    Frees (Idbuf.ofBlock (s.disk (s.inode sv).indirect)) t := by
  have hslot : ∀ j : Fin 128, s.slot sv (.data (15 + j)) =
      Idbuf.ofBlock (s.disk (s.inode sv).indirect) j := fun j => (ofBlock_mapping hne j).symm
  refine ⟨fun j hj => ?_, fun i j hi hij => ?_⟩
  · have hm := h.marked (.data (15 + j))
    have honce := h.once (.data (15 + j))
    rw [hslot] at hm honce
    rw [ht.same.nbits]
    refine ⟨(hm hj).1, (ht.released _).2.2 ⟨(hm hj).2, ?_⟩⟩
    rw [dropped_direct_iff]
    rintro ⟨-, i, hi, -, hx⟩
    have := Slot.data.inj (honce (.data i) hj hx.symm)
    omega
  · have hk := h.once (.data (15 + i)) (.data (15 + j))
    rw [hslot, hslot] at hk
    exact Fin.ext (Nat.add_left_cancel (Slot.data.inj (hk hi hij)))

/-- The indirect block itself is still in use after both loops. -/
theorem Cuttable.table {x : Fs × Scan} (h : Cuttable s sv) (hne : (s.inode sv).indirect ≠ 0)
    (hr : Released (fun y => y ≠ 0 ∧ ∃ i, ¬ Kept n i ∧ s.mapping sv i = y) s x.1)
    (hsame : SameVolume s x.1) :
    (s.inode sv).indirect < x.1.freemap.nbits ∧ Marked x.1 (s.inode sv).indirect := by
  have hm := h.marked .table hne
  rw [hsame.nbits]
  refine ⟨hm.1, (hr _).2.2 ⟨hm.2, ?_⟩⟩
  rintro ⟨-, i, -, hi⟩
  exact Slot.noConfusion (h.once .table (.data i) hne hi.symm)

/-- The direct blocks after the first loop. -/
theorem DirectCut.mapping (h : DirectCut s sv n [] t) (hu : (u.inode sv).direct = (t.inode sv).direct)
    {i : Nat} (hi : i < 15) : u.mapping sv i = if n ≤ i then 0 else s.mapping sv i := by
  rw [mapping_direct u sv hi, hu, h.direct, mapping_direct s sv hi]
  simp

/-- The second loop has nothing to do. -/
theorem DirectCut.cut (h : DirectCut s sv n [] t) (hskip : ¬ (n < 142 ∧ (s.inode sv).indirect ≠ 0)) :
    Cut s sv n t := by
  have hindirect : (t.inode sv).indirect = (s.inode sv).indirect := by rw [h.inode]
  have htail : ∀ i, 15 ≤ i → t.mapping sv i = s.mapping sv i := fun i hi => by
    unfold Fs.mapping
    rw [dif_neg (by omega), dif_neg (by omega), hindirect, h.disk]
  have hnone : ∀ i, 15 ≤ i → ¬ Kept n i → s.mapping sv i = 0 := fun i hi hk => by
    by_cases hzero : (s.inode sv).indirect = 0
    · exact mapping_no_table hi hzero
    · unfold Kept at hk
      have hn : ¬ n < 142 := fun hlt => hskip ⟨hlt, hzero⟩
      exact mapping_beyond (by omega)
  have hfrees : ¬ s.FreesTable sv n := fun hf => hskip ⟨hf.2.1, hf.1⟩
  refine ⟨h.same, h.others, fun x _ => congrFun h.disk x, fun i hk => ?_, fun i hk => ?_,
    fun hf => absurd hf hfrees, fun _ => hindirect, h.released.congr fun x => ?_⟩
  · by_cases hi : i < 15
    · rw [h.mapping rfl hi, if_neg (by unfold Kept at hk; omega)]
    · exact htail i (by omega)
  · by_cases hi : i < 15
    · rw [h.mapping rfl hi, if_pos (by unfold Kept at hk; omega)]
    · rw [htail i (by omega), hnone i (by omega) hk]
  · rw [dropped_direct_iff]
    refine and_congr_right fun hx => ⟨fun ⟨i, _, hk, hm⟩ => .inl ⟨i, hk, hm⟩, ?_⟩
    rintro (⟨i, hk, hm⟩ | ⟨hf, -⟩)
    · refine ⟨i, ?_, hk, hm⟩
      by_contra hi
      exact hx (hm ▸ hnone i (by omega) hk)
    · exact absurd hf hfrees

/-- The blocks that both loops have freed. -/
theorem TableCut.released_all {x : Fs × Scan} (h : DirectCut s sv n [] t)
    (hne : (s.inode sv).indirect ≠ 0)
    (h' : TableCut t (Idbuf.ofBlock (s.disk (s.inode sv).indirect)) n [] x) :
    Released (fun y => y ≠ 0 ∧ ∃ i, ¬ Kept n i ∧ s.mapping sv i = y) s x.1 := by
  refine (h.released.trans h'.released).congr fun y => ?_
  rw [dropped_direct_iff, dropped_table_iff hne]
  constructor
  · rintro (⟨hy, i, -, hi⟩ | ⟨hy, i, -, hi⟩)
    · exact ⟨hy, i, hi⟩
    · exact ⟨hy, i, hi⟩
  · rintro ⟨hy, i, hk, hm⟩
    by_cases hi : i < 15
    · exact .inl ⟨hy, i, hi, hk, hm⟩
    · exact .inr ⟨hy, i, by omega, hk, hm⟩

/-- The indirect block is kept, with what is left in it. -/
theorem TableCut.cut_kept {x : Fs × Scan} (h : DirectCut s sv n [] t)
    (hne : (s.inode sv).indirect ≠ 0)
    (h' : TableCut t (Idbuf.ofBlock (s.disk (s.inode sv).indirect)) n [] x)
    (hfrees : ¬ s.FreesTable sv n) (hsame : SameVolume x.1 u) (hinode : u.inode = x.1.inode)
    (hfreemap : u.freemap = x.1.freemap)
    (hdisk : ∀ y, y ≠ (s.inode sv).indirect → u.disk y = x.1.disk y)
    (hbuf : Idbuf.ofBlock (u.disk (s.inode sv).indirect) = x.2.idbuf) : Cut s sv n u := by
  have hu : u.inode sv = t.inode sv := by rw [hinode, h'.inode]
  have hindirect : (u.inode sv).indirect = (s.inode sv).indirect := by rw [hu, h.inode]
  have hdirect : ∀ i, i < 15 → u.mapping sv i = if n ≤ i then 0 else s.mapping sv i := fun i hi =>
    h.mapping (by rw [hu]) hi
  have htail : ∀ j : Fin 128, u.mapping sv (15 + j) =
      if n < 15 + (j : Nat) then 0 else s.mapping sv (15 + j) := fun j => by
    rw [← ofBlock_mapping (by rwa [hindirect]), hindirect, hbuf, h'.idbuf, ← ofBlock_mapping hne]
    simp
  refine ⟨(h.same.trans h'.same).trans hsame, fun sv' hsv => ?_, fun y hy => ?_, fun i hk => ?_,
    fun i hk => ?_, fun hf => absurd hf hfrees, fun _ => hindirect, ?_⟩
  · rw [hinode, h'.inode, h.others sv' hsv]
  · rw [hdisk y hy, h'.disk, h.disk]
  · by_cases hi : i < 15
    · rw [hdirect i hi, if_neg (by unfold Kept at hk; omega)]
    · by_cases hlt : i < 143
      · obtain ⟨j, rfl⟩ := Nat.exists_eq_add_of_le (Nat.not_lt.1 hi)
        refine (htail ⟨j, by omega⟩).trans (if_neg fun hj => (not_kept_iff j).2 hj hk)
      · rw [mapping_beyond (by omega), mapping_beyond (by omega)]
  · by_cases hi : i < 15
    · rw [hdirect i hi, if_pos (by unfold Kept at hk; omega)]
    · by_cases hlt : i < 143
      · obtain ⟨j, rfl⟩ := Nat.exists_eq_add_of_le (Nat.not_lt.1 hi)
        exact (htail ⟨j, by omega⟩).trans (if_pos ((not_kept_iff j).1 hk))
      · exact mapping_beyond (by omega)
  · intro y
    have hr := TableCut.released_all h hne h' y
    have hm : Marked u y ↔ Marked x.1 y := by rw [Marked, hfreemap, Marked]
    simp only [hfrees, false_and, or_false]
    rwa [hm]

/-- The indirect block is empty and is freed. -/
theorem TableCut.cut_freed {x : Fs × Scan} (h : DirectCut s sv n [] t)
    (hne : (s.inode sv).indirect ≠ 0)
    (h' : TableCut t (Idbuf.ofBlock (s.disk (s.inode sv).indirect)) n [] x)
    (hfrees : s.FreesTable sv n) (hm : Marked x.1 (s.inode sv).indirect) :
    Cut s sv n ((x.1.mark (s.inode sv).indirect false).updateInode sv
      { x.1.inode sv with indirect := 0 }) := by
  have hinode : ∀ sv', ((x.1.mark (s.inode sv).indirect false).updateInode sv
      { x.1.inode sv with indirect := 0 }).inode sv' =
        Function.update t.inode sv { t.inode sv with indirect := 0 } sv' := fun sv' => by
    rw [← h'.inode]
    rfl
  have hself : ((x.1.mark (s.inode sv).indirect false).updateInode sv
      { x.1.inode sv with indirect := 0 }).inode sv = { t.inode sv with indirect := 0 } := by
    rw [hinode, Function.update_self]
  have hdirect : ∀ i, i < 15 → ((x.1.mark (s.inode sv).indirect false).updateInode sv
      { x.1.inode sv with indirect := 0 }).mapping sv i = if n ≤ i then 0 else s.mapping sv i :=
    fun i hi => h.mapping (by rw [hself]) hi
  have htail : ∀ i, 15 ≤ i → ((x.1.mark (s.inode sv).indirect false).updateInode sv
      { x.1.inode sv with indirect := 0 }).mapping sv i = 0 := fun i hi =>
    mapping_no_table hi (by rw [hself])
  have hsame := h.same.trans h'.same
  refine ⟨⟨hsame.dBlocks, hsame.media, hsame.nblocks, hsame.nbits, hsame.vnodes, hsame.refcount,
    hsame.ino⟩, fun sv' hsv => ?_, fun y hy => ?_, fun i hk => ?_, fun i hk => ?_,
    fun _ => by rw [hself], fun hf => absurd hfrees hf, ?_⟩
  · rw [hinode, Function.update_of_ne hsv, h.others sv' hsv]
  · exact (congrFun h'.disk y).trans (congrFun h.disk y)
  · by_cases hi : i < 15
    · rw [hdirect i hi, if_neg (by unfold Kept at hk; omega)]
    · rw [htail i (by omega), hfrees.2.2 i (by omega) hk]
  · by_cases hi : i < 15
    · rw [hdirect i hi, if_pos (by unfold Kept at hk; omega)]
    · exact htail i (by omega)
  · refine ((TableCut.released_all h hne h').trans (released_mark hm)).congr fun y => ?_
    simp only [hfrees, true_and, and_or_left]
    exact or_congr_right ⟨fun hy => ⟨hy ▸ hne, hy⟩, And.right⟩

/-- The size is set at the end. -/
theorem Cut.sized (h : Cut s sv n t) (size : UInt32) :
    Cut s sv n (t.updateInode sv { t.inode sv with size := size }) := by
  have hself : (t.updateInode sv { t.inode sv with size := size }).inode sv =
      { t.inode sv with size := size } := Function.update_self sv _ t.inode
  have hmapping : ∀ i, (t.updateInode sv { t.inode sv with size := size }).mapping sv i =
      t.mapping sv i := fun i =>
    mapping_congr (by rw [hself]) (by rw [hself]) fun _ => rfl
  refine ⟨⟨h.same.dBlocks, h.same.media, h.same.nblocks, h.same.nbits, h.same.vnodes,
    h.same.refcount, h.same.ino⟩, fun sv' hsv => ?_, h.disk, fun i hk => ?_, fun i hk => ?_,
    fun hf => ?_, fun hf => ?_, h.released⟩
  · exact (Function.update_of_ne hsv _ _).trans (h.others sv' hsv)
  · rw [hmapping, h.kept i hk]
  · rw [hmapping, h.dropped i hk]
  · rw [hself]
    exact h.freed hf
  · rw [hself]
    exact h.table hf

end Final

/-- The length in blocks, rounded up. -/
theorem toNat_blocklen {len : Nat} (h : len < 2 ^ 32) :
    (blocklen len).toNat = (len + 511) / 512 := by
  have hdiv : ((len : Int) + 512 - 1).tdiv 512 = ((len + 511) / 512 : Nat) := by
    rw [Int.tdiv_eq_ediv_of_nonneg (by omega)]
    omega
  rw [blocklen, u32, hdiv, UInt32.toNat_ofNat']
  omega

theorem toNat_u32 {len : Nat} (h : len < 2 ^ 32) : (u32 len).toNat = len := by
  rw [u32, UInt32.toNat_ofNat']
  omega

/-- `sfs_itrunc` on a disk that does not fail: it returns, or a block that it wants to read or to
free is not there. -/
theorem wp_itrunc {len : Int} (hq : Quiet s)
    (hsafe : (ok .assertion ∧ ok .deviceInvalid) ∨ Cuttable s sv) :
    wp ok (itrunc sv len) (fun r t => r = .ok () ∧ Cut s sv (blocklen len).toNat t ∧
      (t.inode sv).size = u32 len) s := by
  obtain ⟨n, hn⟩ : ∃ n, n = (blocklen len).toNat := ⟨_, rfl⟩
  have hassert : ok .assertion ∨ Cuttable s sv := hsafe.imp_left And.left
  -- what is left to do once both loops are over
  have hend : ∀ t, Cut s sv n t → wp ok (modify fun s => s.updateInode sv
      { s.inode sv with size := u32 len } : FsCall Unit)
      (fun r t => r = .ok () ∧ Cut s sv n t ∧ (t.inode sv).size = u32 len) t := fun t ht => by
    rw [wp_modify]
    exact ⟨rfl, ht.sized _, congrArg Dinode.size (Function.update_self sv _ t.inode)⟩
  rw [itrunc, wp_bind, ← hn]
  refine wp_mono (wp_truncDirects (blocklen len) (hassert.imp_right Cuttable.frees_direct))
    fun r t hdirect => ?_
  obtain ⟨hr, ht⟩ := hdirect
  rw [← hn] at ht
  have hindirect : (t.inode sv).indirect = (s.inode sv).indirect := by rw [ht.inode]
  rw [hr, then_ok, wp_bind, wp_get, then_ok, wp_ite, hindirect]
  refine ⟨fun htable => ?_, fun hskip => ?_⟩
  · obtain ⟨hlt, hne⟩ := htable
    have hcut : ok .assertion ∨ Frees (Idbuf.ofBlock (s.disk (s.inode sv).indirect)) t :=
      hassert.imp_right fun hc => hc.frees_table hne ht
    have hdev : ∀ y : Fs, y.dBlocks = s.dBlocks →
        ok .deviceInvalid ∨ (s.inode sv).indirect < y.dBlocks := fun y hy =>
      hsafe.imp And.right fun hc => hy ▸ hc.onDisk hne
    simp only [wp_bind]
    refine wp_readblock_of (ht.same.quiet hq) (hdev t ht.same.dBlocks) ?_
    rw [then_ok, ht.disk, wp_bind, wp_withLocal]
    refine wp_mono (wp_truncIndirects (blocklen len) _ hcut) fun r x hindirects => ?_
    obtain ⟨hr, hx⟩ := hindirects
    rw [← hn] at hx
    have hsame := ht.same.trans hx.same
    have hall := TableCut.released_all ht hne hx
    have hfrees := freesTable_iff hne hlt
    rw [← hx.hasnonzero, Bool.not_eq_true] at hfrees
    have hmap : Except.map (fun a => (a, x.2)) (.ok () : Except Errno Unit) = .ok ((), x.2) := rfl
    rw [hr, hmap, then_ok, wp_ite, wp_ite]
    refine ⟨fun hempty => ?_, fun hkept => ⟨fun hdirty => ?_, fun hclean => ?_⟩⟩
    · rw [wp_bind]
      refine wp_bfree_of (hassert.imp_right fun hc => hc.table hne hall hsame) fun hm => ?_
      rw [then_ok, wp_bind, wp_modify, then_ok]
      exact hend _ (TableCut.cut_freed ht hne hx (hfrees.2 hempty) hm)
    · rw [wp_bind]
      refine wp_writeblock_of (hsame.quiet hq) (hdev x.1 hsame.dBlocks) ?_
      rw [then_ok]
      refine hend _ (TableCut.cut_kept ht hne hx (fun hf => hkept (hfrees.1 hf))
        ⟨rfl, rfl, rfl, rfl, rfl, rfl, rfl⟩ rfl rfl (fun y hy => Function.update_of_ne hy _ _) ?_)
      exact (congrArg Idbuf.ofBlock (Function.update_self _ _ _)).trans (Idbuf.ofBlock_toBlock _)
    · -- nothing was dropped from the indirect block
      refine hend _ (TableCut.cut_kept ht hne hx (fun hf => hkept (hfrees.1 hf)) (.refl x.1) rfl rfl
        (fun _ _ => rfl) ?_)
      rw [hx.disk, ht.disk, hx.idbuf]
      funext j
      by_cases hj : n < 15 + (j : Nat) ∧ j ∉ ([] : List (Fin 128))
      · rw [if_pos hj]
        by_contra hne'
        exact hclean (hx.iddirty.2 ⟨j, hj.2, hj.1, hne'⟩)
      · rw [if_neg hj]
  · exact hend t (ht.cut hskip)

/-! ## What truncation frees -/

theorem Sound.cuttable {files : Set Ptr} (h : Sound files s) (hsv : sv ∈ files) :
    Cuttable s sv := by
  refine ⟨?_, fun k hk => ?_, fun k k' hk hkk' => (h.once sv hsv sv hsv k k' hk hkk').2⟩
  · exact fun hne => h.framed.onDisk_of_lt (h.marked sv hsv .table hne).2
  · obtain ⟨hm, hlt⟩ := h.marked sv hsv k hk
    exact ⟨UInt32.lt_of_lt_of_le hlt h.framed.covered, hm⟩

/-- The block was in use and is not any more. -/
def Cleared (s t : Fs) (x : Daddr) : Prop := Marked s x ∧ ¬ Marked t x

/-- Truncation to `len` bytes frees exactly the blocks past the new end: the mapping is cut there,
the dropped blocks are freed and so is the indirect block when it has become empty, nothing else is
freed, and the size is `len`. -/
structure TruncatesTo (s t : Fs) (sv : Ptr) (len : Nat) : Prop where
  mapping : ∀ i, t.mapping sv i = if i < (len + 511) / 512 then s.mapping sv i else 0
  dropped : ∀ i, (len + 511) / 512 ≤ i → s.mapping sv i ≠ 0 → Cleared s t (s.mapping sv i)
  emptied : (∃ i, 15 ≤ i ∧ s.mapping sv i ≠ 0) → (∀ i, 15 ≤ i → t.mapping sv i = 0) →
    Cleared s t (s.inode sv).indirect
  only : ∀ x, Cleared s t x → x ≠ 0 ∧ ((∃ i, (len + 511) / 512 ≤ i ∧ s.mapping sv i = x) ∨
    x = (s.inode sv).indirect ∧ ∀ i, 15 ≤ i → t.mapping sv i = 0)
  size : (t.inode sv).size.toNat = len

theorem Released.cleared {F : Daddr → Prop} (h : Released F s t) (x : Daddr) :
    Cleared s t x ↔ F x := by
  rw [Cleared, (h x).2]
  exact ⟨fun hx => by_contra fun hF => hx.2 ⟨hx.1, hF⟩, fun hF => ⟨(h x).1 hF, fun hx => hx.2 hF⟩⟩

/-- What `sfs_itrunc` does is what it should do exactly when the block that begins at the new end
is a direct one or is not mapped. -/
theorem Cut.truncatesTo_iff {len : Nat} (h : Cut s sv ((len + 511) / 512) t)
    (hsize : (t.inode sv).size.toNat = len) :
    TruncatesTo s t sv len ↔
      (len + 511) / 512 < 15 ∨ s.mapping sv ((len + 511) / 512) = 0 := by
  obtain ⟨n, hn⟩ : ∃ n, n = (len + 511) / 512 := ⟨_, rfl⟩
  rw [← hn] at h ⊢
  constructor
  · intro htrunc
    by_contra hcon
    obtain ⟨hlt, hne⟩ := not_or.1 hcon
    have hkept := h.kept n (.inr ⟨Nat.not_lt.1 hlt, rfl⟩)
    rw [htrunc.mapping n, ← hn, if_neg (Nat.lt_irrefl n)] at hkept
    exact hne hkept.symm
  · intro hcond
    have hpast : ∀ i, n ≤ i → Kept n i → s.mapping sv i = 0 := by
      rintro i hi (hlt | ⟨h15, rfl⟩)
      · omega
      · exact hcond.resolve_left (Nat.not_lt.2 h15)
    have hmapping : ∀ i, t.mapping sv i = if i < n then s.mapping sv i else 0 := fun i => by
      by_cases hi : i < n
      · rw [if_pos hi, h.kept i (.inl hi)]
      · rw [if_neg hi]
        by_cases hk : Kept n i
        · rw [h.kept i hk, hpast i (Nat.not_lt.1 hi) hk]
        · exact h.dropped i hk
    refine ⟨by rwa [← hn], fun i hi hne => ?_, fun hex hnone => ?_, fun x hx => ?_, hsize⟩
    · rw [h.released.cleared]
      exact ⟨hne, .inl ⟨i, fun hk => hne (hpast i (hn ▸ hi) hk), rfl⟩⟩
    · obtain ⟨i, hi, hne⟩ := hex
      have htable : (s.inode sv).indirect ≠ 0 := fun hzero => hne (mapping_no_table hi hzero)
      have hempty : ∀ i, 15 ≤ i → Kept n i → s.mapping sv i = 0 := fun i hi hk => by
        rw [← h.kept i hk, hnone i hi]
      have hlt := lt_of_mapping_ne_zero hne
      have hn142 : n < 142 := by
        by_contra hge
        exact hne (hempty i hi (by unfold Kept; omega))
      rw [h.released.cleared]
      exact ⟨htable, .inr ⟨⟨htable, hn142, hempty⟩, rfl⟩⟩
    · rw [h.released.cleared] at hx
      obtain ⟨hne, ⟨i, hk, hi⟩ | ⟨hf, hxt⟩⟩ := hx
      · refine ⟨hne, .inl ⟨i, ?_, hi⟩⟩
        rw [← hn]
        exact Nat.not_lt.1 fun hlt => hk (.inl hlt)
      · refine ⟨hne, .inr ⟨hxt, fun i hi => ?_⟩⟩
        by_cases hk : Kept n i
        · rw [h.kept i hk, hf.2.2 i hi hk]
        · exact h.dropped i hk

/-- After `sfs_itrunc` exactly the blocks past the new end have been freed if and only if the file
block with the number `⌈len / 512⌉` is a direct one or was not mapped. On a sound volume the call
returns. -/
theorem itrunc_truncatesTo_iff {len : Nat} (hq : Quiet s) (hlen : len ≤ 143 * 512) :
    (∀ r t, (itrunc sv len).result s = .ok (r, t) → r = .ok () ∧
      (TruncatesTo s t sv len ↔
        (len + 511) / 512 < 15 ∨ s.mapping sv ((len + 511) / 512) = 0)) ∧
    ∀ files, Sound files s → sv ∈ files → ∃ r t, (itrunc sv len).result s = .ok (r, t) := by
  refine ⟨fun r t hrun => ?_, fun files hsound hsv => ?_⟩
  · have hwp : wp (fun _ => True) (itrunc sv len) _ s := wp_itrunc hq (.inl ⟨trivial, trivial⟩)
    obtain ⟨hr, hcut, hsize⟩ := hwp.returns hrun
    rw [toNat_blocklen (by omega)] at hcut
    refine ⟨hr, hcut.truncatesTo_iff ?_⟩
    rw [hsize, toNat_u32 (by omega)]
  · have hwp : wp (fun _ => False) (itrunc sv len) _ s :=
      wp_itrunc hq (.inr (hsound.cuttable hsv))
    obtain ⟨r, t, hrun, -⟩ := hwp.exists_result
    exact ⟨r, t, hrun⟩

/-- A file of 16 blocks, of which only the last is mapped, to the disk block `4` by the indirect
block `3`. -/
def sixteenBlocks : Fs :=
  smallVolume 5 (smallInode (16 * 512) (fun _ => 0) 3)
    fun _ => Idbuf.toBlock fun j => if j = 0 then 4 else 0

theorem mapping_sixteenBlocks (i : Nat) :
    sixteenBlocks.mapping 1 i = if i = 15 then 4 else 0 := by
  have htable : (sixteenBlocks.inode 1).indirect = 3 := rfl
  by_cases hi : i < 15
  · rw [mapping_direct _ _ hi, if_neg (by omega)]
    rfl
  · by_cases hlt : i < 143
    · obtain ⟨j, rfl⟩ := Nat.exists_eq_add_of_le (Nat.not_lt.1 hi)
      have hne : (sixteenBlocks.inode 1).indirect ≠ 0 := by rw [htable]; decide
      have hdisk : sixteenBlocks.disk (sixteenBlocks.inode 1).indirect =
        Idbuf.toBlock fun j => if j = 0 then 4 else 0 := rfl
      have hentry := ofBlock_mapping hne ⟨j, by omega⟩
      rw [hdisk, Idbuf.ofBlock_toBlock] at hentry
      rw [← hentry]
      simp [Fin.ext_iff]
    · rw [mapping_beyond (by omega), if_neg (by omega)]

theorem sound_sixteenBlocks : Sound {1} sixteenBlocks := by
  have hslot : ∀ k, sixteenBlocks.slot 1 k =
      if k = .table then 3 else if k = .data 15 then 4 else 0 := by
    rintro (i | _)
    · rw [if_neg Slot.noConfusion, Fs.slot, mapping_sixteenBlocks]
      simp
    · rfl
  refine sound_smallVolume (by decide) (by decide) (fun k => ?_) fun k k' hk hkk' => ?_
  · change sixteenBlocks.slot 1 k < 5
    rw [hslot]
    split_ifs <;> decide
  · change sixteenBlocks.slot 1 k ≠ 0 at hk
    change sixteenBlocks.slot 1 k = sixteenBlocks.slot 1 k' at hkk'
    rw [hslot] at hk hkk'
    rw [hslot] at hkk'
    split_ifs at hk hkk' <;> simp_all

/-- Truncated to 15 blocks, the file keeps its last block. -/
theorem not_truncatesTo_sixteenBlocks : Sound {1} sixteenBlocks ∧ Quiet sixteenBlocks ∧
    ∃ t, (itrunc 1 (15 * 512 : Nat)).result sixteenBlocks = .ok (.ok (), t) ∧
      t.mapping 1 15 = 4 ∧ ¬ TruncatesTo sixteenBlocks t 1 (15 * 512) := by
  refine ⟨sound_sixteenBlocks, quiet_smallVolume, ?_⟩
  have hwp : wp (fun _ => False) (itrunc 1 (15 * 512 : Nat)) _ sixteenBlocks :=
    wp_itrunc quiet_smallVolume (.inr (sound_sixteenBlocks.cuttable rfl))
  obtain ⟨r, t, hrun, rfl, hcut, hsize⟩ := hwp.exists_result
  rw [toNat_blocklen (by omega)] at hcut
  refine ⟨t, hrun, ?_, fun h => ?_⟩
  · rw [hcut.kept 15 (.inr ⟨le_rfl, by decide⟩), mapping_sixteenBlocks, if_pos rfl]
  · have hcond := (hcut.truncatesTo_iff (by rw [hsize, toNat_u32 (by omega)])).1 h
    rw [mapping_sixteenBlocks] at hcond
    exact absurd hcond (by decide)

/-- Truncated to 17 blocks, it keeps them all, as it should. -/
theorem itrunc_truncatesTo_sixteenBlocks :
    ∃ t, (itrunc 1 (17 * 512 : Nat)).result sixteenBlocks = .ok (.ok (), t) ∧
      TruncatesTo sixteenBlocks t 1 (17 * 512) := by
  have h : (17 * 512 : Nat) ≤ 143 * 512 := by decide
  have hq : Quiet sixteenBlocks := quiet_smallVolume
  obtain ⟨r, t, hrun⟩ := (itrunc_truncatesTo_iff hq h).2 _ sound_sixteenBlocks rfl
  obtain ⟨rfl, hiff⟩ := (itrunc_truncatesTo_iff hq h).1 r t hrun
  exact ⟨t, hrun, hiff.2 (.inr (by rw [mapping_sixteenBlocks]; decide))⟩

end Os161.Sfs

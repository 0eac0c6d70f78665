import Os161.Sfs.ByteArrays
import Os161.Sfs.Truncation

set_option autoImplicit false

/-!
# Files that are cut and grow again

`sfs_itrunc` drops whole blocks and does not clear the rest of the last one, and so what a file has
past its new end is not gone: the bytes in the blocks that are kept (`Kept`) are there again when
the file has grown.
-/

namespace Os161.Sfs

open Os161.Lib.Calls Os161.Lib.Overlay

variable {ok : Panic → Prop} {files : Set Ptr} {s t : Fs} {sv sv' : Ptr} {n a len p : Nat}

/-! ## A volume with a file that has been cut -/

/-- The slots that lose their block. -/
def Fs.Loses (s : Fs) (sv : Ptr) (n : Nat) : Slot → Prop
  | .data i => ¬ Kept n i
  | .table => s.FreesTable sv n

theorem Cut.slot_lost (h : Cut s sv n t) {k : Slot} (hk : s.Loses sv n k) : t.slot sv k = 0 := by
  cases k with
  | data i => exact h.dropped i hk
  | table => exact h.freed hk

theorem Cut.slot_same (h : Cut s sv n t) {k : Slot} (hk : ¬ s.Loses sv n k) :
    t.slot sv k = s.slot sv k := by
  cases k with
  | data i => exact h.kept i (not_not.1 hk)
  | table => exact h.table hk

theorem Cut.slot_other (h : Cut s sv n t) (hs : Sound files s) (hsv : sv ∈ files)
    (hsv' : sv' ∈ files) (hne : sv' ≠ sv) (k : Slot) : t.slot sv' k = s.slot sv' k := by
  have hinode := h.others sv' hne
  refine slot_congr (by rw [hinode]) (by rw [hinode]) (fun htable => h.disk _ fun heq => ?_) k
  exact hne (hs.once sv' hsv' sv hsv .table .table htable heq).1

/-- A slot that has a block had it before, and does not lose it. -/
theorem Cut.slot_left (h : Cut s sv n t) (hs : Sound files s) (hsv : sv ∈ files)
    (hsv' : sv' ∈ files) {k : Slot} (hk : t.slot sv' k ≠ 0) :
    t.slot sv' k = s.slot sv' k ∧ ¬ (sv' = sv ∧ s.Loses sv n k) := by
  by_cases hown : sv' = sv
  · subst hown
    have hleft : ¬ s.Loses sv' n k := fun hlost => hk (h.slot_lost hlost)
    exact ⟨h.slot_same hleft, fun hand => hleft hand.2⟩
  · exact ⟨h.slot_other hs hsv hsv' hown k, fun hand => hown hand.1⟩

/-- What is freed are the blocks in the slots that lose them. -/
theorem Cut.released_slots (h : Cut s sv n t) :
    Released (fun x => x ≠ 0 ∧ ∃ k, s.Loses sv n k ∧ s.slot sv k = x) s t := by
  refine h.released.congr fun x => and_congr_right fun _ => ⟨?_, ?_⟩
  · rintro (⟨i, hi, hx⟩ | ⟨hf, hx⟩)
    · exact ⟨.data i, hi, hx⟩
    · exact ⟨.table, hf, hx.symm⟩
  · rintro ⟨_ | _, hk, hx⟩
    · exact .inl ⟨_, hk, hx⟩
    · exact .inr ⟨hk, hx.symm⟩

theorem Cut.sound (h : Cut s sv n t) (hs : Sound files s) (hsv : sv ∈ files) : Sound files t := by
  have hleft : ∀ x, Marked s x → (∀ k, s.Loses sv n k → s.slot sv k = x → x = 0) → Marked t x :=
    fun x hx hnone => (h.released_slots x).2.2 ⟨hx, fun ⟨hne, k, hk, hkx⟩ => hne (hnone k hk hkx)⟩
  refine ⟨⟨?_, ?_, ?_, fun x hx hlt => ?_, ?_⟩, fun sv' hsv' k hk => ?_,
    fun sv' hsv' sv'' hsv'' k k' hk heq => ?_⟩
  · rw [h.same.nblocks, h.same.dBlocks]
    exact hs.framed.onDisk
  · rw [h.same.nblocks]
    exact hs.framed.small
  · rw [h.same.nblocks, h.same.nbits]
    exact hs.framed.covered
  · rw [h.same.nblocks] at hx
    rw [h.same.nbits] at hlt
    refine hleft x (hs.framed.spare x hx hlt) fun k _ hkx => by_contra fun hne => ?_
    have hvol := (hs.marked sv hsv k (hkx ▸ hne)).2
    rw [hkx] at hvol
    exact absurd hx (UInt32.not_le.2 hvol)
  · exact hleft 0 hs.framed.superblock fun _ _ _ => rfl
  · obtain ⟨hsame, hkeep⟩ := h.slot_left hs hsv hsv' hk
    rw [hsame] at hk ⊢
    rw [h.same.nblocks]
    obtain ⟨hm, hvol⟩ := hs.marked sv' hsv' k hk
    refine ⟨hleft _ hm fun k' hk' heq => ?_, hvol⟩
    -- the block would be in two slots
    obtain ⟨rfl, rfl⟩ := hs.once sv' hsv' sv hsv k k' hk heq.symm
    exact absurd ⟨rfl, hk'⟩ hkeep
  · have hk' : t.slot sv'' k' ≠ 0 := heq ▸ hk
    have hsame := (h.slot_left hs hsv hsv' hk).1
    rw [hsame] at hk heq
    rw [(h.slot_left hs hsv hsv'' hk').1] at heq
    exact hs.once sv' hsv' sv'' hsv'' k k' hk heq

/-- A position has the same byte when its block is the same, and is not the indirect block of the
file that is cut. -/
theorem Cut.byteAt_of_mapping (h : Cut s sv n t) (hs : Sound files s) (hsv : sv ∈ files)
    (hsv' : sv' ∈ files) (hsame : t.mapping sv' (p / 512) = s.mapping sv' (p / 512)) :
    t.byteAt sv' p = s.byteAt sv' p := by
  unfold Fs.byteAt
  rw [hsame]
  split_ifs with hzero
  · rfl
  · rw [h.disk]
    exact fun heq => Slot.noConfusion (hs.once sv' hsv' sv hsv (.data (p / 512)) .table hzero heq).2

theorem Cut.byteAt_kept (h : Cut s sv n t) (hs : Sound files s) (hsv : sv ∈ files)
    (hp : Kept n (p / 512)) : t.byteAt sv p = s.byteAt sv p :=
  h.byteAt_of_mapping hs hsv hsv (h.kept _ hp)

theorem Cut.byteAt_other (h : Cut s sv n t) (hs : Sound files s) (hsv : sv ∈ files)
    (hsv' : sv' ∈ files) (hne : sv' ≠ sv) : t.byteAt sv' p = s.byteAt sv' p :=
  h.byteAt_of_mapping hs hsv hsv' (h.slot_other hs hsv hsv' hne (.data _))

/-! ## What is done later -/

/-- A write to a file, or a truncation. -/
inductive Later where
  | write (u : Uio)
  | truncate (len : Nat)

/-- The operation, which may fail. -/
def Later.call (sv : Ptr) : Later → FsCall Unit
  | .write u => do
    let _ ← withLocal u (io sv)
    pure ()
  | .truncate len => itrunc sv len

/-- Operations on files, one after the other, whether they fail or not. -/
def laterRun (ops : List (Ptr × Later)) : FsCall Unit :=
  forEach ops fun op => do
    let _ ← catching (op.2.call op.1)
    pure ()

/-- The operation is a write with good memory or a truncation to a size that there can be, and when
it is on the file `sv` it begins at the position `a` or behind it: that is where its data starts,
or the new end. -/
def Past (files : Set Ptr) (sv : Ptr) (a : Nat) (op : Ptr × Later) : Prop :=
  op.1 ∈ files ∧ match op.2 with
    | .write u => (∃ l, u.Writes l) ∧ (op.1 = sv → a ≤ u.filePos)
    | .truncate len => len < 2 ^ 32 ∧ (op.1 = sv → a ≤ len)

/-- A read of the file can show the byte `b` at the position `p`. -/
def Fs.Shows (s : Fs) (sv : Ptr) (p : Nat) (b : UInt8) : Prop :=
  ∃ u x i, u.Valid ∧ u.rw = .read ∧ (io sv).result (s, u) = .ok (.ok (), x) ∧
    u.offset + i = p ∧ x.2.out[i]? = some b

/-- The volume is in order, and the file `sv` has the bytes of `f` before the position `a`. -/
structure Ahead (files : Set Ptr) (sv : Ptr) (a : Nat) (f : Nat → UInt8) (t : Fs) : Prop where
  sound : Sound files t
  quiet : Quiet t
  bytes : ∀ p < a, t.byteAt sv p = f p

/-- An operation that begins at `a` or behind changes nothing before. -/
theorem Ahead.call {f : Nat → UInt8} {op : Ptr × Later} (h : Ahead files sv a f t)
    (hsv : sv ∈ files) (hop : Past files sv a op) :
    wp ok (op.2.call op.1) (fun _ => Ahead files sv a f) t := by
  obtain ⟨sv', op⟩ := op
  obtain ⟨hsv', hpast⟩ := hop
  cases op with
  | write u =>
      obtain ⟨⟨l, hu⟩, hstart⟩ := hpast
      rw [Later.call, wp_bind, wp_withLocal]
      refine wp_mono (wp_io_write h.quiet h.sound hsv' hu) fun r x hx => ?_
      obtain ⟨N, m, hw⟩ : ∃ N m, Written files sv' N t u l m x := by
        cases hx with
        | done hw => exact ⟨_, _, hw⟩
        | refused hw _ _ => exact ⟨_, _, hw⟩
      have hnext : Ahead files sv a f x.1 := by
        refine ⟨hw.updated.sound, hw.updated.same.quiet h.quiet, fun p hp => ?_⟩
        rw [← h.bytes p hp]
        by_cases hown : sv = sv'
        · subst hown
          rw [hw.updated.own, overlay_of_lt (hp.trans_le (hstart rfl))]
        · rw [hw.updated.others sv hsv hown]
      cases r with
      | ok _ => exact (wp_pure _).2 hnext
      | error e => exact hnext
  | truncate len =>
      obtain ⟨hlen, hstart⟩ := hpast
      refine wp_mono (wp_itrunc h.quiet (.inr (h.sound.cuttable hsv'))) fun r x ⟨_, hcut, _⟩ => ?_
      rw [toNat_blocklen hlen] at hcut
      refine ⟨hcut.sound h.sound hsv', hcut.same.quiet h.quiet, fun p hp => ?_⟩
      rw [← h.bytes p hp]
      by_cases hown : sv = sv'
      · subst hown
        have hle := hstart rfl
        exact hcut.byteAt_kept h.sound hsv (.inl (by omega))
      · exact hcut.byteAt_other h.sound hsv' hsv hown

/-- No number of such operations does. -/
theorem Ahead.run {f : Nat → UInt8} {ops : List (Ptr × Later)} (h : Ahead files sv a f t)
    (hsv : sv ∈ files) (hops : ∀ op ∈ ops, Past files sv a op) :
    wp ok (laterRun ops) (fun r t => r = .ok () ∧ Ahead files sv a f t) t := by
  refine wp_forEach (fun ops t => (∀ op ∈ ops, Past files sv a op) ∧ Ahead files sv a f t)
    (fun op ops t ⟨hops, h⟩ => ?_) (fun t h => ⟨rfl, h.2⟩) ⟨hops, h⟩
  rw [wp_bind, wp_catching]
  refine wp_mono (h.call hsv (hops op List.mem_cons_self)) fun r t h => ?_
  exact (wp_pure _).2 ⟨fun op hop => hops op (.tail _ hop), h⟩

/-! ## What a read shows -/

theorem Fs.Shows.eq {b : UInt8} (hq : Quiet s) (hs : Sound files s) (hsv : sv ∈ files)
    (h : s.Shows sv p b) : b = s.byteAt sv p := by
  obtain ⟨u, x, i, hu, hread, hrun, rfl, hb⟩ := h
  have hinside := hu.inside
  have hwp : wp (fun _ => True) (io sv) (fun _ x => x.2.out =
      s.bytesFrom sv u.offset (s.available sv u)) (s, u) := by
    refine wp_io_read hq hs hsv hread hu.holds (hu.length ▸ hu.enough) ?_ fun v hv => ?_
    · unfold Fs.available
      omega
    · rw [hv.out, if_pos hread, hu.fresh, List.take_of_length_le (length_bytesFrom _ _).le]
      rfl
  rw [hwp.returns hrun, Fs.bytesFrom, List.getElem?_map] at hb
  obtain ⟨j, hj, rfl⟩ := Option.map_eq_some_iff.1 hb
  obtain ⟨_, rfl⟩ := List.getElem?_eq_some_iff.1 hj
  rw [List.getElem_range]

end Os161.Sfs

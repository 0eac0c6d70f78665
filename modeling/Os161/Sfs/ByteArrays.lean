import Mathlib.Data.Finset.Card
import Mathlib.Order.Interval.Finset.Nat
import Os161.Sfs.Reading
import Os161.Sfs.Writing

set_option autoImplicit false

/-!
# Files are arrays of bytes

A sequence of calls of `sfs_io` on files that were created empty. Every file behaves like an array
that grows (`Lib.Overlay`), whatever is done to the others in between, and so a read gives the last
byte written at each of its positions, or zero.
-/

namespace Os161.Sfs

open Os161.Lib.Calls Os161.Lib.Overlay

/-! ## Sequences of calls -/

/-- Calls of `sfs_io`, one after the other: each names a file and a `uio` of its caller. The result
is what has become of the `uio`s. -/
def ioRun : List (Ptr × Uio) → FsCall (List Uio)
  | [] => pure []
  | (sv, u) :: ops => do
    let (_, v) ← withLocal u (io sv)
    let vs ← ioRun ops
    pure (v :: vs)

/-- The bytes that a write takes from its `uio`. -/
def Uio.data (u : Uio) : List UInt8 := u.iov.flatten.reduceOption.take u.resid.toNat

/-- The memory of the `uio` is good and large enough, and the transfer is inside the maximum file
size. -/
structure Uio.Valid (u : Uio) : Prop where
  good : none ∉ u.iov.flatten
  enough : u.resid.toNat ≤ u.iov.flatten.length
  inside : u.offset + u.resid.toNat ≤ 143 * 512
  fresh : u.out = []

/-- The writes to a file among some calls. -/
def writesTo (sv : Ptr) (ops : List (Ptr × Uio)) : List (Nat × List UInt8) :=
  ops.filterMap fun op =>
    if op.1 = sv ∧ op.2.rw = .write then some (op.2.offset, op.2.data) else none

/-- What a call has to do after the calls in `hist`: a read gives `min(length, size - offset)`
bytes, each the last one written at its position, or `0`; a write takes all its bytes. -/
structure Answers (hist : List (Ptr × Uio)) (sv : Ptr) (u v : Uio) : Prop where
  read : u.rw = .read →
    v.out = (List.range (min u.resid.toNat (farthest (writesTo sv hist) - u.offset))).map
      fun i => (lastAt (writesTo sv hist) (u.offset + i)).getD 0
  readRest : u.rw = .read → v.resid.toNat = u.resid.toNat - v.out.length
  write : u.rw = .write → v.resid = 0

/-! ## The space that is needed -/

/-- The slots that the file blocks of a write need. -/
def slotsOf (u : Uio) : Finset Slot :=
  let blocks := Finset.Ico (u.offset / 512) ((u.offset + u.resid.toNat + 511) / 512)
  blocks.image .data ∪ if ∃ i ∈ blocks, 15 ≤ i then {.table} else ∅

/-- The slots that some calls need. -/
def neededSlots : List (Ptr × Uio) → Finset (Ptr × Slot)
  | [] => ∅
  | (sv, u) :: ops => (if u.rw = .write then (slotsOf u).image (sv, ·) else ∅) ∪ neededSlots ops

/-- The free blocks of the volume. -/
def Fs.freeBlocks (s : Fs) : Finset Nat :=
  (Finset.range s.nblocks.toNat).filter fun i => s.freemap.isset (.ofNat i) = false

/-- A file as it is created. -/
structure Fs.EmptyFile (s : Fs) (sv : Ptr) : Prop where
  size : (s.inode sv).size = 0
  direct : ∀ i, (s.inode sv).direct i = 0
  indirect : (s.inode sv).indirect = 0

variable {files : Set Ptr} {s₀ s t : Fs} {sv : Ptr} {u v : Uio}

/-! ## The uio of a call -/

theorem Uio.Valid.holds (h : u.Valid) : u.Holds u.iov.flatten.reduceOption := by
  have hsome : ∀ l : List (Option UInt8), none ∉ l → l = l.reduceOption.map some := by
    intro l
    induction l with
    | nil => intro; rfl
    | cons x l ih =>
        intro hl
        cases x with
        | none => exact absurd List.mem_cons_self hl
        | some b =>
            change some b :: l = some b :: l.reduceOption.map some
            rw [← ih fun h => hl (.tail _ h)]
  exact hsome _ h.good

theorem Uio.Valid.length (h : u.Valid) : u.iov.flatten.reduceOption.length = u.iov.flatten.length := by
  have hl := congrArg List.length h.holds
  rw [List.length_map] at hl
  exact hl.symm

theorem Uio.Valid.length_data (h : u.Valid) : u.data.length = u.resid.toNat := by
  rw [Uio.data, List.length_take_of_le]
  rw [h.length]
  exact h.enough

theorem Uio.Valid.writes (h : u.Valid) (hw : u.rw = .write) :
    u.Writes u.iov.flatten.reduceOption where
  rw := hw
  holds := h.holds
  enough := h.length ▸ h.enough

theorem Uio.Valid.filePos (h : u.Valid) : u.filePos = u.offset := by
  have := h.inside
  exact Nat.mod_eq_of_lt (by omega)

theorem Uio.Valid.mem_slotsOf (h : u.Valid) {m : Nat}
    (hm : ∀ i, 512 * i < m → 512 * i < u.offset + u.resid.toNat) {k : Slot} (hk : k ∈ SlotsTo u m) :
    k ∈ slotsOf u := by
  obtain ⟨i, _, hlo, hhi, hk⟩ := hk
  rw [h.filePos] at hlo
  have hlt := hm i hhi
  have hi : i ∈ Finset.Ico (u.offset / 512) ((u.offset + u.resid.toNat + 511) / 512) :=
    Finset.mem_Ico.2 ⟨hlo, by omega⟩
  refine Finset.mem_union.2 ?_
  rcases hk with rfl | ⟨h15, rfl⟩
  · exact .inl (Finset.mem_image_of_mem _ hi)
  · exact .inr (by rw [if_pos ⟨i, hi, h15⟩]; exact Finset.mem_singleton_self _)

/-! ## There is always a free block -/

/-- The volume has only given blocks to the slots in `need`. -/
structure Spends (files : Set Ptr) (need : Finset (Ptr × Slot)) (s₀ s : Fs) : Prop where
  sound : Sound files s
  quiet : Quiet s
  nblocks : s.nblocks = s₀.nblocks
  taken : ∀ b, Marked s b → Marked s₀ b ∨ b ≠ 0 ∧ ∃ sv ∈ files, ∃ k, (sv, k) ∈ need ∧ s.slot sv k = b

theorem Spends.updated {need : Finset (Ptr × Slot)} {N : Set Slot} {pos : Nat} {data : List UInt8}
    (h : Spends files need s₀ s) (hsv : sv ∈ files) (ht : Updated files sv N pos data s t)
    (hN : ∀ k ∈ N, (sv, k) ∈ need) : Spends files need s₀ t where
  sound := ht.sound
  quiet := ht.same.quiet h.quiet
  nblocks := ht.same.nblocks.trans h.nblocks
  taken b hb := by
    rcases ht.taken b hb with hold | ⟨hne, k, hk, hkb⟩
    · refine (h.taken b hold).imp_right fun ⟨hne, sv', hsv', k, hk, hkb⟩ => ?_
      exact ⟨hne, sv', hsv', k, hk, (ht.kept sv' hsv' k (hkb ▸ hne)).trans hkb⟩
    · exact .inr ⟨hne, sv, hsv, k, hN k hk, hkb⟩

/-- When a slot that is needed is still empty, there is a free block: the blocks that were free at
first are more than the other slots that are needed. -/
theorem Spends.not_full {need : Finset (Ptr × Slot)} (h : Spends files need s₀ s)
    (hspace : need.card ≤ s₀.freeBlocks.card) {k : Slot} (hk : (sv, k) ∈ need)
    (hzero : s.slot sv k = 0) : ¬ ∀ b < s.nblocks, Marked s b := by
  intro hfull
  have hsub : s₀.freeBlocks ⊆ (need.erase (sv, k)).image fun p => (s.slot p.1 p.2).toNat := by
    intro i hi
    obtain ⟨hrange, hfree⟩ := Finset.mem_filter.1 hi
    rw [Finset.mem_range, ← h.nblocks] at hrange
    have hlt := s.nblocks.toNat_lt
    have hi' : (UInt32.ofNat i).toNat = i := by
      rw [UInt32.toNat_ofNat']
      omega
    have hm := hfull (.ofNat i) (by rw [UInt32.lt_iff_toNat_lt, hi']; exact hrange)
    rcases h.taken _ hm with hold | ⟨hne, sv', -, k', hk', hb⟩
    · exact absurd (hold.symm.trans hfree) (by decide)
    · refine Finset.mem_image.2 ⟨(sv', k'), Finset.mem_erase.2 ⟨?_, hk'⟩, ?_⟩
      · rintro heq
        obtain ⟨rfl, rfl⟩ := Prod.mk.inj heq
        exact hne (hb.symm.trans hzero)
      · change (s.slot sv' k').toNat = i
        rw [hb, hi']
  have hcard := (Finset.card_le_card hsub).trans Finset.card_image_le
  have herase := Finset.card_erase_lt_of_mem hk
  omega

/-! ## One call -/

/-- The array that a file is after some calls. -/
def arrayOf (sv : Ptr) (hist : List (Ptr × Uio)) : Growing UInt8 :=
  (Growing.empty 0).after (writesTo sv hist)

/-- The volume after the calls in `hist`: the files are the arrays that the writes have made. -/
structure After (files : Set Ptr) (need : Finset (Ptr × Slot)) (s₀ : Fs)
    (hist : List (Ptr × Uio)) (s : Fs) : Prop extends Spends files need s₀ s where
  bytes : ∀ sv ∈ files, s.byteAt sv = (arrayOf sv hist).get
  size : ∀ sv ∈ files, (s.inode sv).size.toNat = (arrayOf sv hist).size
  small : ∀ sv ∈ files, (arrayOf sv hist).size ≤ 143 * 512

theorem writesTo_append (hist : List (Ptr × Uio)) (op : Ptr × Uio) :
    writesTo sv (hist ++ [op]) = writesTo sv hist ++
      if op.1 = sv ∧ op.2.rw = .write then [(op.2.offset, op.2.data)] else [] := by
  rw [writesTo, List.filterMap_append]
  congr 1
  rw [List.filterMap_cons]
  split_ifs <;> rfl

theorem arrayOf_append (hist : List (Ptr × Uio)) (op : Ptr × Uio) :
    arrayOf sv (hist ++ [op]) = if op.1 = sv ∧ op.2.rw = .write then
      (arrayOf sv hist).write op.2.offset op.2.data else arrayOf sv hist := by
  rw [arrayOf, writesTo_append, Growing.after, List.foldl_append]
  split_ifs <;> rfl

/-- A call that changes nothing but its `uio`. -/
theorem After.read {need : Finset (Ptr × Slot)} {hist : List (Ptr × Uio)}
    (h : After files need s₀ hist s) (hread : u.rw = .read) :
    After files need s₀ (hist ++ [(sv, u)]) s := by
  have hsame : ∀ sv', arrayOf sv' (hist ++ [(sv, u)]) = arrayOf sv' hist := fun sv' => by
    rw [arrayOf_append, if_neg]
    rintro ⟨-, hw⟩
    rw [hread] at hw
    cases hw
  refine ⟨h.toSpends, ?_, ?_, ?_⟩
  all_goals simp only [hsame]
  · exact h.bytes
  · exact h.size
  · exact h.small

/-- A write that has moved everything. -/
theorem After.write {need : Finset (Ptr × Slot)} {hist : List (Ptr × Uio)} {N : Set Slot}
    {l : List UInt8} {x : Fs × Uio} (h : After files need s₀ hist s) (hsv : sv ∈ files)
    (hu : u.Valid) (hw : u.rw = .write) (hl : l = u.iov.flatten.reduceOption)
    (hx : Written files sv N s u l u.resid.toNat x) (hN : ∀ k ∈ N, (sv, k) ∈ need) :
    After files need s₀ (hist ++ [(sv, u)]) x.1 := by
  have hdata : l.take u.resid.toNat = u.data := by rw [hl, Uio.data]
  have hown : arrayOf sv (hist ++ [(sv, u)]) = (arrayOf sv hist).write u.offset u.data := by
    rw [arrayOf_append, if_pos ⟨rfl, hw⟩]
  have hother : ∀ sv', sv' ≠ sv → arrayOf sv' (hist ++ [(sv, u)]) = arrayOf sv' hist :=
    fun sv' hne => by rw [arrayOf_append, if_neg fun hand => hne hand.1.symm]
  have hbytes := hx.updated.own
  rw [hdata, hu.filePos] at hbytes
  have hlen := hu.length_data
  have hin := hu.inside
  have hsmall := h.small sv hsv
  have hsize := h.size sv hsv
  have hnil : u.data = [] ↔ u.resid.toNat = 0 := by rw [← List.length_eq_zero_iff, hlen]
  -- the size in the inode and that of the array grow alike
  have hgrow : (x.1.inode sv).size.toNat = ((arrayOf sv hist).write u.offset u.data).size := by
    rw [hx.size, Growing.write, ← hsize]
    simp only [hnil, hlen]
    by_cases hzero : u.resid.toNat = 0
    · rw [if_neg fun hand => hand.1 hzero, if_pos hzero]
    · rw [if_neg hzero]
      split_ifs with hgrows
      · rw [UInt32.toNat_ofNat', Nat.mod_eq_of_lt (by omega), Nat.max_eq_right hgrows.2.le]
      · exact (Nat.max_eq_left (Nat.not_lt.1 fun hlt => hgrows ⟨hzero, hlt⟩)).symm
  refine ⟨h.toSpends.updated hsv hx.updated hN, fun sv' hsv' => ?_, fun sv' hsv' => ?_,
    fun sv' hsv' => ?_⟩
  all_goals by_cases hne : sv' = sv
  · rw [hne, hown, hbytes, h.bytes sv hsv]
    rfl
  · rw [hother sv' hne, hx.updated.others sv' hsv' hne, h.bytes sv' hsv']
  · rw [hne, hown, hgrow]
  · rw [hother sv' hne, hx.updated.size sv' hne, h.size sv' hsv']
  · rw [hne, hown, Growing.write]
    dsimp only
    split_ifs <;> omega
  · rw [hother sv' hne]
    exact h.small sv' hsv'

theorem get_arrayOf (hist : List (Ptr × Uio)) (p : Nat) :
    (arrayOf sv hist).get p = (lastAt (writesTo sv hist) p).getD 0 :=
  Growing.get_after _ _ p

theorem size_arrayOf (hist : List (Ptr × Uio)) :
    (arrayOf sv hist).size = farthest (writesTo sv hist) := by
  rw [arrayOf, Growing.size_after]
  exact Nat.zero_max _

/-- One call does what it has to do, and leaves the volume as it has to be. -/
theorem wp_io_after {ok : Panic → Prop} {need : Finset (Ptr × Slot)} {hist : List (Ptr × Uio)}
    (h : After files need s₀ hist s) (hspace : need.card ≤ s₀.freeBlocks.card) (hsv : sv ∈ files)
    (hu : u.Valid) (hneed : u.rw = .write → ∀ k ∈ slotsOf u, (sv, k) ∈ need) :
    wp ok (io sv) (fun r x => r = .ok () ∧ After files need s₀ (hist ++ [(sv, u)]) x.1 ∧
      Answers hist sv u x.2) (s, u) := by
  cases hrw : u.rw with
  | read =>
      have hinside := hu.inside
      have hnot : u.rw ≠ .write := by
        rw [hrw]
        decide
      have havail : s.available sv u =
          min u.resid.toNat (farthest (writesTo sv hist) - u.offset) := by
        rw [Fs.available, h.size sv hsv, size_arrayOf]
      refine wp_io_read h.quiet h.sound hsv hrw hu.holds (hu.length ▸ hu.enough) ?_ fun v hv => ?_
      · unfold Fs.available
        omega
      have hout : v.out = s.bytesFrom sv u.offset (s.available sv u) := by
        rw [hv.out, if_pos hrw, hu.fresh, List.take_of_length_le (length_bytesFrom _ _).le]
        rfl
      refine ⟨rfl, h.read hrw, fun _ => ?_, fun _ => ?_, fun hw => absurd hw hnot⟩
      · rw [hout, havail, Fs.bytesFrom]
        refine List.map_congr_left fun i _ => ?_
        rw [h.bytes sv hsv, get_arrayOf]
      · rw [hv.resid, hout, length_bytesFrom]
  | write =>
      have hnot : u.rw ≠ .read := by
        rw [hrw]
        decide
      refine wp_mono (wp_io_write h.quiet h.sound hsv (hu.writes hrw)) fun r x hx => ?_
      cases hx with
      | done hw =>
          have hslots : ∀ k ∈ SlotsTo u (u.filePos + u.resid.toNat), (sv, k) ∈ need :=
            fun k hk => hneed hrw k (hu.mem_slotsOf (fun i hi => by rwa [← hu.filePos]) hk)
          refine ⟨rfl, h.write hsv hu hrw rfl hw hslots, fun hr => absurd hr hnot,
            fun hr => absurd hr hnot, fun _ => ?_⟩
          apply UInt32.toNat_inj.1
          rw [hw.moved.resid, Nat.sub_self]
          rfl
      | @refused n e _ hw hleft he =>
          have hle := hw.le
          have hinside := hu.inside
          have hpos := hu.filePos
          have hslots : ∀ k ∈ SlotsTo u (u.filePos + n + 1), (sv, k) ∈ need := fun k hk =>
            hneed hrw k (hu.mem_slotsOf (fun i hi => by omega) hk)
          have hspends := h.toSpends.updated hsv hw.updated hslots
          cases he with
          | big hbig => omega
          | full hlt hfull hk =>
              obtain ⟨k, hk, hzero⟩ := hk
              refine absurd hfull (hspends.not_full hspace (hslots k ?_) hzero)
              exact needs_subset_slotsTo hlt (by omega) (by omega) hk

/-! ## Runs -/

/-- A run does what it has to do, after the calls in `hist`. -/
theorem wp_ioRun {ok : Panic → Prop} {need : Finset (Ptr × Slot)}
    (hspace : need.card ≤ s₀.freeBlocks.card) (ops : List (Ptr × Uio)) :
    ∀ {hist : List (Ptr × Uio)} {s : Fs}, After files need s₀ hist s →
      (∀ op ∈ ops, op.1 ∈ files ∧ op.2.Valid) → neededSlots ops ⊆ need →
      wp ok (ioRun ops) (fun r t => ∃ vs, r = .ok vs ∧ vs.length = ops.length ∧
        After files need s₀ (hist ++ ops) t ∧
        ∀ (k : Nat) sv u v, ops[k]? = some (sv, u) → vs[k]? = some v →
          Answers (hist ++ ops.take k) sv u v) s := by
  induction ops with
  | nil =>
      intro hist s h _ _
      refine (wp_pure _).2 ⟨[], rfl, rfl, ?_, fun k sv u v hk => ?_⟩
      · rwa [List.append_nil]
      · cases hk
  | cons op ops ih =>
      intro hist s h hops hsub
      obtain ⟨sv, u⟩ := op
      obtain ⟨hsv, hu⟩ := hops (sv, u) List.mem_cons_self
      rw [neededSlots] at hsub
      have hneed : u.rw = .write → ∀ k ∈ slotsOf u, (sv, k) ∈ need := fun hw k hk => by
        refine hsub (Finset.mem_union_left _ ?_)
        rw [if_pos hw]
        exact Finset.mem_image_of_mem _ hk
      rw [ioRun, wp_bind, wp_withLocal]
      refine wp_mono (wp_io_after h hspace hsv hu hneed) fun r x ⟨hr, hafter, hans⟩ => ?_
      rw [hr]
      change wp ok (ioRun ops >>= fun vs => pure (x.2 :: vs)) _ x.1
      rw [wp_bind]
      refine wp_mono (ih hafter (fun op hop => hops op (.tail _ hop))
        ((Finset.subset_union_right).trans hsub)) fun r' t hrest => ?_
      obtain ⟨vs, hr', hlen, hfinal, hall⟩ := hrest
      rw [hr', then_ok, wp_pure]
      refine ⟨x.2 :: vs, rfl, by rw [List.length_cons, List.length_cons, hlen], ?_,
        fun k sv' u' v' hk hv' => ?_⟩
      · rwa [List.append_assoc] at hfinal
      · cases k with
        | zero =>
            obtain ⟨rfl, rfl⟩ := Prod.mk.inj (Option.some.inj hk)
            obtain rfl := Option.some.inj hv'
            rwa [List.take_zero, List.append_nil]
        | succ k =>
            have hnext := hall k sv' u' v' hk hv'
            rwa [List.append_assoc] at hnext

/-- Files as they are created are arrays of size `0`. -/
theorem after_start {need : Finset (Ptr × Slot)} (hq : Quiet s) (hs : Framed s)
    (hempty : ∀ sv ∈ files, s.EmptyFile sv) : After files need s [] s := by
  have hmapping : ∀ sv ∈ files, ∀ i, s.mapping sv i = 0 := fun sv hsv i => by
    by_cases hi : i < 15
    · rw [mapping_direct s sv hi]
      exact (hempty sv hsv).direct _
    · exact mapping_no_table (Nat.not_lt.1 hi) (hempty sv hsv).indirect
  have hslot : ∀ sv ∈ files, ∀ k, s.slot sv k = 0 := fun sv hsv k => by
    cases k with
    | data i => exact hmapping sv hsv i
    | table => exact (hempty sv hsv).indirect
  refine ⟨⟨⟨hs, fun sv hsv k hk => absurd (hslot sv hsv k) hk,
    fun sv hsv _ _ k _ hk => absurd (hslot sv hsv k) hk⟩, hq, rfl, fun _ hb => .inl hb⟩,
    fun sv hsv => ?_, fun sv hsv => ?_, fun sv _ => Nat.zero_le _⟩
  · funext p
    exact if_pos (hmapping sv hsv _)
  · rw [(hempty sv hsv).size]
    rfl

/-- Files that were created empty are arrays of bytes: with enough free space every sequence of
calls succeeds, every call does what the history of the file asks for, and at the end, as after
every call, the size of a file is the farthest end of a write to it. -/
theorem ioRun_answers {ops : List (Ptr × Uio)} (hq : Quiet s) (hs : Framed s)
    (hempty : ∀ sv ∈ files, s.EmptyFile sv) (hops : ∀ op ∈ ops, op.1 ∈ files ∧ op.2.Valid)
    (hspace : (neededSlots ops).card ≤ s.freeBlocks.card) :
    ∃ vs t, (ioRun ops).result s = .ok (.ok vs, t) ∧ vs.length = ops.length ∧
      (∀ (k : Nat) sv u v, ops[k]? = some (sv, u) → vs[k]? = some v →
        Answers (ops.take k) sv u v) ∧
      ∀ sv ∈ files, (t.inode sv).size.toNat = farthest (writesTo sv ops) := by
  have hrun : wp (fun _ => False) (ioRun ops) _ s :=
    wp_ioRun hspace ops (after_start hq hs hempty) hops (Finset.Subset.refl _)
  obtain ⟨r, t, hresult, vs, rfl, hlen, hafter, hans⟩ := hrun.exists_result
  refine ⟨vs, t, hresult, hlen, hans, fun sv hsv => ?_⟩
  rw [hafter.size sv hsv, size_arrayOf]
  rfl

/-- The `uio` of a `write` of some bytes, and that of a `read`. -/
def writeUio (offset : Nat) (bytes : List UInt8) : Uio where
  iov := [bytes.map some]
  offset := offset
  resid := .ofNat bytes.length
  rw := .write
  out := []

def readUio (offset len : Nat) : Uio where
  iov := [List.replicate len (some 0)]
  offset := offset
  resid := .ofNat len
  rw := .read
  out := []

/-- A hole, a byte behind it, and another file in between. -/
theorem ioRun_answers_hole : ∃ vs t,
    (ioRun [(1, writeUio 600 [7]), (2, writeUio 0 [9]), (1, readUio 598 10)]).result
      (smallVolume 3 (smallInode 0 (fun _ => 0) 0) fun _ => .zero) = .ok (.ok vs, t) ∧
    (vs[2]?).map Uio.out = some [0, 0, 7] ∧ (t.inode 2).size.toNat = 1 := by
  have hempty : ∀ sv ∈ ({1, 2} : Set Ptr),
      (smallVolume 3 (smallInode 0 (fun _ => 0) 0) fun _ => .zero).EmptyFile sv :=
    fun sv _ => ⟨rfl, fun _ => rfl, rfl⟩
  have hops : ∀ op ∈ [((1 : Ptr), writeUio 600 [7]), (2, writeUio 0 [9]), (1, readUio 598 10)],
      op.1 ∈ ({1, 2} : Set Ptr) ∧ op.2.Valid := by
    intro op hop
    simp only [List.mem_cons, List.not_mem_nil, or_false] at hop
    rcases hop with rfl | rfl | rfl
    · exact ⟨.inl rfl, ⟨by decide, by decide, by decide, rfl⟩⟩
    · exact ⟨.inr rfl, ⟨by decide, by decide, by decide, rfl⟩⟩
    · exact ⟨.inl rfl, ⟨by decide, by decide, by decide, rfl⟩⟩
  obtain ⟨vs, t, hrun, hlen, hans, hsize⟩ :=
    ioRun_answers quiet_smallVolume (framed_smallVolume (by decide)) hempty hops
      (by decide +kernel)
  refine ⟨vs, t, hrun, ?_, hsize 2 (.inr rfl)⟩
  obtain ⟨v, hv⟩ : ∃ v, vs[2]? = some v := ⟨_, List.getElem?_eq_getElem (by rw [hlen]; decide)⟩
  rw [hv, Option.map_some, (hans 2 1 _ v rfl hv).read rfl]
  decide

end Os161.Sfs

import Os161.Lib.Bits
import Os161.Lib.Calls

set_option autoImplicit false

/-!
# The free block map of the file system checker

`userland/sbin/sfsck/freemap.c`: `freemap_blockinuse` and `freemap_blockfree` record, one bit a
block, what pass 1 finds, in whatever order it finds it; `freemap_check` then makes the free block
map on the disk what it should be. The maps are arrays of bytes that start with zeros.
-/

namespace Os161.Sfsck.Freemap

open Os161.Lib.Bits
open Os161.Lib.Calls

/-- `blockusage_t`. -/
inductive BlockUsage where
  | superblock
  | freemapblock
  | inode
  | iblock
  | dirdata
  | data
  | pastend
  deriving DecidableEq, Repr

/-- What `warnx` says. -/
inductive Warning where
  /-- `Block %lu (used as %s) already in use! (NOT FIXED)`. -/
  | alreadyInUse (block : UInt32) (how : BlockUsage) (howdesc : UInt32)
  /-- `Block %lu erroneously shown free in freemap`. -/
  | shownFree (block : UInt32)
  /-- `Block %lu erroneously shown allocated in freemap`. -/
  | shownAllocated (block : UInt32)
  /-- `%lu blocks erroneously shown free in freemap (fixed)`. -/
  | blocksShownFree (alloccount : UInt32)
  /-- `%lu blocks erroneously shown used in freemap (fixed)`. -/
  | blocksShownUsed (freecount : UInt32)
  deriving DecidableEq, Repr

inductive Abort where
  /-- An access outside of the maps. -/
  | outside
  /-- `assert((expected[j] & tofree[j])==0)`. -/
  | markedBothWays
  deriving DecidableEq, Repr

def exitRecov : Nat := 1

def exitUnrecov : Nat := 2

/-- `SFS_BITSPERBLOCK`. -/
def bitsPerBlock : UInt32 := 512 * 8

/-- `SFS_FREEMAPBLOCKS(nblocks)`. -/
def freemapBlocks (nblocks : UInt32) : UInt32 :=
  (nblocks + bitsPerBlock - 1) / bitsPerBlock * bitsPerBlock / bitsPerBlock

/-- What the checker keeps, and the disk. -/
structure Checker where
  /-- `sb_nblocks` of the superblock. -/
  nblocks : UInt32
  freemapdata : Nat → UInt8
  tofreedata : Nat → UInt8
  blocksinuse : UInt32
  badness : Nat
  warnings : List Warning
  /-- The blocks of the disk. -/
  disk : Nat → Nat → UInt8

/-- `mapbytes` of `freemap_setup`. -/
def Checker.mapbytes (s : Checker) : Nat := (freemapBlocks s.nblocks).toNat * 512

def Checker.setbadness (s : Checker) (code : Nat) : Checker :=
  { s with badness := max s.badness code }

def Checker.warnx (s : Checker) (w : Warning) : Checker := { s with warnings := s.warnings ++ [w] }

/-- `tofreedata[index] &= ~mask`. -/
def Checker.keep (s : Checker) (b : Nat) : Checker :=
  { s with tofreedata :=
      Function.update s.tofreedata (b / 8) (s.tofreedata (b / 8) &&& ~~~mask (b % 8)) }

/-- `freemapdata[index] |= mask`. -/
def Checker.use (s : Checker) (b : Nat) : Checker :=
  { s with freemapdata :=
      Function.update s.freemapdata (b / 8) (s.freemapdata (b / 8) ||| mask (b % 8)) }

/-- `tofreedata[index] |= mask`. -/
def Checker.drop (s : Checker) (b : Nat) : Checker :=
  { s with tofreedata :=
      Function.update s.tofreedata (b / 8) (s.tofreedata (b / 8) ||| mask (b % 8)) }

/-- The first test of `freemap_blockinuse`. -/
def Checker.unfree (s : Checker) (b : Nat) : Checker :=
  -- really using the block, don't free it
  if s.tofreedata (b / 8) &&& mask (b % 8) ≠ 0 then s.keep b else s

/-- The second test of `freemap_blockinuse`. -/
def Checker.complain (s : Checker) (block : UInt32) (how : BlockUsage) (howdesc : UInt32) :
    Checker :=
  if s.freemapdata (block.toNat / 8) &&& mask (block.toNat % 8) ≠ 0 then
    (s.warnx (.alreadyInUse block how howdesc)).setbadness exitUnrecov
  else s

/-- The third test of `freemap_blockinuse`. -/
def Checker.count (s : Checker) (how : BlockUsage) : Checker :=
  if how ≠ .pastend then { s with blocksinuse := s.blocksinuse + 1 } else s

/-- The body of `freemap_blockinuse`. -/
def Checker.blockinuse (s : Checker) (block : UInt32) (how : BlockUsage) (howdesc : UInt32) :
    Checker :=
  let s := s.unfree block.toNat
  let s := s.complain block how howdesc
  let s := s.use block.toNat
  s.count how

/-- The body of `freemap_blockfree`. -/
def Checker.blockfree (s : Checker) (block : UInt32) : Checker :=
  let b := block.toNat
  if s.tofreedata (b / 8) &&& mask (b % 8) ≠ 0 then s
  else if s.freemapdata (b / 8) &&& mask (b % 8) ≠ 0 then s
  else s.drop b

abbrev FreemapCall (α : Type) : Type := Call Checker Abort Empty α

/-- Both functions look at the byte `block/8` of the maps first. -/
def access (block : UInt32) (f : Checker → Checker) : FreemapCall Unit := do
  let s ← get
  if (block / 8).toNat < s.mapbytes then set (f s) else halt .outside

def freemapBlockinuse (block : UInt32) (how : BlockUsage) (howdesc : UInt32) : FreemapCall Unit :=
  access block fun s => s.blockinuse block how howdesc

def freemapBlockfree (block : UInt32) : FreemapCall Unit :=
  access block fun s => s.blockfree block

/-! ## `freemap_check` -/

/-- The variables of `freemap_check`. -/
structure Scan where
  actual : Nat → UInt8
  bchanged : Bool
  alloccount : UInt32
  freecount : UInt32

/-- The values of `x` and `y` in the loops over the bits of a byte for which the bit is set. -/
def bitsOf (val : UInt8) : List Nat := (List.range 8).filter fun y => val &&& mask y ≠ 0

def countbits (val : UInt8) : UInt32 := .ofNat (bitsOf val).length

/-- `reportfreemap`. -/
def reportfreemap (mapblock byte : Nat) (val : UInt8) (what : UInt32 → Warning) : List Warning :=
  (bitsOf val).map fun y => what (.ofNat mapblock * bitsPerBlock + .ofNat byte * 8 + .ofNat y)

abbrev ScanCall (α : Type) : Type := Call (Checker × Scan) Abort Empty α

/-- `actual[j] = x; bchanged = 1`. -/
def Scan.change (l : Scan) (j : Nat) (x : UInt8) : Scan :=
  { l with actual := Function.update l.actual j x, bchanged := true }

/-- The end of the loop body: bits of the byte are wrong. -/
def mismatch (i j : Nat) (expected tofree : UInt8) (x : Checker × Scan) : Checker × Scan :=
  let (s, l) := x
  -- free the ones we're freeing (don't report these)
  let actual := l.actual j &&& ~~~tofree
  let short := expected &&& ~~~actual
  let (s, l) :=
    if actual &&& expected ≠ expected then
      ({ s with warnings := s.warnings ++ reportfreemap i j short .shownFree },
        { l with alloccount := l.alloccount + countbits short })
    else (s, l)
  let extra := actual &&& ~~~expected
  let (s, l) :=
    if actual &&& expected ≠ actual then
      ({ s with warnings := s.warnings ++ reportfreemap i j extra .shownAllocated },
        { l with freecount := l.freecount + countbits extra })
    else (s, l)
  (s, l.change j expected)

/-- The body of the loop over the bytes of a block. -/
def checkByte (i j : Nat) : ScanCall Unit := do
  let (s, l) ← get
  let expected := s.freemapdata (i * 512 + j)
  let tofree := s.tofreedata (i * 512 + j)
  if expected &&& tofree ≠ 0 then halt .markedBothWays
  -- what's there is what should be there
  else if l.actual j = expected then pure ()
  -- what's there is what should be there modulo frees
  else if l.actual j = expected ||| tofree then set (s, l.change j expected)
  else set (mismatch i j expected tofree (s, l))

/-- The body of the loop over the blocks of the free block map. -/
def checkBlock (i : Nat) : ScanCall Unit := do
  modify fun (s, l) => (s, { l with actual := s.disk (2 + i), bchanged := false })
  forEach (List.range 512) (checkByte i)
  let (s, l) ← get
  if l.bchanged then set ({ s with disk := Function.update s.disk (2 + i) l.actual }, l)

/-- `freemap_check`; the first `actual` is what happens to be on the stack. -/
def freemapCheck (stack : Nat → UInt8) : FreemapCall Unit := do
  let s ← get
  let (_, l) ← withLocal { actual := stack, bchanged := false, alloccount := 0, freecount := 0 }
    (forEach (List.range (freemapBlocks s.nblocks).toNat) checkBlock)
  if 0 < l.alloccount then
    modify fun s => (s.warnx (.blocksShownFree l.alloccount)).setbadness exitRecov
  if 0 < l.freecount then
    modify fun s => (s.warnx (.blocksShownUsed l.freecount)).setbadness exitRecov

/-! ## What the maps are for -/

/-- A call of `freemap_blockinuse` or `freemap_blockfree`. -/
inductive Mark where
  | inuse (block : UInt32) (how : BlockUsage) (howdesc : UInt32)
  | free (block : UInt32)
  deriving DecidableEq

namespace Mark

def block : Mark → UInt32
  | inuse block _ _ => block
  | free block => block

def call : Mark → FreemapCall Unit
  | inuse block how howdesc => freemapBlockinuse block how howdesc
  | free block => freemapBlockfree block

/-- What a call does. -/
def apply (s : Checker) : Mark → Checker
  | inuse block how howdesc => s.blockinuse block how howdesc
  | free block => s.blockfree block

/-- It names the block `c`, as one in use. -/
def uses (c : Nat) : Mark → Bool
  | inuse block _ _ => block.toNat = c
  | free _ => false

/-- It names the block `c`, as one to be freed. -/
def frees (c : Nat) : Mark → Bool
  | inuse _ _ _ => false
  | free block => block.toNat = c

end Mark

/-- Block `c` is in use. -/
def Checker.inuse (s : Checker) (c : Nat) : Bool := bitAt s.freemapdata c

/-- Block `c` is to be freed. -/
def Checker.tofree (s : Checker) (c : Nat) : Bool := bitAt s.tofreedata c

/-- No block is marked both ways. -/
def Checker.Disjoint (s : Checker) : Prop := ∀ c, s.tofree c = true → s.inuse c = false

/-- The maps are full of zeros. -/
def Checker.Fresh (s : Checker) : Prop := ∀ i, s.freemapdata i = 0 ∧ s.tofreedata i = 0

/-- The marks that two sets of maps agree on. -/
structure SameMarks (s t : Checker) : Prop where
  inuse : t.inuse = s.inuse
  tofree : t.tofree = s.tofree

section Marks

variable {ok : Abort → Prop} {s t : Checker} {b c : Nat} {block howdesc : UInt32}
  {how : BlockUsage} {m : Mark} {marks marks' : List Mark}

theorem sameMarks_complain : SameMarks s (s.complain block how howdesc) := by
  rw [Checker.complain]
  split_ifs
  · exact ⟨rfl, rfl⟩
  · exact ⟨rfl, rfl⟩

theorem sameMarks_count : SameMarks s (s.count how) := by
  rw [Checker.count]
  split_ifs
  · exact ⟨rfl, rfl⟩
  · exact ⟨rfl, rfl⟩

theorem inuse_unfree : (s.unfree b).inuse = s.inuse := by
  rw [Checker.unfree]
  split_ifs <;> rfl

theorem tofree_unfree : (s.unfree b).tofree c = if c = b then false else s.tofree c := by
  rw [Checker.unfree]
  by_cases hset : s.tofreedata (b / 8) &&& mask (b % 8) ≠ 0
  · rw [if_pos hset]
    exact bitAt_clear
  · rw [if_neg hset]
    split_ifs with hc
    · rw [hc]
      exact Bool.eq_false_iff.2 fun h => hset (and_mask_bitAt.2 h)
    · rfl

theorem inuse_blockinuse :
    (s.blockinuse block how howdesc).inuse c = if c = block.toNat then true else s.inuse c := by
  rw [Checker.blockinuse, sameMarks_count.inuse, Checker.inuse, Checker.use, bitAt_set]
  refine if_congr Iff.rfl rfl ?_
  exact congrFun (sameMarks_complain.inuse.trans inuse_unfree) c

theorem tofree_blockinuse :
    (s.blockinuse block how howdesc).tofree c = if c = block.toNat then false else s.tofree c := by
  rw [Checker.blockinuse, sameMarks_count.tofree]
  exact (congrFun sameMarks_complain.tofree c).trans tofree_unfree

theorem inuse_blockfree : (s.blockfree block).inuse = s.inuse := by
  simp only [Checker.blockfree]
  split_ifs <;> rfl

theorem tofree_blockfree : (s.blockfree block).tofree c =
    (s.tofree c || (decide (block.toNat = c) && !s.inuse c)) := by
  simp only [Checker.blockfree]
  by_cases hfree : s.tofreedata (block.toNat / 8) &&& mask (block.toNat % 8) ≠ 0
  · rw [if_pos hfree]
    -- already marked to free once
    by_cases hc : block.toNat = c
    · have hset : s.tofree c = true := hc ▸ and_mask_bitAt.1 hfree
      rw [hset, Bool.true_or]
    · rw [decide_eq_false hc, Bool.false_and, Bool.or_false]
  rw [if_neg hfree]
  by_cases hused : s.freemapdata (block.toNat / 8) &&& mask (block.toNat % 8) ≠ 0
  · rw [if_pos hused]
    -- used elsewhere
    by_cases hc : block.toNat = c
    · have hset : s.inuse c = true := hc ▸ and_mask_bitAt.1 hused
      rw [hset, Bool.not_true, Bool.and_false, Bool.or_false]
    · rw [decide_eq_false hc, Bool.false_and, Bool.or_false]
  rw [if_neg hused, Checker.tofree, Checker.drop, bitAt_set]
  by_cases hc : c = block.toNat
  · have hnot : s.inuse c = false :=
      hc ▸ Bool.eq_false_iff.2 fun h => hused (and_mask_bitAt.2 h)
    rw [if_pos hc, decide_eq_true hc.symm, hnot, Bool.not_false, Bool.and_true, Bool.or_true]
  · rw [if_neg hc, decide_eq_false (Ne.symm hc), Bool.false_and, Bool.or_false]
    rfl

/-- One call. -/
theorem inuse_apply : (m.apply s).inuse c = (s.inuse c || m.uses c) := by
  cases m with
  | inuse block how howdesc =>
      rw [Mark.apply, inuse_blockinuse, Mark.uses]
      split_ifs with hc
      · rw [decide_eq_true hc.symm, Bool.or_true]
      · rw [decide_eq_false (Ne.symm hc), Bool.or_false]
  | free block => rw [Mark.apply, inuse_blockfree, Mark.uses, Bool.or_false]

theorem Checker.Disjoint.tofree_eq (h : s.Disjoint) (c : Nat) :
    s.tofree c = (s.tofree c && !s.inuse c) := by
  cases hc : s.tofree c with
  | false => rfl
  | true =>
      rw [h c hc]
      rfl

theorem tofree_apply (hdisjoint : s.Disjoint) :
    (m.apply s).tofree c = ((s.tofree c || m.frees c) && !(m.apply s).inuse c) := by
  cases m with
  | inuse block how howdesc =>
      rw [Mark.apply, tofree_blockinuse, inuse_blockinuse, Mark.frees, Bool.or_false]
      split_ifs with hc
      · rw [Bool.not_true, Bool.and_false]
      · exact hdisjoint.tofree_eq c
  | free block =>
      rw [Mark.apply, tofree_blockfree, inuse_blockfree, Mark.frees, Bool.and_or_distrib_right,
        ← hdisjoint.tofree_eq c]

theorem disjoint_apply (hdisjoint : s.Disjoint) : (m.apply s).Disjoint := by
  intro c hc
  rw [tofree_apply hdisjoint, Bool.and_eq_true, Bool.not_eq_true'] at hc
  exact hc.2

/-- All calls: a block is in use when it was or one of them says so, and to be freed when it was or
one of them says so and it is not in use. -/
theorem marks_foldl (marks : List Mark) (hdisjoint : s.Disjoint) :
    (marks.foldl Mark.apply s).Disjoint ∧
      (∀ c, (marks.foldl Mark.apply s).inuse c = (s.inuse c || marks.any (Mark.uses c))) ∧
      ∀ c, (marks.foldl Mark.apply s).tofree c =
        ((s.tofree c || marks.any (Mark.frees c)) && !(marks.foldl Mark.apply s).inuse c) := by
  induction marks generalizing s with
  | nil =>
      refine ⟨hdisjoint, fun c => (Bool.or_false _).symm, fun c => ?_⟩
      rw [List.any_nil, Bool.or_false]
      exact hdisjoint.tofree_eq c
  | cons m marks ih =>
      obtain ⟨hend, hinuse, htofree⟩ := ih (disjoint_apply (m := m) hdisjoint)
      refine ⟨hend, fun c => ?_, fun c => ?_⟩
      · rw [List.foldl_cons, hinuse, inuse_apply, List.any_cons, Bool.or_assoc]
      · rw [List.foldl_cons, htofree, tofree_apply hdisjoint, hinuse, List.any_cons]
        -- a block in use after the first call is in use at the end
        generalize s.tofree c = x, (m.apply s).inuse c = y, m.frees c = z,
          marks.any (Mark.uses c) = u, marks.any (Mark.frees c) = v
        revert x y z u v
        decide

theorem fresh_disjoint (h : s.Fresh) : s.Disjoint := by
  intro c hc
  rw [Checker.tofree, bitAt, (h _).2] at hc
  rw [UInt8.toNat_zero, Nat.zero_testBit] at hc
  cases hc

theorem fresh_inuse (h : s.Fresh) (c : Nat) : s.inuse c = false := by
  rw [Checker.inuse, bitAt, (h _).1]
  exact Nat.zero_testBit _

/-- The maps do not depend on the order of the calls. -/
theorem marks_perm (hfresh : s.Fresh) (h : marks.Perm marks') :
    (marks.foldl Mark.apply s).freemapdata = (marks'.foldl Mark.apply s).freemapdata ∧
      (marks.foldl Mark.apply s).tofreedata = (marks'.foldl Mark.apply s).tofreedata := by
  obtain ⟨-, hinuse, htofree⟩ := marks_foldl marks (fresh_disjoint hfresh)
  obtain ⟨-, hinuse', htofree'⟩ := marks_foldl marks' (fresh_disjoint hfresh)
  have hsame : ∀ c, (marks.foldl Mark.apply s).inuse c = (marks'.foldl Mark.apply s).inuse c := by
    intro c
    rw [hinuse, hinuse', h.any_eq]
  refine ⟨ext_bitAt hsame, ext_bitAt fun c => ?_⟩
  have htofree := htofree c
  rw [h.any_eq, hsame, ← htofree'] at htofree
  exact htofree

/-! ## The calls -/

/-- Nothing but the maps and the reports has changed. -/
structure Stays (s t : Checker) : Prop where
  nblocks : t.nblocks = s.nblocks
  disk : t.disk = s.disk

theorem stays_blockinuse : Stays s (s.blockinuse block how howdesc) := by
  rw [Checker.blockinuse, Checker.count, Checker.complain, Checker.unfree]
  split_ifs <;> exact ⟨rfl, rfl⟩

theorem stays_blockfree : Stays s (s.blockfree block) := by
  rw [Checker.blockfree]
  split_ifs <;> exact ⟨rfl, rfl⟩

theorem stays_apply : Stays s (m.apply s) := by
  cases m with
  | inuse block how howdesc => exact stays_blockinuse
  | free block => exact stays_blockfree

/-- The block is one that the maps have a bit for. -/
def Checker.InRange (s : Checker) (m : Mark) : Prop := m.block.toNat < 8 * s.mapbytes

theorem gives_access {f : Checker → Checker} (h : block.toNat < 8 * s.mapbytes) :
    Gives ok (access block f) (fun _ t => t = f s) s := by
  have hindex : (block / 8).toNat < s.mapbytes := by
    have h8 : (8 : UInt32).toNat = 8 := rfl
    rw [UInt32.toNat_div, h8]
    omega
  rw [access, gives_bind, gives_get, if_pos hindex, gives_set]

theorem gives_call (h : s.InRange m) : Gives ok m.call (fun _ t => t = m.apply s) s := by
  cases m with
  | inuse block how howdesc => exact gives_access h
  | free block => exact gives_access h

/-- All calls. -/
theorem gives_calls (h : ∀ m ∈ marks, s.InRange m) :
    Gives ok (forEach marks Mark.call)
      (fun _ t => t = marks.foldl Mark.apply s ∧ Stays s t) s := by
  induction marks generalizing s with
  | nil => exact (gives_pure ()).2 ⟨rfl, rfl, rfl⟩
  | cons m marks ih =>
      rw [forEach, gives_bind]
      refine gives_mono (gives_call (h m List.mem_cons_self)) fun _ t ht => ?_
      subst ht
      have hrange : ∀ m' ∈ marks, (m.apply s).InRange m' := by
        intro m' hm'
        have hin := h m' (List.mem_cons_of_mem m hm')
        rwa [Checker.InRange, Checker.mapbytes, stays_apply.nblocks]
      refine gives_mono (ih hrange) fun _ t hrest => ⟨hrest.1, ?_, ?_⟩
      · exact hrest.2.nblocks.trans stays_apply.nblocks
      · exact hrest.2.disk.trans stays_apply.disk

end Marks

/-! ## The check -/

section Check

variable {ok : Abort → Prop} {s t : Checker} {l : Scan} {x : Checker × Scan} {i j : Nat}
  {stack : Nat → UInt8}

theorem Checker.Disjoint.and_eq_zero (h : s.Disjoint) (i : Nat) :
    s.freemapdata i &&& s.tofreedata i = 0 := by
  refine Lib.Bits.and_eq_zero fun j hj hset => ?_
  cases hfree : (s.tofreedata i).toNat.testBit j with
  | false => rfl
  | true =>
      rw [← bitAt_byte s.tofreedata i hj] at hfree
      have hnot := h _ hfree
      rw [Checker.inuse, bitAt_byte s.freemapdata i hj, hset] at hnot
      cases hnot

/-- What the loops leave alone. -/
structure SameMaps (s t : Checker) : Prop where
  nblocks : t.nblocks = s.nblocks
  freemapdata : t.freemapdata = s.freemapdata
  tofreedata : t.tofreedata = s.tofreedata

theorem mismatch_snd (i j : Nat) (expected tofree : UInt8) (x : Checker × Scan) :
    (mismatch i j expected tofree x).2.actual = Function.update x.2.actual j expected ∧
      (mismatch i j expected tofree x).2.bchanged = true := by
  simp only [mismatch]
  split_ifs <;> exact ⟨rfl, rfl⟩

theorem mismatch_fst (i j : Nat) (expected tofree : UInt8) (x : Checker × Scan) :
    SameMaps x.1 (mismatch i j expected tofree x).1 ∧
      (mismatch i j expected tofree x).1.disk = x.1.disk := by
  simp only [mismatch]
  split_ifs <;> exact ⟨⟨rfl, rfl, rfl⟩, rfl⟩

/-- One byte: whatever it was, it becomes what is expected, and a change is noted. -/
structure Fixed (i j : Nat) (x y : Checker × Scan) : Prop where
  maps : SameMaps x.1 y.1
  disk : y.1.disk = x.1.disk
  here : y.2.actual j = x.1.freemapdata (i * 512 + j)
  other : ∀ k, k ≠ j → y.2.actual k = x.2.actual k
  unchanged : y.2.bchanged = false → x.2.bchanged = false ∧ y.2.actual j = x.2.actual j

theorem fixed_change {l' : Scan} (hmaps : SameMaps s t) (hdisk : t.disk = s.disk)
    (hactual : l'.actual = Function.update l.actual j (s.freemapdata (i * 512 + j)))
    (hchanged : l'.bchanged = true) : Fixed i j (s, l) (t, l') where
  maps := hmaps
  disk := hdisk
  here := by
    dsimp only
    rw [hactual, Function.update_self]
  other k hk := by
    dsimp only
    rw [hactual, Function.update_of_ne hk]
  unchanged hnot := nomatch hchanged.symm.trans hnot

theorem gives_checkByte (h : s.Disjoint) (i j : Nat) :
    Gives ok (checkByte i j) (fun _ y => Fixed i j (s, l) y) (s, l) := by
  have hassert := h.and_eq_zero (i * 512 + j)
  rw [checkByte, gives_bind, gives_get]
  dsimp only
  rw [if_neg (not_not.2 hassert)]
  by_cases hsame : l.actual j = s.freemapdata (i * 512 + j)
  · rw [if_pos hsame, gives_pure]
    exact ⟨⟨rfl, rfl, rfl⟩, rfl, hsame, fun _ _ => rfl, fun hnot => ⟨hnot, rfl⟩⟩
  rw [if_neg hsame]
  by_cases hfrees : l.actual j = s.freemapdata (i * 512 + j) ||| s.tofreedata (i * 512 + j)
  · rw [if_pos hfrees, gives_set]
    exact fixed_change ⟨rfl, rfl, rfl⟩ rfl rfl rfl
  · rw [if_neg hfrees, gives_set]
    obtain ⟨hmaps, hdisk⟩ := mismatch_fst i j (s.freemapdata (i * 512 + j))
      (s.tofreedata (i * 512 + j)) (s, l)
    obtain ⟨hactual, hchanged⟩ := mismatch_snd i j (s.freemapdata (i * 512 + j))
      (s.tofreedata (i * 512 + j)) (s, l)
    exact fixed_change hmaps hdisk hactual hchanged

theorem SameMaps.trans {u : Checker} (h : SameMaps s t) (h' : SameMaps t u) : SameMaps s u :=
  ⟨h'.nblocks.trans h.nblocks, h'.freemapdata.trans h.freemapdata,
    h'.tofreedata.trans h.tofreedata⟩

theorem SameMaps.disjoint (h : SameMaps s t) (hdisjoint : s.Disjoint) : t.Disjoint := by
  intro c
  rw [Checker.tofree, Checker.inuse, h.tofreedata, h.freemapdata]
  exact hdisjoint c

/-- The loop over the bytes. -/
theorem gives_checkBytes {js : List Nat} (hdisjoint : s.Disjoint) (hnodup : js.Nodup) :
    Gives ok (forEach js (checkByte i))
      (fun _ y => SameMaps s y.1 ∧ y.1.disk = s.disk ∧
        (∀ j ∈ js, y.2.actual j = s.freemapdata (i * 512 + j)) ∧
        (∀ j, j ∉ js → y.2.actual j = l.actual j) ∧
        (y.2.bchanged = false → l.bchanged = false ∧ ∀ j ∈ js, y.2.actual j = l.actual j))
      (s, l) := by
  induction js generalizing s l with
  | nil =>
      refine (gives_pure ()).2 ?_
      exact ⟨⟨rfl, rfl, rfl⟩, rfl, nofun, fun _ _ => rfl, fun hnot => ⟨hnot, nofun⟩⟩
  | cons j js ih =>
      obtain ⟨hj, hnodup⟩ := List.nodup_cons.1 hnodup
      rw [forEach, gives_bind]
      refine gives_mono (gives_checkByte hdisjoint i j) fun _ y hy => ?_
      obtain ⟨s', l'⟩ := y
      refine gives_mono (ih (hy.maps.disjoint hdisjoint) hnodup) fun _ z hz => ?_
      obtain ⟨hmaps, hdisk, hjs, hothers, hunchanged⟩ := hz
      refine ⟨hy.maps.trans hmaps, hdisk.trans hy.disk, fun k hk => ?_, fun k hk => ?_,
        fun hnot => ?_⟩
      · rcases List.mem_cons.1 hk with rfl | hk
        · exact (hothers k hj).trans hy.here
        · rw [hjs k hk, hy.maps.freemapdata]
      · rw [List.mem_cons, not_or] at hk
        exact (hothers k hk.2).trans (hy.other k hk.1)
      · obtain ⟨hbefore, hsame⟩ := hunchanged hnot
        obtain ⟨hstart, hhere⟩ := hy.unchanged hbefore
        refine ⟨hstart, fun k hk => ?_⟩
        rcases List.mem_cons.1 hk with rfl | hk
        · exact (hothers k hj).trans hhere
        · rw [hsame k hk]
          exact hy.other k fun e => hj (e ▸ hk)

/-- Block `i` of the free block map on the disk is what the maps say. -/
def Checker.Written (s t : Checker) (i : Nat) : Prop :=
  ∀ j < 512, t.disk (2 + i) j = s.freemapdata (i * 512 + j)

theorem gives_checkBlock (hdisjoint : s.Disjoint) (i : Nat) :
    Gives ok (checkBlock i)
      (fun _ y => SameMaps s y.1 ∧ s.Written y.1 i ∧ ∀ b, b ≠ 2 + i → y.1.disk b = s.disk b)
      (s, l) := by
  simp only [checkBlock, gives_bind, gives_modify]
  refine gives_mono (gives_checkBytes hdisjoint List.nodup_range) fun _ y hy => ?_
  obtain ⟨t, l'⟩ := y
  obtain ⟨hmaps, hdisk, hbytes, -, hunchanged⟩ := hy
  simp only [gives_get, gives_ite, gives_set, gives_pure]
  refine ⟨fun _ => ⟨⟨hmaps.nblocks, hmaps.freemapdata, hmaps.tofreedata⟩, fun j hj => ?_,
    fun b hb => ?_⟩, fun hnot => ⟨hmaps, fun j hj => ?_, fun b _ => congrFun hdisk b⟩⟩
  · dsimp only
    rw [Function.update_self]
    exact hbytes j (List.mem_range.2 hj)
  · exact (Function.update_of_ne hb _ _).trans (congrFun hdisk b)
  · -- no byte had to be changed
    have hsame := (hunchanged (Bool.eq_false_iff.2 hnot)).2 j (List.mem_range.2 hj)
    rw [hdisk, ← hbytes j (List.mem_range.2 hj), hsame]

/-- The loop over the blocks. -/
theorem gives_checkBlocks {is : List Nat} (hdisjoint : s.Disjoint) (hnodup : is.Nodup) :
    Gives ok (forEach is checkBlock)
      (fun _ y => SameMaps s y.1 ∧ (∀ i ∈ is, s.Written y.1 i) ∧
        ∀ b, (∀ i ∈ is, b ≠ 2 + i) → y.1.disk b = s.disk b) (s, l) := by
  induction is generalizing s l with
  | nil =>
      refine (gives_pure ()).2 ?_
      exact ⟨⟨rfl, rfl, rfl⟩, nofun, fun _ _ => rfl⟩
  | cons i is ih =>
      obtain ⟨hi, hnodup⟩ := List.nodup_cons.1 hnodup
      rw [forEach, gives_bind]
      refine gives_mono (gives_checkBlock hdisjoint i) fun _ y hy => ?_
      obtain ⟨t, l'⟩ := y
      obtain ⟨hmaps, hwritten, hother⟩ := hy
      refine gives_mono (ih (hmaps.disjoint hdisjoint) hnodup) fun _ z hz => ?_
      obtain ⟨hmaps', hwritten', hother'⟩ := hz
      refine ⟨hmaps.trans hmaps', fun k hk j hj => ?_, fun b hb => ?_⟩
      · rcases List.mem_cons.1 hk with rfl | hk
        · rw [hother' (2 + k) fun i' hi' e => hi (by rwa [Nat.add_left_cancel e])]
          exact hwritten j hj
        · rw [hwritten' k hk j hj, hmaps.freemapdata]
      · rw [hother' b fun i' hi' => hb i' (List.mem_cons_of_mem i hi')]
        exact hother b (hb i List.mem_cons_self)

/-- What `freemap_check` does: the free block map on the disk becomes the in-use map, and nothing
else on the disk changes. -/
structure Repaired (s t : Checker) : Prop where
  maps : SameMaps s t
  written : ∀ i < (freemapBlocks s.nblocks).toNat, s.Written t i
  other : ∀ b, b < 2 ∨ 2 + (freemapBlocks s.nblocks).toNat ≤ b → t.disk b = s.disk b

theorem Repaired.report (h : Repaired s t) (warnings : List Warning) (badness : Nat) :
    Repaired s { t with warnings := warnings, badness := badness } :=
  ⟨⟨h.maps.nblocks, h.maps.freemapdata, h.maps.tofreedata⟩, h.written, h.other⟩

theorem gives_freemapCheck (hdisjoint : s.Disjoint) (stack : Nat → UInt8) :
    Gives ok (freemapCheck stack) (fun _ t => Repaired s t) s := by
  simp only [freemapCheck, gives_bind, gives_get, gives_withLocal]
  refine gives_mono (gives_checkBlocks hdisjoint List.nodup_range) fun _ y hy => ?_
  obtain ⟨t, l⟩ := y
  obtain ⟨hmaps, hwritten, hother⟩ := hy
  have hdone : Repaired s t := by
    refine ⟨hmaps, fun i hi => hwritten i (List.mem_range.2 hi), fun b hb => ?_⟩
    refine hother b fun i hi => ?_
    have hlt := List.mem_range.1 hi
    omega
  simp only [gives_bind, gives_ite, gives_modify, gives_pure]
  refine ⟨fun _ => ⟨fun _ => ?_, fun _ => ?_⟩, fun _ => ⟨fun _ => ?_, fun _ => ?_⟩⟩
  · exact (hdone.report _ _).report _ _
  · exact hdone.report _ _
  · exact hdone.report _ _
  · exact hdone

end Check

/-- Two calls that find the same blocks in another order leave the same maps: a block is in use
exactly when a call of `freemap_blockinuse` has named it, and no block is marked both ways. The
free block map on the disk then becomes the in-use map, whatever it was. -/
theorem freemap_orderless {s : Checker} {marks marks' : List Mark} (hfresh : s.Fresh)
    (hrange : ∀ m ∈ marks, s.InRange m) (hperm : marks.Perm marks') (stack : Nat → UInt8) :
    ∃ t t', (forEach marks Mark.call).result s = .ok (.ok (), t) ∧
      (forEach marks' Mark.call).result s = .ok (.ok (), t') ∧
      t.freemapdata = t'.freemapdata ∧ t.tofreedata = t'.tofreedata ∧ t.Disjoint ∧
      (∀ c, t.inuse c = true ↔ ∃ m ∈ marks, m.uses c = true) ∧
      ∃ u, (freemapCheck stack).result t = .ok (.ok (), u) ∧
        ∀ i < (freemapBlocks s.nblocks).toNat, ∀ j < 512,
          u.disk (2 + i) j = t.freemapdata (i * 512 + j) := by
  have hrange' : ∀ m ∈ marks', s.InRange m := fun m hm => hrange m (hperm.mem_iff.2 hm)
  obtain ⟨r, t, hres, a, rfl, rfl, hstays⟩ := wp.exists_result (gives_calls hrange)
  obtain ⟨r', t', hres', a', rfl, rfl, -⟩ := wp.exists_result (gives_calls hrange')
  obtain ⟨hinuse, htofree⟩ := marks_perm hfresh hperm
  obtain ⟨hdisjoint, huses, -⟩ := marks_foldl marks (fresh_disjoint hfresh)
  obtain ⟨r'', u, hcheck, a'', rfl, hrepaired⟩ :=
    wp.exists_result (gives_freemapCheck hdisjoint stack)
  refine ⟨_, _, hres, hres', hinuse, htofree, hdisjoint, fun c => ?_, u, hcheck, fun i hi => ?_⟩
  · rw [huses, fresh_inuse hfresh, Bool.false_or, List.any_eq_true]
  · rw [← hstays.nblocks] at hi
    exact hrepaired.written i hi

/-- A volume of 100 blocks, before anything has been found. -/
def smallVolume : Checker where
  nblocks := 100
  freemapdata _ := 0
  tofreedata _ := 0
  blocksinuse := 0
  badness := 0
  warnings := []
  disk _ _ := 0xff

/-- Block 5 is freed and found in use. -/
def freedAndUsed : List Mark := [.free 5, .inuse 6 .inode 6, .inuse 5 .data 6, .free 7]

theorem freemap_orderless_small : ∃ t t',
    (forEach freedAndUsed Mark.call).result smallVolume = .ok (.ok (), t) ∧
      (forEach freedAndUsed.reverse Mark.call).result smallVolume = .ok (.ok (), t') ∧
      t.freemapdata = t'.freemapdata ∧ t.inuse 5 = true ∧ t.tofree 5 = false := by
  have hbytes : smallVolume.mapbytes = 512 := by decide
  have hrange : ∀ m ∈ freedAndUsed, smallVolume.InRange m := by
    intro m
    rw [Checker.InRange, hbytes]
    revert m
    decide
  obtain ⟨t, t', hres, hres', hdata, -, hdisjoint, huses, -⟩ :=
    freemap_orderless (fun _ => ⟨rfl, rfl⟩) hrange (List.reverse_perm freedAndUsed).symm
      fun _ => 0
  have hused : t.inuse 5 = true := (huses 5).2 (by decide)
  refine ⟨t, t', hres, hres', hdata, hused, ?_⟩
  cases hfree : t.tofree 5 with
  | false => rfl
  | true => cases hused.symm.trans (hdisjoint 5 hfree)

end Os161.Sfsck.Freemap

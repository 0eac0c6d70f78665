import Mathlib.Algebra.Group.Nat.Defs
import Mathlib.Logic.Function.Basic
import Os161.Lib.Calls

set_option autoImplicit false

/-!
# The blocks of an inode, as the file system checker sees them

`check_inode_blocks` and `check_indirect_block` of `userland/sbin/sfsck/pass1.c`, with the block map
of `sfs.c` and the free block map of `freemap.c`. Blocks past the end of the file are dropped, and so
are pointers out of the volume. All is well unless `SFS_ROUNDUP` of the size wraps around.
-/

namespace Os161.Sfsck

open Os161.Lib.Calls

/-- `blockusage_t`. -/
inductive BlockUsage where
  | iblock
  | dirdata
  | data
  deriving DecidableEq, Repr

/-- What `warnx` says. -/
inductive Warning where
  /-- An indirect block pointer, with its level, outside of the volume. -/
  | indirectOutside (indirection : Nat) (fileblock block : UInt32)
  /-- A direct block pointer outside of the volume. -/
  | directOutside (fileblock block : UInt32)
  | alreadyInUse (block : UInt32) (how : BlockUsage)
  | afterEof (blocks : UInt32)
  deriving DecidableEq, Repr

/-- A failed assertion. -/
inductive Abort where
  /-- `assert(indirection==1)`. -/
  | indirection
  deriving DecidableEq, Repr

def exitRecov : Nat := 1

def exitUnrecov : Nat := 2

/-- `SFS_NDIRECT`. The inode has one indirect block, and none of a higher level. -/
def numD : Nat := 15

/-- `SFS_DBPERIDB`. -/
def dbperidb : Nat := 128

/-- `INOMAX_I`. -/
def inomaxI : Nat := 143

/-- `sfi_size`, `sfi_direct` and `sfi_indirect` of a `struct sfs_dinode`. -/
structure Dinode where
  size : UInt32
  direct : Nat → UInt32
  indirect : UInt32

/-- `struct ibstate`, the disk, and what the checker keeps. -/
structure Check where
  curfileblock : UInt32
  /-- The size of the file, in blocks. -/
  fileblocks : UInt32
  /-- The size of the volume, in blocks. -/
  volblocks : UInt32
  pasteofcount : UInt32
  usagetype : BlockUsage
  /-- The blocks of the disk, as indirect blocks. -/
  disk : UInt32 → Nat → UInt32
  /-- `freemapdata`. -/
  inuse : UInt32 → Bool
  /-- `tofreedata`. -/
  tofree : UInt32 → Bool
  blocksinuse : Nat
  badness : Nat
  warnings : List Warning
  /-- The data pointers that have been looked at, with `curfileblock`. -/
  seen : List (UInt32 × UInt32)

/-- Calls; none of them ends with `throw`. -/
abbrev CheckCall (α : Type) : Type := Call Check Abort Empty α

def setbadness (code : Nat) : CheckCall Unit :=
  modify fun s => { s with badness := max s.badness code }

def warnx (w : Warning) : CheckCall Unit :=
  modify fun s => { s with warnings := s.warnings ++ [w] }

/-- `freemap_blockinuse`. -/
def freemapBlockinuse (block : UInt32) (how : BlockUsage) : CheckCall Unit := do
  modify fun s => { s with tofree := Function.update s.tofree block false }
  let s ← get
  if s.inuse block then do
    warnx (.alreadyInUse block how)
    setbadness exitUnrecov
  modify fun s => { s with
    inuse := Function.update s.inuse block true
    blocksinuse := s.blocksinuse + 1 }

/-- `freemap_blockfree`. -/
def freemapBlockfree (block : UInt32) : CheckCall Unit :=
  modify fun s =>
    if s.tofree block || s.inuse block then s
    else { s with tofree := Function.update s.tofree block true }

/-- The body of the loops over pointers to data blocks, with the new pointer and whether it has
changed. -/
def checkDirect (block : UInt32) : CheckCall (UInt32 × Bool) := do
  let s ← get
  modify fun s => { s with seen := s.seen ++ [(s.curfileblock, block)] }
  let result ←
    if s.volblocks ≤ block then do
      setbadness exitRecov
      warnx (.directOutside s.curfileblock block)
      pure (0, true)
    else if block ≠ 0 then
      if s.curfileblock < s.fileblocks then do
        freemapBlockinuse block s.usagetype
        pure (block, false)
      else do
        setbadness exitRecov
        modify fun s => { s with pasteofcount := s.pasteofcount + 1 }
        freemapBlockfree block
        pure (0, true)
    else pure (block, false)
  modify fun s => { s with curfileblock := s.curfileblock + 1 }
  pure result

/-- The loop over `n` entries from `i` on, and whether an entry has changed. -/
def eachEntry (f : UInt32 → CheckCall (UInt32 × Bool)) :
    Nat → Nat → (Nat → UInt32) → Bool → CheckCall ((Nat → UInt32) × Bool)
  | 0, _, entries, changed => pure (entries, changed)
  | n + 1, i, entries, changed => do
      let (entry, c) ← f (entries i)
      eachEntry f n (i + 1) (Function.update entries i entry) (changed || c)

/-- `check_indirect_block`, with the new value of `*ientry` and whether it has changed. -/
def checkIndirectBlock : Nat → UInt32 → CheckCall (UInt32 × Bool)
  | 0, _ => halt .indirection
  | k + 1, ientry => do
      let s ← get
      if 0 < ientry ∧ ientry < s.volblocks then do
        let entries := s.disk ientry
        freemapBlockinuse ientry .iblock
        let (entries, localchanged) ←
          if 1 < k + 1 then eachEntry (checkIndirectBlock k) dbperidb 0 entries false
          else eachEntry checkDirect dbperidb 0 entries false
        if ∀ i < dbperidb, entries i = 0 then do
          setbadness exitRecov
          freemapBlockfree ientry
          pure (0, true)
        else do
          -- `assert(*ientry != 0)` is the test above
          if localchanged then
            modify fun s => { s with disk := Function.update s.disk ientry entries }
          pure (ientry, false)
      else do
        let result ←
          if s.volblocks ≤ ientry then do
            setbadness exitRecov
            warnx (.indirectOutside (k + 1) s.curfileblock ientry)
            pure (0, true)
          else pure (ientry, false)
        -- `coveredblocks`
        modify fun s => { s with curfileblock := s.curfileblock + .ofNat (dbperidb ^ (k + 1)) }
        pure result

/-- `SFS_ROUNDUP(size, SFS_BLOCKSIZE)`. -/
def roundup (size : UInt32) : UInt32 := (size + 512 - 1) / 512 * 512

/-- `check_inode_blocks` on a volume of `volblocks` blocks: the inode, and whether it has changed. -/
def checkInodeBlocks (sfi : Dinode) (volblocks : UInt32) (isdir : Bool) :
    CheckCall (Dinode × Bool) := do
  modify fun s => { s with
    curfileblock := 0
    fileblocks := roundup sfi.size / 512
    volblocks := volblocks
    pasteofcount := 0
    usagetype := if isdir then .dirdata else .data }
  let (direct, changed) ← eachEntry checkDirect numD 0 sfi.direct false
  let (indirect, c) ← checkIndirectBlock 1 sfi.indirect
  let s ← get
  if 0 < s.pasteofcount then do
    warnx (.afterEof s.pasteofcount)
    setbadness exitRecov
  pure ({ sfi with direct := direct, indirect := indirect }, changed || c)

/-! ## The block map -/

/-- `ibmap` for an indirect block whose entries stand for `dbperidb ^ level` blocks each. -/
def ibmap (disk : UInt32 → Nat → UInt32) : Nat → UInt32 → Nat → UInt32
  | 0, iblock, offset => if iblock = 0 then 0 else disk iblock offset
  | level + 1, iblock, offset =>
      if iblock = 0 then 0
      else ibmap disk level (disk iblock (offset / dbperidb ^ (level + 1)))
        (offset % dbperidb ^ (level + 1))

/-- `bmap`. -/
def bmap (disk : UInt32 → Nat → UInt32) (sfi : Dinode) (fileblock : Nat) : UInt32 :=
  if fileblock < numD then sfi.direct fileblock
  else if fileblock < inomaxI then ibmap disk 0 sfi.indirect ((fileblock - numD) % dbperidb)
  else 0

/-! ## What has to hold -/

/-- The block pointer for a block of the file, when there is a way to it inside the volume. -/
def Check.pointer (s : Check) (volblocks : UInt32) (sfi : Dinode) (fileblock : Nat) : UInt32 :=
  if numD ≤ fileblock ∧ volblocks ≤ sfi.indirect then 0 else bmap s.disk sfi fileblock

/-- The size in blocks, rounded up. -/
def Dinode.blocks (sfi : Dinode) : Nat := (sfi.size.toNat + 511) / 512

/-- The blocks of the file that are looked at. -/
def visited (sfi : Dinode) (volblocks : UInt32) : List Nat :=
  List.range (if 0 < sfi.indirect ∧ sfi.indirect < volblocks then inomaxI else numD)

/-- No live block is dropped and no dead one kept. -/
structure Checked (s : Check) (volblocks : UInt32) (sfi sfi' : Dinode) (t : Check) : Prop where
  direct : ∀ i < numD, sfi'.direct i ≠ 0 → sfi'.direct i < volblocks
  indirect : sfi'.indirect ≠ 0 → sfi'.indirect < volblocks
  entries : sfi'.indirect ≠ 0 → ∀ i < dbperidb, t.disk sfi'.indirect i ≠ 0 →
    t.disk sfi'.indirect i < volblocks
  pastEof : ∀ f, sfi.blocks ≤ f → bmap t.disk sfi' f = 0
  kept : ∀ f < sfi.blocks, s.pointer volblocks sfi f < volblocks →
    bmap t.disk sfi' f = s.pointer volblocks sfi f
  seen : t.seen = s.seen ++ (visited sfi volblocks).map fun f =>
    (UInt32.ofNat f, s.pointer volblocks sfi f)

/-! ## The walk -/

/-- What the checker makes of the pointer to the block `c` of the file. -/
def Check.keep (s : Check) (c block : UInt32) : UInt32 :=
  if s.volblocks ≤ block then 0 else if block ≠ 0 ∧ ¬ c < s.fileblocks then 0 else block

/-- What a part of the walk does besides: `c` blocks of the file have been gone through. -/
structure Walk (s : Check) (c : UInt32) (seen : List (UInt32 × UInt32)) (t : Check) : Prop where
  curfileblock : t.curfileblock = s.curfileblock + c
  fileblocks : t.fileblocks = s.fileblocks
  volblocks : t.volblocks = s.volblocks
  seen : t.seen = s.seen ++ seen

section Walk

variable {ok : Abort → Prop} {s t u : Check} {c d : UInt32} {l l' : List (UInt32 × UInt32)}

theorem Walk.trans (h : Walk s c l t) (h' : Walk t d l' u) : Walk s (c + d) (l ++ l') u where
  curfileblock := by rw [h'.curfileblock, h.curfileblock, UInt32.add_assoc]
  fileblocks := h'.fileblocks.trans h.fileblocks
  volblocks := h'.volblocks.trans h.volblocks
  seen := by rw [h'.seen, h.seen, List.append_assoc]

theorem Walk.keep (h : Walk s c l t) : t.keep = s.keep := by
  funext c block
  rw [Check.keep, Check.keep, h.volblocks, h.fileblocks]

theorem Check.keep_lt {c block : UInt32} (h : s.keep c block ≠ 0) :
    s.keep c block < s.volblocks := by
  rw [Check.keep] at h ⊢
  split_ifs at h ⊢ with hvol hpast
  · exact absurd rfl h
  · exact absurd rfl h
  · exact UInt32.not_le.1 hvol

theorem Check.keep_past {c : UInt32} (h : s.fileblocks ≤ c) (block : UInt32) :
    s.keep c block = 0 := by
  rw [Check.keep]
  split_ifs with hvol hpast
  · rfl
  · rfl
  · by_contra hne
    exact hpast ⟨hne, UInt32.not_lt.2 h⟩

theorem Check.keep_live {c block : UInt32} (hc : c < s.fileblocks) (h : block < s.volblocks) :
    s.keep c block = block := by
  rw [Check.keep, if_neg (UInt32.not_le.2 h), if_neg fun hpast => hpast.2 hc]

theorem keep_zero (s : Check) (c : UInt32) : s.keep c 0 = 0 := by
  rw [Check.keep]
  simp

/-- Nothing of the walk has changed. -/
def Stays (s t : Check) : Prop := Walk s 0 [] t ∧ t.disk = s.disk

theorem Stays.refl (s : Check) : Stays s s := ⟨⟨by simp, rfl, rfl, by simp⟩, rfl⟩

theorem gives_setbadness (code : Nat) : Gives ok (setbadness code) (fun _ t => Stays s t) s := by
  rw [setbadness, gives_modify]
  exact ⟨⟨by simp, rfl, rfl, by simp⟩, rfl⟩

theorem gives_warnx (w : Warning) : Gives ok (warnx w) (fun _ t => Stays s t) s := by
  rw [warnx, gives_modify]
  exact ⟨⟨by simp, rfl, rfl, by simp⟩, rfl⟩

theorem gives_freemapBlockfree (block : UInt32) :
    Gives ok (freemapBlockfree block) (fun _ t => Stays s t) s := by
  rw [freemapBlockfree, gives_modify]
  split_ifs
  · exact .refl s
  · exact ⟨⟨by simp, rfl, rfl, by simp⟩, rfl⟩

theorem Stays.trans (h : Stays s t) (h' : Stays t u) : Stays s u := by
  refine ⟨?_, h'.2.trans h.2⟩
  have hwalk := h.1.trans h'.1
  rwa [UInt32.add_zero] at hwalk

theorem gives_freemapBlockinuse (block : UInt32) (how : BlockUsage) :
    Gives ok (freemapBlockinuse block how) (fun _ t => Stays s t) s := by
  have hset : ∀ (t : Check) (inuse : UInt32 → Bool) (n : Nat), Stays s t →
      Stays s { t with inuse := inuse, blocksinuse := n } := fun t inuse n ht =>
    ht.trans ⟨⟨by simp, rfl, rfl, by simp⟩, rfl⟩
  have hfirst : Stays s { s with tofree := Function.update s.tofree block false } :=
    ⟨⟨by simp, rfl, rfl, by simp⟩, rfl⟩
  rw [freemapBlockinuse, gives_bind, gives_modify, gives_bind, gives_get, gives_ite]
  refine ⟨fun _ => ?_, fun _ => ?_⟩
  · rw [gives_bind]
    refine gives_mono (gives_warnx _) fun _ t ht => ?_
    rw [gives_bind]
    refine gives_mono (gives_setbadness _) fun _ u hu => ?_
    rw [gives_modify]
    exact hset u _ _ (hfirst.trans (ht.trans hu))
  · rw [gives_modify]
    exact hset _ _ _ hfirst

/-- One pointer to a data block. -/
theorem gives_checkDirect {block : UInt32} :
    Gives ok (checkDirect block) (fun r t => Walk s 1 [(s.curfileblock, block)] t ∧
      t.disk = s.disk ∧ r.1 = s.keep s.curfileblock block ∧ (r.2 = false → r.1 = block)) s := by
  have hend : ∀ t, Stays { s with seen := s.seen ++ [(s.curfileblock, block)] } t →
      Walk s 1 [(s.curfileblock, block)] { t with curfileblock := t.curfileblock + 1 } ∧
        t.disk = s.disk := fun t ht => by
    have hcur := ht.1.curfileblock
    have hseen := ht.1.seen
    rw [UInt32.add_zero] at hcur
    rw [List.append_nil] at hseen
    refine ⟨⟨?_, ht.1.fileblocks, ht.1.volblocks, hseen⟩, ht.2⟩
    show t.curfileblock + 1 = s.curfileblock + 1
    rw [hcur]
  rw [checkDirect, gives_bind, gives_get, gives_bind, gives_modify]
  dsimp only
  rw [gives_ite]
  refine ⟨fun hout => ?_, fun hin => ?_⟩
  · have hkeep : s.keep s.curfileblock block = 0 := if_pos hout
    rw [gives_bind]
    refine gives_mono (gives_setbadness _) fun _ t ht => ?_
    rw [gives_bind]
    refine gives_mono (gives_warnx _) fun _ u hu => ?_
    rw [gives_bind, gives_pure, gives_bind, gives_modify, gives_pure]
    obtain ⟨hwalk, hdisk⟩ := hend u (ht.trans hu)
    exact ⟨hwalk, hdisk, hkeep.symm, fun h => absurd h (by decide)⟩
  · rw [gives_ite]
    refine ⟨fun hne => ?_, fun hzero => ?_⟩
    · rw [gives_ite]
      refine ⟨fun hlt => ?_, fun hge => ?_⟩
      · have hkeep : s.keep s.curfileblock block = block := by
          rw [Check.keep, if_neg hin, if_neg (fun h => h.2 hlt)]
        rw [gives_bind]
        refine gives_mono (gives_freemapBlockinuse _ _) fun _ t ht => ?_
        rw [gives_bind, gives_pure, gives_bind, gives_modify, gives_pure]
        obtain ⟨hwalk, hdisk⟩ := hend t ht
        exact ⟨hwalk, hdisk, hkeep.symm, fun _ => rfl⟩
      · have hkeep : s.keep s.curfileblock block = 0 := by
          rw [Check.keep, if_neg hin, if_pos ⟨hne, hge⟩]
        rw [gives_bind]
        refine gives_mono (gives_setbadness _) fun _ t ht => ?_
        rw [gives_bind, gives_modify, gives_bind]
        refine gives_mono (gives_freemapBlockfree _) fun _ u hu => ?_
        rw [gives_bind, gives_pure, gives_bind, gives_modify, gives_pure]
        have hpast : Stays t { t with pasteofcount := t.pasteofcount + 1 } :=
          ⟨⟨by simp, rfl, rfl, by simp⟩, rfl⟩
        obtain ⟨hwalk, hdisk⟩ := hend u (ht.trans (hpast.trans hu))
        exact ⟨hwalk, hdisk, hkeep.symm, fun h => absurd h (by decide)⟩
    · have hkeep : s.keep s.curfileblock block = block := by
        rw [Check.keep, if_neg hin, if_neg (fun h => hzero h.1)]
      rw [gives_bind, gives_pure, gives_bind, gives_modify, gives_pure]
      obtain ⟨hwalk, hdisk⟩ := hend _ (Stays.refl _)
      exact ⟨hwalk, hdisk, hkeep.symm, fun _ => rfl⟩

theorem ofNat_succ (n : Nat) : UInt32.ofNat (n + 1) = 1 + UInt32.ofNat n := by
  rw [UInt32.ofNat_add, UInt32.add_comm]
  rfl

/-- The loop over pointers to data blocks. -/
theorem gives_eachEntry_checkDirect (n : Nat) :
    ∀ {s : Check} {i : Nat} {entries : Nat → UInt32} {changed : Bool},
      Gives ok (eachEntry checkDirect n i entries changed) (fun r t =>
        Walk s (.ofNat n)
          ((List.range n).map fun j => (s.curfileblock + .ofNat j, entries (i + j))) t ∧
        t.disk = s.disk ∧
        (∀ j < n, r.1 (i + j) = s.keep (s.curfileblock + .ofNat j) (entries (i + j))) ∧
        (∀ j < i, r.1 j = entries j) ∧
        (r.2 = false → changed = false ∧ ∀ j, r.1 j = entries j)) s := by
  -- the induction is on the entries that are left
  induction n with
  | zero =>
      intro s i entries changed
      refine (gives_pure _).2 ⟨⟨by simp, rfl, rfl, by simp⟩, rfl, fun j hj => ?_, fun j _ => rfl,
        fun h => ⟨h, fun j => rfl⟩⟩
      exact absurd hj (Nat.not_lt_zero j)
  | succ n ih =>
      intro s i entries changed
      rw [eachEntry, gives_bind]
      refine gives_mono gives_checkDirect fun r t ⟨hwalk, hdisk, hentry, hsame⟩ => ?_
      refine gives_mono ih fun r' u ⟨hwalk', hdisk', hentries, hbefore, hsame'⟩ => ?_
      have hcur : ∀ j, s.curfileblock + .ofNat (j + 1) = t.curfileblock + .ofNat j := fun j => by
        rw [hwalk.curfileblock, ofNat_succ, UInt32.add_assoc]
      have hother : ∀ j, i + 1 + j = i + (j + 1) := fun j => by omega
      have hzero : s.curfileblock + .ofNat 0 = s.curfileblock := by simp
      have hupdate : ∀ j, Function.update entries i r.1 (i + 1 + j) = entries (i + (j + 1)) :=
        fun j => by
          rw [Function.update_of_ne (by omega), hother]
      refine ⟨?_, hdisk'.trans hdisk, fun j hj => ?_, fun j hj => ?_, fun h => ?_⟩
      · have hboth := hwalk.trans hwalk'
        rw [List.range_succ_eq_map, List.map_cons, List.map_map, ofNat_succ]
        simpa only [hupdate, Function.comp_def, hcur, hzero, List.singleton_append,
          Nat.add_zero] using hboth
      · rcases j with _ | j
        · rw [Nat.add_zero, hbefore i (Nat.lt_succ_self i), Function.update_self, hentry,
            hzero]
        · have hj' := hentries j (by omega)
          rw [hupdate, hwalk.keep, hother] at hj'
          rw [hj', hcur]
      · rw [hbefore j (by omega), Function.update_of_ne (by omega)]
      · obtain ⟨hfalse, hsame'⟩ := hsame' h
        obtain ⟨hchanged, hr⟩ := Bool.or_eq_false_iff.1 hfalse
        refine ⟨hchanged, fun j => ?_⟩
        rw [hsame', hsame hr, Function.update_eq_self]

/-- What a call on an entry does to the counter. -/
def Covers (f : UInt32 → CheckCall (UInt32 × Bool)) (c : Nat) : Prop :=
  ∀ s p, Gives (fun _ => False) (f p)
    (fun _ t => t.curfileblock = s.curfileblock + .ofNat c) s

theorem covers_checkDirect : Covers checkDirect 1 := fun _ _ =>
  gives_mono gives_checkDirect fun _ _ h => h.1.curfileblock

theorem Covers.eachEntry {f : UInt32 → CheckCall (UInt32 × Bool)} {m : Nat} (h : Covers f m)
    (n : Nat) : ∀ s i entries changed, Gives (fun _ => False) (eachEntry f n i entries changed)
      (fun _ t => t.curfileblock = s.curfileblock + .ofNat (n * m)) s := by
  induction n with
  | zero =>
      intro s i entries changed
      exact (gives_pure _).2 (by simp)
  | succ n ih =>
      intro s i entries changed
      rw [Sfsck.eachEntry, gives_bind]
      refine gives_mono (h s _) fun r t ht => ?_
      refine gives_mono (ih t _ _ _) fun r' u hu => ?_
      rw [hu, ht, UInt32.add_assoc, ← UInt32.ofNat_add, Nat.succ_mul, Nat.add_comm m]

/-- The loop over the entries of an indirect block. -/
def entryLoop (k : Nat) (entries : Nat → UInt32) : CheckCall ((Nat → UInt32) × Bool) :=
  if 1 < k + 1 then eachEntry (checkIndirectBlock k) dbperidb 0 entries false
  else eachEntry checkDirect dbperidb 0 entries false

/-- What is done about an indirect block after the loop over its entries, and about a pointer to
none. -/
theorem gives_checkIndirectBlock {k : Nat} {ientry : UInt32} {P : UInt32 × Bool → Check → Prop}
    (hbad : ¬ (0 < ientry ∧ ientry < s.volblocks) → ∀ t, Walk s (.ofNat (dbperidb ^ (k + 1))) [] t →
      t.disk = s.disk → ∀ c, P (0, c) t)
    (hgood : 0 < ientry → ientry < s.volblocks → ∀ t, Stays s t →
      Gives ok (entryLoop k (s.disk ientry)) (fun r u =>
        ((∀ i < dbperidb, r.1 i = 0) → ∀ v, Stays u v → P (0, true) v) ∧
        (¬ (∀ i < dbperidb, r.1 i = 0) → P (ientry, false)
          (if r.2 then { u with disk := Function.update u.disk ientry r.1 } else u))) t) :
    Gives ok (checkIndirectBlock (k + 1) ientry) P s := by
  rw [checkIndirectBlock, gives_bind, gives_get, gives_ite]
  refine ⟨fun hin => ?_, fun hout => ?_⟩
  · rw [gives_bind]
    refine gives_mono (gives_freemapBlockinuse _ _) fun _ t ht => ?_
    have hloop := hgood hin.1 hin.2 t ht
    dsimp only
    -- what follows the loop
    have htail : ∀ (r : (Nat → UInt32) × Bool) (u : Check),
        ((∀ i < dbperidb, r.1 i = 0) → ∀ v, Stays u v → P (0, true) v) ∧
          (¬ (∀ i < dbperidb, r.1 i = 0) → P (ientry, false)
            (if r.2 then { u with disk := Function.update u.disk ientry r.1 } else u)) →
        Gives ok (if ∀ i < dbperidb, r.1 i = 0 then do
            setbadness exitRecov
            freemapBlockfree ientry
            pure (0, true)
          else if r.2 then do
            modify fun s => { s with disk := Function.update s.disk ientry r.1 }
            pure (ientry, false)
          else pure (ientry, false)) P u := fun r u hru => by
      rw [gives_ite]
      refine ⟨fun hzero => ?_, fun hsome => ?_⟩
      · rw [gives_bind]
        refine gives_mono (gives_setbadness _) fun _ v hv => ?_
        rw [gives_bind]
        refine gives_mono (gives_freemapBlockfree _) fun _ w hw => ?_
        exact (gives_pure _).2 (hru.1 hzero w (hv.trans hw))
      · have hdone := hru.2 hsome
        rw [gives_ite]
        refine ⟨fun hchanged => ?_, fun hsame => ?_⟩
        · rw [if_pos hchanged] at hdone
          rw [gives_bind, gives_modify, gives_pure]
          exact hdone
        · rw [if_neg hsame] at hdone
          rw [gives_pure]
          exact hdone
    rw [gives_ite]
    refine ⟨fun hk => ?_, fun hk => ?_⟩
    · rw [entryLoop, if_pos hk] at hloop
      rw [gives_bind]
      exact gives_mono hloop htail
    · rw [entryLoop, if_neg hk] at hloop
      rw [gives_bind]
      exact gives_mono hloop htail
  · have hend : ∀ t, Stays s t → ∀ c, P (0, c)
        { t with curfileblock := t.curfileblock + .ofNat (dbperidb ^ (k + 1)) } := fun t ht => by
      have hcur := ht.1.curfileblock
      rw [UInt32.add_zero] at hcur
      refine hbad hout _ ⟨?_, ht.1.fileblocks, ht.1.volblocks, ht.1.seen⟩ ht.2
      show t.curfileblock + _ = s.curfileblock + _
      rw [hcur]
    dsimp only
    rw [gives_ite]
    refine ⟨fun hvol => ?_, fun hvol => ?_⟩
    · rw [gives_bind]
      refine gives_mono (gives_setbadness _) fun _ t ht => ?_
      rw [gives_bind]
      refine gives_mono (gives_warnx _) fun _ u hu => ?_
      rw [gives_bind, gives_pure, gives_bind, gives_modify, gives_pure]
      exact hend u (ht.trans hu) true
    · have hzero : ientry = 0 := by
        by_contra hne
        exact hout ⟨UInt32.pos_iff_ne_zero.2 hne, UInt32.not_le.1 hvol⟩
      rw [gives_bind, gives_pure, gives_bind, gives_modify, gives_pure, hzero]
      exact hend s (.refl s) false

/-- The counter after the loop is the counter after the call. -/
theorem covers_of_loop {k : Nat} (hloop : ∀ t entries, Gives (fun _ => False) (entryLoop k entries)
    (fun _ u => u.curfileblock = t.curfileblock + .ofNat (dbperidb ^ (k + 1))) t) :
    Covers (checkIndirectBlock (k + 1)) (dbperidb ^ (k + 1)) := by
  intro s ientry
  refine gives_checkIndirectBlock (fun _ t ht _ _ => ht.curfileblock) fun _ _ t ht => ?_
  have hcur := ht.1.curfileblock
  rw [UInt32.add_zero] at hcur
  refine gives_mono (hloop t _) fun r u hu => ⟨fun _ v hv => ?_, fun _ => ?_⟩
  · have hcur' := hv.1.curfileblock
    rw [UInt32.add_zero] at hcur'
    rw [hcur', hu, hcur]
  · split_ifs
    · exact hu.trans (by rw [hcur])
    · rw [hu, hcur]

/-- At every level the counter goes on by the blocks that the entry stands for, whatever the disk
holds: also over subtrees that are missing or bad. -/
theorem covers_checkIndirectBlock (k : Nat) :
    Covers (checkIndirectBlock (k + 1)) (dbperidb ^ (k + 1)) := by
  -- the induction is on the level
  induction k with
  | zero => exact covers_of_loop fun t entries => covers_checkDirect.eachEntry dbperidb t 0 _ false
  | succ k ih =>
      refine covers_of_loop fun t entries => ?_
      rw [entryLoop, if_pos (by omega), Nat.pow_succ' (n := k + 1)]
      exact ih.eachEntry dbperidb t 0 _ false

/-- An indirect block of the first level. -/
theorem gives_checkIndirectBlock_one {ientry : UInt32} :
    Gives ok (checkIndirectBlock 1 ientry) (fun r t =>
      t.volblocks = s.volblocks ∧
      (¬ (0 < ientry ∧ ientry < s.volblocks) → r.1 = 0 ∧ t.seen = s.seen) ∧
      (0 < ientry → ientry < s.volblocks →
        t.seen = s.seen ++
          (List.range dbperidb).map (fun j => (s.curfileblock + .ofNat j, s.disk ientry j)) ∧
        (r.1 = 0 ∧ (∀ j < dbperidb, s.keep (s.curfileblock + .ofNat j) (s.disk ientry j) = 0) ∨
          r.1 = ientry ∧ ∀ j < dbperidb,
            t.disk ientry j = s.keep (s.curfileblock + .ofNat j) (s.disk ientry j)))) s := by
  refine gives_checkIndirectBlock (fun hbad t ht _ _ => ⟨ht.volblocks, fun _ => ⟨rfl, ?_⟩,
    fun hpos hlt => absurd ⟨hpos, hlt⟩ hbad⟩) fun hpos hlt t ht => ?_
  · rw [ht.seen, List.append_nil]
  have hcur := ht.1.curfileblock
  have hseen := ht.1.seen
  rw [UInt32.add_zero] at hcur
  rw [List.append_nil] at hseen
  have hin : 0 < ientry ∧ ientry < s.volblocks := ⟨hpos, hlt⟩
  rw [entryLoop, if_neg (by decide)]
  refine gives_mono (gives_eachEntry_checkDirect dbperidb) fun r u hru => ?_
  obtain ⟨hwalk, hdisk, hentries, -, hsame⟩ := hru
  simp only [Nat.zero_add, hcur, ht.1.keep] at hwalk hentries
  have hwalkSeen : u.seen = s.seen ++
      (List.range dbperidb).map (fun j => (s.curfileblock + .ofNat j, s.disk ientry j)) := by
    rw [hwalk.seen, hseen]
  have hvol : u.volblocks = s.volblocks := hwalk.volblocks.trans ht.1.volblocks
  refine ⟨fun hzero v hv => ?_, fun _ => ?_⟩
  · have hseen' := hv.1.seen
    rw [List.append_nil] at hseen'
    refine ⟨hv.1.volblocks.trans hvol, fun h => absurd hin h, fun _ _ => ⟨?_, .inl ⟨rfl, fun j hj => ?_⟩⟩⟩
    · rw [hseen', hwalkSeen]
    · rw [← hentries j hj, hzero j hj]
  · split_ifs with hchanged
    · refine ⟨hvol, fun h => absurd hin h, fun _ _ => ⟨hwalkSeen, .inr ⟨rfl, fun j hj => ?_⟩⟩⟩
      show Function.update u.disk ientry r.1 ientry j = _
      rw [Function.update_self, hentries j hj]
    · refine ⟨hvol, fun h => absurd hin h, fun _ _ => ⟨hwalkSeen, .inr ⟨rfl, fun j hj => ?_⟩⟩⟩
      obtain ⟨-, hsame'⟩ := hsame (by simpa using hchanged)
      rw [← hentries j hj, hsame', hdisk, ht.2]

end Walk

/-! ## The inode -/

section Inode

variable {ok : Abort → Prop} {s t : Check} {sfi sfi' : Dinode} {volblocks : UInt32} {isdir : Bool}

/-- The state at the beginning of the walk. -/
def Check.start (s : Check) (sfi : Dinode) (volblocks : UInt32) (isdir : Bool) : Check :=
  { s with
    curfileblock := 0
    fileblocks := roundup sfi.size / 512
    volblocks := volblocks
    pasteofcount := 0
    usagetype := if isdir then .dirdata else .data }

theorem bmap_direct (disk : UInt32 → Nat → UInt32) (sfi : Dinode) {f : Nat} (hf : f < numD) :
    bmap disk sfi f = sfi.direct f := if_pos hf

theorem bmap_indirect (disk : UInt32 → Nat → UInt32) (sfi : Dinode) {j : Nat} (hj : j < dbperidb) :
    bmap disk sfi (numD + j) = if sfi.indirect = 0 then 0 else disk sfi.indirect j := by
  have hmod : (numD + j - numD) % dbperidb = j := by
    rw [Nat.add_sub_cancel_left, Nat.mod_eq_of_lt hj]
  rw [bmap, if_neg (by omega), if_pos (by rw [numD, inomaxI]; rw [dbperidb] at hj; omega), ibmap,
    hmod]

/-- What the walk makes of the inode. -/
structure Walked (s : Check) (volblocks : UInt32) (isdir : Bool) (sfi sfi' : Dinode) (t : Check) :
    Prop where
  bmap : ∀ f < inomaxI, bmap t.disk sfi' f =
    (s.start sfi volblocks isdir).keep (.ofNat f) (s.pointer volblocks sfi f)
  indirect : sfi'.indirect ≠ 0 → sfi'.indirect < volblocks
  seen : t.seen = s.seen ++ (visited sfi volblocks).map fun f =>
    (UInt32.ofNat f, s.pointer volblocks sfi f)

theorem gives_checkInodeBlocks : Gives ok (checkInodeBlocks sfi volblocks isdir)
    (fun r t => Walked s volblocks isdir sfi r.1 t) s := by
  rw [checkInodeBlocks, gives_bind, gives_modify, gives_bind]
  refine gives_mono (gives_eachEntry_checkDirect numD) fun r t hrt => ?_
  obtain ⟨hwalk, hdisk, hdirect, -, -⟩ := hrt
  dsimp only
  rw [gives_bind]
  refine gives_mono gives_checkIndirectBlock_one fun r' u hru => ?_
  obtain ⟨-, hbad, hgood⟩ := hru
  have hkeep : t.keep = (s.start sfi volblocks isdir).keep := hwalk.keep
  have hvol : t.volblocks = volblocks := hwalk.volblocks
  have hcur : ∀ j, t.curfileblock + .ofNat j = .ofNat (numD + j) := fun j => by
    rw [hwalk.curfileblock, UInt32.zero_add, UInt32.ofNat_add]
  have hdisk' : t.disk = s.disk := hdisk
  rw [hvol, hdisk', hkeep] at hgood
  rw [hvol] at hbad
  simp only [hcur] at hgood
  suffices hrest : ∀ v, Stays u v →
      Walked s volblocks isdir sfi { sfi with direct := r.1, indirect := r'.1 } v by
    rw [gives_bind, gives_get, gives_ite]
    refine ⟨fun _ => ?_, fun _ => (gives_pure _).2 (hrest u (.refl u))⟩
    rw [gives_bind]
    refine gives_mono (gives_warnx _) fun _ v hv => ?_
    rw [gives_bind]
    refine gives_mono (gives_setbadness _) fun _ w hw => ?_
    exact (gives_pure _).2 (hrest w (hv.trans hw))
  intro v hv
  have hseen : v.seen = u.seen := by
    rw [hv.1.seen, List.append_nil]
  have hpointer : ∀ f < numD, s.pointer volblocks sfi f = sfi.direct f := fun f hf => by
    rw [Check.pointer, if_neg (by omega), bmap_direct _ _ hf]
  have hseen' : t.seen = s.seen ++
      (List.range numD).map fun f => (UInt32.ofNat f, s.pointer volblocks sfi f) := by
    rw [hwalk.seen]
    refine congrArg (s.seen ++ ·) (List.map_congr_left fun f hf => ?_)
    rw [hpointer f (List.mem_range.1 hf), Nat.zero_add]
    exact congrArg (·, sfi.direct f) (UInt32.zero_add _)
  have hgoodPointer : 0 < sfi.indirect → sfi.indirect < volblocks → ∀ j < dbperidb,
      s.pointer volblocks sfi (numD + j) = s.disk sfi.indirect j := fun hpos hlt j hj => by
    rw [Check.pointer, if_neg (fun h => UInt32.not_le.2 hlt h.2), bmap_indirect _ _ hj,
      if_neg (UInt32.pos_iff_ne_zero.1 hpos)]
  refine ⟨fun f hf => ?_, fun hne => ?_, ?_⟩
  · rcases Nat.lt_or_ge f numD with hlt | hge
    · have hentry := hdirect f hlt
      rw [Nat.zero_add] at hentry
      rw [bmap_direct _ _ hlt, hpointer f hlt]
      exact hentry.trans (congrArg (fun c => (s.start sfi volblocks isdir).keep c (sfi.direct f))
        (UInt32.zero_add _))
    · obtain ⟨j, rfl⟩ := Nat.exists_eq_add_of_le hge
      have hj : j < dbperidb := by
        rw [numD, inomaxI] at hf
        rw [dbperidb]
        omega
      rw [bmap_indirect _ _ hj, hv.2]
      by_cases hin : 0 < sfi.indirect ∧ sfi.indirect < volblocks
      · rw [hgoodPointer hin.1 hin.2 j hj]
        rcases (hgood hin.1 hin.2).2 with ⟨hr, hzero⟩ | ⟨hr, hkept⟩
        · rw [if_pos hr, hzero j hj]
        · rw [if_neg (by rw [hr]; exact UInt32.pos_iff_ne_zero.1 hin.1), ← hkept j hj]
          exact congrArg (fun p => u.disk p j) hr
      · have hnone : s.pointer volblocks sfi (numD + j) = 0 := by
          rw [Check.pointer]
          split_ifs with hout
          · rfl
          · have hzero : sfi.indirect = 0 := by
              by_contra hne
              refine hin ⟨UInt32.pos_iff_ne_zero.2 hne, UInt32.not_le.1 fun hle => ?_⟩
              exact hout ⟨hge, hle⟩
            rw [bmap_indirect _ _ hj, if_pos hzero]
        rw [if_pos (hbad hin).1, hnone, keep_zero]
  · by_cases hin : 0 < sfi.indirect ∧ sfi.indirect < volblocks
    · rcases (hgood hin.1 hin.2).2 with ⟨hr, -⟩ | ⟨hr, -⟩
      · exact absurd hr hne
      · exact lt_of_eq_of_lt hr hin.2
    · exact absurd (hbad hin).1 hne
  · rw [hseen, visited]
    split_ifs with hin
    · rw [(hgood hin.1 hin.2).1, hseen', List.append_assoc,
        show inomaxI = numD + dbperidb from rfl, List.range_add, List.map_append, List.map_map]
      congr 2
      refine List.map_congr_left fun j hj => ?_
      rw [Function.comp_apply, hgoodPointer hin.1 hin.2 j (List.mem_range.1 hj)]
    · rw [(hbad hin).2, hseen']

/-- `ibs.fileblocks`, with the addition in 32 bits. -/
theorem toNat_fileblocks (size : UInt32) :
    (roundup size / 512).toNat = (size.toNat + 511) % 2 ^ 32 / 512 := by
  have hsum : (size + 512 - 1).toNat = (size.toNat + 511) % 2 ^ 32 := by
    rw [UInt32.sub_eq_add_neg, UInt32.add_assoc, UInt32.toNat_add]
    rfl
  have h512 : (512 : UInt32).toNat = 512 := rfl
  rw [roundup, UInt32.toNat_div, UInt32.toNat_mul, UInt32.toNat_div, hsum, h512]
  omega

theorem fileblocks_of_le (h : sfi.size.toNat ≤ 2 ^ 32 - 512) :
    (roundup sfi.size / 512).toNat = sfi.blocks := by
  rw [toNat_fileblocks, Dinode.blocks]
  omega

theorem fileblocks_of_gt (h : ¬ sfi.size.toNat ≤ 2 ^ 32 - 512) : roundup sfi.size / 512 = 0 := by
  have hlt := sfi.size.toNat_lt
  apply UInt32.toNat_inj.1
  rw [toNat_fileblocks, UInt32.toNat_zero]
  omega

theorem bmap_of_le (disk : UInt32 → Nat → UInt32) (sfi : Dinode) {f : Nat} (hf : inomaxI ≤ f) :
    bmap disk sfi f = 0 := by
  rw [bmap, if_neg (by rw [inomaxI] at hf; rw [numD]; omega), if_neg (by omega)]

theorem pointer_of_le {f : Nat} (hf : inomaxI ≤ f) : s.pointer volblocks sfi f = 0 := by
  rw [Check.pointer, bmap_of_le _ _ hf, ite_self]

/-- The walk drops nothing and keeps nothing that it should not, unless the size is so large that
`SFS_ROUNDUP` wraps around and there is a block to drop. -/
theorem checkInodeBlocks_checked_iff (s : Check) (sfi : Dinode) (volblocks : UInt32)
    (isdir : Bool) :
    (∃ sfi' changed t, (checkInodeBlocks sfi volblocks isdir).result s = .ok (.ok (sfi', changed), t) ∧
      Checked s volblocks sfi sfi' t) ↔
      sfi.size.toNat ≤ 2 ^ 32 - 512 ∨
        ∀ f < inomaxI, s.pointer volblocks sfi f < volblocks → s.pointer volblocks sfi f = 0 := by
  have hwalk : Gives (fun _ => False) (checkInodeBlocks sfi volblocks isdir)
      (fun r t => Walked s volblocks isdir sfi r.1 t) s := gives_checkInodeBlocks
  obtain ⟨_, t, hresult, ⟨sfi', changed⟩, rfl, hwalked⟩ := wp.exists_result hwalk
  have htoNat : ∀ f < inomaxI, (UInt32.ofNat f).toNat = f := fun f hf => by
    rw [inomaxI] at hf
    rw [UInt32.toNat_ofNat', Nat.mod_eq_of_lt (by omega)]
  constructor
  · rintro ⟨sfi₂, changed₂, t₂, hresult₂, hchecked⟩
    cases hresult.symm.trans hresult₂
    by_contra hcond
    obtain ⟨hsize, hlive⟩ := not_or.1 hcond
    refine hlive fun f hf hlt => ?_
    have hblocks : f < sfi.blocks := by
      rw [inomaxI] at hf
      rw [Dinode.blocks]
      omega
    -- the size in blocks is 0
    have hpast : (s.start sfi volblocks isdir).fileblocks ≤ .ofNat f := by
      show roundup sfi.size / 512 ≤ _
      rw [fileblocks_of_gt hsize]
      exact UInt32.zero_le
    rw [← hchecked.kept f hblocks hlt, hwalked.bmap f hf, Check.keep_past hpast]
  · intro hsize
    have hkeep : ∀ f < inomaxI, bmap t.disk sfi' f ≠ 0 → bmap t.disk sfi' f < volblocks :=
      fun f hf hne => by
        rw [hwalked.bmap f hf] at hne ⊢
        exact Check.keep_lt hne
    refine ⟨sfi', changed, t, hresult, ?_⟩
    exact
      { direct := fun i hi hne => by
          rw [← bmap_direct t.disk sfi' hi] at hne ⊢
          exact hkeep i (Nat.lt_trans hi (by decide)) hne
        indirect := hwalked.indirect
        entries := fun hind i hi hne => by
          have hbmap := bmap_indirect t.disk sfi' hi
          rw [if_neg hind] at hbmap
          rw [← hbmap] at hne ⊢
          exact hkeep _ (Nat.add_lt_add_left hi numD) hne
        pastEof := fun f hf => by
          rcases Nat.lt_or_ge f inomaxI with hlt | hge
          · rw [hwalked.bmap f hlt]
            rcases hsize with hsize | hdead
            · refine Check.keep_past ?_ _
              rw [UInt32.le_iff_toNat_le, htoNat f hlt]
              exact Nat.le_trans (Nat.le_of_eq (fileblocks_of_le hsize)) hf
            · by_cases hin : s.pointer volblocks sfi f < volblocks
              · rw [hdead f hlt hin, keep_zero]
              · exact if_pos (UInt32.not_lt.1 hin)
          · exact bmap_of_le _ _ hge
        kept := fun f hf hlt => by
          rcases Nat.lt_or_ge f inomaxI with hlt' | hge
          · rw [hwalked.bmap f hlt']
            rcases hsize with hsize | hdead
            · refine Check.keep_live ?_ hlt
              rw [UInt32.lt_iff_toNat_lt, htoNat f hlt']
              exact Nat.lt_of_lt_of_eq hf (fileblocks_of_le hsize).symm
            · rw [hdead f hlt' hlt, keep_zero]
          · rw [bmap_of_le _ _ hge, pointer_of_le hge]
        seen := hwalked.seen }

end Inode

/-- A volume, before the walk. -/
def volume (disk : UInt32 → Nat → UInt32) : Check where
  curfileblock := 0
  fileblocks := 0
  volblocks := 0
  pasteofcount := 0
  usagetype := .data
  disk := disk
  inuse _ := false
  tofree _ := false
  blocksinuse := 0
  badness := 0
  warnings := []
  seen := []

/-- The size `4294966785` is rounded up to `0`: the blocks of the file are dropped. -/
theorem checkInodeBlocks_drops :
    ¬ ∃ sfi' changed t, (checkInodeBlocks ⟨4294966785, fun _ => 9, 0⟩ 100 false).result
        (volume fun _ _ => 0) = .ok (.ok (sfi', changed), t) ∧
      Checked (volume fun _ _ => 0) 100 ⟨4294966785, fun _ => 9, 0⟩ sfi' t := by
  rintro ⟨sfi', changed, t, hresult, hchecked⟩
  have hwalk : Gives (fun _ => True) (checkInodeBlocks ⟨4294966785, fun _ => 9, 0⟩ 100 false)
      (fun r t => Walked (volume fun _ _ => 0) 100 false _ r.1 t) (volume fun _ _ => 0) :=
    gives_checkInodeBlocks
  obtain ⟨r, hr, hwalked⟩ := hwalk.returns hresult
  cases hr
  have hkept := hchecked.kept 0 (by decide) (by decide +kernel)
  have hzero := hwalked.bmap 0 (by decide)
  rw [hkept] at hzero
  exact absurd hzero (by decide +kernel)

end Os161.Sfsck

import Mathlib.Algebra.Group.Int.Defs
import Mathlib.Algebra.Group.Nat.Defs
import Mathlib.Data.List.OfFn
import Mathlib.Data.Nat.Bits
import Mathlib.Data.Nat.Init
import Mathlib.Tactic.Common

set_option autoImplicit false

/-!
# The SFS on-disk format

`kern/include/kern/sfs.h`. A block is its 512 bytes. Numbers on the disk are big-endian, which is
how the MIPS processor reads them and what the `SWAP` macros of the userland tools make of them.
The records of the format are read out of a block and written into one: the superblock, an inode,
an indirect block, the free block bitmap, and a directory entry inside a directory block.
-/

namespace Os161.Sfs

/-- A disk block: `SFS_BLOCKSIZE` bytes. -/
abbrev Block : Type := Fin 512 → UInt8

/-- `daddr_t`: disk block numbers, which are inode numbers too. -/
abbrev Daddr : Type := UInt32

/-- `SFS_MAGIC`. -/
def magic : UInt32 := 0xabadf001

/-- `SFS_SUPER_BLOCK`. -/
def superBlock : Daddr := 0

/-- `SFS_FREEMAP_START`. -/
def freemapStart : Daddr := 2

/-- `SFS_NOINO`. -/
def noino : Daddr := 0

/-- `SFS_ROOTDIR_INO`. -/
def rootdirIno : Daddr := 1

/-- `SFS_TYPE_INVAL`, `SFS_TYPE_FILE`, `SFS_TYPE_DIR`. -/
def typeInval : UInt16 := 0
def typeFile : UInt16 := 1
def typeDir : UInt16 := 2

/-- `SFS_FREEMAPBITS`, in the 32-bit arithmetic of the macro. -/
def freemapbits (nblocks : UInt32) : UInt32 := (nblocks + 4096 - 1) / 4096 * 4096

/-- `SFS_FREEMAPBLOCKS`. -/
def freemapblocks (nblocks : UInt32) : UInt32 := freemapbits nblocks / 4096

/-! ## Bytes and words -/

/-- The four bytes from the start of `f`, as a number. -/
def be32 (f : Nat → UInt8) : UInt32 :=
  .ofNat ((f 0).toNat * 2 ^ 24 + (f 1).toNat * 2 ^ 16 + (f 2).toNat * 2 ^ 8 + (f 3).toNat)

/-- Byte `i` of a number. -/
def wordByte (w : UInt32) (i : Nat) : UInt8 := .ofNat (w.toNat / 2 ^ (8 * (3 - i)))

theorem be32_wordByte (w : UInt32) : be32 (wordByte w) = w := by
  have hw := w.toNat_lt
  apply UInt32.toNat_inj.1
  simp only [be32, wordByte, UInt8.toNat_ofNat', UInt32.toNat_ofNat']
  omega

/-- Byte `i` of a block. -/
def Block.byte (b : Block) (i : Nat) : UInt8 := if h : i < 512 then b ⟨i, h⟩ else 0

/-- The block with the given bytes. -/
def Block.ofBytes (f : Nat → UInt8) : Block := fun i => f i

theorem Block.byte_ofBytes (f : Nat → UInt8) {i : Nat} (hi : i < 512) :
    (Block.ofBytes f).byte i = f i := by
  simp [Block.byte, Block.ofBytes, hi]

theorem Block.ext_byte {b c : Block} (h : ∀ i < 512, b.byte i = c.byte i) : b = c := by
  funext i
  simpa [Block.byte] using h i i.isLt

/-- Word `k` of a block. -/
def Block.word (b : Block) (k : Nat) : UInt32 := be32 fun i => b.byte (4 * k + i)

/-- The block with the given words. -/
def Block.ofWords (w : Nat → UInt32) : Block := .ofBytes fun i => wordByte (w (i / 4)) (i % 4)

theorem Block.word_ofWords (w : Nat → UInt32) {k : Nat} (hk : k < 128) :
    (Block.ofWords w).word k = w k := by
  have hbyte : ∀ i < 4, (Block.ofWords w).byte (4 * k + i) = wordByte (w k) i := fun i hi => by
    rw [Block.ofWords, Block.byte_ofBytes _ (by omega)]
    congr 2 <;> omega
  refine Eq.trans ?_ (be32_wordByte (w k))
  simp only [Block.word, be32, hbyte 0, hbyte 1, hbyte 2, hbyte 3, Nat.reduceLT]

/-- A block of zeros. -/
def Block.zero : Block := fun _ => 0

@[simp] theorem Block.byte_zero (i : Nat) : Block.zero.byte i = 0 := by
  simp [Block.byte, Block.zero]

@[simp] theorem Block.word_zero (k : Nat) : Block.zero.word k = 0 := by
  simp [Block.word, be32]

/-- `memcpy` of some bytes into a block, from the offset `off` on. -/
def Block.splice (b : Block) (off : Nat) (bytes : List UInt8) : Block :=
  .ofBytes fun i => if off ≤ i ∧ i < off + bytes.length then bytes.getD (i - off) 0 else b.byte i

/-- `memcpy` of `len` bytes out of a block, from the offset `off` on. -/
def Block.slice (b : Block) (off len : Nat) : List UInt8 :=
  (List.range len).map fun i => b.byte (off + i)

theorem Block.byte_splice (b : Block) (off : Nat) (bytes : List UInt8) {i : Nat} (hi : i < 512) :
    (b.splice off bytes).byte i =
      if off ≤ i ∧ i < off + bytes.length then bytes.getD (i - off) 0 else b.byte i :=
  Block.byte_ofBytes _ hi

@[simp] theorem Block.length_slice (b : Block) (off len : Nat) : (b.slice off len).length = len := by
  simp [Block.slice]

theorem Block.getD_slice (b : Block) (off : Nat) {len i : Nat} (hi : i < len) :
    (b.slice off len).getD i 0 = b.byte (off + i) := by
  simp [Block.slice, List.getD_eq_getElem?_getD, hi]

/-- The bytes of a block. -/
def Block.bytes (b : Block) : List UInt8 := b.slice 0 512

/-- The block that some bytes fill. -/
def Block.ofList (l : List UInt8) : Block := .ofBytes fun i => l.getD i 0

theorem Block.ofList_bytes (b : Block) : Block.ofList b.bytes = b := by
  refine Block.ext_byte fun i hi => ?_
  rw [Block.ofList, Block.byte_ofBytes _ hi, Block.bytes, Block.getD_slice _ _ hi, Nat.zero_add]

/-- Bit `i` of a block of the free block bitmap. -/
def Block.bit (b : Block) (i : Nat) : Bool := (b.byte (i / 8)).toNat.testBit (i % 8)

/-- The block of the free block bitmap with the given bits. -/
def Block.ofBits (f : Nat → Bool) : Block :=
  .ofBytes fun i => .ofNat (Nat.ofBits fun j : Fin 8 => f (8 * i + j))

theorem Block.bit_ofBits (f : Nat → Bool) {i : Nat} (hi : i < 4096) :
    (Block.ofBits f).bit i = f i := by
  have hlt : Nat.ofBits (fun j : Fin 8 => f (8 * (i / 8) + j)) < 2 ^ 8 := Nat.ofBits_lt_two_pow _
  rw [Block.bit, Block.ofBits, Block.byte_ofBytes _ (by omega), UInt8.toNat_ofNat',
    Nat.mod_eq_of_lt hlt, Nat.testBit_ofBits_lt _ _ (by omega)]
  congr 1
  exact Nat.div_add_mod i 8

/-! ## Inodes and indirect blocks -/

/-- `struct sfs_dinode`. -/
@[ext] structure Dinode where
  size : UInt32
  type : UInt16
  linkcount : UInt16
  direct : Fin 15 → Daddr
  indirect : Daddr
  waste : Fin 110 → UInt32

/-- The inode in a block. -/
def Dinode.ofBlock (b : Block) : Dinode where
  size := b.word 0
  type := .ofNat ((b.word 1).toNat / 2 ^ 16)
  linkcount := .ofNat (b.word 1).toNat
  direct i := b.word (2 + i)
  indirect := b.word 17
  waste i := b.word (18 + i)

/-- The words of an inode. -/
def Dinode.word (d : Dinode) (k : Nat) : UInt32 :=
  if k = 0 then d.size
  else if k = 1 then .ofNat (d.type.toNat * 2 ^ 16 + d.linkcount.toNat)
  else if h : 2 ≤ k ∧ k < 17 then d.direct ⟨k - 2, by omega⟩
  else if k = 17 then d.indirect
  else if h : 18 ≤ k ∧ k < 128 then d.waste ⟨k - 18, by omega⟩
  else 0

/-- The block of an inode. -/
def Dinode.toBlock (d : Dinode) : Block := .ofWords d.word

theorem Dinode.ofBlock_toBlock (d : Dinode) : Dinode.ofBlock d.toBlock = d := by
  have htype := d.type.toNat_lt
  have hlink := d.linkcount.toNat_lt
  have hword : ∀ k < 128, d.toBlock.word k = d.word k := fun k hk => Block.word_ofWords _ hk
  have hone : (d.word 1).toNat = d.type.toNat * 2 ^ 16 + d.linkcount.toNat := by
    simp only [Dinode.word, Nat.one_ne_zero, if_false, if_true, UInt32.toNat_ofNat']
    omega
  ext1
  · exact hword 0 (by omega)
  · apply UInt16.toNat_inj.1
    simp only [Dinode.ofBlock, hword 1 (by omega), hone, UInt16.toNat_ofNat']
    omega
  · apply UInt16.toNat_inj.1
    simp only [Dinode.ofBlock, hword 1 (by omega), hone, UInt16.toNat_ofNat']
    omega
  · funext i
    refine (hword (2 + i) (by omega)).trans ?_
    have hi : 2 + (i : Nat) < 17 := by omega
    simp [Dinode.word, hi, show 2 + (i : Nat) ≠ 1 by omega]
  · exact hword 17 (by omega)
  · funext i
    refine (hword (18 + i) (by omega)).trans ?_
    have hi : 18 + (i : Nat) < 128 := by omega
    simp [Dinode.word, hi, show 18 + (i : Nat) ≠ 1 by omega,
      show ¬ 18 + (i : Nat) < 17 by omega, show 18 + (i : Nat) ≠ 17 by omega]

/-- `uint32_t idbuf[SFS_DBPERIDB]`. -/
abbrev Idbuf : Type := Fin 128 → Daddr

/-- The block numbers in an indirect block. -/
def Idbuf.ofBlock (b : Block) : Idbuf := fun i => b.word i

/-- The indirect block with the given block numbers. -/
def Idbuf.toBlock (a : Idbuf) : Block := .ofWords fun k => if h : k < 128 then a ⟨k, h⟩ else 0

theorem Idbuf.ofBlock_toBlock (a : Idbuf) : Idbuf.ofBlock a.toBlock = a := by
  funext i
  simp [Idbuf.ofBlock, Idbuf.toBlock, Block.word_ofWords _ i.isLt]

/-! ## Directory entries -/

/-- The characters of a C string in a field of 60 bytes, with the last byte taken for a zero. -/
def cstr (name : Fin 60 → UInt8) : List UInt8 :=
  ((List.finRange 60).map name |>.take 59).takeWhile (· ≠ 0)

/-- `struct sfs_direntry`. -/
structure Direntry where
  ino : Daddr
  name : Fin 60 → UInt8

/-- The directory entry in 64 bytes. -/
def Direntry.ofBytes (f : Nat → UInt8) : Direntry where
  ino := be32 f
  name i := f (4 + i)

/-- The 64 bytes of a directory entry. -/
def Direntry.bytes (d : Direntry) : List UInt8 :=
  (List.range 64).map fun i =>
    if h : 4 ≤ i ∧ i < 64 then d.name ⟨i - 4, by omega⟩ else wordByte d.ino i

theorem Direntry.ofBytes_bytes (d : Direntry) : Direntry.ofBytes (d.bytes.getD · 0) = d := by
  have hlow : ∀ i < 4, d.bytes.getD i 0 = wordByte d.ino i := fun i hi => by
    have h1 : i < 64 := by omega
    have h2 : ¬ 4 ≤ i := by omega
    simp [Direntry.bytes, List.getD_eq_getElem?_getD, h1, h2]
  have hino : be32 (d.bytes.getD · 0) = d.ino := by
    refine Eq.trans ?_ (be32_wordByte d.ino)
    simp only [be32, hlow 0, hlow 1, hlow 2, hlow 3, Nat.reduceLT]
  have hname : ∀ i : Fin 60, d.bytes.getD (4 + i) 0 = d.name i := fun i => by
    have h1 : 4 + (i : Nat) < 64 := by omega
    simp [Direntry.bytes, List.getD_eq_getElem?_getD, h1]
  cases d
  simp only [Direntry.ofBytes, Direntry.mk.injEq]
  exact ⟨hino, funext hname⟩

/-- Names as the callers pass them: C strings. -/
abbrev Name : Type := { l : List UInt8 // 0 ∉ l }

/-- `bzero` and `strcpy` of a name into an entry. -/
def strcpy (name : Name) : Fin 60 → UInt8 := fun i => name.1.getD i 0

end Os161.Sfs

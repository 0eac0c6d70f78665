import Mathlib.Tactic.IntervalCases
import Os161.Lib.Bytes

set_option autoImplicit false

/-!
# Byte swapping

`kern/lib/bswap.c`. Two of the eight terms of `bswap64` shift to the left what belongs on the right:
byte 4 comes to the place of byte 2, and byte 5 is lost.
-/

namespace Os161.Kernlib

open Os161.Lib.Bytes

/-- `bswap16`. -/
def bswap16 (val : UInt16) : UInt16 := ((val &&& 0x00ff) <<< 8) ||| ((val &&& 0xff00) >>> 8)

/-- `bswap32`. -/
def bswap32 (val : UInt32) : UInt32 :=
  ((val &&& 0x000000ff) <<< 24) ||| ((val &&& 0x0000ff00) <<< 8) |||
    ((val &&& 0x00ff0000) >>> 8) ||| ((val &&& 0xff000000) >>> 24)

/-- `bswap64`. -/
def bswap64 (val : UInt64) : UInt64 :=
  ((val &&& 0x00000000000000ff) <<< 56) ||| ((val &&& 0x000000000000ff00) <<< 40) |||
    ((val &&& 0x0000000000ff0000) <<< 24) ||| ((val &&& 0x00000000ff000000) <<< 8) |||
    ((val &&& 0x000000ff00000000) <<< 8) ||| ((val &&& 0x0000ff0000000000) <<< 24) |||
    ((val &&& 0x00ff000000000000) >>> 40) ||| ((val &&& 0xff00000000000000) >>> 56)

/-- `_BYTE_ORDER`. -/
inductive ByteOrder where
  | little
  | big
  deriving DecidableEq, Repr

/-- `ntohs`, and `htons` too. -/
def ntohs : ByteOrder → UInt16 → UInt16
  | .little, val => bswap16 val
  | .big, val => val

/-- `ntohl`, and `htonl` too. -/
def ntohl : ByteOrder → UInt32 → UInt32
  | .little, val => bswap32 val
  | .big, val => val

/-- `ntohll`, and `htonll` too. -/
def ntohll : ByteOrder → UInt64 → UInt64
  | .little, val => bswap64 val
  | .big, val => val

/-- `join32to64`. -/
def join32to64 : ByteOrder → UInt32 → UInt32 → UInt64
  | .big, x1, x2 => (x1.toUInt64 <<< 32) ||| x2.toUInt64
  | .little, x1, x2 => x1.toUInt64 ||| (x2.toUInt64 <<< 32)

/-- `split64to32`. -/
def split64to32 : ByteOrder → UInt64 → UInt32 × UInt32
  | .big, x => ((x >>> 32).toUInt32, (x &&& 0xffffffff).toUInt32)
  | .little, x => ((x &&& 0xffffffff).toUInt32, (x >>> 32).toUInt32)

/-! ## Bytes -/

variable {u : UInt16} {w : UInt32} {v : UInt64} {i : Nat}

theorem toNat_bswap16 : (bswap16 u).toNat = moveLeft 2 u.toNat 0 1 ||| moveRight u.toNat 1 1 := by
  rw [bswap16, UInt16.toNat_or, UInt16.toNat_shiftLeft, UInt16.toNat_shiftRight, UInt16.toNat_and,
    UInt16.toNat_and]
  rfl

theorem toNat_bswap32 : (bswap32 w).toNat = moveLeft 4 w.toNat 0 3 ||| moveLeft 4 w.toNat 1 1 |||
    moveRight w.toNat 2 1 ||| moveRight w.toNat 3 3 := by
  simp only [bswap32, UInt32.toNat_or, UInt32.toNat_shiftLeft, UInt32.toNat_shiftRight,
    UInt32.toNat_and]
  rfl

theorem toNat_bswap64 : (bswap64 v).toNat = moveLeft 8 v.toNat 0 7 ||| moveLeft 8 v.toNat 1 5 |||
    moveLeft 8 v.toNat 2 3 ||| moveLeft 8 v.toNat 3 1 ||| moveLeft 8 v.toNat 4 1 |||
    moveLeft 8 v.toNat 5 3 ||| moveRight v.toNat 6 5 ||| moveRight v.toNat 7 7 := by
  simp only [bswap64, UInt64.toNat_or, UInt64.toNat_shiftLeft, UInt64.toNat_shiftRight,
    UInt64.toNat_and]
  rfl

theorem byte_bswap16 (hi : i < 2) : byte (bswap16 u).toNat i = byte u.toNat (1 - i) := by
  rw [toNat_bswap16]
  interval_cases i <;> simp

theorem byte_bswap32 (hi : i < 4) : byte (bswap32 w).toNat i = byte w.toNat (3 - i) := by
  rw [toNat_bswap32]
  interval_cases i <;> simp

/-- Where the bytes of `bswap64` come from. -/
theorem byte_bswap64 (hi : i < 8) : byte (bswap64 v).toNat i =
    if i = 2 ∨ i = 3 then 0
    else if i = 5 then byte v.toNat 2 ||| byte v.toNat 4
    else byte v.toNat (7 - i) := by
  rw [toNat_bswap64]
  interval_cases i <;> simp

/-! ## Halves -/

/-- `join32to64` makes a number of the high and the low half. -/
theorem toNat_paste (x y : UInt32) :
    ((x.toUInt64 <<< 32) ||| y.toUInt64).toNat = 2 ^ 32 * x.toNat + y.toNat := by
  have hx := x.toNat_lt
  rw [UInt64.toNat_or, UInt64.toNat_shiftLeft, UInt32.toNat_toUInt64, UInt32.toNat_toUInt64,
    show (32 : UInt64).toNat % 64 = 32 from rfl, Nat.shiftLeft_eq, Nat.mod_eq_of_lt (by omega),
    Nat.mul_comm, ← Nat.two_pow_add_eq_or_of_lt y.toNat_lt]

theorem toNat_high : (v >>> 32).toUInt32.toNat = v.toNat / 2 ^ 32 := by
  have hv := v.toNat_lt
  rw [UInt64.toNat_toUInt32, UInt64.toNat_shiftRight, show (32 : UInt64).toNat % 64 = 32 from rfl,
    Nat.shiftRight_eq_div_pow, Nat.mod_eq_of_lt (by omega)]

theorem toNat_low : (v &&& 0xffffffff).toUInt32.toNat = v.toNat % 2 ^ 32 := by
  rw [UInt64.toNat_toUInt32, UInt64.toNat_and, show (0xffffffff : UInt64).toNat = 2 ^ 32 - 1 from rfl,
    Nat.and_two_pow_sub_one_eq_mod, Nat.mod_mod]

theorem join_split (order : ByteOrder) (v : UInt64) :
    join32to64 order (split64to32 order v).1 (split64to32 order v).2 = v := by
  have hpaste : ((v >>> 32).toUInt32.toUInt64 <<< 32) ||| (v &&& 0xffffffff).toUInt32.toUInt64 = v := by
    rw [← UInt64.toNat_inj, toNat_paste, toNat_high, toNat_low]
    exact Nat.div_add_mod v.toNat (2 ^ 32)
  cases order with
  | big => exact hpaste
  | little => exact (UInt64.or_comm _ _).trans hpaste

theorem split_join (order : ByteOrder) (x1 x2 : UInt32) :
    split64to32 order (join32to64 order x1 x2) = (x1, x2) := by
  have hpaste : ∀ x y : UInt32, (((x.toUInt64 <<< 32) ||| y.toUInt64) >>> 32).toUInt32 = x ∧
      (((x.toUInt64 <<< 32) ||| y.toUInt64) &&& 0xffffffff).toUInt32 = y := by
    intro x y
    have hx := x.toNat_lt
    have hy := y.toNat_lt
    rw [← UInt32.toNat_inj, ← UInt32.toNat_inj, toNat_high, toNat_low, toNat_paste]
    omega
  cases order with
  | big => exact Prod.ext (hpaste x1 x2).1 (hpaste x1 x2).2
  | little =>
      rw [join32to64, UInt64.or_comm]
      exact Prod.ext (hpaste x2 x1).2 (hpaste x2 x1).1

/-- The two halves of `val`, swapped and exchanged. -/
def swapHalves (val : UInt64) : UInt64 :=
  ((bswap32 val.toUInt32).toUInt64 <<< 32) ||| (bswap32 (val >>> 32).toUInt32).toUInt64

theorem byte_swapHalves (hi : i < 8) : byte (swapHalves v).toNat i = byte v.toNat (7 - i) := by
  have hlow : v.toUInt32.toNat = v.toNat % 2 ^ (8 * 4) := UInt64.toNat_toUInt32 v
  have hhigh : (v >>> 32).toUInt32.toNat = v.toNat >>> (8 * 4) :=
    toNat_high.trans (Nat.shiftRight_eq_div_pow ..).symm
  rw [swapHalves, toNat_paste, Nat.two_pow_add_eq_or_of_lt (UInt32.toNat_lt _), Nat.mul_comm,
    ← Nat.shiftLeft_eq, byte_or, show 32 = 8 * 4 from rfl, byte_shiftLeft]
  split_ifs with hhalf
  · rw [byte_bswap32 (by omega), hlow, byte_mod, if_pos (by omega),
      byte_of_lt (w := 4) (UInt32.toNat_lt _) hhalf, Nat.or_zero]
    congr 1
    omega
  · rw [byte_bswap32 (by omega), hhigh, byte_shiftRight, Nat.zero_or]
    congr 1
    omega

/-! ## Which values are swapped -/

/-- The byte order is reversed: `swap` is the value of `val` with its `n` bytes in reverse order. -/
def Reverses (n val swap : Nat) : Prop := ∀ i < n, byte swap i = byte val (n - 1 - i)

theorem reverses16 (u : UInt16) : Reverses 2 u.toNat (bswap16 u).toNat := fun _ => byte_bswap16

theorem reverses32 (w : UInt32) : Reverses 4 w.toNat (bswap32 w).toNat := fun _ => byte_bswap32

/-- `bswap64` is right when bytes 4 and 5 are zero. -/
theorem reverses64_iff (v : UInt64) : Reverses 8 v.toNat (bswap64 v).toNat ↔
    byte v.toNat 4 = 0 ∧ byte v.toNat 5 = 0 := by
  constructor
  · intro h
    have h3 := h 3 (by decide)
    have h2 := h 2 (by decide)
    rw [byte_bswap64 (by decide)] at h3 h2
    exact ⟨h3.symm, h2.symm⟩
  · rintro ⟨h4, h5⟩ i hi
    rw [byte_bswap64 hi]
    split_ifs with hmid hfive
    · rcases hmid with rfl | rfl
      · exact h5.symm
      · exact h4.symm
    · subst hfive
      rw [h4, Nat.or_zero]
    · rfl

/-- Numbers that are reversed twice come back. -/
theorem eq_of_reverses {n val swap back : Nat} (hval : val < 2 ^ (8 * n)) (hback : back < 2 ^ (8 * n))
    (h : Reverses n val swap) (h' : Reverses n swap back) : back = val := by
  refine ext_byte hback hval fun i hi => ?_
  rw [h' i hi, h _ (by omega)]
  congr 1
  omega

theorem bswap16_bswap16 (u : UInt16) : bswap16 (bswap16 u) = u :=
  UInt16.toNat_inj.1 (eq_of_reverses (n := 2) u.toNat_lt (UInt16.toNat_lt _) (reverses16 u)
    (reverses16 _))

theorem bswap32_bswap32 (w : UInt32) : bswap32 (bswap32 w) = w :=
  UInt32.toNat_inj.1 (eq_of_reverses (n := 4) w.toNat_lt (UInt32.toNat_lt _) (reverses32 w)
    (reverses32 _))

/-- A value that `bswap64` swaps back has zeros in the middle. -/
theorem bswap64_bswap64_iff (v : UInt64) : bswap64 (bswap64 v) = v ↔
    ∀ i, 2 ≤ i → i < 6 → byte v.toNat i = 0 := by
  constructor
  · intro h
    have hback : ∀ i, i < 8 → byte (bswap64 (bswap64 v)).toNat i = byte v.toNat i := by
      intro i _
      rw [h]
    have h2 : byte v.toNat 2 = 0 := by rw [← hback 2 (by decide), byte_bswap64 (by decide)]; rfl
    have h3 : byte v.toNat 3 = 0 := by rw [← hback 3 (by decide), byte_bswap64 (by decide)]; rfl
    have h4 : byte v.toNat 4 = byte (bswap64 v).toNat 3 := by
      rw [← hback 4 (by decide), byte_bswap64 (by decide)]
      rfl
    have h5 : byte v.toNat 5 = byte (bswap64 v).toNat 2 ||| byte (bswap64 v).toNat 4 := by
      rw [← hback 5 (by decide), byte_bswap64 (by decide)]
      rfl
    rw [byte_bswap64 (by decide)] at h4
    rw [byte_bswap64 (by decide), byte_bswap64 (by decide)] at h5
    intro i hlow hhigh
    interval_cases i
    · exact h2
    · exact h3
    · exact h4
    · exact h5.trans ((Nat.zero_or _).trans h3)
  · intro h
    have hfirst := (reverses64_iff v).2 ⟨h 4 (by decide) (by decide), h 5 (by decide) (by decide)⟩
    have hsecond : Reverses 8 (bswap64 v).toNat (bswap64 (bswap64 v)).toNat := by
      refine (reverses64_iff _).2 ⟨?_, ?_⟩
      · rw [hfirst 4 (by decide)]
        exact h 3 (by decide) (by decide)
      · rw [hfirst 5 (by decide)]
        exact h 2 (by decide) (by decide)
    exact UInt64.toNat_inj.1
      (eq_of_reverses (n := 8) v.toNat_lt (UInt64.toNat_lt _) hfirst hsecond)

theorem bswap64_eq_swapHalves_iff (v : UInt64) : bswap64 v = swapHalves v ↔
    Reverses 8 v.toNat (bswap64 v).toNat := by
  constructor
  · intro h i hi
    rw [h]
    exact byte_swapHalves hi
  · intro h
    refine UInt64.toNat_inj.1 (ext_byte (w := 8) (UInt64.toNat_lt _) (UInt64.toNat_lt _) ?_)
    intro i hi
    rw [h i hi, byte_swapHalves hi]

theorem middle_iff (v : UInt64) : v &&& 0x0000ffffffff0000 = 0 ↔
    ∀ i, 2 ≤ i → i < 6 → byte v.toNat i = 0 := by
  have hmask : (0x0000ffffffff0000 : UInt64).toNat = (2 ^ (8 * 4) - 1) <<< (8 * 2) := rfl
  have hbyte : ∀ i < 8, byte (v &&& 0x0000ffffffff0000).toNat i =
      if 2 ≤ i ∧ i < 6 then byte v.toNat i else 0 := by
    intro i hi
    rw [UInt64.toNat_and, byte_and]
    interval_cases i <;> first | exact byte_and_ones | exact Nat.and_zero _
  constructor
  · intro h i h2 h6
    have hi := hbyte i (by omega)
    rw [h, if_pos ⟨h2, h6⟩] at hi
    exact hi.symm.trans byte_zero
  · intro h
    refine UInt64.toNat_inj.1 (ext_byte (w := 8) (UInt64.toNat_lt _) (UInt64.toNat_lt _) ?_)
    intro i hi
    rw [hbyte i hi]
    split_ifs with hin
    · rw [h i hin.1 hin.2]
      exact byte_zero.symm
    · exact byte_zero.symm

/-! ## What is promised -/

/-- What the functions promise for a value of each width. -/
structure SwapsBytes (u : UInt16) (w : UInt32) (v : UInt64) : Prop where
  reverses16 : Reverses 2 u.toNat (bswap16 u).toNat
  reverses32 : Reverses 4 w.toNat (bswap32 w).toNat
  reverses64 : Reverses 8 v.toNat (bswap64 v).toNat
  inverse16 : bswap16 (bswap16 u) = u
  inverse32 : bswap32 (bswap32 w) = w
  inverse64 : bswap64 (bswap64 v) = v
  halves : bswap64 v = swapHalves v
  ntohs : ∀ order, ntohs order (ntohs order u) = u
  ntohl : ∀ order, ntohl order (ntohl order w) = w
  ntohll : ∀ order, ntohll order (ntohll order v) = v
  joined : ∀ order, join32to64 order (split64to32 order v).1 (split64to32 order v).2 = v
  split : ∀ order x1 x2, split64to32 order (join32to64 order x1 x2) = (x1, x2)

/-- The promises are kept exactly when the four bytes in the middle of the 64-bit value are zero. -/
theorem swapsBytes_iff (u : UInt16) (w : UInt32) (v : UInt64) :
    SwapsBytes u w v ↔ v &&& 0x0000ffffffff0000 = 0 := by
  rw [middle_iff]
  constructor
  · intro h
    exact (bswap64_bswap64_iff v).1 h.inverse64
  · intro h
    have hrev : Reverses 8 v.toNat (bswap64 v).toNat :=
      (reverses64_iff v).2 ⟨h 4 (by decide) (by decide), h 5 (by decide) (by decide)⟩
    have hinv := (bswap64_bswap64_iff v).2 h
    exact
      { reverses16 := reverses16 u, reverses32 := reverses32 w, reverses64 := hrev
        inverse16 := bswap16_bswap16 u, inverse32 := bswap32_bswap32 w, inverse64 := hinv
        halves := (bswap64_eq_swapHalves_iff v).2 hrev
        ntohs := fun order => by
          cases order with
          | little => exact bswap16_bswap16 u
          | big => rfl
        ntohl := fun order => by
          cases order with
          | little => exact bswap32_bswap32 w
          | big => rfl
        ntohll := fun order => by
          cases order with
          | little => exact hinv
          | big => rfl
        joined := fun order => join_split order v
        split := split_join }

/-- Byte 4 comes to the wrong place. -/
theorem bswap64_wrong : bswap64 0x0000000100000000 = 0x0000010000000000 ∧
    ¬ SwapsBytes 0 0 0x0000000100000000 := by
  have hswap : bswap64 0x0000000100000000 = 0x0000010000000000 := by decide
  refine ⟨hswap, fun h => ?_⟩
  have hback := h.inverse64
  rw [hswap] at hback
  exact absurd hback (by decide)

end Os161.Kernlib

import Os161.Lib.Bits
import Os161.Lib.Calls
import Os161.Lib.Runs
import Os161.Sfs.Volume

set_option autoImplicit false

/-!
# Fixed-size arrays of bits

`kern/lib/bitmap.c`: bits in bytes, with those behind the end of the last byte marked in use. The
number of bytes comes from `DIVROUNDUP`, whose sum overflows for the last seven sizes: such a bitmap
has no bytes at all.
-/

namespace Os161.Kernlib

open Os161.Lib.Bits
open Os161.Lib.Calls
open Os161.Lib.Runs

/-- `struct bitmap`. -/
@[ext] structure Bitmap where
  nbits : UInt32
  v : List UInt8

namespace Bitmap

inductive Errno where
  | ENOSPC
  deriving DecidableEq

inductive Panic where
  /-- A failed `KASSERT`. -/
  | kassert
  /-- An access outside of `v`. -/
  | outside
  deriving DecidableEq

abbrev BitmapCall (α : Type) : Type := Call Bitmap Panic Errno α

/-- `DIVROUNDUP(nbits, BITS_PER_WORD)`. -/
def words (nbits : UInt32) : UInt32 := (nbits + 8 - 1) / 8

/-- Mark the leftover bits of the last word in use. -/
def markRest (v : List UInt8) (ix overbits : Nat) : List UInt8 :=
  (List.range' overbits (8 - overbits)).foldl (fun v j => v.modify ix (· ||| mask j)) v

/-- `bitmap_create`; the arguments say which of the two calls of `kmalloc` succeed. -/
def create (kmalloc kmalloc' : Bool) (nbits : UInt32) : Except Panic (Option Bitmap) :=
  let words := words nbits
  if !kmalloc then .ok none
  else if !kmalloc' then .ok none
  else
    let v := List.replicate words.toNat 0
    if nbits / 8 < words then
      let ix := words - 1
      let overbits := nbits - ix * 8
      if nbits / 8 ≠ words - 1 then .error .kassert
      else if ¬ (0 < overbits ∧ overbits < 8) then .error .kassert
      else .ok (some { nbits := nbits, v := markRest v ix.toNat overbits.toNat })
    else .ok (some { nbits := nbits, v := v })

/-- `b->v[ix]`. -/
def readWord (ix : Nat) : BitmapCall UInt8 := do
  let b ← get
  match b.v[ix]? with
  | none => halt .outside
  | some w => pure w

/-- `b->v[ix] = w`. -/
def writeWord (ix : Nat) (w : UInt8) : BitmapCall Unit := do
  let b ← get
  if ix < b.v.length then set { b with v := b.v.set ix w } else halt .outside

/-- The loop of `bitmap_alloc` over the words from `ix` on, of which there are `left`. -/
def allocFrom : Nat → Nat → BitmapCall UInt32
  | 0, _ => throw .ENOSPC
  | left + 1, ix => do
      let w ← readWord ix
      if w ≠ 0xff then
        match (List.range 8).find? fun offset => w &&& mask offset = 0 with
        | none => halt .kassert
        | some offset => do
            writeWord ix (w ||| mask offset)
            let index : UInt32 := .ofNat (ix * 8 + offset)
            let b ← get
            if index < b.nbits then pure index else halt .kassert
      else allocFrom left (ix + 1)

/-- `bitmap_alloc`. -/
def alloc : BitmapCall UInt32 := do
  let b ← get
  allocFrom (words b.nbits).toNat 0

/-- `bitmap_mark`. -/
def mark (index : UInt32) : BitmapCall Unit := do
  let b ← get
  if index < b.nbits then
    let w ← readWord (index.toNat / 8)
    if w &&& mask (index.toNat % 8) = 0 then
      writeWord (index.toNat / 8) (w ||| mask (index.toNat % 8))
    else halt .kassert
  else halt .kassert

/-- `bitmap_unmark`. -/
def unmark (index : UInt32) : BitmapCall Unit := do
  let b ← get
  if index < b.nbits then
    let w ← readWord (index.toNat / 8)
    if w &&& mask (index.toNat % 8) ≠ 0 then
      writeWord (index.toNat / 8) (w &&& ~~~mask (index.toNat % 8))
    else halt .kassert
  else halt .kassert

/-- `bitmap_isset`. -/
def isset (index : UInt32) : BitmapCall Bool := do
  let w ← readWord (index.toNat / 8)
  pure (w &&& mask (index.toNat % 8) ≠ 0)

/-! ## What is promised -/

/-- Bit `i`. -/
def bit (b : Bitmap) (i : Nat) : Bool := (b.v.getD (i / 8) 0).toNat.testBit (i % 8)

/-- The calls. -/
inductive Op where
  | alloc
  | mark (index : UInt32)
  | unmark (index : UInt32)
  | isset (index : UInt32)

/-- What a call gives back. -/
inductive Result where
  | done
  | index (i : UInt32)
  | set (isset : Bool)

def Op.call : Op → BitmapCall Result
  | alloc => return .index (← Bitmap.alloc)
  | mark index => do Bitmap.mark index; return .done
  | unmark index => do Bitmap.unmark index; return .done
  | isset index => return .set (← Bitmap.isset index)

/-- The preconditions: what `bitmap_mark` and `bitmap_unmark` assert. -/
def Op.Pre (b : Bitmap) : Op → Prop
  | alloc => True
  | mark index => index < b.nbits ∧ b.bit index.toNat = false
  | unmark index => index < b.nbits ∧ b.bit index.toNat = true
  | isset index => index < b.nbits

/-- The bitmap `t` has the bits of `b`, but for the bit `index`. -/
def Sets (b : Bitmap) (index : UInt32) (x : Bool) (t : Bitmap) : Prop :=
  t.nbits = b.nbits ∧ t.v.length = b.v.length ∧
    ∀ i, t.bit i = if i = index.toNat then x else b.bit i

/-- What a call does. -/
def Op.Does (b : Bitmap) : Op → Except Errno Result → Bitmap → Prop
  | alloc, .ok (.index index), t => index < b.nbits ∧ b.bit index.toNat = false ∧
      (∀ i < index.toNat, b.bit i = true) ∧ Sets b index true t
  | alloc, .error .ENOSPC, t => (∀ i < b.nbits.toNat, b.bit i = true) ∧ t = b
  | mark index, .ok .done, t => Sets b index true t
  | unmark index, .ok .done, t => Sets b index false t
  | isset index, .ok (.set x), t => x = b.bit index.toNat ∧ t = b
  | _, _, _ => False

/-- The bits behind the last one are set. -/
def Padded (b : Bitmap) : Prop := ∀ i, b.nbits.toNat ≤ i → i < 8 * b.v.length → b.bit i = true

/-- One call, with its preconditions. -/
def Step (b : Bitmap) (op : Op) (t : Bitmap) : Prop := ∃ r, op.call.result b = .ok (r, t)

/-- For bitmaps of `nbits` bits: `bitmap_create` does not panic and makes a bitmap without bits set;
and in every state that is reached the padding is set and every call does what it should. -/
def Works (nbits : UInt32) : Prop :=
  (∀ k k', ∃ r, create k k' nbits = .ok r) ∧
    ∀ b, create true true nbits = .ok (some b) → (∀ i < nbits.toNat, b.bit i = false) ∧
      ∀ s, Reach Step Op.Pre b s → s.nbits = nbits ∧ s.Padded ∧
        ∀ op : Op, op.Pre s → ∃ r t, op.call.result s = .ok (r, t) ∧ op.Does s r t

/-! ## The calls, one by one -/

variable {ok : Panic → Prop} {b s t : Bitmap} {ix left i : Nat} {w w' : UInt8} {x : Bool}
  {index nbits : UInt32}

theorem wp_readWord (h : ix < b.v.length) {Q : Except Errno UInt8 → Bitmap → Prop} :
    wp ok (readWord ix) Q b ↔ Q (.ok (b.v.getD ix 0)) b := by
  have hget : b.v[ix]? = some (b.v.getD ix 0) := by
    rw [List.getD_eq_getElem?_getD, List.getElem?_eq_getElem h, Option.getD_some]
  simp only [readWord, wp_bind, wp_get, then_ok, hget, wp_pure]

theorem wp_writeWord (h : ix < b.v.length) {Q : Except Errno Unit → Bitmap → Prop} :
    wp ok (writeWord ix w) Q b ↔ Q (.ok ()) { b with v := b.v.set ix w } := by
  simp only [writeWord, wp_bind, wp_get, then_ok, wp_ite, wp_set, wp_halt, h, not_true_eq_false,
    false_implies, and_true, true_implies]

/-- A word in which one bit has changed is written. -/
theorem sets_set (hlen : index.toNat / 8 < b.v.length)
    (hw : ∀ j < 8, w.toNat.testBit j =
      if j = index.toNat % 8 then x else (b.v.getD (index.toNat / 8) 0).toNat.testBit j) :
    Sets b index x { b with v := b.v.set (index.toNat / 8) w } := by
  refine ⟨rfl, List.length_set, fun i => ?_⟩
  have hmod : i % 8 < 8 := Nat.mod_lt i (by decide)
  rw [bit, bit]
  by_cases hword : i / 8 = index.toNat / 8
  · have hsame : i = index.toNat ↔ i % 8 = index.toNat % 8 := by omega
    rw [hword, List.getD_eq_getElem?_getD, List.getElem?_set_self hlen, Option.getD_some, hw _ hmod]
    exact if_congr hsame.symm rfl rfl
  · have hne : i ≠ index.toNat := fun heq => hword (congrArg (· / 8) heq)
    rw [if_neg hne, List.getD_eq_getElem?_getD, List.getElem?_set_ne (Ne.symm hword),
      ← List.getD_eq_getElem?_getD]

/-- A bitmap with all its words, and with the padding set. -/
structure Good (nbits : UInt32) (b : Bitmap) : Prop where
  nbits_eq : b.nbits = nbits
  length : b.v.length = (nbits.toNat + 7) / 8
  padded : b.Padded

theorem Good.sets (h : Good nbits b) (ht : Sets b index x t) (hindex : index < nbits) :
    Good nbits t := by
  obtain ⟨hn, hl, hbit⟩ := ht
  refine ⟨hn.trans h.nbits_eq, hl.trans h.length, fun i hge hlt => ?_⟩
  rw [hn, h.nbits_eq] at hge
  rw [hl] at hlt
  have hne : i ≠ index.toNat := by
    have := UInt32.lt_iff_toNat_lt.1 hindex
    omega
  rw [hbit, if_neg hne]
  exact h.padded i (by rwa [h.nbits_eq]) hlt

theorem Good.word_lt (h : Good nbits b) (hindex : index < nbits) :
    index.toNat / 8 < b.v.length := by
  rw [h.length]
  have := UInt32.lt_iff_toNat_lt.1 hindex
  omega

theorem Good.wp_mark (h : Good nbits b) (hpre : Op.Pre b (.mark index)) :
    wp ok (mark index) (fun r t => r = .ok () ∧ Sets b index true t) b := by
  obtain ⟨hlt, hclear⟩ := hpre
  have hword := h.word_lt (h.nbits_eq ▸ hlt)
  have ho : index.toNat % 8 < 8 := Nat.mod_lt _ (by decide)
  simp only [mark, wp_bind, wp_get, then_ok, if_pos hlt, wp_readWord hword]
  rw [if_pos ((and_mask_eq_zero ho).2 hclear), wp_writeWord hword]
  exact ⟨rfl, sets_set hword fun j _ => testBit_or_mask ho⟩

theorem Good.wp_unmark (h : Good nbits b) (hpre : Op.Pre b (.unmark index)) :
    wp ok (unmark index) (fun r t => r = .ok () ∧ Sets b index false t) b := by
  obtain ⟨hlt, hset⟩ := hpre
  have hword := h.word_lt (h.nbits_eq ▸ hlt)
  have ho : index.toNat % 8 < 8 := Nat.mod_lt _ (by decide)
  have hne : b.v.getD (index.toNat / 8) 0 &&& mask (index.toNat % 8) ≠ 0 := by
    intro heq
    rw [bit, (and_mask_eq_zero ho).1 heq] at hset
    cases hset
  simp only [unmark, wp_bind, wp_get, then_ok, if_pos hlt, wp_readWord hword]
  rw [if_pos hne, wp_writeWord hword]
  exact ⟨rfl, sets_set hword fun j hj => testBit_and_not_mask ho hj⟩

theorem Good.wp_isset (h : Good nbits b) (hindex : index < nbits) :
    wp ok (isset index) (fun r t => r = .ok (b.bit index.toNat) ∧ t = b) b := by
  have ho : index.toNat % 8 < 8 := Nat.mod_lt _ (by decide)
  simp only [isset, wp_bind, wp_readWord (h.word_lt hindex), then_ok, wp_pure, and_true]
  refine congrArg Except.ok ?_
  rw [bit, Bool.eq_iff_iff, decide_eq_true_iff, ne_eq, and_mask_eq_zero ho, Bool.not_eq_false]

/-- The scan of `bitmap_alloc` at a word that is not full, when all words before it are. -/
theorem Good.wp_take (h : Good nbits b) (hnbits : nbits.toNat + 7 < 2 ^ 32) (hix : ix < b.v.length)
    (hfull : ∀ i < 8 * ix, b.bit i = true) (hne : b.v.getD ix 0 ≠ 0xff) :
    wp ok (do
      match (List.range 8).find? fun offset => b.v.getD ix 0 &&& mask offset = 0 with
      | none => halt .kassert
      | some offset => do
          writeWord ix (b.v.getD ix 0 ||| mask offset)
          let index : UInt32 := .ofNat (ix * 8 + offset)
          let b ← get
          if index < b.nbits then pure index else halt .kassert)
      (fun r t => Op.Does b .alloc (r.map .index) t) b := by
  have hlen := h.length
  cases hfind : (List.range 8).find? fun offset => b.v.getD ix 0 &&& mask offset = 0 with
  | none =>
      -- then all bits of the word are set
      refine absurd (eq_ff fun j hj => ?_) hne
      have hset := List.find?_eq_none.1 hfind j (List.mem_range.2 hj)
      rw [decide_eq_true_iff, and_mask_eq_zero hj, Bool.not_eq_false] at hset
      exact hset
  | some offset =>
      obtain ⟨hclear, hmem, hbefore⟩ := List.find?_range_eq_some.1 hfind
      have ho : offset < 8 := List.mem_range.1 hmem
      rw [decide_eq_true_iff, and_mask_eq_zero ho] at hclear
      have hindex : (UInt32.ofNat (ix * 8 + offset)).toNat = ix * 8 + offset := by
        rw [UInt32.toNat_ofNat', Nat.mod_eq_of_lt (by omega)]
      have hword : (UInt32.ofNat (ix * 8 + offset)).toNat / 8 = ix := by omega
      have hplace : (UInt32.ofNat (ix * 8 + offset)).toNat % 8 = offset := by omega
      have hbit : b.bit (UInt32.ofNat (ix * 8 + offset)).toNat = false := by
        rw [bit, hword, hplace]
        exact hclear
      -- the padding is set, so the bit that has been found lies before the end
      have hlt : UInt32.ofNat (ix * 8 + offset) < b.nbits := by
        by_contra hge
        rw [UInt32.lt_iff_toNat_lt, Nat.not_lt] at hge
        rw [h.padded _ hge (by omega)] at hbit
        cases hbit
      have hsets : Sets b (.ofNat (ix * 8 + offset)) true ⟨b.nbits,
          b.v.set ((UInt32.ofNat (ix * 8 + offset)).toNat / 8) (b.v.getD ix 0 ||| mask offset)⟩ :=
        sets_set (by rwa [hword]) fun j _ => by
          rw [hword, hplace]
          exact testBit_or_mask ho
      rw [hword] at hsets
      simp only [wp_bind, wp_writeWord hix, then_ok, wp_get, wp_ite, wp_pure, wp_halt]
      refine ⟨fun _ => ⟨hlt, hbit, fun i hi => ?_, hsets⟩, fun hnot => absurd hlt hnot⟩
      rw [hindex] at hi
      by_cases hfirst : i < 8 * ix
      · exact hfull i hfirst
      · have hi8 : i / 8 = ix := by omega
        have hbit' := hbefore (i % 8) (by omega)
        rw [Bool.not_eq_true', decide_eq_false_iff_not, and_mask_eq_zero (Nat.mod_lt i (by decide)),
          Bool.not_eq_false] at hbit'
        rw [bit, hi8]
        exact hbit'

/-- The scan of `bitmap_alloc`, when all words before `ix` are full. -/
theorem Good.wp_allocFrom (h : Good nbits b) (hnbits : nbits.toNat + 7 < 2 ^ 32)
    (hend : ix + left = b.v.length) (hfull : ∀ i < 8 * ix, b.bit i = true) :
    wp ok (allocFrom left ix) (fun r t => Op.Does b .alloc (r.map .index) t) b := by
  induction left generalizing ix with
  | zero =>
      refine (wp_throw _).2 ⟨fun i hi => hfull i ?_, rfl⟩
      have := h.length
      rw [h.nbits_eq] at hi
      omega
  | succ left ih =>
      have hix : ix < b.v.length := by omega
      simp only [allocFrom, wp_bind, wp_readWord hix, then_ok]
      rw [wp_ite]
      refine ⟨fun hne => ?_, fun heq => ?_⟩
      · exact h.wp_take hnbits hix hfull hne
      · refine ih (by omega) fun i hi => ?_
        by_cases hbefore : i < 8 * ix
        · exact hfull i hbefore
        · have hword : i / 8 = ix := by omega
          rw [bit, hword, Decidable.not_not.1 heq]
          exact testBit_ff (Nat.mod_lt i (by decide))

theorem toNat_words (h : nbits.toNat + 7 < 2 ^ 32) : (words nbits).toNat = (nbits.toNat + 7) / 8 := by
  have h8 : (8 : UInt32).toNat = 8 := rfl
  have h1 : (1 : UInt32).toNat = 1 := rfl
  rw [words, UInt32.toNat_div, UInt32.toNat_sub, UInt32.toNat_add, h8, h1]
  omega

theorem Good.wp_alloc (h : Good nbits b) (hnbits : nbits.toNat + 7 < 2 ^ 32) :
    wp ok alloc (fun r t => Op.Does b .alloc (r.map .index) t) b := by
  rw [alloc, wp_bind, wp_get, then_ok]
  refine h.wp_allocFrom hnbits ?_ fun i hi => absurd hi (Nat.not_lt_zero i)
  rw [h.nbits_eq, toNat_words hnbits, h.length, Nat.zero_add]

/-- Every call keeps the bitmap good and does what it should. -/
theorem Good.wp_call (h : Good nbits b) (hnbits : nbits.toNat + 7 < 2 ^ 32) {op : Op}
    (hpre : op.Pre b) : wp ok op.call (fun r t => op.Does b r t ∧ Good nbits t) b := by
  cases op with
  | alloc =>
      rw [Op.call, wp_bind]
      refine wp_mono (h.wp_alloc hnbits) fun r t ht => ?_
      cases r with
      | error e => exact ⟨ht, ht.2 ▸ h⟩
      | ok index => exact (wp_pure _).2 ⟨ht, h.sets ht.2.2.2 (h.nbits_eq ▸ ht.1)⟩
  | mark index =>
      rw [Op.call, wp_bind]
      refine wp_mono (h.wp_mark hpre) ?_
      rintro _ t ⟨rfl, hsets⟩
      exact (wp_pure _).2 ⟨hsets, h.sets hsets (h.nbits_eq ▸ hpre.1)⟩
  | unmark index =>
      rw [Op.call, wp_bind]
      refine wp_mono (h.wp_unmark hpre) ?_
      rintro _ t ⟨rfl, hsets⟩
      exact (wp_pure _).2 ⟨hsets, h.sets hsets (h.nbits_eq ▸ hpre.1)⟩
  | isset index =>
      rw [Op.call, wp_bind]
      refine wp_mono (h.wp_isset (h.nbits_eq ▸ hpre)) ?_
      rintro _ t ⟨rfl, rfl⟩
      exact (wp_pure _).2 ⟨⟨rfl, rfl⟩, h⟩

theorem Good.step (h : Good nbits s) (hnbits : nbits.toNat + 7 < 2 ^ 32) {op : Op} (hpre : op.Pre s)
    (hst : Step s op t) : Good nbits t := by
  obtain ⟨r, hres⟩ := hst
  have hwp : wp (fun _ => False) _ _ _ := h.wp_call hnbits hpre
  exact (hwp.returns hres).2

/-! ## The bitmap that is made -/

/-- The leftover bits are marked one by one. -/
theorem bit_markRest (nbits : UInt32) (i : Nat) {v : List UInt8} {js : List Nat}
    (hjs : ∀ j ∈ js, j < 8) (hix : ix < v.length) :
    (js.foldl (fun v j => v.modify ix (· ||| mask j)) v).length = v.length ∧
    bit ⟨nbits, js.foldl (fun v j => v.modify ix (· ||| mask j)) v⟩ i =
      if i / 8 = ix ∧ i % 8 ∈ js then true else bit ⟨nbits, v⟩ i := by
  induction js generalizing v with
  | nil => simp
  | cons j js ih =>
      have hj : j < 8 := hjs j List.mem_cons_self
      have hlen : (v.modify ix (· ||| mask j)).length = v.length := List.length_modify ..
      obtain ⟨hl, hb⟩ := ih (v := v.modify ix (· ||| mask j))
        (fun k hk => hjs k (List.mem_cons_of_mem _ hk)) (by rwa [hlen])
      rw [List.foldl_cons]
      refine ⟨hl.trans hlen, ?_⟩
      rw [hb]
      by_cases hword : i / 8 = ix
      · have hget : (v.modify ix (· ||| mask j)).getD (i / 8) 0 = v.getD ix 0 ||| mask j := by
          rw [hword, List.getD_eq_getElem?_getD, List.getElem?_modify_eq, List.getElem?_eq_getElem hix,
            List.getD_eq_getElem?_getD, List.getElem?_eq_getElem hix]
          rfl
        rw [bit, bit, hget, testBit_or_mask hj, hword]
        by_cases hthis : i % 8 = j
        · simp [hthis]
        · simp [hthis]
      · have hget : (v.modify ix (· ||| mask j)).getD (i / 8) 0 = v.getD (i / 8) 0 := by
          rw [List.getD_eq_getElem?_getD, List.getElem?_modify_ne _ _ (Ne.symm hword),
            List.getD_eq_getElem?_getD]
        rw [bit, bit, hget, if_neg fun h => hword h.1, if_neg fun h => hword h.1]

theorem bit_replicate {n : Nat} : bit ⟨nbits, List.replicate n 0⟩ i = false := by
  have hzero : (List.replicate n (0 : UInt8)).getD (i / 8) 0 = 0 := by
    rw [List.getD_eq_getElem?_getD, List.getElem?_replicate]
    split_ifs <;> rfl
  rw [bit, hzero]
  exact Nat.zero_testBit _

/-- The last word and the number of bits in it, when it is not a whole one. -/
theorem toNat_last (h : nbits.toNat + 7 < 2 ^ 32) (hrest : nbits / 8 < words nbits) :
    nbits.toNat % 8 ≠ 0 ∧ (words nbits - 1).toNat = nbits.toNat / 8 ∧
      (nbits - (words nbits - 1) * 8).toNat = nbits.toNat % 8 := by
  have hwords := toNat_words h
  have hdiv : (nbits / 8).toNat = nbits.toNat / 8 := UInt32.toNat_div nbits 8
  have h8 : (8 : UInt32).toNat = 8 := rfl
  have h1 : (1 : UInt32).toNat = 1 := rfl
  rw [UInt32.lt_iff_toNat_lt, hwords, hdiv] at hrest
  have hlast : (words nbits - 1).toNat = nbits.toNat / 8 := by
    rw [UInt32.toNat_sub, hwords, h1]
    omega
  refine ⟨by omega, hlast, ?_⟩
  rw [UInt32.toNat_sub, UInt32.toNat_mul, hlast, h8]
  omega

/-- `bitmap_create` makes a good bitmap without bits set. -/
theorem create_good (h : nbits.toNat + 7 < 2 ^ 32) : ∃ b, create true true nbits = .ok (some b) ∧
    Good nbits b ∧ ∀ i < nbits.toNat, b.bit i = false := by
  have hwords := toNat_words h
  have hdiv : (nbits / 8).toNat = nbits.toNat / 8 := UInt32.toNat_div nbits 8
  simp only [create, Bool.not_true, Bool.false_eq_true, if_false]
  by_cases hrest : nbits / 8 < words nbits
  · obtain ⟨hmod, hlast, hover⟩ := toNat_last h hrest
    have hsame : nbits / 8 = words nbits - 1 := UInt32.toNat_inj.1 (hdiv.trans hlast.symm)
    have hpos : 0 < nbits - (words nbits - 1) * 8 ∧ nbits - (words nbits - 1) * 8 < 8 := by
      rw [UInt32.lt_iff_toNat_lt, UInt32.lt_iff_toNat_lt, hover]
      exact ⟨Nat.pos_of_ne_zero hmod, Nat.mod_lt _ (by decide)⟩
    rw [if_pos hrest, if_neg (not_not.2 hsame), if_neg (not_not.2 hpos), hlast, hover]
    have hlen : ((List.range' (nbits.toNat % 8) (8 - nbits.toNat % 8)).foldl
        (fun v j => v.modify (nbits.toNat / 8) (· ||| mask j))
        (List.replicate (words nbits).toNat 0)).length =
          (List.replicate (words nbits).toNat (0 : UInt8)).length :=
      (bit_markRest nbits 0 (fun j hj => by have := List.mem_range'_1.1 hj; omega)
        (by rw [List.length_replicate, hwords]; omega)).1
    have hbit : ∀ i, bit ⟨nbits, markRest (List.replicate (words nbits).toNat 0) (nbits.toNat / 8)
        (nbits.toNat % 8)⟩ i = decide (i / 8 = nbits.toNat / 8 ∧ nbits.toNat % 8 ≤ i % 8) := by
      intro i
      rw [markRest, (bit_markRest _ _ (fun j hj => by have := List.mem_range'_1.1 hj; omega)
        (by rw [List.length_replicate, hwords]; omega)).2, bit_replicate]
      have hi8 : i % 8 < 8 := Nat.mod_lt i (by decide)
      split_ifs with hin
      · exact (decide_eq_true ⟨hin.1, (List.mem_range'_1.1 hin.2).1⟩).symm
      · refine (decide_eq_false fun hboth => hin ⟨hboth.1, List.mem_range'_1.2 ⟨hboth.2, ?_⟩⟩).symm
        omega
    refine ⟨_, rfl, ⟨rfl, ?_, fun i hge hlt => ?_⟩, fun i hi => ?_⟩
    · rw [markRest, hlen, List.length_replicate, hwords]
    · rw [hbit]
      dsimp only at hge hlt
      rw [markRest, hlen, List.length_replicate, hwords] at hlt
      refine decide_eq_true ?_
      omega
    · rw [hbit]
      refine decide_eq_false fun hboth => ?_
      omega
  · rw [if_neg hrest]
    rw [UInt32.lt_iff_toNat_lt, hwords, hdiv] at hrest
    refine ⟨_, rfl, ⟨rfl, ?_, fun i hge hlt => ?_⟩, fun i _ => bit_replicate⟩
    · rw [List.length_replicate, hwords]
    · dsimp only at hge hlt
      rw [List.length_replicate, hwords] at hlt
      omega

/-- For the last seven sizes there are no words, and the first `bitmap_alloc` finds nothing. -/
theorem not_works (h : 2 ^ 32 ≤ nbits.toNat + 7) : ¬ Works nbits := by
  rintro ⟨-, hworks⟩
  have h8 : (8 : UInt32).toNat = 8 := rfl
  have h1 : (1 : UInt32).toNat = 1 := rfl
  have hn := nbits.toNat_lt
  have hwords : words nbits = 0 := by
    refine UInt32.toNat_inj.1 ?_
    rw [words, UInt32.toNat_div, UInt32.toNat_sub, UInt32.toNat_add, h8, h1]
    have hzero : (0 : UInt32).toNat = 0 := rfl
    omega
  have hcreate : create true true nbits = .ok (some ⟨nbits, []⟩) := by
    simp only [create, hwords, Bool.not_true, Bool.false_eq_true, if_false, UInt32.not_lt_zero,
      UInt32.toNat_zero, List.replicate_zero]
  obtain ⟨-, -, hdoes⟩ := (hworks _ hcreate).2 _ .refl
  obtain ⟨r, t, hres, hdone⟩ := hdoes .alloc trivial
  have hnone : wp (fun _ => False) (Op.call .alloc) (fun r _ => r = .error .ENOSPC) ⟨nbits, []⟩ := by
    simp only [Op.call, alloc, wp_bind, wp_get, then_ok, hwords, UInt32.toNat_zero, allocFrom, wp_throw,
      then_error]
  obtain rfl := hnone.returns hres
  have hzero := hdone.1 0 (by dsimp only; omega)
  rw [show bit ⟨nbits, []⟩ 0 = false from bit_replicate (n := 0)] at hzero
  cases hzero

/-- Bitmaps work for exactly the sizes for which the sum in `DIVROUNDUP` does not overflow. -/
theorem bitmap_works_iff (nbits : UInt32) : Works nbits ↔ nbits.toNat + 7 < 2 ^ 32 := by
  constructor
  · intro h
    by_contra hover
    exact not_works (Nat.not_lt.1 hover) h
  · intro h
    obtain ⟨b, hcreate, hgood, hclear⟩ := create_good h
    refine ⟨fun k k' => ?_, fun b' hb' => ?_⟩
    · cases k with
      | false => exact ⟨none, rfl⟩
      | true =>
          cases k' with
          | false => exact ⟨none, rfl⟩
          | true => exact ⟨some b, hcreate⟩
    · obtain rfl : b = b' := Option.some.inj (Except.ok.inj (hcreate.symm.trans hb'))
      refine ⟨hclear, fun s hs => ?_⟩
      have hs : Good nbits s := hs.invariant (fun _ _ _ hg hpre hst => hg.step h hpre hst) hgood
      refine ⟨hs.nbits_eq, hs.padded, fun op hpre => ?_⟩
      obtain ⟨r, t, hres, hdone⟩ := (hs.wp_call h hpre).exists_result
      exact ⟨r, t, hres, hdone.1⟩

/-- No block can be allocated, although none is in use. -/
theorem works_fails : ¬ Works 0xffffffff := not_works (by decide)

/-! ## The bitmap of a volume -/

/-- The bits, as the file system looks at them. -/
def toVolume (b : Bitmap) : Sfs.Bitmap := ⟨b.nbits, fun i => b.bit i.toNat⟩

theorem Sets.toVolume (h : Sets b index x t) : t.toVolume = b.toVolume.write index x := by
  obtain ⟨hn, -, hbit⟩ := h
  rw [Bitmap.toVolume, Bitmap.toVolume, Sfs.Bitmap.write, hn]
  congr 1
  funext i
  rw [hbit, Function.update_apply]
  exact if_congr UInt32.toNat_inj rfl rfl

/-- `bitmap_alloc` is the search for the first clear bit of the volume. -/
theorem Good.alloc_firstClear (h : Good nbits b) (hnbits : nbits.toNat + 7 < 2 ^ 32) :
    wp ok alloc (fun r t => match r with
      | .ok index => b.toVolume.firstClear = some index ∧
          t.toVolume = b.toVolume.write index true
      | .error _ => b.toVolume.firstClear = none ∧ t = b) b := by
  refine wp_mono (h.wp_alloc hnbits) fun r t ht => ?_
  cases r with
  | error e =>
      refine ⟨List.find?_eq_none.2 fun i hi => ?_, ht.2⟩
      obtain ⟨k, hk, rfl⟩ := List.mem_map.1 hi
      have hk' : (UInt32.ofNat k).toNat < b.nbits.toNat :=
        Nat.lt_of_le_of_lt (Nat.mod_le _ _) (List.mem_range.1 hk)
      have hset : b.toVolume.isset (.ofNat k) = true := ht.1 _ hk'
      rw [hset]
      nofun
  | ok index =>
      obtain ⟨hlt, hclear, hbefore, hsets⟩ := ht
      refine ⟨?_, hsets.toVolume⟩
      have hfind : (List.range b.nbits.toNat).find? ((fun i => !b.toVolume.isset i) ∘ UInt32.ofNat) =
          some index.toNat := by
        refine List.find?_range_eq_some.2 ⟨?_, List.mem_range.2 (UInt32.lt_iff_toNat_lt.1 hlt), ?_⟩
        · rw [Function.comp_apply, UInt32.ofNat_toNat, Bool.not_eq_true']
          exact hclear
        · intro k hk
          have hword : (UInt32.ofNat k).toNat = k := Nat.mod_eq_of_lt (hk.trans index.toNat_lt)
          have hset : b.toVolume.isset (.ofNat k) = true :=
            (congrArg b.bit hword).trans (hbefore k hk)
          rw [Function.comp_apply, hset]
          rfl
      rw [Sfs.Bitmap.firstClear, List.find?_map]
      exact (congrArg (Option.map UInt32.ofNat) hfind).trans (congrArg some (UInt32.ofNat_toNat ..))

end Bitmap

end Os161.Kernlib

import Mathlib.Algebra.Group.Nat.Defs
import Os161.Lib.Calls

set_option autoImplicit false

/-!
# Resizable arrays

`kern/lib/array.c` and `kern/include/array.h`. The capacity is doubled in 32 bits until it reaches
the request, and multiplied by four for `kmalloc`; from `2 ^ 30` elements on this number of bytes
overflows, and the doubling itself may never end.

`kmalloc` returns `NULL` or a block of as many bytes as it has been asked for, with any contents.
-/

namespace Os161.Kernlib

open Os161.Lib.Calls

/-- `struct array`: `v` is the block that `kmalloc` has returned, `[]` for `NULL`. -/
structure PtrArray (α : Type) where
  v : List α
  num : UInt32
  max : UInt32

namespace PtrArray

inductive Errno where
  | ENOMEM
  deriving DecidableEq

inductive Panic where
  /-- A failed `ARRAYASSERT`. -/
  | kassert
  /-- An access outside of the block. -/
  | outside
  /-- The fuel of a loop has run out. -/
  | loops
  deriving DecidableEq

abbrev ArrayCall (α β : Type) : Type := Call (PtrArray α) Panic Errno β

section Calls

variable {α : Type}

/-- The loop of `array_preallocate`. -/
def growMax (num : UInt32) : Nat → UInt32 → Option UInt32
  | 0, _ => none
  | fuel + 1, newmax =>
      if newmax < num then growMax num fuel (if newmax ≠ 0 then newmax * 2 else 4) else some newmax

/-- `kmalloc(newmax*sizeof(*a->v))`: the block, when there is memory; `fill` is what it holds. -/
def newBlock (kmalloc : Option (Nat → α)) (newmax : UInt32) : Option (List α) :=
  kmalloc.map fun fill => (List.range ((newmax * 4).toNat / 4)).map fill

/-- `memcpy` of `num` elements from the block `v` to the block `newptr`. -/
def memcpy (newptr v : List α) (num : UInt32) : Except Panic (List α) :=
  let count := (num * 4).toNat / 4
  if count ≤ newptr.length ∧ count ≤ v.length then .ok (v.take count ++ newptr.drop count)
  else .error .outside

/-- `array_preallocate`. -/
def arrayPreallocate (fuel : Nat) (kmalloc : Option (Nat → α)) (num : UInt32) : ArrayCall α Unit := do
  let a ← get
  if a.max < num then
    match growMax num fuel a.max with
    | none => halt .loops
    | some newmax =>
        match newBlock kmalloc newmax with
        | none => throw .ENOMEM
        | some newptr =>
            match memcpy newptr a.v a.num with
            | .error p => halt p
            | .ok newptr => set { a with v := newptr, max := newmax }
  else pure ()

/-- `array_setsize`. -/
def arraySetsize (fuel : Nat) (kmalloc : Option (Nat → α)) (num : UInt32) : ArrayCall α Unit := do
  arrayPreallocate fuel kmalloc num
  modify fun a => { a with num := num }

/-- `array_get`. -/
def arrayGet (index : UInt32) : ArrayCall α α := do
  let a ← get
  if index < a.num then
    match a.v[index.toNat]? with
    | none => halt .outside
    | some x => pure x
  else halt .kassert

/-- `a->v[index] = val`. -/
def store (index : UInt32) (val : α) : ArrayCall α Unit := do
  let a ← get
  if index.toNat < a.v.length then set { a with v := a.v.set index.toNat val }
  else halt .outside

/-- `array_set`. -/
def arraySet (index : UInt32) (val : α) : ArrayCall α Unit := do
  let a ← get
  if index < a.num then store index val else halt .kassert

/-- `array_add`, which hands back the index. -/
def arrayAdd (fuel : Nat) (kmalloc : Option (Nat → α)) (val : α) : ArrayCall α UInt32 := do
  let a ← get
  let index := a.num
  arraySetsize fuel kmalloc (index + 1)
  store index val
  pure index

/-- `memmove(a->v + index, a->v + index+1, num_to_move*sizeof(void *))`. -/
def memmove (v : List α) (index count : Nat) : Except Panic (List α) :=
  if index + 1 + count ≤ v.length then
    .ok (v.take index ++ (v.drop (index + 1)).take count ++ v.drop (index + count))
  else .error .outside

/-- `array_remove`. -/
def arrayRemove (index : UInt32) : ArrayCall α Unit := do
  let a ← get
  if a.max < a.num then halt .kassert
  else if a.num ≤ index then halt .kassert
  else
    let numToMove := a.num - (index + 1)
    match memmove a.v index.toNat ((numToMove * 4).toNat / 4) with
    | .error p => halt p
    | .ok v => set { a with v := v, num := a.num - 1 }

end Calls

/-! ## What is promised -/

section Promises

variable {α : Type}

/-- An array whose capacity is backed by its block; a block has less than `2 ^ 32` bytes. -/
structure Stored (a : PtrArray α) : Prop where
  num_le : a.num ≤ a.max
  backed : a.max.toNat ≤ a.v.length
  fits : a.v.length < 2 ^ 30

/-- The elements. -/
def elems (a : PtrArray α) : List α := a.v.take a.num.toNat

/-- The capacity is at least `n`, there is memory for it, and the elements are still there. -/
def Grown (a : PtrArray α) (n : UInt32) (t : PtrArray α) : Prop :=
  n ≤ t.max ∧ t.max.toNat ≤ t.v.length ∧ t.v.take a.num.toNat = a.elems

/-- The call ends, and fails with `ENOMEM` and the array as it was, or succeeds with `Q`. -/
def Ends {β : Type} (a : PtrArray α) (m : Nat → Option (Nat → α) → ArrayCall α β)
    (Q : β → PtrArray α → Prop) : Prop :=
  ∀ kmalloc, ∃ fuel r t, (m fuel kmalloc).result a = .ok (r, t) ∧
    match r with
    | .error .ENOMEM => t = a
    | .ok x => Q x t

/-- For the array `a` and the size `n`, the functions do what they should. -/
structure Works (a : PtrArray α) (n : UInt32) : Prop where
  preallocate : Ends a (fun fuel kmalloc => arrayPreallocate fuel kmalloc n)
    fun _ t => t.num = a.num ∧ Grown a n t
  setsize : Ends a (fun fuel kmalloc => arraySetsize fuel kmalloc n) fun _ t => t.num = n ∧ Grown a n t
  add : ∀ val, Ends a (fun fuel kmalloc => arrayAdd fuel kmalloc val)
    fun index t => index = a.num ∧ t.elems = a.elems ++ [val]
  remove : ∀ index < a.num, ∃ t, (arrayRemove index).result a = .ok (.ok (), t) ∧
    t.elems = a.elems.eraseIdx index.toNat

/-- What the doubling starts from. -/
def start (a : PtrArray α) : Nat := if a.max = 0 then 4 else a.max.toNat

/-- The doubling comes to a capacity below `2 ^ 30`. -/
def Room (a : PtrArray α) (n : UInt32) : Prop :=
  ∃ k, n.toNat ≤ a.start * 2 ^ k ∧ a.start * 2 ^ k < 2 ^ 30

end Promises

/-! ## The doubling -/

section Doubling

variable {num x y : UInt32} {fuel k : Nat}

theorem le_of_growMax (h : growMax num fuel x = some y) : num ≤ y := by
  induction fuel generalizing x with
  | zero => cases h
  | succ fuel ih =>
      rw [growMax] at h
      split_ifs at h with hlt
      · exact ih h
      · exact ih h
      · cases h
        exact UInt32.not_lt.1 hlt

theorem toNat_double (hx : x.toNat < 2 ^ 31) : (x * 2).toNat = x.toNat * 2 := by
  have h2 : (2 : UInt32).toNat = 2 := rfl
  rw [UInt32.toNat_mul, h2]
  omega

/-- The loop ends if some doubling is large enough and does not overflow. -/
theorem growMax_eq (hx : x ≠ 0) (hnum : num.toNat ≤ x.toNat * 2 ^ k)
    (hsmall : x.toNat * 2 ^ k < 2 ^ 30) : ∃ y, growMax num (k + 1) x = some y ∧ y.toNat < 2 ^ 30 := by
  induction k generalizing x with
  | zero =>
      rw [Nat.pow_zero, Nat.mul_one] at hnum hsmall
      refine ⟨x, ?_, hsmall⟩
      rw [growMax, if_neg (UInt32.not_lt.2 (UInt32.le_iff_toNat_le.2 hnum))]
  | succ k ih =>
      have hpos : 0 < x.toNat := Nat.pos_of_ne_zero fun h => hx (UInt32.toNat_inj.1 h)
      have hle : x.toNat * 2 ≤ x.toNat * 2 ^ (k + 1) := by
        rw [Nat.pow_succ, ← Nat.mul_assoc]
        exact Nat.mul_le_mul_right 2 (Nat.le_mul_of_pos_right _ (Nat.two_pow_pos k))
      have hdouble : (x * 2).toNat = x.toNat * 2 := toNat_double (by omega)
      rw [growMax]
      by_cases hlt : x < num
      · rw [if_pos hlt, if_pos hx]
        have hne : x * 2 ≠ 0 := fun h => by
          rw [h, UInt32.toNat_zero] at hdouble
          omega
        rw [Nat.pow_succ, Nat.mul_comm (2 ^ k), ← Nat.mul_assoc, ← hdouble] at hnum hsmall
        exact ih hne hnum hsmall
      · rw [if_neg hlt]
        exact ⟨x, rfl, by omega⟩

/-- A capacity below `2 ^ 30` at which the loop ends has been reached by doubling alone. -/
theorem growMax_small (hx : x ≠ 0) (h : growMax num fuel x = some y) (hy : y.toNat < 2 ^ 30) :
    ∃ k, y.toNat = x.toNat * 2 ^ k := by
  induction fuel generalizing x with
  | zero => cases h
  | succ fuel ih =>
      have hle := UInt32.le_iff_toNat_le.1 (le_of_growMax h)
      rw [growMax] at h
      by_cases hlt : x < num
      · rw [if_pos hlt, if_pos hx] at h
        have hnum := UInt32.lt_iff_toNat_lt.1 hlt
        have hdouble : (x * 2).toNat = x.toNat * 2 := toNat_double (by omega)
        have hne : x * 2 ≠ 0 := fun h0 => by
          rw [h0, UInt32.toNat_zero] at hdouble
          exact hx (UInt32.toNat_inj.1 (by rw [UInt32.toNat_zero]; omega))
        obtain ⟨k, hk⟩ := ih hne h
        refine ⟨k + 1, ?_⟩
        rw [hk, hdouble, Nat.pow_succ, Nat.mul_assoc, Nat.mul_comm 2]
      · rw [if_neg hlt] at h
        cases h
        exact ⟨0, (Nat.mul_one _).symm⟩

end Doubling

/-! ## Growing -/

section Growing

variable {α : Type} {ok : Panic → Prop} {a t : PtrArray α} {n num newmax : UInt32} {fuel k : Nat}

theorem start_eq (h : a.max ≠ 0) : a.start = a.max.toNat := if_neg h

/-- With room, the loop of `array_preallocate` ends below `2 ^ 30`. -/
theorem Room.growMax (h : Room a n) (hlt : a.max < n) :
    ∃ fuel newmax, growMax n fuel a.max = some newmax ∧ newmax.toNat < 2 ^ 30 := by
  obtain ⟨k, hn, hsmall⟩ := h
  by_cases hmax : a.max = 0
  · rw [start, if_pos hmax] at hn hsmall
    obtain ⟨y, hy, hy'⟩ := growMax_eq (x := 4) (by decide) hn hsmall
    refine ⟨k + 2, y, ?_, hy'⟩
    rw [PtrArray.growMax, if_pos hlt, hmax, if_neg (by simp)]
    exact hy
  · rw [start_eq hmax] at hn hsmall
    obtain ⟨y, hy, hy'⟩ := growMax_eq hmax hn hsmall
    exact ⟨k + 1, y, hy, hy'⟩

theorem Room.of_growMax (hlt : a.max < n) (h : PtrArray.growMax n fuel a.max = some newmax)
    (hsmall : newmax.toNat < 2 ^ 30) : Room a n := by
  have hle := UInt32.le_iff_toNat_le.1 (le_of_growMax h)
  by_cases hmax : a.max = 0
  · cases fuel with
    | zero => cases h
    | succ fuel =>
        rw [PtrArray.growMax, if_pos hlt, hmax, if_neg (by simp)] at h
        obtain ⟨k, hk⟩ := growMax_small (by decide) h hsmall
        refine ⟨k, ?_, ?_⟩ <;> rw [start, if_pos hmax]
        · exact hk ▸ hle
        · exact hk ▸ hsmall
  · obtain ⟨k, hk⟩ := growMax_small hmax h hsmall
    refine ⟨k, ?_, ?_⟩ <;> rw [start_eq hmax]
    · exact hk ▸ hle
    · exact hk ▸ hsmall

/-- The number of bytes of a small array, in elements. -/
theorem bytes_small {x : UInt32} (h : x.toNat < 2 ^ 30) : (x * 4).toNat / 4 = x.toNat := by
  have h4 : (4 : UInt32).toNat = 4 := rfl
  rw [UInt32.toNat_mul, h4]
  omega

/-- The number of bytes always stands for less than `2 ^ 30` elements. -/
theorem bytes_lt (x : UInt32) : (x * 4).toNat / 4 < 2 ^ 30 := by
  have := (x * 4).toNat_lt
  omega

theorem newBlock_length {fill : Nat → α} {v : List α} (h : newBlock (some fill) newmax = some v) :
    v.length = (newmax * 4).toNat / 4 := by
  obtain rfl := Option.some.inj h
  rw [List.length_map, List.length_range]

theorem Stored.num_lt (h : Stored a) : a.num.toNat ≤ a.max.toNat ∧ a.max.toNat < 2 ^ 30 :=
  ⟨UInt32.le_iff_toNat_le.1 h.num_le, Nat.lt_of_le_of_lt h.backed h.fits⟩

theorem Stored.room (h : Stored a) (hle : n ≤ a.max) : Room a n := by
  have hle := UInt32.le_iff_toNat_le.1 hle
  refine ⟨0, ?_, ?_⟩ <;> rw [Nat.pow_zero, Nat.mul_one, start] <;> split_ifs with hmax
  · rw [hmax, UInt32.toNat_zero] at hle
    omega
  · exact hle
  · decide
  · exact h.num_lt.2

/-- What `array_preallocate` leaves when there is room. -/
def Preallocated (a : PtrArray α) (n : UInt32) : Except Errno Unit → PtrArray α → Prop
  | .error .ENOMEM, t => t = a
  | .ok (), t => t.num = a.num ∧ Grown a n t

/-- The elements are copied to a block that is large enough. -/
theorem Stored.grown (h : Stored a) {newptr : List α} (hlen : newptr.length = newmax.toNat)
    (hn : n ≤ newmax) (hmax : a.max ≤ newmax) :
    memcpy newptr a.v a.num = .ok (a.v.take a.num.toNat ++ newptr.drop a.num.toNat) ∧
      Preallocated a n (.ok ())
        { a with v := a.v.take a.num.toNat ++ newptr.drop a.num.toNat, max := newmax } := by
  obtain ⟨hnum, hfits⟩ := h.num_lt
  have hle := UInt32.le_iff_toNat_le.1 hmax
  have hbacked := h.backed
  have htake : (a.v.take a.num.toNat).length = a.num.toNat := by
    rw [List.length_take]
    omega
  refine ⟨?_, rfl, hn, ?_, ?_⟩
  · rw [memcpy, bytes_small (by omega), if_pos ⟨by omega, by omega⟩]
  · dsimp only
    rw [List.length_append, List.length_drop, htake]
    omega
  · rw [elems]
    exact List.take_left' htake

theorem Stored.wp_arrayPreallocate (h : Stored a) (hroom : Room a n)
    (kmalloc : Option (Nat → α)) : ∃ fuel, ∀ ok : Panic → Prop,
      wp ok (arrayPreallocate fuel kmalloc n) (Preallocated a n) a := by
  by_cases hlt : a.max < n
  · obtain ⟨fuel, newmax, hgrow, hsmall⟩ := hroom.growMax hlt
    refine ⟨fuel, fun ok => ?_⟩
    simp only [arrayPreallocate, wp_bind, wp_get, then_ok, if_pos hlt, hgrow]
    cases kmalloc with
    | none => exact (wp_throw _).2 rfl
    | some fill =>
        cases hblock : newBlock (some fill) newmax with
        | none => cases hblock
        | some newptr =>
            have hlen := (newBlock_length hblock).trans (bytes_small hsmall)
            have hle := le_of_growMax hgrow
            have hmax : a.max ≤ newmax := by
              rw [UInt32.le_iff_toNat_le] at hle ⊢
              have := UInt32.lt_iff_toNat_lt.1 hlt
              omega
            obtain ⟨hcopy, hdone⟩ := h.grown hlen hle hmax
            simp only [hcopy]
            exact wp_set.2 hdone
  · refine ⟨0, fun ok => ?_⟩
    simp only [arrayPreallocate, wp_bind, wp_get, then_ok, if_neg hlt]
    exact (wp_pure _).2 ⟨rfl, UInt32.not_lt.1 hlt, h.backed, rfl⟩

/-- What `array_setsize` leaves when there is room. -/
def Resized (a : PtrArray α) (n : UInt32) : Except Errno Unit → PtrArray α → Prop
  | .error .ENOMEM, t => t = a
  | .ok (), t => t.num = n ∧ Grown a n t

theorem Stored.wp_arraySetsize (h : Stored a) (hroom : Room a n) (kmalloc : Option (Nat → α)) :
    ∃ fuel, ∀ ok : Panic → Prop, wp ok (arraySetsize fuel kmalloc n) (Resized a n) a := by
  obtain ⟨fuel, hpre⟩ := h.wp_arrayPreallocate hroom kmalloc
  refine ⟨fuel, fun ok => ?_⟩
  rw [arraySetsize, wp_bind]
  refine wp_mono (hpre ok) fun r t ht => ?_
  cases r with
  | error e => exact ht
  | ok u => exact (wp_modify _).2 ⟨rfl, ht.2⟩

theorem Stored.toNat_succ (h : Stored a) : (a.num + 1).toNat = a.num.toNat + 1 := by
  obtain ⟨hnum, hfits⟩ := h.num_lt
  have h1 : (1 : UInt32).toNat = 1 := rfl
  rw [UInt32.toNat_add, h1]
  omega

theorem Stored.wp_arrayAdd (h : Stored a) (hroom : Room a (a.num + 1))
    (kmalloc : Option (Nat → α)) (val : α) : ∃ fuel, ∀ ok : Panic → Prop,
      wp ok (arrayAdd fuel kmalloc val) (fun r t => match r with
        | .error .ENOMEM => t = a
        | .ok index => index = a.num ∧ t.elems = a.elems ++ [val]) a := by
  obtain ⟨fuel, hset⟩ := h.wp_arraySetsize hroom kmalloc
  refine ⟨fuel, fun ok => ?_⟩
  simp only [arrayAdd, wp_bind, wp_get, then_ok]
  refine wp_mono (hset ok) fun r t ht => ?_
  cases r with
  | error e => exact ht
  | ok u =>
      obtain ⟨hnum, hn, hbacked, hsame⟩ := ht
      rw [UInt32.le_iff_toNat_le, h.toNat_succ] at hn
      have hindex : a.num.toNat < t.v.length := by omega
      rw [then_ok, wp_bind, store, wp_bind, wp_get, then_ok, if_pos hindex, wp_set, then_ok, wp_pure]
      refine ⟨rfl, ?_⟩
      rw [elems]
      dsimp only
      rw [hnum, h.toNat_succ, List.take_add_one, List.getElem?_set_self hindex, List.take_set_of_le,
        hsame]
      · rfl
      · exact Nat.le_refl _

/-- `array_remove` deletes one element. -/
theorem Stored.wp_arrayRemove (h : Stored a) {index : UInt32} (hindex : index < a.num) :
    wp ok (arrayRemove index) (fun r t => r = .ok () ∧ t.elems = a.elems.eraseIdx index.toNat) a := by
  obtain ⟨hnum, hfits⟩ := h.num_lt
  have hbacked := h.backed
  have hlt := UInt32.lt_iff_toNat_lt.1 hindex
  have h1 : (1 : UInt32).toNat = 1 := rfl
  have hmove : (a.num - (index + 1)).toNat = a.num.toNat - (index.toNat + 1) := by
    rw [UInt32.toNat_sub, UInt32.toNat_add, h1]
    omega
  have hless : (a.num - 1).toNat = a.num.toNat - 1 := by
    rw [UInt32.toNat_sub, h1]
    omega
  simp only [arrayRemove, wp_bind, wp_get, then_ok]
  rw [if_neg (UInt32.not_lt.2 h.num_le), if_neg (UInt32.not_le.2 hindex), bytes_small (by omega), hmove,
    memmove, if_pos (by omega)]
  refine wp_set.2 ⟨rfl, ?_⟩
  have hfront : (a.v.take index.toNat ++
      (a.v.drop (index.toNat + 1)).take (a.num.toNat - (index.toNat + 1))).length =
      a.num.toNat - 1 := by
    rw [List.length_append, List.length_take, List.length_take, List.length_drop]
    omega
  rw [elems, elems]
  dsimp only
  rw [hless, List.take_left' hfront, List.eraseIdx_eq_take_drop_succ, List.take_take, List.drop_take,
    Nat.min_eq_left (Nat.le_of_lt hlt)]

/-! ## Without room -/

theorem length_memcpy {newptr v w : List α} (hcopy : memcpy newptr v num = .ok w) :
    w.length = newptr.length := by
  rw [memcpy] at hcopy
  split_ifs at hcopy with hfits
  obtain rfl := Except.ok.inj hcopy
  rw [List.length_append, List.length_take, List.length_drop]
  omega

/-- A full array has twice its capacity after one round of the loop. -/
theorem growMax_full (hmax : a.max ≠ 0) (hlt : a.max < n) (hn : n.toNat = a.max.toNat + 1)
    (hsmall : a.max.toNat < 2 ^ 30) (h : growMax n fuel a.max = some newmax) :
    newmax = a.max * 2 := by
  have hdouble : (a.max * 2).toNat = a.max.toNat * 2 := toNat_double (by omega)
  have hpos : 0 < a.max.toNat := Nat.pos_of_ne_zero fun h => hmax (UInt32.toNat_inj.1 h)
  cases fuel with
  | zero => cases h
  | succ fuel =>
      rw [growMax, if_pos hlt, if_pos hmax] at h
      cases fuel with
      | zero => cases h
      | succ fuel =>
          rw [growMax, if_neg (by rw [UInt32.lt_iff_toNat_lt]; omega)] at h
          exact (Option.some.inj h).symm

variable [Inhabited α]

/-- `kmalloc` has memory, whatever it is asked for. -/
def plenty : Option (Nat → α) := some fun _ => default

/-- A block as large as the number of bytes says, if the call returns at all. -/
theorem wp_arrayPreallocate_plenty (hlt : a.max < n) :
    wp (fun _ => True) (arrayPreallocate fuel (plenty (α := α)) n) (fun r t =>
      ∃ newmax, growMax n fuel a.max = some newmax ∧ r = .ok () ∧ t.max = newmax ∧
        t.num = a.num ∧ t.v.length = (newmax * 4).toNat / 4) a := by
  simp only [arrayPreallocate, wp_bind, wp_get, then_ok, if_pos hlt]
  cases hgrow : growMax n fuel a.max with
  | none => exact (wp_halt _).2 trivial
  | some newmax =>
      obtain ⟨newptr, hblock⟩ : ∃ newptr, newBlock (plenty (α := α)) newmax = some newptr := ⟨_, rfl⟩
      simp only [hblock]
      cases hcopy : memcpy newptr a.v a.num with
      | error p => exact (wp_halt p).2 trivial
      | ok w =>
          exact wp_set.2 ⟨newmax, rfl, rfl, rfl, rfl,
            (length_memcpy hcopy).trans (newBlock_length hblock)⟩

theorem room_of_preallocate (h : Stored a)
    (hends : Ends a (fun fuel kmalloc => arrayPreallocate fuel kmalloc n)
      fun _ t => t.num = a.num ∧ Grown a n t) : Room a n := by
  by_cases hlt : a.max < n
  · obtain ⟨fuel, r, t, hres, hpost⟩ := hends plenty
    obtain ⟨newmax, hgrow, rfl, hmax, -, hlen⟩ := (wp_arrayPreallocate_plenty hlt).returns hres
    have hbacked := hpost.2.2.1
    have hbytes := bytes_lt newmax
    rw [hlen, hmax] at hbacked
    exact .of_growMax hlt hgrow (Nat.lt_of_le_of_lt hbacked hbytes)
  · exact h.room (UInt32.not_lt.1 hlt)

theorem room_of_add (h : Stored a) (val : α)
    (hends : Ends a (fun fuel kmalloc => arrayAdd fuel kmalloc val)
      fun index t => index = a.num ∧ t.elems = a.elems ++ [val]) : Room a (a.num + 1) := by
  obtain ⟨hnum, hfits⟩ := h.num_lt
  have hsucc := h.toNat_succ
  by_cases hlt : a.max < a.num + 1
  · have hlt' := UInt32.lt_iff_toNat_lt.1 hlt
    obtain ⟨fuel, r, t, hres, -⟩ := hends plenty
    have hwp : wp (fun _ => True) (arrayAdd fuel (plenty (α := α)) val) (fun _ _ =>
        ∃ newmax, growMax (a.num + 1) fuel a.max = some newmax ∧
          a.num.toNat < (newmax * 4).toNat / 4) a := by
      simp only [arrayAdd, arraySetsize, wp_bind, wp_get, then_ok]
      refine wp_mono (wp_arrayPreallocate_plenty hlt) ?_
      rintro _ u ⟨newmax, hgrow, rfl, -, -, hlen⟩
      simp only [then_ok, wp_modify, wp_bind, store, wp_get, hlen, wp_ite, wp_set, wp_pure, wp_halt,
        implies_true, and_true]
      exact fun hindex => ⟨newmax, hgrow, hindex⟩
    obtain ⟨newmax, hgrow, hindex⟩ := hwp.returns hres
    by_cases hmax : a.max = 0
    · refine ⟨0, ?_, ?_⟩ <;> rw [start, if_pos hmax]
      · rw [hmax, UInt32.toNat_zero] at hnum
        omega
      · decide
    · obtain rfl := growMax_full hmax hlt (by omega) hfits hgrow
      refine .of_growMax hlt hgrow ?_
      have hdouble : (a.max * 2).toNat = a.max.toNat * 2 := toNat_double (by omega)
      have h4 : (4 : UInt32).toNat = 4 := rfl
      rw [UInt32.toNat_mul, hdouble, h4] at hindex
      omega
  · exact h.room (UInt32.not_lt.1 hlt)

/-- The functions do what they should exactly when there is room for the request, and for one more
element. -/
theorem ptrArray_works_iff (h : Stored a) (n : UInt32) :
    Works a n ↔ Room a n ∧ Room a (a.num + 1) := by
  constructor
  · intro hworks
    exact ⟨room_of_preallocate h hworks.preallocate, room_of_add h default (hworks.add default)⟩
  · rintro ⟨hroom, hroom'⟩
    refine ⟨fun kmalloc => ?_, fun kmalloc => ?_, fun val kmalloc => ?_, fun index hindex => ?_⟩
    · obtain ⟨fuel, hwp⟩ := h.wp_arrayPreallocate hroom kmalloc
      obtain ⟨r, t, hres, hpost⟩ := (hwp fun _ => False).exists_result
      refine ⟨fuel, r, t, hres, ?_⟩
      cases r <;> exact hpost
    · obtain ⟨fuel, hwp⟩ := h.wp_arraySetsize hroom kmalloc
      obtain ⟨r, t, hres, hpost⟩ := (hwp fun _ => False).exists_result
      refine ⟨fuel, r, t, hres, ?_⟩
      cases r <;> exact hpost
    · obtain ⟨fuel, hwp⟩ := h.wp_arrayAdd hroom' kmalloc val
      obtain ⟨r, t, hres, hpost⟩ := (hwp fun _ => False).exists_result
      refine ⟨fuel, r, t, hres, ?_⟩
      cases r <;> exact hpost
    · obtain ⟨r, t, hres, rfl, helems⟩ :=
        (h.wp_arrayRemove hindex).exists_result
      exact ⟨t, hres, helems⟩

/-- `array_init`. -/
def emptyArray : PtrArray Nat := ⟨[], 0, 0⟩

theorem emptyArray_stored : Stored emptyArray := ⟨by decide, by decide, by decide⟩

theorem ptrArray_works_iff_empty : Works emptyArray 1000 :=
  (ptrArray_works_iff emptyArray_stored 1000).2 ⟨⟨8, by decide, by decide⟩, ⟨0, by decide, by decide⟩⟩

/-- The capacity for `2 ^ 29 + 1` elements is `2 ^ 30`, and its number of bytes is 0. -/
theorem works_fails_large : ¬ Works emptyArray 0x20000001 := by
  intro hworks
  obtain ⟨k, hle, hlt⟩ := room_of_preallocate emptyArray_stored hworks.preallocate
  have hstart : emptyArray.start = 4 := rfl
  rw [hstart] at hle hlt
  have hk : k < 28 := by
    by_contra hge
    have hpow : 2 ^ 28 ≤ 2 ^ k := Nat.pow_le_pow_right (by decide) (Nat.not_lt.1 hge)
    omega
  have hpow : 2 ^ k ≤ 2 ^ 27 := Nat.pow_le_pow_right (by decide) (Nat.le_of_lt_succ hk)
  have hn : (0x20000001 : UInt32).toNat = 0x20000001 := rfl
  omega

end Growing

end PtrArray

end Os161.Kernlib

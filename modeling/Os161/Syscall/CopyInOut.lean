import Mathlib.Logic.Function.Basic
import Os161.Limits

set_option autoImplicit false

/-!
# Copying between user and kernel memory

`kern/vm/copyinout.c`. User memory is a partial function: an address that has no value cannot be
accessed, and the copy that touches it comes back through `copyfail`. Sizes and addresses are 32
bits wide, so the end of a region can wrap around. A copy out moves bytes upwards and keeps what
it has stored before a fault.
-/

namespace Os161.Syscall

/-- The bytes of a user address space. -/
abbrev UserMem : Type := UInt32 → Option UInt8

/-- `USERSPACETOP`. -/
def userspacetop : UInt32 := 0x80000000

/-- `copycheck`: the length that can be copied. -/
def copycheck (userptr len : UInt32) : Except Errno UInt32 :=
  let top := userptr + len - 1
  if top < userptr then .error .EFAULT
  else if userspacetop ≤ userptr then .error .EFAULT
  else if userspacetop ≤ top then .ok (userspacetop - userptr)
  else .ok len

/-- `memcpy` from user memory. -/
def loadBytes (u : UserMem) : UInt32 → Nat → Option (List UInt8)
  | _, 0 => some []
  | a, n + 1 => do
      let b ← u a
      let bs ← loadBytes u (a + 1) n
      some (b :: bs)

/-- `memcpy` to user memory, and whether it got to its end. -/
def storeBytes : List UInt8 → UInt32 → UserMem → Bool × UserMem
  | [], _, u => (true, u)
  | b :: bs, a, u =>
      if (u a).isNone then (false, u)
      else storeBytes bs (a + 1) (Function.update u a (some b))

/-- `copyin`. -/
def copyin (u : UserMem) (usersrc len : UInt32) : Except Errno (List UInt8) :=
  match copycheck usersrc len with
  | .error e => .error e
  | .ok stoplen =>
      if stoplen ≠ len then .error .EFAULT
      else match loadBytes u usersrc len.toNat with
        | none => .error .EFAULT
        | some bs => .ok bs

/-- `copyout`. -/
def copyout (src : List UInt8) (userdest : UInt32) (u : UserMem) : Except Errno Unit × UserMem :=
  match copycheck userdest (.ofNat src.length) with
  | .error e => (.error e, u)
  | .ok stoplen =>
      if stoplen ≠ .ofNat src.length then (.error .EFAULT, u)
      else match storeBytes src userdest u with
        | (true, u') => (.ok (), u')
        | (false, u') => (.error .EFAULT, u')

/-- How `copystr` ends. -/
inductive CopystrEnd where
  /-- The terminator has been copied. -/
  | terminated
  /-- The loop has run to its end. -/
  | exhausted
  /-- A byte could not be accessed. -/
  | fault
  deriving DecidableEq, Repr

/-- The loop of `copystr` over the `left` bytes from `src` on, with what it has copied. -/
def copystrLoop (u : UserMem) : Nat → UInt32 → List UInt8 × CopystrEnd
  | 0, _ => ([], .exhausted)
  | left + 1, src =>
      match u src with
      | none => ([], .fault)
      | some b =>
          if b = 0 then ([b], .terminated)
          else
            let rest := copystrLoop u left (src + 1)
            (b :: rest.1, rest.2)

/-- `ENAMETOOLONG`. -/
def enametoolong : Int := 7

/-- `copyinstr`: what has been copied, and the error number. -/
def copyinstr (u : UserMem) (usersrc len : UInt32) : List UInt8 × Int :=
  match copycheck usersrc len with
  | .error e => ([], e.code)
  | .ok stoplen =>
      match copystrLoop u (min len.toNat stoplen.toNat) usersrc with
      | (bs, .terminated) => (bs, 0)
      | (bs, .fault) => (bs, Errno.EFAULT.code)
      | (bs, .exhausted) => (bs, if stoplen < len then Errno.EFAULT.code else enametoolong)

/-- The loop of `copystr` over the bytes of `src`, to the user address `dest`. -/
def copyoutstrLoop : List UInt8 → UInt32 → UserMem → CopystrEnd × UserMem
  | [], _, u => (.exhausted, u)
  | b :: src, dest, u =>
      if (u dest).isNone then (.fault, u)
      else
        let u' := Function.update u dest (some b)
        if b = 0 then (.terminated, u') else copyoutstrLoop src (dest + 1) u'

/-- `copyoutstr`: the error number or `*actual`, the index of the terminator plus one. -/
def copyoutstr (src : List UInt8) (userdest len : UInt32) (u : UserMem) :
    Except Int UInt32 × UserMem :=
  match copycheck userdest len with
  | .error e => (.error e.code, u)
  | .ok stoplen =>
      let part := src.take (min len.toNat stoplen.toNat)
      match copyoutstrLoop part userdest u with
      | (.terminated, u') => (.ok (.ofNat ((part.takeWhile (· ≠ 0)).length + 1)), u')
      | (.fault, u') => (.error Errno.EFAULT.code, u')
      | (.exhausted, u') =>
          (.error (if stoplen < len then Errno.EFAULT.code else enametoolong), u')

/-! ## Regions that can be copied -/

/-- A readable user buffer with its contents. -/
structure UserBuffer where
  mem : UserMem
  addr : UInt32
  bytes : List UInt8
  below : addr.toNat + bytes.length ≤ userspacetop.toNat
  holds : ∀ i (h : i < bytes.length), mem (addr + .ofNat i) = some bytes[i]

/-- Its length. -/
def UserBuffer.len (b : UserBuffer) : UInt32 := .ofNat b.bytes.length

/-- The bytes from `a` on that can be accessed before one that cannot, at most `n`. -/
def reach (u : UserMem) : UInt32 → Nat → Nat
  | _, 0 => 0
  | a, n + 1 => if (u a).isNone then 0 else reach u (a + 1) n + 1

/-- The bytes that a copy of `len` bytes to `a` stores. -/
def stored (u : UserMem) (a len : UInt32) : Nat :=
  if copycheck a len = .ok len then reach u a len.toNat else 0

section Regions

variable {u u' : UserMem} {a len : UInt32} {bs : List UInt8}

theorem copycheck_eq_len :
    copycheck a len = .ok len ↔ 0 < len.toNat ∧ a.toNat + len.toNat ≤ userspacetop.toNat := by
  have ha := a.toNat_lt
  have hl := len.toNat_lt
  have htop : userspacetop.toNat = 2 ^ 31 := rfl
  have hone : (1 : UInt32).toNat = 1 := rfl
  simp only [copycheck]
  split_ifs with h₁ h₂ h₃ <;>
    simp only [UInt32.lt_iff_toNat_lt, UInt32.le_iff_toNat_le, UInt32.toNat_sub, UInt32.toNat_add,
      false_iff, true_iff, Except.ok.injEq, ← UInt32.toNat_inj] at * <;>
    omega

/-- A region is refused with `EFAULT` only. -/
theorem copycheck_error {e : Errno} (h : copycheck a len = .error e) : e = .EFAULT := by
  simp only [copycheck] at h
  split_ifs at h <;> exact (Except.error.inj h).symm

/-- `copyout` has no other error than `EFAULT`. -/
theorem copyout_error {e : Errno} (h : (copyout bs a u).1 = .error e) : e = .EFAULT := by
  rw [copyout] at h
  cases hc : copycheck a (.ofNat bs.length) with
  | error e' =>
      rw [hc] at h
      rw [← copycheck_error hc]
      exact (Except.error.inj h).symm
  | ok stoplen =>
      simp only [hc] at h
      split_ifs at h
      · exact (Except.error.inj h).symm
      · rcases hst : storeBytes bs a u with ⟨_ | _, u'⟩ <;> rw [hst] at h
        · exact (Except.error.inj h).symm
        · cases h

theorem copystrLoop_length (u : UserMem) (left : Nat) (a : UInt32) :
    (copystrLoop u left a).1.length ≤ left := by
  induction left generalizing a with
  | zero => exact Nat.le_refl 0
  | succ left ih =>
      rw [copystrLoop]
      cases u a with
      | none => exact Nat.zero_le _
      | some b =>
          by_cases hb : b = 0
          · simp [hb]
          · have := ih (a + 1)
            simp only [hb, if_false, List.length_cons]
            omega

/-- `copyinstr` never fills more than the `len` bytes it may. -/
theorem copyinstr_length (u : UserMem) (a len : UInt32) :
    (copyinstr u a len).1.length ≤ len.toNat := by
  rw [copyinstr]
  cases copycheck a len with
  | error e => exact Nat.zero_le _
  | ok stoplen =>
      have hle := copystrLoop_length u (min len.toNat stoplen.toNat) a
      rcases hloop : copystrLoop u (min len.toNat stoplen.toNat) a with ⟨bs, e⟩
      rw [hloop] at hle
      cases e <;> simp only [hloop] <;> exact Nat.le_trans hle (Nat.min_le_left _ _)

theorem reach_le (u : UserMem) (a : UInt32) (n : Nat) : reach u a n ≤ n := by
  induction n generalizing a with
  | zero => exact Nat.le_refl 0
  | succ n ih =>
      rw [reach]
      split_ifs with h
      · exact Nat.zero_le _
      · have := ih (a + 1)
        omega

/-- Storing a byte where one can be accessed does not change what can be accessed. -/
theorem reach_update {b : UInt8} {x : UInt32} (hx : (u x).isNone = false) (n : Nat) :
    reach (Function.update u x (some b)) a n = reach u a n := by
  induction n generalizing a with
  | zero => rfl
  | succ n ih =>
      rw [reach, reach, ih]
      by_cases h : a = x
      · subst h
        simp [hx]
      · rw [Function.update_of_ne h]

/-- `memcpy` gets to its end when all addresses can be accessed. -/
theorem storeBytes_fst (bs : List UInt8) (u : UserMem) (a : UInt32) :
    (storeBytes bs a u).1 = decide (reach u a bs.length = bs.length) := by
  induction bs generalizing a u with
  | nil => simp [storeBytes, reach]
  | cons b bs ih =>
      rw [storeBytes, List.length_cons, reach]
      split_ifs with h
      · simp
      · rw [ih, reach_update (Bool.eq_false_iff.2 h)]
        simp

/-- `memcpy` stores the bytes in front of the first address that cannot be accessed. -/
theorem storeBytes_snd (bs : List UInt8) (u : UserMem) (hbelow : a.toNat + bs.length ≤ userspacetop.toNat) (x : UInt32) :
    (storeBytes bs a u).2 x =
      if a.toNat ≤ x.toNat ∧ x.toNat - a.toNat < reach u a bs.length then bs[x.toNat - a.toNat]?
      else u x := by
  induction bs generalizing a u with
  | nil => simp [storeBytes, reach]
  | cons b bs ih =>
      have htop : userspacetop.toNat = 2 ^ 31 := rfl
      have hnext : (a + 1).toNat = a.toNat + 1 := by
        have ha : a.toNat + 1 < 2 ^ 32 := by
          simp only [List.length_cons] at hbelow
          omega
        rw [UInt32.toNat_add]
        exact Nat.mod_eq_of_lt ha
      simp only [storeBytes, List.length_cons, reach]
      by_cases h : (u a).isNone
      · simp [h]
      · have hbelow' : (a + 1).toNat + bs.length ≤ userspacetop.toNat := by
          simp only [List.length_cons] at hbelow
          omega
        simp only [h, Bool.false_eq_true, if_false]
        rw [ih _ hbelow', reach_update (Bool.eq_false_iff.2 h), hnext]
        rcases Nat.lt_trichotomy x.toNat a.toNat with hlt | heq | hgt
        · have hne : x ≠ a := by
            rintro rfl
            omega
          rw [if_neg (by omega), if_neg (by omega), Function.update_of_ne hne]
        · obtain rfl : x = a := UInt32.toNat_inj.1 heq
          rw [if_neg (by omega), if_pos (by omega), Function.update_self]
          simp
        · have hne : x ≠ a := by
            rintro rfl
            omega
          have hidx : x.toNat - a.toNat = (x.toNat - (a.toNat + 1)) + 1 := by omega
          by_cases hr : x.toNat - (a.toNat + 1) < reach u (a + 1) bs.length
          · rw [if_pos (by omega), if_pos (by omega)]
            simp [hidx]
          · rw [if_neg (by omega), if_neg (by omega), Function.update_of_ne hne]

/-- The bytes of a string up to its first zero byte. -/
def terminatedPart : List UInt8 → List UInt8
  | [] => []
  | b :: bs => if b = 0 then [b] else b :: terminatedPart bs

theorem terminatedPart_of_notMem (h : 0 ∉ bs) : terminatedPart bs = bs := by
  induction bs with
  | nil => rfl
  | cons b bs ih =>
      obtain ⟨hb, hbs⟩ := not_or.1 (mt List.mem_cons.2 h)
      rw [terminatedPart, if_neg (Ne.symm hb), ih hbs]

/-- `copystr` stores a string up to its first zero byte. -/
theorem copyoutstrLoop_eq (bs : List UInt8) (a : UInt32) (u : UserMem) :
    copyoutstrLoop bs a u =
      (if (storeBytes (terminatedPart bs) a u).1 = false then .fault
        else if 0 ∈ bs then .terminated else .exhausted,
        (storeBytes (terminatedPart bs) a u).2) := by
  induction bs generalizing a u with
  | nil => rfl
  | cons b bs ih =>
      rw [copyoutstrLoop, terminatedPart]
      by_cases hu : (u a).isNone
      · cases hb : decide (b = 0) <;> simp_all [storeBytes]
      · by_cases hb : b = 0
        · simp [storeBytes, hu, hb]
        · simp [storeBytes, hu, hb, Ne.symm hb, ih]

theorem stored_le (u : UserMem) (a len : UInt32) : stored u a len ≤ len.toNat := by
  unfold stored
  split_ifs
  · exact reach_le _ _ _
  · exact Nat.zero_le _

section Copyout

variable (hlen : bs.length = len.toNat)

include hlen

private theorem ofNat_length : UInt32.ofNat bs.length = len := by
  rw [hlen, UInt32.ofNat_toNat]

/-- `copyout` succeeds when it stores everything, and there is something to store. -/
theorem copyout_fst : (copyout bs a u).1 = .ok () ↔ 0 < len.toNat ∧ stored u a len = len.toNat := by
  have hfst := storeBytes_fst bs u a
  rw [copyout, ofNat_length hlen]
  cases hc : copycheck a len with
  | error e =>
      have hne : copycheck a len ≠ .ok len := by simp [hc]
      simp only [stored, hne, if_false, reduceCtorEq, false_iff]
      omega
  | ok stoplen =>
      by_cases hs : stoplen = len
      · subst hs
        obtain ⟨hpos, -⟩ := copycheck_eq_len.1 hc
        rcases hst : storeBytes bs a u with ⟨ok, u'⟩
        rw [hst, hlen] at hfst
        cases ok <;> simp [stored, hc, hpos] at hfst ⊢ <;> exact hfst
      · have hne : copycheck a len ≠ .ok len := by simp [hc, hs]
        simp only [hs, ne_eq, not_false_eq_true, if_true, stored, hne, if_false, reduceCtorEq,
          false_iff]
        omega

/-- `copyout` stores bytes from the start of its source, and changes no other address. -/
theorem copyout_snd (x : UInt32) : (copyout bs a u).2 x =
    if a.toNat ≤ x.toNat ∧ x.toNat - a.toNat < stored u a len then bs[x.toNat - a.toNat]?
    else u x := by
  rw [copyout, ofNat_length hlen]
  cases hc : copycheck a len with
  | error e =>
      have hne : copycheck a len ≠ .ok len := by simp [hc]
      simp [stored, hne]
  | ok stoplen =>
      by_cases hs : stoplen = len
      · subst hs
        have hsnd := storeBytes_snd bs u (hlen ▸ (copycheck_eq_len.1 hc).2) x
        rcases hst : storeBytes bs a u with ⟨ok, u'⟩
        rw [hst, hlen] at hsnd
        rw [stored, if_pos hc]
        cases ok <;> simpa using hsnd
      · have hne : copycheck a len ≠ .ok len := by simp [hc, hs]
        simp [stored, hne, hs]

end Copyout

/-- Where every byte can be accessed, all of them are reached. -/
theorem reach_eq {n : Nat} (h : ∀ i < n, u (a + .ofNat i) ≠ none) : reach u a n = n := by
  induction n generalizing a with
  | zero => rfl
  | succ n ih =>
      have hzero := h 0 (Nat.succ_pos n)
      rw [show UInt32.ofNat 0 = 0 from rfl, UInt32.add_zero] at hzero
      have hrest : reach u (a + 1) n = n := ih fun i hi => by
        have hi' := h (i + 1) (Nat.succ_lt_succ hi)
        rwa [UInt32.ofNat_add, UInt32.add_comm (.ofNat i), ← UInt32.add_assoc] at hi'
      rw [reach, hrest, if_neg (by simpa using hzero)]

namespace UserBuffer

variable (b : UserBuffer)

theorem toNat_len : b.len.toNat = b.bytes.length := by
  have hbelow := b.below
  have htop : userspacetop.toNat = 2 ^ 31 := rfl
  exact UInt32.toNat_ofNat_of_lt' (show b.bytes.length < 2 ^ 32 by omega)

theorem reach_mem {n : Nat} (hn : n ≤ b.bytes.length) : reach b.mem b.addr n = n :=
  reach_eq fun i hi => by simp [b.holds i (by omega)]

theorem copycheck_eq (hpos : 0 < b.bytes.length) : copycheck b.addr b.len = .ok b.len := by
  rw [copycheck_eq_len, b.toNat_len]
  exact ⟨hpos, b.below⟩

/-- Bytes that fit are stored at the start of the buffer. -/
theorem storeBytes_mem (hbs : bs.length ≤ b.bytes.length) (x : UInt32) :
    (storeBytes bs b.addr b.mem).2 x =
      if b.addr.toNat ≤ x.toNat ∧ x.toNat - b.addr.toNat < bs.length then bs[x.toNat - b.addr.toNat]?
      else b.mem x := by
  have hbelow := b.below
  rw [storeBytes_snd _ _ (by omega), b.reach_mem hbs]

end UserBuffer

theorem terminatedPart_length (bs : List UInt8) : (terminatedPart bs).length ≤ bs.length := by
  induction bs with
  | nil => exact Nat.le_refl 0
  | cons b bs ih =>
      rw [terminatedPart]
      split_ifs
      · exact Nat.le_add_left 1 _
      · exact Nat.succ_le_succ ih

/-- A string is copied to a buffer of its size. Without a zero byte in it that is an error, after
all of it has been copied. -/
theorem copyoutstr_mem (b : UserBuffer) (hpos : 0 < b.bytes.length)
    (hlen : bs.length = b.bytes.length) :
    copyoutstr bs b.addr b.len b.mem =
      (if 0 ∈ bs then .ok (.ofNat ((bs.takeWhile (· ≠ 0)).length + 1)) else .error enametoolong,
        (storeBytes (terminatedPart bs) b.addr b.mem).2) := by
  have hlen' : bs.length ≤ b.len.toNat := Nat.le_of_eq (hlen.trans b.toNat_len.symm)
  have hstore : (storeBytes (terminatedPart bs) b.addr b.mem).1 = true := by
    have hle := terminatedPart_length bs
    rw [storeBytes_fst, b.reach_mem (by omega)]
    exact decide_eq_true rfl
  rw [copyoutstr, b.copycheck_eq hpos]
  simp only [Nat.min_self, List.take_of_length_le hlen', copyoutstrLoop_eq, hstore,
    Bool.true_eq_false, if_false]
  by_cases hzero : 0 ∈ bs
  · simp [hzero]
  · simp [hzero]

end Regions

end Os161.Syscall

import Os161.Syscall.UserSpace

set_option autoImplicit false

/-!
# Moving data for a `struct uio`

`uiomove` and `uiomovezeros` of `kern/lib/uio.c`, on the memories of the kernel and of the current
process. A piece is as much of the first iovec as `n` leaves; `uio_resid` is only looked at between
two pieces, and wraps around when a piece is longer.

All kernel addresses can be accessed. The enumerations have no other values than those of the
header, so the panics on others are not there.
-/

namespace Os161.Kernlib.Uiomove

open Os161.Syscall

/-- `enum uio_rw`. -/
inductive Rw where
  /-- From the kernel to the iovecs. -/
  | read
  /-- From the iovecs to the kernel. -/
  | write
  deriving DecidableEq, Repr

/-- `enum uio_seg`. -/
inductive Seg where
  | userispace
  | userspace
  | sysspace
  deriving DecidableEq, Repr

/-- `struct iovec`. -/
structure Iovec where
  base : UInt32
  len : UInt32
  deriving DecidableEq, Repr

/-- `struct uio`; `iov` holds the `uio_iovcnt` iovecs from `uio_iov` on. -/
structure Uio where
  iov : List Iovec
  offset : Int
  resid : UInt32
  segflg : Seg
  rw : Rw
  space : Option Nat
  deriving DecidableEq, Repr

/-- The memory of the kernel, and what the current process can access. -/
structure Mem where
  kernel : UInt32 → UInt8
  user : UserMem

/-- What stops the kernel. -/
inductive Panic where
  | assertion
  /-- "uiomove: ran out of buffers" -/
  | ranOut
  /-- `uio_iov` points behind the iovecs. -/
  | outside
  deriving DecidableEq, Repr

/-! ## One piece -/

/-- `memmove`: what is moved is what was there before. -/
def memmove (dest src : UInt32) (size : Nat) (k : UInt32 → UInt8) : UInt32 → UInt8 := fun x =>
  if (x - dest).toNat < size then k (src + (x - dest)) else k x

/-- The `size` bytes of kernel memory at `src`. -/
def kernelBytes (m : Mem) (src : UInt32) (size : Nat) : List UInt8 :=
  (List.range size).map fun i => m.kernel (src + .ofNat i)

/-- `copyout` from kernel memory. -/
def copyoutFrom (src userdest len : UInt32) (m : Mem) : Except Errno Unit × Mem :=
  let r := copyout (kernelBytes m src len.toNat) userdest m.user
  (r.1, { m with user := r.2 })

/-- `copyin` to kernel memory; the bytes in front of a fault have been stored. -/
def copyinTo (usersrc dest len : UInt32) (m : Mem) : Except Errno Unit × Mem :=
  let got := stored m.user usersrc len
  let kernel := fun x =>
    if (x - dest).toNat < got then (m.user (usersrc + (x - dest))).getD 0 else m.kernel x
  match copyin m.user usersrc len with
  | .ok _ => (.ok (), { m with kernel := kernel })
  | .error e => (.error e, { m with kernel := kernel })

/-- The `switch` of `uiomove`: one piece between the iovec at `base` and the kernel at `ptr`. -/
def movePiece (seg : Seg) (rw : Rw) (base ptr size : UInt32) (m : Mem) : Except Errno Unit × Mem :=
  match seg, rw with
  | .sysspace, .read => (.ok (), { m with kernel := memmove base ptr size.toNat m.kernel })
  | .sysspace, .write => (.ok (), { m with kernel := memmove ptr base size.toNat m.kernel })
  | _, .read => copyoutFrom ptr base size m
  | _, .write => copyinTo base ptr size m

/-! ## The loops -/

/-- The uio after a piece of `size` bytes from its first iovec `v`. -/
def Uio.advance (u : Uio) (v : Iovec) (rest : List Iovec) (size : UInt32) : Uio :=
  { u with
    iov := { base := v.base + size, len := v.len - size } :: rest
    resid := u.resid - size
    offset := u.offset + size.toNat }

/-- `size = iov->iov_len; if (size > n) size = n`. -/
def Iovec.size (v : Iovec) (n : UInt32) : UInt32 := if n < v.len then n else v.len

theorem Iovec.size_toNat (v : Iovec) (n : UInt32) :
    (v.size n).toNat = min v.len.toNat n.toNat := by
  rw [Iovec.size]
  split_ifs with h <;> rw [UInt32.lt_iff_toNat_lt] at h <;> omega

/-- What a call returns: the error number, the uio and the memory, unless it panics. -/
abbrev Result : Type := Except Panic (Except Errno Unit × Uio × Mem)

/-- The loop of `uiomove`. -/
def moveLoop (ptr n : UInt32) (u : Uio) (m : Mem) : Result :=
  if n = 0 ∨ u.resid = 0 then .ok (.ok (), u, m)
  else
    match _hiov : u.iov with
    | [] => .error .outside
    | v :: rest =>
        if _hsize : v.size n = 0 then
          -- `uio_iovcnt` is decremented before it is looked at
          if rest = [] then .error .ranOut
          else moveLoop ptr n { u with iov := rest } m
        else
          match movePiece u.segflg u.rw v.base ptr (v.size n) m with
          | (.error e, m') => .ok (.error e, u, m')
          | (.ok (), m') =>
              moveLoop (ptr + v.size n) (n - v.size n) (u.advance v rest (v.size n)) m'
termination_by n.toNat + u.iov.length
decreasing_by
  · rw [_hiov]
    simp only [List.length_cons]
    omega
  · have hle : v.size n ≤ n := by
      rw [UInt32.le_iff_toNat_le, Iovec.size_toNat]
      omega
    have hpos : 0 < (v.size n).toNat := by
      rw [Nat.pos_iff_ne_zero, ne_eq, ← UInt32.toNat_zero, UInt32.toNat_inj]
      exact _hsize
    rw [_hiov, UInt32.toNat_sub_of_le _ _ hle, Uio.advance]
    simp only [List.length_cons]
    rw [UInt32.le_iff_toNat_le] at hle
    omega

/-- `uiomove`; `as` is the address space of the current process. -/
def uiomove (as : Option Nat) (ptr n : UInt32) (u : Uio) (m : Mem) : Result :=
  if u.space = (if u.segflg = .sysspace then none else as) then moveLoop ptr n u m
  else .error .assertion

/-- `amt = sizeof(zeros); if (amt > n) amt = n`. -/
def zerosSize (n : UInt32) : UInt32 := if n < 16 then n else 16

theorem zerosSize_toNat (n : UInt32) : (zerosSize n).toNat = min n.toNat 16 := by
  have h16 : (16 : UInt32).toNat = 16 := rfl
  rw [zerosSize]
  split_ifs with h <;> rw [UInt32.lt_iff_toNat_lt] at h <;> omega

/-- The loop of `uiomovezeros`; the 16 zeros are at `zeros`. -/
def zerosLoop (as : Option Nat) (zeros n : UInt32) (u : Uio) (m : Mem) : Result :=
  if _hn : n = 0 then .ok (.ok (), u, m)
  else
    match uiomove as zeros (zerosSize n) u m with
    | .error p => .error p
    | .ok (.error e, u', m') => .ok (.error e, u', m')
    | .ok (.ok (), u', m') => zerosLoop as zeros (n - zerosSize n) u' m'
termination_by n.toNat
decreasing_by
  have hamt := zerosSize_toNat n
  have hpos : 0 < n.toNat := by
    rw [Nat.pos_iff_ne_zero, ne_eq, ← UInt32.toNat_zero, UInt32.toNat_inj]
    exact _hn
  have hle : zerosSize n ≤ n := by
    rw [UInt32.le_iff_toNat_le]
    omega
  rw [UInt32.toNat_sub_of_le _ _ hle]
  omega

/-- `uiomovezeros`. -/
def uiomovezeros (as : Option Nat) (zeros n : UInt32) (u : Uio) (m : Mem) : Result :=
  if u.rw = .read then zerosLoop as zeros n u m else .error .assertion

/-! ## What one piece does -/

/-- The bytes go to user memory. -/
def toUser (seg : Seg) (rw : Rw) : Bool := seg != .sysspace && rw == .read

/-- The bytes come from user memory. -/
def fromUser (seg : Seg) (rw : Rw) : Bool := seg != .sysspace && rw == .write

/-- What is in the memory that the bytes come from. -/
def source (seg : Seg) (rw : Rw) (m : Mem) (x : UInt32) : Option UInt8 :=
  if fromUser seg rw then m.user x else some (m.kernel x)

/-- What is in the memory that the bytes go to. -/
def target (seg : Seg) (rw : Rw) (m : Mem) (x : UInt32) : Option UInt8 :=
  if toUser seg rw then m.user x else some (m.kernel x)

/-- Where the bytes go to. -/
def dest (rw : Rw) (base ptr : UInt32) : UInt32 :=
  match rw with
  | .read => base
  | .write => ptr

/-- Where the bytes come from. -/
def origin (rw : Rw) (base ptr : UInt32) : UInt32 :=
  match rw with
  | .read => ptr
  | .write => base

/-- An address of mapped user space. -/
def InUser (u : UserMem) (a : UInt32) : Prop := a < userspacetop ∧ u a ≠ none

/-- A byte of an iovec that can be moved. -/
def Accepts (seg : Seg) (u : UserMem) (a : UInt32) : Prop := seg = .sysspace ∨ InUser u a

/-- The memories differ at the places `S` of the memory that the bytes go to. -/
structure Agree (seg : Seg) (rw : Rw) (S : UInt32 → Prop) (m m' : Mem) : Prop where
  kernel : ∀ x, (toUser seg rw = false → ¬ S x) → m'.kernel x = m.kernel x
  user : ∀ x, (toUser seg rw = true → ¬ S x) → m'.user x = m.user x
  mapped : ∀ x, m'.user x = none ↔ m.user x = none

/-- The first `got` bytes of a piece have been moved. -/
structure Copied (seg : Seg) (rw : Rw) (base ptr : UInt32) (got : Nat) (m m' : Mem) : Prop where
  target : ∀ x, target seg rw m' x =
    if (x - dest rw base ptr).toNat < got then
      source seg rw m (origin rw base ptr + (x - dest rw base ptr))
    else target seg rw m x
  agree : Agree seg rw (fun x => (x - dest rw base ptr).toNat < got) m m'

section Piece

variable {seg : Seg} {rw : Rw} {base ptr size : UInt32} {m : Mem}

theorem sub_add_cancel' (x y : UInt32) : y + (x - y) = x := by
  rw [UInt32.add_comm, UInt32.sub_add_cancel]

/-- A move between kernel addresses. -/
theorem copied_kernel (rw : Rw) (base ptr : UInt32) (got : Nat) (m : Mem) :
    Copied .sysspace rw base ptr got m
      { m with kernel := memmove (dest rw base ptr) (origin rw base ptr) got m.kernel } where
  target x := by
    have hto : toUser .sysspace rw = false := rfl
    have hfrom : fromUser .sysspace rw = false := rfl
    simp only [target, source, hto, hfrom, memmove, Bool.false_eq_true, if_false]
    split_ifs <;> rfl
  agree :=
    { kernel := fun x hx => if_neg (hx rfl)
      user := fun x _ => rfl
      mapped := fun x => Iff.rfl }

/-- All bytes of a region are in mapped user space, by their addresses. -/
theorem allMapped_iff_inUser (u : UserMem) (p len : UInt32) :
    AllMapped u p len ↔ ∀ i < len.toNat, InUser u (p + .ofNat i) := by
  have htop : userspacetop.toNat = 2 ^ 31 := rfl
  have hlen := len.toNat_lt
  have hp := p.toNat_lt
  have haddr : ∀ i, (p + .ofNat i).toNat = (p.toNat + i) % 2 ^ 32 := fun i => by
    rw [UInt32.toNat_add, UInt32.toNat_ofNat', Nat.add_mod_mod]
  constructor
  · intro h i hi
    obtain ⟨hbelow, hread⟩ := h i hi
    refine ⟨?_, hread⟩
    rw [UInt32.lt_iff_toNat_lt, haddr]
    omega
  · intro h i hi
    have hnowrap : p.toNat + i < 2 ^ 32 := by
      -- a region that wraps around contains the last address
      by_contra hwrap
      have hlast := (h (2 ^ 32 - 1 - p.toNat) (by omega)).1
      rw [UInt32.lt_iff_toNat_lt, haddr] at hlast
      omega
    obtain ⟨hbelow, hread⟩ := h i hi
    rw [UInt32.lt_iff_toNat_lt, haddr] at hbelow
    exact ⟨by omega, hread⟩

theorem stored_bound (u : UserMem) (p len : UInt32) :
    stored u p len = 0 ∨ p.toNat + len.toNat ≤ userspacetop.toNat := by
  rw [stored]
  split_ifs with hc
  · exact .inr (copycheck_eq_len.1 hc).2
  · exact .inl rfl

/-- What a copy gets to can be accessed. -/
theorem ne_none_of_lt_stored {u : UserMem} {p len x : UInt32} (h : (x - p).toNat < stored u p len) :
    u x ≠ none := by
  rw [stored] at h
  split_ifs at h
  · have hread : Readable u p (x - p).toNat := readable_of_lt_reach _ _ h
    rwa [Readable, UInt32.ofNat_toNat, sub_add_cancel'] at hread
  · exact absurd h (Nat.not_lt_zero _)

theorem kernelBytes_length (m : Mem) (src : UInt32) (n : Nat) :
    (kernelBytes m src n).length = n := by
  rw [kernelBytes, List.length_map, List.length_range]

theorem kernelBytes_get (m : Mem) (src d : UInt32) {n : Nat} (h : d.toNat < n) :
    (kernelBytes m src n)[d.toNat]? = some (m.kernel (src + d)) := by
  rw [kernelBytes, List.getElem?_map, List.getElem?_range h, Option.map_some, UInt32.ofNat_toNat]

/-- The user memory after `copyout`. -/
theorem copyoutFrom_user (m : Mem) (ptr base size x : UInt32) :
    (copyoutFrom ptr base size m).2.user x =
      if (x - base).toNat < stored m.user base size then some (m.kernel (ptr + (x - base)))
      else m.user x := by
  have htop : userspacetop.toNat = 2 ^ 31 := rfl
  have hbase := base.toNat_lt
  have hx := x.toNat_lt
  have hle := stored_le m.user base size
  have hbound := stored_bound m.user base size
  have hsub : (x - base).toNat = (2 ^ 32 - base.toNat + x.toNat) % 2 ^ 32 := UInt32.toNat_sub x base
  have hcond : (base.toNat ≤ x.toNat ∧ x.toNat - base.toNat < stored m.user base size) ↔
      (x - base).toNat < stored m.user base size := by omega
  rw [copyoutFrom]
  dsimp only
  rw [copyout_snd (kernelBytes_length m ptr _), if_congr hcond rfl rfl]
  split_ifs with h
  · have hdiff : x.toNat - base.toNat = (x - base).toNat := by omega
    rw [hdiff, kernelBytes_get m ptr _ (by omega)]
  · rfl

theorem copied_copyout (hseg : seg ≠ .sysspace) : Copied seg .read base ptr
    (stored m.user base size) m (copyoutFrom ptr base size m).2 := by
  have hto : toUser seg .read = true := by simp [toUser, hseg]
  have hfrom : fromUser seg .read = false := by simp [fromUser]
  have huser := copyoutFrom_user m ptr base size
  refine ⟨fun x => ?_, ⟨fun x _ => rfl, fun x hx => ?_, fun x => ?_⟩⟩
  · simp only [target, source, hto, hfrom, dest, origin, Bool.false_eq_true, if_true, if_false]
    exact huser x
  · exact (huser x).trans (if_neg (hx hto))
  · rw [huser]
    split_ifs with h
    · exact ⟨fun hn => absurd hn (by nofun), fun hn => absurd hn (ne_none_of_lt_stored h)⟩
    · exact Iff.rfl

theorem copied_copyin (hseg : seg ≠ .sysspace) : Copied seg .write base ptr
    (stored m.user base size) m (copyinTo base ptr size m).2 := by
  have hto : toUser seg .write = false := by simp [toUser]
  have hfrom : fromUser seg .write = true := by simp [fromUser, hseg]
  have hkernel : ∀ x, (copyinTo base ptr size m).2.kernel x =
      if (x - ptr).toNat < stored m.user base size then (m.user (base + (x - ptr))).getD 0
      else m.kernel x := fun x => by
    rw [copyinTo]
    cases copyin m.user base size <;> rfl
  have huser : (copyinTo base ptr size m).2.user = m.user := by
    rw [copyinTo]
    cases copyin m.user base size <;> rfl
  refine ⟨fun x => ?_, ⟨fun x hx => (hkernel x).trans (if_neg (hx hto)),
    fun x _ => congrFun huser x, fun x => by rw [huser]⟩⟩
  simp only [target, source, hto, hfrom, dest, origin, Bool.false_eq_true, if_true, if_false,
    hkernel]
  split_ifs with h
  · have hread : m.user (base + (x - ptr)) ≠ none := by
      have hlt : (base + (x - ptr) - base).toNat < stored m.user base size := by
        rwa [UInt32.add_comm, UInt32.add_sub_cancel]
      exact ne_none_of_lt_stored hlt
    obtain ⟨b, hb⟩ := Option.ne_none_iff_exists'.1 hread
    rw [hb]
    rfl
  · rfl

/-- A piece is moved as a whole, or as far as the first address that cannot be accessed. -/
theorem movePiece_spec (seg : Seg) (rw : Rw) (base ptr : UInt32) (m : Mem)
    (hsize : 0 < size.toNat) : ∃ got m', Copied seg rw base ptr got m m' ∧
      ((∀ i < size.toNat, Accepts seg m.user (base + .ofNat i)) → got = size.toNat ∧
        movePiece seg rw base ptr size m = (.ok (), m')) ∧
      (¬ (∀ i < size.toNat, Accepts seg m.user (base + .ofNat i)) → got ≤ size.toNat ∧
        movePiece seg rw base ptr size m = (.error .EFAULT, m')) := by
  by_cases hseg : seg = .sysspace
  · subst hseg
    refine ⟨size.toNat, _, copied_kernel rw base ptr size.toNat m, fun _ => ⟨rfl, ?_⟩, fun h => ?_⟩
    · cases rw <;> rfl
    · exact absurd (fun i _ => .inl rfl) h
  have haccepts : (∀ i < size.toNat, Accepts seg m.user (base + .ofNat i)) ↔
      AllMapped m.user base size := by
    rw [allMapped_iff_inUser]
    exact forall₂_congr fun i _ => or_iff_right hseg
  have hblock := blockCopies (u := m.user) (p := base) hsize (kernelBytes_length m ptr size.toNat)
  have hstored := stored_eq_iff (u := m.user) (p := base) hsize
  rw [haccepts]
  cases rw with
  | read =>
      have hmove : movePiece seg .read base ptr size m = copyoutFrom ptr base size m := by
        cases seg with
        | sysspace => exact absurd rfl hseg
        | userspace => rfl
        | userispace => rfl
      refine ⟨_, _, copied_copyout hseg, fun h => ⟨hstored.2 h, ?_⟩,
        fun h => ⟨stored_le m.user base size, ?_⟩⟩
      · exact hmove.trans (Prod.ext (hblock.copyout_ok h) rfl)
      · exact hmove.trans (Prod.ext (hblock.copyout_fault h) rfl)
  | write =>
      have hmove : movePiece seg .write base ptr size m = copyinTo base ptr size m := by
        cases seg with
        | sysspace => exact absurd rfl hseg
        | userspace => rfl
        | userispace => rfl
      refine ⟨_, _, copied_copyin hseg, fun h => ⟨hstored.2 h, ?_⟩,
        fun h => ⟨stored_le m.user base size, ?_⟩⟩
      · obtain ⟨bs, hbs⟩ := hblock.copyin_ok h
        refine hmove.trans (Prod.ext ?_ rfl)
        rw [copyinTo, hbs]
      · refine hmove.trans (Prod.ext ?_ rfl)
        rw [copyinTo, hblock.copyin_fault h]

end Piece

end Os161.Kernlib.Uiomove

import Mathlib.Algebra.Group.Nat.Defs
import Mathlib.Algebra.GroupWithZero.Nat
import Mathlib.Data.List.Basic
import Os161.Kernlib.Uio
import Os161.Lib.Pieces

set_option autoImplicit false

/-!
# How much `uiomove` moves

A piece of `uiomove` is bounded by `n` and by its iovec, not by `uio_resid`. The bytes of the iovecs
are numbered in order; pieces end where an iovec ends, and no later than at `n`. The loop keeps to
`uio_resid` exactly when `Fits` of `Os161.Lib.Pieces` holds for these ends. When it does not, the
piece in which byte `uio_resid` lies is moved as a whole, and `uio_resid` wraps around.
-/

namespace Os161.Kernlib.Uiomove

open Os161.Syscall
open Os161.Lib.Pieces

/-! ## The bytes of the iovecs -/

/-- The bytes of an iovec, each with whether it is the last one. -/
def Iovec.bytes (v : Iovec) : List (UInt32 × Bool) :=
  (List.range v.len.toNat).map fun i => (v.base + .ofNat i, i + 1 == v.len.toNat)

/-- The bytes of all iovecs in order. -/
def bytesOf (iov : List Iovec) : List (UInt32 × Bool) := iov.flatMap Iovec.bytes

/-- The sum of the `iov_len`. -/
def total (iov : List Iovec) : Nat := (iov.map fun v => v.len.toNat).sum

/-- An iovec ends at position `q`. -/
def Ends (iov : List Iovec) (q : Nat) : Prop := ∃ pre, pre <+: iov ∧ total pre = q

/-- The address of byte `i`. -/
def cell (iov : List Iovec) (i : Nat) : UInt32 := ((bytesOf iov).getD i (0, false)).1

/-- Byte `i` cannot be moved. -/
def Bad (seg : Seg) (u : UserMem) (iov : List Iovec) (i : Nat) : Prop :=
  i < total iov ∧ ¬ Accepts seg u (cell iov i)

/-- Position `q` is the end of an iovec, by the bytes. -/
def LastAt (L : List (UInt32 × Bool)) (q : Nat) : Prop := q = 0 ∨ ∃ a, L[q - 1]? = some (a, true)

section Bytes

variable {v : Iovec} {iov rest : List Iovec} {i q s : Nat}

@[simp] theorem bytes_length (v : Iovec) : v.bytes.length = v.len.toNat := by
  rw [Iovec.bytes, List.length_map, List.length_range]

theorem bytesOf_cons (v : Iovec) (rest : List Iovec) :
    bytesOf (v :: rest) = v.bytes ++ bytesOf rest := rfl

theorem total_cons (v : Iovec) (rest : List Iovec) :
    total (v :: rest) = v.len.toNat + total rest := rfl

@[simp] theorem bytesOf_length (iov : List Iovec) : (bytesOf iov).length = total iov := by
  induction iov with
  | nil => rfl
  | cons v rest ih => rw [bytesOf_cons, List.length_append, bytes_length, ih, total_cons]

theorem bytes_get (hi : i < v.len.toNat) :
    v.bytes[i]? = some (v.base + .ofNat i, i + 1 == v.len.toNat) := by
  rw [Iovec.bytes, List.getElem?_map, List.getElem?_range hi, Option.map_some]

theorem bytesOf_get (hi : i < v.len.toNat) :
    (bytesOf (v :: rest))[i]? = some (v.base + .ofNat i, i + 1 == v.len.toNat) := by
  rw [bytesOf_cons, List.getElem?_append_left (by rwa [bytes_length]), bytes_get hi]

theorem bytesOf_get_rest (hi : v.len.toNat ≤ i) :
    (bytesOf (v :: rest))[i]? = (bytesOf rest)[i - v.len.toNat]? := by
  rw [bytesOf_cons, List.getElem?_append_right (by rwa [bytes_length]), bytes_length]

theorem cell_cons (hi : i < v.len.toNat) : cell (v :: rest) i = v.base + .ofNat i := by
  rw [cell, List.getD_eq_getElem?_getD, bytesOf_get hi]
  rfl

theorem ends_cons : Ends (v :: rest) q ↔
    q = 0 ∨ (v.len.toNat ≤ q ∧ Ends rest (q - v.len.toNat)) := by
  constructor
  · rintro ⟨pre, hpre, rfl⟩
    cases pre with
    | nil => exact .inl rfl
    | cons w pre =>
        obtain ⟨rfl, hrest⟩ := List.cons_prefix_cons.1 hpre
        rw [total_cons, Nat.add_sub_cancel_left]
        exact .inr ⟨Nat.le_add_right _ _, pre, hrest, rfl⟩
  · rintro (rfl | ⟨hle, pre, hpre, hq⟩)
    · exact ⟨[], List.nil_prefix, rfl⟩
    · refine ⟨v :: pre, List.cons_prefix_cons.2 ⟨rfl, hpre⟩, ?_⟩
      rw [total_cons]
      omega

/-- The ends of the iovecs are behind their last bytes. -/
theorem ends_iff (iov : List Iovec) (q : Nat) : Ends iov q ↔ LastAt (bytesOf iov) q := by
  induction iov generalizing q with
  | nil =>
      constructor
      · rintro ⟨pre, hpre, rfl⟩
        rw [List.prefix_nil.1 hpre]
        exact .inl rfl
      · rintro (rfl | ⟨a, ha⟩)
        · exact ⟨[], List.nil_prefix, rfl⟩
        · cases ha
  | cons v rest ih =>
      rw [ends_cons, ih]
      refine or_congr_right' fun hq => ?_
      rcases Nat.lt_or_ge (q - 1) v.len.toNat with hlt | hge
      · rw [bytesOf_get hlt]
        constructor
        · rintro ⟨hle, -⟩
          refine ⟨_, congrArg some (Prod.ext rfl ?_)⟩
          rw [beq_iff_eq]
          omega
        · rintro ⟨a, ha⟩
          have hlast := (Prod.mk.inj (Option.some.inj ha)).2
          rw [beq_iff_eq] at hlast
          exact ⟨by omega, .inl (by omega)⟩
      · rw [bytesOf_get_rest hge]
        have hpos : q - v.len.toNat ≠ 0 := by omega
        have hidx : q - v.len.toNat - 1 = q - 1 - v.len.toNat := by omega
        rw [← hidx]
        exact ⟨fun h => h.2.resolve_left hpos, fun h => ⟨by omega, .inr h⟩⟩

/-- Between its first byte and its end, no iovec ends in an iovec. -/
theorem not_lastAt_inside (hs : s ≤ v.len.toNat) (hq : 0 < q) (hqs : q < s) :
    ¬ LastAt (bytesOf (v :: rest)) q := by
  rintro (h0 | ⟨a, ha⟩)
  · omega
  · rw [bytesOf_get (by omega)] at ha
    have hlast := (Prod.mk.inj (Option.some.inj ha)).2
    rw [beq_iff_eq] at hlast
    omega

/-- A piece ends at `n` or at the end of its iovec. -/
theorem lastAt_size {n : UInt32} (hpos : 0 < (v.size n).toNat) :
    (v.size n).toNat = n.toNat ∨ LastAt (bytesOf (v :: rest)) (v.size n).toNat := by
  have hsize := Iovec.size_toNat v n
  rcases Nat.lt_or_ge n.toNat v.len.toNat with hlt | hge
  · exact .inl (by omega)
  · refine .inr (.inr ⟨v.base + .ofNat ((v.size n).toNat - 1), ?_⟩)
    rw [bytesOf_get (by omega)]
    refine congrArg some (Prod.ext rfl ?_)
    rw [beq_iff_eq]
    omega

/-- The bytes that are left of an iovec. -/
theorem bytes_advance {size : UInt32} (hs : size ≤ v.len) :
    Iovec.bytes { base := v.base + size, len := v.len - size } = v.bytes.drop size.toNat := by
  have hle := UInt32.le_iff_toNat_le.1 hs
  have hlen : (v.len - size).toNat = v.len.toNat - size.toNat := UInt32.toNat_sub_of_le _ _ hs
  refine List.ext_getElem? fun i => ?_
  rw [List.getElem?_drop]
  rcases Nat.lt_or_ge i (v.len - size).toNat with hlt | hge
  · rw [bytes_get hlt, bytes_get (by omega)]
    refine congrArg some (Prod.ext ?_ ?_)
    · rw [UInt32.ofNat_add, UInt32.ofNat_toNat, UInt32.add_assoc]
    · rw [Bool.eq_iff_iff, beq_iff_eq, beq_iff_eq]
      dsimp only
      omega
  · rw [List.getElem?_eq_none (by rwa [bytes_length]),
      List.getElem?_eq_none (by rw [bytes_length]; omega)]

theorem bytesOf_advance {size : UInt32} (hs : size ≤ v.len) :
    bytesOf ({ base := v.base + size, len := v.len - size } :: rest) =
      (bytesOf (v :: rest)).drop size.toNat := by
  rw [bytesOf_cons, bytesOf_cons, bytes_advance hs, List.drop_append_of_le_length]
  rw [bytes_length]
  exact UInt32.le_iff_toNat_le.1 hs

theorem lastAt_drop {L : List (UInt32 × Bool)} (hq : 0 < q) :
    LastAt L (s + q) ↔ LastAt (L.drop s) q := by
  have hidx : s + q - 1 = s + (q - 1) := by omega
  rw [LastAt, LastAt, List.getElem?_drop, hidx]
  exact ⟨fun h => .inr (h.resolve_left (by omega)), fun h => .inr (h.resolve_left (by omega))⟩

theorem cell_drop {iov' : List Iovec} (h : bytesOf iov' = (bytesOf iov).drop s) (i : Nat) :
    cell iov' i = cell iov (s + i) := by
  rw [cell, cell, h, List.getD_eq_getElem?_getD, List.getD_eq_getElem?_getD, List.getElem?_drop]

theorem total_drop {iov' : List Iovec} (h : bytesOf iov' = (bytesOf iov).drop s) :
    total iov' = total iov - s := by
  rw [← bytesOf_length, h, List.length_drop, bytesOf_length]

end Bytes

/-! ## What has been moved -/

/-- Bytes have been moved in order: the first `t` bytes from the places `src` to the places `dst`.
What a byte holds is what its source held before, unless a later byte has the same place or, within
the kernel, an earlier piece has written over the source. -/
structure Delivered (seg : Seg) (rw : Rw) (dst src : Nat → UInt32) (cut : Nat → Prop) (t : Nat)
    (m m' : Mem) : Prop where
  moved : ∀ i < t, (∀ j, i < j → j < t → dst j ≠ dst i) →
    (seg = .sysspace → ∀ j < i, (∃ q, j < q ∧ q ≤ i ∧ cut q) → dst j ≠ src i) →
    target seg rw m' (dst i) = source seg rw m (src i)
  holds : ∀ i < t, ∃ j < t, target seg rw m' (dst i) = source seg rw m (src j)
  agree : Agree seg rw (fun x => ∃ i < t, dst i = x) m m'

section Delivered

variable {seg : Seg} {rw : Rw} {S S' : UInt32 → Prop} {m m₁ m' : Mem} {dst src : Nat → UInt32}
  {cut cut' : Nat → Prop} {s t : Nat} {x : UInt32}

theorem Agree.target_eq (h : Agree seg rw S m m') (hx : ¬ S x) :
    target seg rw m' x = target seg rw m x := by
  rw [target, target]
  split_ifs with hto
  · exact h.user x fun _ => hx
  · rw [h.kernel x fun _ => hx]

/-- Between the kernel and user space the source is left alone. -/
theorem Agree.source_eq_of_ne (h : Agree seg rw S m m') (hseg : seg ≠ .sysspace) (x : UInt32) :
    source seg rw m' x = source seg rw m x := by
  rw [source, source]
  split_ifs with hfrom
  · exact h.user x fun hto => by cases rw <;> simp_all [toUser, fromUser]
  · rw [h.kernel x fun hto => by cases rw <;> simp_all [toUser, fromUser]]

/-- Within the kernel, source and target are the same memory. -/
theorem source_eq_target (hseg : seg = .sysspace) (m : Mem) (x : UInt32) :
    source seg rw m x = target seg rw m x := by
  subst hseg
  rfl

theorem Agree.source_eq (h : Agree seg rw S m m') (hx : seg = .sysspace → ¬ S x) :
    source seg rw m' x = source seg rw m x := by
  by_cases hseg : seg = .sysspace
  · rw [source_eq_target hseg, source_eq_target hseg]
    exact h.target_eq (hx hseg)
  · exact h.source_eq_of_ne hseg x

theorem Agree.trans (h : Agree seg rw S m m₁) (h' : Agree seg rw S' m₁ m') :
    Agree seg rw (fun x => S x ∨ S' x) m m' where
  kernel x hx := (h'.kernel x fun hto hs => hx hto (.inr hs)).trans
    (h.kernel x fun hto hs => hx hto (.inl hs))
  user x hx := (h'.user x fun hto hs => hx hto (.inr hs)).trans
    (h.user x fun hto hs => hx hto (.inl hs))
  mapped x := (h'.mapped x).trans (h.mapped x)

theorem Agree.congr (h : Agree seg rw S m m') (hS : ∀ x, S x ↔ S' x) : Agree seg rw S' m m' where
  kernel x hx := h.kernel x fun hto hs => hx hto ((hS x).1 hs)
  user x hx := h.user x fun hto hs => hx hto ((hS x).1 hs)
  mapped := h.mapped

/-- Nothing is moved. -/
theorem Delivered.zero (seg : Seg) (rw : Rw) (dst src : Nat → UInt32) (cut : Nat → Prop)
    (m : Mem) : Delivered seg rw dst src cut 0 m m where
  moved i hi := absurd hi (Nat.not_lt_zero i)
  holds i hi := absurd hi (Nat.not_lt_zero i)
  agree := ⟨fun _ _ => rfl, fun _ _ => rfl, fun _ => Iff.rfl⟩

/-- One piece. -/
theorem Copied.delivered {base ptr : UInt32} {got : Nat} (h : Copied seg rw base ptr got m m')
    (hgot : got < 2 ^ 32) (hdst : ∀ i < got, dst i = dest rw base ptr + .ofNat i)
    (hsrc : ∀ i < got, src i = origin rw base ptr + .ofNat i) :
    Delivered seg rw dst src cut got m m' := by
  have hsub : ∀ i < got, dst i - dest rw base ptr = .ofNat i := fun i hi => by
    rw [hdst i hi, UInt32.add_comm, UInt32.add_sub_cancel]
  have hnat : ∀ i < got, (UInt32.ofNat i).toNat = i := fun i hi =>
    UInt32.toNat_ofNat_of_lt' (Nat.lt_trans hi hgot)
  have hmoved : ∀ i < got, Uiomove.target seg rw m' (dst i) = source seg rw m (src i) := fun i hi => by
    rw [h.target, hsub i hi, hnat i hi, if_pos hi, hsrc i hi]
  refine ⟨fun i hi _ _ => hmoved i hi, fun i hi => ⟨i, hi, hmoved i hi⟩, h.agree.congr fun x => ?_⟩
  constructor
  · intro hx
    refine ⟨_, hx, ?_⟩
    rw [hdst _ hx, UInt32.ofNat_toNat, sub_add_cancel']
  · rintro ⟨i, hi, rfl⟩
    rwa [hsub i hi, hnat i hi]

/-- Two parts, one after the other; a piece ends between them. -/
theorem Delivered.append (h : Delivered seg rw dst src cut s m m₁)
    (h' : Delivered seg rw (fun i => dst (s + i)) (fun i => src (s + i)) cut' t m₁ m')
    (hcut : ∀ q, 0 < q → (cut (s + q) ↔ cut' q)) (hend : 0 < t → cut s) :
    Delivered seg rw dst src cut (s + t) m m' := by
  -- the source of the second part, before it
  have hsource : ∀ x, source seg rw m₁ x = source seg rw m x ∨
      ∃ j < s, source seg rw m₁ x = source seg rw m (src j) := by
    intro x
    by_cases hx : seg = .sysspace ∧ ∃ i < s, dst i = x
    · obtain ⟨hseg, i, hi, rfl⟩ := hx
      obtain ⟨j, hj, heq⟩ := h.holds i hi
      rw [source_eq_target hseg m₁]
      exact .inr ⟨j, hj, heq⟩
    · exact .inl (h.agree.source_eq fun hseg hS => hx ⟨hseg, hS⟩)
  have hagree : Agree seg rw (fun x => ∃ i < s + t, dst i = x) m m' := by
    refine (h.agree.trans h'.agree).congr fun x => ⟨?_, ?_⟩
    · rintro (⟨i, hi, hx⟩ | ⟨i, hi, hx⟩)
      · exact ⟨i, by omega, hx⟩
      · exact ⟨s + i, by omega, hx⟩
    · rintro ⟨i, hi, hx⟩
      rcases Nat.lt_or_ge i s with hlt | hge
      · exact .inl ⟨i, hlt, hx⟩
      · refine .inr ⟨i - s, by omega, ?_⟩
        rwa [Nat.add_sub_cancel' hge]
  refine ⟨fun i hi hlast hintact => ?_, fun i hi => ?_, hagree⟩
  · rcases Nat.lt_or_ge i s with hlt | hge
    · have hkept : ¬ ∃ j < t, dst (s + j) = dst i := by
        rintro ⟨j, hj, heq⟩
        exact hlast (s + j) (by omega) (by omega) heq
      rw [h'.agree.target_eq hkept]
      exact h.moved i hlt (fun j hij hj => hlast j hij (by omega)) hintact
    · obtain ⟨k, rfl⟩ := Nat.exists_eq_add_of_le hge
      have hmoved := h'.moved k (by omega) (fun j hkj hj => hlast (s + j) (by omega) (by omega)) ?_
      · refine hmoved.trans (h.agree.source_eq fun hseg => ?_)
        rintro ⟨j, hj, heq⟩
        exact hintact hseg j (by omega) ⟨s, hj, hge, hend (by omega)⟩ heq
      · rintro hseg j hj ⟨q, hjq, hqk, hq⟩
        exact hintact hseg (s + j) (by omega)
          ⟨s + q, by omega, by omega, (hcut q (by omega)).2 hq⟩
  · -- the byte holds a source of the second part, or what the first part has left there
    have hsecond : ∀ j < t, ∃ k < s + t, source seg rw m₁ (src (s + j)) = source seg rw m (src k) := by
      intro j hj
      rcases hsource (src (s + j)) with heq | ⟨k, hk, heq⟩
      · exact ⟨s + j, by omega, heq⟩
      · exact ⟨k, by omega, heq⟩
    by_cases hlater : ∃ j < t, dst (s + j) = dst i
    · obtain ⟨j, hj, heq⟩ := hlater
      obtain ⟨j', hj', hheld⟩ := h'.holds j hj
      obtain ⟨k, hk, hsrc⟩ := hsecond j' hj'
      exact ⟨k, hk, by rw [← heq, hheld, hsrc]⟩
    · have hlt : i < s := by
        by_contra hge
        exact hlater ⟨i - s, by omega, by rw [Nat.add_sub_cancel' (Nat.le_of_not_lt hge)]⟩
      obtain ⟨k, hk, heq⟩ := h.holds i hlt
      exact ⟨k, by omega, (h'.agree.target_eq hlater).trans heq⟩

end Delivered

/-! ## The loop of `uiomove` -/

/-- The uio after `k` bytes. -/
structure Advanced (u : Uio) (k : Nat) (u' : Uio) : Prop where
  resid : u'.resid.toNat + k = u.resid.toNat
  offset : u'.offset = u.offset + k
  bytes : bytesOf u'.iov = (bytesOf u.iov).drop k
  segflg : u'.segflg = u.segflg
  rw : u'.rw = u.rw
  space : u'.space = u.space

/-- Where byte `i` goes to. -/
def dstOf (u : Uio) (ptr : UInt32) (i : Nat) : UInt32 :=
  dest u.rw (cell u.iov i) (ptr + .ofNat i)

/-- Where byte `i` comes from. -/
def srcOf (u : Uio) (ptr : UInt32) (i : Nat) : UInt32 :=
  origin u.rw (cell u.iov i) (ptr + .ofNat i)

/-- A call of `uiomove` returns. With success, exactly `min n uio_resid` bytes have been moved; with
`EFAULT`, the uio counts the `k` bytes of the pieces before, and of the piece that failed `t - k`
bytes may have been stored. -/
def MovesExactly (ptr n : UInt32) (u : Uio) (m : Mem) (x : Result) : Prop :=
  ∃ res u' m' k t, x = .ok (res, u', m') ∧ Advanced u k u' ∧
    Delivered u.segflg u.rw (dstOf u ptr) (srcOf u ptr) (Ends u.iov) t m m' ∧
    ((res = .ok () ∧ k = min n.toNat u.resid.toNat ∧ t = k) ∨
      (res = .error .EFAULT ∧ k ≤ u.resid.toNat ∧ k ≤ t ∧ t ≤ n.toNat))

/-- `uiomove` keeps to `uio_resid`: `n` is no more than it, or an iovec ends there, or the piece in
which it lies cannot be moved. -/
def KeepsToResid (n : UInt32) (u : Uio) (m : Mem) : Prop :=
  Fits (Ends u.iov) (Bad u.segflg m.user u.iov) n.toNat u.resid.toNat

section Loop

variable {ptr n : UInt32} {u u' : Uio} {m m' : Mem} {v : Iovec} {rest : List Iovec}
  {res : Except Errno Unit}

theorem toNat_pos {x : UInt32} (h : x ≠ 0) : 0 < x.toNat := by
  rw [Nat.pos_iff_ne_zero, ne_eq, ← UInt32.toNat_zero, UInt32.toNat_inj]
  exact h

theorem size_le_len (v : Iovec) (n : UInt32) : v.size n ≤ v.len := by
  rw [UInt32.le_iff_toNat_le, Iovec.size_toNat]
  omega

theorem size_le (v : Iovec) (n : UInt32) : v.size n ≤ n := by
  rw [UInt32.le_iff_toNat_le, Iovec.size_toNat]
  omega

theorem sub_size_toNat (v : Iovec) (n : UInt32) :
    (n - v.size n).toNat = n.toNat - (v.size n).toNat :=
  UInt32.toNat_sub_of_le _ _ (size_le v n)

/-- An iovec without bytes. -/
theorem bytesOf_skip (hn : n ≠ 0) (hsize : v.size n = 0) : bytesOf (v :: rest) = bytesOf rest := by
  have hpos := toNat_pos hn
  have hmin := Iovec.size_toNat v n
  rw [hsize, UInt32.toNat_zero] at hmin
  have hlen : v.bytes = [] := by
    rw [← List.length_eq_zero_iff, bytes_length]
    omega
  rw [bytesOf_cons, hlen, List.nil_append]

/-- Without more to move than `uio_resid`, no more than that is taken from it. -/
theorem resid_of_le (hle : n.toNat ≤ u.resid.toNat)
    (h : moveLoop ptr n u m = .ok (res, u', m')) : u.resid.toNat ≤ u'.resid.toNat + n.toNat := by
  fun_induction moveLoop ptr n u m with
  | case1 ptr n u m hdone =>
      cases h
      omega
  | case2 => cases h
  | case3 => cases h
  | case4 ptr n u m hgo v rest hiov hsize hrest ih => exact ih hle h
  | case5 ptr n u m hgo v rest hiov hsize e m₁ hmove =>
      cases h
      omega
  | case6 ptr n u m hgo v rest hiov hsize m₁ hmove ih =>
      have hs := UInt32.le_iff_toNat_le.1 (size_le v n)
      have hn := sub_size_toNat v n
      have hresid : (u.resid - v.size n).toNat = u.resid.toNat - (v.size n).toNat :=
        UInt32.toNat_sub_of_le _ _ (UInt32.le_iff_toNat_le.2 (by omega))
      have hnext := ih (by rw [Uio.advance, hn, hresid]; omega) h
      rw [Uio.advance, hresid] at hnext
      omega

theorem accepts_mapped {seg : Seg} (h : ∀ x, m'.user x = none ↔ m.user x = none) (a : UInt32) :
    Accepts seg m'.user a ↔ Accepts seg m.user a := by
  rw [Accepts, Accepts, InUser, InUser, ne_eq, ne_eq, h]

/-- The bytes of the first iovec. -/
theorem bad_head {seg : Seg} {um : UserMem} {s : Nat} (hs : s ≤ v.len.toNat) :
    (∀ i < s, Accepts seg um (v.base + .ofNat i)) ↔ ∀ i < s, ¬ Bad seg um (v :: rest) i := by
  refine forall₂_congr fun i hi => ?_
  have hlt : i < total (v :: rest) := by
    rw [total_cons]
    omega
  rw [Bad, cell_cons (by omega), not_and_not_right]
  exact ⟨fun h _ => h, fun h => h hlt⟩

theorem bad_drop {seg : Seg} {iov iov' : List Iovec} {s : Nat}
    (hbytes : bytesOf iov' = (bytesOf iov).drop s)
    (hmapped : ∀ x, m'.user x = none ↔ m.user x = none) (i : Nat) :
    Bad seg m.user iov (s + i) ↔ Bad seg m'.user iov' i := by
  rw [Bad, Bad, total_drop hbytes, cell_drop hbytes, accepts_mapped hmapped]
  exact and_congr_left' (by omega)

theorem ends_drop {iov iov' : List Iovec} {s q : Nat}
    (hbytes : bytesOf iov' = (bytesOf iov).drop s) (hq : 0 < q) :
    Ends iov (s + q) ↔ Ends iov' q := by
  rw [ends_iff, ends_iff, hbytes, lastAt_drop hq]

theorem ends_zero (iov : List Iovec) : Ends iov 0 := ⟨[], List.nil_prefix, rfl⟩

theorem ends_size (hiov : u.iov = v :: rest) (hpos : 0 < (v.size n).toNat) :
    (v.size n).toNat = n.toNat ∨ Ends u.iov (v.size n).toNat := by
  rw [hiov, ends_iff]
  exact lastAt_size hpos

theorem not_ends_inside (hiov : u.iov = v :: rest) {q : Nat} (hq : 0 < q)
    (hqs : q < (v.size n).toNat) : ¬ Ends u.iov q := by
  rw [hiov, ends_iff]
  exact not_lastAt_inside (UInt32.le_iff_toNat_le.1 (size_le_len v n)) hq hqs

theorem bytes_next (hiov : u.iov = v :: rest) :
    bytesOf (u.advance v rest (v.size n)).iov = (bytesOf u.iov).drop (v.size n).toNat := by
  rw [hiov]
  exact bytesOf_advance (size_le_len v n)

/-- A piece that does not go past `uio_resid`. -/
theorem keeps_next (hiov : u.iov = v :: rest) (hpos : 0 < (v.size n).toNat)
    (hle : (v.size n).toNat ≤ u.resid.toNat)
    (hgood : ∀ i < (v.size n).toNat, ¬ Bad u.segflg m.user u.iov i)
    (hmapped : ∀ x, m'.user x = none ↔ m.user x = none) :
    KeepsToResid n u m ↔ KeepsToResid (n - v.size n) (u.advance v rest (v.size n)) m' := by
  have hresid : (u.advance v rest (v.size n)).resid.toNat = u.resid.toNat - (v.size n).toNat :=
    UInt32.toNat_sub_of_le _ _ (UInt32.le_iff_toNat_le.2 hle)
  have hbytes := bytes_next (n := n) hiov
  rw [KeepsToResid, KeepsToResid, sub_size_toNat, hresid]
  exact fits_advance (UInt32.le_iff_toNat_le.1 (size_le v n)) hle hgood (ends_size hiov hpos)
    (ends_zero _) (fun q hq => ends_drop hbytes hq) (bad_drop hbytes hmapped)

/-- An iovec without bytes makes no difference. -/
theorem keeps_skip (hiov : u.iov = v :: rest) (hn : n ≠ 0) (hsize : v.size n = 0) :
    KeepsToResid n u m ↔ KeepsToResid n { u with iov := rest } m := by
  have hbytes : bytesOf rest = (bytesOf u.iov).drop 0 := by
    rw [hiov, bytesOf_skip hn hsize, List.drop_zero]
  refine fits_congr (fun q => ?_) fun i => ?_
  · rw [ends_iff, ends_iff, hbytes, List.drop_zero]
  · have hbad : Bad u.segflg m.user u.iov (0 + i) ↔ Bad u.segflg m.user rest i :=
      bad_drop hbytes (fun _ => Iff.rfl) i
    rwa [Nat.zero_add] at hbad

/-- A piece that cannot be moved, wherever `uio_resid` is. -/
theorem keeps_of_bad (hiov : u.iov = v :: rest) (hr : 0 < u.resid.toNat)
    (hbad : ∃ i < (v.size n).toNat, Bad u.segflg m.user u.iov i) : KeepsToResid n u m :=
  fits_of_bad (UInt32.le_iff_toNat_le.1 (size_le v n)) hr (fun _ hq => not_ends_inside hiov hq) hbad

/-- What the first piece does. -/
theorem movePiece_head (hiov : u.iov = v :: rest) (ptr : UInt32) (m : Mem)
    (hpos : 0 < (v.size n).toNat) : ∃ got m', Copied u.segflg u.rw v.base ptr got m m' ∧
      ((∀ i < (v.size n).toNat, ¬ Bad u.segflg m.user u.iov i) → got = (v.size n).toNat ∧
        movePiece u.segflg u.rw v.base ptr (v.size n) m = (.ok (), m')) ∧
      ((∃ i < (v.size n).toNat, Bad u.segflg m.user u.iov i) → got ≤ (v.size n).toNat ∧
        movePiece u.segflg u.rw v.base ptr (v.size n) m = (.error .EFAULT, m')) := by
  obtain ⟨got, m', hcopied, hok, hfault⟩ := movePiece_spec u.segflg u.rw v.base ptr m hpos
  have hhead : (∀ i < (v.size n).toNat, Accepts u.segflg m.user (v.base + .ofNat i)) ↔
      ∀ i < (v.size n).toNat, ¬ Bad u.segflg m.user u.iov i := by
    rw [hiov]
    exact bad_head (UInt32.le_iff_toNat_le.1 (size_le_len v n))
  refine ⟨got, m', hcopied, fun h => hok (hhead.2 h), fun h => hfault fun hacc => ?_⟩
  obtain ⟨i, hi, hbad⟩ := h
  exact hhead.1 hacc i hi hbad

/-- When the loop does not keep to `uio_resid`, it wraps around, in whatever way the call returns. -/
theorem resid_of_not_keeps (hk : ¬ KeepsToResid n u m)
    (h : moveLoop ptr n u m = .ok (res, u', m')) :
    2 ^ 32 + u.resid.toNat ≤ u'.resid.toNat + n.toNat := by
  fun_induction moveLoop ptr n u m with
  | case1 ptr n u m hdone =>
      refine absurd ?_ hk
      rcases hdone with hn | hr
      · exact .inl (by rw [hn]; exact Nat.zero_le _)
      · refine .inr (.inl ?_)
        rw [hr]
        exact ends_zero _
  | case2 => cases h
  | case3 => cases h
  | case4 ptr n u m hgo v rest hiov hsize hrest ih =>
      exact ih (fun hrec => hk ((keeps_skip hiov (fun hn => hgo (.inl hn)) hsize).2 hrec)) h
  | case5 ptr n u m hgo v rest hiov hsize e m₁ hmove =>
      exfalso
      obtain ⟨got, m', -, hok, -⟩ := movePiece_head hiov ptr m (toNat_pos hsize)
      by_cases hgood : ∀ i < (v.size n).toNat, ¬ Bad u.segflg m.user u.iov i
      · have hmove' := hmove.symm.trans (hok hgood).2
        cases hmove'
      · push Not at hgood
        exact hk (keeps_of_bad hiov (toNat_pos fun hr => hgo (.inr hr)) hgood)
  | case6 ptr n u m hgo v rest hiov hsize m₁ hmove ih =>
      have hpos := toNat_pos hsize
      have hr : 0 < u.resid.toNat := toNat_pos fun hr => hgo (.inr hr)
      have hs := UInt32.le_iff_toNat_le.1 (size_le v n)
      have hn := sub_size_toNat v n
      have hnlt := n.toNat_lt
      obtain ⟨got, m'', hcopied, hok, hfault⟩ := movePiece_head hiov ptr m hpos
      have hgood : ∀ i < (v.size n).toNat, ¬ Bad u.segflg m.user u.iov i := by
        intro i hi hbad
        have hmove' := hmove.symm.trans (hfault ⟨i, hi, hbad⟩).2
        cases hmove'
      obtain ⟨-, hmove'⟩ := hok hgood
      obtain rfl : m₁ = m'' := congrArg Prod.snd (hmove.symm.trans hmove')
      rcases Nat.lt_or_ge u.resid.toNat (v.size n).toNat with hlt | hle
      · -- this piece goes past `uio_resid`
        have hresid : (u.resid - v.size n).toNat = 2 ^ 32 + u.resid.toNat - (v.size n).toNat := by
          have hrlt := u.resid.toNat_lt
          rw [UInt32.toNat_sub]
          omega
        have hrest := resid_of_le (u := u.advance v rest (v.size n))
          (by rw [Uio.advance, hn, hresid]; omega) h
        rw [Uio.advance, hn, hresid] at hrest
        omega
      · have hresid : (u.resid - v.size n).toNat = u.resid.toNat - (v.size n).toNat :=
          UInt32.toNat_sub_of_le _ _ (UInt32.le_iff_toNat_le.2 hle)
        have hnext := ih (fun hrec =>
          hk ((keeps_next hiov hpos hle hgood hcopied.agree.mapped).2 hrec)) h
        rw [Uio.advance, hn, hresid] at hnext
        omega

theorem dstOf_head (hiov : u.iov = v :: rest) {i : Nat} (hi : i < v.len.toNat) :
    dstOf u ptr i = dest u.rw v.base ptr + .ofNat i := by
  rw [dstOf, hiov, cell_cons hi]
  cases u.rw <;> rfl

theorem srcOf_head (hiov : u.iov = v :: rest) {i : Nat} (hi : i < v.len.toNat) :
    srcOf u ptr i = origin u.rw v.base ptr + .ofNat i := by
  rw [srcOf, hiov, cell_cons hi]
  cases u.rw <;> rfl

theorem add_ofNat_size (ptr size : UInt32) (i : Nat) :
    ptr + size + .ofNat i = ptr + .ofNat (size.toNat + i) := by
  rw [UInt32.ofNat_add, UInt32.ofNat_toNat, UInt32.add_assoc]

/-- The uio after a piece. -/
theorem advanced_piece (hiov : u.iov = v :: rest) (hle : (v.size n).toNat ≤ u.resid.toNat)
    {k : Nat} (h : Advanced (u.advance v rest (v.size n)) k u') :
    Advanced u ((v.size n).toNat + k) u' where
  resid := by
    have hresid : (u.advance v rest (v.size n)).resid.toNat = u.resid.toNat - (v.size n).toNat :=
      UInt32.toNat_sub_of_le _ _ (UInt32.le_iff_toNat_le.2 hle)
    have hk := h.resid
    omega
  offset := by
    rw [h.offset, Uio.advance]
    push_cast
    omega
  bytes := by rw [h.bytes, bytes_next hiov, List.drop_drop]
  segflg := h.segflg
  rw := h.rw
  space := h.space

/-- `uiomove` moves what it was asked for when it keeps to `uio_resid`. -/
theorem moveLoop_moves (ptr : UInt32) (htotal : u.resid.toNat ≤ total u.iov) (hk : KeepsToResid n u m) :
    MovesExactly ptr n u m (moveLoop ptr n u m) := by
  fun_induction moveLoop ptr n u m with
  | case1 ptr n u m hdone =>
      refine ⟨.ok (), u, m, 0, 0, rfl, ⟨rfl, (Int.add_zero _).symm, rfl, rfl, rfl, rfl⟩,
        .zero _ _ _ _ _ m, .inl ⟨rfl, ?_, rfl⟩⟩
      rcases hdone with h | h
      · rw [h, UInt32.toNat_zero, Nat.zero_min]
      · rw [h, UInt32.toNat_zero, Nat.min_zero]
  | case2 ptr n u m hgo hiov =>
      have hr : 0 < u.resid.toNat := toNat_pos fun hr => hgo (.inr hr)
      rw [hiov] at htotal
      exact absurd htotal (Nat.not_le_of_lt hr)
  | case3 ptr n u m hgo v hsize hiov =>
      have hr : 0 < u.resid.toNat := toNat_pos fun hr => hgo (.inr hr)
      rw [hiov, ← bytesOf_length, bytesOf_skip (fun hn => hgo (.inl hn)) hsize] at htotal
      exact absurd htotal (Nat.not_le_of_lt hr)
  | case4 ptr n u m hgo v rest hiov hsize hrest ih =>
      have hn : n ≠ 0 := fun hn => hgo (.inl hn)
      have hbytes : bytesOf u.iov = bytesOf rest := by rw [hiov, bytesOf_skip hn hsize]
      have hcell : cell u.iov = cell rest := by
        funext i
        rw [cell, cell, hbytes]
      have hends : Ends u.iov = Ends rest := by
        funext q
        rw [eq_iff_iff, ends_iff, ends_iff, hbytes]
      have htotal' : u.resid.toNat ≤ total rest := by
        rwa [← bytesOf_length, ← hbytes, bytesOf_length]
      obtain ⟨res, u', m', k, t, hrun, hadv, hdel, hres⟩ :=
        ih htotal' ((keeps_skip hiov hn hsize).1 hk)
      refine ⟨res, u', m', k, t, hrun, ?_, ?_, hres⟩
      · exact ⟨hadv.resid, hadv.offset, hbytes ▸ hadv.bytes, hadv.segflg, hadv.rw, hadv.space⟩
      · have hdst : dstOf u ptr = dstOf { u with iov := rest } ptr := by
          funext i
          rw [dstOf, dstOf, hcell]
        have hsrc : srcOf u ptr = srcOf { u with iov := rest } ptr := by
          funext i
          rw [srcOf, srcOf, hcell]
        rw [hdst, hsrc, hends]
        exact hdel
  | case5 ptr n u m hgo v rest hiov hsize e m₁ hmove =>
      have hlen := UInt32.le_iff_toNat_le.1 (size_le_len v n)
      have hs := UInt32.le_iff_toNat_le.1 (size_le v n)
      have hslt := (v.size n).toNat_lt
      obtain ⟨got, m', hcopied, hok, hfault⟩ := movePiece_head hiov ptr m (toNat_pos hsize)
      have hbad : ∃ i < (v.size n).toNat, Bad u.segflg m.user u.iov i := by
        by_contra hgood
        push Not at hgood
        have hmove' := hmove.symm.trans (hok hgood).2
        cases hmove'
      obtain ⟨hgot, hmove'⟩ := hfault hbad
      obtain ⟨he, rfl⟩ := Prod.mk.inj (hmove.symm.trans hmove')
      refine ⟨_, u, m₁, 0, got, rfl, ⟨rfl, (Int.add_zero _).symm, rfl, rfl, rfl, rfl⟩, ?_,
        .inr ⟨he, Nat.zero_le _, Nat.zero_le _, by omega⟩⟩
      exact hcopied.delivered (by omega) (fun i hi => dstOf_head hiov (by omega))
        fun i hi => srcOf_head hiov (by omega)
  | case6 ptr n u m hgo v rest hiov hsize m₁ hmove ih =>
      have hpos := toNat_pos hsize
      have hr : 0 < u.resid.toNat := toNat_pos fun hr => hgo (.inr hr)
      have hlen := UInt32.le_iff_toNat_le.1 (size_le_len v n)
      have hs := UInt32.le_iff_toNat_le.1 (size_le v n)
      have hslt := (v.size n).toNat_lt
      obtain ⟨got, m'', hcopied, hok, hfault⟩ := movePiece_head hiov ptr m hpos
      have hgood : ∀ i < (v.size n).toNat, ¬ Bad u.segflg m.user u.iov i := by
        intro i hi hbad
        have hmove' := hmove.symm.trans (hfault ⟨i, hi, hbad⟩).2
        cases hmove'
      obtain ⟨rfl, hmove'⟩ := hok hgood
      obtain rfl : m₁ = m'' := congrArg Prod.snd (hmove.symm.trans hmove')
      have hle : (v.size n).toNat ≤ u.resid.toNat := by
        by_contra hlt
        exact not_fits_of_lt hs hr (Nat.lt_of_not_le hlt) (fun _ hq => not_ends_inside hiov hq)
          hgood (ends_size hiov hpos) hk
      have hbytes := bytes_next (n := n) hiov
      have hresid : (u.advance v rest (v.size n)).resid.toNat =
          u.resid.toNat - (v.size n).toNat :=
        UInt32.toNat_sub_of_le _ _ (UInt32.le_iff_toNat_le.2 hle)
      have htotal' : (u.advance v rest (v.size n)).resid.toNat ≤
          total (u.advance v rest (v.size n)).iov := by
        rw [hresid, total_drop hbytes]
        omega
      obtain ⟨res, u', m', k, t, hrun, hadv, hdel, hres⟩ :=
        ih htotal' ((keeps_next hiov hpos hle hgood hcopied.agree.mapped).1 hk)
      rw [hresid, sub_size_toNat] at hres
      refine ⟨res, u', m', (v.size n).toNat + k, (v.size n).toNat + t, hrun,
        advanced_piece hiov hle hadv, ?_, ?_⟩
      · have hfirst : Delivered u.segflg u.rw (dstOf u ptr) (srcOf u ptr) (Ends u.iov)
            (v.size n).toNat m m₁ :=
          hcopied.delivered hslt (fun i hi => dstOf_head hiov (by omega))
            fun i hi => srcOf_head hiov (by omega)
        have hdst : (fun i => dstOf u ptr ((v.size n).toNat + i)) =
            dstOf (u.advance v rest (v.size n)) (ptr + v.size n) := by
          funext i
          rw [dstOf, dstOf, cell_drop hbytes, add_ofNat_size]
          rfl
        have hsrc : (fun i => srcOf u ptr ((v.size n).toNat + i)) =
            srcOf (u.advance v rest (v.size n)) (ptr + v.size n) := by
          funext i
          rw [srcOf, srcOf, cell_drop hbytes, add_ofNat_size]
          rfl
        have hsecond : Delivered u.segflg u.rw (fun i => dstOf u ptr ((v.size n).toNat + i))
            (fun i => srcOf u ptr ((v.size n).toNat + i))
            (Ends (u.advance v rest (v.size n)).iov) t m₁ m' := by
          rw [hdst, hsrc]
          exact hdel
        refine hfirst.append hsecond (fun q hq => ends_drop hbytes hq) fun ht =>
          (ends_size hiov hpos).resolve_left ?_
        rcases hres with ⟨-, hk', ht'⟩ | ⟨-, -, -, ht'⟩ <;> omega
      · rcases hres with ⟨hr', hk', ht'⟩ | ⟨hr', hk', hkt, ht'⟩
        · exact .inl ⟨hr', by omega, by omega⟩
        · exact .inr ⟨hr', by omega, by omega, by omega⟩

/-- The loop of `uiomove` moves what it was asked for exactly when it keeps to `uio_resid`. -/
theorem moveLoop_iff (ptr : UInt32) (htotal : u.resid.toNat ≤ total u.iov) :
    MovesExactly ptr n u m (moveLoop ptr n u m) ↔ KeepsToResid n u m := by
  refine ⟨fun h => ?_, moveLoop_moves ptr htotal⟩
  by_contra hk
  obtain ⟨res, u', m', k, t, hrun, hadv, -⟩ := h
  have hwrap := resid_of_not_keeps hk hrun
  have hresid := hadv.resid
  have hn := n.toNat_lt
  omega

/-- A loop that meets no bad byte does not fail. -/
theorem exists_bad_of_error {e : Errno} (h : moveLoop ptr n u m = .ok (.error e, u', m')) :
    ∃ i < n.toNat, Bad u.segflg m.user u.iov i := by
  fun_induction moveLoop ptr n u m with
  | case1 => cases h
  | case2 => cases h
  | case3 => cases h
  | case4 ptr n u m hgo v rest hiov hsize hrest ih =>
      have hbytes : bytesOf rest = (bytesOf u.iov).drop 0 := by
        rw [hiov, bytesOf_skip (fun hn => hgo (.inl hn)) hsize, List.drop_zero]
      obtain ⟨i, hi, hbad⟩ := ih h
      refine ⟨i, hi, ?_⟩
      have hback := (bad_drop (m := m) hbytes (fun _ => Iff.rfl) i).2 hbad
      rwa [Nat.zero_add] at hback
  | case5 ptr n u m hgo v rest hiov hsize e m₁ hmove =>
      have hs := UInt32.le_iff_toNat_le.1 (size_le v n)
      obtain ⟨got, m', -, hok, -⟩ := movePiece_head hiov ptr m (toNat_pos hsize)
      by_contra hgood
      push Not at hgood
      have hmove' := hmove.symm.trans (hok fun i hi => hgood i (by omega)).2
      cases hmove'
  | case6 ptr n u m hgo v rest hiov hsize m₁ hmove ih =>
      have hs := UInt32.le_iff_toNat_le.1 (size_le v n)
      obtain ⟨got, m'', hcopied, hok, hfault⟩ := movePiece_head hiov ptr m (toNat_pos hsize)
      by_contra hgood
      push Not at hgood
      obtain ⟨-, hmove'⟩ := hok fun i hi => hgood i (by omega)
      obtain rfl : m₁ = m'' := congrArg Prod.snd (hmove.symm.trans hmove')
      obtain ⟨i, hi, hbad⟩ := ih h
      rw [sub_size_toNat] at hi
      exact hgood _ (by omega) ((bad_drop (bytes_next hiov) hcopied.agree.mapped i).2 hbad)

/-- A loop that does not fail, and is not ended by `uio_resid`, meets no bad byte. -/
theorem good_of_ok (hle : n.toNat ≤ u.resid.toNat)
    (h : moveLoop ptr n u m = .ok (.ok (), u', m')) :
    ∀ i < n.toNat, ¬ Bad u.segflg m.user u.iov i := by
  fun_induction moveLoop ptr n u m with
  | case1 ptr n u m hdone =>
      intro i hi
      rcases hdone with h0 | h0
      · have hzero : n.toNat = 0 := congrArg UInt32.toNat h0
        omega
      · have hzero : u.resid.toNat = 0 := congrArg UInt32.toNat h0
        omega
  | case2 => cases h
  | case3 => cases h
  | case4 ptr n u m hgo v rest hiov hsize hrest ih =>
      have hbytes : bytesOf rest = (bytesOf u.iov).drop 0 := by
        rw [hiov, bytesOf_skip (fun hn => hgo (.inl hn)) hsize, List.drop_zero]
      intro i hi hbad
      rw [← Nat.zero_add i] at hbad
      exact ih hle h i hi ((bad_drop hbytes (fun _ => Iff.rfl) i).1 hbad)
  | case5 => cases h
  | case6 ptr n u m hgo v rest hiov hsize m₁ hmove ih =>
      have hs := UInt32.le_iff_toNat_le.1 (size_le v n)
      have hn := sub_size_toNat v n
      have hresid : (u.advance v rest (v.size n)).resid.toNat =
          u.resid.toNat - (v.size n).toNat :=
        UInt32.toNat_sub_of_le _ _ (UInt32.le_iff_toNat_le.2 (by omega))
      obtain ⟨got, m'', hcopied, hok, hfault⟩ := movePiece_head hiov ptr m (toNat_pos hsize)
      have hgood : ∀ i < (v.size n).toNat, ¬ Bad u.segflg m.user u.iov i := by
        intro i hi hbad
        have hmove' := hmove.symm.trans (hfault ⟨i, hi, hbad⟩).2
        cases hmove'
      obtain ⟨-, hmove'⟩ := hok hgood
      obtain rfl : m₁ = m'' := congrArg Prod.snd (hmove.symm.trans hmove')
      have hnext := ih (by rw [hn, hresid]; omega) h
      intro i hi hbad
      rcases Nat.lt_or_ge i (v.size n).toNat with hlt | hge
      · exact hgood i hlt hbad
      · obtain ⟨j, rfl⟩ := Nat.exists_eq_add_of_le hge
        exact hnext j (by omega) ((bad_drop (bytes_next hiov) hcopied.agree.mapped j).1 hbad)

end Loop

/-! ## `uiomovezeros` -/

/-- The address space of a uio for user memory is that of the current process. -/
def SpaceOk (as : Option Nat) (u : Uio) : Prop :=
  u.space = if u.segflg = .sysspace then none else as

/-- The static array `zeros`. -/
def ZeroBuffer (zeros : UInt32) (m : Mem) : Prop := ∀ i < 16, m.kernel (zeros + .ofNat i) = 0

/-- The first `t` bytes of the iovecs are zero, and nothing else has changed. -/
structure Zeroed (u : Uio) (t : Nat) (m m' : Mem) : Prop where
  zero : ∀ i < t, target u.segflg u.rw m' (cell u.iov i) = some 0
  agree : Agree u.segflg u.rw (fun x => ∃ i < t, cell u.iov i = x) m m'

/-- A call of `uiomovezeros` returns, with zeros in place of bytes from a buffer. -/
def ZerosExactly (n : UInt32) (u : Uio) (m : Mem) (x : Result) : Prop :=
  ∃ res u' m' k t, x = .ok (res, u', m') ∧ Advanced u k u' ∧ Zeroed u t m m' ∧
    ((res = .ok () ∧ k = min n.toNat u.resid.toNat ∧ t = k) ∨
      (res = .error .EFAULT ∧ k ≤ u.resid.toNat ∧ k ≤ t ∧ t ≤ n.toNat))

/-- `uiomovezeros` keeps to `uio_resid`: it goes 16 bytes at a time, so that pieces also end at the
multiples of 16. -/
def ZerosKeepToResid (n : UInt32) (u : Uio) (m : Mem) : Prop :=
  Fits (fun q => Ends u.iov q ∨ 16 ∣ q) (Bad u.segflg m.user u.iov) n.toNat u.resid.toNat

section Zeros

variable {as : Option Nat} {zeros n : UInt32} {u u₁ u' : Uio} {m m₁ m' : Mem}
  {res : Except Errno Unit} {k k' t t' : Nat}

theorem uiomove_eq (hspace : SpaceOk as u) (ptr n : UInt32) (m : Mem) :
    uiomove as ptr n u m = moveLoop ptr n u m := if_pos hspace

theorem moveLoop_of_uiomove {ptr : UInt32} {x : Except Errno Unit × Uio × Mem}
    (h : uiomove as ptr n u m = .ok x) : moveLoop ptr n u m = .ok x := by
  by_cases hspace : SpaceOk as u
  · rwa [uiomove_eq hspace] at h
  · have hpanic : uiomove as ptr n u m = .error .assertion := if_neg hspace
    rw [hpanic] at h
    cases h

theorem zerosSize_le (n : UInt32) : (zerosSize n).toNat ≤ n.toNat := by
  rw [zerosSize_toNat]
  omega

theorem sub_zerosSize (n : UInt32) :
    (n - zerosSize n).toNat = n.toNat - (zerosSize n).toNat :=
  UInt32.toNat_sub_of_le _ _ (UInt32.le_iff_toNat_le.2 (zerosSize_le n))

theorem Advanced.trans (h : Advanced u k u₁) (h' : Advanced u₁ k' u') : Advanced u (k + k') u' where
  resid := by
    have hk := h.resid
    have hk' := h'.resid
    omega
  offset := by
    rw [h'.offset, h.offset]
    push_cast
    omega
  bytes := by rw [h'.bytes, h.bytes, List.drop_drop]
  segflg := h'.segflg.trans h.segflg
  rw := h'.rw.trans h.rw
  space := h'.space.trans h.space

/-- What `uiomove` has moved from the zeros. -/
theorem Delivered.zeroed (hrw : u.rw = .read) (hz : ZeroBuffer zeros m) (ht : t ≤ 16)
    (h : Delivered u.segflg u.rw (dstOf u zeros) (srcOf u zeros) (Ends u.iov) t m m') :
    Zeroed u t m m' ∧ ZeroBuffer zeros m' := by
  have hdst : dstOf u zeros = cell u.iov := by
    funext i
    rw [dstOf, hrw]
    rfl
  have hsource : ∀ j < t, source u.segflg u.rw m (srcOf u zeros j) = some 0 := by
    intro j hj
    have hfrom : fromUser u.segflg u.rw = false := by simp [fromUser, hrw]
    rw [source, hfrom, srcOf, hrw]
    exact congrArg some (hz j (by omega))
  rw [hdst] at h
  have hzero : ∀ i < t, target u.segflg u.rw m' (cell u.iov i) = some 0 := by
    intro i hi
    obtain ⟨j, hj, heq⟩ := h.holds i hi
    rw [heq, hsource j hj]
  refine ⟨⟨hzero, h.agree⟩, fun i hi => ?_⟩
  by_cases hx : toUser u.segflg u.rw = false ∧ ∃ j < t, cell u.iov j = zeros + .ofNat i
  · obtain ⟨hto, j, hj, heq⟩ := hx
    have hj' := hzero j hj
    rw [target, hto, heq] at hj'
    exact Option.some.inj hj'
  · rw [h.agree.kernel _ fun hto hS => hx ⟨hto, hS⟩]
    exact hz i hi

/-- Zeros behind zeros. -/
theorem Zeroed.append (h : Zeroed u k m m₁) (h' : Zeroed u₁ t m₁ m') (hadv : Advanced u k u₁) :
    Zeroed u (k + t) m m' := by
  have hcell : ∀ i, cell u₁.iov i = cell u.iov (k + i) := cell_drop hadv.bytes
  have hzero' := h'.zero
  have hagree' := h'.agree
  simp only [hadv.segflg, hadv.rw, hcell] at hzero' hagree'
  refine ⟨fun i hi => ?_, (h.agree.trans hagree').congr fun x => ⟨?_, ?_⟩⟩
  · by_cases hlater : ∃ j < t, cell u.iov (k + j) = cell u.iov i
    · obtain ⟨j, hj, heq⟩ := hlater
      rw [← heq]
      exact hzero' j hj
    · have hlt : i < k := by
        by_contra hge
        exact hlater ⟨i - k, by omega, by rw [Nat.add_sub_cancel' (Nat.le_of_not_lt hge)]⟩
      rw [hagree'.target_eq hlater]
      exact h.zero i hlt
  · rintro (⟨i, hi, hx⟩ | ⟨i, hi, hx⟩)
    · exact ⟨i, by omega, hx⟩
    · exact ⟨k + i, by omega, hx⟩
  · rintro ⟨i, hi, hx⟩
    rcases Nat.lt_or_ge i k with hlt | hge
    · exact .inl ⟨i, hlt, hx⟩
    · exact .inr ⟨i - k, by omega, by rwa [Nat.add_sub_cancel' hge]⟩

/-- Within a chunk, `uiomove` keeps to `uio_resid` as well. -/
theorem keeps_of_zerosKeep (h : ZerosKeepToResid n u m) : KeepsToResid (zerosSize n) u m := by
  have hsize := zerosSize_toNat n
  rcases Nat.lt_or_ge u.resid.toNat (zerosSize n).toNat with hlt | hge
  · rcases h with hle | (hends | hdvd) | ⟨i, hi, hbad, hno⟩
    · omega
    · exact .inr (.inl hends)
    · have hr : u.resid.toNat = 0 := by omega
      rw [KeepsToResid, hr]
      exact fits_zero (ends_zero _)
    · have hlast : i < 16 := by
        by_contra hge
        exact hno 16 (by omega) (by omega) (.inr (Nat.dvd_refl 16))
      exact .inr (.inr ⟨i, by omega, hbad, fun q hq hqi hends => hno q hq hqi (.inl hends)⟩)
  · exact .inl hge

/-- In the chunk in which `uio_resid` lies, the two conditions are the same. -/
theorem zerosKeep_of_keeps (hlt : u.resid.toNat < (zerosSize n).toNat)
    (h : KeepsToResid (zerosSize n) u m) : ZerosKeepToResid n u m := by
  have hsize := zerosSize_toNat n
  rcases Nat.eq_zero_or_pos u.resid.toNat with h0 | hpos
  · rw [ZerosKeepToResid, h0]
    exact fits_zero (.inl (ends_zero _))
  · rcases h with hle | hends | ⟨i, hi, hbad, hno⟩
    · omega
    · exact .inr (.inl (.inl hends))
    · refine .inr (.inr ⟨i, by omega, hbad, fun q hq hqi hcut => ?_⟩)
      rcases hcut with hends | hdvd
      · exact hno q hq hqi hends
      · omega

/-- A chunk that does not go past `uio_resid`. -/
theorem zerosKeep_next (hadv : Advanced u (zerosSize n).toNat u₁)
    (hle : (zerosSize n).toNat ≤ u.resid.toNat)
    (hgood : ∀ i < (zerosSize n).toNat, ¬ Bad u.segflg m.user u.iov i)
    (hmapped : ∀ x, m₁.user x = none ↔ m.user x = none) :
    ZerosKeepToResid n u m ↔ ZerosKeepToResid (n - zerosSize n) u₁ m₁ := by
  have hsize := zerosSize_toNat n
  have hresid : u₁.resid.toNat = u.resid.toNat - (zerosSize n).toNat := by
    have hk := hadv.resid
    omega
  rcases Nat.lt_or_ge n.toNat 16 with hlt | hge
  · have hend : (n - zerosSize n).toNat = 0 := by
      rw [sub_zerosSize]
      omega
    exact iff_of_true (.inl (by omega)) (.inl (by rw [hend]; exact Nat.zero_le _))
  · have h16 : (zerosSize n).toNat = 16 := by omega
    rw [ZerosKeepToResid, ZerosKeepToResid, sub_zerosSize, hresid, hadv.segflg]
    refine fits_advance (zerosSize_le n) hle hgood (.inr (.inr ?_)) (.inl (ends_zero _))
      (fun q hq => or_congr (ends_drop hadv.bytes hq) ?_) (bad_drop hadv.bytes hmapped)
    · exact ⟨1, h16⟩
    · rw [h16]
      exact Nat.dvd_add_right (Nat.dvd_refl 16)

/-- `uiomovezeros` stores the zeros it was asked for when it keeps to `uio_resid`. -/
theorem zerosLoop_moves (hrw : u.rw = .read) (hspace : SpaceOk as u) (hz : ZeroBuffer zeros m)
    (htotal : u.resid.toNat ≤ total u.iov) (hk : ZerosKeepToResid n u m) :
    ZerosExactly n u m (zerosLoop as zeros n u m) := by
  fun_induction zerosLoop as zeros n u m with
  | case1 u m =>
      exact ⟨.ok (), u, m, 0, 0, rfl, ⟨rfl, (Int.add_zero _).symm, rfl, rfl, rfl, rfl⟩,
        ⟨by nofun, ⟨fun _ _ => rfl, fun _ _ => rfl, fun _ => Iff.rfl⟩⟩, .inl ⟨rfl, by simp, rfl⟩⟩
  | case2 n u m hn p hmove =>
      obtain ⟨res, u', m', k, t, hrun, -⟩ :=
        moveLoop_moves zeros htotal (keeps_of_zerosKeep hk)
      rw [← uiomove_eq hspace, hmove] at hrun
      cases hrun
  | case3 n u m hn e u₁ m₁ hmove =>
      have hle := zerosSize_le n
      have hsize := zerosSize_toNat n
      obtain ⟨res, u', m', k, t, hrun, hadv, hdel, hres⟩ :=
        moveLoop_moves zeros htotal (keeps_of_zerosKeep hk)
      rw [← uiomove_eq hspace, hmove] at hrun
      cases hrun
      have ht : t ≤ 16 := by
        rcases hres with ⟨-, hk', ht⟩ | ⟨-, -, -, ht⟩ <;> omega
      refine ⟨_, u₁, m₁, k, t, rfl, hadv, (hdel.zeroed hrw hz ht).1, ?_⟩
      rcases hres with ⟨hr, -⟩ | ⟨hr, hk', hkt, ht'⟩
      · cases hr
      · exact .inr ⟨hr, hk', hkt, by omega⟩
  | case4 n u m hn u₁ m₁ hmove ih =>
      have hle := zerosSize_le n
      have hsize := zerosSize_toNat n
      obtain ⟨res, u', m', k, t, hrun, hadv, hdel, hres⟩ :=
        moveLoop_moves zeros htotal (keeps_of_zerosKeep hk)
      rw [← uiomove_eq hspace, hmove] at hrun
      cases hrun
      rcases hres with ⟨-, hk', rfl⟩ | ⟨hr, -⟩
      swap
      · cases hr
      obtain ⟨hzeroed, hz₁⟩ := hdel.zeroed hrw hz (by omega)
      have hresid := hadv.resid
      have htotal₁ : u₁.resid.toNat ≤ total u₁.iov := by
        rw [total_drop hadv.bytes]
        omega
      have hspace₁ : SpaceOk as u₁ := by
        rw [SpaceOk, hadv.space, hadv.segflg]
        exact hspace
      have hk₁ : ZerosKeepToResid (n - zerosSize n) u₁ m₁ := by
        rcases Nat.lt_or_ge u.resid.toNat (zerosSize n).toNat with hlt | hge
        · have h0 : u₁.resid.toNat = 0 := by omega
          rw [ZerosKeepToResid, h0]
          exact fits_zero (.inl (ends_zero _))
        · have ht : t = (zerosSize n).toNat := by omega
          rw [uiomove_eq hspace] at hmove
          exact (zerosKeep_next (ht ▸ hadv) hge (good_of_ok hge hmove) hdel.agree.mapped).1 hk
      obtain ⟨res, u', m', k', t', hrun', hadv', hzeroed', hres'⟩ :=
        ih (hadv.rw.trans hrw) hspace₁ hz₁ htotal₁ hk₁
      rw [sub_zerosSize] at hres'
      refine ⟨res, u', m', t + k', t + t', hrun', hadv.trans hadv',
        hzeroed.append hzeroed' hadv, ?_⟩
      rcases hres' with ⟨hr, hk'', ht'⟩ | ⟨hr, hk'', hkt, ht'⟩
      · exact .inl ⟨hr, by omega, by omega⟩
      · exact .inr ⟨hr, by omega, by omega, by omega⟩

/-- Without more to store than `uio_resid`, no more than that is taken from it. -/
theorem zeros_resid_of_le (hle : n.toNat ≤ u.resid.toNat)
    (h : zerosLoop as zeros n u m = .ok (res, u', m')) :
    u.resid.toNat ≤ u'.resid.toNat + n.toNat := by
  fun_induction zerosLoop as zeros n u m with
  | case1 u m =>
      cases h
      exact Nat.le_add_right _ _
  | case2 => cases h
  | case3 n u m hn e u₁ m₁ hmove =>
      cases h
      have hsize := zerosSize_le n
      have hchunk := resid_of_le (by omega) (moveLoop_of_uiomove hmove)
      omega
  | case4 n u m hn u₁ m₁ hmove ih =>
      have hsize := zerosSize_le n
      have hsub := sub_zerosSize n
      have hchunk := resid_of_le (by omega) (moveLoop_of_uiomove hmove)
      have hrest := ih (by omega) h
      omega

/-- When a chunk wraps `uio_resid` around, the chunks behind it do not bring it back. -/
theorem zeros_resid_of_not_keeps (hspace : SpaceOk as u) (htotal : u.resid.toNat ≤ total u.iov)
    (hk : ¬ ZerosKeepToResid n u m) (h : zerosLoop as zeros n u m = .ok (res, u', m')) :
    2 ^ 32 + u.resid.toNat ≤ u'.resid.toNat + n.toNat := by
  fun_induction zerosLoop as zeros n u m with
  | case1 u m => exact absurd (.inl (Nat.zero_le _)) hk
  | case2 => cases h
  | case3 n u m hn e u₁ m₁ hmove =>
      cases h
      have hsize := zerosSize_le n
      rw [uiomove_eq hspace] at hmove
      by_cases hchunk : KeepsToResid (zerosSize n) u m
      · exfalso
        rcases Nat.lt_or_ge u.resid.toNat (zerosSize n).toNat with hlt | hge
        · exact hk (zerosKeep_of_keeps hlt hchunk)
        · obtain ⟨i, hi, hbad⟩ := exists_bad_of_error hmove
          exact hk (.inr (.inr ⟨i, by omega, hbad, fun q hq hqi => by omega⟩))
      · have hwrap := resid_of_not_keeps hchunk hmove
        omega
  | case4 n u m hn u₁ m₁ hmove ih =>
      have hsize := zerosSize_le n
      have hsub := sub_zerosSize n
      have hnlt := n.toNat_lt
      rw [uiomove_eq hspace] at hmove
      by_cases hchunk : KeepsToResid (zerosSize n) u m
      · rcases Nat.lt_or_ge u.resid.toNat (zerosSize n).toNat with hlt | hge
        · exact absurd (zerosKeep_of_keeps hlt hchunk) hk
        · obtain ⟨res, u'', m', k, t, hrun, hadv, hdel, hres⟩ := moveLoop_moves zeros htotal hchunk
          rw [hmove] at hrun
          cases hrun
          rcases hres with ⟨-, hk', rfl⟩ | ⟨hr, -⟩
          swap
          · cases hr
          have ht : t = (zerosSize n).toNat := by omega
          have hresid := hadv.resid
          have hnext := zerosKeep_next (ht ▸ hadv) hge (good_of_ok hge hmove) hdel.agree.mapped
          have htotal₁ : u₁.resid.toNat ≤ total u₁.iov := by
            rw [total_drop hadv.bytes]
            omega
          have hspace₁ : SpaceOk as u₁ := by
            rw [SpaceOk, hadv.space, hadv.segflg]
            exact hspace
          have hrest := ih hspace₁ htotal₁ (fun hk₁ => hk (hnext.2 hk₁)) h
          omega
      · have hwrap := resid_of_not_keeps hchunk hmove
        have hrest := zeros_resid_of_le (by omega) h
        omega

theorem zerosLoop_iff (hrw : u.rw = .read) (hspace : SpaceOk as u) (hz : ZeroBuffer zeros m)
    (htotal : u.resid.toNat ≤ total u.iov) :
    ZerosExactly n u m (zerosLoop as zeros n u m) ↔ ZerosKeepToResid n u m := by
  refine ⟨fun h => ?_, zerosLoop_moves hrw hspace hz htotal⟩
  by_contra hk
  obtain ⟨res, u', m', k, t, hrun, hadv, -⟩ := h
  have hwrap := zeros_resid_of_not_keeps hspace htotal hk hrun
  have hresid := hadv.resid
  have hn := n.toNat_lt
  omega

end Zeros

/-! ## Both calls -/

/-- For a `uio_resid` of at most the sum of the `iov_len`, a call of `uiomove` moves exactly
`min n uio_resid` bytes, or reports what it has moved, just when it keeps to `uio_resid`; and so
does `uiomovezeros`. -/
theorem uiomove_exact (as : Option Nat) (ptr zeros n : UInt32) (u : Uio) (m : Mem)
    (hspace : SpaceOk as u) (htotal : u.resid.toNat ≤ total u.iov) :
    (MovesExactly ptr n u m (uiomove as ptr n u m) ↔ KeepsToResid n u m) ∧
      (u.rw = .read → ZeroBuffer zeros m →
        (ZerosExactly n u m (uiomovezeros as zeros n u m) ↔ ZerosKeepToResid n u m)) := by
  refine ⟨?_, fun hrw hz => ?_⟩
  · rw [uiomove_eq hspace]
    exact moveLoop_iff ptr htotal
  · rw [uiomovezeros, if_pos hrw]
    exact zerosLoop_iff hrw hspace hz htotal

/-- Three kernel buffers, the second of them empty. -/
def threeBuffers (resid : UInt32) : Uio where
  iov := [⟨0x80001000, 4⟩, ⟨0x80002000, 0⟩, ⟨0x80003000, 8⟩]
  offset := 0
  resid := resid
  segflg := .sysspace
  rw := .read
  space := none

/-- Kernel memory of zeros. -/
def zeroMem : Mem := ⟨fun _ => 0, fun _ => none⟩

theorem uiomove_exact_three :
    MovesExactly 0x80004000 16 (threeBuffers 12) zeroMem
        (uiomove none 0x80004000 16 (threeBuffers 12) zeroMem) ∧
      ZerosExactly 16 (threeBuffers 12) zeroMem
        (uiomovezeros none 0x80004000 16 (threeBuffers 12) zeroMem) := by
  have hends : Ends (threeBuffers 12).iov 12 := ⟨_, List.prefix_rfl, rfl⟩
  obtain ⟨hmove, hzeros⟩ := uiomove_exact none 0x80004000 0x80004000 16 (threeBuffers 12) zeroMem
    rfl (by decide)
  exact ⟨hmove.2 (.inr (.inl hends)), (hzeros rfl fun _ _ => rfl).2 (.inr (.inl (.inl hends)))⟩

/-- With a `uio_resid` of 2, a call for 4 bytes fills the whole first buffer. -/
theorem uiomove_overshoots :
    SpaceOk none (threeBuffers 2) ∧ (threeBuffers 2).resid.toNat ≤ total (threeBuffers 2).iov ∧
      ¬ MovesExactly 0x80004000 4 (threeBuffers 2) zeroMem
        (uiomove none 0x80004000 4 (threeBuffers 2) zeroMem) ∧
      ¬ ZerosExactly 4 (threeBuffers 2) zeroMem
        (uiomovezeros none 0x80004000 4 (threeBuffers 2) zeroMem) := by
  have hspace : SpaceOk none (threeBuffers 2) := rfl
  have htotal : (threeBuffers 2).resid.toNat ≤ total (threeBuffers 2).iov := by decide
  have hends : ¬ Ends (threeBuffers 2).iov 2 := by
    rw [threeBuffers, ends_cons]
    exact not_or.2 ⟨by decide, fun h => absurd h.1 (by decide)⟩
  have hgood : ∀ i, ¬ Bad (threeBuffers 2).segflg zeroMem.user (threeBuffers 2).iov i :=
    fun i h => h.2 (.inl rfl)
  refine ⟨hspace, htotal, ?_, ?_⟩
  · rw [uiomove_eq hspace, moveLoop_iff _ htotal]
    rintro (hle | h | ⟨i, -, hbad, -⟩)
    · exact absurd hle (by decide)
    · exact hends h
    · exact hgood i hbad
  · have hrw : (threeBuffers 2).rw = .read := rfl
    rw [uiomovezeros, if_pos hrw, zerosLoop_iff hrw hspace (fun _ _ => rfl) htotal]
    rintro (hle | h | ⟨i, -, hbad, -⟩)
    · exact absurd hle (by decide)
    · exact h.elim hends (by decide)
    · exact hgood i hbad

end Os161.Kernlib.Uiomove

import Os161.Sfs.Io
import Os161.Sfs.Moving

set_option autoImplicit false

/-!
# The steps of `sfs_io`

`sfs_io` moves a leading part of a block, whole blocks and a trailing part. What the steps have in
common for reading and for writing is where they are: an invariant for the first `n` bytes that
every step keeps holds at the end for all of them.
-/

namespace Os161.Sfs

open Os161.Lib.Calls

variable {ok : Panic → Prop} {sv : Ptr}

/-- The transfer of a whole block gives back the uio with its own offset and count. -/
theorem moved_restore {u v : Uio} {saveoff diskoff : Nat} {saveres : UInt32} {src : List UInt8}
    (h : Moved { u with offset := diskoff, resid := 512 } 512 src v) (hoff : u.offset = saveoff)
    (hres : u.resid = saveres) (h512 : 512 ≤ u.resid.toNat) :
    Moved u 512 src { v with
      offset := v.offset - diskoff + saveoff, resid := v.resid - 512 + saveres } where
  iov := h.iov
  offset := by
    have := h.offset
    change v.offset - diskoff + saveoff = u.offset + 512
    rw [this]
    change diskoff + 512 - diskoff + saveoff = _
    omega
  resid := by
    have hzero : v.resid = 0 := by
      apply UInt32.toNat_inj.1
      rw [h.resid]
      change (512 : UInt32).toNat - 512 = (0 : UInt32).toNat
      decide
    have hlt := u.resid.toNat_lt
    change (v.resid - 512 + saveres).toNat = _
    rw [hzero, ← hres, UInt32.toNat_add, show ((0 : UInt32) - 512).toNat = 2 ^ 32 - 512 by decide]
    omega
  rw := h.rw
  out := h.out

/-- The steps of a transfer of `len` bytes from the offset `off` on: `I n` holds when `n` bytes have
been moved, and `E e` when a step has ended with the error `e`. -/
structure Steps (ok : Panic → Prop) (sv : Ptr) (off len : Nat) (I : Nat → Fs × Uio → Prop)
    (E : Errno → Fs × Uio → Prop) : Prop where
  place : ∀ n x, I n x → n ≤ len ∧ x.2.resid.toNat = len - n ∧ x.2.offset % 512 = (off + n) % 512
  part : ∀ n x m, I n x → n + m ≤ len → (off + n) % 512 + m ≤ 512 →
    0 < m ∨ (off + n) % 512 ≠ 0 → wp ok (partialio sv ((off + n) % 512) m) (fun r y => match r with
      | .ok _ => I (n + m) y
      | .error e => E e y) x
  block : ∀ n x, I n x → n + 512 ≤ len → (off + n) % 512 = 0 →
    wp ok (blockio sv) (fun r y => match r with
      | .ok _ => I (n + 512) y
      | .error e => E e y) x

variable {off len : Nat} {I : Nat → Fs × Uio → Prop} {E : Errno → Fs × Uio → Prop}

/-- The whole blocks. -/
theorem Steps.blocks (h : Steps ok sv off len I E) {n : Nat} {x : Fs × Uio} {is : List Nat}
    (hx : I n x) (hfit : (off + n) % 512 = 0) (hlen : n + 512 * is.length ≤ len) :
    wp ok (forEach is fun _ => blockio sv) (fun r y => match r with
      | .ok _ => I (n + 512 * is.length) y
      | .error e => E e y) x := by
  -- `k` blocks have been moved, and the others are still to come
  refine wp_forEach (fun js y => ∃ k, k + js.length = is.length ∧ I (n + 512 * k) y)
    (fun i js y hy => ?_) (fun y hy => ?_) ⟨0, Nat.zero_add _, hx⟩
  · obtain ⟨k, hk, hI⟩ := hy
    rw [List.length_cons] at hk
    have hstep : n + 512 * k + 512 ≤ len := by omega
    refine wp_mono (h.block _ y hI hstep (by omega)) fun r z hz => ?_
    cases r with
    | ok _ =>
        have hsum : n + 512 * (k + 1) = n + 512 * k + 512 := by omega
        exact ⟨k + 1, by omega, by rw [hsum]; exact hz⟩
    | error e => exact hz
  · obtain ⟨k, hk, hI⟩ := hy
    rw [List.length_nil, Nat.add_zero] at hk
    exact hk ▸ hI

/-- What comes after the leading part. -/
theorem Steps.tail (h : Steps ok sv off len I E) {n : Nat} {x : Fs × Uio} (hx : I n x)
    (hfit : n = len ∨ (off + n) % 512 = 0) :
    wp ok (do
      let (_, u) ← get
      if u.resid = 0 then pure ()
      else if u.offset % 512 ≠ 0 then halt .assertion
      else do
        forEach (List.range (u.resid.toNat / 512)) fun _ => blockio sv
        let (_, u) ← get
        if 512 ≤ u.resid then halt .assertion
        else if 0 < u.resid then partialio sv 0 u.resid.toNat
        else pure () : IoCall Unit) (fun r y => match r with
      | .ok _ => I len y
      | .error e => E e y) x := by
  obtain ⟨hle, hresid, hoff⟩ := h.place n x hx
  have hzero32 : (0 : UInt32).toNat = 0 := rfl
  rw [wp_bind, wp_get, then_ok]
  dsimp only
  rw [wp_ite]
  refine ⟨fun hzero => ?_, fun hne => ?_⟩
  · rw [hzero] at hresid
    have hn : n = len := by omega
    exact (wp_pure _).2 (hn ▸ hx)
  · have hpos : x.2.resid.toNat ≠ 0 := fun hzero => hne (UInt32.toNat_inj.1 hzero)
    have halign : (off + n) % 512 = 0 := hfit.resolve_left (by omega)
    have hlength : (List.range (x.2.resid.toNat / 512)).length = x.2.resid.toNat / 512 :=
      List.length_range
    rw [if_neg (not_not.2 (hoff.trans halign)), wp_bind]
    have hblocks : wp ok (forEach (List.range (x.2.resid.toNat / 512)) fun _ => blockio sv) _ x :=
      h.blocks hx halign (by rw [hlength]; omega)
    refine wp_mono hblocks fun r y hy => ?_
    cases r with
    | error e => exact hy
    | ok _ =>
        rw [hlength] at hy
        obtain ⟨hyle, hyres, -⟩ := h.place _ y hy
        have hsmall : ¬ 512 ≤ y.2.resid := by
          rw [UInt32.le_iff_toNat_le, show (512 : UInt32).toNat = 512 from rfl]
          omega
        rw [then_ok, wp_bind, wp_get, then_ok, if_neg hsmall, wp_ite]
        refine ⟨fun hmore => ?_, fun hnot => (wp_pure _).2 ?_⟩
        · rw [UInt32.lt_iff_toNat_lt, hzero32] at hmore
          have hal : (off + (n + 512 * (x.2.resid.toNat / 512))) % 512 = 0 := by omega
          have hlast := h.part _ y y.2.resid.toNat hy (by omega) (by omega) (.inl (by omega))
          have hsum : n + 512 * (x.2.resid.toNat / 512) + y.2.resid.toNat = len := by omega
          rwa [hal, hsum] at hlast
        · rw [UInt32.lt_iff_toNat_lt, hzero32] at hnot
          have hn : n + 512 * (x.2.resid.toNat / 512) = len := by omega
          rwa [hn] at hy

/-- The body of `sfs_io`. -/
theorem Steps.ioBody (h : Steps ok sv off len I E) {x : Fs × Uio} (hx : I 0 x) :
    wp ok (ioBody sv) (fun r y => match r with
      | .ok _ => I len y
      | .error e => E e y) x := by
  obtain ⟨-, hresid, hoff⟩ := h.place 0 x hx
  rw [Sfs.ioBody, wp_bind, wp_get, then_ok]
  dsimp only
  rw [hoff, hresid, wp_ite]
  refine ⟨fun hne => ?_, fun hzero => h.tail hx (.inr (not_not.1 hzero))⟩
  obtain ⟨m, hm⟩ : ∃ m, m = min (512 - (off + 0) % 512) (len - 0) := ⟨_, rfl⟩
  rw [← hm, wp_bind]
  refine wp_mono (h.part 0 x m hx (by omega) (by omega) (.inr hne)) fun r y hy => ?_
  cases r with
  | error e => exact hy
  | ok _ => exact h.tail hy (by omega)

end Os161.Sfs

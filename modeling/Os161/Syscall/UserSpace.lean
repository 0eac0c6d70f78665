import Mathlib.Algebra.Group.Nat.Defs
import Mathlib.Tactic.Common
import Os161.Syscall.CopyInOut

set_option autoImplicit false

/-!
# Copies and the end of user space

What `copyin`, `copyout`, `copyinstr` and `copyoutstr` make of a user address and a length. A block
is copied when all of it is in mapped user space. A string ends at its terminator, where mapped user
space ends, or at the limit, whichever comes first.
-/

namespace Os161.Syscall

/-! ## The end of a string -/

/-- How a scan over the positions below a limit ends. -/
inductive ScanEnd where
  | terminated (i : Nat)
  | fault (i : Nat)
  | exhausted

/-- The first position that is not in the space, or is zero, decides. -/
def Scans (space zero : Nat → Prop) (limit : Nat) : ScanEnd → Prop
  | .terminated i => i < limit ∧ space i ∧ zero i ∧ ∀ j < i, space j ∧ ¬ zero j
  | .fault i => i < limit ∧ ¬ space i ∧ ∀ j < i, space j ∧ ¬ zero j
  | .exhausted => ∀ j < limit, space j ∧ ¬ zero j

/-- The end of the loop of `copystr`. -/
def ScanEnd.loop : ScanEnd → CopystrEnd
  | .terminated _ => .terminated
  | .fault _ => .fault
  | .exhausted => .exhausted

/-- One position has been passed. -/
def ScanEnd.succ : ScanEnd → ScanEnd
  | .terminated i => .terminated (i + 1)
  | .fault i => .fault (i + 1)
  | .exhausted => .exhausted

section Scan

variable {space zero : Nat → Prop} {limit : Nat} {e : ScanEnd}

theorem loop_succ (e : ScanEnd) : e.succ.loop = e.loop := by
  cases e <;> rfl

/-- Positions behind one that is passed. -/
theorem forall_lt_succ {P : Nat → Prop} {i : Nat} (hzero : P 0) (h : ∀ j < i, P (j + 1)) :
    ∀ j < i + 1, P j
  | 0, _ => hzero
  | j + 1, hj => h j (Nat.lt_of_succ_lt_succ hj)

theorem Scans.congr {zero' : Nat → Prop} (hzero : ∀ i < limit, zero i ↔ zero' i)
    (h : Scans space zero limit e) : Scans space zero' limit e := by
  cases e with
  | terminated i =>
      obtain ⟨hlt, hs, hz, hpass⟩ := h
      exact ⟨hlt, hs, (hzero i hlt).1 hz,
        fun j hj => ⟨(hpass j hj).1, mt (hzero j (Nat.lt_trans hj hlt)).2 (hpass j hj).2⟩⟩
  | fault i =>
      obtain ⟨hlt, hs, hpass⟩ := h
      exact ⟨hlt, hs, fun j hj => ⟨(hpass j hj).1, mt (hzero j (Nat.lt_trans hj hlt)).2 (hpass j hj).2⟩⟩
  | exhausted => exact fun j hj => ⟨(h j hj).1, mt (hzero j hj).2 (h j hj).2⟩

theorem Scans.succ (hspace : space 0) (hzero : ¬ zero 0)
    (h : Scans (fun i => space (i + 1)) (fun i => zero (i + 1)) limit e) :
    Scans space zero (limit + 1) e.succ := by
  cases e with
  | terminated i =>
      obtain ⟨hlt, hs, hz, hpass⟩ := h
      exact ⟨Nat.succ_lt_succ hlt, hs, hz, forall_lt_succ ⟨hspace, hzero⟩ hpass⟩
  | fault i =>
      obtain ⟨hlt, hs, hpass⟩ := h
      exact ⟨Nat.succ_lt_succ hlt, hs, forall_lt_succ ⟨hspace, hzero⟩ hpass⟩
  | exhausted => exact forall_lt_succ ⟨hspace, hzero⟩ h

end Scan

/-! ## The loops of `copystr` -/

/-- The byte `i` of a region can be accessed. -/
def Readable (u : UserMem) (a : UInt32) (i : Nat) : Prop := u (a + .ofNat i) ≠ none

/-- The byte `i` of a region is zero. -/
def ZeroAt (u : UserMem) (a : UInt32) (i : Nat) : Prop := u (a + .ofNat i) = some 0

section Loops

variable {u : UserMem} {a : UInt32}

theorem next_add_ofNat (a : UInt32) (i : Nat) : a + 1 + .ofNat i = a + .ofNat (i + 1) := by
  rw [UInt32.ofNat_add, UInt32.add_comm (.ofNat i), ← UInt32.add_assoc]
  rfl

theorem readable_zero : Readable u a 0 ↔ u a ≠ none := by
  rw [Readable, show UInt32.ofNat 0 = 0 from rfl, UInt32.add_zero]

theorem readable_next : Readable u (a + 1) = fun i => Readable u a (i + 1) := by
  funext i
  rw [Readable, Readable, next_add_ofNat]

theorem zeroAt_zero : ZeroAt u a 0 ↔ u a = some 0 := by
  rw [ZeroAt, show UInt32.ofNat 0 = 0 from rfl, UInt32.add_zero]

theorem zeroAt_next : ZeroAt u (a + 1) = fun i => ZeroAt u a (i + 1) := by
  funext i
  rw [ZeroAt, ZeroAt, next_add_ofNat]

/-- The loop from a user address; what it has copied ends with the terminator. -/
theorem scans_copystrLoop (u : UserMem) (n : Nat) (a : UInt32) :
    ∃ e, Scans (Readable u a) (ZeroAt u a) n e ∧ (copystrLoop u n a).2 = e.loop ∧
      ∀ i, e = .terminated i → (copystrLoop u n a).1.length = i + 1 := by
  induction n generalizing a with
  | zero =>
      exact ⟨.exhausted, fun j hj => absurd hj (Nat.not_lt_zero j), rfl, by intros; contradiction⟩
  | succ n ih =>
      rw [copystrLoop]
      cases hb : u a with
      | none =>
          have hnot : ¬ Readable u a 0 := by rw [readable_zero, hb]; exact not_not.2 rfl
          exact ⟨.fault 0, ⟨Nat.succ_pos n, hnot, by intros; contradiction⟩, rfl,
            by intros; contradiction⟩
      | some b =>
          have hread : Readable u a 0 := by rw [readable_zero, hb]; exact Option.some_ne_none b
          have hzero : ZeroAt u a 0 ↔ b = 0 := by rw [zeroAt_zero, hb, Option.some.injEq]
          dsimp only
          split_ifs with h
          · refine ⟨.terminated 0, ⟨Nat.succ_pos n, hread, hzero.2 h, by intros; contradiction⟩,
              rfl, ?_⟩
            rintro i ⟨rfl⟩
            rfl
          · obtain ⟨e, he, hloop, hlen⟩ := ih (a + 1)
            rw [readable_next, zeroAt_next] at he
            refine ⟨e.succ, he.succ hread (mt hzero.1 h), hloop.trans (loop_succ e).symm, ?_⟩
            intro i hi
            cases e with
            | terminated k =>
                obtain rfl : k + 1 = i := ScanEnd.terminated.inj hi
                exact congrArg Nat.succ (hlen k rfl)
            | fault k => cases hi
            | exhausted => cases hi

/-- The loop to a user address. -/
theorem scans_copyoutstrLoop (bs : List UInt8) (a : UInt32) (u : UserMem) :
    ∃ e, Scans (Readable u a) (fun i => bs[i]? = some 0) bs.length e ∧
      (copyoutstrLoop bs a u).1 = e.loop ∧
      ∀ i, e = .terminated i → (bs.takeWhile (· ≠ 0)).length = i := by
  induction bs generalizing a u with
  | nil =>
      exact ⟨.exhausted, fun j hj => absurd hj (Nat.not_lt_zero j), rfl, by intros; contradiction⟩
  | cons b bs ih =>
      have hzero : (b :: bs)[0]? = some 0 ↔ b = 0 := by
        rw [List.getElem?_cons_zero, Option.some.injEq]
      rw [copyoutstrLoop]
      by_cases hfault : (u a).isNone
      · have hnot : ¬ Readable u a 0 := by
          rw [readable_zero, not_not]
          exact Option.isNone_iff_eq_none.1 hfault
        rw [if_pos hfault]
        exact ⟨.fault 0, ⟨Nat.succ_pos _, hnot, by intros; contradiction⟩, rfl,
          by intros; contradiction⟩
      · have hread : Readable u a 0 := by
          rw [readable_zero]
          exact mt Option.isNone_iff_eq_none.2 hfault
        rw [if_neg hfault]
        dsimp only
        split_ifs with h
        · refine ⟨.terminated 0, ⟨Nat.succ_pos _, hread, hzero.2 h, by intros; contradiction⟩,
            rfl, ?_⟩
          rintro i ⟨rfl⟩
          simp [h]
        · -- storing the byte does not change what can be accessed
          have hsame : Readable (Function.update u a (some b)) = Readable u := by
            funext x i
            rw [Readable, Readable]
            by_cases hx : x + .ofNat i = a
            · rw [hx, Function.update_self]
              exact propext ⟨fun _ => readable_zero.1 hread, fun _ => Option.some_ne_none b⟩
            · rw [Function.update_of_ne hx]
          obtain ⟨e, he, hloop, hlen⟩ := ih (a + 1) (Function.update u a (some b))
          rw [hsame, readable_next] at he
          refine ⟨e.succ, Scans.succ hread (mt hzero.1 h) ?_, hloop.trans (loop_succ e).symm, ?_⟩
          · simpa only [List.getElem?_cons_succ] using he
          · intro i hi
            cases e with
            | terminated k =>
                obtain rfl : k + 1 = i := ScanEnd.terminated.inj hi
                rw [List.takeWhile_cons_of_pos (by simpa using h), List.length_cons, hlen k rfl]
            | fault k => cases hi
            | exhausted => cases hi

end Loops

/-! ## What the check lets through -/

section Check

variable {p len : UInt32}

/-- A region that wraps around the address space is refused. -/
theorem copycheck_wraps (h : 2 ^ 32 < p.toNat + len.toNat) : copycheck p len = .error .EFAULT := by
  have hp := p.toNat_lt
  have hl := len.toNat_lt
  have hone : (1 : UInt32).toNat = 1 := rfl
  have htop : p + len - 1 < p := by
    rw [UInt32.lt_iff_toNat_lt, UInt32.toNat_sub, UInt32.toNat_add, hone]
    omega
  rw [copycheck]
  exact if_pos htop

/-- A region in the kernel is refused. -/
theorem copycheck_kernel (h : userspacetop.toNat ≤ p.toNat) : copycheck p len = .error .EFAULT := by
  have hkernel : userspacetop ≤ p := UInt32.le_iff_toNat_le.2 h
  rw [copycheck, if_pos hkernel, ite_self]

/-- Another region may be copied as far as user space goes. -/
theorem copycheck_clips (hlen : 0 < len.toNat) (hwrap : p.toNat + len.toNat ≤ 2 ^ 32)
    (huser : p.toNat < userspacetop.toNat) : ∃ stoplen, copycheck p len = .ok stoplen ∧
      stoplen.toNat = min len.toNat (userspacetop.toNat - p.toNat) := by
  have hp := p.toNat_lt
  have hl := len.toNat_lt
  have htop : userspacetop.toNat = 2 ^ 31 := rfl
  have hone : (1 : UInt32).toNat = 1 := rfl
  have hend : (p + len - 1).toNat = p.toNat + len.toNat - 1 := by
    rw [UInt32.toNat_sub, UInt32.toNat_add, hone]
    omega
  have hnowrap : ¬ p + len - 1 < p := by
    rw [UInt32.lt_iff_toNat_lt, hend]
    omega
  have hbelow : ¬ userspacetop ≤ p := by
    rw [UInt32.le_iff_toNat_le]
    omega
  rw [copycheck, if_neg hnowrap, if_neg hbelow]
  by_cases hover : userspacetop ≤ p + len - 1
  · rw [if_pos hover]
    rw [UInt32.le_iff_toNat_le, hend] at hover
    refine ⟨_, rfl, ?_⟩
    rw [UInt32.toNat_sub_of_le _ _ (UInt32.le_iff_toNat_le.2 (Nat.le_of_lt huser))]
    omega
  · rw [if_neg hover]
    rw [UInt32.le_iff_toNat_le, hend] at hover
    exact ⟨len, rfl, by omega⟩

end Check

/-! ## Regions of mapped user space -/

/-- The byte `i` of a region is in mapped user space. -/
def Mapped (u : UserMem) (p : UInt32) (i : Nat) : Prop :=
  p.toNat + i < userspacetop.toNat ∧ Readable u p i

/-- What a copy of a string returns, and stores in `*actual`. -/
def ScanEnd.result : ScanEnd → Except Int UInt32
  | .terminated i => .ok (.ofNat (i + 1))
  | .fault _ => .error Errno.EFAULT.code
  | .exhausted => .error enametoolong

/-- What the end of the loop of `copystr` means for a limit and an end of user space. -/
def ScanEnd.clipped (stop len : Nat) : ScanEnd → Except Int UInt32
  | .exhausted => .error (if stop < len then Errno.EFAULT.code else enametoolong)
  | e => e.result

section Strings

variable {u : UserMem} {p len : UInt32} {zero : Nat → Prop} {e : ScanEnd}

/-- A scan up to the end of user space is one of the whole region. -/
theorem Scans.mapped {stop n : Nat} (hle : stop ≤ n) (hin : p.toNat + stop ≤ userspacetop.toNat)
    (hend : stop < n → p.toNat + stop = userspacetop.toNat)
    (h : Scans (Readable u p) zero stop e) :
    ∃ e', Scans (Mapped u p) zero n e' ∧ e'.result = e.clipped stop n := by
  have hmapped : ∀ i < stop, Readable u p i → Mapped u p i := fun i hi hr => ⟨by omega, hr⟩
  cases e with
  | terminated i =>
      obtain ⟨hlt, hr, hz, hpass⟩ := h
      refine ⟨.terminated i, ⟨by omega, hmapped i hlt hr, hz, fun j hj => ?_⟩, rfl⟩
      exact ⟨hmapped j (by omega) (hpass j hj).1, (hpass j hj).2⟩
  | fault i =>
      obtain ⟨hlt, hr, hpass⟩ := h
      refine ⟨.fault i, ⟨by omega, fun hm => hr hm.2, fun j hj => ?_⟩, rfl⟩
      exact ⟨hmapped j (by omega) (hpass j hj).1, (hpass j hj).2⟩
  | exhausted =>
      have hpass : ∀ j < stop, Mapped u p j ∧ ¬ zero j := fun j hj =>
        ⟨hmapped j hj (h j hj).1, (h j hj).2⟩
      by_cases hstop : stop < n
      · refine ⟨.fault stop, ⟨hstop, fun hm => ?_, hpass⟩, ?_⟩
        · exact absurd hm.1 (by rw [hend hstop]; exact Nat.lt_irrefl _)
        · rw [ScanEnd.clipped, if_pos hstop]
          rfl
      · refine ⟨.exhausted, fun j hj => hpass j (by omega), ?_⟩
        rw [ScanEnd.clipped, if_neg hstop]
        rfl

/-- `copyinstr`: the error number or `*actual`; `copystr` stores one byte in every round. -/
def copyinstrActual (u : UserMem) (usersrc len : UInt32) : Except Int UInt32 :=
  let (bs, result) := copyinstr u usersrc len
  if result = 0 then .ok (.ofNat bs.length) else .error result

/-- A scan of an empty part of user space ends at once. -/
theorem scans_kernel (hlen : 0 < len.toNat) (hkernel : userspacetop.toNat ≤ p.toNat) :
    Scans (Mapped u p) zero len.toNat (.fault 0) :=
  ⟨hlen, fun hm => absurd hm.1 (by omega), nofun⟩

/-- `copyinstr` of a region that does not wrap around. -/
theorem scans_copyinstr (hlen : 0 < len.toNat) (hwrap : p.toNat + len.toNat ≤ 2 ^ 32) :
    ∃ e, Scans (Mapped u p) (ZeroAt u p) len.toNat e ∧ copyinstrActual u p len = e.result := by
  rcases Nat.lt_or_ge p.toNat userspacetop.toNat with huser | hkernel
  · obtain ⟨stoplen, hcheck, hstop⟩ := copycheck_clips hlen hwrap huser
    obtain ⟨e, he, hloop, hactual⟩ := scans_copystrLoop u (min len.toNat stoplen.toNat) p
    have hmin : min len.toNat stoplen.toNat = stoplen.toNat := by omega
    rw [hmin] at he hloop hactual
    obtain ⟨e', he', hresult⟩ := he.mapped (n := len.toNat) (by omega) (by omega) (by omega)
    refine ⟨e', he', ?_⟩
    rw [hresult, copyinstrActual, copyinstr, hcheck]
    dsimp only
    rw [hmin]
    rcases hrun : copystrLoop u stoplen.toNat p with ⟨bs, k⟩
    rw [hrun] at hloop hactual
    cases e with
    | terminated i =>
        obtain rfl : k = .terminated := hloop
        exact congrArg (fun n => Except.ok (UInt32.ofNat n)) (hactual i rfl)
    | fault i =>
        obtain rfl : k = .fault := hloop
        rfl
    | exhausted =>
        obtain rfl : k = .exhausted := hloop
        have hlt : stoplen < len ↔ stoplen.toNat < len.toNat := UInt32.lt_iff_toNat_lt
        dsimp only [ScanEnd.clipped]
        by_cases h : stoplen < len
        · rw [if_pos h, if_pos (hlt.1 h)]
          rfl
        · rw [if_neg h, if_neg (mt hlt.2 h)]
          rfl
  · refine ⟨.fault 0, scans_kernel hlen hkernel, ?_⟩
    rw [copyinstrActual, copyinstr, copycheck_kernel hkernel]
    rfl

/-- `copyoutstr` to a region that does not wrap around. -/
theorem scans_copyoutstr {src : List UInt8} (hsrc : src.length = len.toNat) (hlen : 0 < len.toNat)
    (hwrap : p.toNat + len.toNat ≤ 2 ^ 32) :
    ∃ e, Scans (Mapped u p) (fun i => src[i]? = some 0) len.toNat e ∧
      (copyoutstr src p len u).1 = e.result := by
  rcases Nat.lt_or_ge p.toNat userspacetop.toNat with huser | hkernel
  · obtain ⟨stoplen, hcheck, hstop⟩ := copycheck_clips hlen hwrap huser
    have hmin : min len.toNat stoplen.toNat = stoplen.toNat := by omega
    have hpart : (src.take stoplen.toNat).length = stoplen.toNat :=
      List.length_take_of_le (by omega)
    obtain ⟨e, he, hloop, hactual⟩ := scans_copyoutstrLoop (src.take stoplen.toNat) p u
    rw [hpart] at he
    have hzero : ∀ i < stoplen.toNat, (src.take stoplen.toNat)[i]? = some 0 ↔ src[i]? = some 0 :=
      fun i hi => by rw [List.getElem?_take_of_lt hi]
    obtain ⟨e', he', hresult⟩ :=
      (he.congr hzero).mapped (n := len.toNat) (by omega) (by omega) (by omega)
    refine ⟨e', he', ?_⟩
    rw [hresult, copyoutstr, hcheck]
    dsimp only
    rw [hmin]
    rcases hrun : copyoutstrLoop (src.take stoplen.toNat) p u with ⟨k, u'⟩
    rw [hrun] at hloop
    cases e with
    | terminated i =>
        obtain rfl : k = .terminated := hloop
        dsimp only
        rw [hactual i rfl]
        rfl
    | fault i =>
        obtain rfl : k = .fault := hloop
        rfl
    | exhausted =>
        obtain rfl : k = .exhausted := hloop
        have hlt : stoplen < len ↔ stoplen.toNat < len.toNat := UInt32.lt_iff_toNat_lt
        dsimp only [ScanEnd.clipped]
        by_cases h : stoplen < len
        · rw [if_pos h, if_pos (hlt.1 h)]
        · rw [if_neg h, if_neg (mt hlt.2 h)]
  · refine ⟨.fault 0, scans_kernel hlen hkernel, ?_⟩
    rw [copyoutstr, copycheck_kernel hkernel]
    rfl

end Strings

/-! ## Blocks -/

/-- Two memories agree in user space. -/
def AgreeBelow (u u' : UserMem) : Prop := ∀ x, x < userspacetop → u x = u' x

section Blocks

variable {u u' : UserMem} {p a len : UInt32} {n : Nat}

theorem AgreeBelow.at (h : AgreeBelow u u') {i : Nat} (hi : a.toNat + i < userspacetop.toNat) :
    u (a + .ofNat i) = u' (a + .ofNat i) := by
  have htop : userspacetop.toNat = 2 ^ 31 := rfl
  apply h
  rw [UInt32.lt_iff_toNat_lt, UInt32.toNat_add, UInt32.toNat_ofNat']
  omega

/-- `memcpy` from user memory gets to its end when every byte can be accessed. -/
theorem loadBytes_isSome (u : UserMem) (n : Nat) (a : UInt32) :
    (loadBytes u a n).isSome ↔ ∀ i < n, Readable u a i := by
  induction n generalizing a with
  | zero => simp [loadBytes]
  | succ n ih =>
      have hrest : (∀ i < n + 1, Readable u a i) ↔ u a ≠ none ∧ ∀ i < n, Readable u (a + 1) i := by
        rw [readable_next]
        refine ⟨fun h => ⟨readable_zero.1 (h 0 (Nat.succ_pos n)), fun i hi => ?_⟩, fun h => ?_⟩
        · exact h (i + 1) (Nat.succ_lt_succ hi)
        · exact forall_lt_succ (readable_zero.2 h.1) h.2
      rw [hrest, ← ih, loadBytes]
      cases u a with
      | none => simp
      | some b => cases loadBytes u (a + 1) n <;> simp

theorem loadBytes_congr (n : Nat) (a : UInt32)
    (h : ∀ i < n, u (a + .ofNat i) = u' (a + .ofNat i)) : loadBytes u a n = loadBytes u' a n := by
  induction n generalizing a with
  | zero => rfl
  | succ n ih =>
      have hzero := h 0 (Nat.succ_pos n)
      rw [show UInt32.ofNat 0 = 0 from rfl, UInt32.add_zero] at hzero
      have hrest := ih (a + 1) fun i hi => by
        rw [next_add_ofNat]
        exact h (i + 1) (Nat.succ_lt_succ hi)
      rw [loadBytes, loadBytes, hzero, hrest]

theorem reach_congr (n : Nat) (a : UInt32) (h : ∀ i < n, u (a + .ofNat i) = u' (a + .ofNat i)) :
    reach u a n = reach u' a n := by
  induction n generalizing a with
  | zero => rfl
  | succ n ih =>
      have hzero := h 0 (Nat.succ_pos n)
      rw [show UInt32.ofNat 0 = 0 from rfl, UInt32.add_zero] at hzero
      have hrest := ih (a + 1) fun i hi => by
        rw [next_add_ofNat]
        exact h (i + 1) (Nat.succ_lt_succ hi)
      rw [reach, reach, hzero, hrest]

/-- Every byte in front of the end that `reach` finds can be accessed. -/
theorem readable_of_lt_reach (n : Nat) (a : UInt32) {i : Nat} (h : i < reach u a n) :
    Readable u a i := by
  induction n generalizing a i with
  | zero => exact absurd h (Nat.not_lt_zero i)
  | succ n ih =>
      rw [reach] at h
      split_ifs at h with hnone
      · exact absurd h (Nat.not_lt_zero i)
      · cases i with
        | zero => exact readable_zero.2 (mt Option.isNone_iff_eq_none.2 hnone)
        | succ i =>
            have hrest := ih (a + 1) (Nat.lt_of_succ_lt_succ h)
            rwa [readable_next] at hrest

/-- All of a region is in mapped user space. -/
def AllMapped (u : UserMem) (p len : UInt32) : Prop := ∀ i < len.toNat, Mapped u p i

/-- The region is one that `copycheck` lets through, and every byte can be accessed. -/
theorem allMapped_iff (hlen : 0 < len.toNat) : AllMapped u p len ↔
    copycheck p len = .ok len ∧ ∀ i < len.toNat, Readable u p i := by
  rw [copycheck_eq_len]
  constructor
  · intro h
    have hlast := (h (len.toNat - 1) (by omega)).1
    exact ⟨⟨hlen, by omega⟩, fun i hi => (h i hi).2⟩
  · rintro ⟨⟨-, hend⟩, h⟩ i hi
    exact ⟨by omega, h i hi⟩

theorem copyin_ok (h : copycheck p len = .ok len) : copyin u p len =
    match loadBytes u p len.toNat with
    | none => .error .EFAULT
    | some bs => .ok bs := by
  rw [copyin, h]
  exact if_neg (not_not.2 rfl)

/-- A region that cannot be copied as a whole is refused. -/
theorem copyin_refused (h : copycheck p len ≠ .ok len) : copyin u p len = .error .EFAULT := by
  rw [copyin]
  cases hc : copycheck p len with
  | error e => rw [copycheck_error hc]
  | ok stoplen =>
      have hne : stoplen ≠ len := fun heq => h (by rw [hc, heq])
      exact if_pos hne

theorem stored_eq_iff (hlen : 0 < len.toNat) : stored u p len = len.toNat ↔ AllMapped u p len := by
  rw [allMapped_iff hlen, stored]
  split_ifs with hc
  · refine ⟨fun h => ⟨hc, fun i hi => readable_of_lt_reach len.toNat p (by rwa [h])⟩, fun h => ?_⟩
    exact reach_eq h.2
  · exact ⟨fun h => absurd h (by omega), fun h => absurd h.1 hc⟩

/-- What is stored depends on user space only. -/
theorem stored_congr (h : AgreeBelow u u') : stored u p len = stored u' p len := by
  rw [stored, stored]
  split_ifs with hc
  · have hend := (copycheck_eq_len.1 hc).2
    exact reach_congr _ _ fun i hi => h.at (by omega)
  · rfl

end Blocks

/-! ## What a copy has to do -/

/-- `copyin` and `copyout` touch user space only, succeed when the region is in mapped user space,
and fail with `EFAULT` otherwise. -/
structure BlockCopies (u : UserMem) (p len : UInt32) (src : List UInt8) : Prop where
  copyin_touches : ∀ u', AgreeBelow u u' → copyin u p len = copyin u' p len
  copyin_ok : AllMapped u p len → ∃ bs, copyin u p len = .ok bs
  copyin_fault : ¬ AllMapped u p len → copyin u p len = .error .EFAULT
  copyout_touches : ∀ u', AgreeBelow u u' → (copyout src p u).1 = (copyout src p u').1 ∧
    AgreeBelow (copyout src p u).2 (copyout src p u').2
  copyout_kernel : ∀ x, userspacetop ≤ x → (copyout src p u).2 x = u x
  copyout_ok : AllMapped u p len → (copyout src p u).1 = .ok ()
  copyout_fault : ¬ AllMapped u p len → (copyout src p u).1 = .error .EFAULT

/-- The results of a copy of a string. -/
structure StringCopied (space zero : Nat → Prop) (limit : Nat) (r : Except Int UInt32) : Prop where
  terminated : ∀ actual, r = .ok actual ↔ ∃ i < limit, actual = .ofNat (i + 1) ∧
    space i ∧ zero i ∧ ∀ j < i, space j ∧ ¬ zero j
  fault : r = .error Errno.EFAULT.code ↔ ∃ i < limit, ¬ space i ∧ ∀ j < i, space j ∧ ¬ zero j
  exhausted : r = .error enametoolong ↔ ∀ j < limit, space j ∧ ¬ zero j

/-- `copyinstr` and `copyoutstr` end at the terminator, at the end of mapped user space, or at the
limit. -/
structure StringCopies (u : UserMem) (p len : UInt32) (src : List UInt8) : Prop where
  copyinstr : StringCopied (Mapped u p) (ZeroAt u p) len.toNat (copyinstrActual u p len)
  copyoutstr : StringCopied (Mapped u p) (fun i => src[i]? = some 0) len.toNat
    (copyoutstr src p len u).1

section Copies

variable {u : UserMem} {p len : UInt32} {src : List UInt8}

/-- `copyout` stores everything or fails with `EFAULT`. -/
theorem copyout_result (hlen : 0 < len.toNat) (hsrc : src.length = len.toNat) :
    (copyout src p u).1 = if stored u p len = len.toNat then .ok () else .error .EFAULT := by
  have hok := copyout_fst (u := u) (a := p) hsrc
  split_ifs with h
  · exact hok.2 ⟨hlen, h⟩
  · cases hr : (copyout src p u).1 with
    | ok _ => exact absurd (hok.1 hr).2 h
    | error e => rw [copyout_error hr]

theorem blockCopies (hlen : 0 < len.toNat) (hsrc : src.length = len.toNat) :
    BlockCopies u p len src where
  copyin_touches u' h := by
    by_cases hc : copycheck p len = .ok len
    · have hend := (copycheck_eq_len.1 hc).2
      rw [copyin_ok hc, copyin_ok hc, loadBytes_congr _ _ fun i hi => h.at (by omega)]
    · rw [copyin_refused hc, copyin_refused hc]
  copyin_ok h := by
    obtain ⟨hc, hread⟩ := (allMapped_iff hlen).1 h
    obtain ⟨bs, hbs⟩ := Option.isSome_iff_exists.1 ((loadBytes_isSome u _ p).2 hread)
    exact ⟨bs, by rw [Syscall.copyin_ok hc, hbs]⟩
  copyin_fault h := by
    by_cases hc : copycheck p len = .ok len
    · have hnone : loadBytes u p len.toNat = none := by
        rw [← Option.not_isSome_iff_eq_none, loadBytes_isSome]
        exact fun hread => h ((allMapped_iff hlen).2 ⟨hc, hread⟩)
      rw [Syscall.copyin_ok hc, hnone]
    · exact copyin_refused hc
  copyout_touches u' h := by
    constructor
    · rw [copyout_result hlen hsrc, copyout_result hlen hsrc, stored_congr h]
    · intro x hx
      rw [copyout_snd hsrc, copyout_snd hsrc, stored_congr h, h x hx]
  copyout_kernel x hx := by
    have hx' := UInt32.le_iff_toNat_le.1 hx
    have hbound : stored u p len = 0 ∨ p.toNat + len.toNat ≤ userspacetop.toNat := by
      rw [stored]
      split_ifs with hc
      · exact .inr (copycheck_eq_len.1 hc).2
      · exact .inl rfl
    have hle := stored_le u p len
    rw [copyout_snd hsrc, if_neg (by omega)]
  copyout_ok h := (copyout_fst hsrc).2 ⟨hlen, (stored_eq_iff hlen).2 h⟩
  copyout_fault h := by
    rw [copyout_result hlen hsrc, if_neg (mt (stored_eq_iff hlen).1 h)]

/-- A scan can end in one way only. -/
theorem Scans.unique {space zero : Nat → Prop} {limit : Nat} {e e' : ScanEnd}
    (h : Scans space zero limit e) (h' : Scans space zero limit e') : e = e' := by
  -- the position at which one scan ends is not passed by the other
  have hpass : ∀ {i k : Nat}, (¬ space i ∨ zero i) → (∀ j < k, space j ∧ ¬ zero j) → k ≤ i :=
    fun hend hk => by
      by_contra hlt
      obtain ⟨hs, hz⟩ := hk _ (Nat.not_le.1 hlt)
      exact hend.elim (fun hno => hno hs) hz
  rcases e with i | i | _ <;> rcases e' with k | k | _
  · rw [Nat.le_antisymm (hpass (.inr h'.2.2.1) h.2.2.2) (hpass (.inr h.2.2.1) h'.2.2.2)]
  · obtain rfl := Nat.le_antisymm (hpass (.inl h'.2.1) h.2.2.2) (hpass (.inr h.2.2.1) h'.2.2)
    exact absurd h.2.1 h'.2.1
  · exact absurd h.1 (Nat.not_lt.2 (hpass (.inr h.2.2.1) h'))
  · obtain rfl := Nat.le_antisymm (hpass (.inr h'.2.2.1) h.2.2) (hpass (.inl h.2.1) h'.2.2.2)
    exact absurd h'.2.1 h.2.1
  · rw [Nat.le_antisymm (hpass (.inl h'.2.1) h.2.2) (hpass (.inl h.2.1) h'.2.2)]
  · exact absurd h.1 (Nat.not_lt.2 (hpass (.inl h.2.1) h'))
  · exact absurd h'.1 (Nat.not_lt.2 (hpass (.inr h'.2.2.1) h))
  · exact absurd h'.1 (Nat.not_lt.2 (hpass (.inl h'.2.1) h))
  · rfl

/-- The end of the scan is what the result tells. -/
theorem StringCopied.of_scans {space zero : Nat → Prop} {limit : Nat} {e : ScanEnd}
    {r : Except Int UInt32} (h : Scans space zero limit e) (hr : r = e.result) :
    StringCopied space zero limit r where
  terminated actual := by
    constructor
    · intro hok
      cases e with
      | terminated i => exact ⟨i, h.1, Except.ok.inj (hok.symm.trans hr), h.2⟩
      | fault i => cases hok.symm.trans hr
      | exhausted => cases hok.symm.trans hr
    · rintro ⟨i, hi, rfl, hend⟩
      have he : e = .terminated i := h.unique ⟨hi, hend⟩
      rw [hr, he]
      rfl
  fault := by
    constructor
    · intro herr
      cases e with
      | terminated i => cases herr.symm.trans hr
      | fault i => exact ⟨i, h⟩
      | exhausted => exact absurd (Except.error.inj (herr.symm.trans hr)) (by decide)
    · rintro ⟨i, hend⟩
      have he : e = .fault i := h.unique hend
      rw [hr, he]
      rfl
  exhausted := by
    constructor
    · intro herr
      cases e with
      | terminated i => cases herr.symm.trans hr
      | fault i => exact absurd (Except.error.inj (herr.symm.trans hr)) (by decide)
      | exhausted => exact h
    · intro hend
      have he : e = .exhausted := h.unique hend
      rw [hr, he]
      rfl

theorem stringCopies (hlen : 0 < len.toNat) (hsrc : src.length = len.toNat)
    (hwrap : p.toNat + len.toNat ≤ 2 ^ 32) : StringCopies u p len src where
  copyinstr := by
    obtain ⟨e, he, hr⟩ := scans_copyinstr (u := u) hlen hwrap
    exact .of_scans he hr
  copyoutstr := by
    obtain ⟨e, he, hr⟩ := scans_copyoutstr (u := u) hsrc hlen hwrap
    exact .of_scans he hr

/-- Copies of at least one byte keep to user space; a region that wraps around the address space is
refused, also when a string in it ends before. -/
theorem copies_userspace (u : UserMem) (p : UInt32) (hlen : 0 < len.toNat)
    (hsrc : src.length = len.toNat) : BlockCopies u p len src ∧
      (p.toNat + len.toNat ≤ 2 ^ 32 → StringCopies u p len src) ∧
      (2 ^ 32 < p.toNat + len.toNat → copyinstrActual u p len = .error Errno.EFAULT.code ∧
        copyoutstr src p len u = (.error Errno.EFAULT.code, u)) := by
  refine ⟨blockCopies hlen hsrc, stringCopies hlen hsrc, fun hwrap => ⟨?_, ?_⟩⟩
  · rw [copyinstrActual, copyinstr, copycheck_wraps hwrap]
    rfl
  · rw [copyoutstr, copycheck_wraps hwrap]

end Copies

/-- The copies of one byte. -/
theorem copies_userspace_byte : BlockCopies (fun _ => some 0) 16 1 [7] ∧
    StringCopies (fun _ => some 0) 16 1 [7] := by
  have hlen : 0 < (1 : UInt32).toNat := by decide
  have hsrc : [(7 : UInt8)].length = (1 : UInt32).toNat := rfl
  obtain ⟨hblock, hstring, -⟩ := copies_userspace (fun _ => some 0) 16 hlen hsrc
  exact ⟨hblock, hstring (by decide)⟩

/-- An empty block is refused, and so is an empty string in a region that wraps around. -/
theorem not_copies_userspace : ¬ BlockCopies (fun _ => some 0) 16 0 [] ∧
    ¬ StringCopied (Mapped (fun _ => some 0) 16) (ZeroAt (fun _ => some 0) 16)
      (0xffffffff : UInt32).toNat (copyinstrActual (fun _ => some 0) 16 0xffffffff) := by
  constructor
  · intro h
    obtain ⟨bs, hbs⟩ := h.copyin_ok fun i hi => absurd hi (Nat.not_lt_zero i)
    cases hbs
  · intro h
    have hzero : copyinstrActual (fun _ => some 0) 16 0xffffffff = .ok 1 :=
      (h.terminated 1).2 ⟨0, by decide, rfl, ⟨by decide, Option.some_ne_none 0⟩, rfl, nofun⟩
    exact absurd hzero (by decide)

end Os161.Syscall

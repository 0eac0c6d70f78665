import Os161.Vm.Frames

set_option autoImplicit false

/-!
# What a process sees

`view s a va` is the byte that the process with the address space `a` sees at the address `va`. It
depends only on the frames of `a` (`view_congr`), and two addresses of one process never lead to
the same place (`place_injective`).
-/

namespace Os161.Vm.Dumbvm

open Os161.Lib.Calls

namespace Addrspace

variable {as bs : Addrspace} {r : Region} {va vb pa fa k : Nat}

/-- The region of an address, and its offset there: the case distinction of `vm_fault`. -/
def locate (as : Addrspace) (fa : Nat) : Option (Region × Nat) :=
  if fa ≥ as.vbase1 ∧ fa < (as.vbase1 + as.npages1 * pageSize) % 2 ^ 32 then
    some (.one, fa - as.vbase1)
  else if fa ≥ as.vbase2 ∧ fa < (as.vbase2 + as.npages2 * pageSize) % 2 ^ 32 then
    some (.two, fa - as.vbase2)
  else if fa ≥ stackbase ∧ fa < userstack then some (.stack, fa - stackbase)
  else none

theorem locate_congr (h : as.SameBounds bs) : as.locate = bs.locate := by
  have h1 : as.vbase1 = bs.vbase1 := (h .one).1
  have h1' : as.npages1 = bs.npages1 := (h .one).2
  have h2 : as.vbase2 = bs.vbase2 := (h .two).1
  have h2' : as.npages2 = bs.npages2 := (h .two).2
  funext fa
  rw [locate, locate, h1, h1', h2, h2']

theorem locate_spec (h : as.locate fa = some (r, k)) :
    as.vbase r + k = fa ∧ k < as.npages r * pageSize := by
  have hmod : ∀ x, x % 2 ^ 32 ≤ x := fun x => Nat.mod_le x _
  unfold locate at h
  split_ifs at h with h1 h2 h3
  · cases h
    have := hmod (as.vbase1 + as.npages1 * pageSize)
    simp only [vbase, npages]
    omega
  · cases h
    have := hmod (as.vbase2 + as.npages2 * pageSize)
    simp only [vbase, npages]
    omega
  · cases h
    simp only [vbase, npages, stackbase, userstack, stackpages, pageSize] at *
    omega

theorem translate_eq (hs : as.Sized) (hb : as.Built) :
    as.translate fa = (as.locate fa).map fun x => as.pbase x.1 + x.2 := by
  have hword : ∀ {r k}, as.locate fa = some (r, k) →
      (k + as.pbase r) % 2 ^ 32 = as.pbase r + k := by
    intro r k hk
    have := (locate_spec hk).2
    have := hs.fits r (hb r)
    omega
  unfold translate
  cases hloc : as.locate fa with
  | none =>
      unfold locate at hloc
      split_ifs at hloc with h1 h2 h3
      simp only [if_neg h1, if_neg h2, if_neg h3, Option.map_none]
  | some x =>
      obtain ⟨r, k⟩ := x
      have hk := hword hloc
      unfold locate at hloc
      rw [Option.map_some, ← hk]
      split_ifs at hloc with h1 h2 h3
      · cases hloc
        exact if_pos h1
      · cases hloc
        exact (if_neg h1).trans (if_pos h2)
      · cases hloc
        exact (if_neg h1).trans ((if_neg h2).trans (if_pos h3))

/-- Where the process finds the byte at `va`. -/
def place (as : Addrspace) (va : Nat) : Option Nat :=
  if as.Ready then (as.translate (pageFrame va)).map (· + va % pageSize) else none

theorem place_of_not_ready (h : ¬ as.Ready) : as.place va = none := if_neg h

theorem pageFrame_add (va : Nat) : pageFrame va + va % pageSize = va := by
  unfold pageFrame
  exact Nat.div_add_mod' va pageSize

theorem pageFrame_eq_iff (addr : Nat) : pageFrame addr = addr ↔ addr % pageSize = 0 := by
  have := pageFrame_add addr
  omega

/-- With frames of its own, an address space is ready when its regions are there and have pages. -/
theorem ready_iff (hs : as.Sized) (hb : as.Built) : as.Ready ↔
    as.vbase .one ≠ 0 ∧ as.npages .one ≠ 0 ∧ as.vbase .two ≠ 0 ∧ as.npages .two ≠ 0 := by
  simp only [Ready, pageFrame_eq_iff]
  constructor
  · rintro ⟨h1, -, h2, h3, -, h4, -⟩
    exact ⟨h1, h2, h3, h4⟩
  · rintro ⟨h1, h2, h3, h4⟩
    exact ⟨h1, hb .one, h2, h3, hb .two, h4, hb .stack, hs.vbase .one, hs.pbase .one,
      hs.vbase .two, hs.pbase .two, hs.pbase .stack⟩

/-- Two address spaces with the same bounds are both ready, or none is. -/
theorem ready_congr (h : as.SameBounds bs) (hs : as.Sized) (hb : as.Built) (hs' : bs.Sized)
    (hb' : bs.Built) : as.Ready ↔ bs.Ready := by
  rw [ready_iff hs hb, ready_iff hs' hb', (h .one).1, (h .one).2, (h .two).1, (h .two).2]

/-- The offset of an address, not only of its page, lies inside the region. -/
theorem offset_lt (hs : as.Sized) (h : as.locate (pageFrame va) = some (r, k)) :
    k + va % pageSize < as.npages r * pageSize := by
  obtain ⟨hva, hlt⟩ := locate_spec h
  have hbase := hs.vbase r
  have hmul : pageFrame va % pageSize = 0 := Nat.mul_mod_left _ _
  -- a whole number of pages, and less than a page
  unfold pageSize at *
  omega

theorem place_of_ready (hs : as.Sized) (h : as.Ready) :
    as.place va = (as.locate (pageFrame va)).map fun x => as.pbase x.1 + (x.2 + va % pageSize) := by
  rw [place, if_pos h, translate_eq hs h.built, Option.map_map]
  refine congrArg (fun f => Option.map f _) (funext fun x => ?_)
  exact Nat.add_assoc _ _ _

theorem place_spec (hs : as.Sized) (h : as.place va = some pa) :
    as.Ready ∧ ∃ r k, as.vbase r + k = va ∧ k < as.npages r * pageSize ∧ pa = as.pbase r + k := by
  have hready : as.Ready := by
    by_contra hr
    rw [place_of_not_ready hr] at h
    cases h
  rw [place_of_ready hs hready] at h
  obtain ⟨⟨r, k⟩, hk, rfl⟩ := Option.map_eq_some_iff.1 h
  have hva := (locate_spec hk).1
  have hadd := pageFrame_add va
  exact ⟨hready, r, k + va % pageSize, by omega, offset_lt hs hk, rfl⟩

theorem place_owns (hs : as.Sized) (h : as.place va = some pa) : ∃ r, as.Owns r pa := by
  obtain ⟨hready, r, k, -, hk, rfl⟩ := place_spec hs h
  exact ⟨r, hready.built r, Nat.le_add_right _ _, Nat.add_lt_add_left hk _⟩

end Addrspace

variable {s t : Machine} {a b : Nat} {as bs : Addrspace} {va vb pa : Nat}

/-- Two addresses of one process lead to different places. -/
theorem Inv.place_injective (hi : Inv s) (ha : s.spaces a = some as)
    (h : as.place va = some pa) (h' : as.place vb = some pa) : va = vb := by
  have hs := hi.sized a as ha
  obtain ⟨hready, r, k, rfl, hk, rfl⟩ := Addrspace.place_spec hs h
  obtain ⟨-, r', k', rfl, hk', heq⟩ := Addrspace.place_spec hs h'
  have ho : as.Owns r (as.pbase r + k) :=
    ⟨hready.built r, Nat.le_add_right _ _, Nat.add_lt_add_left hk _⟩
  have ho' : as.Owns r' (as.pbase r + k) := by
    rw [heq]
    exact ⟨hready.built r', Nat.le_add_right _ _, Nat.add_lt_add_left hk' _⟩
  obtain ⟨-, rfl⟩ := hi.apart a a as as r r' _ ha ha ho ho'
  rw [Nat.add_left_cancel heq]

/-! ## Views -/

/-- The byte at `va`, for the process with the address space `a`. -/
def view (s : Machine) (a va : Nat) : Option UInt8 :=
  (s.spaces a).bind fun as => (as.place va).map s.mem

theorem view_of_space (ha : s.spaces a = some as) : view s a va = (as.place va).map s.mem := by
  rw [view, ha, Option.bind_some]

theorem view_of_none (ha : s.spaces a = none) : view s a = fun _ => none := by
  funext va
  rw [view, ha, Option.bind_none]

/-- An address space that is not ready shows nothing. -/
theorem view_of_not_ready (hready : ∀ as, s.spaces a = some as → ¬ as.Ready) :
    view s a = fun _ => none := by
  cases ha : s.spaces a with
  | none => exact view_of_none ha
  | some as =>
      funext va
      rw [view_of_space ha, Addrspace.place_of_not_ready (hready as ha), Option.map_none]

/-- A view depends on the frames of the process only. -/
theorem view_congr (hi : Inv s) (hspace : t.spaces a = s.spaces a)
    (hmem : ∀ as r pa, s.spaces a = some as → as.Owns r pa → t.mem pa = s.mem pa) :
    view t a = view s a := by
  cases ha : s.spaces a with
  | none => rw [view_of_none ha, view_of_none (hspace.trans ha)]
  | some as =>
      funext va
      rw [view_of_space ha, view_of_space (hspace.trans ha)]
      cases hp : as.place va with
      | none => rfl
      | some pa =>
          obtain ⟨r, ho⟩ := Addrspace.place_owns (hi.sized a as ha) hp
          rw [Option.map_some, Option.map_some, hmem as r pa ha ho]

/-- Address spaces without frames show nothing. -/
theorem view_setCold (hi : Inv s) (hold : ∀ as, s.spaces a = some as → as.Cold)
    (hcold : as.Cold) {next : Nat} :
    view { s with spaces := Function.update s.spaces a (some as), next := next } = view s := by
  funext b
  by_cases hb : b = a
  · subst hb
    rw [view_of_not_ready fun bs hbs => (hold bs hbs).not_ready]
    refine view_of_not_ready fun bs hbs => ?_
    obtain rfl : as = bs := by simpa using hbs
    exact hcold.not_ready
  · exact view_congr hi (Function.update_of_ne hb _ _) fun _ _ _ _ _ => rfl

end Os161.Vm.Dumbvm

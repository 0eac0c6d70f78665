import Os161.Vm.Dumbvm

set_option autoImplicit false

/-!
# Who owns which frames

`Inv`: every frame of an address space has been given by `ram_stealmem`, no frame belongs to two
regions, and the valid entries of a TLB are translations of the address space that its CPU is
working in. `Prepares` is what `as_prepare_load` does, step by step.
-/

namespace Os161.Vm.Dumbvm

open Os161.Lib.Calls

/-! ## Regions -/

/-- The three parts of an address space. -/
inductive Region where
  | one
  | two
  | stack
  deriving DecidableEq

namespace Addrspace

/-- The first address of a region. -/
def vbase (as : Addrspace) : Region → Nat
  | .one => as.vbase1
  | .two => as.vbase2
  | .stack => Dumbvm.stackbase

/-- The first physical address of a region. -/
def pbase (as : Addrspace) : Region → Nat
  | .one => as.pbase1
  | .two => as.pbase2
  | .stack => as.stackpbase

/-- The number of pages of a region. -/
def npages (as : Addrspace) : Region → Nat
  | .one => as.npages1
  | .two => as.npages2
  | .stack => stackpages

/-- A region gets its frames. -/
def setPbase (as : Addrspace) (p : Nat) : Region → Addrspace
  | .one => { as with pbase1 := p }
  | .two => { as with pbase2 := p }
  | .stack => { as with stackpbase := p }

/-- The address `pa` lies in the frames of the region `r`. -/
def Owns (as : Addrspace) (r : Region) (pa : Nat) : Prop :=
  as.pbase r ≠ 0 ∧ as.pbase r ≤ pa ∧ pa < as.pbase r + as.npages r * pageSize

/-- The regions have sizes for which nothing wraps around. -/
structure Sized (as : Addrspace) : Prop where
  npages : ∀ r, as.npages r < 2 ^ 20
  vbase : ∀ r, as.vbase r % pageSize = 0
  pbase : ∀ r, as.pbase r % pageSize = 0
  fits : ∀ r, as.pbase r ≠ 0 → as.pbase r + as.npages r * pageSize ≤ 2 ^ 29

/-- No frames have been given yet. -/
def Cold (as : Addrspace) : Prop := ∀ r, as.pbase r = 0

/-- All frames have been given: `as_prepare_load` has succeeded. -/
def Built (as : Addrspace) : Prop := ∀ r, as.pbase r ≠ 0

/-- The regions have the same bounds. -/
def SameBounds (as bs : Addrspace) : Prop :=
  ∀ r, as.vbase r = bs.vbase r ∧ as.npages r = bs.npages r

variable {as bs : Addrspace} {r r' : Region} {p pa : Nat}

theorem Cold.not_owns (h : as.Cold) : ¬ as.Owns r pa := fun ho => ho.1 (h r)

theorem Ready.built (h : as.Ready) : as.Built := by
  obtain ⟨-, h1, -, -, h2, -, h3, -⟩ := h
  intro r
  cases r with
  | one => exact h1
  | two => exact h2
  | stack => exact h3

theorem Cold.not_ready (h : as.Cold) : ¬ as.Ready := fun hr => hr.built .one (h .one)

@[simp] theorem vbase_setPbase : (as.setPbase p r).vbase r' = as.vbase r' := by
  cases r <;> cases r' <;> rfl

@[simp] theorem npages_setPbase : (as.setPbase p r).npages r' = as.npages r' := by
  cases r <;> cases r' <;> rfl

theorem pbase_setPbase : (as.setPbase p r).pbase r' = if r' = r then p else as.pbase r' := by
  cases r <;> cases r' <;> rfl

theorem SameBounds.refl (as : Addrspace) : as.SameBounds as := fun _ => ⟨rfl, rfl⟩

theorem SameBounds.setPbase (h : bs.SameBounds as) (p : Nat) (r : Region) :
    (bs.setPbase p r).SameBounds as := fun r' => by simpa using h r'

end Addrspace

/-- The address `pa` has been given to somebody. -/
def Taken (taken : List (Nat × Nat)) (pa : Nat) : Prop :=
  ∃ q ∈ taken, q.1 ≤ pa ∧ pa < q.1 + q.2 * pageSize

/-- The frames at `p` are whole ones, in the memory that kseg0 shows, and nobody else's. -/
def Fresh (taken : List (Nat × Nat)) (p npages : Nat) : Prop :=
  p % pageSize = 0 ∧ p + npages * pageSize ≤ 2 ^ 29 ∧
    ∀ q ∈ taken, p + npages * pageSize ≤ q.1 ∨ q.1 + q.2 * pageSize ≤ p

variable {taken : List (Nat × Nat)} {s t : Machine} {a b c : Nat} {as bs : Addrspace}
  {r r' : Region} {p n pa : Nat}

theorem Taken.cons (h : Taken taken pa) (q : Nat × Nat) : Taken (q :: taken) pa := by
  obtain ⟨x, hx, hpa⟩ := h
  exact ⟨x, List.mem_cons_of_mem q hx, hpa⟩

theorem Fresh.not_taken (h : Fresh taken p n) (hp : p ≤ pa) (hpa : pa < p + n * pageSize) :
    ¬ Taken taken pa := by
  rintro ⟨q, hq, hle, hlt⟩
  have := h.2.2 q hq
  omega

/-- `getppages` gives frames that nobody has, or none. -/
def FreshFrames (ramStealmem : List (Nat × Nat) → Nat → Nat) : Prop :=
  ∀ taken n, ramStealmem taken n = 0 ∨ Fresh taken (ramStealmem taken n) n

/-! ## The invariant -/

structure Inv (s : Machine) : Prop where
  sized : ∀ a as, s.spaces a = some as → as.Sized
  granted : ∀ a as r pa, s.spaces a = some as → as.Owns r pa → Taken s.taken pa
  apart : ∀ a b as bs r r' pa, s.spaces a = some as → s.spaces b = some bs → as.Owns r pa →
    bs.Owns r' pa → a = b ∧ r = r'
  named : ∀ a as, s.spaces a = some as → a < s.next
  cur : ∀ c a, (s.cpus c).cur = some a → (s.spaces a).isSome
  tlb : ∀ c a i, (s.cpus c).cur = some a → ((s.cpus c).tlb i).valid = true →
    ∃ as, s.spaces a = some as ∧ as.Ready ∧
      as.translate ((s.cpus c).tlb i).vpage = some ((s.cpus c).tlb i).ppage ∧
      pageFrame ((s.cpus c).tlb i).vpage = ((s.cpus c).tlb i).vpage

theorem update_eq_some {f : Nat → Option Addrspace}
    (h : Function.update f a (some as) b = some bs) : (b = a ∧ bs = as) ∨ (b ≠ a ∧ f b = some bs) := by
  by_cases hb : b = a
  · subst hb
    rw [Function.update_self] at h
    exact .inl ⟨rfl, (Option.some.inj h).symm⟩
  · rw [Function.update_of_ne hb] at h
    exact .inr ⟨hb, h⟩

/-- An address space without frames is made or changed. -/
theorem Inv.setCold (hi : Inv s) (hold : ∀ as, s.spaces a = some as → as.Cold) (hcold : as.Cold)
    (hsized : as.Sized) {next : Nat} (hle : s.next ≤ next) (ha : a < next) :
    Inv { s with spaces := Function.update s.spaces a (some as), next := next } := by
  refine ⟨?_, ?_, ?_, ?_, ?_, ?_⟩ <;> dsimp only
  · intro b bs hb
    rcases update_eq_some hb with ⟨-, rfl⟩ | ⟨-, hb⟩
    · exact hsized
    · exact hi.sized b bs hb
  · intro b bs r pa hb ho
    rcases update_eq_some hb with ⟨-, rfl⟩ | ⟨-, hb⟩
    · exact absurd ho hcold.not_owns
    · exact hi.granted b bs r pa hb ho
  · intro b b' bs bs' r r' pa hb hb' ho ho'
    rcases update_eq_some hb with ⟨-, rfl⟩ | ⟨-, hb⟩
    · exact absurd ho hcold.not_owns
    rcases update_eq_some hb' with ⟨-, rfl⟩ | ⟨-, hb'⟩
    · exact absurd ho' hcold.not_owns
    exact hi.apart b b' bs bs' r r' pa hb hb' ho ho'
  · intro b bs hb
    rcases update_eq_some hb with ⟨rfl, -⟩ | ⟨-, hb⟩
    · exact ha
    · exact Nat.lt_of_lt_of_le (hi.named b bs hb) hle
  · intro c b hc
    by_cases hb : b = a
    · rw [hb, Function.update_self]
      rfl
    · rw [Function.update_of_ne hb]
      exact hi.cur c b hc
  · intro c b i hc hv
    obtain ⟨bs, hb, hready, htr⟩ := hi.tlb c b i hc hv
    have hne : b ≠ a := fun heq => (hold bs (heq ▸ hb)).not_ready hready
    exact ⟨bs, by rwa [Function.update_of_ne hne], hready, htr⟩

/-- The invariant does not speak about what is in the memory. -/
theorem Inv.setMem (hi : Inv s) (mem : Nat → UInt8) : Inv { s with mem := mem } :=
  ⟨hi.sized, hi.granted, hi.apart, hi.named, hi.cur, hi.tlb⟩

/-- Somebody else gets frames. -/
theorem Inv.take (hi : Inv s) (q : Nat × Nat) : Inv { s with taken := q :: s.taken } :=
  ⟨hi.sized, fun a as r pa ha ho => (hi.granted a as r pa ha ho).cons q, hi.apart, hi.named, hi.cur,
    hi.tlb⟩

theorem Inv.drop (hi : Inv s) (hcur : ∀ c, (s.cpus c).cur ≠ some a) :
    Inv { s with spaces := Function.update s.spaces a none } := by
  have look : ∀ {b bs}, Function.update s.spaces a none b = some bs → s.spaces b = some bs := by
    intro b bs h
    by_cases hb : b = a
    · rw [hb, Function.update_self] at h
      cases h
    · rwa [Function.update_of_ne hb] at h
  refine ⟨fun b bs hb => hi.sized b bs (look hb), fun b bs r pa hb => hi.granted b bs r pa (look hb),
    fun b b' bs bs' r r' pa hb hb' => hi.apart b b' bs bs' r r' pa (look hb) (look hb'),
    fun b bs hb => hi.named b bs (look hb), fun c b hc => ?_, fun c b i hc hv => ?_⟩
  · have hne : b ≠ a := fun heq => hcur c (heq ▸ hc)
    dsimp only
    rw [Function.update_of_ne hne]
    exact hi.cur c b hc
  · have hne : b ≠ a := fun heq => hcur c (heq ▸ hc)
    dsimp only
    rw [Function.update_of_ne hne]
    exact hi.tlb c b i hc hv

/-- A region without frames gets fresh ones. -/
theorem Inv.grant (hi : Inv s) (ha : s.spaces a = some as) (hr : as.pbase r = 0)
    (hfresh : Fresh s.taken p (as.npages r)) :
    Inv { s with
          taken := (p, as.npages r) :: s.taken
          spaces := Function.update s.spaces a (some (as.setPbase p r)) } := by
  have hnew : ∀ {pa}, (as.setPbase p r).Owns r pa → p ≤ pa ∧ pa < p + as.npages r * pageSize := by
    rintro pa ⟨-, hle, hlt⟩
    simp only [Addrspace.pbase_setPbase, if_pos, Addrspace.npages_setPbase] at hle hlt
    exact ⟨hle, hlt⟩
  have hold : ∀ {r' pa}, r' ≠ r → (as.setPbase p r).Owns r' pa → as.Owns r' pa := by
    intro r' pa hne ho
    simpa only [Addrspace.Owns, Addrspace.pbase_setPbase, if_neg hne, Addrspace.npages_setPbase]
      using ho
  -- what was owned before was taken
  have hcross : ∀ {b bs r' pa}, s.spaces b = some bs → bs.Owns r' pa →
      ¬ (as.setPbase p r).Owns r pa := fun hb ho ho' =>
    hfresh.not_taken (hnew ho').1 (hnew ho').2 (hi.granted _ _ _ _ hb ho)
  refine ⟨?_, ?_, ?_, ?_, ?_, ?_⟩ <;> dsimp only
  · intro b bs hb
    rcases update_eq_some hb with ⟨-, rfl⟩ | ⟨-, hb⟩
    · obtain ⟨h1, h2, h3, h4⟩ := hi.sized a as ha
      refine ⟨fun r' => by simpa using h1 r', fun r' => by simpa using h2 r', fun r' => ?_,
        fun r' => ?_⟩ <;> rw [Addrspace.pbase_setPbase] <;> split_ifs with heq
      · exact hfresh.1
      · exact h3 r'
      · rw [Addrspace.npages_setPbase, heq]
        exact fun _ => hfresh.2.1
      · rw [Addrspace.npages_setPbase]
        exact h4 r'
    · exact hi.sized b bs hb
  · intro b bs r' pa hb ho
    rcases update_eq_some hb with ⟨-, rfl⟩ | ⟨-, hb⟩
    · by_cases heq : r' = r
      · subst heq
        exact ⟨_, List.mem_cons_self, hnew ho⟩
      · exact (hi.granted a as r' pa ha (hold heq ho)).cons _
    · exact (hi.granted b bs r' pa hb ho).cons _
  · intro b b' bs bs' r₁ r₂ pa hb hb' ho ho'
    rcases update_eq_some hb with ⟨rfl, rfl⟩ | ⟨-, hsb⟩ <;>
      rcases update_eq_some hb' with ⟨rfl, rfl⟩ | ⟨-, hsb'⟩
    · refine ⟨rfl, ?_⟩
      by_cases h₁ : r₁ = r <;> by_cases h₂ : r₂ = r
      · rw [h₁, h₂]
      · exact absurd (h₁ ▸ ho) (hcross ha (hold h₂ ho'))
      · exact absurd (h₂ ▸ ho') (hcross ha (hold h₁ ho))
      · exact (hi.apart _ _ as as r₁ r₂ pa ha ha (hold h₁ ho) (hold h₂ ho')).2
    · by_cases h₁ : r₁ = r
      · exact absurd (h₁ ▸ ho) (hcross hsb' ho')
      · exact hi.apart _ _ as bs' r₁ r₂ pa ha hsb' (hold h₁ ho) ho'
    · by_cases h₂ : r₂ = r
      · exact absurd (h₂ ▸ ho') (hcross hsb ho)
      · exact hi.apart _ _ bs as r₁ r₂ pa hsb ha ho (hold h₂ ho')
    · exact hi.apart _ _ bs bs' r₁ r₂ pa hsb hsb' ho ho'
  · intro b bs hb
    rcases update_eq_some hb with ⟨rfl, -⟩ | ⟨-, hb⟩
    · exact hi.named b as ha
    · exact hi.named b bs hb
  · intro c b hc
    by_cases hb : b = a
    · rw [hb, Function.update_self]
      rfl
    · rw [Function.update_of_ne hb]
      exact hi.cur c b hc
  · intro c b i hc hv
    obtain ⟨bs, hb, hready, htr⟩ := hi.tlb c b i hc hv
    have hne : b ≠ a := by
      rintro rfl
      obtain rfl : as = bs := Option.some.inj (ha.symm.trans hb)
      exact hready.built r hr
    exact ⟨bs, by rwa [Function.update_of_ne hne], hready, htr⟩

/-! ## as_prepare_load -/

/-- The address space `a`, which was `as`, is being prepared: it is `as'` now. -/
structure Prepares (s : Machine) (a : Nat) (as : Addrspace) (t : Machine) (as' : Addrspace) :
    Prop where
  inv : Inv t
  spaces : t.spaces = Function.update s.spaces a (some as')
  next : t.next = s.next
  cpus : t.cpus = s.cpus
  bounds : as'.SameBounds as
  taken : ∀ pa, Taken s.taken pa → Taken t.taken pa
  fresh : ∀ r pa, as'.Owns r pa → ¬ Taken s.taken pa
  mem : ∀ pa, Taken s.taken pa → t.mem pa = s.mem pa

section Prepare

variable {as' : Addrspace} {ramStealmem : List (Nat × Nat) → Nat → Nat} {ok : Panic → Prop}

theorem Prepares.refl (hi : Inv s) (ha : s.spaces a = some as) (hcold : as.Cold) :
    Prepares s a as s as where
  inv := hi
  spaces := (Function.update_eq_self_iff.2 ha.symm).symm
  next := rfl
  cpus := rfl
  bounds := .refl as
  taken _ h := h
  fresh _ _ ho := absurd ho hcold.not_owns
  mem _ _ := rfl

theorem Prepares.here (h : Prepares s a as t as') : t.spaces a = some as' := by
  rw [h.spaces, Function.update_self]

/-- One region gets its frames. -/
theorem Prepares.grant (h : Prepares s a as t as') (hr : as'.pbase r = 0)
    (hfresh : Fresh t.taken p (as'.npages r)) :
    Prepares s a as
      { t with
        taken := (p, as'.npages r) :: t.taken
        spaces := Function.update t.spaces a (some (as'.setPbase p r)) }
      (as'.setPbase p r) where
  inv := h.inv.grant h.here hr hfresh
  spaces := by rw [h.spaces, Function.update_idem]
  next := h.next
  cpus := h.cpus
  bounds := h.bounds.setPbase p r
  taken pa hpa := (h.taken pa hpa).cons _
  fresh r' pa ho hpa := by
    by_cases heq : r' = r
    · obtain ⟨-, hle, hlt⟩ := ho
      rw [heq, Addrspace.pbase_setPbase, if_pos rfl] at hle hlt
      rw [Addrspace.npages_setPbase] at hlt
      exact hfresh.not_taken hle hlt (h.taken pa hpa)
    · refine h.fresh r' pa ?_ hpa
      simpa only [Addrspace.Owns, Addrspace.pbase_setPbase, if_neg heq, Addrspace.npages_setPbase]
        using ho
  mem := h.mem

/-- The memory changes inside the new frames. -/
theorem Prepares.setMem (h : Prepares s a as t as') {mem : Nat → UInt8}
    (hmem : ∀ pa, (∀ r, ¬ as'.Owns r pa) → mem pa = t.mem pa) :
    Prepares s a as { t with mem := mem } as' where
  inv := h.inv.setMem mem
  spaces := h.spaces
  next := h.next
  cpus := h.cpus
  bounds := h.bounds
  taken := h.taken
  fresh := h.fresh
  mem pa hpa := (hmem pa fun r ho => h.fresh r pa ho hpa).trans (h.mem pa hpa)

/-- The next call gives frames that nobody has, or none. -/
def FreshAt (ramStealmem : List (Nat × Nat) → Nat → Nat) (taken : List (Nat × Nat)) (n : Nat) :
    Prop :=
  ramStealmem taken n = 0 ∨ Fresh taken (ramStealmem taken n) n

theorem wp_getppages {n : Nat} (hrs : FreshAt ramStealmem s.taken n) :
    wp ok (getppages ramStealmem n) (fun x t => (x = .ok 0 ∧ t = s) ∨
      ∃ p, p ≠ 0 ∧ x = .ok p ∧ p = ramStealmem s.taken n ∧ Fresh s.taken p n ∧
        t = { s with taken := (p, n) :: s.taken }) s := by
  simp only [getppages, wp_bind, wp_get, then_ok, wp_ite, wp_pure, wp_modify, true_and]
  refine ⟨fun _ => .inl trivial, fun hne => .inr ⟨_, hne, rfl, rfl, ?_, rfl⟩⟩
  exact hrs.resolve_left hne

@[simp] theorem wp_writeSpace {Q : Except Errno Unit → Machine → Prop} :
    wp ok (writeSpace a as) Q s ↔
      Q (.ok ()) { s with spaces := Function.update s.spaces a (some as) } := by
  rw [writeSpace, wp_modify]

theorem wp_readSpace (ha : s.spaces a = some as) {Q : Except Errno Addrspace → Machine → Prop} :
    wp ok (readSpace a) Q s ↔ Q (.ok as) s := by
  simp only [readSpace, wp_bind, wp_get, then_ok, ha, wp_pure]

/-- A call of `getppages` in `as_prepare_load` and what follows it. -/
theorem wp_grant (hrs : FreshAt ramStealmem t.taken (as'.npages r)) (h : Prepares s a as t as')
    (hr : as'.pbase r = 0) {f : Nat → VmCall Unit} {Q : Except Errno Unit → Machine → Prop}
    (herr : ∀ u, Prepares s a as u as' → Q (.error .ENOMEM) u)
    (hok : ∀ p u, p ≠ 0 → p = ramStealmem t.taken (as'.npages r) →
      u.taken = (p, as'.npages r) :: t.taken → Prepares s a as u (as'.setPbase p r) →
      wp ok (f p) Q u) :
    wp ok (do
        let p ← getppages ramStealmem (as'.npages r)
        writeSpace a (as'.setPbase p r)
        if p = 0 then throw .ENOMEM else f p) Q t := by
  rw [wp_bind]
  refine wp_mono (wp_getppages hrs) ?_
  rintro x u (⟨rfl, rfl⟩ | ⟨p, hp, rfl, hsteal, hfresh, rfl⟩)
  · have hsame : as'.setPbase 0 r = as' := by
      cases r <;> (unfold Addrspace.setPbase; rw [← hr]; rfl)
    have hupd : Function.update u.spaces a (some as') = u.spaces :=
      Function.update_eq_self_iff.2 h.here.symm
    simp only [then_ok, wp_bind, wp_writeSpace, if_pos, wp_throw, hsame, hupd]
    exact herr u h
  · simp only [then_ok, wp_bind, wp_writeSpace, if_neg hp]
    exact hok p _ hp hsteal rfl (h.grant hr hfresh)

theorem Addrspace.Sized.bytes (h : as.Sized) (r : Region) :
    as.npages r * pageSize % 2 ^ 32 = as.npages r * pageSize := by
  have := h.npages r
  unfold pageSize
  omega

/-- Zeroing one region. -/
theorem Prepares.zero (h : Prepares s a as t as') (hbuilt : as'.Built) (r : Region) :
    Prepares s a as
      { t with mem := zeroed t.mem (as'.pbase r) (as'.npages r * pageSize % 2 ^ 32) } as' := by
  refine h.setMem fun pa hpa => ?_
  rw [(h.inv.sized a as' h.here).bytes]
  exact if_neg fun hin => hpa r ⟨hbuilt r, hin.1, hin.2⟩

theorem wp_zeroRegions (h : Prepares s a as t as') (hbuilt : as'.Built) :
    wp ok (zeroRegions as') (fun x u => x = .ok () ∧ Prepares s a as u as') t := by
  simp only [zeroRegions, asZeroRegion, wp_bind, wp_modify, then_ok, true_and]
  exact ((h.zero hbuilt .one).zero hbuilt .two).zero hbuilt .stack

/-- The requests of `as_prepare_load`, one after the other, are answered with fresh frames. -/
structure FreshRequests (ramStealmem : List (Nat × Nat) → Nat → Nat) (taken : List (Nat × Nat))
    (as : Addrspace) : Prop where
  one : FreshAt ramStealmem taken as.npages1
  two : ∀ p, p ≠ 0 → p = ramStealmem taken as.npages1 →
    FreshAt ramStealmem ((p, as.npages1) :: taken) as.npages2
  stack : ∀ p q, p ≠ 0 → p = ramStealmem taken as.npages1 → q ≠ 0 →
    q = ramStealmem ((p, as.npages1) :: taken) as.npages2 →
    FreshAt ramStealmem ((q, as.npages2) :: (p, as.npages1) :: taken) stackpages

theorem FreshFrames.requests (hrs : FreshFrames ramStealmem) (taken : List (Nat × Nat))
    (as : Addrspace) : FreshRequests ramStealmem taken as :=
  ⟨hrs _ _, fun _ _ _ => hrs _ _, fun _ _ _ _ _ _ => hrs _ _⟩

theorem wp_asPrepareLoad (hrs : FreshRequests ramStealmem s.taken as) (hi : Inv s)
    (ha : s.spaces a = some as) (hcold : as.Cold) :
    wp ok (asPrepareLoad ramStealmem a) (fun x t => ∃ as', Prepares s a as t as' ∧
      (x = .ok () → as'.Built)) s := by
  have herr : ∀ {u bs}, Prepares s a as u bs → ∃ as', Prepares s a as u as' ∧
      ((.error .ENOMEM : Except Errno Unit) = .ok () → as'.Built) := fun h => ⟨_, h, by simp⟩
  simp only [asPrepareLoad, wp_bind, wp_readSpace ha, then_ok]
  rw [if_neg (by simp [show as.pbase1 = 0 from hcold .one, show as.pbase2 = 0 from hcold .two,
    show as.stackpbase = 0 from hcold .stack])]
  refine wp_grant (r := .one) (by exact hrs.one) (.refl hi ha hcold) (hcold .one) (fun u hu => herr hu) ?_
  intro p1 u1 hp1 heq1 htaken1 h1
  have htwo : FreshAt ramStealmem u1.taken as.npages2 := by
    rw [htaken1]
    exact hrs.two p1 hp1 heq1
  refine wp_grant (r := .two) (by exact htwo) h1 (hcold .two) (fun u hu => herr hu) ?_
  intro p2 u2 hp2 heq2 htaken2 h2
  have hstack : FreshAt ramStealmem u2.taken stackpages := by
    rw [htaken1] at heq2 htaken2
    rw [htaken2]
    exact hrs.stack p1 p2 hp1 heq1 hp2 heq2
  refine wp_grant (r := .stack) (by exact hstack) h2 (hcold .stack) (fun u hu => herr hu) ?_
  intro p3 u3 hp3 _ _ h3
  have hbuilt : (((as.setPbase p1 .one).setPbase p2 .two).setPbase p3 .stack).Built := by
    intro r
    cases r with
    | one => exact hp1
    | two => exact hp2
    | stack => exact hp3
  exact wp_mono (wp_zeroRegions h3 hbuilt) fun _ u hu => ⟨_, hu.2, fun _ => hbuilt⟩

end Prepare

end Os161.Vm.Dumbvm

import Os161.Lib.Runs
import Os161.Vm.Views

set_option autoImplicit false

/-!
# Processes do not share memory

The kernel makes address spaces, copies them for `fork` and handles faults; the processes store
through the translations in the TLB. `Effect` says what each operation does to the views: a store
changes one byte of the process that runs on the CPU, and a copy has the view of the original.
-/

namespace Os161.Vm.Dumbvm

open Os161.Lib.Calls
open Os161.Lib.Runs

/-- The valid entry of the TLB for `va` leads to `pa`. -/
def Hits (s : Machine) (c va pa : Nat) : Prop :=
  ∃ i, ((s.cpus c).tlb i).valid = true ∧ ((s.cpus c).tlb i).vpage = pageFrame va ∧
    pa = ((s.cpus c).tlb i).ppage + va % pageSize

/-- What happens on the machine. -/
inductive Op where
  | create (kmalloc : Bool)
  | defineRegion (a : Nat) (vaddr sz : UInt32)
  | prepareLoad (a : Nat)
  | defineStack (a : Nat)
  | copy (a : Nat) (kmalloc : Bool)
  | destroy (a : Nat)
  | activate (c : Nat) (x : Option Nat)
  | fault (c : Nat) (faulttype : FaultType) (faultaddress : UInt32)
  /-- A byte is stored on the CPU `c`. -/
  | store (c va : Nat) (b : UInt8)
  | allocKpages (npages : Nat)

section Steps

variable (ramStealmem : List (Nat × Nat) → Nat → Nat)

/-- A call has been made, with some result. -/
def Ran {α : Type} (m : VmCall α) (s t : Machine) : Prop := ∃ x, m.result s = .ok (x, t)

/-- One operation; what panics has no successor. -/
def step (s : Machine) : Op → Machine → Prop
  | .create kmalloc, t => Ran (asCreate kmalloc) s t
  | .defineRegion a vaddr sz, t => Ran (asDefineRegion a vaddr sz) s t
  | .prepareLoad a, t => Ran (asPrepareLoad ramStealmem a) s t
  | .defineStack a, t => Ran (asDefineStack a) s t
  | .copy a kmalloc, t => Ran (asCopy ramStealmem a kmalloc) s t
  | .destroy a, t => Ran (asDestroy a) s t
  | .activate c x, t => Ran (switchTo c x) s t
  | .fault c faulttype faultaddress, t => Ran (vmFault c faulttype faultaddress) s t
  | .store c va b, t => ∃ a pa, (s.cpus c).cur = some a ∧ Hits s c va pa ∧
      t = { s with mem := Function.update s.mem pa b }
  | .allocKpages npages, t => Ran (allocKpages ramStealmem npages) s t

end Steps

/-- The order in which the kernel calls the functions: regions are defined before
`as_prepare_load`, only a process that has been built forks, no CPU works in an address space that
is destroyed, and a CPU turns only to address spaces that exist. -/
def Allowed (s : Machine) : Op → Prop
  | .defineRegion a _ _ => ∃ as, s.spaces a = some as ∧ as.Cold
  | .prepareLoad a => ∃ as, s.spaces a = some as ∧ as.Cold
  | .copy a _ => ∃ as, s.spaces a = some as ∧ as.Built
  | .destroy a => ∀ c, (s.cpus c).cur ≠ some a
  | .activate _ x => ∀ a, x = some a → (s.spaces a).isSome
  | _ => True

/-- What an operation does to the views of the processes, when `cur` says which process runs on
which CPU. -/
def Effect (cur : Nat → Option Nat) : Op → (Nat → Nat → Option UInt8) →
    (Nat → Nat → Option UInt8) → Prop
  | .store c va b, v, w =>
      ∃ a, cur c = some a ∧ w = Function.update v a (Function.update (v a) va (some b))
  | .copy a _, v, w =>
      w = v ∨ ∃ n, n ≠ a ∧ (v n = fun _ => none) ∧ w = Function.update v n (v a)
  | .prepareLoad a, v, w => ∀ b, b ≠ a → w b = v b
  | .destroy a, v, w => ∀ b, b ≠ a → w b = v b
  | _, v, w => w = v

/-- Before the first process: the kernel has taken some frames, and the TLBs hold anything. -/
def Boot (s : Machine) : Prop := (∀ a, s.spaces a = none) ∧ ∀ c, (s.cpus c).cur = none

variable {s t : Machine} {a b c n : Nat} {as bs as' : Addrspace} {r : Region} {va pa : Nat}
  {ramStealmem : List (Nat × Nat) → Nat → Nat} {ok : Panic → Prop}

theorem Boot.inv (h : Boot s) : Inv s := by
  obtain ⟨hs, hc⟩ := h
  refine ⟨?_, ?_, ?_, ?_, ?_, ?_⟩
  · intro a as ha
    simp [hs] at ha
  · intro a as r pa ha
    simp [hs] at ha
  · intro a b as bs r r' pa ha
    simp [hs] at ha
  · intro a as ha
    simp [hs] at ha
  · intro c a ha
    simp [hc] at ha
  · intro c a i ha
    simp [hc] at ha

/-! ## Building -/

theorem blank_cold : blank.Cold := by
  intro r
  cases r <;> rfl

/-- Without frames only the bounds matter. -/
theorem Addrspace.Cold.sized (h : as.Cold) (hn : ∀ r, as.npages r < 2 ^ 20)
    (hv : ∀ r, as.vbase r % pageSize = 0) : as.Sized :=
  ⟨hn, hv, fun r => by rw [h r]; rfl, fun r hr => absurd (h r) hr⟩

theorem blank_sized : blank.Sized := by
  refine blank_cold.sized (fun r => ?_) fun r => ?_ <;> cases r <;> decide

theorem regionPages_lt (vaddr sz : UInt32) : regionPages vaddr sz < 2 ^ 20 := by
  unfold regionPages pageFrame pageSize
  omega

theorem pageFrame_mod (addr : Nat) : pageFrame addr % pageSize = 0 := Nat.mul_mod_left _ _

theorem inv_asDefineRegion (hi : Inv s) (ha : s.spaces a = some as) (hcold : as.Cold)
    (vaddr sz : UInt32) :
    wp ok (asDefineRegion a vaddr sz) (fun _ t => Inv t ∧ view t = view s) s := by
  have hs := hi.sized a as ha
  have hn := regionPages_lt vaddr sz
  have hv := pageFrame_mod vaddr.toNat
  have hold : ∀ cs, s.spaces a = some cs → cs.Cold := fun cs hc => by
    rwa [← Option.some.inj (ha.symm.trans hc)]
  have hset : ∀ {bs : Addrspace}, bs.Cold → (∀ r, bs.npages r < 2 ^ 20) →
      (∀ r, bs.vbase r % pageSize = 0) →
      Inv { s with spaces := Function.update s.spaces a (some bs) } ∧
        view { s with spaces := Function.update s.spaces a (some bs) } = view s :=
    fun hbs hn hv => ⟨hi.setCold hold hbs (hbs.sized hn hv) le_rfl (hi.named a as ha),
      view_setCold hi hold hbs⟩
  simp only [asDefineRegion, wp_bind, wp_readSpace ha, then_ok, wp_ite, wp_writeSpace, wp_throw]
  refine ⟨fun _ => hset ?_ ?_ ?_, fun _ => ⟨fun _ => hset ?_ ?_ ?_, fun _ => ⟨hi, trivial⟩⟩⟩
  · intro r
    rw [← hcold r]
    cases r <;> rfl
  · exact fun r => by
      cases r with
      | one => exact hn
      | two => exact hs.npages .two
      | stack => exact hs.npages .stack
  · exact fun r => by
      cases r with
      | one => exact hv
      | two => exact hs.vbase .two
      | stack => exact hs.vbase .stack
  · intro r
    rw [← hcold r]
    cases r <;> rfl
  · exact fun r => by
      cases r with
      | one => exact hs.npages .one
      | two => exact hn
      | stack => exact hs.npages .stack
  · exact fun r => by
      cases r with
      | one => exact hs.vbase .one
      | two => exact hv
      | stack => exact hs.vbase .stack

theorem inv_asCreate (hi : Inv s) (kmalloc : Bool) :
    wp ok (asCreate kmalloc) (fun _ t => Inv t ∧ view t = view s) s := by
  have hnone : ∀ as, s.spaces s.next = some as → as.Cold := fun as ha =>
    absurd (hi.named s.next as ha) (Nat.lt_irrefl _)
  cases kmalloc with
  | false => exact (wp_pure _).2 ⟨hi, rfl⟩
  | true =>
      simp only [asCreate, if_true, wp_bind, wp_get, then_ok, wp_modify, wp_pure]
      exact ⟨hi.setCold hnone blank_cold blank_sized (Nat.le_succ _) (Nat.lt_succ_self _),
        view_setCold hi hnone blank_cold⟩

theorem inv_asDefineStack (hi : Inv s) :
    wp (fun _ => True) (asDefineStack a) (fun _ t => Inv t ∧ view t = view s) s := by
  cases ha : s.spaces a with
  | none => simp only [asDefineStack, readSpace, wp_bind, wp_get, then_ok, ha, wp_halt]
  | some as =>
      simp only [asDefineStack, wp_bind, wp_readSpace ha, then_ok, wp_ite, wp_halt, wp_pure,
        implies_true, true_and]
      exact fun _ => ⟨hi, trivial⟩

theorem inv_asPrepareLoad (hrs : FreshFrames ramStealmem) (hi : Inv s) (ha : s.spaces a = some as)
    (hcold : as.Cold) : wp ok (asPrepareLoad ramStealmem a)
      (fun _ t => Inv t ∧ ∀ b, b ≠ a → view t b = view s b) s := by
  refine wp_mono (wp_asPrepareLoad (hrs.requests _ _) hi ha hcold) ?_
  rintro x t ⟨as', h, -⟩
  refine ⟨h.inv, fun b hb => view_congr hi ?_ fun bs r pa hbs ho => ?_⟩
  · rw [h.spaces, Function.update_of_ne hb]
  · exact h.mem pa (hi.granted b bs r pa hbs ho)

/-! ## Copying -/

/-- The regions `rs` of the new address space hold what those of the old one held in `s`. -/
def Copied (s : Machine) (as : Addrspace) (t : Machine) (as' : Addrspace) (rs : List Region) :
    Prop :=
  ∀ r ∈ rs, ∀ k, k < as.npages r * pageSize → t.mem (as'.pbase r + k) = s.mem (as.pbase r + k)

/-- The original, and the new address space with its frames, before the copy. -/
structure Copies (s : Machine) (a n : Nat) (as fresh : Addrspace) (t : Machine) (as' : Addrspace) :
    Prop where
  inv : Inv s
  source : s.spaces a = some as
  built : as.Built
  prepares : Prepares s n fresh t as'
  bounds : fresh.SameBounds as
  built' : as'.Built

/-- One `memmove` of `as_copy`. -/
theorem Copies.move {fresh : Addrspace} {rs : List Region} (h : Copies s a n as fresh t as')
    (hc : Copied s as t as' rs) (r : Region) :
    let u := { t with mem := moved t.mem (as'.pbase r) (as.pbase r) (as.npages r * pageSize) }
    Copies s a n as fresh u as' ∧ Copied s as u as' (r :: rs) := by
  intro u
  have hp := h.prepares
  have hn : ∀ r, as'.npages r = as.npages r := fun r =>
    (hp.bounds r).2.trans (h.bounds r).2
  have howns : ∀ {r k}, k < as.npages r * pageSize → as'.Owns r (as'.pbase r + k) := by
    intro r k hk
    rw [← hn r] at hk
    exact ⟨h.built' r, Nat.le_add_right _ _, Nat.add_lt_add_left hk _⟩
  constructor
  · refine { h with prepares := hp.setMem fun pa hpa => if_neg fun hin => ?_ }
    exact hpa r ⟨h.built' r, hin.1, by rw [hn]; exact hin.2⟩
  · intro r' hr' k hk
    by_cases heq : r' = r
    · subst heq
      have hsrc : Taken s.taken (as.pbase r' + k) :=
        h.inv.granted a as r' _ h.source
          ⟨h.built r', Nat.le_add_right _ _, Nat.add_lt_add_left hk _⟩
      have hmoved : u.mem (as'.pbase r' + k) = t.mem (as.pbase r' + k) := by
        refine (if_pos ⟨Nat.le_add_right _ _, Nat.add_lt_add_left hk _⟩).trans ?_
        rw [Nat.add_sub_cancel_left]
      exact hmoved.trans (hp.mem _ hsrc)
    · -- the frames of the other regions are not touched
      have hout : u.mem (as'.pbase r' + k) = t.mem (as'.pbase r' + k) := by
        refine if_neg fun hin => heq ?_
        have ho : as'.Owns r (as'.pbase r' + k) := ⟨h.built' r, hin.1, by rw [hn]; exact hin.2⟩
        exact (hp.inv.apart n n as' as' r' r _ hp.here hp.here (howns hk) ho).2
      exact hout.trans (hc r' ((List.mem_cons.1 hr').resolve_left heq) k hk)

theorem wp_copyRegions {fresh : Addrspace} (h : Copies s a n as fresh t as') :
    wp ok (copyRegions as as') (fun x u => x = .ok () ∧ Copies s a n as fresh u as' ∧
      ∀ r k, k < as.npages r * pageSize → u.mem (as'.pbase r + k) = s.mem (as.pbase r + k)) t := by
  have hs := h.inv.sized a as h.source
  have h1 : as.npages1 * pageSize % 2 ^ 32 = _ := hs.bytes .one
  have h2 : as.npages2 * pageSize % 2 ^ 32 = _ := hs.bytes .two
  simp only [copyRegions, memmove, wp_bind, wp_modify, then_ok, true_and, h1, h2]
  obtain ⟨c1, m1⟩ := h.move (fun r hr => absurd hr List.not_mem_nil) .one
  obtain ⟨c2, m2⟩ := c1.move m1 .two
  obtain ⟨c3, m3⟩ := c2.move m2 .stack
  exact ⟨c3, fun r k hk => m3 r (by cases r <;> simp) k hk⟩

/-- The copy: the address space `n` has the bounds and the contents of `a`. -/
structure IsCopy (s : Machine) (as : Addrspace) (t : Machine) (n : Nat) : Prop where
  unused : s.spaces n = none
  space : ∃ as', t.spaces n = some as' ∧ as'.SameBounds as ∧ as'.Built ∧
    ∀ r k, k < as.npages r * pageSize → t.mem (as'.pbase r + k) = s.mem (as.pbase r + k)

/-- The new address space of `as_copy`, before it has frames. -/
def emptyCopy (as : Addrspace) : Addrspace :=
  { blank with
    vbase1 := as.vbase1, npages1 := as.npages1, vbase2 := as.vbase2, npages2 := as.npages2 }

theorem emptyCopy_bounds (as : Addrspace) : (emptyCopy as).SameBounds as := by
  intro r
  cases r <;> exact ⟨rfl, rfl⟩

theorem emptyCopy_cold (as : Addrspace) : (emptyCopy as).Cold := by
  intro r
  cases r <;> rfl

/-- The machine on which `as_copy` calls `as_prepare_load`. -/
def copyStart (s : Machine) (as : Addrspace) : Machine :=
  { s with
    spaces := Function.update s.spaces s.next (some (emptyCopy as))
    next := s.next + 1 }

theorem Inv.unused (hi : Inv s) : s.spaces s.next = none := by
  cases h : s.spaces s.next with
  | none => rfl
  | some bs => exact absurd (hi.named s.next bs h) (Nat.lt_irrefl _)

theorem Inv.copyStart (hi : Inv s) (ha : s.spaces a = some as) : Inv (copyStart s as) := by
  have hs := hi.sized a as ha
  have hb := emptyCopy_bounds as
  refine hi.setCold (fun bs hbs => ?_) (emptyCopy_cold as) ?_ (Nat.le_succ _) (Nat.lt_succ_self _)
  · rw [hi.unused] at hbs
    cases hbs
  · exact (emptyCopy_cold as).sized (fun r => (hb r).2 ▸ hs.npages r) fun r => (hb r).1 ▸ hs.vbase r

theorem asCopy_true (hi : Inv s) (ha : s.spaces a = some as) {Q : Except Errno Nat → Machine → Prop} :
    wp ok (asCopy ramStealmem a true) Q s ↔
      wp ok (finishCopy ramStealmem as s.next) Q (copyStart s as) := by
  have hne : a ≠ s.next := fun heq => by
    rw [heq, hi.unused] at ha
    cases ha
  have hread : Function.update s.spaces s.next (some blank) a = some as := by
    rw [Function.update_of_ne hne]
    exact ha
  have hnew : Function.update s.spaces s.next (some blank) s.next = some blank :=
    Function.update_self _ _ _
  simp only [asCopy, asCreate, if_true, wp_bind, wp_get, then_ok, wp_modify, wp_pure]
  rw [wp_readSpace hread, then_ok, wp_bind, wp_readSpace hnew, then_ok, wp_bind, wp_writeSpace,
    then_ok]
  dsimp only
  rw [Function.update_idem]
  rfl

/-- What the copy leaves alone. -/
theorem Prepares.view_eq {fresh : Addrspace} (h : Prepares (copyStart s as) s.next fresh t as')
    (hi : Inv s) (hb : b ≠ s.next) : view t b = view s b := by
  refine view_congr hi ?_ fun bs r pa hbs ho => ?_
  · rw [h.spaces, Function.update_of_ne hb]
    exact Function.update_of_ne hb _ _
  · exact h.mem pa (hi.granted b bs r pa hbs ho)

theorem wp_finishCopy (hrs : FreshFrames ramStealmem) (hi : Inv s) (ha : s.spaces a = some as)
    (hbuilt : as.Built) :
    wp ok (finishCopy ramStealmem as s.next) (fun x t => Inv t ∧ match x with
      | .error _ => view t = view s
      | .ok n => IsCopy s as t n ∧ ∀ b, b ≠ n → view t b = view s b) (copyStart s as) := by
  have hi' := hi.copyStart ha
  have hhere : (copyStart s as).spaces s.next = some (emptyCopy as) := Function.update_self _ _ _
  simp only [finishCopy, wp_bind, wp_catching]
  refine wp_mono (wp_asPrepareLoad (hrs.requests _ _) hi' hhere (emptyCopy_cold as)) ?_
  rintro x t ⟨as', hp, hok⟩
  cases x with
  | error e =>
      simp only [then_ok, asDestroy, wp_bind, wp_modify, wp_throw]
      refine ⟨hp.inv.drop fun c hc => ?_, ?_⟩
      · rw [hp.cpus] at hc
        have := hi.cur c s.next hc
        rw [hi.unused] at this
        cases this
      · funext b
        by_cases hb : b = s.next
        · rw [hb, view_of_none (Function.update_self _ _ _), view_of_none hi.unused]
        · have hdrop : view { t with spaces := Function.update t.spaces s.next none } b = view t b :=
            view_congr hp.inv (Function.update_of_ne hb _ _) fun _ _ _ _ _ => rfl
          exact hdrop.trans (hp.view_eq hi hb)
  | ok u =>
      have hbuilt' := hok rfl
      have hne : a ≠ s.next := fun heq => by
        rw [heq, hi.unused] at ha
        cases ha
      have hsource : (copyStart s as).spaces a = some as := by
        rw [← ha]
        exact Function.update_of_ne hne _ _
      have hcopies : Copies (copyStart s as) a s.next as (emptyCopy as) t as' :=
        { inv := hi', source := hsource, built := hbuilt, prepares := hp
          bounds := emptyCopy_bounds as, built' := hbuilt' }
      simp only [then_ok, wp_bind, wp_readSpace hp.here]
      rw [if_neg (by
        rintro (h | h | h)
        · exact hbuilt' .one h
        · exact hbuilt' .two h
        · exact hbuilt' .stack h), wp_bind]
      refine wp_mono (wp_copyRegions hcopies) ?_
      rintro _ v ⟨rfl, hv, hsame⟩
      rw [then_ok, wp_pure]
      refine ⟨hv.prepares.inv, ⟨hi.unused, as', hv.prepares.here, fun r => ?_, hbuilt', hsame⟩,
        fun b hb => hv.prepares.view_eq hi hb⟩
      exact ⟨(hv.prepares.bounds r).1.trans (hv.bounds r).1,
        (hv.prepares.bounds r).2.trans (hv.bounds r).2⟩

theorem wp_asCopy (hrs : FreshFrames ramStealmem) (hi : Inv s) (ha : s.spaces a = some as)
    (hbuilt : as.Built) (kmalloc : Bool) :
    wp ok (asCopy ramStealmem a kmalloc) (fun x t => Inv t ∧ match x with
      | .error _ => view t = view s
      | .ok n => IsCopy s as t n ∧ ∀ b, b ≠ n → view t b = view s b) s := by
  cases kmalloc with
  | false =>
      simp only [asCopy, asCreate, wp_bind, Bool.false_eq_true, if_false, wp_pure, then_ok, wp_throw]
      exact ⟨hi, trivial⟩
  | true => exact (asCopy_true hi ha).2 (wp_finishCopy hrs hi ha hbuilt)

/-- The copy shows what the original shows. -/
theorem IsCopy.view_eq (h : IsCopy s as t n) (hi : Inv s) (ht : Inv t) (ha : s.spaces a = some as)
    (hbuilt : as.Built) : view t n = view s a := by
  obtain ⟨as', hn, hbounds, hbuilt', hmem⟩ := h.space
  have hs := hi.sized a as ha
  have hs' := ht.sized n as' hn
  have hready := Addrspace.ready_congr hbounds hs' hbuilt' hs hbuilt
  funext va
  rw [view_of_space hn, view_of_space ha]
  by_cases hr : as.Ready
  · have hr' := hready.2 hr
    rw [Addrspace.place_of_ready hs' hr', Addrspace.place_of_ready hs hr,
      Addrspace.locate_congr hbounds]
    cases hloc : as.locate (pageFrame va) with
    | none => rfl
    | some x =>
        obtain ⟨r, k⟩ := x
        have hk := Addrspace.offset_lt hs hloc
        simp only [Option.map_some, hmem r _ hk]
  · rw [Addrspace.place_of_not_ready hr, Addrspace.place_of_not_ready (mt hready.1 hr)]
    rfl

/-! ## The TLBs -/

/-- The entries of `c` are translations of its address space. -/
def Translates (spaces : Nat → Option Addrspace) (cpu : Cpu) : Prop :=
  ∀ a, cpu.cur = some a → (spaces a).isSome ∧ ∀ i, (cpu.tlb i).valid = true →
    ∃ as, spaces a = some as ∧ as.Ready ∧
      as.translate (cpu.tlb i).vpage = some (cpu.tlb i).ppage ∧
      pageFrame (cpu.tlb i).vpage = (cpu.tlb i).vpage

/-- One CPU changes. -/
theorem Inv.setCpu (hi : Inv s) {cpu : Cpu} (h : Translates s.spaces cpu) :
    Inv { s with cpus := Function.update s.cpus c cpu } := by
  refine ⟨hi.sized, hi.granted, hi.apart, hi.named, fun c' a hc => ?_, fun c' a i hc hv => ?_⟩ <;>
    dsimp only at * <;> by_cases heq : c' = c
  · rw [heq, Function.update_self] at hc
    exact (h a hc).1
  · rw [Function.update_of_ne heq] at hc
    exact hi.cur c' a hc
  · rw [heq, Function.update_self] at hc hv ⊢
    exact (h a hc).2 i hv
  · rw [Function.update_of_ne heq] at hc hv ⊢
    exact hi.tlb c' a i hc hv

theorem inv_switchTo (hi : Inv s) {x : Option Nat} (hx : ∀ a, x = some a → (s.spaces a).isSome) :
    wp ok (switchTo c x) (fun _ t => Inv t ∧ view t = view s) s := by
  simp only [switchTo, asActivate, wp_bind, wp_modify, then_ok, Function.update_self]
  cases x with
  | none => exact ⟨hi.setCpu (fun a ha => by cases ha), rfl⟩
  | some a =>
      dsimp only
      rw [Function.update_idem]
      refine ⟨hi.setCpu fun b hb => ⟨?_, fun i hv => by cases hv⟩, rfl⟩
      exact hx b hb

/-- `vm_fault` puts a translation of the address space of the CPU into the TLB. -/
theorem inv_tlbInsert (hi : Inv s) {vpage ppage : Nat} (hc : (s.cpus c).cur = some a)
    (ha : s.spaces a = some as) (hready : as.Ready) (htr : as.translate vpage = some ppage)
    (hpage : pageFrame vpage = vpage) :
    wp ok (tlbInsert c vpage ppage) (fun _ t => Inv t ∧ view t = view s) s := by
  simp only [tlbInsert, wp_bind, wp_get, then_ok]
  cases (List.finRange numTlb).find? fun i => !((s.cpus c).tlb i).valid with
  | none => exact (wp_throw _).2 ⟨hi, rfl⟩
  | some i =>
      refine (wp_modify _).2 ⟨hi.setCpu fun b hb => ?_, rfl⟩
      obtain rfl : a = b := Option.some.inj (hc.symm.trans hb)
      refine ⟨hi.cur c a hc, fun j hv => ?_⟩
      dsimp only at hv ⊢
      by_cases hj : j = i
      · rw [hj, Function.update_self]
        exact ⟨as, ha, hready, htr, hpage⟩
      · rw [Function.update_of_ne hj] at hv ⊢
        exact hi.tlb c a j hc hv

theorem inv_handleFault (hi : Inv s) (faultaddress : Nat) :
    wp (fun _ => True) (handleFault c faultaddress) (fun _ t => Inv t ∧ view t = view s) s := by
  simp only [handleFault, wp_bind, wp_get, then_ok]
  cases hc : (s.cpus c).cur with
  | none => exact (wp_throw _).2 ⟨hi, rfl⟩
  | some a =>
      obtain ⟨as, ha⟩ := Option.isSome_iff_exists.1 (hi.cur c a hc)
      simp only [wp_bind, wp_readSpace ha, then_ok, wp_ite, wp_halt, implies_true, and_true]
      intro hready
      cases htr : as.translate (pageFrame faultaddress) with
      | none => exact (wp_throw _).2 ⟨hi, rfl⟩
      | some paddr =>
          simp only [wp_ite, wp_halt, implies_true, and_true]
          intro _
          exact inv_tlbInsert hi hc ha hready htr ((Addrspace.pageFrame_eq_iff _).2 (pageFrame_mod _))

theorem inv_vmFault (hi : Inv s) (faulttype : FaultType) (faultaddress : UInt32) :
    wp (fun _ => True) (vmFault c faulttype faultaddress) (fun _ t => Inv t ∧ view t = view s)
      s := by
  cases faulttype with
  | readonly => exact (wp_halt _).2 trivial
  | other => exact (wp_throw _).2 ⟨hi, rfl⟩
  | read => exact inv_handleFault hi _
  | write => exact inv_handleFault hi _

/-- What the TLB of a CPU translates is a place of the process that runs there. -/
theorem Inv.hits (hi : Inv s) (hc : (s.cpus c).cur = some a) (h : Hits s c va pa) :
    ∃ as, s.spaces a = some as ∧ as.place va = some pa := by
  obtain ⟨i, hv, hpage, rfl⟩ := h
  obtain ⟨as, ha, hready, htr, -⟩ := hi.tlb c a i hc hv
  refine ⟨as, ha, ?_⟩
  rw [Addrspace.place, if_pos hready, ← hpage, htr, Option.map_some]

/-- A store changes one byte of one view. -/
theorem view_store (hi : Inv s) (ha : s.spaces a = some as) (hp : as.place va = some pa)
    (x : UInt8) : view { s with mem := Function.update s.mem pa x } =
      Function.update (view s) a (Function.update (view s a) va (some x)) := by
  obtain ⟨r, ho⟩ := Addrspace.place_owns (hi.sized a as ha) hp
  funext b
  by_cases hb : b = a
  · subst hb
    rw [Function.update_self]
    funext vb
    have hnew : view { s with mem := Function.update s.mem pa x } b vb =
        (as.place vb).map (Function.update s.mem pa x) := view_of_space ha
    rw [hnew]
    by_cases hvb : vb = va
    · subst hvb
      rw [Function.update_self, hp]
      exact congrArg some (Function.update_self _ _ _)
    · rw [Function.update_of_ne hvb, view_of_space ha]
      cases hpb : as.place vb with
      | none => rfl
      | some pb =>
          have hne : pb ≠ pa := fun heq => hvb (hi.place_injective ha (heq ▸ hpb) hp)
          exact congrArg some (Function.update_of_ne hne _ _)
  · rw [Function.update_of_ne hb]
    refine view_congr hi rfl fun bs r' pb hbs ho' => Function.update_of_ne ?_ _ _
    rintro rfl
    exact hb (hi.apart b a bs as r' r pb hbs ha ho' ho).1

/-! ## Every step and every run -/

theorem Ran.post {α : Type} {m : VmCall α} {Q : Except Errno α → Machine → Prop} (h : Ran m s t)
    (hm : wp (fun _ => True) m Q s) : ∃ x, Q x t := by
  obtain ⟨x, hx⟩ := h
  exact ⟨x, hm.returns hx⟩

/-- The process on each CPU. -/
def running (s : Machine) (c : Nat) : Option Nat := (s.cpus c).cur

theorem inv_step (hrs : FreshFrames ramStealmem) (hi : Inv s) {op : Op} (hok : Allowed s op)
    (h : step ramStealmem s op t) : Inv t ∧ Effect (running s) op (view s) (view t) := by
  cases op with
  | create kmalloc =>
      obtain ⟨-, hpost⟩ := Ran.post h (inv_asCreate hi kmalloc)
      exact hpost
  | defineRegion a vaddr sz =>
      obtain ⟨as, ha, hcold⟩ := hok
      obtain ⟨-, hpost⟩ := Ran.post h (inv_asDefineRegion hi ha hcold vaddr sz)
      exact hpost
  | prepareLoad a =>
      obtain ⟨as, ha, hcold⟩ := hok
      obtain ⟨-, hpost⟩ := Ran.post h (inv_asPrepareLoad hrs hi ha hcold)
      exact hpost
  | defineStack a =>
      obtain ⟨-, hpost⟩ := Ran.post h (inv_asDefineStack hi)
      exact hpost
  | copy a kmalloc =>
      obtain ⟨as, ha, hbuilt⟩ := hok
      obtain ⟨x, ht, hx⟩ := Ran.post h (wp_asCopy hrs hi ha hbuilt kmalloc)
      refine ⟨ht, ?_⟩
      cases x with
      | error e => exact .inl hx
      | ok n =>
          obtain ⟨hcopy, hother⟩ := hx
          have hne : n ≠ a := fun heq => by
            rw [← heq, hcopy.unused] at ha
            cases ha
          refine .inr ⟨n, hne, view_of_none hcopy.unused, funext fun b => ?_⟩
          by_cases hb : b = n
          · rw [hb, Function.update_self, hcopy.view_eq hi ht ha hbuilt]
          · rw [Function.update_of_ne hb, hother b hb]
  | destroy a =>
      have hdrop : wp (fun _ => True) (asDestroy a)
          (fun _ t => t = { s with spaces := Function.update s.spaces a none }) s :=
        (wp_modify _).2 rfl
      obtain ⟨-, rfl⟩ := Ran.post h hdrop
      refine ⟨hi.drop hok, fun b hb => ?_⟩
      exact view_congr hi (Function.update_of_ne hb _ _) fun _ _ _ _ _ => rfl
  | activate c x =>
      obtain ⟨-, hpost⟩ := Ran.post h (inv_switchTo hi hok)
      exact hpost
  | fault c faulttype faultaddress =>
      obtain ⟨-, hpost⟩ := Ran.post h (inv_vmFault hi faulttype faultaddress)
      exact hpost
  | store c va b =>
      obtain ⟨a, pa, hc, hhits, rfl⟩ := h
      obtain ⟨as, ha, hp⟩ := hi.hits hc hhits
      exact ⟨hi.setMem _, a, hc, view_store hi ha hp b⟩
  | allocKpages npages =>
      obtain ⟨x, hpost⟩ := Ran.post h (wp_getppages (hrs _ npages))
      rcases hpost with ⟨-, rfl⟩ | ⟨p, -, -, -, -, rfl⟩
      · exact ⟨hi, rfl⟩
      · exact ⟨hi.take _, rfl⟩

theorem inv_of_reach {boot : Machine} (hrs : FreshFrames ramStealmem) (hb : Boot boot)
    (h : Reach (step ramStealmem) Allowed boot s) : Inv s :=
  h.invariant (I := Inv) (fun _ _ _ hi hok hs => (inv_step hrs hi hok hs).1) hb.inv

/-- In every state that the machine reaches no frame belongs to two address spaces; what the TLB of
a CPU translates is a place in the frames of its process, with the byte that the process is to see
there; every operation changes the views as `Effect` says, so that a store is seen by nobody else;
and a copy has the bounds and the bytes of the original. -/
theorem memory_not_shared {boot : Machine} (hrs : FreshFrames ramStealmem) (hb : Boot boot)
    (h : Reach (step ramStealmem) Allowed boot s) :
    (∀ a b as bs r r' pa, a ≠ b → s.spaces a = some as → s.spaces b = some bs → as.Owns r pa →
      ¬ bs.Owns r' pa) ∧
    (∀ c a va pa, (s.cpus c).cur = some a → Hits s c va pa →
      ∃ as r, s.spaces a = some as ∧ as.Owns r pa ∧ view s a va = some (s.mem pa)) ∧
    (∀ op t, Allowed s op → step ramStealmem s op t →
      Effect (running s) op (view s) (view t)) ∧
    ∀ a as kmalloc n t, s.spaces a = some as → as.Built →
      (asCopy ramStealmem a kmalloc).result s = .ok (.ok n, t) → IsCopy s as t n := by
  have hi := inv_of_reach hrs hb h
  refine ⟨?_, ?_, fun op t hok hst => (inv_step hrs hi hok hst).2, ?_⟩
  · intro a b as bs r r' pa hab ha hbs ho ho'
    exact hab (hi.apart a b as bs r r' pa ha hbs ho ho').1
  · intro c a va pa hc hhits
    obtain ⟨as, ha, hp⟩ := hi.hits hc hhits
    obtain ⟨r, ho⟩ := Addrspace.place_owns (hi.sized a as ha) hp
    exact ⟨as, r, ha, ho, by rw [view_of_space ha, hp, Option.map_some]⟩
  · intro a as kmalloc n t ha hbuilt hres
    have hcopy : wp (fun _ => True) _ _ s := wp_asCopy hrs hi ha hbuilt kmalloc
    exact (hcopy.returns hres).2.1

/-! ## A fork -/

/-- Frames are given one after the other, from the third page on, until the memory ends. -/
def steal (taken : List (Nat × Nat)) (npages : Nat) : Nat :=
  let firstpaddr := pageFrame
    (taken.foldr (fun q top => max (q.1 + q.2 * pageSize) top) (2 * pageSize) + (pageSize - 1))
  if firstpaddr + npages * pageSize > 2 ^ 29 then 0 else firstpaddr

theorem freshFrames_steal : FreshFrames steal := by
  intro taken n
  have htop : ∀ q ∈ taken, q.1 + q.2 * pageSize ≤
      taken.foldr (fun q top => max (q.1 + q.2 * pageSize) top) (2 * pageSize) := by
    intro q hq
    induction taken with
    | nil => cases hq
    | cons x taken ih =>
        rw [List.foldr_cons]
        rcases List.mem_cons.1 hq with rfl | hq
        · exact Nat.le_max_left _ _
        · exact (ih hq).trans (Nat.le_max_right _ _)
  unfold steal
  dsimp only
  split_ifs with hfull
  · exact .inl rfl
  · refine .inr ⟨pageFrame_mod _, Nat.le_of_not_gt hfull, fun q hq => .inr ((htop q hq).trans ?_)⟩
    unfold pageFrame pageSize
    omega

/-- A machine without processes. -/
def empty : Machine :=
  { mem := fun _ => 255, taken := [], next := 0, spaces := fun _ => none
    cpus := fun _ => { cur := none, tlb := fun _ => { vpage := 0, ppage := 0, valid := true
                                                      dirty := true } } }

instance (as : Addrspace) : Decidable as.Cold :=
  decidable_of_iff (as.pbase1 = 0 ∧ as.pbase2 = 0 ∧ as.stackpbase = 0)
    ⟨fun ⟨h1, h2, h3⟩ r => by cases r <;> assumption, fun h => ⟨h .one, h .two, h .stack⟩⟩

instance (as : Addrspace) : Decidable as.Built :=
  decidable_of_iff (as.pbase1 ≠ 0 ∧ as.pbase2 ≠ 0 ∧ as.stackpbase ≠ 0)
    ⟨fun ⟨h1, h2, h3⟩ r => by cases r <;> assumption, fun h => ⟨h .one, h .two, h .stack⟩⟩

/-- The machine after a call. -/
def after {α : Type} (m : VmCall α) (s : Machine) : Machine :=
  match m.result s with
  | .ok (_, t) => t
  | .error _ => s

theorem ran_after {α : Type} {m : VmCall α} (h : (m.result s).isOk = true) : Ran m s (after m s) := by
  unfold Ran after
  cases hres : m.result s with
  | error e =>
      rw [hres] at h
      cases h
  | ok x => exact ⟨x.1, rfl⟩

theorem exists_of_any {P : Addrspace → Prop} [DecidablePred P]
    (h : (s.spaces a).any (fun as => decide (P as)) = true) : ∃ as, s.spaces a = some as ∧ P as := by
  obtain ⟨as, ha, hP⟩ := (Option.any_eq_true _ _).1 h
  exact ⟨as, ha, of_decide_eq_true hP⟩

/-- A program of two regions of a page each has been built. -/
def built : Machine :=
  after (asPrepareLoad steal 0)
    (after (asDefineRegion 0 0x10000000 4096)
      (after (asDefineRegion 0 0x400000 4096) (after (asCreate true) empty)))

theorem reach_built : Reach (step steal) Allowed empty built := by
  have h1 : Reach (step steal) Allowed empty (after (asCreate true) empty) :=
    Reach.refl.tail (a := .create true) trivial (ran_after (by decide +kernel))
  have h2 : Reach (step steal) Allowed empty
      (after (asDefineRegion 0 0x400000 4096) (after (asCreate true) empty)) :=
    h1.tail (a := .defineRegion 0 0x400000 4096) (exists_of_any (by decide +kernel))
      (ran_after (by decide +kernel))
  have h3 : Reach (step steal) Allowed empty (after (asDefineRegion 0 0x10000000 4096)
      (after (asDefineRegion 0 0x400000 4096) (after (asCreate true) empty))) :=
    h2.tail (a := .defineRegion 0 0x10000000 4096) (exists_of_any (by decide +kernel))
      (ran_after (by decide +kernel))
  exact h3.tail (a := .prepareLoad 0) (exists_of_any (by decide +kernel))
    (ran_after (by decide +kernel))

/-- The number of the address space that a copy makes. -/
def copied (s : Machine) (a : Nat) : Option Nat :=
  match (asCopy steal a true).result s with
  | .ok (.ok n, _) => some n
  | _ => none

theorem result_of_copied (h : copied s a = some n) :
    (asCopy steal a true).result s = .ok (.ok n, after (asCopy steal a true) s) := by
  unfold copied at h
  unfold after
  split at h
  · rename_i m t hres
    obtain rfl : m = n := Option.some.inj h
    rw [hres]
  · cases h

/-- The program forks. -/
theorem memory_not_shared_fork : ∃ as, built.spaces 0 = some as ∧
    IsCopy built as (after (asCopy steal 0 true) built) 1 := by
  obtain ⟨as, ha, hbuilt⟩ : ∃ as, built.spaces 0 = some as ∧ as.Built :=
    exists_of_any (by decide +kernel)
  have hempty : Boot empty := ⟨fun _ => rfl, fun _ => rfl⟩
  exact ⟨as, ha, (memory_not_shared freshFrames_steal hempty reach_built).2.2.2 0 as true 1 _ ha
    hbuilt (result_of_copied (by decide +kernel))⟩

end Os161.Vm.Dumbvm

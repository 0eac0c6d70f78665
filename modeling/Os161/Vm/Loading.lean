import Os161.Vm.LoadElf

set_option autoImplicit false

/-!
# What the steps of load_elf do

The first loop makes the regions of `regions`, and `as_prepare_load` fails when there is no memory;
its frames lie in the memory when no sum has overflowed. What every store keeps the second loop
keeps (`wp_loadSegments`): with two regions the stores go to frames of the address space, and
without them the first store panics.
-/

namespace Os161.Vm.Dumbvm

open Os161.Lib.Calls

section Rules

variable {ok : Panic → Prop} {s t : Loader} {α : Type}

theorem result_onMachine (m : VmCall α) (s : Loader) :
    (onMachine m).result s = match m.result s.machine with
      | .ok (r, t) => .ok (r.mapError .vm, { s with machine := t })
      | .error p => .error p := rfl

@[simp] theorem wp_onMachine {m : VmCall α} {Q : Except LoadError α → Loader → Prop} :
    wp ok (onMachine m) Q s ↔
      wp ok m (fun r t => Q (r.mapError .vm) { s with machine := t }) s.machine := by
  unfold wp
  rw [result_onMachine]
  cases m.result s.machine <;> rfl

@[simp] theorem wp_put {va : UInt32} {b : UInt8} {pa : Nat}
    {Q : Except LoadError Unit → Loader → Prop} : wp ok (put va b pa) Q s ↔
      Q (.ok ()) { s with
        machine := { s.machine with mem := Function.update s.machine.mem pa b }
        written := (pa, 1) :: s.written
        stored := va :: s.stored } := by
  rw [put, wp_modify]

end Rules

/-! ## The segments -/

section Segments

variable {ok : Panic → Prop} {s : Loader} {v : Vnode} {eh : Ehdr} {a : Nat} {as bs : Addrspace}

theorem regions_cons (ph : Phdr) (phs : List Phdr) :
    regions as (ph :: phs) = (regions as [ph]).bind fun bs => regions bs phs := by
  simp only [regions]
  split_ifs <;> rfl

/-- `as_define_region`. -/
theorem wp_asDefineRegion_eq {m : Machine} {ph : Phdr} {Q : Except Errno Unit → Machine → Prop}
    (ha : m.spaces a = some as)
    (hok : ∀ bs, regions as [ph] = some bs →
      Q (.ok ()) { m with spaces := Function.update m.spaces a (some bs) })
    (herr : regions as [ph] = none → Q (.error .ENOSYS) m) :
    wp ok (asDefineRegion a ph.vaddr ph.memsz) Q m := by
  simp only [asDefineRegion, wp_bind, wp_readSpace ha, then_ok, wp_ite, wp_writeSpace, wp_throw]
  refine ⟨fun hone => ?_, fun hone => ⟨fun htwo => ?_, fun htwo => ?_⟩⟩
  · exact hok _ (if_pos hone)
  · exact hok _ ((if_neg hone).trans (if_pos htwo))
  · exact herr ((if_neg hone).trans (if_neg htwo))

theorem phdrs_none {i : Nat} {is : List Nat} (h : readPhdr v eh i = .ok none) :
    phdrs v eh (i :: is) = phdrs v eh is := by
  rw [phdrs, h]
  rfl

theorem phdrs_some {i : Nat} {is : List Nat} {ph : Phdr} (h : readPhdr v eh i = .ok (some ph)) :
    phdrs v eh (i :: is) = (phdrs v eh is).map (ph :: ·) := by
  rw [phdrs, h]
  cases phdrs v eh is <;> rfl

theorem phdrs_error {i : Nat} {is : List Nat} {e : LoadError} (h : readPhdr v eh i = .error e) :
    phdrs v eh (i :: is) = .error e := by
  rw [phdrs, h]
  rfl

/-- One turn of a loop over the segments. -/
theorem wp_turn {i : Nat} {f : Phdr → LoadCall Unit} {Q : Except LoadError Unit → Loader → Prop}
    (herr : ∀ e, readPhdr v eh i = .error e → Q (.error e) s)
    (hnone : readPhdr v eh i = .ok none → Q (.ok ()) s)
    (hsome : ∀ ph, readPhdr v eh i = .ok (some ph) → wp ok (f ph) Q s) :
    wp ok (do
      match ← returning (readPhdr v eh i) with
      | none => pure ()
      | some ph => f ph) Q s := by
  rw [wp_bind, wp_returning]
  cases h : readPhdr v eh i with
  | error e => exact herr e h
  | ok x =>
      cases x with
      | none => exact (wp_pure _).2 (hnone h)
      | some ph => exact hsome ph h

/-- The first loop. -/
theorem wp_define {is : List Nat} {Q : Except LoadError Unit → Loader → Prop}
    (ha : s.machine.spaces a = some as)
    (hok : ∀ phs bs, phdrs v eh is = .ok phs → regions as phs = some bs →
      Q (.ok ()) { s with
        machine := { s.machine with spaces := Function.update s.machine.spaces a (some bs) } })
    (herr : ∀ e m, m.mem = s.machine.mem →
      (∀ phs, phdrs v eh is = .ok phs → regions as phs = none) →
      Q (.error e) { s with machine := m }) :
    wp ok (forEach is fun i => do
      match ← returning (readPhdr v eh i) with
      | none => pure ()
      | some ph => onMachine (asDefineRegion a ph.vaddr ph.memsz)) Q s := by
  induction is generalizing s as with
  | nil =>
      have hsame := hok [] as rfl rfl
      rw [Function.update_eq_self_iff.2 ha.symm] at hsame
      exact (wp_pure _).2 hsame
  | cons i is ih =>
      rw [forEach, wp_bind]
      refine wp_turn (fun e h => ?_) (fun h => ?_) fun ph h => ?_
      · refine herr e s.machine rfl fun phs hphs => ?_
        rw [phdrs_error h] at hphs
        cases hphs
      · rw [phdrs_none h] at hok herr
        exact ih ha hok herr
      · rw [phdrs_some h] at hok herr
        rw [wp_onMachine]
        refine wp_asDefineRegion_eq ha (fun bs hbs => ?_) fun hnone => ?_
        · -- the other segments begin with what this one has left
          refine ih (Function.update_self ..) (fun phs cs hphs hcs => ?_) fun e m hmem hno => ?_
          · have hall := hok (ph :: phs) cs (by rw [hphs]; rfl)
              (by rw [regions_cons, hbs]; exact hcs)
            rwa [Function.update_idem]
          · refine herr e m hmem fun phs hphs => ?_
            cases hrest : phdrs v eh is with
            | error e =>
                rw [hrest] at hphs
                cases hphs
            | ok rest =>
                rw [hrest] at hphs
                cases hphs
                rw [regions_cons, hbs]
                exact hno rest hrest
        · refine herr _ s.machine rfl fun phs hphs => ?_
          cases hrest : phdrs v eh is with
          | error e =>
              rw [hrest] at hphs
              cases hphs
          | ok rest =>
              rw [hrest] at hphs
              cases hphs
              rw [regions_cons, hnone]
              rfl

end Segments

/-! ## The memory -/

section Memory

variable {ok : Panic → Prop} {s : Machine} {first last a n : Nat} {as as' : Addrspace}
  {taken : List (Nat × Nat)}

theorem wp_getppages_eq {f : List (Nat × Nat) → Nat → Nat} {Q : Except Errno Nat → Machine → Prop} :
    wp ok (getppages f n) Q s ↔ (f s.taken n = 0 → Q (.ok 0) s) ∧
      (f s.taken n ≠ 0 → Q (.ok (f s.taken n)) { s with taken := (f s.taken n, n) :: s.taken }) := by
  simp only [getppages, wp_bind, wp_get, then_ok, wp_ite, wp_pure, wp_modify]

/-- The address space after `as_prepare_load` has got all frames. -/
structure Given (first last : Nat) (taken : List (Nat × Nat)) (as as' : Addrspace) : Prop where
  bounds : as'.SameBounds as
  one : as'.pbase1 = ramStealmem first last taken as.npages1
  two : as'.pbase2 = ramStealmem first last ((as'.pbase1, as.npages1) :: taken) as.npages2
  three : as'.stackpbase = ramStealmem first last
    ((as'.pbase2, as.npages2) :: (as'.pbase1, as.npages1) :: taken) stackpages

/-- The memory after `as_prepare_load`. -/
def zeroedAll (as : Addrspace) (mem : Nat → UInt8) : Nat → UInt8 :=
  zeroed (zeroed (zeroed mem as.pbase1 (as.npages1 * pageSize % 2 ^ 32))
    as.pbase2 (as.npages2 * pageSize % 2 ^ 32)) as.stackpbase (stackpages * pageSize % 2 ^ 32)

/-- `as_prepare_load` fails when there is no memory. -/
theorem wp_asPrepareLoad_given (ha : s.spaces a = some as) (hcold : as.Cold) :
    wp ok (asPrepareLoad (ramStealmem first last) a) (fun r t =>
      (¬ Granted first last s.taken as ∧ t.mem = s.mem ∧ ∃ e, r = .error e) ∨
      (Granted first last s.taken as ∧ r = .ok () ∧ t.cpus = s.cpus ∧ ∃ as', t.spaces a = some as' ∧
        Given first last s.taken as as' ∧ t.mem = zeroedAll as' s.mem)) s := by
  simp only [asPrepareLoad, wp_bind, wp_readSpace ha, then_ok]
  rw [if_neg (by simp [show as.pbase1 = 0 from hcold .one, show as.pbase2 = 0 from hcold .two,
    show as.stackpbase = 0 from hcold .stack])]
  rw [wp_bind, wp_getppages_eq]
  refine ⟨fun hone => ?_, fun hone => ?_⟩
  · simp only [then_ok, wp_bind, wp_writeSpace, if_pos, wp_throw]
    exact .inl ⟨fun h => h.1 hone, trivial, _, rfl⟩
  simp only [then_ok, wp_bind, wp_writeSpace, if_neg hone]
  rw [wp_getppages_eq]
  refine ⟨fun htwo => ?_, fun htwo => ?_⟩
  · simp only [then_ok, wp_bind, wp_writeSpace, if_pos, wp_throw]
    exact .inl ⟨fun h => h.2.1 htwo, trivial, _, rfl⟩
  simp only [then_ok, wp_bind, wp_writeSpace, if_neg htwo]
  rw [wp_getppages_eq]
  refine ⟨fun hstack => ?_, fun hstack => ?_⟩
  · simp only [then_ok, wp_bind, wp_writeSpace, if_pos, wp_throw]
    exact .inl ⟨fun h => h.2.2 hstack, trivial, _, rfl⟩
  simp only [then_ok, wp_bind, wp_writeSpace, if_neg hstack, zeroRegions, asZeroRegion, wp_modify]
  refine .inr ⟨⟨hone, htwo, hstack⟩, trivial, trivial, _, Function.update_self .., ⟨?_, rfl, rfl, ?_⟩,
    ?_⟩
  · intro r
    cases r <;> exact ⟨rfl, rfl⟩
  · dsimp only
  · rw [zeroedAll]

/-- While the sum does not overflow, the frames are the next ones, or there are none. -/
theorem ramStealmem_cases (last : Nat) (h : firstpaddr first taken + n * pageSize < 2 ^ 32) :
    ramStealmem first last taken n = 0 ∨
      (ramStealmem first last taken n = firstpaddr first taken ∧
        firstpaddr first taken + n * pageSize ≤ last) := by
  cases hsteal : Kmalloc.ramStealmem ⟨firstpaddr first taken, last⟩ n with
  | mk pa ram =>
      rw [ramStealmem, hsteal]
      rcases Kmalloc.ramStealmem_cases h hsteal with ⟨hzero, -⟩ | ⟨hpa, -, hle⟩
      · exact .inl hzero
      · exact .inr ⟨hpa, hle⟩

theorem Roomy.freshAt (hr : Roomy first last taken)
    (h : firstpaddr first taken + n * pageSize < 2 ^ 32) :
    FreshAt (ramStealmem first last) taken n := by
  rcases ramStealmem_cases last h with hzero | ⟨heq, hle⟩
  · exact .inl hzero
  · rw [FreshAt, heq]
    exact .inr ⟨hr.aligned, Nat.le_trans hle hr.bound, fun q hq => .inr (hr.below q hq)⟩

theorem firstpaddr_cons (p : Nat) (h : p + n * pageSize < 2 ^ 32) :
    firstpaddr first ((p, n) :: taken) = p + n * pageSize := by
  rw [firstpaddr, Nat.mod_eq_of_lt (Nat.lt_of_le_of_lt (Nat.le_add_left _ _) h), Nat.mod_eq_of_lt h]

/-- The memory stays in order when frames are given. -/
theorem Roomy.cons {p : Nat} (hr : Roomy first last taken)
    (h : firstpaddr first taken + n * pageSize < 2 ^ 32) (hp : p ≠ 0)
    (heq : p = ramStealmem first last taken n) :
    Roomy first last ((p, n) :: taken) ∧
      firstpaddr first ((p, n) :: taken) = firstpaddr first taken + n * pageSize := by
  obtain ⟨hsteal, hle⟩ := (ramStealmem_cases last h).resolve_left (heq ▸ hp)
  obtain rfl : p = firstpaddr first taken := heq.trans hsteal
  have hnext : firstpaddr first ((firstpaddr first taken, n) :: taken) =
      firstpaddr first taken + n * pageSize := firstpaddr_cons _ h
  refine ⟨⟨hr.bound, ?_, ?_, ?_, ?_⟩, hnext⟩ <;> rw [hnext]
  · rw [Nat.add_mul_mod_self_right]
    exact hr.aligned
  · exact Nat.add_pos_left hr.pos _
  · exact hle
  · intro q hq
    rcases List.mem_cons.1 hq with rfl | hq
    · exact Nat.le_refl _
    · exact Nat.le_trans (hr.below q hq) (Nat.le_add_right _ _)

/-- The frames of the stack never make the sum overflow. -/
theorem Roomy.stack_lt (hr : Roomy first last taken) :
    firstpaddr first taken + stackpages * pageSize < 2 ^ 32 := by
  have hle := hr.le
  have hbound := hr.bound
  have hstack : stackpages * pageSize = 73728 := rfl
  omega

theorem Roomy.freshRequests (hr : Roomy first last taken)
    (h : NoOverflow (firstpaddr first taken) as) :
    FreshRequests (ramStealmem first last) taken as := by
  obtain ⟨hone, htwo⟩ := h
  refine ⟨hr.freshAt hone, fun p hp heq => ?_, fun p q hp heq hq heq' => ?_⟩
  · obtain ⟨hr', hnext⟩ := hr.cons hone hp heq
    exact hr'.freshAt (by rwa [hnext])
  · obtain ⟨hr', hnext⟩ := hr.cons hone hp heq
    obtain ⟨hr'', -⟩ := hr'.cons (by rwa [hnext]) hq heq'
    exact hr''.freshAt hr''.stack_lt

/-- `ram_stealmem` gives the next frames, if it gives any. -/
theorem ramStealmem_eq_firstpaddr (h : ramStealmem first last taken n ≠ 0) :
    ramStealmem first last taken n = firstpaddr first taken := by
  simp only [ramStealmem, Kmalloc.ramStealmem] at *
  split_ifs at * with hfull
  · exact absurd rfl h
  · rfl

/-- When a sum overflows and there is memory all the same, the frames of a region reach behind the
end of the memory. -/
theorem Roomy.overflows (hr : Roomy first last taken) (hg : Granted first last taken as)
    (hgiven : Given first last taken as as') (h : ¬ NoOverflow (firstpaddr first taken) as) :
    (as'.pbase1 ≤ last ∧ last < as'.pbase1 + as.npages1 * pageSize) ∨
      (as'.pbase2 ≤ last ∧ last < as'.pbase2 + as.npages2 * pageSize) := by
  obtain ⟨hone, htwo, -⟩ := hg
  have hbound := hr.bound
  have hp1 : as'.pbase1 = firstpaddr first taken := hgiven.one.trans (ramStealmem_eq_firstpaddr hone)
  rw [← hgiven.one] at hone htwo
  rw [← hgiven.two] at htwo
  by_cases hsum : firstpaddr first taken + as.npages1 * pageSize < 2 ^ 32
  · -- then the second sum overflows, and its frames begin where the first ones end
    obtain ⟨hr', hnext⟩ := hr.cons hsum hone hgiven.one
    have hp2 : as'.pbase2 = firstpaddr first ((as'.pbase1, as.npages1) :: taken) := by
      rw [hgiven.two] at htwo ⊢
      exact ramStealmem_eq_firstpaddr htwo
    have hover : ¬ as'.pbase2 + as.npages2 * pageSize < 2 ^ 32 := fun hlt =>
      h ⟨hsum, by rwa [← hnext, ← hp2]⟩
    refine .inr ⟨hp2 ▸ hr'.le, ?_⟩
    omega
  · refine .inl ⟨hp1 ▸ hr.le, ?_⟩
    omega

/-- Without overflow all frames lie in the memory. -/
theorem Roomy.below_last (hr : Roomy first last taken) (hg : Granted first last taken as)
    (hgiven : Given first last taken as as') (h : NoOverflow (firstpaddr first taken) as)
    (r : Region) : as'.pbase r + as.npages r * pageSize ≤ last := by
  obtain ⟨hone, htwo, hstack⟩ := hg
  rw [← hgiven.one] at hone htwo hstack
  rw [← hgiven.two] at htwo hstack
  rw [← hgiven.three] at hstack
  obtain ⟨hr', hnext⟩ := hr.cons h.1 hone hgiven.one
  obtain ⟨hr'', -⟩ := hr'.cons (by rw [hnext]; exact h.2) htwo hgiven.two
  obtain ⟨hr3, -⟩ := hr''.cons hr''.stack_lt hstack hgiven.three
  cases r with
  | one => exact Nat.le_trans (hr'.below _ List.mem_cons_self) hr'.le
  | two => exact Nat.le_trans (hr''.below _ List.mem_cons_self) hr''.le
  | stack => exact Nat.le_trans (hr3.below _ List.mem_cons_self) hr3.le

end Memory

/-! ## The stores -/

section Stores

variable {ok : Panic → Prop} {s : Loader} {v : Vnode} {eh : Ehdr} {c : Nat} {I : Loader → Prop}

/-- What the TLB gives for an address is what its entry gives. -/
theorem hits_of_lookup {m : Machine} {va pa : Nat} (h : (m.cpus c).lookup va = some pa) :
    Hits m c va pa := by
  obtain ⟨i, hi, rfl⟩ := Option.map_eq_some_iff.1 h
  have hboth := List.find?_some hi
  rw [Bool.and_eq_true] at hboth
  exact ⟨i, hboth.1, of_decide_eq_true hboth.2, rfl⟩

theorem lookup_none {cpu : Cpu} (h : ∀ i, (cpu.tlb i).valid = false) (va : Nat) :
    cpu.lookup va = none := by
  rw [Cpu.lookup, List.find?_eq_none.2 fun i _ => by rw [h i]; nofun]
  rfl

/-- What every store to a user address keeps. -/
def Kept (ok : Panic → Prop) (c : Nat) (I : Loader → Prop) : Prop :=
  ∀ va b s, va < Syscall.userspacetop → I s → wp ok (storeByte c va b) (fun _ t => I t) s

theorem wp_storeBytes (hk : Kept ok c I) {bs : List UInt8} {va : UInt32}
    (hend : va.toNat + bs.length ≤ Syscall.userspacetop.toNat) (hs : I s) :
    wp ok (storeBytes c bs va) (fun _ t => I t) s := by
  induction bs generalizing va s with
  | nil => exact (wp_pure _).2 hs
  | cons b bs ih =>
      rw [List.length_cons] at hend
      have htop : Syscall.userspacetop.toNat = 2 ^ 31 := rfl
      rw [storeBytes, wp_bind]
      have hva : va < Syscall.userspacetop := by
        rw [UInt32.lt_iff_toNat_lt]
        omega
      refine wp_mono (hk va b s hva hs) fun r t ht => ?_
      cases r with
      | error e => exact ht
      | ok u =>
          refine ih ?_ ht
          have hone : (va + 1).toNat = (va.toNat + 1) % 2 ^ 32 := UInt32.toNat_add va 1
          omega

theorem wp_copyout (hk : Kept ok c I) {bs : List UInt8} {va : UInt32} (hlen : bs.length < 2 ^ 32)
    (hs : I s) : wp ok (copyout c bs va) (fun _ t => I t) s := by
  have hword : (UInt32.ofNat bs.length).toNat = bs.length := Nat.mod_eq_of_lt hlen
  rw [copyout]
  cases hcheck : Syscall.copycheck va (.ofNat bs.length) with
  | error e => exact (wp_throw _).2 hs
  | ok stoplen =>
      dsimp only
      rw [wp_ite]
      refine ⟨fun _ => (wp_throw _).2 hs, fun hstop => ?_⟩
      rw [Decidable.not_not.1 hstop, Syscall.copycheck_eq_len, hword] at hcheck
      rw [wp_bind, wp_catching]
      refine wp_mono (wp_storeBytes hk hcheck.2 hs) fun r t ht => ?_
      cases r with
      | error e => exact (wp_throw _).2 ht
      | ok u => exact (wp_pure _).2 ht

theorem wp_uiomoves (hk : Kept ok c I) {pieces : List (List UInt8)} {va : UInt32}
    (hlen : pieces.flatten.length < 2 ^ 32) (hs : I s) :
    wp ok (uiomoves c pieces va) (fun _ t => I t) s := by
  induction pieces generalizing va s with
  | nil => exact (wp_pure _).2 hs
  | cons bs pieces ih =>
      rw [List.flatten_cons, List.length_append] at hlen
      rw [uiomoves, wp_ite]
      refine ⟨fun _ => ih (by omega) hs, fun _ => ?_⟩
      rw [wp_bind]
      refine wp_mono (wp_copyout hk (by omega) hs) fun r t ht => ?_
      cases r with
      | error e => exact ht
      | ok u => exact ih (by omega) ht

theorem wp_loadSegment (hk : Kept ok c I) (ph : Phdr) (hs : I s) :
    wp ok (loadSegment v c ph) (fun _ t => I t) s := by
  have hlen : (v.read ph.offset.toNat ph.filesize).1.flatten.length < 2 ^ 32 :=
    Nat.lt_of_le_of_lt (v.fits _ _) (Nat.lt_of_le_of_lt (Nat.min_le_left _ _) ph.filesz.toNat_lt)
  rw [loadSegment, wp_bind]
  refine wp_mono (wp_uiomoves hk hlen hs) fun r t ht => ?_
  cases r with
  | error e => exact ht
  | ok u =>
      rw [then_ok]
      cases (v.read ph.offset.toNat ph.filesize).2 with
      | some e => exact (wp_throw _).2 ht
      | none =>
          dsimp only
          rw [wp_ite]
          exact ⟨fun _ => (wp_throw _).2 ht, fun _ => (wp_pure _).2 ht⟩

/-- The second loop keeps what its stores keep. -/
theorem wp_loadSegments (hk : Kept ok c I) (hs : I s) :
    wp ok (eachSegment v eh (loadSegment v c)) (fun _ t => I t) s := by
  refine wp_forEach (fun _ s => I s) (fun i is s hs => ?_) (fun s hs => hs) hs
  refine wp_turn (fun e _ => hs) (fun _ => hs) fun ph _ => ?_
  refine wp_mono (wp_loadSegment hk ph hs) fun r t ht => ?_
  cases r <;> exact ht

end Stores

/-! ## With two regions -/

section Ready

variable {ok : Panic → Prop} {m s : Machine} {t : Loader} {c a last : Nat} {as : Addrspace}

/-- The assertions of `vm_fault` do not fail: the address that a page is translated to is a frame. -/
theorem Addrspace.Ready.asserted (hs : as.Sized) (h : as.Ready) : as.Asserted := by
  refine ⟨h, fun faultaddress paddr htr => ?_⟩
  rw [Addrspace.translate_eq hs h.built] at htr
  obtain ⟨⟨r, k⟩, hloc, rfl⟩ := Option.map_eq_some_iff.1 htr
  have hva := (Addrspace.locate_spec hloc).1
  have hpage := pageFrame_mod faultaddress
  have hv := hs.vbase r
  have hp := hs.pbase r
  rw [Addrspace.pageFrame_eq_iff]
  dsimp only at *
  -- the base of the region and the page have the offset 0, and so the difference
  rw [pageSize] at *
  omega

theorem wp_tlbInsert_cur {vpage ppage : Nat} :
    wp ok (tlbInsert c vpage ppage) (fun _ t => (t.cpus c).cur = (m.cpus c).cur ∧
      t.spaces = m.spaces) m := by
  simp only [tlbInsert, wp_bind, wp_get, then_ok]
  cases (List.finRange numTlb).find? fun i => !((m.cpus c).tlb i).valid with
  | none => exact (wp_throw _).2 ⟨rfl, rfl⟩
  | some i =>
      refine (wp_modify _).2 ⟨?_, rfl⟩
      dsimp only
      rw [Function.update_self]

/-- `vm_fault` does not write to the memory. -/
theorem wp_vmFault_mem {faulttype : FaultType} {va : UInt32} :
    wp (fun _ => True) (vmFault c faulttype va) (fun _ t => t.mem = m.mem) m := by
  have hinsert : ∀ {vpage ppage}, wp (fun _ => True) (tlbInsert c vpage ppage)
      (fun _ t => t.mem = m.mem) m := by
    intro vpage ppage
    simp only [tlbInsert, wp_bind, wp_get, then_ok]
    cases (List.finRange numTlb).find? fun i => !((m.cpus c).tlb i).valid with
    | none => exact (wp_throw _).2 rfl
    | some i => exact (wp_modify _).2 rfl
  have hfault : ∀ addr, wp (fun _ => True) (handleFault c addr) (fun _ t => t.mem = m.mem) m := by
    intro addr
    simp only [handleFault, readSpace, wp_bind, wp_get, then_ok]
    cases (m.cpus c).cur with
    | none => exact (wp_throw _).2 rfl
    | some a =>
        simp only [wp_bind, wp_get, then_ok]
        cases m.spaces a with
        | none => exact (wp_halt _).2 trivial
        | some as =>
            simp only [wp_pure, then_ok, wp_ite, wp_halt, implies_true, and_true]
            intro _
            cases as.translate (pageFrame addr) with
            | none => exact (wp_throw _).2 rfl
            | some paddr =>
                simp only [wp_ite, wp_halt, implies_true, and_true]
                exact fun _ => hinsert
  cases faulttype with
  | readonly => exact (wp_halt _).2 trivial
  | other => exact (wp_throw _).2 rfl
  | read => exact hfault _
  | write => exact hfault _

/-- A fault of a process that has two regions does not panic. -/
theorem wp_vmFault_ready (hi : Inv m) (hc : (m.cpus c).cur = some a) (ha : m.spaces a = some as)
    (hready : as.Ready) (va : UInt32) :
    wp ok (vmFault c .write va) (fun _ t => Inv t ∧ (t.cpus c).cur = some a ∧ t.spaces = m.spaces)
      m := by
  simp only [vmFault, handleFault, wp_bind, wp_get, then_ok, hc, wp_readSpace ha]
  rw [if_pos hready]
  cases htr : as.translate (pageFrame va.toNat) with
  | none => exact (wp_throw _).2 ⟨hi, hc, rfl⟩
  | some paddr =>
      dsimp only
      rw [if_pos ((hready.asserted (hi.sized a as ha)).2 _ _ htr)]
      have hpage := (Addrspace.pageFrame_eq_iff _).2 (pageFrame_mod va.toNat)
      refine wp_mono (wp_and (inv_tlbInsert hi hc ha hready htr hpage) wp_tlbInsert_cur) ?_
      rintro r t ⟨⟨hi', -⟩, hcur, hspaces⟩
      exact ⟨hi', hcur.trans hc, hspaces⟩

/-- The segments are being loaded into the address space `as`, which has two regions. -/
structure Working (last : Nat) (s : Machine) (c a : Nat) (as : Addrspace) (t : Loader) : Prop where
  inv : Inv t.machine
  cur : (t.machine.cpus c).cur = some a
  here : t.machine.spaces a = some as
  tidy : Tidy last s a t

/-- A store goes to a frame of the address space. -/
theorem Working.put (h : Working last s c a as t)
    (hown : ∀ r pa, as.Owns r pa → pa < last ∧ ¬ Taken s.taken pa) {va : UInt32} {b : UInt8} {pa : Nat}
    (hva : va < Syscall.userspacetop) (hpa : (t.machine.cpus c).lookup va.toNat = some pa) :
    wp ok (put va b pa) (fun _ u => Working last s c a as u) t := by
  obtain ⟨bs, hbs, hplace⟩ := h.inv.hits h.cur (hits_of_lookup hpa)
  obtain rfl : as = bs := Option.some.inj (h.here.symm.trans hbs)
  obtain ⟨r, ho⟩ := Addrspace.place_owns (h.inv.sized a as h.here) hplace
  rw [wp_put]
  refine ⟨h.inv.setMem _, h.cur, h.here, fun x hx => ?_, fun w hw p hle hlt => ?_⟩
  · rcases List.mem_cons.1 hx with rfl | hx
    · exact hva
    · exact h.tidy.user x hx
  · rcases List.mem_cons.1 hw with rfl | hw
    · obtain rfl : p = pa := Nat.le_antisymm (Nat.le_of_lt_succ hlt) hle
      exact ⟨(hown r p ho).1, (hown r p ho).2, as, r, h.here, ho⟩
    · exact h.tidy.own w hw p hle hlt

theorem kept_working (c a : Nat) (hready : as.Ready)
    (hown : ∀ r pa, as.Owns r pa → pa < last ∧ ¬ Taken s.taken pa) :
    Kept ok c (Working last s c a as) := by
  intro va b t hva h
  simp only [storeByte, wp_bind, wp_get, then_ok]
  cases hpa : (t.machine.cpus c).lookup va.toNat with
  | some pa => exact h.put hown hva hpa
  | none =>
      dsimp only
      rw [wp_bind, wp_onMachine]
      refine wp_mono (wp_vmFault_ready h.inv h.cur h.here hready va) ?_
      rintro r u ⟨hi, hcur, hspaces⟩
      have hwork : Working last s c a as { t with machine := u } := by
        refine ⟨hi, hcur, by rw [hspaces]; exact h.here, h.tidy.user, ?_⟩
        rw [show ({ t with machine := u } : Loader).machine.spaces = t.machine.spaces from hspaces]
        exact h.tidy.own
      cases r with
      | error e => exact hwork
      | ok x =>
          simp only [Except.mapError, then_ok, wp_bind, wp_get]
          cases hpa' : (u.cpus c).lookup va.toNat with
          | some pa => exact hwork.put hown hva hpa'
          | none => exact (wp_throw _).2 hwork

end Ready

/-! ## Without two regions -/

section NotReady

variable {ok : Panic → Prop} {m : Machine} {s : Loader} {v : Vnode} {eh : Ehdr} {c a : Nat}
  {as : Addrspace}

/-- The address space `as` of the CPU `c` lacks a region, and the TLB is empty. -/
structure Lacking (m : Machine) (c a : Nat) (as : Addrspace) : Prop where
  cur : (m.cpus c).cur = some a
  here : m.spaces a = some as
  ready : ¬ as.Ready
  tlb : ∀ i, ((m.cpus c).tlb i).valid = false

/-- Every store panics. -/
theorem Lacking.wp_storeByte (h : Lacking s.machine c a as) {va : UInt32} {b : UInt8}
    {Q : Except LoadError Unit → Loader → Prop} (hok : ok .kassert) :
    wp ok (storeByte c va b) Q s := by
  simp only [storeByte, wp_bind, wp_get, then_ok, lookup_none h.tlb]
  simp only [wp_onMachine, vmFault, handleFault, wp_bind, wp_get, then_ok, h.cur,
    wp_readSpace h.here]
  rw [if_neg h.ready, wp_halt]
  exact hok

theorem Lacking.wp_copyout (h : Lacking s.machine c a as) {bs : List UInt8} {va : UInt32}
    {Q : Except LoadError Unit → Loader → Prop} (hbs : bs ≠ [])
    (hok : Syscall.copycheck va (.ofNat bs.length) = .ok (.ofNat bs.length) → ok .kassert)
    (herr : Syscall.copycheck va (.ofNat bs.length) ≠ .ok (.ofNat bs.length) →
      Q (.error (.vm .EFAULT)) s) : wp ok (copyout c bs va) Q s := by
  rw [copyout]
  cases hcheck : Syscall.copycheck va (.ofNat bs.length) with
  | error e => exact (wp_throw _).2 (herr (by rw [hcheck]; nofun))
  | ok stoplen =>
      dsimp only
      rw [wp_ite]
      refine ⟨fun hne => (wp_throw _).2 (herr ?_), fun heq => ?_⟩
      · rw [hcheck]
        exact fun h => hne (Except.ok.inj h)
      · rw [Decidable.not_not.1 heq] at hcheck
        cases bs with
        | nil => exact absurd rfl hbs
        | cons b bs =>
            rw [wp_bind, wp_catching, storeBytes, wp_bind]
            exact h.wp_storeByte (hok hcheck)

theorem uiomoves_nothing {pieces : List (List UInt8)} {va : UInt32}
    (h : pieces.filter (· ≠ []) = []) : uiomoves c pieces va = pure () := by
  induction pieces with
  | nil => rfl
  | cons bs pieces ih =>
      rw [List.filter_cons] at h
      split_ifs at h with hbs
      rw [uiomoves, if_pos (by simpa using hbs)]
      exact ih h

theorem uiomoves_first (c : Nat) (va : UInt32) {pieces rest : List (List UInt8)} {bs : List UInt8}
    (h : pieces.filter (· ≠ []) = bs :: rest) : bs ≠ [] ∧ ∃ others, uiomoves c pieces va = (do
      copyout c bs va
      uiomoves c others (va + .ofNat bs.length)) := by
  induction pieces with
  | nil => cases h
  | cons x pieces ih =>
      rw [List.filter_cons] at h
      split_ifs at h with hx
      · have hne : x ≠ [] := by simpa using hx
        obtain ⟨rfl, -⟩ := List.cons.inj h
        exact ⟨hne, pieces, by rw [uiomoves, if_neg hne]⟩
      · rw [uiomoves, if_pos (by simpa using hx)]
        exact ih h

/-- How a segment begins says what happens. -/
theorem Lacking.wp_loadSegment (h : Lacking s.machine c a as) {ph : Phdr}
    {Q : Except LoadError Unit → Loader → Prop}
    (hnothing : segmentStart v ph = .nothing → Q (.ok ()) s)
    (hrefused : segmentStart v ph = .refused → ∀ e, Q (.error e) s)
    (hstores : segmentStart v ph = .stores → ok .kassert) : wp ok (loadSegment v c ph) Q s := by
  rw [loadSegment, wp_bind]
  rw [segmentStart] at hnothing hrefused hstores
  cases hpieces : (v.read ph.offset.toNat ph.filesize).1.filter (· ≠ []) with
  | nil =>
      simp only [hpieces] at hnothing hrefused
      have hempty : (v.read ph.offset.toNat ph.filesize).1.flatten.length = 0 := by
        rw [List.length_eq_zero_iff, List.flatten_eq_nil_iff]
        intro bs hbs
        by_contra hne
        have hmem : bs ∈ (v.read ph.offset.toNat ph.filesize).1.filter (· ≠ []) :=
          List.mem_filter.2 ⟨hbs, decide_eq_true hne⟩
        rw [hpieces] at hmem
        cases hmem
      rw [uiomoves_nothing hpieces, wp_pure, then_ok, hempty]
      cases herr : (v.read ph.offset.toNat ph.filesize).2 with
      | some e =>
          refine (wp_throw _).2 (hrefused (if_neg ?_) _)
          rw [herr]
          nofun
      | none =>
          dsimp only
          rw [wp_ite]
          refine ⟨fun hne => (wp_throw _).2 (hrefused (if_neg fun hboth => ?_) _),
            fun heq => (wp_pure _).2 (hnothing (if_pos ⟨herr, ?_⟩))⟩
          · exact hne hboth.2.symm
          · exact (Decidable.not_not.1 heq).symm
  | cons bs rest =>
      simp only [hpieces] at hrefused hstores
      obtain ⟨hbs, others, heq⟩ := uiomoves_first c ph.vaddr hpieces
      rw [heq, wp_bind]
      refine h.wp_copyout hbs (fun hcheck => hstores (if_pos hcheck)) fun hcheck => ?_
      exact hrefused (if_neg hcheck) _

/-- The second loop stores nothing: it is refused, or it panics, or there is nothing to store. -/
theorem Lacking.wp_loadSegments (h : Lacking s.machine c a as) {is : List Nat} {phs : List Phdr}
    (hphs : phdrs v eh is = .ok phs) : wp (fun _ => ¬ Refused v phs) (forEach is fun i => do
      match ← returning (readPhdr v eh i) with
      | none => pure ()
      | some ph => loadSegment v c ph) (fun r t => t = s ∧ (r = .ok () ↔ ¬ Refused v phs)) s := by
  induction is generalizing phs with
  | nil =>
      cases hphs
      exact (wp_pure _).2 ⟨rfl, fun _ => id, fun _ => rfl⟩
  | cons i is ih =>
      rw [forEach, wp_bind]
      refine wp_turn (fun e he => ?_) (fun hnone => ?_) fun ph hsome => ?_
      · rw [phdrs_error he] at hphs
        cases hphs
      · rw [phdrs_none hnone] at hphs
        exact ih hphs
      · rw [phdrs_some hsome] at hphs
        cases hrest : phdrs v eh is with
        | error e =>
            rw [hrest] at hphs
            cases hphs
        | ok rest =>
            rw [hrest] at hphs
            cases hphs
            refine h.wp_loadSegment (fun hstart => ?_) (fun hstart e => ?_) fun hstart => ?_ <;>
              rw [Refused, hstart]
            · exact ih hrest
            · exact ⟨rfl, by simp, fun hno => absurd trivial hno⟩
            · exact id

end NotReady

end Os161.Vm.Dumbvm

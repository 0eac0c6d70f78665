import Os161.Vm.Loading

set_option autoImplicit false

/-!
# Files that are loaded safely

The condition under which `load_elf` is safe is exact: a file that passes its tests, and for which
there is memory, must make two regions, neither on page 0 nor without pages, or be refused before
anything is stored; and its sizes must not make the sums of `ram_stealmem` overflow.
-/

namespace Os161.Vm.Dumbvm

open Os161.Lib.Calls

variable {ok : Panic → Prop} {s m : Machine} {v : Vnode} {eh eh' : Ehdr} {phs phs' : List Phdr}
  {first last c a : Nat} {as as' bs : Addrspace}

/-- The file has passed its tests, its segments make the regions of `as`, and there is memory. -/
structure Begun (first last : Nat) (s : Machine) (v : Vnode) (eh : Ehdr) (phs : List Phdr)
    (as : Addrspace) : Prop where
  header : readEhdr v = .ok eh
  segments : phdrs v eh (List.range eh.phnum) = .ok phs
  regions : regions blank phs = some as
  granted : Granted first last s.taken as

theorem Begun.unique (h : Begun first last s v eh phs as) (h' : Begun first last s v eh' phs' bs) :
    eh' = eh ∧ phs' = phs ∧ bs = as := by
  obtain rfl : eh' = eh := Except.ok.inj (h'.header.symm.trans h.header)
  obtain rfl : phs' = phs := Except.ok.inj (h'.segments.symm.trans h.segments)
  exact ⟨rfl, rfl, Option.some.inj (h'.regions.symm.trans h.regions)⟩

theorem Begun.harmless_iff (h : Begun first last s v eh phs as) : Harmless first last s v ↔
    NoOverflow (firstpaddr first s.taken) as ∧ (as.TwoRegions ∨ Refused v phs) := by
  constructor
  · intro hharm
    exact hharm eh phs as h.header h.segments h.regions h.granted
  · intro hcond eh' phs' bs h1 h2 h3 h4
    obtain ⟨rfl, rfl, rfl⟩ := h.unique ⟨h1, h2, h3, h4⟩
    exact hcond

/-- The regions have sizes for which nothing wraps around, and no frames. -/
theorem regions_cold (hcold : as.Cold) (hs : as.Sized) (h : regions as phs = some bs) :
    bs.Cold ∧ bs.Sized := by
  induction phs generalizing as with
  | nil =>
      obtain rfl : as = bs := Option.some.inj h
      exact ⟨hcold, hs⟩
  | cons ph phs ih =>
      have hn := regionPages_lt ph.vaddr ph.memsz
      have hv := pageFrame_mod ph.vaddr.toNat
      rw [regions] at h
      split_ifs at h with hone htwo
      · have hcold' : Addrspace.Cold { as with
            vbase1 := pageFrame ph.vaddr.toNat, npages1 := regionPages ph.vaddr ph.memsz } :=
          fun r => by
            rw [← hcold r]
            cases r <;> rfl
        refine ih hcold' (hcold'.sized (fun r => ?_) fun r => ?_) h
        · cases r with
          | one => exact hn
          | two => exact hs.npages .two
          | stack => exact hs.npages .stack
        · cases r with
          | one => exact hv
          | two => exact hs.vbase .two
          | stack => exact hs.vbase .stack
      · have hcold' : Addrspace.Cold { as with
            vbase2 := pageFrame ph.vaddr.toNat, npages2 := regionPages ph.vaddr ph.memsz } :=
          fun r => by
            rw [← hcold r]
            cases r <;> rfl
        refine ih hcold' (hcold'.sized (fun r => ?_) fun r => ?_) h
        · cases r with
          | one => exact hs.npages .one
          | two => exact hn
          | stack => exact hs.npages .stack
        · cases r with
          | one => exact hs.vbase .one
          | two => exact hv
          | stack => exact hs.vbase .stack

/-- Before the second loop: the regions `as` have got frames and are `as'` now. -/
structure Prepared (first last : Nat) (s : Machine) (a : Nat) (as : Addrspace) (m : Machine)
    (as' : Addrspace) : Prop where
  here : m.spaces a = some as'
  cpus : m.cpus = s.cpus
  given : Given first last s.taken as as'
  mem : m.mem = zeroedAll as' s.mem
  sound : NoOverflow (firstpaddr first s.taken) as →
    Inv m ∧ as'.Built ∧ ∀ r pa, as'.Owns r pa → ¬ Taken s.taken pa

/-- The machine after the first loop. -/
def defined (s : Machine) (a : Nat) (as : Addrspace) : Machine :=
  { s with spaces := Function.update s.spaces a (some as) }

theorem Loading.wp_asPrepareLoad (h : Loading first last s c a)
    (has : regions blank phs = some as) :
    wp ok (asPrepareLoad (ramStealmem first last) a) (fun r t =>
      (¬ Granted first last s.taken as ∧ t.mem = s.mem ∧ ∃ e, r = .error e) ∨
      (Granted first last s.taken as ∧ r = .ok () ∧ ∃ as', Prepared first last s a as t as'))
      (defined s a as) := by
  obtain ⟨hcold, hsized⟩ := regions_cold blank_cold blank_sized has
  have here : (defined s a as).spaces a = some as := Function.update_self ..
  have hinv : Inv (defined s a as) := by
    refine h.inv.setCold (fun bs hbs => ?_) hcold hsized le_rfl (h.inv.named a blank h.space)
    obtain rfl : blank = bs := Option.some.inj (h.space.symm.trans hbs)
    exact blank_cold
  have hgiven : wp ok (asPrepareLoad (ramStealmem first last) a) _ _ :=
    wp_asPrepareLoad_given here hcold
  have hsound : wp ok (asPrepareLoad (ramStealmem first last) a) (fun r t =>
      NoOverflow (firstpaddr first s.taken) as → ∃ as', Prepares (defined s a as) a as t as' ∧
        (r = .ok () → as'.Built)) (defined s a as) := by
    by_cases hno : NoOverflow (firstpaddr first s.taken) as
    · refine wp_mono (Dumbvm.wp_asPrepareLoad (h.room.freshRequests hno) hinv here hcold) ?_
      exact fun r t ht _ => ht
    · exact wp_mono hgiven fun r t _ hyes => absurd hyes hno
  refine wp_mono (wp_and hgiven hsound) ?_
  rintro r t ⟨⟨hnot, herr⟩ | ⟨hgrant, rfl, hcpus, as', has', hgiv, hmem⟩, hprep⟩
  · exact .inl ⟨hnot, herr⟩
  · refine .inr ⟨hgrant, rfl, as', has', hcpus, hgiv, hmem, fun hno => ?_⟩
    obtain ⟨bs, hp, hbuilt⟩ := hprep hno
    obtain rfl : as' = bs := Option.some.inj (has'.symm.trans hp.here)
    exact ⟨hp.inv, hbuilt rfl, hp.fresh⟩

/-- What `as_prepare_load` has filled with zeros. -/
def zeroedRegions (as : Addrspace) : List (Nat × Nat) :=
  [(as.pbase1, as.npages1 * pageSize % 2 ^ 32), (as.pbase2, as.npages2 * pageSize % 2 ^ 32),
    (as.stackpbase, stackpages * pageSize % 2 ^ 32)]

/-- `load_elf` fails before anything is written, or comes to the second loop. -/
theorem Loading.wp_loadElf (h : Loading first last s c a) {Q : Except LoadError UInt32 → Loader → Prop}
    (hearly : ∀ e m, m.mem = s.mem → (∀ eh phs as, ¬ Begun first last s v eh phs as) →
      Q (.error e) ⟨m, [], []⟩)
    (hload : ∀ eh phs as m as', Begun first last s v eh phs as → Prepared first last s a as m as' →
      wp ok (eachSegment v eh (loadSegment v c)) (fun r t => Q (r.map fun _ => eh.entry) t)
        ⟨m, zeroedRegions as', []⟩) :
    wp ok (loadElf first last v c a) Q ⟨s, [], []⟩ := by
  rw [loadElf, wp_bind, wp_returning]
  cases heh : readEhdr v with
  | error e =>
      refine hearly e s rfl fun eh phs as hb => ?_
      rw [hb.header] at heh
      cases heh
  | ok eh =>
      rw [then_ok, wp_bind]
      refine wp_define h.space (fun phs as hphs has => ?_) fun e m hmem hno => ?_
      · rw [then_ok, wp_bind, wp_onMachine]
        refine wp_mono (h.wp_asPrepareLoad has) ?_
        rintro r t (⟨hnot, hmem, e, rfl⟩ | ⟨hgrant, rfl, as', hp⟩)
        · refine hearly _ t hmem fun eh' phs' bs hb => hnot ?_
          obtain rfl : eh' = eh := Except.ok.inj (hb.header.symm.trans heh)
          obtain rfl : phs' = phs := Except.ok.inj (hb.segments.symm.trans hphs)
          obtain rfl : bs = as := Option.some.inj (hb.regions.symm.trans has)
          exact hb.granted
        · simp only [Except.mapError, then_ok, wp_bind, noteZeroed, wp_onMachine,
            wp_readSpace hp.here, wp_modify]
          refine wp_mono (hload eh phs as t as' ⟨heh, hphs, has, hgrant⟩ hp) fun r u hu => ?_
          cases r with
          | error e => exact hu
          | ok x => exact (wp_pure _).2 hu
      · refine hearly e m hmem fun eh' phs' bs hb => ?_
        obtain rfl : eh' = eh := Except.ok.inj (hb.header.symm.trans heh)
        have hnone := hno phs' hb.segments
        rw [hb.regions] at hnone
        cases hnone

/-- A call that may not panic, with its weakest precondition. -/
theorem LoadsSafely.of_wp (h : wp (fun _ => False) (loadElf first last v c a) (fun r t =>
    Tidy last s a t ∧ ∀ entry, r = .ok entry → ∃ as, t.machine.spaces a = some as ∧ as.Asserted)
    ⟨s, [], []⟩) : LoadsSafely first last s v c a := h.exists_result

theorem not_loadsSafely {Q : Except LoadError UInt32 → Loader → Prop}
    (h : wp (fun _ => True) (loadElf first last v c a) Q ⟨s, [], []⟩)
    (hQ : ∀ r t, Q r t → Tidy last s a t →
      ¬ ∀ entry, r = .ok entry → ∃ as, t.machine.spaces a = some as ∧ as.Asserted) :
    ¬ LoadsSafely first last s v c a := by
  rintro ⟨r, t, hres, htidy, hassert⟩
  exact hQ r t (h.returns hres) htidy hassert

theorem tidy_nothing : Tidy last s a ⟨m, [], []⟩ := by
  refine ⟨fun va hva => ?_, fun w hw => ?_⟩
  · cases hva
  · cases hw

theorem mem_zeroedRegions {w : Nat × Nat} : w ∈ zeroedRegions as ↔
    ∃ r, w = (as.pbase r, as.npages r * pageSize % 2 ^ 32) := by
  simp only [zeroedRegions, List.mem_cons, List.not_mem_nil, or_false]
  constructor
  · rintro (rfl | rfl | rfl)
    · exact ⟨.one, rfl⟩
    · exact ⟨.two, rfl⟩
    · exact ⟨.stack, rfl⟩
  · rintro ⟨r, rfl⟩
    cases r with
    | one => exact .inl rfl
    | two => exact .inr (.inl rfl)
    | stack => exact .inr (.inr rfl)

/-- All frames of the address space lie in the memory, and were nobody's. -/
theorem Prepared.own (hp : Prepared first last s a as m as') (hr : Roomy first last s.taken)
    (hg : Granted first last s.taken as) (hno : NoOverflow (firstpaddr first s.taken) as) (r : Region)
    (pa : Nat) (ho : as'.Owns r pa) : pa < last ∧ ¬ Taken s.taken pa := by
  obtain ⟨-, -, hfresh⟩ := hp.sound hno
  have hle := hr.below_last hg hp.given hno r
  have hlt := ho.2.2
  rw [(hp.given.bounds r).2] at hlt
  exact ⟨Nat.lt_of_lt_of_le hlt hle, hfresh r pa ho⟩

/-- Before the second loop only frames of the address space have been written. -/
theorem Prepared.tidy (hp : Prepared first last s a as m as') (hr : Roomy first last s.taken)
    (hg : Granted first last s.taken as) (hno : NoOverflow (firstpaddr first s.taken) as) :
    Tidy last s a ⟨m, zeroedRegions as', []⟩ := by
  obtain ⟨hinv, hbuilt, -⟩ := hp.sound hno
  refine ⟨fun va hva => absurd hva List.not_mem_nil, fun w hw pa hle hlt => ?_⟩
  obtain ⟨r, rfl⟩ := mem_zeroedRegions.1 hw
  dsimp only at hle hlt
  rw [(hinv.sized a as' hp.here).bytes] at hlt
  have ho : as'.Owns r pa := ⟨hbuilt r, hle, hlt⟩
  obtain ⟨hlast, hfresh⟩ := hp.own hr hg hno r pa ho
  exact ⟨hlast, hfresh, as', r, hp.here, ho⟩

theorem Prepared.ready_iff (hp : Prepared first last s a as m as')
    (hno : NoOverflow (firstpaddr first s.taken) as) : as'.Ready ↔ as.TwoRegions := by
  obtain ⟨hinv, hbuilt, -⟩ := hp.sound hno
  have hb := hp.given.bounds
  rw [Addrspace.ready_iff (hinv.sized a as' hp.here) hbuilt, (hb .one).1, (hb .one).2, (hb .two).1,
    (hb .two).2]
  rfl

/-- The TLB is empty, since the address space was new. -/
theorem Prepared.lacking (hp : Prepared first last s a as m as') (h : Loading first last s c a)
    (hready : ¬ as'.Ready) : Lacking m c a as' := by
  refine ⟨by rw [hp.cpus]; exact h.cur, hp.here, hready, fun i => ?_⟩
  rw [hp.cpus]
  by_contra hv
  rw [Bool.not_eq_false] at hv
  obtain ⟨bs, hbs, hbsready, -⟩ := h.inv.tlb c a i h.cur hv
  obtain rfl : blank = bs := Option.some.inj (h.space.symm.trans hbs)
  exact blank_cold.not_ready hbsready

/-- Without overflow `load_elf` is safe if there are two regions or the file is refused. -/
theorem Begun.safe (hb : Begun first last s v eh phs as) (h : Loading first last s c a)
    (hno : NoOverflow (firstpaddr first s.taken) as) (hcond : as.TwoRegions ∨ Refused v phs) :
    LoadsSafely first last s v c a := by
  refine .of_wp (h.wp_loadElf (fun e m _ hnot => absurd hb (hnot eh phs as)) ?_)
  intro eh' phs' bs m as' hb' hp
  obtain ⟨rfl, rfl, rfl⟩ := hb.unique hb'
  have htidy := hp.tidy h.room hb.granted hno
  by_cases hready : as'.Ready
  · -- every store goes to a frame of the address space, and the assertions hold
    have hinv := (hp.sound hno).1
    have hwork : Working last s c a as' ⟨m, zeroedRegions as', []⟩ :=
      ⟨hinv, by rw [hp.cpus]; exact h.cur, hp.here, htidy⟩
    have hkept : Kept (fun _ => False) c _ := kept_working c a hready
      (hp.own h.room hb.granted hno)
    refine wp_mono (wp_loadSegments hkept hwork) fun r t ht => ?_
    exact ⟨ht.tidy, fun _ _ => ⟨as', ht.here, hready.asserted (ht.inv.sized a as' ht.here)⟩⟩
  · have hrefused := hcond.resolve_left (mt (hp.ready_iff hno).2 hready)
    refine wp_mono (wp_weaken ((hp.lacking h hready).wp_loadSegments hb.segments)
      fun _ hpanic => hpanic hrefused) ?_
    rintro r t ⟨rfl, hr⟩
    refine ⟨htidy, fun entry hentry => ?_⟩
    cases r with
    | error e => cases hentry
    | ok u => exact absurd hrefused (hr.1 rfl)

/-- Without two regions the first store panics, or the assertions of `vm_fault` do not hold. -/
theorem Begun.not_ready (hb : Begun first last s v eh phs as) (h : Loading first last s c a)
    (hno : NoOverflow (firstpaddr first s.taken) as) (htwo : ¬ as.TwoRegions)
    (hrefused : ¬ Refused v phs) : ¬ LoadsSafely first last s v c a := by
  refine not_loadsSafely (Q := fun r t => ∃ entry as', r = .ok entry ∧
    t.machine.spaces a = some as' ∧ ¬ as'.Ready)
    (h.wp_loadElf (fun e m _ hnot => absurd hb (hnot eh phs as)) ?_) ?_
  · intro eh' phs' bs m as' hb' hp
    obtain ⟨rfl, rfl, rfl⟩ := hb.unique hb'
    have hready : ¬ as'.Ready := mt (hp.ready_iff hno).1 htwo
    refine wp_mono (wp_weaken ((hp.lacking h hready).wp_loadSegments hb.segments)
      fun _ _ => trivial) ?_
    rintro r t ⟨rfl, hr⟩
    rw [hr.2 hrefused]
    exact ⟨_, as', rfl, hp.here, hready⟩
  · rintro r t ⟨entry, as', rfl, has', hready⟩ - hall
    obtain ⟨bs, hbs, hassert⟩ := hall entry rfl
    obtain rfl : as' = bs := Option.some.inj (has'.symm.trans hbs)
    exact hready hassert.1

/-- What holds again after a store to any place, and does not depend on the rest of the machine, is
kept. -/
theorem kept_of_put {I : Loader → Prop}
    (hput : ∀ va b pa t, I t → wp (fun _ => True) (put va b pa) (fun _ u => I u) t)
    (hmachine : ∀ m t, m.mem = t.machine.mem → I t → I { t with machine := m }) :
    Kept (fun _ => True) c I := by
  intro va b t _ ht
  simp only [storeByte, wp_bind, wp_get, then_ok]
  cases (t.machine.cpus c).lookup va.toNat with
  | some pa => exact hput va b pa t ht
  | none =>
      dsimp only
      rw [wp_bind, wp_onMachine]
      refine wp_mono wp_vmFault_mem fun r u hu => ?_
      have hi := hmachine u t hu ht
      cases r with
      | error e => exact hi
      | ok x =>
          simp only [Except.mapError, then_ok, wp_bind, wp_get]
          cases (u.cpus c).lookup va.toNat with
          | some pa => exact hput va b pa _ hi
          | none => exact (wp_throw _).2 hi

theorem kept_written (w : Nat × Nat) : Kept (fun _ => True) c fun t => w ∈ t.written :=
  kept_of_put (fun _ _ _ _ ht => wp_put.2 (List.mem_cons_of_mem _ ht)) fun _ _ _ ht => ht

/-- Whatever the record of the writes leaves out has not been written. -/
def Recorded (s : Machine) (t : Loader) : Prop :=
  ∀ pa, (∀ w ∈ t.written, ¬ (w.1 ≤ pa ∧ pa < w.1 + w.2)) → t.machine.mem pa = s.mem pa

theorem kept_recorded : Kept (fun _ => True) c (Recorded s) := by
  refine kept_of_put (fun va b pa t ht => wp_put.2 fun p hp => ?_) fun m t hm ht pa hpa => ?_
  · have hne : p ≠ pa := by
      rintro rfl
      exact hp _ List.mem_cons_self ⟨Nat.le_refl p, Nat.lt_succ_self p⟩
    refine (Function.update_of_ne hne _ _).trans (ht p fun w hw => ?_)
    exact hp w (List.mem_cons_of_mem _ hw)
  · exact (congrFun hm pa).trans (ht pa hpa)

/-- `load_elf` records all its writes. -/
theorem loadElf_recorded (h : Loading first last s c a) :
    wp (fun _ => True) (loadElf first last v c a) (fun _ t => Recorded s t) ⟨s, [], []⟩ := by
  refine h.wp_loadElf (fun e m hm _ pa _ => congrFun hm pa) fun eh phs as m as' _ hp => ?_
  refine wp_mono (wp_loadSegments kept_recorded ?_) fun _ _ ht => ht
  intro pa hpa
  have hout : ∀ r, ¬ (as'.pbase r ≤ pa ∧ pa < as'.pbase r + as'.npages r * pageSize % 2 ^ 32) :=
    fun r => hpa _ (mem_zeroedRegions.2 ⟨r, rfl⟩)
  dsimp only
  rw [hp.mem, zeroedAll]
  exact (if_neg (hout .stack)).trans ((if_neg (hout .two)).trans (if_neg (hout .one)))

/-- When a sum of `ram_stealmem` overflows, zeros are written behind the end of the memory. -/
theorem Begun.overflow (hb : Begun first last s v eh phs as) (h : Loading first last s c a)
    (hover : ¬ NoOverflow (firstpaddr first s.taken) as) : ¬ LoadsSafely first last s v c a := by
  have hsized := (regions_cold blank_cold blank_sized hb.regions).2
  refine not_loadsSafely (Q := fun _ t => ∃ w ∈ t.written, w.1 ≤ last ∧ last < w.1 + w.2)
    (h.wp_loadElf (fun e m _ hnot => absurd hb (hnot eh phs as)) ?_) ?_
  · intro eh' phs' bs m as' hb' hp
    obtain ⟨rfl, rfl, rfl⟩ := hb.unique hb'
    obtain ⟨r, hle, hlt⟩ : ∃ r, as'.pbase r ≤ last ∧ last < as'.pbase r + bs.npages r * pageSize := by
      rcases h.room.overflows hb.granted hp.given hover with hone | htwo
      · exact ⟨.one, hone⟩
      · exact ⟨.two, htwo⟩
    rw [← hsized.bytes, ← (hp.given.bounds r).2] at hlt
    have hmem : (as'.pbase r, as'.npages r * pageSize % 2 ^ 32) ∈ zeroedRegions as' :=
      mem_zeroedRegions.2 ⟨r, rfl⟩
    refine wp_mono (wp_loadSegments (kept_written _) hmem) fun _ t ht => ?_
    exact ⟨_, ht, hle, hlt⟩
  · rintro r t ⟨w, hw, hle, hlt⟩ htidy -
    exact Nat.lt_irrefl last (htidy.own w hw last hle hlt).1

/-! ## Two executables -/

/-- A file of these bytes. -/
def fileOf (bytes : List UInt8) : Vnode where
  read offset resid := ([(bytes.drop offset).take resid], none)
  fits offset resid := by
    rw [List.flatten_singleton]
    exact List.length_take_le _ _

/-- A word of 32 bits, as the machine stores it. -/
def be32 (n : UInt32) : List UInt8 :=
  [.ofNat (n.toNat / 2 ^ 24), .ofNat (n.toNat / 2 ^ 16), .ofNat (n.toNat / 2 ^ 8), .ofNat n.toNat]

/-- The header of an executable with `phnum` program headers, which follow it. -/
def ehdrBytes (phnum : UInt8) : List UInt8 :=
  goodIdent ++ List.replicate 9 0 ++ [0, 2, 0, 8] ++ be32 1 ++ be32 0x400000 ++ be32 52 ++
    List.replicate 10 0 ++ [0, 32, 0, phnum] ++ List.replicate 6 0

/-- A segment to be loaded. -/
def phdrBytes (offset vaddr filesz memsz : UInt32) : List UInt8 :=
  be32 1 ++ be32 offset ++ be32 vaddr ++ be32 0 ++ be32 filesz ++ be32 memsz ++ be32 0 ++ be32 0

/-- Code of four bytes and data without any. -/
def twoSegments : Vnode :=
  fileOf (ehdrBytes 2 ++ phdrBytes 116 0x400000 4 4 ++ phdrBytes 120 0x10000000 0 16 ++ be32 8)

/-- Code, and no data. -/
def oneSegment : Vnode :=
  fileOf (ehdrBytes 1 ++ phdrBytes 84 0x400000 4 4 ++ be32 8)

/-- A process with a new address space runs. -/
def started : Machine := after (switchTo 0 (some 0)) (after (asCreate true) empty)

theorem loading_started : Loading 8192 (2 ^ 22) started 0 0 where
  inv := by
    have hb : Boot empty := ⟨fun _ => rfl, fun _ => rfl⟩
    have hcreated : wp (fun _ => False) (asCreate true)
        (fun _ t => Inv t ∧ view t = view empty) empty := inv_asCreate hb.inv true
    have hinv : Inv (after (asCreate true) empty) := (hcreated.returns rfl).1
    have hswitched : wp (fun _ => False) (switchTo 0 (some 0))
        (fun _ t => Inv t ∧ view t = view (after (asCreate true) empty))
        (after (asCreate true) empty) := inv_switchTo hinv (by rintro a ⟨⟩; rfl)
    exact (hswitched.returns rfl).1
  cur := rfl
  space := rfl
  room := ⟨by decide, by decide, by decide, by decide, nofun⟩

theorem harmless_twoSegments : Harmless 8192 (2 ^ 22) started twoSegments := by
  intro eh phs as heh hphs has _
  have h1 : readEhdr twoSegments = .ok (ehdrOf (ehdrBytes 2)) := by rfl
  obtain rfl := Except.ok.inj (h1.symm.trans heh)
  have h2 : phdrs twoSegments (ehdrOf (ehdrBytes 2)) (List.range (ehdrOf (ehdrBytes 2)).phnum) =
      .ok [⟨1, 116, 0x400000, 4, 4⟩, ⟨1, 120, 0x10000000, 0, 16⟩] := by rfl
  obtain rfl := Except.ok.inj (h2.symm.trans hphs)
  have h3 : regions blank [⟨1, 116, 0x400000, 4, 4⟩, ⟨1, 120, 0x10000000, 0, 16⟩] =
      some { blank with vbase1 := 0x400000, npages1 := 1, vbase2 := 0x10000000, npages2 := 1 } := by
    decide +kernel
  obtain rfl := Option.some.inj (h3.symm.trans has)
  exact ⟨⟨by decide, by decide⟩, .inl ⟨by decide, by decide, by decide, by decide⟩⟩

/-! ## The condition is exact -/

/-- `load_elf` is safe for exactly the harmless files. -/
theorem loadElf_safe_iff (h : Loading first last s c a) :
    LoadsSafely first last s v c a ↔ Harmless first last s v := by
  by_cases hbegun : ∃ eh phs as, Begun first last s v eh phs as
  · obtain ⟨eh, phs, as, hb⟩ := hbegun
    rw [hb.harmless_iff]
    constructor
    · intro hsafe
      have hno : NoOverflow (firstpaddr first s.taken) as := by
        by_contra hover
        exact hb.overflow h hover hsafe
      refine ⟨hno, ?_⟩
      by_contra hcond
      rw [not_or] at hcond
      exact hb.not_ready h hno hcond.1 hcond.2 hsafe
    · rintro ⟨hno, hcond⟩
      exact hb.safe h hno hcond
  · -- the file is refused, or there is no memory, before anything is written
    have hnot : ∀ eh phs as, ¬ Begun first last s v eh phs as :=
      fun eh phs as hb => hbegun ⟨eh, phs, as, hb⟩
    constructor
    · intro _ eh phs as h1 h2 h3 h4
      exact absurd ⟨h1, h2, h3, h4⟩ (hnot eh phs as)
    · intro _
      refine .of_wp (h.wp_loadElf (fun e m _ _ => ⟨tidy_nothing, nofun⟩) ?_)
      intro eh phs as m as' hb
      exact absurd hb (hnot eh phs as)

theorem loadElf_safe_iff_two : LoadsSafely 8192 (2 ^ 22) started twoSegments 0 0 :=
  (loadElf_safe_iff loading_started).2 harmless_twoSegments

/-- An executable without data: the first store of its code is a fault, for which `vm_fault` asserts
that there is a second region. -/
theorem loadElf_panics : ¬ LoadsSafely 8192 (2 ^ 22) started oneSegment 0 0 := by
  rintro ⟨r, t, hres, -⟩
  have hpanic : (loadElf 8192 (2 ^ 22) oneSegment 0 0).result ⟨started, [], []⟩ =
      .error .kassert := by rfl
  rw [hpanic] at hres
  cases hres

end Os161.Vm.Dumbvm

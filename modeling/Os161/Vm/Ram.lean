import Os161.Vm.Histories

set_option autoImplicit false

/-!
# Memory for the heap

`ram_bootstrap` and `ram_stealmem` of `kern/arch/mips/vm/ram.c`, and `alloc_kpages` and `free_kpages`
of `dumbvm.c`, under the heap of any number of threads: pages come from `firstpaddr` on and do not
come back, and other code takes pages with `getppages`. When `alloc_kpages` fails, what the thread
does next belongs to the same step.

The sum of `firstpaddr` and a size is computed with 32 bits. While it does not overflow, with the size
that was asked for, `kmalloc` gives no block that is too short, outside the memory or on a live one.
-/

namespace Os161.Vm.Kmalloc

open Os161.Lib.Runs

/-! ## `ram.c` -/

/-- `MIPS_KSEG0`. -/
def kseg0 : Nat := 0x80000000

/-- `firstpaddr` and `lastpaddr`. -/
structure Ram where
  firstpaddr : Nat
  lastpaddr : Nat
  deriving DecidableEq, Repr

/-- `ram_bootstrap`. -/
def ramBootstrap (ramsize firstfree : Nat) : Ram where
  firstpaddr := (firstfree + 2 ^ 32 - kseg0) % 2 ^ 32
  lastpaddr := if 512 * 1024 * 1024 < ramsize then 512 * 1024 * 1024 else ramsize

/-- `ram_stealmem`. -/
def ramStealmem (ram : Ram) (npages : Nat) : Nat × Ram :=
  let size := npages * pageSize % 2 ^ 32
  if ram.lastpaddr < (ram.firstpaddr + size) % 2 ^ 32 then (0, ram)
  else (ram.firstpaddr, { ram with firstpaddr := (ram.firstpaddr + size) % 2 ^ 32 })

/-- `alloc_kpages`. -/
def Ram.allocKpages (ram : Ram) (npages : Nat) : Nat × Ram :=
  let stolen := ramStealmem ram npages
  if stolen.1 = 0 then (0, stolen.2) else ((stolen.1 + kseg0) % 2 ^ 32, stolen.2)

/-! ## The kernel -/

/-- The code behind a call of `alloc_kpages` that has returned `0`, to the next call or to the end. -/
def outOfMemory (h : Heap) : Point → Option (Except Panic After)
  | .getBig _ => some (.ok { heap := h, point := .out })
  | .getPage _ => some (.ok { heap := h, point := .out })
  | .getRoot sz prpage r k =>
      match (h.kheaproots r).page with
      | none => some (.ok { heap := h, point := .dropPage prpage })
      | some page => some (useNewPage h sz prpage (refAddr page k))
  | _ => none

/-- The heap and the memory under it. -/
structure Kernel (τ : Type) where
  kheap : State τ
  ram : Ram

/-- After `ram_bootstrap`. -/
def Kernel.boot (τ : Type) (ramsize firstfree : Nat) : Kernel τ where
  kheap := Kmalloc.boot τ
  ram := ramBootstrap ramsize firstfree

/-- What happens next. -/
inductive Event (τ : Type) where
  /-- A thread goes on. -/
  | thread (t : τ)
  /-- Pages are taken for something else. -/
  | getppages (npages : Nat)

section Steps

variable {τ : Type} [DecidableEq τ]

/-- One step. `free_kpages` leaks the memory. -/
inductive Kernel.Step (s : Kernel τ) : Event τ → Kernel τ → Prop where
  | run {t : τ} {k : State τ} : (s.kheap.pcs t).wants = none → Kmalloc.Step s.kheap t k →
      Step s (.thread t) { s with kheap := k }
  | allocKpages {t : τ} {n : Nat} {q : Nat → Point} {a : Nat} {ram : Ram} :
      (s.kheap.pcs t).wants = some (n, q) → s.ram.allocKpages n = (a, ram) → a ≠ 0 →
      Step s (.thread t)
        { kheap := { s.kheap with pages := Function.update s.kheap.pages a (some n)
                                  pcs := Function.update s.kheap.pcs t (q a) }
          ram := ram }
  | outOfMemory {t : τ} {n : Nat} {q : Nat → Point} {ram : Ram} {r : After} :
      (s.kheap.pcs t).wants = some (n, q) → s.ram.allocKpages n = (0, ram) →
      outOfMemory s.kheap.heap (s.kheap.pcs t) = some (.ok r) →
      Step s (.thread t)
        { kheap := { s.kheap with heap := r.heap, live := r.blocks s.kheap.live
                                  pcs := Function.update s.kheap.pcs t r.point }
          ram := ram }
  | getppages {n pa : Nat} {ram : Ram} : ramStealmem s.ram n = (pa, ram) →
      Step s (.getppages n) { s with ram := ram }

end Steps

/-! ## What is promised -/

section Promises

variable {τ : Type}

/-- What `start.S` leaves: the kernel ends with a page, in the memory. -/
structure Boots (ramsize firstfree : Nat) : Prop where
  aligned : firstfree % pageSize = 0
  kernel : kseg0 < firstfree
  fits : firstfree ≤ kseg0 + (ramBootstrap ramsize firstfree).lastpaddr

/-- `kmalloc(sz)` returns `ptr` when the thread goes on. -/
def Kernel.Returns (s : Kernel τ) (t : τ) (ptr sz : Nat) : Prop :=
  ∃ r : After, r.returned = some (ptr, sz) ∧
    ((∃ fuel, critical fuel s.kheap.heap (s.kheap.pcs t) = some (.ok r)) ∨
      ∃ n q ram, (s.kheap.pcs t).wants = some (n, q) ∧ s.ram.allocKpages n = (0, ram) ∧
        outOfMemory s.kheap.heap (s.kheap.pcs t) = some (.ok r))

/-- The block is long enough, in the memory behind the kernel, and on no live block. -/
structure Kernel.Serves (s : Kernel τ) (firstfree ptr sz : Nat) : Prop where
  room : sz ≤ extent sz
  behind : firstfree ≤ ptr
  memory : ptr + extent sz ≤ kseg0 + s.ram.lastpaddr
  apart : ∀ b m, s.kheap.live b = some m → Apart ptr (extent sz) b (extent m)

/-- Every block that is returned serves the request, and the live blocks stay apart. -/
structure Kernel.Sound (s : Kernel τ) (firstfree : Nat) : Prop where
  returns : ∀ t ptr sz, s.Returns t ptr sz → s.Serves firstfree ptr sz
  room : ∀ a sz, s.kheap.live a = some sz → sz ≤ extent sz
  apart : ∀ a sz b m, s.kheap.live a = some sz → s.kheap.live b = some m → a ≠ b →
    Apart a (extent sz) b (extent m)

/-- The bytes of the pages for `sz` bytes; nothing overflows here. -/
def roundup (sz : Nat) : Nat := (sz + pageSize - 1) / pageSize * pageSize

/-- The end of the pages that are asked for is below `2 ^ 32`. -/
def Meets (s : Kernel τ) : Event τ → Prop
  | .thread t => ∀ sz, s.kheap.pcs t = .getBig sz → s.ram.firstpaddr + roundup sz < 2 ^ 32
  | .getppages n => s.ram.firstpaddr + n * pageSize < 2 ^ 32

/-- What `alloc_kpages` gives for a block of its own pages is `NULL`, or it is enough memory. -/
def Kernel.Grants (s : Kernel τ) (sz : Nat) : Prop :=
  (s.ram.allocKpages (npages sz)).1 = 0 ∨
    sz ≤ extent sz ∧ (s.ram.allocKpages (npages sz)).1 + extent sz ≤ kseg0 + s.ram.lastpaddr

end Promises

/-! ## Taking pages -/

section Ram

variable {ram : Ram} {n sz : Nat}

theorem pageSize_eq : pageSize = 4096 := rfl

theorem kseg0_eq : kseg0 = 2147483648 := rfl

/-- Without an overflow the pages are behind one another. -/
theorem ramStealmem_eq (h : ram.firstpaddr + n * pageSize < 2 ^ 32) :
    ramStealmem ram n =
      if ram.lastpaddr < ram.firstpaddr + n * pageSize then (0, ram)
      else (ram.firstpaddr, { ram with firstpaddr := ram.firstpaddr + n * pageSize }) := by
  have hsize : n * pageSize % 2 ^ 32 = n * pageSize :=
    Nat.mod_eq_of_lt (Nat.lt_of_le_of_lt (Nat.le_add_left _ _) h)
  rw [ramStealmem, hsize, Nat.mod_eq_of_lt h]

/-- A request for which the sum does not overflow is for as many pages as it needs. -/
theorem npages_of_roundup (h : roundup sz < 2 ^ 32) :
    sz + pageSize ≤ 2 ^ 32 ∧ npages sz * pageSize = roundup sz := by
  rw [roundup, pageSize_eq] at *
  have hsz : sz + 4096 - 1 < 2 ^ 32 := by omega
  rw [npages, pageSize_eq, Nat.mod_eq_of_lt hsz]
  omega

theorem roundup_of_le (h : sz + pageSize ≤ 2 ^ 32) : npages sz * pageSize = roundup sz := by
  rw [pageSize_eq] at h
  rw [roundup, npages, pageSize_eq, Nat.mod_eq_of_lt (by omega)]

/-- `PADDR_TO_KVADDR`. -/
theorem kvaddr_eq {pa : Nat} (h : pa ≤ 2 ^ 29) : (pa + kseg0) % 2 ^ 32 = kseg0 + pa := by
  rw [kseg0_eq, Nat.mod_eq_of_lt (by omega), Nat.add_comm]

end Ram

/-! ## The invariant -/

section Invariant

variable {τ : Type} {s : Kernel τ} {firstfree n sz : Nat} {t : τ} {q : Nat → Point}

/-- The pages of the heap are between the end of the kernel and `firstpaddr`. -/
structure Kernel.Backed (s : Kernel τ) (firstfree : Nat) : Prop where
  good : ∃ all, Good s.kheap all
  kernel : kseg0 < firstfree
  aligned : s.ram.firstpaddr % pageSize = 0
  low : firstfree ≤ kseg0 + s.ram.firstpaddr
  high : s.ram.firstpaddr ≤ s.ram.lastpaddr
  last : s.ram.lastpaddr ≤ 2 ^ 29
  pages : ∀ a n, s.kheap.pages a = some n →
    firstfree ≤ a ∧ a + pageSpan n ≤ kseg0 + s.ram.firstpaddr
  big : ∀ t sz a, s.kheap.pcs t = .gotBig sz a → sz + pageSize ≤ 2 ^ 32
  live : ∀ a sz, s.kheap.live a = some sz → sz + pageSize ≤ 2 ^ 32

theorem Kernel.backed_boot {ramsize : Nat} (h : Boots ramsize firstfree) :
    (Kernel.boot τ ramsize firstfree).Backed firstfree := by
  obtain ⟨haligned, hkernel, hfits⟩ := h
  have hlast : (ramBootstrap ramsize firstfree).lastpaddr ≤ 2 ^ 29 := by
    rw [ramBootstrap]
    dsimp only
    split <;> omega
  have hfirst : (ramBootstrap ramsize firstfree).firstpaddr + kseg0 = firstfree := by
    rw [kseg0_eq] at *
    show (firstfree + 2 ^ 32 - kseg0) % 2 ^ 32 + _ = _
    rw [kseg0_eq]
    omega
  refine ⟨⟨[], good_boot⟩, hkernel, ?_, ?_, ?_, hlast, nofun, nofun, nofun⟩
  · show (ramBootstrap ramsize firstfree).firstpaddr % pageSize = 0
    rw [kseg0_eq, pageSize_eq] at *
    omega
  · exact Nat.le_of_eq (by rw [Nat.add_comm]; exact hfirst.symm)
  · show (ramBootstrap ramsize firstfree).firstpaddr ≤ (ramBootstrap ramsize firstfree).lastpaddr
    omega

/-- The pages that a thread waits for do not make the sum overflow. -/
theorem Kernel.Backed.wants (hs : s.Backed firstfree) (hwants : (s.kheap.pcs t).wants = some (n, q))
    (hmeets : Meets s (.thread t)) : 1 ≤ n ∧ s.ram.firstpaddr + n * pageSize < 2 ^ 32 := by
  obtain ⟨all, hgood⟩ := hs.good
  have hk := hgood.knows t
  have hhigh := hs.high
  have hlast := hs.last
  cases hp : s.kheap.pcs t with
  | getBig sz =>
      rw [hp] at hwants hk
      cases hwants
      have hsum := hmeets sz hp
      obtain ⟨hsz, hround⟩ := npages_of_roundup (Nat.lt_of_le_of_lt (Nat.le_add_left _ _) hsum)
      refine ⟨?_, by rwa [hround]⟩
      have hbig : largestSubpageSize ≤ sz := hk
      rw [npages, pageSize_eq] at *
      rw [largestSubpageSize] at hbig
      omega
  | getPage sz =>
      rw [hp] at hwants
      cases hwants
      rw [pageSize_eq]
      omega
  | getRoot sz prpage r k =>
      rw [hp] at hwants
      cases hwants
      rw [pageSize_eq]
      omega
  | _ =>
      rw [hp] at hwants
      cases hwants

/-- What `ram_stealmem` does while the sum does not overflow. -/
theorem ramStealmem_cases {pa : Nat} {ram ram' : Ram}
    (hsum : ram.firstpaddr + n * pageSize < 2 ^ 32) (hrun : ramStealmem ram n = (pa, ram')) :
    (pa = 0 ∧ ram' = ram) ∨
      (pa = ram.firstpaddr ∧ ram' = { ram with firstpaddr := ram.firstpaddr + n * pageSize } ∧
        ram.firstpaddr + n * pageSize ≤ ram.lastpaddr) := by
  rw [ramStealmem_eq hsum] at hrun
  split at hrun
  · cases hrun
    exact .inl ⟨rfl, rfl⟩
  · rename_i hle
    cases hrun
    exact .inr ⟨rfl, rfl, Nat.not_lt.1 hle⟩

/-- What `alloc_kpages` does while the sum does not overflow. -/
theorem Kernel.Backed.allocKpages {a : Nat} {ram : Ram} (hs : s.Backed firstfree)
    (hsum : s.ram.firstpaddr + n * pageSize < 2 ^ 32) (hrun : s.ram.allocKpages n = (a, ram)) :
    (a = 0 ∧ ram = s.ram) ∨
      (a = kseg0 + s.ram.firstpaddr ∧
        ram = { s.ram with firstpaddr := s.ram.firstpaddr + n * pageSize } ∧
        s.ram.firstpaddr + n * pageSize ≤ s.ram.lastpaddr) := by
  have hkernel := hs.kernel
  have hlow := hs.low
  have hhigh := hs.high
  have hlast := hs.last
  rw [Ram.allocKpages] at hrun
  cases hsteal : ramStealmem s.ram n with
  | mk pa stolen =>
      rw [hsteal] at hrun
      dsimp only at hrun
      rcases ramStealmem_cases hsum hsteal with ⟨rfl, rfl⟩ | ⟨rfl, rfl, hle⟩
      · rw [if_pos rfl] at hrun
        cases hrun
        exact .inl ⟨rfl, rfl⟩
      · have hne : s.ram.firstpaddr ≠ 0 := by omega
        rw [if_neg hne, kvaddr_eq (Nat.le_trans hhigh hlast)] at hrun
        cases hrun
        exact .inr ⟨rfl, rfl, hle⟩

end Invariant

/-! ## The steps -/

section Steps

variable {τ : Type} [DecidableEq τ] {s : Kernel τ} {firstfree n sz a : Nat} {t : τ}
  {all : List Nat}

/-- A block is live after a part of the code if it was before, or if it is returned. -/
theorem blocks_cases {r : After} {live : Nat → Option Nat} {b m : Nat}
    (h : r.blocks live b = some m) : live b = some m ∨ r.returned = some (b, m) := by
  have htaken : ∀ {ptr : Nat}, Function.update live ptr none b = some m → live b = some m := by
    intro ptr hb
    by_cases hptr : b = ptr
    · rw [hptr, Function.update_self] at hb
      cases hb
    · rwa [Function.update_of_ne hptr] at hb
  have hold : ∀ l : Nat → Option Nat, (l b = some m → live b = some m) →
      ({ r with taken := none } : After).blocks l b = some m →
      live b = some m ∨ r.returned = some (b, m) := by
    intro l hl hb
    rw [After.blocks] at hb
    cases hret : r.returned with
    | none =>
        rw [hret] at hb
        exact .inl (hl hb)
    | some ret =>
        rw [hret] at hb
        by_cases hptr : b = ret.1
        · refine .inr ?_
          subst hptr
          dsimp only at hb
          rw [Function.update_self] at hb
          cases hb
          rfl
        · dsimp only at hb
          rw [Function.update_of_ne hptr] at hb
          exact .inl (hl hb)
  rw [After.blocks] at h
  cases htake : r.taken with
  | none =>
      rw [htake] at h
      exact hold _ id h
  | some ptr =>
      rw [htake] at h
      exact hold _ htaken h

/-- A thread that has given pages back has not got a block of its own pages. -/
theorem frees_ne_gotBig {p k : Point} (h : p.frees = some (a, k)) (m b : Nat) : k ≠ .gotBig m b := by
  cases p <;> cases h <;> nofun

/-- Where the other threads are, and that one is not about to return a block of its own pages. -/
theorem gotBig_update {pcs : τ → Point} {p : Point} (hp : ∀ m b, p ≠ .gotBig m b) {u : τ}
    (h : Function.update pcs t p u = .gotBig sz a) : pcs u = .gotBig sz a := by
  by_cases hu : u = t
  · rw [hu, Function.update_self] at h
    exact absurd h (hp sz a)
  · rwa [Function.update_of_ne hu] at h

/-- The sizes in the heap are below the limit: blocks that are on their way, and live ones. -/
structure Bounded (k : State τ) : Prop where
  big : ∀ u m b, k.pcs u = .gotBig m b → m + pageSize ≤ 2 ^ 32
  live : ∀ b m, k.live b = some m → m + pageSize ≤ 2 ^ 32

theorem Bounded.after {k : State τ} {r : After} (hk : Bounded k) (hr : r.Fits k t) :
    Bounded { k with heap := r.heap, live := r.blocks k.live
                     pcs := Function.update k.pcs t r.point } where
  big u m b h := hk.big u m b (gotBig_update hr.point h)
  live b m h := by
    rcases blocks_cases h with hlive | hret
    · exact hk.live b m hlive
    · rcases hr.size b m hret with hsmall | hbig
      · rw [largestSubpageSize] at hsmall
        rw [pageSize_eq]
        omega
      · exact hk.big t m b hbig

/-- The step of a thread that does not wait for pages. -/
theorem Bounded.run {k k' : State τ} (hk : Bounded k) (hgood : Good k all)
    (hwants : (k.pcs t).wants = none) (hstep : Step k t k') :
    Bounded k' ∧ ∀ b m, k'.pages b = some m → k.pages b = some m := by
  cases hstep with
  | callKmalloc hpc hsz =>
      exact ⟨⟨fun u m b h => hk.big u m b (gotBig_update (by nofun) h), hk.live⟩, fun _ _ h => h⟩
  | callKfree hpc hlive hother =>
      exact ⟨⟨fun u m b h => hk.big u m b (gotBig_update (by nofun) h), hk.live⟩, fun _ _ h => h⟩
  | critical hq => exact ⟨hk.after (good_of_critical hgood hq).1, fun _ _ h => h⟩
  | allocKpages hsome hfresh =>
      rw [hwants] at hsome
      cases hsome
  | @freeKpages c k hfrees =>
      refine ⟨⟨fun u m b h => hk.big u m b (gotBig_update (frees_ne_gotBig hfrees) h), hk.live⟩, ?_⟩
      intro b m h
      dsimp only at h
      by_cases hb : b = c
      · rw [hb, Function.update_self] at h
        cases h
      · rwa [Function.update_of_ne hb] at h
  | write hpc hlive hmem => exact ⟨⟨hk.big, hk.live⟩, fun _ _ h => h⟩

/-- What the code does when `alloc_kpages` has failed. -/
theorem Good.outOfMemory {k : State τ} {r : After} (hgood : Good k all)
    (hr : outOfMemory k.heap (k.pcs t) = some (.ok r)) :
    r.Fits k t ∧ ∃ all', Good { k with heap := r.heap, live := r.blocks k.live
                                       pcs := Function.update k.pcs t r.point } all' := by
  have hknows := hgood.knows t
  cases hp : k.pcs t with
  | getBig sz =>
      rw [hp] at hr
      cases hr
      exact ⟨After.fits_none rfl nofun, all, hgood.repoint nofun nofun nofun trivial nofun⟩
  | getPage sz =>
      rw [hp] at hr
      cases hr
      exact ⟨After.fits_none rfl nofun, all, hgood.repoint nofun nofun nofun trivial nofun⟩
  | getRoot sz prpage r' j =>
      rw [hp] at hr hknows
      rw [Kmalloc.outOfMemory] at hr
      cases hpage : (k.heap.kheaproots r').page with
      | none =>
          -- the bit of `pagerefs_inuse` stays set, and nobody has it
          rw [hpage] at hr
          cases hr
          refine ⟨After.fits_none rfl nofun, all, hgood.repoint (fun a ha => ?_) nofun nofun trivial nofun⟩
          rw [hp]
          exact ha
      | some page =>
          rw [hpage] at hr
          have hdropped : Good { k with
              pcs := Function.update k.pcs t (.droppedRoot sz prpage r' j) } all := by
            refine hgood.repoint (fun a ha => ?_) nofun (fun c hc => ?_) ⟨hknows, by simp [hpage]⟩ nofun
            · rw [hp]
              exact ha
            · rw [hp]
              exact hc
          obtain ⟨q, hrun, hfits, hgood'⟩ :=
            hdropped.useNewPage (t := t) (Function.update_self ..) hpage
          simp only [Function.update_idem] at hgood'
          have hq : r = q := by
            have := hrun.symm.trans (Option.some.inj hr)
            cases this
            rfl
          subst hq
          exact ⟨hfits.from_new rfl (Function.update_self ..), _, hgood'⟩
  | _ =>
      rw [hp] at hr
      cases hr

/-- Where a thread that has got a block of its own pages has waited. -/
theorem eq_getBig_of_wants {p : Point} {q : Nat → Point} {m b : Nat} (hwants : p.wants = some (n, q))
    (hq : q a = .gotBig m b) : p = .getBig m := by
  cases p <;> cases hwants <;> cases hq
  rfl

omit [DecidableEq τ] in
/-- The bounds of the pages stay when `firstpaddr` moves up. -/
theorem Kernel.Backed.advance {k : State τ} {m : Nat} (hs : s.Backed firstfree)
    (hgood : ∃ all, Good k all) (hbounded : Bounded k)
    (hle : s.ram.firstpaddr + m * pageSize ≤ s.ram.lastpaddr)
    (hpages : ∀ a n, k.pages a = some n →
      firstfree ≤ a ∧ a + pageSpan n ≤ kseg0 + (s.ram.firstpaddr + m * pageSize)) :
    Kernel.Backed { kheap := k, ram := { s.ram with firstpaddr := s.ram.firstpaddr + m * pageSize } }
      firstfree where
  good := hgood
  kernel := hs.kernel
  aligned := by
    have haligned := hs.aligned
    show (s.ram.firstpaddr + m * pageSize) % pageSize = 0
    rw [Nat.add_mul_mod_self_right, haligned]
  low := Nat.le_trans hs.low (Nat.add_le_add_left (Nat.le_add_right _ _) _)
  high := hle
  last := hs.last
  pages := hpages
  big := hbounded.big
  live := hbounded.live

omit [DecidableEq τ] in
/-- The heap has changed, and has no new pages. -/
theorem Kernel.Backed.keep {k : State τ} (hs : s.Backed firstfree) (hgood : ∃ all, Good k all)
    (hbounded : Bounded k) (hpages : ∀ a n, k.pages a = some n → s.kheap.pages a = some n) :
    Kernel.Backed { s with kheap := k } firstfree where
  good := hgood
  kernel := hs.kernel
  aligned := hs.aligned
  low := hs.low
  high := hs.high
  last := hs.last
  pages a n h := hs.pages a n (hpages a n h)
  big := hbounded.big
  live := hbounded.live

omit [DecidableEq τ] in
theorem Kernel.Backed.bounded (hs : s.Backed firstfree) : Bounded s.kheap := ⟨hs.big, hs.live⟩

omit [DecidableEq τ] in
/-- `alloc_kpages` gives new pages. -/
theorem Kernel.Backed.fresh (hs : s.Backed firstfree) (n : Nat) :
    Fresh s.kheap.pages (kseg0 + s.ram.firstpaddr) n where
  aligned := by
    have haligned := hs.aligned
    rw [pageSize_eq, kseg0_eq] at *
    omega
  nonzero := by
    rw [kseg0_eq]
    omega
  apart b m hb := .inr (hs.pages b m hb).2

theorem Kernel.Backed.step {e : Event τ} {s' : Kernel τ} (hs : s.Backed firstfree)
    (hmeets : Meets s e) (hstep : s.Step e s') : s'.Backed firstfree := by
  obtain ⟨all, hgood⟩ := hs.good
  cases hstep with
  | run hwants hrun =>
      obtain ⟨hbounded, hpages⟩ := hs.bounded.run hgood hwants hrun
      exact hs.keep (hgood.step hrun) hbounded hpages
  | @allocKpages t n q a ram hwants halloc hne =>
      obtain ⟨hpos, hsum⟩ := hs.wants hwants hmeets
      rcases hs.allocKpages hsum halloc with ⟨hzero, -⟩ | ⟨rfl, rfl, hle⟩
      · exact absurd hzero hne
      · refine hs.advance ⟨all, hgood.allocKpages hwants (hs.fresh n)⟩ ⟨fun u m b h => ?_, hs.live⟩ hle
          fun b m hb => ?_
        · by_cases hu : u = t
          · -- the thread has come from `getBig`
            subst hu
            dsimp only at h
            rw [Function.update_self] at h
            have hsum := hmeets m (eq_getBig_of_wants hwants h)
            exact (npages_of_roundup (Nat.lt_of_le_of_lt (Nat.le_add_left _ _) hsum)).1
          · exact hs.big u m b ((Function.update_of_ne hu _ _).symm.trans h)
        · dsimp only at hb
          by_cases hb' : b = kseg0 + s.ram.firstpaddr
          · subst hb'
            rw [Function.update_self] at hb
            cases hb
            have hlow := hs.low
            rw [pageSpan, Nat.max_eq_left hpos]
            omega
          · rw [Function.update_of_ne hb'] at hb
            obtain ⟨hlow, hhigh⟩ := hs.pages b m hb
            omega
  | @outOfMemory t n q ram r hwants halloc hr =>
      obtain ⟨-, hsum⟩ := hs.wants hwants hmeets
      rcases hs.allocKpages hsum halloc with ⟨-, rfl⟩ | ⟨hzero, -⟩
      · obtain ⟨hfits, hgood'⟩ := hgood.outOfMemory hr
        exact hs.keep hgood' (hs.bounded.after hfits) fun _ _ h => h
      · rw [kseg0_eq] at hzero
        omega
  | getppages hsteal =>
      rcases ramStealmem_cases hmeets hsteal with ⟨-, rfl⟩ | ⟨-, rfl, hle⟩
      · exact hs
      · refine hs.advance hs.good hs.bounded hle fun b m hb => ?_
        obtain ⟨hlow, hhigh⟩ := hs.pages b m hb
        omega

theorem Kernel.backed_of_reach {ramsize : Nat} (hboot : Boots ramsize firstfree)
    (h : Reach Kernel.Step Meets (Kernel.boot τ ramsize firstfree) s) : s.Backed firstfree :=
  h.invariant (I := fun s => s.Backed firstfree) (fun _ _ _ hs hmeets hstep => hs.step hmeets hstep)
    (Kernel.backed_boot hboot)

/-! ## Requests -/

omit [DecidableEq τ] in
/-- A live block is in the memory. -/
theorem Kernel.Backed.memory (hs : s.Backed firstfree) (ha : s.kheap.live a = some sz) :
    firstfree ≤ a ∧ a + extent sz ≤ kseg0 + s.ram.firstpaddr := by
  obtain ⟨all, hgood⟩ := hs.good
  obtain ⟨c, n, -, -, hn, hca, hend, -⟩ := hgood.live_page ha
  obtain ⟨hlow, hhigh⟩ := hs.pages c n hn
  omega

omit [DecidableEq τ] in
/-- The live blocks when one is returned. -/
theorem blocks_returned {r : After} {live : Nat → Option Nat} {ptr : Nat} (htaken : r.taken = none)
    (hret : r.returned = some (ptr, sz)) :
    r.blocks live = Function.update live ptr (some sz) := by
  rw [After.blocks, htaken, hret]

omit [DecidableEq τ] in
/-- A block that is returned serves the request. -/
theorem Kernel.Backed.serves {k : State τ} {r : After} {ptr : Nat} (hs : s.Backed firstfree)
    (hfits : r.Fits s.kheap t) (hret : r.returned = some (ptr, sz))
    (hk : Kernel.Backed { s with kheap := k } firstfree) (hlive : k.live = r.blocks s.kheap.live) :
    s.Serves firstfree ptr sz := by
  obtain ⟨hfree, htaken⟩ := hfits.free ptr sz hret
  rw [blocks_returned htaken hret] at hlive
  have hptr : k.live ptr = some sz := by
    rw [hlive, Function.update_self]
  obtain ⟨hlow, hhigh⟩ := hk.memory hptr
  obtain ⟨all, hgood⟩ := hk.good
  have hlast := hs.high
  refine ⟨(le_extent_iff sz).2 (hk.live ptr sz hptr), hlow, ?_, fun b m hb => ?_⟩
  · dsimp only at hhigh
    omega
  · have hne : b ≠ ptr := by
      rintro rfl
      rw [hfree] at hb
      cases hb
    refine hgood.live_apart hptr ?_ hne.symm
    show k.live b = some m
    rw [hlive, Function.update_of_ne hne, hb]

theorem Kernel.Backed.returns {ptr : Nat} (hs : s.Backed firstfree) (h : s.Returns t ptr sz) :
    s.Serves firstfree ptr sz := by
  obtain ⟨all, hgood⟩ := hs.good
  obtain ⟨r, hret, ⟨fuel, hr⟩ | ⟨n, q, ram, -, -, hr⟩⟩ := h
  · obtain ⟨hfits, hgood'⟩ := good_of_critical hgood hr
    exact hs.serves hfits hret (hs.keep hgood' (hs.bounded.after hfits) fun _ _ h => h) rfl
  · obtain ⟨hfits, hgood'⟩ := hgood.outOfMemory hr
    exact hs.serves hfits hret (hs.keep hgood' (hs.bounded.after hfits) fun _ _ h => h) rfl

omit [DecidableEq τ] in
theorem Kernel.Backed.sound_live (hs : s.Backed firstfree) {b m : Nat}
    (ha : s.kheap.live a = some sz) (hb : s.kheap.live b = some m) (hne : a ≠ b) :
    Apart a (extent sz) b (extent m) := by
  obtain ⟨all, hgood⟩ := hs.good
  exact hgood.live_apart ha hb hne

omit [DecidableEq τ] in
/-- Where the pages are when the test of `ram_stealmem` passes. -/
theorem Kernel.Backed.allocKpages_fst (hs : s.Backed firstfree)
    (hle : (s.ram.firstpaddr + n * pageSize % 2 ^ 32) % 2 ^ 32 ≤ s.ram.lastpaddr) :
    (s.ram.allocKpages n).1 = kseg0 + s.ram.firstpaddr := by
  have hkernel := hs.kernel
  have hlow := hs.low
  have hne : s.ram.firstpaddr ≠ 0 := by omega
  rw [Ram.allocKpages, ramStealmem, if_neg (Nat.not_lt.2 hle), if_neg hne]
  exact kvaddr_eq (Nat.le_trans hs.high hs.last)

/-- A request that overflows passes the test: nothing is added to `firstpaddr`, or it goes back. -/
theorem sum_overflow {first : Nat} (hsz : sz < 2 ^ 32) (hfirst : first ≤ 2 ^ 29)
    (h : 2 ^ 32 ≤ first + roundup sz) :
    (first + npages sz * pageSize % 2 ^ 32) % 2 ^ 32 ≤ first := by
  rw [roundup, npages, pageSize_eq] at *
  omega

omit [DecidableEq τ] in
/-- A block of its own pages is large enough exactly when the request does not overflow. -/
theorem Kernel.Backed.grants_iff (hs : s.Backed firstfree) (hsz : sz < 2 ^ 32)
    (ht : s.kheap.pcs t = .getBig sz) : Meets s (.thread t) ↔ s.Grants sz := by
  obtain ⟨all, hgood⟩ := hs.good
  have hkernel := hs.kernel
  have hlow := hs.low
  have hhigh := hs.high
  have hlast := hs.last
  have hbig : largestSubpageSize ≤ sz := by
    have hk := hgood.knows t
    rw [ht] at hk
    exact hk
  have hextent : extent sz = npages sz * pageSize := if_pos hbig
  constructor
  · intro hmeets
    have hsum := hmeets sz ht
    obtain ⟨hle, hround⟩ := npages_of_roundup (Nat.lt_of_le_of_lt (Nat.le_add_left _ _) hsum)
    rw [← hround] at hsum
    cases halloc : s.ram.allocKpages (npages sz) with
    | mk a ram =>
        rw [Kernel.Grants, halloc, hextent]
        dsimp only
        rcases hs.allocKpages hsum halloc with ⟨rfl, -⟩ | ⟨rfl, -, hfits⟩
        · exact .inl rfl
        · refine .inr ⟨?_, by omega⟩
          rw [← hextent]
          exact (le_extent_iff sz).2 hle
  · intro hgrants m hm
    obtain rfl : m = sz := by
      rw [ht] at hm
      cases hm
      rfl
    by_contra hsum
    have hover : 2 ^ 32 ≤ s.ram.firstpaddr + roundup m := Nat.not_lt.1 hsum
    have htest := sum_overflow hsz (Nat.le_trans hhigh hlast) hover
    rw [Kernel.Grants, hs.allocKpages_fst (Nat.le_trans htest hhigh), hextent] at hgrants
    rcases hgrants with hzero | ⟨hroom, hmem⟩
    · omega
    · -- the pages would have to end behind `2 ^ 32`
      rw [← hextent] at hroom
      have hround := roundup_of_le ((le_extent_iff m).1 hroom)
      omega

/-- In a run in which no request overflows, every block that `kmalloc` returns serves the request;
and a request for whole pages is granted exactly when it does not overflow. -/
theorem kmalloc_serves {ramsize : Nat} (hboot : Boots ramsize firstfree)
    (h : Reach Kernel.Step Meets (Kernel.boot τ ramsize firstfree) s) :
    s.Sound firstfree ∧ ∀ t sz, sz < 2 ^ 32 → s.kheap.pcs t = .getBig sz →
      (Meets s (.thread t) ↔ s.Grants sz) := by
  have hs := Kernel.backed_of_reach hboot h
  refine ⟨⟨?_, ?_, ?_⟩, fun t sz hsz ht => hs.grants_iff hsz ht⟩
  · intro t ptr sz hret
    exact hs.returns hret
  · intro a sz ha
    exact (le_extent_iff sz).2 (hs.live a sz ha)
  · intro a sz b m ha hb hne
    exact hs.sound_live ha hb hne

/-! ## Two runs -/

/-- The thread is at another place. -/
def Kernel.goto (s : Kernel τ) (t : τ) (p : Point) : Kernel τ :=
  { s with kheap := { s.kheap with pcs := Function.update s.kheap.pcs t p } }

/-- The thread has got the pages of a block. -/
def Kernel.gotBig (s : Kernel τ) (t : τ) (sz a : Nat) (ram : Ram) : Kernel τ where
  kheap := { s.kheap with pages := Function.update s.kheap.pages a (some (npages sz))
                          pcs := Function.update s.kheap.pcs t (.gotBig sz a) }
  ram := ram

/-- The block has been returned. -/
def Kernel.giveBig (s : Kernel τ) (t : τ) (sz a : Nat) : Kernel τ :=
  { s with kheap := { s.kheap with live := Function.update s.kheap.live a (some sz)
                                   pcs := Function.update s.kheap.pcs t .out } }

/-- A call of `kmalloc`, up to the end of `alloc_kpages`. -/
theorem reach_gotBig {ok : Kernel τ → Event τ → Prop} {ram : Ram} (hout : s.kheap.pcs t = .out)
    (hsz : sz < 2 ^ 32) (hbig : largestSubpageSize ≤ sz)
    (halloc : s.ram.allocKpages (npages sz) = (a, ram)) (ha : a ≠ 0)
    (hok : ∀ u : Kernel τ, u.ram = s.ram → (∀ m, u.kheap.pcs t = .getBig m → m = sz) →
      ok u (.thread t)) :
    Reach Kernel.Step ok s (s.gotBig t sz a ram) := by
  have hat : ∀ p, (s.goto t p).kheap.pcs t = p := fun p => Function.update_self ..
  have hcall : s.Step (.thread t) (s.goto t (.kmalloc sz)) :=
    .run (by rw [hout]; rfl) (.callKmalloc hout hsz)
  have hcritical : critical 0 s.kheap.heap ((s.goto t (.kmalloc sz)).kheap.pcs t) =
      some (.ok { heap := s.kheap.heap, point := .getBig sz }) := by
    rw [hat]
    exact if_pos hbig
  have hwant : (s.goto t (.kmalloc sz)).Step (.thread t) (s.goto t (.getBig sz)) := by
    have hstep := Kernel.Step.run (by rw [hat]; rfl) (Step.critical hcritical)
    simpa [Kernel.goto, After.blocks] using hstep
  have hwants : ((s.goto t (.getBig sz)).kheap.pcs t).wants = some (npages sz, .gotBig sz) := by
    rw [hat]
    rfl
  have hgot : (s.goto t (.getBig sz)).Step (.thread t) (s.gotBig t sz a ram) := by
    have hstep := Kernel.Step.allocKpages hwants halloc ha
    simpa [Kernel.goto, Kernel.gotBig] using hstep
  have hs : ok s (.thread t) := hok s rfl fun m hm => by
    rw [hout] at hm
    cases hm
  have hkmalloc : ok (s.goto t (.kmalloc sz)) (.thread t) := hok _ rfl fun m hm => by
    rw [hat] at hm
    cases hm
  have hget : ok (s.goto t (.getBig sz)) (.thread t) := hok _ rfl fun m hm => by
    rw [hat] at hm
    cases hm
    rfl
  exact ((Reach.refl.tail hs hcall).tail hkmalloc hwant).tail hget hgot

theorem live_giveBig : (s.giveBig t sz a).kheap.live a = some sz := Function.update_self ..

omit [DecidableEq τ] in
theorem critical_gotBig (ht : s.kheap.pcs t = .gotBig sz a) (ha : a % pageSize = 0) :
    critical 0 s.kheap.heap (s.kheap.pcs t) =
      some (.ok { heap := s.kheap.heap, point := .out, returned := some (a, sz) }) := by
  rw [ht, critical, kassert_of ha]
  rfl

/-- The call returns. -/
theorem step_giveBig (ht : s.kheap.pcs t = .gotBig sz a) (ha : a % pageSize = 0) :
    s.Step (.thread t) (s.giveBig t sz a) :=
  .run (by rw [ht]; rfl) (.critical (critical_gotBig ht ha))

omit [DecidableEq τ] in
theorem returns_gotBig (ht : s.kheap.pcs t = .gotBig sz a) (ha : a % pageSize = 0) :
    s.Returns t a sz :=
  ⟨_, rfl, .inl ⟨0, critical_gotBig ht ha⟩⟩

end Steps

/-- 16 megabytes, and a kernel that ends at `0x80100000`. -/
def small : Kernel Unit := .boot Unit 0x1000000 0x80100000

theorem boots_small : Boots 0x1000000 0x80100000 := ⟨by decide, by decide, by decide⟩

/-- A block of two pages. -/
theorem kmalloc_serves_small : ∃ s : Kernel Unit, s.Returns () 0x80100000 5000 ∧
    s.Serves 0x80100000 0x80100000 5000 := by
  have hgot : Reach Kernel.Step Meets small
      (small.gotBig () 5000 0x80100000 ⟨0x102000, 0x1000000⟩) := by
    refine reach_gotBig rfl (by decide) (by decide) (by decide +kernel) (by decide) ?_
    intro u hram hsz m hm
    rw [hsz m hm, hram]
    decide +kernel
  have hret : (small.gotBig () 5000 0x80100000 ⟨0x102000, 0x1000000⟩).Returns () 0x80100000 5000 :=
    returns_gotBig rfl (by decide)
  exact ⟨_, hret, (kmalloc_serves boots_small hgot).1.returns _ _ _ hret⟩

/-- The call `kmalloc(0xffffffff)` has returned. -/
def once : Kernel Unit :=
  (small.gotBig () (2 ^ 32 - 1) 0x80100000 ⟨0x100000, 0x1000000⟩).giveBig () (2 ^ 32 - 1) 0x80100000

theorem live_once : once.kheap.live 0x80100000 = some (2 ^ 32 - 1) :=
  live_giveBig

theorem reach_once : Reach Kernel.Step anyStep small once := by
  have hgot : Reach Kernel.Step anyStep small
      (small.gotBig () (2 ^ 32 - 1) 0x80100000 ⟨0x100000, 0x1000000⟩) :=
    reach_gotBig rfl (by decide) (by decide) (by decide +kernel) (by decide) fun _ _ _ => trivial
  exact hgot.tail trivial (step_giveBig rfl (by decide))

/-- The largest size asks for no page at all, so that the next call returns the same address; and a
size near it lets `firstpaddr` go back, with a block that ends behind the memory. -/
theorem kmalloc_short :
    (∃ s, Reach Kernel.Step anyStep small s ∧ s.kheap.live 0x80100000 = some (2 ^ 32 - 1) ∧
      s.Returns () 0x80100000 (2 ^ 32 - 1) ∧ ¬ s.Sound 0x80100000) ∧
    ∃ s, Reach Kernel.Step anyStep small s ∧ s.Returns () 0x80100000 (2 ^ 32 - 0x80000) ∧
      s.ram.firstpaddr = 0x80000 ∧ ¬ s.Sound 0x80100000 := by
  constructor
  · have hagain : Reach Kernel.Step anyStep once
        (once.gotBig () (2 ^ 32 - 1) 0x80100000 ⟨0x100000, 0x1000000⟩) :=
      reach_gotBig rfl (by decide) (by decide) (by decide +kernel) (by decide) fun _ _ _ => trivial
    have hret : (once.gotBig () (2 ^ 32 - 1) 0x80100000 ⟨0x100000, 0x1000000⟩).Returns ()
        0x80100000 (2 ^ 32 - 1) := returns_gotBig rfl (by decide)
    refine ⟨_, reach_once.trans hagain, live_once, hret, fun h => ?_⟩
    · have hroom := (h.returns _ _ _ hret).room
      exact absurd hroom (by decide +kernel)
  · have hgot : Reach Kernel.Step anyStep small
        (small.gotBig () (2 ^ 32 - 0x80000) 0x80100000 ⟨0x80000, 0x1000000⟩) :=
      reach_gotBig rfl (by decide) (by decide) (by decide +kernel) (by decide) fun _ _ _ => trivial
    have hret : (small.gotBig () (2 ^ 32 - 0x80000) 0x80100000 ⟨0x80000, 0x1000000⟩).Returns ()
        0x80100000 (2 ^ 32 - 0x80000) := returns_gotBig rfl (by decide)
    refine ⟨_, hgot, hret, rfl, fun h => ?_⟩
    have hmemory := (h.returns _ _ _ hret).memory
    exact absurd hmemory (by decide +kernel)

end Os161.Vm.Kmalloc

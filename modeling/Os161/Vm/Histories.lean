import Os161.Vm.Calls

set_option autoImplicit false

/-!
# Any history of calls

The heap is consistent in every state that can be reached, and the only assertion that can fail is
one of `freepageref`, exactly at a `kfree` that is `Stuck`. It can: 256 threads may wait for the page
of one root.
-/

namespace Os161.Vm.Kmalloc

open Os161.Lib.Links Os161.Lib.Runs

variable {τ : Type} [DecidableEq τ] {s s' : State τ} {all : List Nat} {t : τ} {fuel : Nat} {h : Heap}
  {p : Point}

omit [DecidableEq τ] in
theorem runs_of_critical {x : Except Panic After} (hx : critical fuel h p = some x) :
    p.runs = true := by
  cases p <;> first | rfl | cases hx

/-- A part of the code that has ended has kept the invariant. -/
theorem good_of_critical {q : After} (hs : Good s all)
    (hq : critical fuel s.heap (s.pcs t) = some (.ok q)) :
    q.Fits s t ∧ ∃ all', Good { s with heap := q.heap, live := q.blocks s.live
                                       pcs := Function.update s.pcs t q.point } all' := by
  have hmore := critical_mono hq (Nat.le_max_left fuel (all.length + 1))
  rcases hs.critical (runs_of_critical hq) (Nat.le_max_right fuel (all.length + 1)) with
    ⟨-, q', all', hrun, hfits, hgood⟩ | ⟨-, hrun⟩
  · rw [hrun] at hmore
    cases hmore
    exact ⟨hfits, all', hgood⟩
  · rw [hrun] at hmore
    cases hmore

theorem Good.step (hs : Good s all) (hstep : Step s t s') : ∃ all', Good s' all' := by
  cases hstep with
  | callKmalloc hpc hsz => exact ⟨all, hs.repoint nofun nofun nofun trivial nofun⟩
  | callKfree hpc hlive hother =>
      refine ⟨all, hs.repoint nofun nofun nofun hlive fun ptr' he => ?_⟩
      cases he
      exact hother
  | critical hq => exact (good_of_critical hs hq).2
  | allocKpages hwants hfresh => exact ⟨all, hs.allocKpages hwants hfresh⟩
  | freeKpages hfrees => exact ⟨all, hs.freeKpages hfrees⟩
  | write hpc hlive hmem => exact ⟨all, hs.write hlive hmem⟩

theorem good_of_reach (h : Reach Step anyStep (boot τ) s) : ∃ all, Good s all :=
  h.invariant (I := fun s => ∃ all, Good s all) (fun _ _ _ ⟨_, hs⟩ _ hstep => hs.step hstep)
    ⟨[], good_boot⟩

/-- The live blocks and the lists of the heap. -/
structure Consistent (s : State τ) : Prop where
  apart : ∀ a sz b m, s.live a = some sz → s.live b = some m → a ≠ b →
    Apart a (extent sz) b (extent m)
  room : ∀ a sz, s.live a = some sz → (sz ≤ extent sz ↔ sz + pageSize ≤ 2 ^ 32)
  lists : ∃ all, Listed (fun a => (s.heap.pagerefs a).nextAll) s.heap.allbase all ∧
    (∀ pr ∈ all, ∃ l, PageOk s.heap.mem s.live (s.heap.pagerefs pr) l) ∧
    ∀ a sz, s.live a = some sz → sz < largestSubpageSize → ∃ pr ∈ all,
      (s.heap.pagerefs pr).blocktype = blocktype sz ∧ sz ≤ blockSize (blocktype sz) ∧
      (s.heap.pagerefs pr).pageaddr % pageSize = 0 ∧ IsBlock (s.heap.pagerefs pr) a ∧
      a + blockSize (blocktype sz) ≤ (s.heap.pagerefs pr).pageaddr + pageSize

/-- A block has room for what was asked for, unless the number of pages overflows. -/
theorem le_extent_iff (sz : Nat) : sz ≤ extent sz ↔ sz + pageSize ≤ 2 ^ 32 := by
  unfold extent
  split
  · rename_i hbig
    unfold npages
    simp only [largestSubpageSize, pageSize] at *
    omega
  · rename_i hsmall
    have := (blocktype_spec (Nat.lt_of_not_le hsmall)).2
    simp only [largestSubpageSize, pageSize] at *
    omega

omit [DecidableEq τ] in
theorem Good.consistent (hs : Good s all) : Consistent s where
  apart _ _ _ _ ha hb hne := hs.live_apart ha hb hne
  room _ sz _ := le_extent_iff sz
  lists := by
    refine ⟨all, hs.shape.pages, hs.blocks, fun a sz ha hsz => ?_⟩
    rcases hs.live a sz ha with ⟨-, pr, hpr, htype, hblock⟩ | ⟨hbig, -⟩
    · have hbounds := hblock.bounds (hs.type_lt hpr)
      rw [htype] at hbounds
      exact ⟨pr, hpr, htype, (blocktype_spec hsz).2, Nat.mul_mod_left _ _, hblock, hbounds.2⟩
    · exact absurd hsz (Nat.not_lt_of_le hbig)

/-- The heap is consistent, every part of the code ends, and it fails an assertion exactly when the
thread is in a `kfree` that is `Stuck`. -/
theorem kheap_consistent (h : Reach Step anyStep (boot τ) s) :
    Consistent s ∧ ∀ t, (s.pcs t).runs = true →
      (∃ fuel x, critical fuel s.heap (s.pcs t) = some x) ∧
      ((∀ fuel e, critical fuel s.heap (s.pcs t) ≠ some (.error e)) ↔
        ¬ (s.pcs t).stuck s.heap) := by
  obtain ⟨all, hs⟩ := good_of_reach h
  refine ⟨hs.consistent, fun t hruns => ?_⟩
  rcases hs.critical hruns (Nat.lt_succ_self _) with ⟨hstuck, q, -, hrun, -⟩ | ⟨hstuck, hrun⟩
  · refine ⟨⟨_, _, hrun⟩, iff_of_true (fun fuel e he => ?_) hstuck⟩
    have h₁ := critical_mono hrun (Nat.le_max_left _ fuel)
    have h₂ := critical_mono he (Nat.le_max_right (all.length + 1) fuel)
    rw [h₁] at h₂
    cases h₂
  · exact ⟨⟨_, _, hrun⟩, iff_of_false (fun hno => hno _ _ hrun) fun hno => hno hstuck⟩

theorem kheap_consistent_call :
    ∃ s : State Bool, s.pcs true = .kmalloc 100 ∧ Consistent s ∧
      ∀ fuel e, critical fuel s.heap (s.pcs true) ≠ some (.error e) := by
  have start : Reach Step anyStep (boot Bool) _ := .refl
  have called := start.tail (a := true) trivial (@Step.callKmalloc _ _ _ _ 100 rfl (by decide))
  obtain ⟨hconsistent, hcalls⟩ := kheap_consistent called
  exact ⟨_, rfl, hconsistent, (hcalls true rfl).2.2 id⟩

/-! ## A crowd -/

/-- `n` threads wait for the page of the first root, and nothing else has happened. -/
structure Crowd (n : Nat) (s : State Nat) : Prop where
  reach : Reach Step anyStep (boot Nat) s
  bases : ∀ b, s.heap.sizebases b = none
  empty : s.heap.allbase = none
  pages : ∀ b m, s.pages b = some m → m = 1 ∧ b ≤ n * pageSize
  first : (s.heap.kheaproots 0).page = none ∧ (s.heap.kheaproots 0).numinuse = n
  rest : ∀ r, r ≠ 0 → (s.heap.kheaproots r).page = none ∧ (s.heap.kheaproots r).numinuse = 0
  idle : ∀ t, n ≤ t → s.pcs t = .out
  calls : ∀ t ptr, s.pcs t ≠ .kfree ptr

theorem crowd_boot : Crowd 0 (boot Nat) where
  reach := .refl
  bases _ := rfl
  empty := rfl
  pages _ _ h := by cases h
  first := ⟨rfl, rfl⟩
  rest _ _ := ⟨rfl, rfl⟩
  idle _ _ := rfl
  calls _ _ h := by cases h

/-- `alloc_kpages(1)` may return the next page. -/
theorem fresh_next {pages : Nat → Option Nat} {n : Nat}
    (h : ∀ b m, pages b = some m → m = 1 ∧ b ≤ n * pageSize) :
    Fresh pages ((n + 1) * pageSize) 1 where
  aligned := Nat.mul_mod_left _ _
  nonzero := by
    simp only [pageSize]
    omega
  apart b m hb := by
    obtain ⟨rfl, hle⟩ := h b m hb
    unfold Apart pageSpan
    simp only [pageSize] at *
    omega

theorem pages_next {pages : Nat → Option Nat} {n b m : Nat}
    (h : ∀ b m, pages b = some m → m = 1 ∧ b ≤ n * pageSize)
    (hb : Function.update pages ((n + 1) * pageSize) (some 1) b = some m) :
    m = 1 ∧ b ≤ (n + 1) * pageSize := by
  by_cases hnext : b = (n + 1) * pageSize
  · rw [hnext, Function.update_self] at hb
    cases hb
    exact ⟨rfl, Nat.le_of_eq hnext⟩
  · rw [Function.update_of_ne hnext] at hb
    obtain ⟨hm, hle⟩ := h b m hb
    exact ⟨hm, Nat.le_trans hle (Nat.mul_le_mul_right _ (Nat.le_succ n))⟩

/-- One more thread calls `kmalloc`, gets a page for its block, and takes a page reference in the
first root that is not full. -/
theorem Crowd.getRoot {n : Nat} {s : State Nat} (h : Crowd n s) (hn : n ≤ npagerefsPerPage) :
    ∃ k < npagerefsPerPage, ∃ r, r = n / npagerefsPerPage ∧
      Reach Step anyStep (boot Nat) { s with
        heap := s.heap.takePageref r k
        pages := Function.update s.pages ((n + 1) * pageSize) (some 1)
        pcs := Function.update s.pcs n (.getRoot 2000 ((n + 1) * pageSize) r k) } := by
  obtain ⟨all, hs⟩ := good_of_reach h.reach
  have called : Reach Step anyStep (boot Nat)
      { s with pcs := Function.update s.pcs n (.kmalloc 2000) } :=
    h.reach.tail trivial (.callKmalloc (h.idle n (Nat.le_refl n)) (by decide))
  have searched : Reach Step anyStep (boot Nat)
      { s with pcs := Function.update s.pcs n (.getPage 2000) } := by
    have hrun : critical 1 s.heap (Function.update s.pcs n (.kmalloc 2000) n) =
        some (.ok { heap := s.heap, point := .getPage 2000 }) := by
      rw [Function.update_self, critical, if_neg (by decide)]
      simp [subpageKmalloc, h.bases, search]
    have hnext := called.tail (a := n) trivial (.critical hrun)
    rwa [Function.update_idem] at hnext
  have got : Reach Step anyStep (boot Nat)
      { s with pages := Function.update s.pages ((n + 1) * pageSize) (some 1)
               pcs := Function.update s.pcs n (.gotPage 2000 ((n + 1) * pageSize)) } := by
    have hwants : (Function.update s.pcs n (.getPage 2000) n).wants = some (1, .gotPage 2000) := by
      rw [Function.update_self]
      rfl
    have hnext := searched.tail (a := n) trivial (.allocKpages hwants (fresh_next h.pages))
    rwa [Function.update_idem] at hnext
  -- the roots that are full
  have hroots : ∀ r < numPagerefpages, npagerefsPerPage ≤ (s.heap.kheaproots r).numinuse →
      r = 0 ∧ n = npagerefsPerPage := by
    intro r _ hfull
    by_cases hr : r = 0
    · subst hr
      rw [h.first.2] at hfull
      exact ⟨rfl, Nat.le_antisymm hn hfull⟩
    · rw [(h.rest r hr).2] at hfull
      exact absurd hfull (by decide)
  rcases allocpageref_eq hs.slots numPagerefpages 0 with ⟨-, hfull⟩ | ⟨r, k, hrun, hr, hfree, hfull⟩
  · have := (hroots 1 (by decide) (hfull 1 (by decide) (Nat.zero_le 1))).1
    cases this
  · refine ⟨k, hfree.ref, r, ?_, ?_⟩
    · have hroom := hfree.room
      by_cases hr0 : r = 0
      · subst hr0
        rw [h.first.2] at hroom
        exact (Nat.div_eq_of_lt hroom).symm
      · obtain ⟨-, rfl⟩ := hroots 0 (by decide) (hfull 0 (by omega) (Nat.le_refl 0))
        have hr1 : ¬ 1 < r := fun hlt => by
          have := (hroots 1 (by decide) (hfull 1 hlt (Nat.zero_le 1))).1
          cases this
        have hone : npagerefsPerPage / npagerefsPerPage = 1 := by decide
        omega
    · have hpage : (s.heap.kheaproots r).page = none := by
        by_cases hr0 : r = 0
        · rw [hr0]
          exact h.first.1
        · exact (h.rest r hr0).1
      have hrun' : critical 1 s.heap
          (Function.update s.pcs n (.gotPage 2000 ((n + 1) * pageSize)) n) =
          some (.ok { heap := s.heap.takePageref r k
                      point := .getRoot 2000 ((n + 1) * pageSize) r k }) := by
        rw [Function.update_self, critical, kassert_of (Nat.mul_mod_left _ _), List.range_eq_range',
          hrun]
        have hroot := page_takePageref s.heap r k r
        rw [hpage] at hroot
        simp [bind, Except.bind, hroot]
      have hnext := got.tail (a := n) trivial (.critical hrun')
      rwa [Function.update_idem] at hnext

theorem Crowd.enter {n : Nat} {s : State Nat} (h : Crowd n s) (hn : n < npagerefsPerPage) :
    ∃ s', Crowd (n + 1) s' := by
  obtain ⟨k, hk, r, hr, hreach⟩ := h.getRoot (Nat.le_of_lt hn)
  rw [Nat.div_eq_of_lt hn] at hr
  subst hr
  refine ⟨_, hreach, h.bases, h.empty, fun _ _ hb => pages_next h.pages hb, ?_, fun r hr => ?_,
    fun t ht => ?_, fun t ptr => ?_⟩
  · refine ⟨(page_takePageref s.heap 0 k 0).trans h.first.1, ?_⟩
    simp [Heap.takePageref, Heap.setRoot, h.first.2]
  · simpa [Heap.takePageref, Heap.setRoot, hr] using h.rest r hr
  · have hne : t ≠ n := by omega
    exact (Function.update_of_ne hne _ _).trans (h.idle t (by omega))
  · by_cases ht : t = n
    · simp [ht]
    · simpa [ht] using h.calls t ptr

theorem exists_crowd (n : Nat) (hn : n ≤ npagerefsPerPage) : ∃ s, Crowd n s := by
  induction n with
  | zero => exact ⟨_, crowd_boot⟩
  | succ n ih =>
      obtain ⟨s, hs⟩ := ih (Nat.le_of_lt hn)
      exact hs.enter hn

/-- The first block of the first page of the heap. -/
theorem useNewPage_first (h : Heap) (prpage pr sz : Nat) (hempty : h.allbase = none)
    (hpage : prpage ≠ 0) (haligned : prpage % pageSize = 0) (hsz : sz < largestSubpageSize) :
    ∃ g a, useNewPage h sz prpage pr =
        .ok { heap := g, point := .out, returned := some (a, sz) } ∧ OnPage g pr a ∧
      (g.pagerefs pr).nfree + 1 = pageSize / blockSize (g.pagerefs pr).blocktype ∧
      g.kheaproots = h.kheaproots := by
  obtain ⟨hblk, -⟩ := blocktype_spec hsz
  obtain ⟨hsize, -, htwo, -⟩ := blockSize_spec _ hblk
  obtain ⟨mem', ref, hrun, -, -, hbt, -, hnextall, hok⟩ := newPage_eq h pr hpage haligned
    hblk fun _ _ _ => (rfl : none = none)
  have hlen := length_blocksDown prpage (blockSize (blocktype sz))
    (pageSize / blockSize (blocktype sz) - 1)
  cases hl : blocksDown prpage (blockSize (blocktype sz))
      (pageSize / blockSize (blocktype sz) - 1) with
  | nil =>
      rw [hl] at hlen
      cases hlen
  | cons a l =>
      rw [hl, List.length_cons] at hlen
      rw [hl] at hok
      set h₁ : Heap :=
        { h with mem := mem', pagerefs := Function.update h.pagerefs pr ref
                 sizebases := Function.update h.sizebases (blocktype sz) (some pr)
                 allbase := some pr } with hh₁
      have href : h₁.pagerefs pr = ref := Function.update_self ..
      have hok₁ : PageOk h₁.mem (fun _ => none) (h₁.pagerefs pr) (a :: l) := by
        rw [href]
        exact hok
      obtain ⟨f, hrun', hf, hok'⟩ := doalloc_eq hok₁ sz
      have hself : (h₁.setPageref pr f).pagerefs pr = f (h₁.pagerefs pr) :=
        Function.update_self ..
      refine ⟨h₁.setPageref pr f, a, ?_, ⟨⟨[pr], ⟨rfl, ?_⟩, List.mem_singleton_self pr⟩, ?_⟩, ?_,
        rfl⟩
      · unfold useNewPage
        rw [hrun]
        change (Except.bind (doalloc h₁ pr) _) = _
        rw [hrun']
        rfl
      · change ((h₁.setPageref pr f).pagerefs pr).nextAll = none
        rw [hself, hf.nextAll, href, hnextall, hempty]
      · have hbounds := ((hok₁.mem_iff a).1 List.mem_cons_self).1.bounds hok₁.type
        have hpos := (blockSize_spec _ hok₁.type).1
        rw [hself, hf.pageaddr]
        omega
      · rw [hself, hok'.nfree, hf.blocktype, href, hbt]
        omega

/-- When 256 threads wait for the page of the first root, a thread that gives back the only block of
a page fails `KASSERT(root->numinuse == 0)`. -/
theorem kfree_fails_in_crowd :
    ∃ s : State Nat, Reach Step anyStep (boot Nat) s ∧ ∃ ptr, s.pcs 256 = .kfree ptr ∧
      ∃ fuel, critical fuel s.heap (s.pcs 256) = some (.error .numinuse) := by
  obtain ⟨s, hs⟩ := exists_crowd npagerefsPerPage (Nat.le_refl _)
  obtain ⟨k, hk, r, hr, waiting⟩ := hs.getRoot (Nat.le_refl _)
  obtain rfl : r = 1 := hr
  have hn : npagerefsPerPage = 256 := by decide
  rw [hn] at waiting
  have got : Reach Step anyStep (boot Nat) { s with
      heap := s.heap.takePageref 1 k
      pages := Function.update (Function.update s.pages (257 * pageSize) (some 1))
        (258 * pageSize) (some 1)
      pcs := Function.update s.pcs 256 (.gotRoot 2000 (257 * pageSize) 1 k (258 * pageSize)) } := by
    have hwants : (Function.update s.pcs 256 (.getRoot 2000 (257 * pageSize) 1 k) 256).wants =
        some (1, .gotRoot 2000 (257 * pageSize) 1 k) := by
      rw [Function.update_self]
      rfl
    have hnext := waiting.tail (a := 256) trivial (.allocKpages hwants
      (fresh_next (n := 257) fun b m hb => pages_next (n := 256) hs.pages hb))
    rwa [Function.update_idem] at hnext
  have hnone : ((s.heap.takePageref 1 k).kheaproots 1).page = none :=
    (page_takePageref s.heap 1 k 1).trans (hs.rest 1 (by decide)).1
  set h := (s.heap.takePageref 1 k).setRoot 1 fun root =>
    { root with page := some (258 * pageSize) } with hh
  obtain ⟨g, a, huse, hon, hlast, hroots⟩ := useNewPage_first h
    (257 * pageSize) (refAddr (258 * pageSize) k) 2000 hs.empty (by decide) (by decide) (by decide)
  have allocated : Reach Step anyStep (boot Nat) { s with
      heap := g
      pages := Function.update (Function.update s.pages (257 * pageSize) (some 1))
        (258 * pageSize) (some 1)
      live := Function.update s.live a (some 2000)
      pcs := Function.update s.pcs 256 .out } := by
    have hrun : critical 1 (s.heap.takePageref 1 k) (Function.update s.pcs 256
        (.gotRoot 2000 (257 * pageSize) 1 k (258 * pageSize)) 256) =
        some (.ok { heap := g, point := .out, returned := some (a, 2000) }) := by
      rw [Function.update_self, critical, kassert_of (by decide)]
      simpa [bind, Except.bind, hnone] using huse
    have hnext := got.tail (a := 256) trivial (.critical hrun)
    rwa [Function.update_idem] at hnext
  have called : Reach Step anyStep (boot Nat) { s with
      heap := g
      pages := Function.update (Function.update s.pages (257 * pageSize) (some 1))
        (258 * pageSize) (some 1)
      live := Function.update s.live a (some 2000)
      pcs := Function.update s.pcs 256 (.kfree a) } := by
    have hnext := allocated.tail (a := 256) trivial (@Step.callKfree _ _ _ _ a (by simp) (by simp)
      fun u hu => ?_)
    · rwa [Function.update_idem] at hnext
    · by_cases h256 : u = 256
      · simp [h256] at hu
      · exact hs.calls u a (by simpa [h256] using hu)
  obtain ⟨all, hgood⟩ := good_of_reach called
  refine ⟨_, called, a, by simp, all.length + 1, ?_⟩
  rcases hgood.critical (t := 256) (by simp [Point.runs]) (Nat.lt_succ_self _) with
    ⟨hstuck, -⟩ | ⟨-, hrun⟩
  · refine absurd ?_ hstuck
    change Point.stuck g (Function.update s.pcs 256 (.kfree a) 256)
    rw [Function.update_self]
    refine ⟨_, hon, hlast, 1, k, 258 * pageSize, ?_, hk, rfl, 0, by decide, ?_, ?_⟩
    · rw [hroots, hh]
      simp [Heap.setRoot]
    · rw [hroots, hh]
      simpa [Heap.setRoot, Heap.takePageref] using hs.first.1
    · rw [hroots, hh]
      simpa [Heap.setRoot, Heap.takePageref] using Nat.le_of_eq hs.first.2.symm
  · exact hrun

end Os161.Vm.Kmalloc

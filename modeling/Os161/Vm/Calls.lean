import Mathlib.Data.Nat.Find
import Os161.Vm.Transfers

set_option autoImplicit false

/-!
# Parts of the code

What a thread does while it has the spinlock keeps `Good`, and no assertion fails, except that
`freepageref` fails one when a root has no page but all its page references are taken (`Stuck`).
-/

namespace Os161.Vm.Kmalloc

open Os161.Lib.Links

/-! ## Fuel -/

section Fuel

variable {h : Heap} {fuel fuel' pr blk ptr : Nat}

theorem subpageKmalloc_mono {x : Except Panic (Heap × Option Nat)}
    (hx : subpageKmalloc h fuel blk = some x) (hle : fuel ≤ fuel') :
    subpageKmalloc h fuel' blk = some x := by
  obtain ⟨found, hfound, hx⟩ := Option.bind_eq_some_iff.1 hx
  exact Option.bind_eq_some_iff.2 ⟨found, search_mono hfound hle, hx⟩

theorem removeLists_mono {x : Except Panic Heap} (hx : removeLists h fuel pr blk = some x)
    (hle : fuel ≤ fuel') : removeLists h fuel' pr blk = some x := by
  unfold removeLists at hx ⊢
  split at hx
  · rename_i hlt
    rw [if_pos hlt]
    obtain ⟨p, hp, hx⟩ := Option.bind_eq_some_iff.1 hx
    obtain ⟨q, hq, hx⟩ := Option.bind_eq_some_iff.1 hx
    exact Option.bind_eq_some_iff.2 ⟨p, unlinkFrom_mono hp hle,
      Option.bind_eq_some_iff.2 ⟨q, unlinkFrom_mono hq hle, hx⟩⟩
  · rename_i hge
    rw [if_neg hge]
    exact hx

theorem subpageKfree_mono {x : Except Panic (Heap × Freed)} (hx : subpageKfree h fuel ptr = some x)
    (hle : fuel ≤ fuel') : subpageKfree h fuel' ptr = some x := by
  obtain ⟨found, hfound, hx⟩ := Option.bind_eq_some_iff.1 hx
  refine Option.bind_eq_some_iff.2 ⟨found, search_mono hfound hle, ?_⟩
  split at hx
  · exact hx
  · exact hx
  · split at hx
    · exact hx
    · dsimp only at hx ⊢
      split at hx
      · rename_i hfull
        obtain ⟨y, hy, hx⟩ := Option.bind_eq_some_iff.1 hx
        rw [if_pos hfull]
        exact Option.bind_eq_some_iff.2 ⟨y, removeLists_mono hy hle, hx⟩
      · rename_i hfull
        rw [if_neg hfull]
        exact hx

/-- With more fuel the code does the same. -/
theorem critical_mono {p : Point} {x : Except Panic After} (hx : critical fuel h p = some x)
    (hle : fuel ≤ fuel') : critical fuel' h p = some x := by
  cases p with
  | kmalloc sz =>
      rw [critical] at hx ⊢
      split at hx
      · rename_i hbig
        rw [if_pos hbig]
        exact hx
      · rename_i hsmall
        rw [if_neg hsmall]
        obtain ⟨y, hy, hx⟩ := Option.bind_eq_some_iff.1 hx
        exact Option.bind_eq_some_iff.2 ⟨y, subpageKmalloc_mono hy hle, hx⟩
  | kfree ptr =>
      obtain ⟨y, hy, hx⟩ := Option.bind_eq_some_iff.1 hx
      exact Option.bind_eq_some_iff.2 ⟨y, subpageKfree_mono hy hle, hx⟩
  | _ => exact hx

end Fuel

/-! ## `kmalloc` -/

variable {τ : Type} [DecidableEq τ] {s : State τ} {all : List Nat} {t : τ} {sz r k fuel : Nat}

/-- The block that is returned was free, and it has the size that the thread has asked for; a block
of its own pages is not on its way any more. -/
structure After.Fits (q : After) (s : State τ) (t : τ) : Prop where
  free : ∀ ptr sz, q.returned = some (ptr, sz) → s.live ptr = none ∧ q.taken = none
  size : ∀ ptr sz, q.returned = some (ptr, sz) → sz < largestSubpageSize ∨ s.pcs t = .gotBig sz ptr
  point : ∀ sz a, q.point ≠ .gotBig sz a

omit [DecidableEq τ] in
/-- Nothing is returned. -/
theorem After.fits_none {q : After} (hnone : q.returned = none)
    (hpoint : ∀ sz a, q.point ≠ .gotBig sz a) : q.Fits s t where
  free ptr sz h := by
    rw [hnone] at h
    cases h
  size ptr sz h := by
    rw [hnone] at h
    cases h
  point := hpoint

omit [DecidableEq τ] in
/-- A small block is returned. -/
theorem After.fits_small {q : After} {ptr : Nat} (hq : q.returned = some (ptr, sz))
    (hfree : s.live ptr = none ∧ q.taken = none) (hsz : sz < largestSubpageSize) (hout : q.point = .out) :
    q.Fits s t where
  free a m h := by
    rw [hq] at h
    cases h
    exact hfree
  size a m h := by
    rw [hq] at h
    cases h
    exact .inl hsz
  point m a h := by
    rw [hout] at h
    cases h

omit [DecidableEq τ] in
/-- The page reference has been taken, or the root has got its page, since the state `s`. -/
theorem After.Fits.from_new {q : After} {s' : State τ} {prpage : Nat} (h : q.Fits s' t)
    (hlive : s'.live = s.live) (ht : s'.pcs t = .droppedRoot sz prpage r k) : q.Fits s t where
  free ptr m hq := by
    rw [← hlive]
    exact h.free ptr m hq
  size ptr m hq := by
    refine (h.size ptr m hq).imp_right fun hbig => ?_
    rw [ht] at hbig
    cases hbig
  point := h.point

omit [DecidableEq τ] in
/-- `subpage_kmalloc` finds a block, or it needs a new page. -/
theorem Good.subpageKmalloc (h : Good s all) (hsz : sz < largestSubpageSize)
    (hfuel : all.length < fuel) :
    subpageKmalloc s.heap fuel (blocktype sz) = some (.ok (s.heap, none)) ∨
    ∃ h' ptr, subpageKmalloc s.heap fuel (blocktype sz) = some (.ok (h', some ptr)) ∧
      s.live ptr = none ∧
      Good { s with heap := h', live := Function.update s.live ptr (some sz) } all := by
  obtain ⟨l, hl, hnodup, hmem⟩ := h.shape.same _ (blocktype_spec hsz).1
  have hlen : l.length < fuel := by
    have hsub : l ⊆ all := fun a ha => ((hmem a).1 ha).1
    have := (hnodup.subperm hsub).length_le
    omega
  have hsearch : search (fun pr => (s.heap.pagerefs pr).nextSamesize)
      (fun pr => do
        kassert ((s.heap.pagerefs pr).blocktype = blocktype sz) .blocktype
        .ok (decide (0 < (s.heap.pagerefs pr).nfree)))
      fuel (s.heap.sizebases (blocktype sz)) =
      some (.ok (l.find? fun pr => decide (0 < (s.heap.pagerefs pr).nfree))) :=
    search_eq hl (fun pr hpr => by rw [kassert_of ((hmem pr).1 hpr).2]; rfl) hlen
  unfold Kmalloc.subpageKmalloc
  rw [hsearch]
  cases hfind : l.find? fun pr => decide (0 < (s.heap.pagerefs pr).nfree) with
  | none => exact .inl rfl
  | some pr =>
      refine .inr ?_
      obtain ⟨hpr, htype⟩ := (hmem pr).1 (List.mem_of_find?_eq_some hfind)
      have hpos : 0 < (s.heap.pagerefs pr).nfree := by simpa using List.find?_some hfind
      obtain ⟨l', hl'⟩ := h.blocks pr hpr
      cases l' with
      | nil =>
          rw [hl'.nfree] at hpos
          exact absurd hpos (Nat.lt_irrefl 0)
      | cons a l' =>
          obtain ⟨f, hrun, hf, hok⟩ := doalloc_eq hl' sz
          refine ⟨_, a, ?_, ((hl'.mem_iff a).1 List.mem_cons_self).2,
            h.take hpr hl' htype hsz hf hok⟩
          simp [hrun, Except.map]

/-- The first block of a new page is allocated. -/
theorem Good.useNewPage {prpage page : Nat} (h : Good s all)
    (ht : s.pcs t = .droppedRoot sz prpage r k) (hpage : (s.heap.kheaproots r).page = some page) :
    ∃ q, useNewPage s.heap sz prpage (refAddr page k) = .ok q ∧ q.Fits s t ∧
      Good { s with heap := q.heap, live := q.blocks s.live
                    pcs := Function.update s.pcs t q.point } (refAddr page k :: all) := by
  have hsz : sz < largestSubpageSize := by
    have hk := h.knows t
    rw [ht] at hk
    exact hk.1
  obtain ⟨h', hrun, hgood, htype, l, hl, hne⟩ := h.newPage ht hpage
  cases l with
  | nil => exact absurd rfl hne
  | cons a l =>
      obtain ⟨f, hrun', hf, hok⟩ := doalloc_eq hl sz
      refine ⟨{ heap := h'.setPageref (refAddr page k) f, point := .out, returned := some (a, sz) },
        ?_, After.fits_small rfl ⟨((hl.mem_iff a).1 List.mem_cons_self).2, rfl⟩ hsz rfl,
        hgood.take List.mem_cons_self hl htype hsz hf hok⟩
      unfold Kmalloc.useNewPage
      rw [hrun]
      change (Except.bind (doalloc h' (refAddr page k)) _) = _
      rw [hrun']
      rfl

/-! ## `kfree` -/

/-- `ptr` is on the page of `pr`, which is on the list of all pages. -/
def OnPage (h : Heap) (pr ptr : Nat) : Prop :=
  (∃ all, Listed (fun a => (h.pagerefs a).nextAll) h.allbase all ∧ pr ∈ all) ∧
    (h.pagerefs pr).pageaddr ≤ ptr ∧ ptr < (h.pagerefs pr).pageaddr + pageSize

/-- All page references of a root without a page are taken, and the page of `ptr`, which has its page
reference in a later root, has no other live block. -/
def Stuck (h : Heap) (ptr : Nat) : Prop :=
  ∃ pr, OnPage h pr ptr ∧
    (h.pagerefs pr).nfree + 1 = pageSize / blockSize (h.pagerefs pr).blocktype ∧
    ∃ r k page, (h.kheaproots r).page = some page ∧ k < npagerefsPerPage ∧ pr = refAddr page k ∧
      ∃ r' < r, (h.kheaproots r').page = none ∧ npagerefsPerPage ≤ (h.kheaproots r').numinuse

variable {pr ptr page : Nat}

omit [DecidableEq τ] in
/-- A bit that belongs to a page of the heap. -/
theorem Good.ref_used (h : Good s all) (hpr : pr ∈ all)
    (hpage : (s.heap.kheaproots r).page = some page) (hk : k < npagerefsPerPage)
    (hpk : pr = refAddr page k) :
    r < numPagerefpages ∧ (s.heap.kheaproots r).pagerefsInuse k = true ∧
      0 < (s.heap.kheaproots r).numinuse := by
  have href : HasRef s.heap all s.pcs (r, k) none := ⟨page, hpage, hk, hpk ▸ hpr⟩
  obtain ⟨hr, -, hinuse⟩ := h.slots.used r k _ href
  refine ⟨hr, hinuse, ?_⟩
  rw [h.slots.count r]
  exact Finset.card_pos.2 ⟨k, KheapRoot.mem_inuse.2 ⟨hk, hinuse⟩⟩

omit [DecidableEq τ] in
/-- The page reference is not on the page of another root. -/
theorem Good.not_on_root (h : Good s all) (hpage : (s.heap.kheaproots r).page = some page)
    (hk : k < npagerefsPerPage) (hpk : pr = refAddr page k) {r' page' : Nat}
    (hpage' : (s.heap.kheaproots r').page = some page') (hne : r' ≠ r) :
    ¬ (page' ≤ pr ∧ pr < page' + pageSize) := by
  rintro ⟨h₁, h₂⟩
  have hb := refAddr_bounds page hk
  rw [← hpk] at hb
  have ho : Owns s.heap all s.live s.pcs page (.root r) := hpage
  have ho' : Owns s.heap all s.live s.pcs page' (.root r') := hpage'
  have he := h.owned.eq_of_mem ho ho' hb.1 hb.2 h₁ h₂
  subst he
  have := h.owned.unique _ _ _ ho ho'
  cases this
  exact hne rfl

omit [DecidableEq τ] in
theorem Good.freepageref {g : Heap} (h : Good s all) (hroots : g.kheaproots = s.heap.kheaproots)
    (hpr : pr ∈ all) (hpage : (s.heap.kheaproots r).page = some page) (hk : k < npagerefsPerPage)
    (hpk : pr = refAddr page k) (hbefore : ∀ r' < r, (s.heap.kheaproots r').page ≠ none) :
    freepageref g pr (List.range numPagerefpages) = .ok (g.dropPageref r k) := by
  obtain ⟨hr, hinuse, hpos⟩ := h.ref_used hpr hpage hk hpk
  rw [List.range_eq_range']
  refine freepageref_eq hpk (by rw [hroots]; exact hpage) hk
    (by rw [hroots]; exact hinuse) (by rw [hroots]; exact hpos) _ 0 (Nat.zero_le r) (by omega)
    fun r' hr' _ => ?_
  obtain ⟨page', hpage'⟩ := Option.ne_none_iff_exists'.1 (hbefore r' hr')
  rw [hroots]
  exact ⟨page', hpage', h.not_on_root hpage hk hpk hpage' (Nat.ne_of_lt hr')⟩

omit [DecidableEq τ] in
/-- `freepageref` does not get behind a root without a page. -/
theorem Good.freepageref_error {g : Heap} (h : Good s all)
    (hroots : g.kheaproots = s.heap.kheaproots) (hpr : pr ∈ all)
    (hpage : (s.heap.kheaproots r).page = some page) (hk : k < npagerefsPerPage)
    (hpk : pr = refAddr page k) (hbefore : ∃ r' < r, (s.heap.kheaproots r').page = none) :
    (∃ r' < r, (s.heap.kheaproots r').page = none ∧
      npagerefsPerPage ≤ (s.heap.kheaproots r').numinuse) ∧
    Kmalloc.freepageref g pr (List.range numPagerefpages) = .error .numinuse := by
  classical
  obtain ⟨hr, hinuse, hpos⟩ := h.ref_used hpr hpage hk hpk
  -- the first of them
  set q := Nat.find hbefore with hq
  obtain ⟨hlt, hnone⟩ := Nat.find_spec hbefore
  rw [← hq] at hlt hnone
  have hfull := h.slots.first q r hlt hr hnone hpos
  refine ⟨⟨q, hlt, hnone, hfull⟩, ?_⟩
  have hzero : (s.heap.kheaproots q).numinuse ≠ 0 := by
    have : npagerefsPerPage = 256 := by decide
    omega
  rw [List.range_eq_range']
  refine Kmalloc.freepageref_error (by rw [hroots]; exact hnone) (by rw [hroots]; exact hzero) _ 0
    (Nat.zero_le q) (by omega) fun r' hr' _ => ?_
  have hsome : (s.heap.kheaproots r').page ≠ none := fun he =>
    Nat.find_min hbefore hr' ⟨by omega, he⟩
  obtain ⟨page', hpage'⟩ := Option.ne_none_iff_exists'.1 hsome
  rw [hroots]
  exact ⟨page', hpage', h.not_on_root hpage hk hpk hpage' (by omega)⟩

omit [DecidableEq τ] in
/-- The search of `subpage_kfree`. -/
theorem Good.findPage (h : Good s all) (ptr : Nat) (hfuel : all.length < fuel) :
    (findPage s.heap fuel ptr = some (.ok none) ∧ ∀ pr ∈ all,
      ¬ ((s.heap.pagerefs pr).pageaddr ≤ ptr ∧ ptr < (s.heap.pagerefs pr).pageaddr + pageSize)) ∨
    ∃ pr, findPage s.heap fuel ptr = some (.ok (some pr)) ∧ pr ∈ all ∧ OnPage s.heap pr ptr := by
  have hsearch : Kmalloc.findPage s.heap fuel ptr = some (.ok (all.find? fun pr =>
      decide ((s.heap.pagerefs pr).pageaddr ≤ ptr ∧
        ptr < (s.heap.pagerefs pr).pageaddr + pageSize))) :=
    search_eq h.shape.pages (fun pr hpr => by
      simp only [kassert_of (h.type_lt hpr)]
      rfl) hfuel
  rw [hsearch]
  cases hfind : all.find? fun pr => decide ((s.heap.pagerefs pr).pageaddr ≤ ptr ∧
      ptr < (s.heap.pagerefs pr).pageaddr + pageSize) with
  | none =>
      refine .inl ⟨rfl, fun pr hpr hin => ?_⟩
      have := List.find?_eq_none.1 hfind pr hpr
      simp [hin] at this
  | some pr =>
      have hin : (s.heap.pagerefs pr).pageaddr ≤ ptr ∧
          ptr < (s.heap.pagerefs pr).pageaddr + pageSize := by
        simpa using List.find?_some hfind
      have hpr := List.mem_of_find?_eq_some hfind
      exact .inr ⟨pr, rfl, hpr, ⟨all, h.shape.pages, hpr⟩, hin⟩

omit [DecidableEq τ] in
theorem Good.eq_of_onPage (h : Good s all) (hpr : pr ∈ all) (hon : OnPage s.heap pr ptr) {pr' : Nat}
    (hon' : OnPage s.heap pr' ptr) : pr' = pr := by
  obtain ⟨⟨all', hlist, hpr'⟩, hin'⟩ := hon'
  rw [hlist.unique h.shape.pages] at hpr'
  exact h.page_eq hpr' hpr hin' hon.2

omit [DecidableEq τ] in
/-- When the last live block of a page is given back, `Stuck` is about the roots before that of its
page reference. -/
theorem Good.stuck_iff (h : Good s all) (hpr : pr ∈ all) (hon : OnPage s.heap pr ptr)
    (hlast : (s.heap.pagerefs pr).nfree + 1 =
      pageSize / blockSize (s.heap.pagerefs pr).blocktype)
    (hpage : (s.heap.kheaproots r).page = some page) (hk : k < npagerefsPerPage)
    (hpk : pr = refAddr page k) :
    Stuck s.heap ptr ↔ ∃ r' < r, (s.heap.kheaproots r').page = none ∧
      npagerefsPerPage ≤ (s.heap.kheaproots r').numinuse := by
  constructor
  · rintro ⟨pr', hon', -, r₀, k₀, page₀, hpage₀, hk₀, hpk₀, hbefore⟩
    obtain rfl := h.eq_of_onPage hpr hon hon'
    obtain ⟨rfl, -⟩ := h.ref_unique hpage hpage₀ hk hk₀ (hpk.symm.trans hpk₀)
    exact hbefore
  · exact fun hbefore => ⟨pr, hon, hlast, r, k, page, hpage, hk, hpk, hbefore⟩

omit [DecidableEq τ] in
/-- `subpage_kfree` when the page is found and the block is back on its list. -/
theorem subpageKfree_push {g g' : Heap} (hfind : findPage g fuel ptr = some (.ok (some pr)))
    (hpush : pushBlock g pr ptr = .ok g') :
    Kmalloc.subpageKfree g fuel ptr =
      if (g'.pagerefs pr).nfree = pageSize / blockSize (g.pagerefs pr).blocktype then do
        match ← removeLists g' fuel pr (g.pagerefs pr).blocktype with
        | .error e => some (.error e)
        | .ok h => some ((Kmalloc.freepageref h pr (List.range numPagerefpages)).map
            fun h => (h, .page (g.pagerefs pr).pageaddr))
      else some (.ok (g', .block)) := by
  unfold Kmalloc.subpageKfree
  rw [hfind]
  simp only [Option.bind_eq_bind, Option.bind_some, hpush] <;> rfl

/-- `subpage_kfree` of a block that shares its page. -/
theorem Good.subpageKfree (h : Good s all) (hcall : ∀ u, s.pcs u ≠ .kfree ptr)
    (hlive : s.live ptr = some sz) (hsz : sz < largestSubpageSize) (hfuel : all.length < fuel) :
    (¬ Stuck s.heap ptr ∧ ∃ h', subpageKfree s.heap fuel ptr = some (.ok (h', .block)) ∧
      Good { s with heap := h', live := Function.update s.live ptr none } all) ∨
    (¬ Stuck s.heap ptr ∧ ∃ h' prpage all',
      subpageKfree s.heap fuel ptr = some (.ok (h', .page prpage)) ∧
      Good { s with heap := h', live := Function.update s.live ptr none
                    pcs := Function.update s.pcs t (.freePage prpage) } all') ∨
    (Stuck s.heap ptr ∧ subpageKfree s.heap fuel ptr = some (.error .numinuse)) := by
  obtain ⟨pr, hpr, hblock⟩ : ∃ pr ∈ all, IsBlock (s.heap.pagerefs pr) ptr := by
    rcases h.live ptr sz hlive with ⟨-, pr, hpr, -, hblock⟩ | ⟨hbig, -⟩
    · exact ⟨pr, hpr, hblock⟩
    · exact absurd hsz (Nat.not_lt_of_le hbig)
  have hin := h.isBlock_bounds hpr hblock
  obtain ⟨pr', hfind, hpr', hon⟩ := (h.findPage ptr hfuel).resolve_left fun hnone =>
    hnone.2 pr hpr hin
  obtain rfl := h.page_eq hpr' hpr hon.2 hin
  obtain ⟨l, hl⟩ := h.blocks pr' hpr
  obtain ⟨mem, f, hpush, hout, hf, hok⟩ := pushBlock_eq hl hblock (by simp [hlive])
  have hgood := h.give hpr hblock hout hf hok hcall
  set h₁ := ({ s.heap with mem := mem } : Heap).setPageref pr' f with hh₁
  have href : h₁.pagerefs pr' = f (s.heap.pagerefs pr') := Function.update_self ..
  have hnfree : (h₁.pagerefs pr').nfree = (s.heap.pagerefs pr').nfree + 1 := by
    rw [href, hok.nfree, hl.nfree, List.length_cons]
  have hrun := subpageKfree_push hfind hpush
  rw [hrun]
  by_cases hfull : (h₁.pagerefs pr').nfree =
      pageSize / blockSize (s.heap.pagerefs pr').blocktype
  · rw [if_pos hfull]
    have hlast := hnfree.symm.trans hfull
    obtain ⟨r, k, page, hpage, hk, hpk⟩ := h.located pr' hpr
    have hstuck := h.stuck_iff hpr hon hlast hpage hk hpk
    have htype : (h₁.pagerefs pr').blocktype = (s.heap.pagerefs pr').blocktype := by
      rw [href]
      exact hf.blocktype
    obtain ⟨refs, sizebases, allbase, hremove, hrefs, hshape⟩ :=
      removeLists_eq hgood.shape hpr (hgood.type_lt hpr) hfuel
    replace hremove : removeLists h₁ fuel pr' (s.heap.pagerefs pr').blocktype = some (.ok
        { h₁ with pagerefs := refs, sizebases := sizebases, allbase := allbase }) := by
      rw [← htype]
      exact hremove
    have hfree : ∀ b, IsBlock (h₁.pagerefs pr') b → Function.update s.live ptr none b = none := by
      rw [href]
      intro b hb
      have hlen : (ptr :: l).length = pageSize / blockSize (f (s.heap.pagerefs pr')).blocktype := by
        rw [← hok.nfree, ← href, htype, hfull]
      have hmem := mem_of_length_eq hok.nodup (fun c hc => ((hok.mem_iff c).1 hc).1) hlen hb
      exact ((hok.mem_iff b).1 hmem).2
    have haddr : (h₁.pagerefs pr').pageaddr = (s.heap.pagerefs pr').pageaddr := by
      rw [href]
      exact hf.pageaddr
    by_cases hbefore : ∃ r' < r, (s.heap.kheaproots r').page = none
    · obtain ⟨hfirst, herror⟩ := h.freepageref_error
        (g := { h₁ with pagerefs := refs, sizebases := sizebases, allbase := allbase }) rfl hpr
        hpage hk hpk hbefore
      refine .inr (.inr ⟨hstuck.2 hfirst, ?_⟩)
      rw [hremove]
      simp only [Option.bind_eq_bind, Option.bind_some, herror]
      rfl
    · have hdone := h.freepageref
        (g := { h₁ with pagerefs := refs, sizebases := sizebases, allbase := allbase }) rfl hpr
        hpage hk hpk fun r' hr' he => hbefore ⟨r', hr', he⟩
      refine .inr (.inl ⟨fun hs => ?_, Heap.dropPageref
        { h₁ with pagerefs := refs, sizebases := sizebases, allbase := allbase } r k,
        (s.heap.pagerefs pr').pageaddr, all.erase pr', ?_, ?_⟩)
      · obtain ⟨r', hr', hnone, -⟩ := hstuck.1 hs
        exact hbefore ⟨r', hr', hnone⟩
      · rw [hremove]
        simp only [Option.bind_eq_bind, Option.bind_some, hdone]
        rfl
      · rw [← haddr]
        exact hgood.release hpr hpage hk hpk hfree hrefs hshape
  · rw [if_neg hfull]
    refine .inl ⟨?_, h₁, rfl, hgood⟩
    rintro ⟨pr₀, hon₀, hlast, -⟩
    obtain rfl := h.eq_of_onPage hpr hon hon₀
    exact hfull (hnfree.trans hlast)

omit [DecidableEq τ] in
/-- `subpage_kfree` of a block that has its own pages. -/
theorem Good.subpageKfree_big (h : Good s all) (hlive : s.live ptr = some sz)
    (hsz : largestSubpageSize ≤ sz) (hfuel : all.length < fuel) :
    ptr % pageSize = 0 ∧ ¬ Stuck s.heap ptr ∧
      Kmalloc.subpageKfree s.heap fuel ptr = some (.ok (s.heap, .notOurs)) := by
  have ho : Owns s.heap all s.live s.pcs ptr .block := ⟨sz, hlive, hsz⟩
  have hout : ∀ pr ∈ all, ¬ ((s.heap.pagerefs pr).pageaddr ≤ ptr ∧
      ptr < (s.heap.pagerefs pr).pageaddr + pageSize) := by
    rintro pr hpr ⟨h₁, h₂⟩
    have ho' : Owns s.heap all s.live s.pcs (s.heap.pagerefs pr).pageaddr (.heap pr) := ⟨hpr, rfl⟩
    have he := h.owned.eq_of_mem ho' ho h₁ h₂ (Nat.le_refl ptr) (by simp [pageSize])
    rw [he] at ho'
    have := h.owned.unique _ _ _ ho ho'
    cases this
  refine ⟨(h.owned.aligned_of ho).1, ?_, ?_⟩
  · rintro ⟨pr, ⟨⟨all', hlist, hpr⟩, hin⟩, -⟩
    rw [hlist.unique h.shape.pages] at hpr
    exact hout pr hpr hin
  · rcases h.findPage ptr hfuel with ⟨hfind, -⟩ | ⟨pr, -, hpr, hon⟩
    · unfold Kmalloc.subpageKfree
      rw [hfind]
      rfl
    · exact absurd hon.2 (hout pr hpr)

/-! ## All parts -/

/-- The call of `kfree` that the thread is about to make is `Stuck`. -/
def Point.stuck (h : Heap) : Point → Prop
  | .kfree ptr => Stuck h ptr
  | _ => False

/-- A part of the code keeps the invariant, or it fails the assertion in `freepageref`. -/
theorem Good.critical (h : Good s all) (hruns : (s.pcs t).runs = true) (hfuel : all.length < fuel) :
    (¬ (s.pcs t).stuck s.heap ∧ ∃ q all', critical fuel s.heap (s.pcs t) = some (.ok q) ∧
      q.Fits s t ∧
      Good { s with heap := q.heap, live := q.blocks s.live
                    pcs := Function.update s.pcs t q.point } all') ∨
    ((s.pcs t).stuck s.heap ∧ critical fuel s.heap (s.pcs t) = some (.error .numinuse)) := by
  have hknows := h.knows t
  cases hp : s.pcs t with
  | kmalloc sz =>
      refine .inl ⟨id, ?_⟩
      rw [Kmalloc.critical]
      by_cases hbig : largestSubpageSize ≤ sz
      · rw [if_pos hbig]
        exact ⟨_, all, rfl, After.fits_none rfl (by simp),
          h.repoint_bare rfl rfl rfl hbig (by simp)⟩
      · rw [if_neg hbig]
        have hsz := Nat.lt_of_not_le hbig
        rcases h.subpageKmalloc hsz hfuel with hrun | ⟨h', ptr, hrun, hfree, hgood⟩
        · rw [hrun]
          exact ⟨_, all, rfl, After.fits_none rfl (by simp),
            h.repoint_bare rfl rfl rfl hsz (by simp)⟩
        · rw [hrun]
          exact ⟨_, all, rfl, After.fits_small rfl ⟨hfree, rfl⟩ hsz rfl,
            hgood.repoint_bare rfl rfl rfl trivial (by simp)⟩
  | gotBig sz a =>
      refine .inl ⟨id, ?_⟩
      have ho : Owns s.heap all s.live s.pcs a (.work t) := by
        change (s.pcs t).work = some a
        rw [hp]
        rfl
      have hfree : s.live a = none :=
        h.work_free ho (Nat.le_refl a) (Nat.lt_add_of_pos_right (by decide))
      rw [Kmalloc.critical, kassert_of (h.owned.aligned_of ho).1]
      refine ⟨_, all, rfl, ⟨?_, ?_, by simp⟩, h.takeBig hp⟩
      · intro ptr m hret
        cases hret
        exact ⟨hfree, rfl⟩
      · intro ptr m hret
        cases hret
        exact .inr hp
  | gotPage sz prpage =>
      refine .inl ⟨id, ?_⟩
      have ho : Owns s.heap all s.live s.pcs prpage (.work t) := by
        change (s.pcs t).work = some prpage
        rw [hp]
        rfl
      have hsz : sz < largestSubpageSize := by
        rw [hp] at hknows
        exact hknows
      rw [Kmalloc.critical, kassert_of (h.owned.aligned_of ho).1, List.range_eq_range']
      rcases allocpageref_eq h.slots numPagerefpages 0 with ⟨hrun, -⟩ | ⟨r, k, hrun, hr, hfree, hfull⟩
      · rw [hrun]
        refine ⟨_, all, rfl, After.fits_none rfl (by simp),
          h.repoint (fun a ha => ?_) (fun a ha => ?_) (fun c hc => ?_) trivial (by simp)⟩
        · rw [hp]
          exact ha
        · cases ha
        · cases hc
      · rw [hrun]
        replace hfull := fun r' hr' => hfull r' hr' (Nat.zero_le r')
        have hroot := page_takePageref s.heap r k r
        cases hpage : (s.heap.kheaproots r).page with
        | none =>
            rw [hpage] at hroot
            refine ⟨{ heap := s.heap.takePageref r k, point := .getRoot sz prpage r k }, all, ?_,
              After.fits_none rfl (by simp),
              h.takeRef hp (by omega) hfree hfull ⟨rfl, rfl, rfl⟩ hsz (by simp)⟩
            simp [bind, Except.bind, hroot]
        | some page =>
            rw [hpage] at hroot
            have hgood := h.takeRef hp (by omega) hfree hfull
              (p := .droppedRoot sz prpage r k) ⟨rfl, rfl, rfl⟩ ⟨hsz, by simp [hpage]⟩
              (by simp)
            obtain ⟨q, hrun', hfits, hgood'⟩ :=
              hgood.useNewPage (t := t) (Function.update_self ..) hroot
            simp only [Function.update_idem] at hgood'
            refine ⟨q, _, ?_, hfits.from_new rfl (Function.update_self ..), hgood'⟩
            simpa [bind, Except.bind, hroot] using hrun'
  | gotRoot sz prpage r k va =>
      refine .inl ⟨id, ?_⟩
      have ho : Owns s.heap all s.live s.pcs va (.extra t) := by
        change (s.pcs t).extra = some va
        rw [hp]
        rfl
      rw [hp] at hknows
      rw [Kmalloc.critical, kassert_of (h.owned.aligned_of ho).1]
      cases hpage : (s.heap.kheaproots r).page with
      | none =>
          have hgood := h.rootPage hp hpage
          have hroot : ((s.heap.setRoot r fun root => { root with page := some va }).kheaproots
              r).page = some va := by simp [Heap.setRoot]
          obtain ⟨q, hrun, hfits, hgood'⟩ :=
            hgood.useNewPage (t := t) (Function.update_self ..) hroot
          simp only [Function.update_idem] at hgood'
          refine ⟨q, _, ?_, hfits.from_new rfl (Function.update_self ..), hgood'⟩
          simpa [bind, Except.bind, hpage] using hrun
      | some page =>
          refine ⟨{ heap := s.heap, point := .dropRoot sz prpage r k va }, all, ?_,
            After.fits_none rfl (by simp), h.repoint (fun a ha => ?_) (fun a ha => ?_)
              (fun c hc => ?_) ⟨hknows, by simp [hpage]⟩ (by simp)⟩
          · simp [bind, Except.bind]
          all_goals
            rw [hp]
            assumption
  | droppedRoot sz prpage r k =>
      refine .inl ⟨id, ?_⟩
      rw [hp] at hknows
      obtain ⟨page, hpage⟩ := Option.ne_none_iff_exists'.1 hknows.2
      obtain ⟨q, hrun, hfits, hgood⟩ := h.useNewPage hp hpage
      refine ⟨q, _, ?_, hfits, hgood⟩
      rw [Kmalloc.critical]
      simpa [hpage] using hrun
  | kfree ptr =>
      rw [hp] at hknows
      obtain ⟨sz, hlive⟩ := Option.ne_none_iff_exists'.1 hknows
      rw [Kmalloc.critical]
      by_cases hbig : largestSubpageSize ≤ sz
      · obtain ⟨haligned, hstuck, hrun⟩ := h.subpageKfree_big hlive hbig hfuel
        refine .inl ⟨hstuck, ?_⟩
        rw [hrun]
        refine ⟨{ heap := s.heap, point := .freeBig ptr, taken := some ptr }, all, ?_,
          After.fits_none rfl (by simp), h.giveBig hp hlive hbig⟩
        simp [bind, Except.bind, kassert_of haligned]
      · have hgood : Good { s with pcs := Function.update s.pcs t .out } all :=
          h.repoint_bare rfl rfl rfl trivial (by simp)
        have hcall : ∀ u, Function.update s.pcs t .out u ≠ .kfree ptr := by
          intro u hu
          by_cases hut : u = t
          · rw [hut, Function.update_self] at hu
            cases hu
          · rw [Function.update_of_ne hut] at hu
            exact hut (h.frees u t ptr hu hp)
        rcases hgood.subpageKfree (t := t) hcall hlive (Nat.lt_of_not_le hbig) hfuel with
          ⟨hstuck, h', hrun, hgood'⟩ | ⟨hstuck, h', prpage, all', hrun, hgood'⟩ | ⟨hstuck, hrun⟩
        · replace hrun : Kmalloc.subpageKfree s.heap fuel ptr = _ := hrun
          refine .inl ⟨hstuck, ?_⟩
          rw [hrun]
          exact ⟨{ heap := h', point := .out, taken := some ptr }, all, rfl,
            After.fits_none rfl (by simp), hgood'⟩
        · replace hrun : Kmalloc.subpageKfree s.heap fuel ptr = _ := hrun
          simp only [Function.update_idem] at hgood'
          refine .inl ⟨hstuck, ?_⟩
          rw [hrun]
          exact ⟨{ heap := h', point := .freePage prpage, taken := some ptr }, all', rfl,
            After.fits_none rfl (by simp), hgood'⟩
        · replace hrun : Kmalloc.subpageKfree s.heap fuel ptr = _ := hrun
          refine .inr ⟨hstuck, ?_⟩
          rw [hrun]
          rfl
  | _ =>
      rw [hp] at hruns
      cases hruns

end Os161.Vm.Kmalloc

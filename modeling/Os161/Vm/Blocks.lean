import Mathlib.Data.List.GetD
import Mathlib.Data.List.Perm.Subperm
import Os161.Vm.Kmalloc

set_option autoImplicit false

/-!
# The blocks of a page

A page of the heap has blocks of one size, and the free ones are on its list, which is threaded
through them (`PageOk`). `doalloc` takes the first block from the list, `subpage_kfree` puts one in
front, and a new page has a list of all its blocks.
-/

namespace Os161.Vm.Kmalloc

open Os161.Lib.Links

/-! ## Sizes -/

theorem blockSize_spec : ∀ b < nsizes, 16 ≤ blockSize b ∧ blockSize b ≤ largestSubpageSize ∧
    2 ≤ pageSize / blockSize b ∧ pageSize / blockSize b * blockSize b = pageSize := by
  decide

theorem blocktype_spec {sz : Nat} (h : sz < largestSubpageSize) :
    blocktype sz < nsizes ∧ sz ≤ blockSize (blocktype sz) := by
  have hlt : blocktype sz < sizes.length := by
    apply List.findIdx_lt_length_of_exists
    refine ⟨2048, by decide, ?_⟩
    have : sz ≤ 2048 := Nat.le_of_lt h
    simpa using this
  refine ⟨hlt, ?_⟩
  have hp := List.findIdx_getElem (p := fun size => decide (sz ≤ size)) (w := hlt)
  have hget : blockSize (blocktype sz) = sizes[blocktype sz] := by
    unfold blockSize
    exact List.getD_eq_getElem _ _ hlt
  rw [hget]
  exact of_decide_eq_true hp

theorem mkpab_pageaddr {pa blk : Nat} (hpa : pa % pageSize = 0) (hblk : blk < nsizes) :
    mkpab pa blk / pageSize * pageSize = pa ∧ mkpab pa blk % pageSize = blk := by
  unfold mkpab
  have hn : blk < 8 := hblk
  simp only [pageSize] at hpa ⊢
  omega

/-- The addresses of the blocks of a page. -/
def IsBlock (ref : Pageref) (a : Nat) : Prop :=
  ∃ k < pageSize / blockSize ref.blocktype, a = ref.pageaddr + k * blockSize ref.blocktype

theorem IsBlock.bounds {ref : Pageref} {a : Nat} (h : IsBlock ref a)
    (htype : ref.blocktype < nsizes) :
    ref.pageaddr ≤ a ∧ a + blockSize ref.blocktype ≤ ref.pageaddr + pageSize := by
  obtain ⟨k, hk, rfl⟩ := h
  have hspec := (blockSize_spec _ htype).2.2.2
  refine ⟨Nat.le_add_right _ _, ?_⟩
  have hle : (k + 1) * blockSize ref.blocktype ≤
      pageSize / blockSize ref.blocktype * blockSize ref.blocktype := Nat.mul_le_mul_right _ hk
  rw [hspec, Nat.add_mul, Nat.one_mul] at hle
  omega

/-- Two blocks of a page do not overlap. -/
theorem IsBlock.apart {ref : Pageref} {a b : Nat} (ha : IsBlock ref a) (hb : IsBlock ref b)
    (hne : a ≠ b) : Apart a (blockSize ref.blocktype) b (blockSize ref.blocktype) := by
  obtain ⟨k, -, rfl⟩ := ha
  obtain ⟨m, -, rfl⟩ := hb
  have hkm : k ≠ m := by
    rintro rfl
    exact hne rfl
  unfold Apart
  rcases Nat.lt_or_gt_of_ne hkm with hlt | hlt
  · have := Nat.mul_le_mul_right (blockSize ref.blocktype) hlt
    rw [Nat.succ_mul] at this
    omega
  · have := Nat.mul_le_mul_right (blockSize ref.blocktype) hlt
    rw [Nat.succ_mul] at this
    omega

/-- The blocks of a page. -/
def blocksOf (ref : Pageref) : List Nat :=
  (List.range (pageSize / blockSize ref.blocktype)).map fun k =>
    ref.pageaddr + k * blockSize ref.blocktype

theorem mem_blocksOf {ref : Pageref} {a : Nat} : a ∈ blocksOf ref ↔ IsBlock ref a := by
  simp [blocksOf, IsBlock, eq_comm]

/-- There are not more blocks than fit on the page. -/
theorem length_le_of_blocks (ref : Pageref) {l : List Nat} (hnodup : l.Nodup)
    (hl : ∀ a ∈ l, IsBlock ref a) : l.length ≤ pageSize / blockSize ref.blocktype := by
  have hsub : l ⊆ blocksOf ref := fun a ha => mem_blocksOf.2 (hl a ha)
  have hle := (hnodup.subperm hsub).length_le
  simpa [blocksOf] using hle

/-- A list of that many blocks has all of them. -/
theorem mem_of_length_eq {ref : Pageref} {l : List Nat} (hnodup : l.Nodup)
    (hl : ∀ a ∈ l, IsBlock ref a) (hlen : l.length = pageSize / blockSize ref.blocktype) {a : Nat}
    (ha : IsBlock ref a) : a ∈ l := by
  by_contra hnot
  have hle := length_le_of_blocks ref (l := a :: l) (List.nodup_cons.2 ⟨hnot, hnodup⟩)
    (fun b hb => by
      rcases List.mem_cons.1 hb with rfl | hb
      · exact ha
      · exact hl b hb)
  rw [List.length_cons] at hle
  omega

/-! ## The list of a page -/

/-- The pointer in the first word of a block. -/
def nextBlock (mem : Nat → Nat) (a : Nat) : Option Nat := if mem a = 0 then none else some (mem a)

/-- The first block of the list. -/
def Pageref.headBlock (ref : Pageref) : Option Nat :=
  if ref.freelistOffset = invalidOffset then none else some (ref.pageaddr + ref.freelistOffset)

/-- The free blocks of a page, those that are not live, are on its list `l`. -/
structure PageOk (mem : Nat → Nat) (live : Nat → Option Nat) (ref : Pageref) (l : List Nat) :
    Prop where
  type : ref.blocktype < nsizes
  nonzero : ref.pageaddr ≠ 0
  listed : Listed (nextBlock mem) ref.headBlock l
  nfree : ref.nfree = l.length
  nodup : l.Nodup
  mem_iff : ∀ a, a ∈ l ↔ IsBlock ref a ∧ live a = none

variable {mem mem' : Nat → Nat} {live live' : Nat → Option Nat} {ref : Pageref} {l : List Nat}
  {a : Nat}

/-- The list is the same while nothing is written to free blocks. -/
theorem PageOk.same (h : PageOk mem live ref l)
    (hmem : ∀ a, IsBlock ref a → live a = none → mem' a = mem a)
    (hlive : ∀ a, IsBlock ref a → (live' a = none ↔ live a = none)) : PageOk mem' live' ref l where
  type := h.type
  nonzero := h.nonzero
  listed := h.listed.congr fun a ha => by
    obtain ⟨hblock, hnone⟩ := (h.mem_iff a).1 ha
    unfold nextBlock
    rw [hmem a hblock hnone]
  nfree := h.nfree
  nodup := h.nodup
  mem_iff a := by
    rw [h.mem_iff a]
    exact and_congr_right fun hblock => (hlive a hblock).symm

/-- Only the lists of pagerefs have changed. -/
theorem PageOk.relink {ref' : Pageref} (h : PageOk mem live ref l)
    (hpab : ref'.pageaddrAndBlocktype = ref.pageaddrAndBlocktype)
    (hoff : ref'.freelistOffset = ref.freelistOffset) (hn : ref'.nfree = ref.nfree) :
    PageOk mem live ref' l := by
  obtain ⟨ns, na, pab, off, n⟩ := ref
  obtain ⟨ns', na', pab', off', n'⟩ := ref'
  cases hpab
  cases hoff
  cases hn
  exact ⟨h.type, h.nonzero, h.listed, h.nfree, h.nodup, h.mem_iff⟩

theorem kassert_of {p : Prop} [Decidable p] (hp : p) (e : Panic) : kassert p e = .ok () := if_pos hp

/-- The first block of the list. -/
theorem PageOk.head (h : PageOk mem live ref (a :: l)) :
    ref.pageaddr + ref.freelistOffset = a ∧ ref.freelistOffset < pageSize := by
  obtain ⟨he, -⟩ := h.listed
  have hblock := ((h.mem_iff a).1 List.mem_cons_self).1
  have hbounds := hblock.bounds h.type
  have hsize := (blockSize_spec _ h.type).1
  unfold Pageref.headBlock at he
  split at he
  · cases he
  · have he := Option.some.inj he
    exact ⟨he, by omega⟩

/-- Another list of the same page. -/
structure SamePage (ref ref' : Pageref) : Prop where
  pab : ref'.pageaddrAndBlocktype = ref.pageaddrAndBlocktype
  nextSamesize : ref'.nextSamesize = ref.nextSamesize
  nextAll : ref'.nextAll = ref.nextAll

theorem SamePage.pageaddr {ref' : Pageref} (h : SamePage ref ref') :
    ref'.pageaddr = ref.pageaddr := by
  unfold Pageref.pageaddr
  rw [h.pab]

theorem SamePage.blocktype {ref' : Pageref} (h : SamePage ref ref') :
    ref'.blocktype = ref.blocktype := by
  unfold Pageref.blocktype
  rw [h.pab]

theorem SamePage.isBlock {ref' : Pageref} (h : SamePage ref ref') (b : Nat) :
    IsBlock ref' b ↔ IsBlock ref b := by
  unfold IsBlock
  rw [h.pageaddr, h.blocktype]

/-! ## Operations -/

/-- The first block is not free any more. -/
theorem mem_iff_take (h : PageOk mem live ref (a :: l)) (sz b : Nat) :
    b ∈ l ↔ IsBlock ref b ∧ Function.update live a (some sz) b = none := by
  have hiff := h.mem_iff b
  obtain ⟨ha, -⟩ := List.nodup_cons.1 h.nodup
  by_cases hb : b = a
  · subst hb
    simp [ha]
  · rw [Function.update_of_ne hb, ← hiff]
    simp [hb]

theorem doalloc_eq {h : Heap} {pr : Nat} (hpr : PageOk h.mem live (h.pagerefs pr) (a :: l))
    (sz : Nat) :
    ∃ f, doalloc h pr = .ok (h.setPageref pr f, a) ∧
      SamePage (h.pagerefs pr) (f (h.pagerefs pr)) ∧
      PageOk h.mem (Function.update live a (some sz)) (f (h.pagerefs pr)) l := by
  obtain ⟨hfl, hoff⟩ := hpr.head
  obtain ⟨-, hrest⟩ := hpr.listed
  have hlen := hpr.nfree
  rw [List.length_cons] at hlen
  have hnodup := (List.nodup_cons.1 hpr.nodup).2
  unfold doalloc
  simp only [hfl, kassert_of hoff]
  rw [show nextBlock h.mem a = if h.mem a = 0 then none else some (h.mem a) from rfl] at hrest
  split at hrest
  · rename_i hnext
    obtain rfl := hrest.eq_none
    have hn : (h.pagerefs pr).nfree - 1 = 0 := by simp [hlen]
    refine ⟨fun ref => { ref with nfree := (h.pagerefs pr).nfree - 1
                                  freelistOffset := invalidOffset }, ?_, ⟨rfl, rfl, rfl⟩, ?_⟩
    · simp [hnext, kassert, hn, bind, Except.bind]
    · exact ⟨hpr.type, hpr.nonzero, rfl, hn, hnodup, mem_iff_take hpr sz⟩
  · rename_i hnext
    obtain ⟨l', rfl, hrest'⟩ := hrest.eq_some
    have hblock := ((hpr.mem_iff (h.mem a)).1 (by simp)).1
    obtain ⟨hlow, hhigh⟩ := hblock.bounds hpr.type
    have hsize := (blockSize_spec _ hpr.type).1
    have hin : h.mem a - (h.pagerefs pr).pageaddr < pageSize := by omega
    have hn : (h.pagerefs pr).nfree - 1 = l'.length + 1 := by simp [hlen]
    refine ⟨fun ref => { ref with nfree := (h.pagerefs pr).nfree - 1
                                  freelistOffset := h.mem a - (h.pagerefs pr).pageaddr }, ?_,
      ⟨rfl, rfl, rfl⟩, ?_⟩
    · simp [hnext, kassert, hn, hlow, hin, bind, Except.bind]
    · refine ⟨hpr.type, hpr.nonzero, ⟨?_, hrest'⟩, hn, hnodup, mem_iff_take hpr sz⟩
      have hvalid : h.mem a - (h.pagerefs pr).pageaddr ≠ invalidOffset := by
        simp only [pageSize] at hin
        simp only [invalidOffset]
        omega
      unfold Pageref.headBlock
      rw [if_neg hvalid]
      exact congrArg some (Nat.add_sub_of_le hlow)

theorem fillDeadbeef_of_not_mem {ptr len b : Nat} (hb : ¬ (ptr ≤ b ∧ b < ptr + len)) :
    fillDeadbeef mem ptr len b = mem b := by
  unfold fillDeadbeef
  rw [if_neg]
  rintro ⟨h₁, h₂, -⟩
  exact hb ⟨h₁, h₂⟩

theorem pushBlock_eq {h : Heap} {pr ptr : Nat} (hpr : PageOk h.mem live (h.pagerefs pr) l)
    (hblock : IsBlock (h.pagerefs pr) ptr) (hlive : live ptr ≠ none) :
    ∃ mem' f, pushBlock h pr ptr = .ok ({ h with mem := mem' }.setPageref pr f) ∧
      (∀ b, ¬ (ptr ≤ b ∧ b < ptr + blockSize (h.pagerefs pr).blocktype) → mem' b = h.mem b) ∧
      SamePage (h.pagerefs pr) (f (h.pagerefs pr)) ∧
      PageOk mem' (Function.update live ptr none) (f (h.pagerefs pr)) (ptr :: l) := by
  set ref := h.pagerefs pr with href
  obtain ⟨hlow, hhigh⟩ := hblock.bounds hpr.type
  have hsize := (blockSize_spec _ hpr.type).1
  have hnot : ptr ∉ l := fun hmem => hlive ((hpr.mem_iff ptr).1 hmem).2
  have hnodup : (ptr :: l).Nodup := List.nodup_cons.2 ⟨hnot, hpr.nodup⟩
  have hlen := length_le_of_blocks ref hnodup fun b hb => by
    rcases List.mem_cons.1 hb with rfl | hb
    · exact hblock
    · exact ((hpr.mem_iff b).1 hb).1
  have hoff : ptr - ref.pageaddr < pageSize ∧
      (ptr - ref.pageaddr) % blockSize ref.blocktype = 0 := by
    refine ⟨by omega, ?_⟩
    obtain ⟨k, -, rfl⟩ := hblock
    rw [Nat.add_sub_cancel_left]
    exact Nat.mul_mod_left _ _
  have hptr : ref.pageaddr + (ptr - ref.pageaddr) = ptr := Nat.add_sub_of_le hlow
  have hself : ref.freelistOffset = invalidOffset ∨ ptr ≠ ref.pageaddr + ref.freelistOffset := by
    by_cases hinv : ref.freelistOffset = invalidOffset
    · exact .inl hinv
    · refine .inr ?_
      rintro rfl
      have hhead := hpr.listed
      unfold Pageref.headBlock at hhead
      rw [if_neg hinv] at hhead
      obtain ⟨l', rfl, -⟩ := hhead.eq_some
      exact hnot List.mem_cons_self
  set next := if ref.freelistOffset = invalidOffset then 0 else ref.pageaddr + ref.freelistOffset
    with hnext
  have hself' : ref.freelistOffset = invalidOffset ∨ ptr ≠ next := by
    rw [hnext]
    split
    · exact .inl ‹_›
    · exact hself
  have hnfree : ref.nfree + 1 ≤ pageSize / blockSize ref.blocktype := by
    rw [hpr.nfree]
    simpa using hlen
  have hsame : SamePage ref
      { ref with freelistOffset := ptr - ref.pageaddr, nfree := ref.nfree + 1 } := ⟨rfl, rfl, rfl⟩
  refine ⟨Function.update (fillDeadbeef h.mem ptr (blockSize ref.blocktype)) ptr next,
    fun ref => { ref with freelistOffset := ptr - ref.pageaddr, nfree := ref.nfree + 1 }, ?_, ?_,
    hsame, ?_⟩
  · unfold pushBlock
    simp only [← href, hptr, ← hnext, kassert_of hoff, kassert_of hself', kassert_of hnfree, bind,
      Except.bind, Heap.setPageref]
  · intro b hb
    have hne : b ≠ ptr := by
      rintro rfl
      exact hb ⟨Nat.le_refl _, by omega⟩
    rw [Function.update_of_ne hne]
    exact fillDeadbeef_of_not_mem hb
  · refine ⟨hpr.type, hpr.nonzero, ?_, congrArg (· + 1) hpr.nfree, hnodup, fun b => ?_⟩
    · have hvalid : ptr - ref.pageaddr ≠ invalidOffset := by
        have hin := hoff.1
        simp only [pageSize] at hin
        simp only [invalidOffset]
        omega
      have hhead : Pageref.headBlock
          { ref with freelistOffset := ptr - ref.pageaddr, nfree := ref.nfree + 1 } = some ptr := by
        unfold Pageref.headBlock
        rw [if_neg hvalid]
        exact congrArg some hptr
      rw [hhead]
      refine hpr.listed.push ?_ fun b hb => ?_
      · unfold nextBlock Pageref.headBlock
        rw [Function.update_self, hnext]
        split
        · rfl
        · have := hpr.nonzero
          rw [if_neg (by omega)]
      · -- another block of the page
        have hbl := (hpr.mem_iff b).1 hb
        have hne : b ≠ ptr := by
          rintro rfl
          exact hnot hb
        have hout : ¬ (ptr ≤ b ∧ b < ptr + blockSize ref.blocktype) := by
          have := hblock.apart hbl.1 hne.symm
          unfold Apart at this
          omega
        unfold nextBlock
        rw [Function.update_of_ne hne, fillDeadbeef_of_not_mem hout]
    · rw [hsame.isBlock b]
      by_cases hb : b = ptr
      · subst hb
        simpa using hblock
      · rw [Function.update_of_ne hb]
        simpa [hb] using hpr.mem_iff b

/-- The list of a new page, from the block `i` down. -/
def blocksDown (prpage size : Nat) : Nat → List Nat
  | 0 => [prpage]
  | i + 1 => (prpage + (i + 1) * size) :: blocksDown prpage size i

theorem length_blocksDown (prpage size i : Nat) : (blocksDown prpage size i).length = i + 1 := by
  induction i with
  | zero => rfl
  | succ i ih => rw [blocksDown, List.length_cons, ih]

theorem mem_blocksDown {prpage size i b : Nat} :
    b ∈ blocksDown prpage size i ↔ ∃ k < i + 1, b = prpage + k * size := by
  induction i with
  | zero => simp [blocksDown]
  | succ i ih =>
      rw [blocksDown, List.mem_cons, ih]
      constructor
      · rintro (rfl | ⟨k, hk, rfl⟩)
        · exact ⟨i + 1, by omega, rfl⟩
        · exact ⟨k, by omega, rfl⟩
      · rintro ⟨k, hk, rfl⟩
        rcases Nat.lt_or_ge k (i + 1) with hlt | hge
        · exact .inr ⟨k, hlt, rfl⟩
        · obtain rfl : k = i + 1 := by omega
          exact .inl rfl

theorem nodup_blocksDown {prpage size i : Nat} (hsize : 0 < size) :
    (blocksDown prpage size i).Nodup := by
  induction i with
  | zero => exact List.nodup_singleton _
  | succ i ih =>
      refine List.nodup_cons.2 ⟨fun hmem => ?_, ih⟩
      obtain ⟨k, hk, he⟩ := mem_blocksDown.1 hmem
      have := Nat.mul_lt_mul_of_pos_right hk hsize
      omega

theorem threadBlocks_eq (mem : Nat → Nat) {prpage size : Nat} (hsize : 0 < size) (hpage : prpage ≠ 0) (i : Nat) :
    ∃ mem', threadBlocks mem prpage size i = .ok mem' ∧
      Listed (nextBlock mem') (some (prpage + i * size)) (blocksDown prpage size i) ∧
      ∀ b, b ∉ blocksDown prpage size i → mem' b = mem b := by
  induction i with
  | zero =>
      refine ⟨_, rfl, ⟨by simp, ?_⟩, fun b hb =>
        Function.update_of_ne (by simpa [blocksDown] using hb) _ _⟩
      simp [nextBlock, Listed]
  | succ i ih =>
      obtain ⟨mem', hrun, hlist, hout⟩ := ih
      have hlt : prpage + i * size < prpage + (i + 1) * size := by
        rw [Nat.succ_mul]
        omega
      refine ⟨Function.update mem' (prpage + (i + 1) * size) (prpage + i * size), ?_, ?_,
        fun b hb => ?_⟩
      · have hne : prpage + (i + 1) * size ≠ prpage + i * size := Nat.ne_of_gt hlt
        simp only [threadBlocks, hrun, kassert_of hne]
        rfl
      · refine hlist.push ?_ fun b hb => ?_
        · unfold nextBlock
          rw [Function.update_self, if_neg (by omega)]
        · have hne : b ≠ prpage + (i + 1) * size := by
            rintro rfl
            exact (List.nodup_cons.1 (nodup_blocksDown hsize (i := i + 1))).1 hb
          unfold nextBlock
          rw [Function.update_of_ne hne]
      · rw [blocksDown, List.mem_cons, not_or] at hb
        rw [Function.update_of_ne hb.1]
        exact hout b hb.2

theorem newPage_eq (h : Heap) {prpage blk : Nat} (pr : Nat) (hpage : prpage ≠ 0)
    (haligned : prpage % pageSize = 0) (hblk : blk < nsizes)
    (hlive : ∀ b, prpage ≤ b → b < prpage + pageSize → live b = none) :
    ∃ mem' ref, newPage h prpage blk pr = .ok
        { h with mem := mem', pagerefs := Function.update h.pagerefs pr ref
                 sizebases := Function.update h.sizebases blk (some pr), allbase := some pr } ∧
      (∀ b, ¬ (prpage ≤ b ∧ b < prpage + pageSize) → mem' b = h.mem b) ∧
      ref.pageaddr = prpage ∧ ref.blocktype = blk ∧ ref.nextSamesize = h.sizebases blk ∧
      ref.nextAll = h.allbase ∧ PageOk mem' live ref
        (blocksDown prpage (blockSize blk) (pageSize / blockSize blk - 1)) := by
  obtain ⟨hsize, -, hn, hmul⟩ := blockSize_spec blk hblk
  obtain ⟨hpa, hbt⟩ := mkpab_pageaddr haligned hblk
  obtain ⟨mem', hrun, hlist, hout⟩ := threadBlocks_eq h.mem
    (show 0 < blockSize blk by omega) hpage (pageSize / blockSize blk - 1)
  set n := pageSize / blockSize blk with hndef
  set ref : Pageref :=
    { nextSamesize := h.sizebases blk, nextAll := h.allbase
      pageaddrAndBlocktype := mkpab prpage blk
      freelistOffset := prpage + (n - 1) * blockSize blk - prpage, nfree := n } with href
  have hpageaddr : ref.pageaddr = prpage := hpa
  have hblocktype : ref.blocktype = blk := hbt
  have hblocks : ∀ b, IsBlock ref b ↔ b ∈ blocksDown prpage (blockSize blk) (n - 1) := by
    intro b
    unfold IsBlock
    rw [hpageaddr, hblocktype, mem_blocksDown, ← hndef, Nat.sub_add_cancel (by omega)]
  have hbounds : ∀ b, IsBlock ref b → prpage ≤ b ∧ b < prpage + pageSize := by
    intro b hb
    have := hb.bounds (by rwa [hblocktype])
    rw [hpageaddr, hblocktype] at this
    omega
  refine ⟨mem', ref, ?_, fun b hb => hout b fun hmem => hb (hbounds b ((hblocks b).2 hmem)),
    hpageaddr, hblocktype, rfl, rfl, ?_⟩
  · have hoff : prpage + (n - 1) * blockSize blk - prpage = (n - 1) * blockSize blk :=
      Nat.add_sub_cancel_left ..
    unfold newPage
    simp only [← hndef, hrun, kassert_of hoff]
    rfl
  · refine ⟨by rwa [hblocktype], by rwa [hpageaddr], ?_, ?_, nodup_blocksDown (by omega), fun b => ?_⟩
    · have hlt : (n - 1) * blockSize blk < pageSize := by
        rw [← hmul]
        exact Nat.mul_lt_mul_of_pos_right (by omega) (by omega)
      have hhead : ref.headBlock = some (prpage + (n - 1) * blockSize blk) := by
        unfold Pageref.headBlock
        rw [if_neg, hpageaddr]
        · simp [href]
        · simp only [href, Nat.add_sub_cancel_left, invalidOffset]
          simp only [pageSize] at hlt
          omega
      rwa [hhead]
    · rw [length_blocksDown, Nat.sub_add_cancel (by omega)]
    · rw [← hblocks b, iff_self_and]
      intro hb
      obtain ⟨h₁, h₂⟩ := hbounds b hb
      exact hlive b h₁ h₂

end Os161.Vm.Kmalloc

import Os161.Lib.Links
import Os161.Lib.Runs

set_option autoImplicit false

/-!
# The kernel heap

`kmalloc` and `kfree` of `kern/vm/kmalloc.c`, without the debugging modes, which are off, called by
any number of threads. What a thread does while it has `kmalloc_spinlock` is one step (`section`);
`alloc_kpages` and `free_kpages`, which are called without the spinlock, are steps of their own, and
`alloc_kpages` always succeeds. The threads may write to the blocks that they have.

An address is a number, and `NULL` is `0` in memory and `none` in the pointers to a `struct pageref`.
Of the memory, `mem` has the words that begin at an address.
-/

namespace Os161.Vm.Kmalloc

open Os161.Lib.Links Os161.Lib.Runs

/-- `PAGE_SIZE`. -/
def pageSize : Nat := 4096

/-- `sizes`. -/
def sizes : List Nat := [16, 32, 64, 128, 256, 512, 1024, 2048]

/-- `NSIZES`. -/
def nsizes : Nat := sizes.length

/-- `sizes[blktype]`. -/
def blockSize (blktype : Nat) : Nat := sizes.getD blktype 0

/-- `LARGEST_SUBPAGE_SIZE`. -/
def largestSubpageSize : Nat := 2048

/-- `INVALID_OFFSET`. -/
def invalidOffset : Nat := 0xffff

/-- `sizeof(struct pageref)`. -/
def pagerefSize : Nat := 16

/-- `NPAGEREFS_PER_PAGE`. -/
def npagerefsPerPage : Nat := pageSize / pagerefSize

/-- `INUSE_WORDS`. -/
def inuseWords : Nat := npagerefsPerPage / 32

/-- `NUM_PAGEREFPAGES`. -/
def numPagerefpages : Nat := 16

/-- `struct pageref`. -/
structure Pageref where
  nextSamesize : Option Nat
  nextAll : Option Nat
  pageaddrAndBlocktype : Nat
  freelistOffset : Nat
  nfree : Nat
  deriving Repr

/-- `PR_PAGEADDR`. -/
def Pageref.pageaddr (pr : Pageref) : Nat := pr.pageaddrAndBlocktype / pageSize * pageSize

/-- `PR_BLOCKTYPE`. -/
def Pageref.blocktype (pr : Pageref) : Nat := pr.pageaddrAndBlocktype % pageSize

/-- `MKPAB`. -/
def mkpab (pa blk : Nat) : Nat := pa / pageSize * pageSize + blk % pageSize

/-- `struct kheap_root`; bit `j` of word `i` of `pagerefs_inuse` is `pagerefsInuse (32 * i + j)`. -/
structure KheapRoot where
  page : Option Nat
  pagerefsInuse : Nat → Bool
  numinuse : Nat

/-- The memory and the variables of `kmalloc.c`. -/
structure Heap where
  mem : Nat → Nat
  pagerefs : Nat → Pageref
  kheaproots : Nat → KheapRoot
  sizebases : Nat → Option Nat
  allbase : Option Nat

/-- Assertions and panics. -/
inductive Panic where
  /-- `KASSERT(pr->freelist_offset < PAGE_SIZE)`. -/
  | freelistOffset
  /-- `KASSERT(PR_BLOCKTYPE(pr) == blktype)`. -/
  | blocktype
  /-- `KASSERT(pr->nfree > 0)` or `KASSERT(pr->nfree == 0)`. -/
  | nfree
  /-- `KASSERT(fla - prpage < PAGE_SIZE)`. -/
  | freeEntry
  /-- `KASSERT(fl != fl->next)`. -/
  | selfLink
  /-- `KASSERT(pr->freelist_offset == (pr->nfree-1)*sizes[blktype])`. -/
  | firstOffset
  /-- `KASSERT(prpage % PAGE_SIZE == 0)`, and the same for other addresses of pages. -/
  | alignment
  /-- `KASSERT(0)` in `allocpageref`. -/
  | fullWord
  /-- `KASSERT(root->page != NULL)`. -/
  | rootPage
  /-- `KASSERT(root->numinuse == 0)` for a root without a page. -/
  | numinuse
  /-- `KASSERT((root->pagerefs_inuse[i] & k) != 0)` or `KASSERT(root->numinuse > 0)`. -/
  | notInuse
  /-- `KASSERT(0)` at the end of `freepageref`. -/
  | noRoot
  /-- `KASSERT(blktype >= 0 && blktype < NSIZES)`. -/
  | blktypeRange
  /-- `"kfree: subpage free of invalid addr %p\n"`. -/
  | invalidAddr
  /-- `KASSERT(pr->nfree <= PAGE_SIZE / sizes[blktype])`. -/
  | tooManyFree
  deriving DecidableEq, Repr

/-- `KASSERT`. -/
def kassert (p : Prop) [Decidable p] (e : Panic) : Except Panic Unit :=
  if p then .ok () else .error e

section Heaps

variable (h : Heap)

/-- An assignment to the `struct pageref` at `pr`. -/
def Heap.setPageref (pr : Nat) (f : Pageref → Pageref) : Heap :=
  { h with pagerefs := Function.update h.pagerefs pr (f (h.pagerefs pr)) }

/-- An assignment to `kheaproots[r]`. -/
def Heap.setRoot (r : Nat) (f : KheapRoot → KheapRoot) : Heap :=
  { h with kheaproots := Function.update h.kheaproots r (f (h.kheaproots r)) }

/-! ## Page references -/

/-- The first word of `pagerefs_inuse` that is not full. -/
def KheapRoot.freeWord (root : KheapRoot) : Option Nat :=
  (List.range inuseWords).find? fun i =>
    (List.range 32).any fun j => !root.pagerefsInuse (32 * i + j)

/-- `allocpageref`, up to the place where it has taken the bit of a `struct pageref`: the root and
the number of the bit. -/
def allocpageref : List Nat → Except Panic (Option (Nat × Nat))
  | [] => .ok none
  | r :: rs =>
      let root := h.kheaproots r
      if npagerefsPerPage ≤ root.numinuse then allocpageref rs
      else match root.freeWord with
        | none => allocpageref rs
        | some i =>
            match (List.range 32).find? fun j => !root.pagerefsInuse (32 * i + j) with
            | none => .error .fullWord
            | some j => .ok (some (r, 32 * i + j))

/-- `root->pagerefs_inuse[i] |= k; root->numinuse++`. -/
def Heap.takePageref (r k : Nat) : Heap :=
  h.setRoot r fun root =>
    { root with pagerefsInuse := Function.update root.pagerefsInuse k true
                numinuse := root.numinuse + 1 }

/-- `&root->page->refs[k]`. -/
def refAddr (page : Nat) (k : Nat) : Nat := page + k * pagerefSize

/-- `root->pagerefs_inuse[i] &= ~k; root->numinuse--`. -/
def Heap.dropPageref (r k : Nat) : Heap :=
  h.setRoot r fun root =>
    { root with pagerefsInuse := Function.update root.pagerefsInuse k false
                numinuse := root.numinuse - 1 }

/-- `freepageref`. -/
def freepageref (p : Nat) : List Nat → Except Panic Heap
  | [] => .error .noRoot
  | r :: rs =>
      let root := h.kheaproots r
      match root.page with
      | none => do
          kassert (root.numinuse = 0) .numinuse
          freepageref p rs
      | some page =>
          let j := (p - page) / pagerefSize
          if page ≤ p ∧ j < npagerefsPerPage then do
            kassert (root.pagerefsInuse j = true ∧ 0 < root.numinuse) .notInuse
            .ok (h.dropPageref r j)
          else freepageref p rs

/-! ## Allocation -/

/-- `blocktype`, for the sizes that `subpage_kmalloc` is called with. -/
def blocktype (clientsz : Nat) : Nat := sizes.findIdx fun size => clientsz ≤ size

/-- The code at `doalloc`: the block that is returned. -/
def doalloc (pr : Nat) : Except Panic (Heap × Nat) := do
  let ref := h.pagerefs pr
  kassert (ref.freelistOffset < pageSize) .freelistOffset
  let prpage := ref.pageaddr
  let fl := prpage + ref.freelistOffset
  let next := h.mem fl
  let nfree := ref.nfree - 1
  if next ≠ 0 then do
    kassert (0 < nfree) .nfree
    kassert (prpage ≤ next ∧ next - prpage < pageSize) .freeEntry
    .ok (h.setPageref pr fun ref => { ref with nfree := nfree, freelistOffset := next - prpage }, fl)
  else do
    kassert (nfree = 0) .nfree
    .ok (h.setPageref pr fun ref => { ref with nfree := nfree, freelistOffset := invalidOffset }, fl)

/-- `subpage_kmalloc`, before `alloc_kpages`: the block, or `none` when there is no page with a free
block. -/
def subpageKmalloc (fuel blktype : Nat) : Option (Except Panic (Heap × Option Nat)) := do
  let found ← search (fun pr => (h.pagerefs pr).nextSamesize)
    (fun pr => do
      kassert ((h.pagerefs pr).blocktype = blktype) .blocktype
      .ok (decide (0 < (h.pagerefs pr).nfree)))
    fuel (h.sizebases blktype)
  match found with
  | .error e => some (.error e)
  | .ok none => some (.ok (h, none))
  | .ok (some pr) => some ((doalloc h pr).map fun (h, ptr) => (h, some ptr))

/-- The loop that puts the blocks of a page on its list; the blocks up to `i` are on it. -/
def threadBlocks (mem : Nat → Nat) (prpage size : Nat) : Nat → Except Panic (Nat → Nat)
  | 0 => .ok (Function.update mem prpage 0)
  | i + 1 => do
      let mem ← threadBlocks mem prpage size i
      kassert (prpage + (i + 1) * size ≠ prpage + i * size) .selfLink
      .ok (Function.update mem (prpage + (i + 1) * size) (prpage + i * size))

/-- `subpage_kmalloc`, after `allocpageref`, up to `goto doalloc`. -/
def newPage (prpage blktype : Nat) (pr : Nat) : Except Panic Heap := do
  let nfree := pageSize / blockSize blktype
  let mem ← threadBlocks h.mem prpage (blockSize blktype) (nfree - 1)
  let offset := prpage + (nfree - 1) * blockSize blktype - prpage
  kassert (offset = (nfree - 1) * blockSize blktype) .firstOffset
  let h := { h with mem := mem }
  let h := h.setPageref pr fun _ =>
    { nextSamesize := h.sizebases blktype, nextAll := h.allbase
      pageaddrAndBlocktype := mkpab prpage blktype, freelistOffset := offset, nfree := nfree }
  .ok { h with sizebases := Function.update h.sizebases blktype (some pr), allbase := some pr }

/-! ## Release -/

/-- The loop of `subpage_kfree` that looks for the page of the address. -/
def findPage (fuel : Nat) (ptraddr : Nat) : Option (Except Panic (Option Nat)) :=
  search (fun pr => (h.pagerefs pr).nextAll)
    (fun pr => do
      let ref := h.pagerefs pr
      kassert (ref.blocktype < nsizes) .blktypeRange
      .ok (decide (ref.pageaddr ≤ ptraddr ∧ ptraddr < ref.pageaddr + pageSize)))
    fuel h.allbase

/-- `remove_lists`. -/
def removeLists (fuel : Nat) (pr : Nat) (blktype : Nat) : Option (Except Panic Heap) :=
  if blktype < nsizes then do
    let (base, next) ← unlink (h.sizebases blktype) (fun a => (h.pagerefs a).nextSamesize) pr fuel
    let h := { h with sizebases := Function.update h.sizebases blktype base
                      pagerefs := fun a => { h.pagerefs a with nextSamesize := next a } }
    let (base, next) ← unlink h.allbase (fun a => (h.pagerefs a).nextAll) pr fuel
    some (.ok { h with allbase := base
                       pagerefs := fun a => { h.pagerefs a with nextAll := next a } })
  else some (.error .blktypeRange)

/-- `fill_deadbeef`. -/
def fillDeadbeef (mem : Nat → Nat) (ptr len : Nat) : Nat → Nat := fun a =>
  if ptr ≤ a ∧ a < ptr + len ∧ (a - ptr) % 4 = 0 then 0xdeadbeef else mem a

/-- `subpage_kfree` behind the search, up to the test whether the whole page is free. -/
def pushBlock (pr ptraddr : Nat) : Except Panic Heap := do
  let ref := h.pagerefs pr
  let prpage := ref.pageaddr
  let offset := ptraddr - prpage
  kassert (offset < pageSize ∧ offset % blockSize ref.blocktype = 0) .invalidAddr
  let mem := fillDeadbeef h.mem ptraddr (blockSize ref.blocktype)
  let fl := prpage + offset
  let next := if ref.freelistOffset = invalidOffset then 0 else prpage + ref.freelistOffset
  kassert (ref.freelistOffset = invalidOffset ∨ fl ≠ next) .selfLink
  kassert (ref.nfree + 1 ≤ pageSize / blockSize ref.blocktype) .tooManyFree
  let h := { h with mem := Function.update mem fl next }
  .ok (h.setPageref pr fun ref => { ref with freelistOffset := offset, nfree := ref.nfree + 1 })

/-- What `subpage_kfree` has done. -/
inductive Freed where
  /-- It returns `-1`. -/
  | notOurs
  | block
  /-- The page is to be given to `free_kpages`. -/
  | page (prpage : Nat)
  deriving DecidableEq, Repr

/-- `subpage_kfree`, up to the call of `free_kpages`. -/
def subpageKfree (fuel : Nat) (ptraddr : Nat) : Option (Except Panic (Heap × Freed)) := do
  match ← findPage h fuel ptraddr with
  | .error e => some (.error e)
  | .ok none => some (.ok (h, .notOurs))
  | .ok (some pr) =>
      let prpage := (h.pagerefs pr).pageaddr
      let blktype := (h.pagerefs pr).blocktype
      match pushBlock h pr ptraddr with
      | .error e => some (.error e)
      | .ok h =>
          if (h.pagerefs pr).nfree = pageSize / blockSize blktype then do
            match ← removeLists h fuel pr blktype with
            | .error e => some (.error e)
            | .ok h =>
                some ((freepageref h pr (List.range numPagerefpages)).map fun h => (h, .page prpage))
          else some (.ok (h, .block))

end Heaps

/-! ## Threads -/

/-- Where a thread is. -/
inductive Point where
  /-- In no call. -/
  | out
  /-- `kmalloc(sz)`, at its start. -/
  | kmalloc (sz : Nat)
  /-- `address = alloc_kpages(npages)`. -/
  | getBig (sz : Nat)
  | gotBig (sz : Nat) (address : Nat)
  /-- `prpage = alloc_kpages(1)`. -/
  | getPage (sz : Nat)
  | gotPage (sz : Nat) (prpage : Nat)
  /-- `va = alloc_kpages(1)`, for the root `r`; the bit `k` is taken. -/
  | getRoot (sz : Nat) (prpage : Nat) (r k : Nat)
  | gotRoot (sz : Nat) (prpage : Nat) (r k : Nat) (va : Nat)
  /-- `free_kpages(va)`: somebody else has allocated the page of the root. -/
  | dropRoot (sz : Nat) (prpage : Nat) (r k : Nat) (va : Nat)
  | droppedRoot (sz : Nat) (prpage : Nat) (r k : Nat)
  /-- `free_kpages(prpage)`: there is no `struct pageref`. -/
  | dropPage (prpage : Nat)
  /-- `kfree(ptr)`, at its start. -/
  | kfree (ptr : Nat)
  /-- `free_kpages((vaddr_t)ptr)`. -/
  | freeBig (ptr : Nat)
  /-- `free_kpages(prpage)`: the whole page is free. -/
  | freePage (prpage : Nat)
  deriving DecidableEq, Repr

/-- The number of pages for a block that is not on a page with others; `size_t` has 32 bits. -/
def npages (sz : Nat) : Nat := (sz + pageSize - 1) % 2 ^ 32 / pageSize

/-- Pages that the thread waits for from `alloc_kpages`, and where it goes on with them. -/
def Point.wants : Point → Option (Nat × (Nat → Point))
  | .getBig sz => some (npages sz, .gotBig sz)
  | .getPage sz => some (1, .gotPage sz)
  | .getRoot sz prpage r k => some (1, .gotRoot sz prpage r k)
  | _ => none

/-- The pages that the thread gives to `free_kpages`, and where it goes on. -/
def Point.frees : Point → Option (Nat × Point)
  | .dropRoot sz prpage r k va => some (va, .droppedRoot sz prpage r k)
  | .dropPage prpage => some (prpage, .out)
  | .freeBig ptr => some (ptr, .out)
  | .freePage prpage => some (prpage, .out)
  | _ => none

/-- What a thread has done while it had the spinlock. -/
structure After where
  heap : Heap
  point : Point
  /-- The block that `kmalloc` returns, and the size that it has been asked for. -/
  returned : Option (Nat × Nat) := none
  /-- The block that has been given back. -/
  taken : Option Nat := none

/-- The block of a new page is allocated; `pr` is its `struct pageref`. -/
def useNewPage (h : Heap) (sz : Nat) (prpage pr : Nat) : Except Panic After := do
  let h ← newPage h prpage (blocktype sz) pr
  let (h, ptr) ← doalloc h pr
  .ok { heap := h, point := .out, returned := some (ptr, sz) }

/-- The code from one call of `alloc_kpages` or `free_kpages`, or the start of a call, to the next or
to the end; `none` when the fuel does not suffice, or the thread is at no such place. -/
def critical (fuel : Nat) (h : Heap) : Point → Option (Except Panic After)
  | .kmalloc sz =>
      if largestSubpageSize ≤ sz then some (.ok { heap := h, point := .getBig sz })
      else do
        match ← subpageKmalloc h fuel (blocktype sz) with
        | .error e => some (.error e)
        | .ok (h, none) => some (.ok { heap := h, point := .getPage sz })
        | .ok (h, some ptr) =>
            some (.ok { heap := h, point := .out, returned := some (ptr, sz) })
  | .gotBig sz address => some do
      kassert (address % pageSize = 0) .alignment
      .ok { heap := h, point := .out, returned := some (address, sz) }
  | .gotPage sz prpage => some do
      kassert (prpage % pageSize = 0) .alignment
      match ← allocpageref h (List.range numPagerefpages) with
      | none => .ok { heap := h, point := .dropPage prpage }
      | some (r, k) =>
          let h := h.takePageref r k
          match (h.kheaproots r).page with
          | none => .ok { heap := h, point := .getRoot sz prpage r k }
          | some page => useNewPage h sz prpage (refAddr page k)
  | .gotRoot sz prpage r k va => some do
      kassert (va % pageSize = 0) .alignment
      match (h.kheaproots r).page with
      | some _ => .ok { heap := h, point := .dropRoot sz prpage r k va }
      | none =>
          useNewPage (h.setRoot r fun root => { root with page := some va }) sz prpage (refAddr va k)
  | .droppedRoot sz prpage r k => some do
      match (h.kheaproots r).page with
      | none => .error .rootPage
      | some page => useNewPage h sz prpage (refAddr page k)
  | .kfree ptr => do
      match ← subpageKfree h fuel ptr with
      | .error e => some (.error e)
      | .ok (h, .notOurs) => some do
          kassert (ptr % pageSize = 0) .alignment
          .ok { heap := h, point := .freeBig ptr, taken := some ptr }
      | .ok (h, .block) => some (.ok { heap := h, point := .out, taken := some ptr })
      | .ok (h, .page prpage) =>
          some (.ok { heap := h, point := .freePage prpage, taken := some ptr })
  | _ => none

/-- A thread is at the start of a part of the code that `critical` describes. -/
def Point.runs : Point → Bool
  | .kmalloc _ | .gotBig .. | .gotPage .. | .gotRoot .. | .droppedRoot .. | .kfree _ => true
  | _ => false

/-- The heap, the pages that `alloc_kpages` has handed out, the blocks that `kmalloc` has returned
and `kfree` has not taken back, with the sizes asked for, and the threads. -/
structure State (τ : Type) where
  heap : Heap
  pages : Nat → Option Nat
  live : Nat → Option Nat
  pcs : τ → Point

/-- No page has been allocated, and nobody is in a call. -/
def boot (τ : Type) : State τ where
  heap :=
    { mem := fun _ => 0
      pagerefs := fun _ => { nextSamesize := none, nextAll := none, pageaddrAndBlocktype := 0,
                             freelistOffset := 0, nfree := 0 }
      kheaproots := fun _ => { page := none, pagerefsInuse := fun _ => false, numinuse := 0 }
      sizebases := fun _ => none
      allbase := none }
  pages _ := none
  live _ := none
  pcs _ := .out

/-- The addresses of `n` pages from `a` on; an address that `alloc_kpages` has returned is on a page
of its own even when no page has been asked for. -/
def pageSpan (n : Nat) : Nat := max n 1 * pageSize

/-- Addresses from `a` to `a + n` and from `b` to `b + m` are different. -/
def Apart (a n b m : Nat) : Prop := a + n ≤ b ∨ b + m ≤ a

/-- The memory of a block, from the size asked for. -/
def extent (sz : Nat) : Nat :=
  if largestSubpageSize ≤ sz then npages sz * pageSize else blockSize (blocktype sz)

/-- What `alloc_kpages(n)` may return. -/
structure Fresh (pages : Nat → Option Nat) (a n : Nat) : Prop where
  aligned : a % pageSize = 0
  nonzero : a ≠ 0
  apart : ∀ b m, pages b = some m → Apart a (pageSpan n) b (pageSpan m)

/-- The blocks after a part of the code of `kmalloc` or `kfree`. -/
def After.blocks (r : After) (live : Nat → Option Nat) : Nat → Option Nat :=
  let live := match r.taken with
    | none => live
    | some ptr => Function.update live ptr none
  match r.returned with
  | none => live
  | some (ptr, sz) => Function.update live ptr (some sz)

variable {τ : Type} [DecidableEq τ]

/-- One step of the thread `t`. Only a live block is freed, and by one thread. -/
inductive Step (s : State τ) (t : τ) : State τ → Prop where
  | callKmalloc {sz : Nat} : s.pcs t = .out → sz < 2 ^ 32 →
      Step s t { s with pcs := Function.update s.pcs t (.kmalloc sz) }
  | callKfree {ptr : Nat} : s.pcs t = .out → s.live ptr ≠ none → (∀ u, s.pcs u ≠ .kfree ptr) →
      Step s t { s with pcs := Function.update s.pcs t (.kfree ptr) }
  | critical {fuel : Nat} {r : After} : critical fuel s.heap (s.pcs t) = some (.ok r) →
      Step s t { s with heap := r.heap, live := r.blocks s.live
                        pcs := Function.update s.pcs t r.point }
  | allocKpages {n : Nat} {k : Nat → Point} {a : Nat} : (s.pcs t).wants = some (n, k) →
      Fresh s.pages a n →
      Step s t { s with pages := Function.update s.pages a (some n)
                        pcs := Function.update s.pcs t (k a) }
  | freeKpages {a : Nat} {k : Point} : (s.pcs t).frees = some (a, k) →
      Step s t { s with pages := Function.update s.pages a none, pcs := Function.update s.pcs t k }
  | write {a sz : Nat} {mem : Nat → Nat} : s.pcs t = .out → s.live a = some sz →
      (∀ b, ¬ (a ≤ b ∧ b < a + extent sz) → mem b = s.heap.mem b) →
      Step s t { s with heap := { s.heap with mem := mem } }

end Os161.Vm.Kmalloc

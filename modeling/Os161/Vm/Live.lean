import Os161.Vm.Pages

set_option autoImplicit false

/-!
# Live blocks

`Good` is the invariant of the heap between the parts of the code that are one step. It says who owns
the pages and the page references, that the list of every page has the blocks that are not live, and
where the live blocks are.
-/

namespace Os161.Vm.Kmalloc

open Os161.Lib.Links

/-- Owners of pages. -/
inductive Owner (τ : Type) where
  /-- The page of the `struct pageref` at `pr`. -/
  | heap (pr : Nat)
  /-- The page of `kheaproots[r]`. -/
  | root (r : Nat)
  /-- A thread that makes a block of it, or gives it back. -/
  | work (t : τ)
  /-- A thread that has got a page for a root. -/
  | extra (t : τ)
  /-- A live block. -/
  | block
  deriving DecidableEq

def Point.work : Point → Option Nat
  | .gotBig _ a | .gotPage _ a | .getRoot _ a _ _ | .gotRoot _ a _ _ _ | .dropRoot _ a _ _ _
  | .droppedRoot _ a _ _ | .dropPage a | .freeBig a | .freePage a => some a
  | _ => none

def Point.extra : Point → Option Nat
  | .gotRoot _ _ _ _ va | .dropRoot _ _ _ _ va => some va
  | _ => none

/-- The bit of `pagerefs_inuse` that the thread has set. -/
def Point.slot : Point → Option (Nat × Nat)
  | .getRoot _ _ r k | .gotRoot _ _ r k _ | .dropRoot _ _ r k _ | .droppedRoot _ _ r k => some (r, k)
  | _ => none

variable {τ : Type}

/-- `o` owns the page at `a`. -/
def Owns (h : Heap) (all : List Nat) (live : Nat → Option Nat) (pcs : τ → Point) (a : Nat) :
    Owner τ → Prop
  | .heap pr => pr ∈ all ∧ (h.pagerefs pr).pageaddr = a
  | .root r => (h.kheaproots r).page = some a
  | .work t => (pcs t).work = some a
  | .extra t => (pcs t).extra = some a
  | .block => ∃ sz, live a = some sz ∧ largestSubpageSize ≤ sz

/-- The bit belongs to a page of the heap, or to a thread. -/
def HasRef (h : Heap) (all : List Nat) (pcs : τ → Point) (c : Nat × Nat) : Option τ → Prop
  | none => ∃ page, (h.kheaproots c.1).page = some page ∧ c.2 < npagerefsPerPage ∧
      refAddr page c.2 ∈ all
  | some t => (pcs t).slot = some c

/-- What a thread knows. -/
def Knows (h : Heap) (pages live : Nat → Option Nat) : Point → Prop
  | .getBig sz => largestSubpageSize ≤ sz
  | .gotBig sz a => largestSubpageSize ≤ sz ∧ pages a = some (npages sz)
  | .getPage sz | .gotPage sz _ | .getRoot sz _ _ _ | .gotRoot sz _ _ _ _ => sz < largestSubpageSize
  | .dropRoot sz _ r _ _ | .droppedRoot sz _ r _ =>
      sz < largestSubpageSize ∧ (h.kheaproots r).page ≠ none
  | .kfree ptr => live ptr ≠ none
  | _ => True

/-- Where a live block is. -/
def Placed (h : Heap) (all : List Nat) (pages : Nat → Option Nat) (a sz : Nat) : Prop :=
  (sz < largestSubpageSize ∧ ∃ pr ∈ all, (h.pagerefs pr).blocktype = blocktype sz ∧
    IsBlock (h.pagerefs pr) a) ∨
  (largestSubpageSize ≤ sz ∧ pages a = some (npages sz))

/-- The heap between two parts of the code that are one step; `all` are the pages of the heap. -/
structure Good (s : State τ) (all : List Nat) : Prop where
  owned : Owned s.pages (Owns s.heap all s.live s.pcs)
  slots : Slots s.heap.kheaproots (HasRef s.heap all s.pcs)
  shape : Shape s.heap all
  located : ∀ pr ∈ all, ∃ r k page, (s.heap.kheaproots r).page = some page ∧
    k < npagerefsPerPage ∧ pr = refAddr page k
  blocks : ∀ pr ∈ all, ∃ l, PageOk s.heap.mem s.live (s.heap.pagerefs pr) l
  live : ∀ a sz, s.live a = some sz → Placed s.heap all s.pages a sz
  knows : ∀ t, Knows s.heap s.pages s.live (s.pcs t)
  frees : ∀ t u ptr, s.pcs t = .kfree ptr → s.pcs u = .kfree ptr → t = u

theorem good_boot : Good (boot τ) [] where
  owned := by
    refine ⟨fun a o ho => ?_, fun a o o' ho => ?_, nofun, nofun⟩
    all_goals
      cases o with
      | heap pr => exact absurd ho.1 List.not_mem_nil
      | root r => cases ho
      | work t => cases ho
      | extra t => cases ho
      | block =>
          obtain ⟨sz, hsz, -⟩ := ho
          cases hsz
  slots := by
    refine ⟨fun r k o ho => ?_, fun c o o' ho => ?_, fun r => ?_, fun r r' _ _ _ hpos =>
      absurd hpos (Nat.lt_irrefl 0)⟩
    · cases o with
      | none =>
          obtain ⟨page, hpage, -⟩ := ho
          cases hpage
      | some t => cases ho
    · cases o with
      | none =>
          obtain ⟨page, hpage, -⟩ := ho
          cases hpage
      | some t => cases ho
    · simp [boot, KheapRoot.inuse]
  shape := ⟨rfl, List.nodup_nil, fun b _ => ⟨[], rfl, List.nodup_nil, by simp⟩⟩
  located _ h := absurd h List.not_mem_nil
  blocks _ h := absurd h List.not_mem_nil
  live _ _ h := by cases h
  knows _ := trivial
  frees _ _ _ h := by cases h

variable {s : State τ} {all : List Nat} {t u : τ} {p : Point} {pr a b sz m : Nat} {l : List Nat}

/-! ## Where the blocks are -/

theorem Good.type_lt (h : Good s all) (hpr : pr ∈ all) :
    (s.heap.pagerefs pr).blocktype < nsizes := by
  obtain ⟨l, hl⟩ := h.blocks pr hpr
  exact hl.type

/-- An address is on one page of the heap only. -/
theorem Good.page_eq (h : Good s all) {pr' c : Nat} (hpr : pr ∈ all) (hpr' : pr' ∈ all)
    (hc : (s.heap.pagerefs pr).pageaddr ≤ c ∧ c < (s.heap.pagerefs pr).pageaddr + pageSize)
    (hc' : (s.heap.pagerefs pr').pageaddr ≤ c ∧ c < (s.heap.pagerefs pr').pageaddr + pageSize) :
    pr = pr' := by
  have ho : Owns s.heap all s.live s.pcs (s.heap.pagerefs pr).pageaddr (.heap pr) := ⟨hpr, rfl⟩
  have ho' : Owns s.heap all s.live s.pcs (s.heap.pagerefs pr').pageaddr (.heap pr') := ⟨hpr', rfl⟩
  have he := h.owned.eq_of_mem ho ho' hc.1 hc.2 hc'.1 hc'.2
  rw [he] at ho
  have := h.owned.unique _ _ _ ho ho'
  cases this
  rfl

theorem Good.isBlock_bounds (h : Good s all) (hpr : pr ∈ all)
    (hb : IsBlock (s.heap.pagerefs pr) b) : (s.heap.pagerefs pr).pageaddr ≤ b ∧
      b < (s.heap.pagerefs pr).pageaddr + pageSize := by
  have hbounds := hb.bounds (h.type_lt hpr)
  have hsize := (blockSize_spec _ (h.type_lt hpr)).1
  omega

theorem extent_small (hsz : sz < largestSubpageSize) : extent sz = blockSize (blocktype sz) :=
  if_neg (Nat.not_le_of_lt hsz)

theorem extent_le_pageSpan (hsz : largestSubpageSize ≤ sz) : extent sz ≤ pageSpan (npages sz) := by
  unfold extent pageSpan
  rw [if_pos hsz]
  exact Nat.mul_le_mul_right _ (Nat.le_max_left _ _)

/-- The page on which a live block begins, its length, and its owner. -/
theorem Good.live_page (h : Good s all) (ha : s.live a = some sz) :
    ∃ c n o, Owns s.heap all s.live s.pcs c o ∧ s.pages c = some n ∧ c ≤ a ∧
      a + extent sz ≤ c + pageSpan n ∧ a < c + pageSize ∧
      ((∃ pr ∈ all, o = .heap pr ∧ IsBlock (s.heap.pagerefs pr) a ∧ sz < largestSubpageSize ∧
          (s.heap.pagerefs pr).blocktype = blocktype sz) ∨
        (o = .block ∧ c = a ∧ largestSubpageSize ≤ sz)) := by
  rcases h.live a sz ha with ⟨hsz, pr, hpr, htype, hblock⟩ | ⟨hsz, hpages⟩
  · have ho : Owns s.heap all s.live s.pcs (s.heap.pagerefs pr).pageaddr (.heap pr) := ⟨hpr, rfl⟩
    obtain ⟨n, hn⟩ := Option.ne_none_iff_exists'.1 (h.owned.page _ _ ho)
    have hbounds := hblock.bounds (h.type_lt hpr)
    have hsize := (blockSize_spec _ (h.type_lt hpr)).1
    have hspan := pageSize_le_pageSpan n
    have hext : extent sz = blockSize (s.heap.pagerefs pr).blocktype := by
      rw [extent_small hsz, htype]
    exact ⟨_, n, _, ho, hn, hbounds.1, by omega, by omega,
      .inl ⟨pr, hpr, rfl, hblock, hsz, htype⟩⟩
  · refine ⟨a, npages sz, .block, ⟨sz, ha, hsz⟩, hpages, Nat.le_refl a, ?_, ?_,
      .inr ⟨rfl, rfl, hsz⟩⟩
    · have := extent_le_pageSpan hsz
      omega
    · simp only [pageSize]
      omega

/-- Live blocks do not overlap. -/
theorem Good.live_apart (h : Good s all) (ha : s.live a = some sz) (hb : s.live b = some m)
    (hne : a ≠ b) : Apart a (extent sz) b (extent m) := by
  obtain ⟨c, n, o, ho, hn, hca, hend, -, hcase⟩ := h.live_page ha
  obtain ⟨d, k, o', ho', hk, hdb, hend', -, hcase'⟩ := h.live_page hb
  by_cases hcd : c = d
  · subst hcd
    have he := h.owned.unique _ _ _ ho ho'
    rcases hcase with ⟨pr, hpr, rfl, hblock, hsz, htype⟩ | ⟨rfl, rfl, -⟩
    · rcases hcase' with ⟨pr', hpr', e, hblock', hm, htype'⟩ | ⟨e, -⟩
      · rw [e] at he
        cases he
        rw [extent_small hsz, extent_small hm, ← htype, ← htype']
        exact hblock.apart hblock' hne
      · rw [e] at he
        cases he
    · rcases hcase' with ⟨pr', hpr', e, -⟩ | ⟨-, e, -⟩
      · rw [e] at he
        cases he
      · exact absurd e hne
  · have := h.owned.apart c d n k hn hk hcd
    unfold Apart at *
    omega

/-- A block that is not live is not inside one that is. -/
theorem Good.free_apart (h : Good s all) (ha : s.live a = some sz) (hpr : pr ∈ all)
    (hb : IsBlock (s.heap.pagerefs pr) b) (hfree : s.live b = none) :
    ¬ (a ≤ b ∧ b < a + extent sz) := by
  obtain ⟨c, n, o, ho, hn, hca, hend, -, hcase⟩ := h.live_page ha
  have hbounds := h.isBlock_bounds hpr hb
  have hne : a ≠ b := by
    rintro rfl
    rw [ha] at hfree
    cases hfree
  have ho' : Owns s.heap all s.live s.pcs (s.heap.pagerefs pr).pageaddr (.heap pr) := ⟨hpr, rfl⟩
  by_cases hcd : c = (s.heap.pagerefs pr).pageaddr
  · subst hcd
    have he := h.owned.unique _ _ _ ho ho'
    subst he
    rcases hcase with ⟨pr', hpr', e, hblock, hsz, htype⟩ | ⟨e, -⟩
    · cases e
      rw [extent_small hsz, ← htype]
      have := hblock.apart hb hne
      have := (blockSize_spec _ (h.type_lt hpr)).1
      unfold Apart at *
      omega
    · cases e
  · obtain ⟨k, hk⟩ := Option.ne_none_iff_exists'.1 (h.owned.page _ _ ho')
    have := h.owned.apart c _ n k hn hk hcd
    have := pageSize_le_pageSpan k
    unfold Apart at *
    omega

/-- No live block begins on a page that a thread works with. -/
theorem Good.work_free (h : Good s all) (hwork : (s.pcs t).work = some a) (hab : a ≤ b)
    (hb : b < a + pageSize) : s.live b = none := by
  cases hlive : s.live b with
  | none => rfl
  | some sz =>
      obtain ⟨c, n, o, ho, -, hcb, -, hlt, hcase⟩ := h.live_page hlive
      have ho' : Owns s.heap all s.live s.pcs a (.work t) := hwork
      have he := h.owned.eq_of_mem ho ho' hcb hlt hab hb
      subst he
      have he := h.owned.unique _ _ _ ho ho'
      subst he
      rcases hcase with ⟨pr, -, e, -⟩ | ⟨e, -⟩ <;> cases e

end Os161.Vm.Kmalloc

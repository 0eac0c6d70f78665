import Os161.Vm.Pages

set_option autoImplicit false

/-!
# Page references when memory runs out

`allocpageref`, `allocpagerefpage` and `freepageref` of `kern/vm/kmalloc.c`, called by any number of
threads. A call takes its bit before its root has a page and drops `kmalloc_spinlock` around
`alloc_kpages`, which may fail; what a thread does while it has the spinlock is one step.
-/

namespace Os161.Vm.Kmalloc

open Os161.Lib.Runs

/-- How far a call has come when it drops the spinlock or returns. -/
inductive Outcome where
  /-- `allocpageref` has returned `NULL`. -/
  | null
  /-- `allocpageref` has returned `&kheaproots[r].page->refs[k]`. -/
  | ref (r k : Nat)
  /-- `va = alloc_kpages(1)`. -/
  | wait (r k : Nat)
  /-- `free_kpages(va)`. -/
  | drop (r k va : Nat)
  /-- `freepageref` has returned. -/
  | freed
  deriving DecidableEq, Repr

section Calls

variable (h : Heap)

/-- `allocpageref`, up to `alloc_kpages` or to the end. -/
def enterAllocpageref : Except Panic (Heap × Outcome) :=
  match allocpageref h (List.range numPagerefpages) with
  | .error e => .error e
  | .ok none => .ok (h, .null)
  | .ok (some (r, k)) =>
      match ((h.takePageref r k).kheaproots r).page with
      | none => .ok (h.takePageref r k, .wait r k)
      | some _ => .ok (h.takePageref r k, .ref r k)

/-- `allocpageref` from `alloc_kpages` on, which has failed or has given the page `va`. -/
def backFromAlloc (r k : Nat) : Option Nat → Except Panic (Heap × Outcome)
  | none =>
      match (h.kheaproots r).page with
      | none => .ok (h, .null)
      | some _ => .ok (h, .ref r k)
  | some va => do
      kassert (va % pageSize = 0) .alignment
      match (h.kheaproots r).page with
      | some _ => .ok (h, .drop r k va)
      | none => .ok (h.setRoot r fun root => { root with page := some va }, .ref r k)

/-- `allocpageref` from `free_kpages` on. -/
def backFromFree (r k : Nat) : Except Panic (Heap × Outcome) :=
  match (h.kheaproots r).page with
  | none => .error .rootPage
  | some _ => .ok (h, .ref r k)

end Calls

/-- Where a thread is. -/
inductive RefPoint where
  | out
  | wait (r k : Nat)
  | drop (r k va : Nat)
  deriving DecidableEq, Repr

/-- The heap, the pages that `alloc_kpages` has handed out, the page references that
`allocpageref` has returned and `freepageref` has not got back, and the threads. -/
structure RefState (τ : Type) where
  heap : Heap
  pages : Nat → Option Nat
  handed : Finset (Nat × Nat)
  pcs : τ → RefPoint

/-- What happens next to a thread. -/
inductive Action where
  /-- It calls `allocpageref`. -/
  | alloc
  /-- `alloc_kpages` comes back. -/
  | pages (va : Option Nat)
  /-- `free_kpages` comes back. -/
  | dropped
  /-- It calls `freepageref(&kheaproots[r].page->refs[k])`. -/
  | free (r k : Nat)
  deriving DecidableEq, Repr

section States

variable {τ : Type} [DecidableEq τ]

/-- The state after a thread has come as far as the outcome tells. -/
def RefState.after (s : RefState τ) (t : τ) (h : Heap) : Outcome → RefState τ
  | .ref r k =>
      { s with heap := h, handed := insert (r, k) s.handed, pcs := Function.update s.pcs t .out }
  | .wait r k => { s with heap := h, pcs := Function.update s.pcs t (.wait r k) }
  | .drop r k va => { s with heap := h, pcs := Function.update s.pcs t (.drop r k va) }
  | _ => { s with heap := h, pcs := Function.update s.pcs t .out }

/-- The part of a call that the action begins; `none` when the thread is not there. -/
def RefState.act (s : RefState τ) (t : τ) : Action → Option (Except Panic (RefState τ × Outcome))
  | .alloc =>
      if s.pcs t = .out then
        some ((enterAllocpageref s.heap).map fun x => (s.after t x.1 x.2, x.2))
      else none
  | .pages va =>
      match s.pcs t with
      | .wait r k =>
          let pages := va.elim s.pages fun a => Function.update s.pages a (some 1)
          some ((backFromAlloc s.heap r k va).map fun x =>
            ({ s.after t x.1 x.2 with pages := pages }, x.2))
      | _ => none
  | .dropped =>
      match s.pcs t with
      | .drop r k va =>
          some ((backFromFree s.heap r k).map fun x =>
            ({ s.after t x.1 x.2 with pages := Function.update s.pages va none }, x.2))
      | _ => none
  | .free r k =>
      match (s.heap.kheaproots r).page with
      | some page =>
          if s.pcs t = .out ∧ (r, k) ∈ s.handed then
            some ((freepageref s.heap (refAddr page k) (List.range numPagerefpages)).map fun h =>
              ({ s.after t h .freed with handed := s.handed.erase (r, k) }, .freed))
          else none
      | none => none

/-- `alloc_kpages` gives new pages. -/
def RefState.Allowed (s : RefState τ) : Action → Prop
  | .pages (some va) => Fresh s.pages va 1
  | _ => True

/-- One step of a thread. -/
def RefStep (s : RefState τ) (a : τ × Action) (s' : RefState τ) : Prop :=
  s.Allowed a.2 ∧ ∃ o, s.act a.1 a.2 = some (.ok (s', o))

/-- No page has been allocated, and nobody is in a call. -/
def refBoot (τ : Type) : RefState τ where
  heap :=
    { mem := fun _ => 0
      pagerefs := fun _ => { nextSamesize := none, nextAll := none, pageaddrAndBlocktype := 0,
                             freelistOffset := 0, nfree := 0 }
      kheaproots := fun _ => { page := none, pagerefsInuse := fun _ => false, numinuse := 0 }
      sizebases := fun _ => none
      allbase := none }
  pages _ := none
  handed := ∅
  pcs _ := .out

/-! ## Accounts -/

/-- The thread has taken the bit. -/
def RefPoint.holds : RefPoint → Nat × Nat → Prop
  | .out, _ => False
  | .wait r k, c => c = (r, k)
  | .drop r k _, c => c = (r, k)

/-- The bits and the counter of every root are those of the page references that are handed out,
and of the calls that are on their way. -/
structure Accounted (s : RefState τ) : Prop where
  bits : ∀ r < numPagerefpages, ∀ k < npagerefsPerPage,
    (s.heap.kheaproots r).pagerefsInuse k = true ↔
      (r, k) ∈ s.handed ∨ ∃ t, (s.pcs t).holds (r, k)
  counted : ∀ r < numPagerefpages, (s.heap.kheaproots r).numinuse = (s.heap.kheaproots r).inuse.card
  idle : (∀ t, s.pcs t = .out) → ∀ r < numPagerefpages,
    (s.heap.kheaproots r).numinuse = (s.handed.filter fun c => c.1 = r).card

/-- A call neither fails an assertion nor changes anything when it returns `NULL`. -/
def CallsFine (s : RefState τ) (t : τ) (a : Action) : Prop :=
  ∀ x, s.act t a = some x → ∃ s' o, x = .ok (s', o) ∧
    (o = .null → s.pcs t = .out ∧ s'.heap = s.heap ∧ s'.handed = s.handed)

/-- When `alloc_kpages` fails, the root has got a page from another call in the meantime; and no call
waits for the page of a root before that of a page reference that is freed. -/
def Supplied (s : RefState τ) (a : τ × Action) : Prop :=
  match a.2 with
  | .pages none => ∀ r k, s.pcs a.1 = .wait r k → (s.heap.kheaproots r).page ≠ none
  | .free r _ => ∀ r' < r, (s.heap.kheaproots r').page = none → ∀ u k, s.pcs u ≠ .wait r' k
  | _ => True

/-! ## The invariant -/

/-- Who has a bit: a caller of `allocpageref`, or a thread that is still in it. -/
def RefState.holder (s : RefState τ) (c : Nat × Nat) : Option τ → Prop
  | none => c ∈ s.handed
  | some t => (s.pcs t).holds c

/-- Who has a page: a root, or a thread that is about to free it. -/
def RefState.pageHolder (s : RefState τ) (a : Nat) : Nat ⊕ τ → Prop
  | .inl r => (s.heap.kheaproots r).page = some a
  | .inr t => ∃ r k, s.pcs t = .drop r k a

structure RefInv (s : RefState τ) : Prop where
  slots : Slots s.heap.kheaproots s.holder
  held : ∀ r k, (s.heap.kheaproots r).pagerefsInuse k = true → ∃ o, s.holder (r, k) o
  page : ∀ r k, (r, k) ∈ s.handed → (s.heap.kheaproots r).page ≠ none
  late : ∀ t r k va, s.pcs t = .drop r k va → (s.heap.kheaproots r).page ≠ none
  owned : Owned s.pages s.pageHolder

variable {s s' : RefState τ} {t : τ} {r k va : Nat} {o : Outcome} {h : Heap}

omit [DecidableEq τ] in
theorem refInv_boot : RefInv (refBoot τ) where
  slots :=
    { used := fun _ _ o ho => by cases o <;> exact absurd ho (by simp [RefState.holder, refBoot, RefPoint.holds])
      unique := fun _ o _ ho _ => by cases o <;> exact absurd ho (by simp [RefState.holder, refBoot, RefPoint.holds])
      count := fun _ => by simp [refBoot, KheapRoot.inuse]
      first := fun _ _ _ _ _ hpos => absurd hpos (Nat.lt_irrefl 0) }
  held _ _ hbit := by cases hbit
  page _ _ hmem := absurd hmem (Finset.notMem_empty _)
  late _ _ _ _ hpc := by cases hpc
  owned :=
    { page := fun _ o ho => by
        cases o with
        | inl r => cases ho
        | inr t => obtain ⟨r, k, hpc⟩ := ho; cases hpc
      unique := fun _ o _ ho _ => by
        cases o with
        | inl r => cases ho
        | inr t => obtain ⟨r, k, hpc⟩ := ho; cases hpc
      apart := fun _ _ _ _ ha => by cases ha
      aligned := fun _ _ ha => by cases ha }

omit [DecidableEq τ] in
/-- A thread that waits has its bit. -/
theorem RefInv.inuse (hs : RefInv s) {o : Option τ} (ho : s.holder (r, k) o) :
    r < numPagerefpages ∧ k < npagerefsPerPage ∧
      (s.heap.kheaproots r).pagerefsInuse k = true ∧ 0 < (s.heap.kheaproots r).numinuse := by
  obtain ⟨hr, hk, hbit⟩ := hs.slots.used r k o ho
  refine ⟨hr, hk, hbit, ?_⟩
  rw [hs.slots.count r]
  exact Finset.card_pos.2 ⟨k, KheapRoot.mem_inuse.2 ⟨hk, hbit⟩⟩

omit [DecidableEq τ] in
/-- A root without a page on which no call waits has no bit set. -/
theorem RefInv.numinuse_eq_zero (hs : RefInv s) (hnone : (s.heap.kheaproots r).page = none)
    (hwait : ∀ u k, s.pcs u ≠ .wait r k) : (s.heap.kheaproots r).numinuse = 0 := by
  rw [hs.slots.count r, Finset.card_eq_zero]
  apply Finset.eq_empty_of_forall_notMem
  intro k hk
  obtain ⟨o, ho⟩ := hs.held r k (KheapRoot.mem_inuse.1 hk).2
  cases o with
  | none => exact hs.page r k ho hnone
  | some u =>
      have hholds : (s.pcs u).holds (r, k) := ho
      cases hpc : s.pcs u with
      | out =>
          rw [hpc] at hholds
          exact hholds
      | wait r' k' =>
          rw [hpc] at hholds
          cases hholds
          exact hwait u k hpc
      | drop r' k' va =>
          rw [hpc] at hholds
          cases hholds
          exact hs.late u r k va hpc hnone

omit [DecidableEq τ] in
theorem RefInv.accounted (hs : RefInv s) : Accounted s where
  bits r _ k _ := by
    constructor
    · intro hbit
      obtain ⟨o, ho⟩ := hs.held r k hbit
      cases o with
      | none => exact .inl ho
      | some u => exact .inr ⟨u, ho⟩
    · rintro (hmem | ⟨u, hu⟩)
      · exact (hs.slots.used r k none hmem).2.2
      · exact (hs.slots.used r k (some u) hu).2.2
  counted r _ := hs.slots.count r
  idle hidle r _ := by
    rw [hs.slots.count r]
    -- a bit stands for the page reference of its number
    have hset : s.handed.filter (fun c => c.1 = r) = (s.heap.kheaproots r).inuse.image fun k => (r, k) := by
      ext ⟨r', k⟩
      rw [Finset.mem_filter, Finset.mem_image]
      constructor
      · rintro ⟨hmem, rfl⟩
        have hused := hs.slots.used r' k none hmem
        exact ⟨k, KheapRoot.mem_inuse.2 hused.2, rfl⟩
      · rintro ⟨k', hk', heq⟩
        cases heq
        obtain ⟨o, ho⟩ := hs.held r k (KheapRoot.mem_inuse.1 hk').2
        cases o with
        | none => exact ⟨ho, rfl⟩
        | some u =>
            have hholds : (s.pcs u).holds (r, k) := ho
            rw [hidle u] at hholds
            exact hholds.elim
    rw [hset, Finset.card_image_of_injective _ fun a b hab => (Prod.mk.inj hab).2]

/-! ## The steps -/

/-- A thread is at another place. -/
def RefState.goto (s : RefState τ) (t : τ) (p : RefPoint) : RefState τ :=
  { s with pcs := Function.update s.pcs t p }

theorem holder_goto {p : RefPoint} {c : Nat × Nat} {o : Option τ} :
    (s.goto t p).holder c o ↔ (o ≠ some t ∧ s.holder c o) ∨ (o = some t ∧ p.holds c) := by
  cases o with
  | none => simp [RefState.holder, RefState.goto]
  | some u =>
      by_cases hu : u = t
      · simp [RefState.holder, RefState.goto, hu]
      · simp [RefState.holder, RefState.goto, hu]

theorem pageHolder_goto {p : RefPoint} {a : Nat} {o : Nat ⊕ τ} :
    (s.goto t p).pageHolder a o ↔ (o ≠ .inr t ∧ s.pageHolder a o) ∨
      (o = .inr t ∧ ∃ r k, p = .drop r k a) := by
  cases o with
  | inl r => simp [RefState.pageHolder, RefState.goto]
  | inr u =>
      by_cases hu : u = t
      · simp [RefState.pageHolder, RefState.goto, hu]
      · simp [RefState.pageHolder, RefState.goto, hu]

/-- A thread that is not about to free a page has none. -/
theorem pageHolder_goto_of_not_drop {p : RefPoint} (hp : ∀ r k va, p ≠ .drop r k va) {a : Nat}
    {o : Nat ⊕ τ} (ho : (s.goto t p).pageHolder a o) : s.pageHolder a o := by
  rcases pageHolder_goto.1 ho with ⟨-, ho⟩ | ⟨-, r, k, hdrop⟩
  · exact ho
  · exact absurd hdrop (hp r k a)

theorem goto_pcs (s : RefState τ) (t : τ) (p : RefPoint) :
    (s.goto t p).pcs = Function.update s.pcs t p := rfl

theorem RefPoint.holds_unique {p : RefPoint} {c c' : Nat × Nat} (h : p.holds c) (h' : p.holds c') :
    c = c' := by
  cases p with
  | out => exact h.elim
  | wait r k => exact Eq.trans h (Eq.symm h')
  | drop r k va => exact Eq.trans h (Eq.symm h')

theorem goto_drop {p : RefPoint} {u : τ} {r k va : Nat} (h : (s.goto t p).pcs u = .drop r k va)
    (hp : p ≠ .drop r k va) : s.pcs u = .drop r k va := by
  by_cases hu : u = t
  · rw [goto_pcs, hu, Function.update_self] at h
    exact absurd h hp
  · rwa [goto_pcs, Function.update_of_ne hu] at h

theorem page_take (h : Heap) (r k r' : Nat) :
    ((h.takePageref r k).kheaproots r').page = (h.kheaproots r').page := by
  by_cases hr : r' = r
  · rw [hr, Heap.takePageref, Heap.setRoot]
    dsimp only
    rw [Function.update_self]
  · exact congrArg KheapRoot.page (Function.update_of_ne hr _ _)

theorem pagerefsInuse_take (h : Heap) (r k r' k' : Nat) :
    ((h.takePageref r k).kheaproots r').pagerefsInuse k' = true →
      (r', k') = (r, k) ∨ (h.kheaproots r').pagerefsInuse k' = true := by
  intro hbit
  by_cases hr : r' = r
  · by_cases hk : k' = k
    · exact .inl (by rw [hr, hk])
    · rw [hr, Heap.takePageref, Heap.setRoot] at hbit
      dsimp only at hbit
      rw [Function.update_self] at hbit
      dsimp only at hbit
      rw [Function.update_of_ne hk] at hbit
      exact .inr (hr ▸ hbit)
  · rw [Heap.takePageref, Heap.setRoot] at hbit
    dsimp only at hbit
    rw [Function.update_of_ne hr] at hbit
    exact .inr hbit

/-- `allocpageref` has found a bit for the call. -/
theorem RefInv.take (hs : RefInv s) (hout : s.pcs t = .out) (hr : r < numPagerefpages) (hfree : FreeRef s.heap r k)
    (hfull : ∀ r' < r, npagerefsPerPage ≤ (s.heap.kheaproots r').numinuse) :
    RefInv ({ s with heap := s.heap.takePageref r k }.goto t (.wait r k)) where
  slots := by
    refine hs.slots.take hr hfree.ref hfree.free hfree.room hfull (o := some t) fun c x hx => ?_
    rcases holder_goto.1 hx with ⟨-, hx⟩ | ⟨rfl, hc⟩
    · exact .inl hx
    · exact .inr ⟨hc, rfl⟩
  held r' k' hbit := by
    rcases pagerefsInuse_take s.heap r k r' k' hbit with hc | hbit
    · exact ⟨some t, holder_goto.2 (.inr ⟨rfl, hc⟩)⟩
    · obtain ⟨o, ho⟩ := hs.held r' k' hbit
      have hne : o ≠ some t := by
        rintro rfl
        have hholds : (s.pcs t).holds (r', k') := ho
        rw [hout] at hholds
        exact hholds
      exact ⟨o, holder_goto.2 (.inl ⟨hne, ho⟩)⟩
  page r' k' hmem := by
    have hpage := hs.page r' k' hmem
    rwa [← page_take s.heap r k r'] at hpage
  late u r' k' va hpc := by
    have hpage := hs.late u r' k' va (goto_drop hpc (by simp))
    rwa [← page_take s.heap r k r'] at hpage
  owned := by
    refine hs.owned.mono fun a x hx => ?_
    have hold := pageHolder_goto_of_not_drop (by simp) hx
    cases x with
    | inl r' => exact (page_take s.heap r k r').symm.trans hold
    | inr u => exact hold

/-- A bit of a root with a page goes from the call to the caller. -/
theorem RefInv.hand (hs : RefInv s) (ht : (s.pcs t).holds (r, k))
    (hpage : (s.heap.kheaproots r).page ≠ none) :
    RefInv ({ s with handed := insert (r, k) s.handed }.goto t .out) where
  slots := by
    have ho : s.holder (r, k) (some t) := ht
    refine hs.slots.move none ho fun c x hx => ?_
    rcases holder_goto.1 hx with ⟨hne, hx⟩ | ⟨rfl, hc⟩
    · cases x with
      | none =>
          rcases Finset.mem_insert.1 hx with rfl | hmem
          · exact .inr ⟨rfl, rfl⟩
          · exact .inl ⟨hmem, hne⟩
      | some u => exact .inl ⟨hx, hne⟩
    · exact hc.elim
  held r' k' hbit := by
    obtain ⟨o, ho⟩ := hs.held r' k' hbit
    by_cases hto : o = some t
    · subst hto
      have heq : (r', k') = (r, k) := RefPoint.holds_unique ho ht
      exact ⟨none, holder_goto.2 (.inl ⟨nofun, heq ▸ Finset.mem_insert_self _ _⟩)⟩
    · refine ⟨o, holder_goto.2 (.inl ⟨hto, ?_⟩)⟩
      cases o with
      | none => exact Finset.mem_insert_of_mem ho
      | some u => exact ho
  page r' k' hmem := by
    rcases Finset.mem_insert.1 hmem with heq | hmem
    · cases heq
      exact hpage
    · exact hs.page r' k' hmem
  late u r' k' va hpc := hs.late u r' k' va (goto_drop hpc (by simp))
  owned := hs.owned.mono fun a x hx => by
    have hold := pageHolder_goto_of_not_drop (by simp) hx
    cases x with
    | inl r' => exact hold
    | inr u => exact hold

omit [DecidableEq τ] in
/-- The root gets the new page. -/
theorem RefInv.setPage (hs : RefInv s) (hfresh : Fresh s.pages va 1) :
    RefInv { s with heap := s.heap.setRoot r fun root => { root with page := some va }
                    pages := Function.update s.pages va (some 1) } := by
  have hbits : ∀ r', ((s.heap.setRoot r fun root => { root with page := some va }).kheaproots
      r').pagerefsInuse = (s.heap.kheaproots r').pagerefsInuse := fun r' => by
    by_cases hr : r' = r
    · rw [hr, Heap.setRoot]
      dsimp only
      rw [Function.update_self]
    · exact congrArg KheapRoot.pagerefsInuse (Function.update_of_ne hr _ _)
  have hpages : ∀ r', r' = r ∧ ((s.heap.setRoot r fun root =>
      { root with page := some va }).kheaproots r').page = some va ∨
      ((s.heap.setRoot r fun root => { root with page := some va }).kheaproots r').page =
        (s.heap.kheaproots r').page := fun r' => by
    by_cases hr : r' = r
    · refine .inl ⟨hr, ?_⟩
      rw [hr, Heap.setRoot]
      dsimp only
      rw [Function.update_self]
    · exact .inr (congrArg KheapRoot.page (Function.update_of_ne hr _ _))
  have hsome : ∀ r', (s.heap.kheaproots r').page ≠ none → ((s.heap.setRoot r fun root =>
      { root with page := some va }).kheaproots r').page ≠ none := fun r' hold => by
    rcases hpages r' with ⟨-, hnew⟩ | hsame
    · rw [hnew]
      exact Option.some_ne_none va
    · rwa [hsame]
  exact
    { slots := hs.slots.setPage va
      held := fun r' k' hbit => hs.held r' k' (by rwa [← hbits r'])
      page := fun r' k' hmem => hsome r' (hs.page r' k' hmem)
      late := fun u r' k' a hpc => hsome r' (hs.late u r' k' a hpc)
      owned := by
        refine hs.owned.alloc hfresh (o := .inl r) fun a x hx => ?_
        cases x with
        | inl r' =>
            rcases hpages r' with ⟨rfl, hnew⟩ | hsame
            · exact .inr ⟨Option.some.inj (Eq.trans (Eq.symm hx) hnew), rfl⟩
            · exact .inl (hsame.symm.trans hx)
        | inr u => exact .inl hx }

/-- Another call has been faster: the new page is to be freed. -/
theorem RefInv.comeLate (hs : RefInv s) (hpc : s.pcs t = .wait r k)
    (hpage : (s.heap.kheaproots r).page ≠ none) (hfresh : Fresh s.pages va 1) :
    RefInv ({ s with pages := Function.update s.pages va (some 1) }.goto t (.drop r k va)) where
  slots := hs.slots.mono fun c x hx => by
    rcases holder_goto.1 hx with ⟨-, hx⟩ | ⟨rfl, hc⟩
    · cases x <;> exact hx
    · change (s.pcs t).holds c
      rw [hpc]
      exact hc
  held r' k' hbit := by
    obtain ⟨o, ho⟩ := hs.held r' k' hbit
    by_cases hto : o = some t
    · subst hto
      have hholds : (s.pcs t).holds (r', k') := ho
      rw [hpc] at hholds
      exact ⟨some t, holder_goto.2 (.inr ⟨rfl, hholds⟩)⟩
    · exact ⟨o, holder_goto.2 (.inl ⟨hto, by cases o <;> exact ho⟩)⟩
  page r' k' hmem := hs.page r' k' hmem
  late u r' k' a hdrop := by
    by_cases hu : u = t
    · rw [goto_pcs, hu, Function.update_self] at hdrop
      cases hdrop
      exact hpage
    · rw [goto_pcs, Function.update_of_ne hu] at hdrop
      exact hs.late u r' k' a hdrop
  owned := by
    refine hs.owned.alloc hfresh (o := .inr t) fun a x hx => ?_
    rcases pageHolder_goto.1 hx with ⟨-, hx⟩ | ⟨rfl, r', k', hdrop⟩
    · exact .inl (by cases x <;> exact hx)
    · cases hdrop
      exact .inr ⟨rfl, rfl⟩

/-- The superfluous page is free again. -/
theorem RefInv.freeLate (hs : RefInv s) (hpc : s.pcs t = .drop r k va) :
    RefInv ({ s with pages := Function.update s.pages va none }.goto t (.wait r k)) where
  slots := hs.slots.mono fun c x hx => by
    rcases holder_goto.1 hx with ⟨-, hx⟩ | ⟨rfl, hc⟩
    · cases x <;> exact hx
    · change (s.pcs t).holds c
      rw [hpc]
      exact hc
  held r' k' hbit := by
    obtain ⟨o, ho⟩ := hs.held r' k' hbit
    by_cases hto : o = some t
    · subst hto
      have hholds : (s.pcs t).holds (r', k') := ho
      rw [hpc] at hholds
      exact ⟨some t, holder_goto.2 (.inr ⟨rfl, hholds⟩)⟩
    · exact ⟨o, holder_goto.2 (.inl ⟨hto, by cases o <;> exact ho⟩)⟩
  page r' k' hmem := hs.page r' k' hmem
  late u r' k' a hdrop := hs.late u r' k' a (goto_drop hdrop (by simp))
  owned := by
    have ho : s.pageHolder va (.inr t) := ⟨r, k, hpc⟩
    refine hs.owned.free ho fun a x hx => ?_
    rcases pageHolder_goto.1 hx with ⟨hne, hx⟩ | ⟨-, r', k', hdrop⟩
    · exact ⟨by cases x <;> exact hx, hne⟩
    · cases hdrop

omit [DecidableEq τ] in
/-- A page reference is given back. -/
theorem RefInv.free (hs : RefInv s) (hmem : (r, k) ∈ s.handed) :
    RefInv { s with heap := s.heap.dropPageref r k, handed := s.handed.erase (r, k) } := by
  obtain ⟨-, hk, hbit, -⟩ := hs.inuse (o := none) hmem
  have hpages : ∀ r', ((s.heap.dropPageref r k).kheaproots r').page = (s.heap.kheaproots r').page :=
    fun r' => by
      by_cases hr : r' = r
      · rw [hr, Heap.dropPageref, Heap.setRoot]
        dsimp only
        rw [Function.update_self]
      · exact congrArg KheapRoot.page (Function.update_of_ne hr _ _)
  -- a bit that is still set was set before, and is another one
  have hbits : ∀ r' k', ((s.heap.dropPageref r k).kheaproots r').pagerefsInuse k' = true →
      (s.heap.kheaproots r').pagerefsInuse k' = true ∧ (r', k') ≠ (r, k) := fun r' k' h => by
    by_cases hr : r' = r
    · subst hr
      rw [Heap.dropPageref, Heap.setRoot] at h
      dsimp only at h
      rw [Function.update_self] at h
      dsimp only at h
      by_cases hkk : k' = k
      · rw [hkk, Function.update_self] at h
        cases h
      · rw [Function.update_of_ne hkk] at h
        exact ⟨h, fun he => hkk (Prod.mk.inj he).2⟩
    · rw [Heap.dropPageref, Heap.setRoot] at h
      dsimp only at h
      rw [Function.update_of_ne hr] at h
      exact ⟨h, fun he => hr (Prod.mk.inj he).1⟩
  exact
    { slots := by
        refine hs.slots.drop hk hbit (hs.page r k hmem) fun c x hx => ?_
        cases x with
        | none => exact ⟨Finset.mem_of_mem_erase hx, Finset.ne_of_mem_erase hx⟩
        | some u =>
            refine ⟨hx, ?_⟩
            rintro rfl
            cases hs.slots.unique (r, k) none (some u) hmem hx
      held := fun r' k' h => by
        obtain ⟨hold, hne⟩ := hbits r' k' h
        obtain ⟨o, ho⟩ := hs.held r' k' hold
        refine ⟨o, ?_⟩
        cases o with
        | none => exact Finset.mem_erase.2 ⟨hne, ho⟩
        | some u => exact ho
      page := fun r' k' h => by
        have hold := hs.page r' k' (Finset.mem_of_mem_erase h)
        rwa [← hpages r'] at hold
      late := fun u r' k' a hpc => by
        have hold := hs.late u r' k' a hpc
        rwa [← hpages r'] at hold
      owned := hs.owned.mono fun a x hx => by
        cases x with
        | inl r' => exact (hpages r').symm.trans hx
        | inr u => exact hx }

/-! ## The calls -/

/-- A part of a call that goes well. -/
def Fine (s : RefState τ) (t : τ) (x : Except Panic (RefState τ × Outcome)) : Prop :=
  ∃ s' o, x = .ok (s', o) ∧ RefInv s' ∧
    (o = .null → s.pcs t = .out ∧ s'.heap = s.heap ∧ s'.handed = s.handed)

/-- Nothing happens to a thread that stays where it is. -/
theorem goto_self {p : RefPoint} (h : s.pcs t = p) : s.goto t p = s := by
  rw [RefState.goto, ← h, Function.update_eq_self]

theorem RefInv.alloc (hs : RefInv s) (hout : s.pcs t = .out) :
    Fine s t ((enterAllocpageref s.heap).map fun x => (s.after t x.1 x.2, x.2)) := by
  rw [enterAllocpageref, List.range_eq_range']
  rcases allocpageref_eq hs.slots numPagerefpages 0 with
    ⟨hrun, -⟩ | ⟨r, k, hrun, hr, hfree, hfull⟩
  · rw [hrun]
    refine ⟨s, .null, ?_, hs, fun _ => ⟨hout, rfl, rfl⟩⟩
    have hsame : s.after t s.heap .null = s := goto_self hout
    exact congrArg (fun s' => Except.ok (s', Outcome.null)) hsame
  · rw [Nat.zero_add] at hr
    have htake := hs.take hout hr hfree fun r' hr' => hfull r' hr' (Nat.zero_le r')
    have hpage := page_take s.heap r k r
    rw [hrun]
    dsimp only
    rw [hpage]
    cases hroot : (s.heap.kheaproots r).page with
    | none => exact ⟨_, .wait r k, rfl, htake, nofun⟩
    | some page =>
        have hholds : (({ s with heap := s.heap.takePageref r k }.goto t
            (.wait r k)).pcs t).holds (r, k) := by
          rw [goto_pcs, Function.update_self]
          rfl
        have hhand := htake.hand hholds (by
          change ((s.heap.takePageref r k).kheaproots r).page ≠ none
          rw [hpage, hroot]
          exact Option.some_ne_none page)
        refine ⟨_, .ref r k, rfl, ?_, nofun⟩
        have hsame : s.after t (s.heap.takePageref r k) (.ref r k) =
            { ({ s with heap := s.heap.takePageref r k }.goto t (.wait r k)) with
              handed := insert (r, k) s.handed }.goto t .out := by
          rw [RefState.goto, RefState.goto, Function.update_idem]
          rfl
        rw [hsame]
        exact hhand

/-- `alloc_kpages` has failed, but the root has a page. -/
theorem RefInv.pagesFail (hs : RefInv s) (hpc : s.pcs t = .wait r k)
    (hroot : (s.heap.kheaproots r).page ≠ none) :
    Fine s t ((backFromAlloc s.heap r k none).map fun x =>
      ({ s.after t x.1 x.2 with pages := s.pages }, x.2)) := by
  obtain ⟨page, hpage⟩ := Option.ne_none_iff_exists'.1 hroot
  have hholds : (s.pcs t).holds (r, k) := by
    rw [hpc]
    rfl
  rw [backFromAlloc, hpage]
  exact ⟨_, .ref r k, rfl, hs.hand hholds hroot, nofun⟩

/-- `alloc_kpages` has given a page. -/
theorem RefInv.pagesDone (hs : RefInv s) (hpc : s.pcs t = .wait r k) (hfresh : Fresh s.pages va 1) :
    Fine s t ((backFromAlloc s.heap r k (some va)).map fun x =>
      ({ s.after t x.1 x.2 with pages := Function.update s.pages va (some 1) }, x.2)) := by
  have halign : kassert (va % pageSize = 0) .alignment = .ok () := if_pos hfresh.aligned
  have hholds : (s.pcs t).holds (r, k) := by
    rw [hpc]
    rfl
  rw [backFromAlloc, halign]
  cases hroot : (s.heap.kheaproots r).page with
  | some page =>
      have hne : (s.heap.kheaproots r).page ≠ none := by
        rw [hroot]
        exact Option.some_ne_none page
      exact ⟨_, .drop r k va, rfl, hs.comeLate hpc hne hfresh, nofun⟩
  | none =>
      have hset := hs.setPage (r := r) hfresh
      refine ⟨_, .ref r k, rfl, hset.hand hholds ?_, nofun⟩
      rw [Heap.setRoot]
      dsimp only
      rw [Function.update_self]
      exact Option.some_ne_none va

/-- `free_kpages` has come back; the root still has a page. -/
theorem RefInv.dropped (hs : RefInv s) (hpc : s.pcs t = .drop r k va) :
    Fine s t ((backFromFree s.heap r k).map fun x =>
      ({ s.after t x.1 x.2 with pages := Function.update s.pages va none }, x.2)) := by
  have hroot := hs.late t r k va hpc
  obtain ⟨page, hpage⟩ := Option.ne_none_iff_exists'.1 hroot
  have hholds : (({ s with pages := Function.update s.pages va none }.goto t
      (.wait r k)).pcs t).holds (r, k) := by
    rw [goto_pcs, Function.update_self]
    rfl
  have hhand := (hs.freeLate hpc).hand hholds hroot
  rw [backFromFree, hpage]
  refine ⟨_, .ref r k, rfl, ?_, nofun⟩
  have hsame : { s.after t s.heap (.ref r k) with pages := Function.update s.pages va none } =
      { ({ s with pages := Function.update s.pages va none }.goto t (.wait r k)) with
        handed := insert (r, k) s.handed }.goto t .out := by
    rw [RefState.goto, RefState.goto, Function.update_idem]
    rfl
  dsimp only
  rw [hsame]
  exact hhand

omit [DecidableEq τ] in
/-- `freepageref` finds the root of a page reference that has been handed out. -/
theorem RefInv.freepageref (hs : RefInv s) (hmem : (r, k) ∈ s.handed) {page : Nat}
    (hpage : (s.heap.kheaproots r).page = some page)
    (hwait : ∀ r' < r, (s.heap.kheaproots r').page = none → ∀ u k, s.pcs u ≠ .wait r' k) :
    Kmalloc.freepageref s.heap (refAddr page k) (List.range numPagerefpages) =
      .ok (s.heap.dropPageref r k) := by
  obtain ⟨hr, hk, hbit, hpos⟩ := hs.inuse (o := none) hmem
  -- an earlier root without a page would be full of calls that wait
  have hbefore : ∀ r' < r, (s.heap.kheaproots r').page ≠ none := fun r' hr' hnone => by
    have hzero := hs.numinuse_eq_zero hnone (hwait r' hr' hnone)
    have hfull := hs.slots.first r' r hr' hr hnone hpos
    rw [hzero] at hfull
    exact absurd hfull (by decide)
  have hend : refAddr page k < page + pageSize := by
    have hsize : npagerefsPerPage * pagerefSize = pageSize := by decide
    have hlt := Nat.mul_lt_mul_of_pos_right hk (show 0 < pagerefSize by decide)
    rw [refAddr]
    omega
  rw [List.range_eq_range']
  refine freepageref_eq rfl hpage hk hbit hpos _ 0 (Nat.zero_le r) (by omega) fun r' hr' _ => ?_
  obtain ⟨page', hpage'⟩ := Option.ne_none_iff_exists'.1 (hbefore r' hr')
  refine ⟨page', hpage', fun hin => ?_⟩
  have ho : s.pageHolder page (.inl r) := hpage
  have ho' : s.pageHolder page' (.inl r') := hpage'
  have heq := hs.owned.eq_of_mem ho ho' (Nat.le_add_right page _) hend hin.1 hin.2
  rw [← heq] at ho'
  have hroots := Sum.inl.inj (hs.owned.unique page _ _ ho ho')
  omega

/-- A step that the condition allows goes well. -/
theorem RefInv.act (hs : RefInv s) {a : Action} (hallowed : s.Allowed a)
    (hsupplied : Supplied s (t, a)) {x : Except Panic (RefState τ × Outcome)}
    (hx : s.act t a = some x) : Fine s t x := by
  cases a with
  | alloc =>
      rw [RefState.act] at hx
      split_ifs at hx with hout
      cases hx
      exact hs.alloc hout
  | pages va =>
      rw [RefState.act] at hx
      cases hpc : s.pcs t with
      | out => simp only [hpc, reduceCtorEq] at hx
      | drop r k va' => simp only [hpc, reduceCtorEq] at hx
      | wait r k =>
          simp only [hpc, Option.some.injEq] at hx
          subst hx
          cases va with
          | none => exact hs.pagesFail hpc (hsupplied r k hpc)
          | some va => exact hs.pagesDone hpc hallowed
  | dropped =>
      rw [RefState.act] at hx
      cases hpc : s.pcs t with
      | out => simp only [hpc, reduceCtorEq] at hx
      | wait r k => simp only [hpc, reduceCtorEq] at hx
      | drop r k va =>
          simp only [hpc, Option.some.injEq] at hx
          subst hx
          exact hs.dropped hpc
  | free r k =>
      rw [RefState.act] at hx
      cases hpage : (s.heap.kheaproots r).page with
      | none => simp only [hpage, reduceCtorEq] at hx
      | some page =>
          simp only [hpage] at hx
          split_ifs at hx with hcond
          cases hx
          rw [hs.freepageref hcond.2 hpage hsupplied]
          refine ⟨_, .freed, rfl, ?_, nofun⟩
          have hsame : { s.after t (s.heap.dropPageref r k) .freed with
                handed := s.handed.erase (r, k) } =
              { s with heap := s.heap.dropPageref r k, handed := s.handed.erase (r, k) } := by
            have hpcs : Function.update s.pcs t .out = s.pcs := by
              rw [← hcond.1, Function.update_eq_self]
            exact congrArg (fun pcs => { s with
              heap := s.heap.dropPageref r k, handed := s.handed.erase (r, k), pcs := pcs }) hpcs
          rw [hsame]
          exact hs.free hcond.2

/-- In a run in which no root stays without its page, the accounts are right and no call fails. -/
theorem pagerefs_accounted (h : Reach RefStep Supplied (refBoot τ) s) :
    Accounted s ∧ ∀ t a, s.Allowed a → Supplied s (t, a) → CallsFine s t a := by
  have hinv : RefInv s := by
    refine h.invariant (fun s a s' hs hok hstep => ?_) refInv_boot
    obtain ⟨hallowed, o, hact⟩ := hstep
    obtain ⟨s₁, o₁, heq, hs₁, -⟩ := hs.act hallowed hok hact
    cases heq
    exact hs₁
  refine ⟨hinv.accounted, fun t a hallowed hok x hx => ?_⟩
  obtain ⟨s', o, heq, -, hnull⟩ := hinv.act hallowed hok hx
  exact ⟨s', o, heq, hnull⟩

end States

/-! ## A call without memory -/

/-- One call waits for the first page. -/
def firstWait : RefState Unit :=
  (refBoot Unit).after () ((refBoot Unit).heap.takePageref 0 0) (.wait 0 0)

theorem step_firstWait : RefStep (refBoot Unit) ((), .alloc) firstWait := ⟨trivial, .wait 0 0, rfl⟩

/-- The call has got its page. -/
def firstRef : RefState Unit :=
  { firstWait.after () (firstWait.heap.setRoot 0 fun root => { root with page := some pageSize })
      (.ref 0 0) with pages := Function.update firstWait.pages pageSize (some 1) }

theorem step_firstRef : RefStep firstWait ((), .pages (some pageSize)) firstRef := by
  have hfresh : Fresh firstWait.pages pageSize 1 :=
    ⟨by decide, by decide, fun b m hm => by cases hm⟩
  exact ⟨hfresh, .ref 0 0, rfl⟩

/-- A page reference is allocated, with its page. -/
theorem pagerefs_accounted_call : firstRef.handed = {(0, 0)} ∧ Accounted firstRef ∧
    CallsFine firstRef () (.free 0 0) := by
  have hcall : Supplied (refBoot Unit) ((), .alloc) := trivial
  have hpages : Supplied firstWait ((), .pages (some pageSize)) := trivial
  have waits : Reach RefStep Supplied (refBoot Unit) firstWait := .tail .refl hcall step_firstWait
  have returns : Reach RefStep Supplied (refBoot Unit) firstRef := waits.tail hpages step_firstRef
  obtain ⟨haccounted, hcalls⟩ := pagerefs_accounted returns
  exact ⟨rfl, haccounted, hcalls () (.free 0 0) trivial fun r' hr' => absurd hr' (Nat.not_lt_zero r')⟩

/-- When `alloc_kpages` fails, the call returns `NULL` and its bit stays set. -/
theorem allocpageref_leaks : Reach RefStep anyStep (refBoot Unit) firstWait ∧
    firstWait.act () (.pages none) =
      some (.ok (firstWait.after () firstWait.heap .null, .null)) ∧
    (firstWait.after () firstWait.heap .null).handed = ∅ ∧
    ((firstWait.after () firstWait.heap .null).heap.kheaproots 0).numinuse = 1 ∧
    ¬ Accounted (firstWait.after () firstWait.heap .null) := by
  refine ⟨.tail .refl trivial step_firstWait, rfl, rfl, rfl, fun h => ?_⟩
  have hcount := h.idle (fun _ => rfl) 0 (by decide)
  cases hcount

end Os161.Vm.Kmalloc

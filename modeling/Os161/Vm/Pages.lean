import Mathlib.Data.Finset.Card
import Os161.Vm.Blocks

set_option autoImplicit false

/-!
# Pages and page references

Every page that `alloc_kpages` has handed out has at most one owner (`Owned`): a page of the heap, a
root, a thread that works with it, or a block of its own. In the same way every bit of
`pagerefs_inuse` that is set belongs to a page of the heap or to a thread (`Slots`). The pages of the
heap are on the list of all pages and on the list of their size (`Shape`).
-/

namespace Os161.Vm.Kmalloc

open Os161.Lib.Links

/-! ## Owners of pages -/

section Owners

variable {ω : Type} {pages : Nat → Option Nat} {R R' : Nat → ω → Prop} {a b c n : Nat} {o o' : ω}

/-- Pages do not overlap, and each has at most one owner. -/
structure Owned (pages : Nat → Option Nat) (R : Nat → ω → Prop) : Prop where
  page : ∀ a o, R a o → pages a ≠ none
  unique : ∀ a o o', R a o → R a o' → o = o'
  apart : ∀ a b n m, pages a = some n → pages b = some m → a ≠ b →
    Apart a (pageSpan n) b (pageSpan m)
  aligned : ∀ a n, pages a = some n → a % pageSize = 0 ∧ a ≠ 0

theorem pageSize_le_pageSpan (n : Nat) : pageSize ≤ pageSpan n := by
  have := Nat.mul_le_mul_right pageSize (Nat.le_max_right n 1)
  unfold pageSpan
  omega

theorem Owned.aligned_of (h : Owned pages R) (ho : R a o) : a % pageSize = 0 ∧ a ≠ 0 := by
  obtain ⟨n, hn⟩ := Option.ne_none_iff_exists'.1 (h.page a o ho)
  exact h.aligned a n hn

/-- An address is on one page only. -/
theorem Owned.eq_of_mem (h : Owned pages R) (ho : R a o) (ho' : R b o') (ha : a ≤ c)
    (ha' : c < a + pageSize) (hb : b ≤ c) (hb' : c < b + pageSize) : a = b := by
  obtain ⟨n, hn⟩ := Option.ne_none_iff_exists'.1 (h.page a o ho)
  obtain ⟨m, hm⟩ := Option.ne_none_iff_exists'.1 (h.page b o' ho')
  by_contra hne
  have := h.apart a b n m hn hm hne
  have := pageSize_le_pageSpan n
  have := pageSize_le_pageSpan m
  unfold Apart at *
  omega

/-- Owners give pages away. -/
theorem Owned.mono (h : Owned pages R) (hR : ∀ b x, R' b x → R b x) : Owned pages R' where
  page b x hx := h.page b x (hR b x hx)
  unique b x y hx hy := h.unique b x y (hR b x hx) (hR b y hy)
  apart := h.apart
  aligned := h.aligned

/-- The owner `o` of `a` gives it to `o'`. -/
theorem Owned.move (h : Owned pages R) (o' : ω) (ho : R a o)
    (hR : ∀ b x, R' b x → (R b x ∧ ¬ (b = a ∧ x = o)) ∨ (b = a ∧ x = o')) : Owned pages R' where
  page b x hx := by
    rcases hR b x hx with ⟨hx, -⟩ | ⟨rfl, -⟩
    · exact h.page b x hx
    · exact h.page b o ho
  unique b x y hx hy := by
    rcases hR b x hx with ⟨hx, hxo⟩ | ⟨rfl, rfl⟩ <;> rcases hR b y hy with ⟨hy, hyo⟩ | ⟨e, rfl⟩
    · exact h.unique b x y hx hy
    · exact absurd ⟨e, h.unique b x o hx (e ▸ ho)⟩ hxo
    · exact absurd ⟨rfl, h.unique b y o hy ho⟩ hyo
    · rfl
  apart := h.apart
  aligned := h.aligned

/-- The pages at `a` are new, and `o` has them. -/
theorem Owned.alloc (h : Owned pages R) (ha : Fresh pages a n)
    (hR : ∀ b x, R' b x → R b x ∨ (b = a ∧ x = o)) :
    Owned (Function.update pages a (some n)) R' := by
  have hnew : pages a = none := by
    by_contra hne
    obtain ⟨m, hm⟩ := Option.ne_none_iff_exists'.1 hne
    have := ha.apart a m hm
    have := pageSize_le_pageSpan n
    have := pageSize_le_pageSpan m
    simp only [Apart, pageSize] at *
    omega
  have hold : ∀ b x, R b x → b ≠ a := by
    rintro b x hx rfl
    exact h.page b x hx hnew
  refine ⟨fun b x hx => ?_, fun b x y hx hy => ?_, fun b c m k hm hk hne => ?_, fun b m hm => ?_⟩
  · by_cases hb : b = a
    · simp [hb]
    · rw [Function.update_of_ne hb]
      exact h.page b x ((hR b x hx).resolve_right fun e => hb e.1)
  · rcases hR b x hx with hx | ⟨rfl, rfl⟩ <;> rcases hR b y hy with hy | ⟨e, rfl⟩
    · exact h.unique b x y hx hy
    · exact absurd e (hold b x hx)
    · exact absurd rfl (hold b y hy)
    · rfl
  · by_cases hb : b = a
    · subst hb
      rw [Function.update_self] at hm
      cases hm
      rw [Function.update_of_ne hne.symm] at hk
      exact ha.apart c k hk
    · rw [Function.update_of_ne hb] at hm
      by_cases hc : c = a
      · subst hc
        rw [Function.update_self] at hk
        cases hk
        exact (ha.apart b m hm).symm
      · rw [Function.update_of_ne hc] at hk
        exact h.apart b c m k hm hk hne
  · by_cases hb : b = a
    · rw [hb]
      exact ⟨ha.aligned, ha.nonzero⟩
    · rw [Function.update_of_ne hb] at hm
      exact h.aligned b m hm

/-- The owner `o` of `a` frees it. -/
theorem Owned.free (h : Owned pages R) (ho : R a o) (hR : ∀ b x, R' b x → R b x ∧ x ≠ o) :
    Owned (Function.update pages a none) R' := by
  refine ⟨fun b x hx => ?_, fun b x y hx hy => h.unique b x y (hR b x hx).1 (hR b y hy).1,
    fun b c m k hm hk => ?_, fun b m hm => ?_⟩
  · obtain ⟨hx, hxo⟩ := hR b x hx
    have hb : b ≠ a := by
      rintro rfl
      exact hxo (h.unique b x o hx ho)
    rw [Function.update_of_ne hb]
    exact h.page b x hx
  · have hb : b ≠ a := by
      rintro rfl
      simp at hm
    have hc : c ≠ a := by
      rintro rfl
      simp at hk
    rw [Function.update_of_ne hb] at hm
    rw [Function.update_of_ne hc] at hk
    exact h.apart b c m k hm hk
  · have hb : b ≠ a := by
      rintro rfl
      simp at hm
    rw [Function.update_of_ne hb] at hm
    exact h.aligned b m hm

end Owners

/-! ## Page references -/

section Slots

variable {ω : Type} {roots : Nat → KheapRoot} {R R' : Nat × Nat → ω → Prop} {r k : Nat} {o : ω}

/-- The bits of a root that are set. -/
def KheapRoot.inuse (root : KheapRoot) : Finset Nat :=
  (Finset.range npagerefsPerPage).filter fun k => root.pagerefsInuse k = true

theorem KheapRoot.mem_inuse {root : KheapRoot} {k : Nat} :
    k ∈ root.inuse ↔ k < npagerefsPerPage ∧ root.pagerefsInuse k = true := by
  simp [KheapRoot.inuse]

/-- Every bit that is set has at most one owner, `numinuse` counts them, and a root is used only
when those before it are full or were full before they had a page. -/
structure Slots (roots : Nat → KheapRoot) (R : Nat × Nat → ω → Prop) : Prop where
  used : ∀ r k o, R (r, k) o →
    r < numPagerefpages ∧ k < npagerefsPerPage ∧ (roots r).pagerefsInuse k = true
  unique : ∀ c o o', R c o → R c o' → o = o'
  count : ∀ r, (roots r).numinuse = (roots r).inuse.card
  first : ∀ r r', r < r' → r' < numPagerefpages → (roots r).page = none → 0 < (roots r').numinuse →
    npagerefsPerPage ≤ (roots r).numinuse

theorem Slots.mono (h : Slots roots R) (hR : ∀ c x, R' c x → R c x) : Slots roots R' where
  used r k x hx := h.used r k x (hR _ x hx)
  unique c x y hx hy := h.unique c x y (hR c x hx) (hR c y hy)
  count := h.count
  first := h.first

/-- The owner `o` of a bit gives it to `o'`. -/
theorem Slots.move (h : Slots roots R) (o' : ω) (ho : R (r, k) o)
    (hR : ∀ c x, R' c x → (R c x ∧ x ≠ o) ∨ (c = (r, k) ∧ x = o')) : Slots roots R' where
  used r' k' x hx := by
    rcases hR _ x hx with ⟨hx, -⟩ | ⟨e, -⟩
    · exact h.used r' k' x hx
    · cases e
      exact h.used r k o ho
  unique c x y hx hy := by
    rcases hR c x hx with ⟨hx, hxo⟩ | ⟨rfl, rfl⟩ <;> rcases hR _ y hy with ⟨hy, hyo⟩ | ⟨e, rfl⟩
    · exact h.unique c x y hx hy
    · subst e
      exact absurd (h.unique _ x o hx ho) hxo
    · exact absurd (h.unique _ y o hy ho) hyo
    · rfl
  count := h.count
  first := h.first

/-- A bit is set. -/
theorem Slots.take {h : Heap} (hs : Slots h.kheaproots R) (hr : r < numPagerefpages)
    (hk : k < npagerefsPerPage) (hfree : (h.kheaproots r).pagerefsInuse k = false)
    (hroom : (h.kheaproots r).numinuse < npagerefsPerPage)
    (hfull : ∀ r' < r, npagerefsPerPage ≤ (h.kheaproots r').numinuse)
    (hR : ∀ c x, R' c x → R c x ∨ (c = (r, k) ∧ x = o)) :
    Slots (h.takePageref r k).kheaproots R' := by
  have hold : ∀ x, ¬ R (r, k) x := fun x hx => by
    have := (hs.used r k x hx).2.2
    rw [hfree] at this
    cases this
  have hother : ∀ r', r' ≠ r → (h.takePageref r k).kheaproots r' = h.kheaproots r' := fun r' hne =>
    Function.update_of_ne hne _ _
  have hself : (h.takePageref r k).kheaproots r =
      { h.kheaproots r with
        pagerefsInuse := Function.update (h.kheaproots r).pagerefsInuse k true
        numinuse := (h.kheaproots r).numinuse + 1 } := Function.update_self ..
  refine ⟨fun r' k' x hx => ?_, fun c x y hx hy => ?_, fun r' => ?_, fun q q' hq hq' hpage hpos => ?_⟩
  · rcases hR _ x hx with hx | ⟨e, -⟩
    · obtain ⟨h₁, h₂, h₃⟩ := hs.used r' k' x hx
      refine ⟨h₁, h₂, ?_⟩
      by_cases hne : r' = r
      · subst hne
        rw [hself]
        by_cases hkk : k' = k
        · simp [hkk]
        · simpa [hkk] using h₃
      · rwa [hother r' hne]
    · cases e
      refine ⟨hr, hk, ?_⟩
      rw [hself]
      simp
  · rcases hR c x hx with hx | ⟨rfl, rfl⟩ <;> rcases hR _ y hy with hy | ⟨e, rfl⟩
    · exact hs.unique c x y hx hy
    · subst e
      exact absurd hx (hold x)
    · exact absurd hy (hold y)
    · rfl
  · by_cases hne : r' = r
    · subst hne
      rw [hself]
      have hset : KheapRoot.inuse
          { h.kheaproots r' with
            pagerefsInuse := Function.update (h.kheaproots r').pagerefsInuse k true
            numinuse := (h.kheaproots r').numinuse + 1 } = insert k (h.kheaproots r').inuse := by
        ext j
        rw [KheapRoot.mem_inuse, Finset.mem_insert, KheapRoot.mem_inuse]
        by_cases hj : j = k
        · simp [hj, hk]
        · simp [hj]
      rw [hset, Finset.card_insert_of_notMem]
      · exact congrArg (· + 1) (hs.count r')
      · rw [KheapRoot.mem_inuse, hfree]
        simp
    · rw [hother r' hne]
      exact hs.count r'
  · have hpage' : (h.kheaproots q).page = none := by
      by_cases hne : q = r
      · subst hne
        rwa [hself] at hpage
      · rwa [hother q hne] at hpage
    have hmono : (h.kheaproots q).numinuse ≤ ((h.takePageref r k).kheaproots q).numinuse := by
      by_cases hne : q = r
      · subst hne
        rw [hself]
        exact Nat.le_succ _
      · rw [hother q hne]
    refine Nat.le_trans ?_ hmono
    by_cases hne : q' = r
    · subst hne
      exact hfull q hq
    · rw [hother q' hne] at hpos
      exact hs.first q q' hq hq' hpage' hpos

/-- A bit of a root with a page is cleared. -/
theorem Slots.drop {h : Heap} (hs : Slots h.kheaproots R) (hk : k < npagerefsPerPage)
    (hinuse : (h.kheaproots r).pagerefsInuse k = true) (hpage : (h.kheaproots r).page ≠ none)
    (hR : ∀ c x, R' c x → R c x ∧ c ≠ (r, k)) : Slots (h.dropPageref r k).kheaproots R' := by
  have hother : ∀ r', r' ≠ r → (h.dropPageref r k).kheaproots r' = h.kheaproots r' := fun r' hne =>
    Function.update_of_ne hne _ _
  have hself : (h.dropPageref r k).kheaproots r =
      { h.kheaproots r with
        pagerefsInuse := Function.update (h.kheaproots r).pagerefsInuse k false
        numinuse := (h.kheaproots r).numinuse - 1 } := Function.update_self ..
  refine ⟨fun r' k' x hx => ?_, fun c x y hx hy => hs.unique c x y (hR c x hx).1 (hR c y hy).1,
    fun r' => ?_, fun q q' hq hq' hnone hpos => ?_⟩
  · obtain ⟨hx, hne⟩ := hR _ x hx
    obtain ⟨h₁, h₂, h₃⟩ := hs.used r' k' x hx
    refine ⟨h₁, h₂, ?_⟩
    by_cases hr : r' = r
    · subst hr
      have hkk : k' ≠ k := by
        rintro rfl
        exact hne rfl
      rw [hself]
      simpa [hkk] using h₃
    · rwa [hother r' hr]
  · by_cases hne : r' = r
    · subst hne
      rw [hself]
      have hset : KheapRoot.inuse
          { h.kheaproots r' with
            pagerefsInuse := Function.update (h.kheaproots r').pagerefsInuse k false
            numinuse := (h.kheaproots r').numinuse - 1 } = (h.kheaproots r').inuse.erase k := by
        ext j
        rw [KheapRoot.mem_inuse, Finset.mem_erase, KheapRoot.mem_inuse]
        by_cases hj : j = k
        · simp [hj]
        · simp [hj]
      rw [hset, Finset.card_erase_of_mem (KheapRoot.mem_inuse.2 ⟨hk, hinuse⟩)]
      exact congrArg (· - 1) (hs.count r')
    · rw [hother r' hne]
      exact hs.count r'
  · have hqr : q ≠ r := by
      rintro rfl
      rw [hself] at hnone
      exact hpage hnone
    rw [hother q hqr] at hnone ⊢
    refine hs.first q q' hq hq' hnone ?_
    by_cases hne : q' = r
    · subst hne
      rw [hself] at hpos
      exact Nat.lt_of_lt_of_le hpos (Nat.sub_le _ _)
    · rwa [hother q' hne] at hpos

/-- A root gets its page. -/
theorem Slots.setPage {h : Heap} (hs : Slots h.kheaproots R) (va : Nat) :
    Slots (h.setRoot r fun root => { root with page := some va }).kheaproots R := by
  have hsame : ∀ r', ((h.setRoot r fun root => { root with page := some va }).kheaproots
      r').pagerefsInuse = (h.kheaproots r').pagerefsInuse ∧
      ((h.setRoot r fun root => { root with page := some va }).kheaproots r').numinuse =
        (h.kheaproots r').numinuse := fun r' => by
    by_cases hne : r' = r
    · subst hne
      simp [Heap.setRoot]
    · simp [Heap.setRoot, hne]
  refine ⟨fun r' k' x hx => ?_, hs.unique, fun r' => ?_, fun q q' hq hq' hnone hpos => ?_⟩
  · rw [(hsame r').1]
    exact hs.used r' k' x hx
  · rw [(hsame r').2, hs.count r']
    unfold KheapRoot.inuse
    rw [(hsame r').1]
  · rw [(hsame q').2] at hpos
    rw [(hsame q).2]
    refine hs.first q q' hq hq' ?_ hpos
    by_cases hne : q = r
    · subst hne
      simp [Heap.setRoot] at hnone
    · simpa [Heap.setRoot, hne] using hnone

end Slots

/-! ## Allocation and release of page references -/

section Refs

variable {ω : Type} {R : Nat × Nat → ω → Prop} {h : Heap}

theorem exists_free (hs : Slots h.kheaproots R) {r : Nat}
    (hroom : (h.kheaproots r).numinuse < npagerefsPerPage) :
    ∃ k < npagerefsPerPage, (h.kheaproots r).pagerefsInuse k = false := by
  by_contra hnone
  have hall : (h.kheaproots r).inuse = Finset.range npagerefsPerPage := by
    ext k
    rw [KheapRoot.mem_inuse, Finset.mem_range, and_iff_left_iff_imp]
    intro hk
    by_contra hfree
    exact hnone ⟨k, hk, by simpa using hfree⟩
  rw [hs.count r, hall, Finset.card_range] at hroom
  exact absurd hroom (Nat.lt_irrefl _)

/-- A root that is not full has a bit for a new `struct pageref`. -/
theorem freeWord_spec (hs : Slots h.kheaproots R) {r : Nat}
    (hroom : (h.kheaproots r).numinuse < npagerefsPerPage) :
    ∃ i j, (h.kheaproots r).freeWord = some i ∧
      ((List.range 32).find? fun j => !(h.kheaproots r).pagerefsInuse (32 * i + j)) = some j ∧
      32 * i + j < npagerefsPerPage ∧ (h.kheaproots r).pagerefsInuse (32 * i + j) = false := by
  obtain ⟨k, hk, hfree⟩ := exists_free hs hroom
  have hword : (h.kheaproots r).freeWord ≠ none := by
    intro hnone
    have hn : npagerefsPerPage = 256 := by decide
    have := List.find?_eq_none.1 hnone (k / 32) (List.mem_range.2 (by
      change k / 32 < 8
      omega))
    refine this (List.any_eq_true.2 ⟨k % 32, List.mem_range.2 (Nat.mod_lt k (by decide)), ?_⟩)
    rw [Nat.div_add_mod, hfree]
    rfl
  obtain ⟨i, hi⟩ := Option.ne_none_iff_exists'.1 hword
  have hany := List.find?_some hi
  have hbit : ((List.range 32).find? fun j => !(h.kheaproots r).pagerefsInuse (32 * i + j)) ≠ none := by
    intro hnone
    obtain ⟨j, hj, hfree⟩ := List.any_eq_true.1 hany
    exact List.find?_eq_none.1 hnone j hj hfree
  obtain ⟨j, hj⟩ := Option.ne_none_iff_exists'.1 hbit
  refine ⟨i, j, hi, hj, ?_, by simpa using List.find?_some hj⟩
  have hi' := List.mem_range.1 (List.mem_of_find?_eq_some hi)
  have hj' := List.mem_range.1 (List.mem_of_find?_eq_some hj)
  have h₁ : inuseWords = 8 := by decide
  have h₂ : npagerefsPerPage = 256 := by decide
  omega

/-- What `allocpageref` has found. -/
structure FreeRef (h : Heap) (r k : Nat) : Prop where
  ref : k < npagerefsPerPage
  free : (h.kheaproots r).pagerefsInuse k = false
  room : (h.kheaproots r).numinuse < npagerefsPerPage

theorem allocpageref_eq (hs : Slots h.kheaproots R) (m : Nat) :
    ∀ n, (allocpageref h (List.range' n m) = .ok none ∧
        ∀ r < n + m, n ≤ r → npagerefsPerPage ≤ (h.kheaproots r).numinuse) ∨
      ∃ r k, allocpageref h (List.range' n m) = .ok (some (r, k)) ∧ r < n + m ∧ FreeRef h r k ∧
        ∀ r' < r, n ≤ r' → npagerefsPerPage ≤ (h.kheaproots r').numinuse := by
  induction m with
  | zero => exact fun n => .inl ⟨rfl, fun r hr hn => absurd hr (by omega)⟩
  | succ m ih =>
      intro n
      rw [List.range'_succ]
      by_cases hfull : npagerefsPerPage ≤ (h.kheaproots n).numinuse
      · have hrun : allocpageref h (n :: List.range' (n + 1) m) =
            allocpageref h (List.range' (n + 1) m) := by
          rw [allocpageref]
          exact if_pos hfull
        rw [hrun]
        have hfrom : ∀ {b}, (∀ r' < b, n + 1 ≤ r' → npagerefsPerPage ≤ (h.kheaproots r').numinuse) →
            ∀ r' < b, n ≤ r' → npagerefsPerPage ≤ (h.kheaproots r').numinuse := by
          intro b hrest r' hr' hn
          rcases Nat.eq_or_lt_of_le hn with rfl | hn
          · exact hfull
          · exact hrest r' hr' hn
        rcases ih (n + 1) with ⟨hr, hrest⟩ | ⟨r, k, hr, hlt, hfree, hbefore⟩
        · rw [Nat.add_right_comm] at hrest
          exact .inl ⟨hr, hfrom hrest⟩
        · exact .inr ⟨r, k, hr, by omega, hfree, hfrom hbefore⟩
      · obtain ⟨i, j, hi, hj, hk, hfree⟩ := freeWord_spec hs (Nat.lt_of_not_le hfull)
        refine .inr ⟨n, 32 * i + j, ?_, by omega, ⟨hk, hfree, Nat.lt_of_not_le hfull⟩,
          fun r' hr' hn => absurd hr' (by omega)⟩
        rw [allocpageref]
        simp only [hi, hj]
        exact if_neg hfull

/-- `freepageref` finds the bit when all roots before that of the `struct pageref` have a page. -/
theorem freepageref_eq {r k page p : Nat} (hp : p = refAddr page k)
    (hpage : (h.kheaproots r).page = some page) (hk : k < npagerefsPerPage)
    (hinuse : (h.kheaproots r).pagerefsInuse k = true) (hpos : 0 < (h.kheaproots r).numinuse)
    (m : Nat) : ∀ n ≤ r, r < n + m →
    (∀ r' < r, n ≤ r' → ∃ page', (h.kheaproots r').page = some page' ∧
      ¬ (page' ≤ p ∧ p < page' + pageSize)) →
    freepageref h p (List.range' n m) = .ok (h.dropPageref r k) := by
  have hsize : pagerefSize * npagerefsPerPage = pageSize := by decide
  have hpr : 0 < pagerefSize := by decide
  induction m with
  | zero =>
      intro n hn hr
      exact absurd hr (by omega)
  | succ m ih =>
      intro n hn hr hbefore
      rw [List.range'_succ, freepageref]
      rcases Nat.eq_or_lt_of_le hn with rfl | hlt
      · have hj : (p - page) / pagerefSize = k := by
          rw [hp, refAddr, Nat.add_sub_cancel_left, Nat.mul_div_cancel _ hpr]
        have hle : page ≤ p := by
          rw [hp]
          exact Nat.le_add_right _ _
        simp [hpage, hj, hle, hk, hinuse, hpos, kassert, bind, Except.bind]
      · obtain ⟨page', hpage', hout⟩ := hbefore n hlt (Nat.le_refl n)
        have hnot : ¬ (page' ≤ p ∧ (p - page') / pagerefSize < npagerefsPerPage) := by
          rintro ⟨hle, hlt'⟩
          rw [Nat.div_lt_iff_lt_mul hpr, Nat.mul_comm, hsize] at hlt'
          exact hout ⟨hle, by omega⟩
        simp only [hpage', if_neg hnot]
        exact ih (n + 1) hlt (by omega) fun r' hr' hn' => hbefore r' hr' (by omega)

/-- Without that, it fails an assertion. -/
theorem freepageref_error {r p : Nat} (hpage : (h.kheaproots r).page = none)
    (hn : (h.kheaproots r).numinuse ≠ 0) (m : Nat) : ∀ n ≤ r, r < n + m →
    (∀ r' < r, n ≤ r' → ∃ page', (h.kheaproots r').page = some page' ∧
      ¬ (page' ≤ p ∧ p < page' + pageSize)) →
    freepageref h p (List.range' n m) = .error .numinuse := by
  have hsize : pagerefSize * npagerefsPerPage = pageSize := by decide
  have hpr : 0 < pagerefSize := by decide
  induction m with
  | zero =>
      intro n hn hr
      exact absurd hr (by omega)
  | succ m ih =>
      intro n hnr hr hbefore
      rw [List.range'_succ, freepageref]
      rcases Nat.eq_or_lt_of_le hnr with rfl | hlt
      · simp [hpage, hn, kassert, bind, Except.bind]
      · obtain ⟨page', hpage', hout⟩ := hbefore n hlt (Nat.le_refl n)
        have hnot : ¬ (page' ≤ p ∧ (p - page') / pagerefSize < npagerefsPerPage) := by
          rintro ⟨hle, hlt'⟩
          rw [Nat.div_lt_iff_lt_mul hpr, Nat.mul_comm, hsize] at hlt'
          exact hout ⟨hle, by omega⟩
        simp only [hpage', if_neg hnot]
        exact ih (n + 1) hlt (by omega) fun r' hr' hn' => hbefore r' hr' (by omega)

end Refs

/-! ## The lists of pages -/

/-- The pages of the heap: all of them, and those of one size. -/
structure Shape (h : Heap) (all : List Nat) : Prop where
  pages : Listed (fun a => (h.pagerefs a).nextAll) h.allbase all
  nodup : all.Nodup
  same : ∀ b < nsizes, ∃ l, Listed (fun a => (h.pagerefs a).nextSamesize) (h.sizebases b) l ∧
    l.Nodup ∧ ∀ pr, pr ∈ l ↔ pr ∈ all ∧ (h.pagerefs pr).blocktype = b

variable {h h' : Heap} {all : List Nat} {pr : Nat}

/-- The lists of pages are the same when all pages are. -/
theorem Shape.same_pages (hs : Shape h all) (hall : h'.allbase = h.allbase)
    (hsizes : h'.sizebases = h.sizebases)
    (hrefs : ∀ a, SamePage (h.pagerefs a) (h'.pagerefs a)) : Shape h' all := by
  have hnext : (fun a => (h'.pagerefs a).nextAll) = fun a => (h.pagerefs a).nextAll :=
    funext fun a => (hrefs a).nextAll
  have hnext' : (fun a => (h'.pagerefs a).nextSamesize) = fun a => (h.pagerefs a).nextSamesize :=
    funext fun a => (hrefs a).nextSamesize
  refine ⟨?_, hs.nodup, fun b hb => ?_⟩
  · rw [hnext, hall]
    exact hs.pages
  · obtain ⟨l, hl, hnodup, hmem⟩ := hs.same b hb
    refine ⟨l, ?_, hnodup, fun pr => ?_⟩
    · rw [hnext', hsizes]
      exact hl
    · rw [(hrefs pr).blocktype]
      exact hmem pr

/-- A new page is put in front of its lists. -/
theorem Shape.push (hs : Shape h all) (mem : Nat → Nat) (hpr : pr ∉ all) {ref : Pageref}
    (hall : ref.nextAll = h.allbase) (hsame : ref.nextSamesize = h.sizebases ref.blocktype) :
    Shape { h with mem := mem, pagerefs := Function.update h.pagerefs pr ref
                   sizebases := Function.update h.sizebases ref.blocktype (some pr)
                   allbase := some pr } (pr :: all) := by
  have hother : ∀ a, a ≠ pr → Function.update h.pagerefs pr ref a = h.pagerefs a := fun a ha =>
    Function.update_of_ne ha _ _
  have hne : ∀ a ∈ all, a ≠ pr := by
    rintro a ha rfl
    exact hpr ha
  refine ⟨?_, List.nodup_cons.2 ⟨hpr, hs.nodup⟩, fun b hb => ?_⟩
  · refine hs.pages.push (by simp [hall]) fun a ha => ?_
    simp [hother a (hne a ha)]
  · obtain ⟨l, hl, hnodup, hmem⟩ := hs.same b hb
    have hnot : ∀ a ∈ l, a ≠ pr := fun a ha => hne a ((hmem a).1 ha).1
    by_cases hbt : b = ref.blocktype
    · subst hbt
      refine ⟨pr :: l, ?_, List.nodup_cons.2 ⟨fun hl => hnot pr hl rfl, hnodup⟩, fun a => ?_⟩
      · simp only [Function.update_self]
        refine hl.push (by simp [hsame]) fun a ha => ?_
        simp [hother a (hnot a ha)]
      · by_cases ha : a = pr
        · simp [ha]
        · simp only [List.mem_cons, ha, false_or, hother a ha]
          exact hmem a
    · refine ⟨l, ?_, hnodup, fun a => ?_⟩
      · simp only [Function.update_of_ne hbt]
        refine hl.congr fun a ha => ?_
        simp [hother a (hnot a ha)]
      · by_cases ha : a = pr
        · subst ha
          simp only [List.mem_cons, true_or, Function.update_self, true_and]
          exact ⟨fun hl => absurd rfl (hnot a hl), fun he => absurd he.symm hbt⟩
        · simp only [List.mem_cons, ha, false_or, hother a ha]
          exact hmem a

/-- A page is taken from its lists. -/
theorem removeLists_eq (hs : Shape h all) (hpr : pr ∈ all)
    (htype : (h.pagerefs pr).blocktype < nsizes) {fuel : Nat} (hfuel : all.length < fuel) :
    ∃ refs sizebases allbase, removeLists h fuel pr (h.pagerefs pr).blocktype =
        some (.ok { h with pagerefs := refs, sizebases := sizebases, allbase := allbase }) ∧
      (∀ a, (refs a).pageaddrAndBlocktype = (h.pagerefs a).pageaddrAndBlocktype ∧
        (refs a).freelistOffset = (h.pagerefs a).freelistOffset ∧
        (refs a).nfree = (h.pagerefs a).nfree) ∧
      Shape { h with pagerefs := refs, sizebases := sizebases, allbase := allbase }
        (all.erase pr) := by
  obtain ⟨l, hl, hnodup, hmem⟩ := hs.same _ htype
  have hlen : l.length < fuel := by
    have hsub : l ⊆ all := fun a ha => ((hmem a).1 ha).1
    have := (hnodup.subperm hsub).length_le
    omega
  obtain ⟨base, next, hrun, hlist, hout⟩ := unlink_eq (a := pr) hl hnodup hlen
  obtain ⟨base', next', hrun', hlist', hout'⟩ := unlink_eq (a := pr) hs.pages hs.nodup hfuel
  set blk := (h.pagerefs pr).blocktype with hblk
  have hbt : ∀ a, Pageref.blocktype
      { h.pagerefs a with nextSamesize := next a, nextAll := next' a } =
        (h.pagerefs a).blocktype := fun _ => rfl
  refine ⟨fun a => { h.pagerefs a with nextSamesize := next a, nextAll := next' a },
    Function.update h.sizebases blk base, base', ?_, fun a => ⟨rfl, rfl, rfl⟩, ?_⟩
  · unfold removeLists
    rw [if_pos htype, hrun]
    simp only [Option.bind_eq_bind, Option.bind_some, hrun']
  · refine ⟨hlist', hs.nodup.erase pr, fun b hb => ?_⟩
    by_cases hbb : b = blk
    · subst hbb
      refine ⟨l.erase pr, ?_, hnodup.erase pr, fun a => ?_⟩
      · simp only [Function.update_self]
        exact hlist
      · rw [hnodup.mem_erase_iff, hs.nodup.mem_erase_iff, hmem a, hbt, and_assoc]
    · obtain ⟨l', hl', hnodup', hmem'⟩ := hs.same b hb
      refine ⟨l', ?_, hnodup', fun a => ?_⟩
      · simp only [Function.update_of_ne hbb]
        refine hl'.congr fun a ha => hout a fun hal => hbb ?_
        rw [← ((hmem' a).1 ha).2, ((hmem a).1 hal).2]
      · rw [hmem' a, hs.nodup.mem_erase_iff, hbt]
        constructor
        · rintro ⟨ha, hb⟩
          refine ⟨⟨?_, ha⟩, hb⟩
          rintro rfl
          exact hbb hb.symm
        · rintro ⟨⟨-, ha⟩, hb⟩
          exact ⟨ha, hb⟩

end Os161.Vm.Kmalloc

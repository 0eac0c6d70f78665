import Os161.Vm.Live

set_option autoImplicit false

/-!
# What the steps do to the heap

Each step hands a page, a page reference or a block from one owner to another, and `Good` is kept.
-/

namespace Os161.Vm.Kmalloc

open Os161.Lib.Links

variable {τ : Type} [DecidableEq τ] {s : State τ} {all : List Nat} {t u : τ} {p : Point}
  {pr a b sz m n r k : Nat} {l : List Nat}

omit [DecidableEq τ] in
theorem Knows.mono {h h' : Heap} {pages pages' live live' : Nat → Option Nat}
    (hk : Knows h pages live p) (hroots : ∀ r, (h.kheaproots r).page ≠ none →
      (h'.kheaproots r).page ≠ none)
    (hpages : ∀ sz a, p = .gotBig sz a → pages' a = pages a)
    (hlive : ∀ ptr, p = .kfree ptr → live ptr ≠ none → live' ptr ≠ none) :
    Knows h' pages' live' p := by
  cases p with
  | gotBig sz a => exact ⟨hk.1, (hpages sz a rfl).trans hk.2⟩
  | dropRoot => exact ⟨hk.1, hroots _ hk.2⟩
  | droppedRoot => exact ⟨hk.1, hroots _ hk.2⟩
  | kfree ptr => exact hlive ptr rfl hk
  | _ => exact hk

/-- Owners after `t` has gone to another point. -/
theorem owns_update {h : Heap} {live : Nat → Option Nat} {pcs : τ → Point} {o : Owner τ}
    (ho : Owns h all live (Function.update pcs t p) a o) :
    (Owns h all live pcs a o ∧ o ≠ .work t ∧ o ≠ .extra t) ∨ (o = .work t ∧ p.work = some a) ∨
      (o = .extra t ∧ p.extra = some a) := by
  cases o with
  | heap pr => exact .inl ⟨ho, nofun, nofun⟩
  | root r => exact .inl ⟨ho, nofun, nofun⟩
  | block => exact .inl ⟨ho, nofun, nofun⟩
  | work u =>
      replace ho : (Function.update pcs t p u).work = some a := ho
      by_cases hu : u = t
      · rw [hu, Function.update_self] at ho
        exact .inr (.inl ⟨by rw [hu], ho⟩)
      · rw [Function.update_of_ne hu] at ho
        exact .inl ⟨ho, fun e => hu (Owner.work.inj e), nofun⟩
  | extra u =>
      replace ho : (Function.update pcs t p u).extra = some a := ho
      by_cases hu : u = t
      · rw [hu, Function.update_self] at ho
        exact .inr (.inr ⟨by rw [hu], ho⟩)
      · rw [Function.update_of_ne hu] at ho
        exact .inl ⟨ho, nofun, fun e => hu (Owner.extra.inj e)⟩

theorem hasRef_update {h : Heap} {pcs : τ → Point} {c : Nat × Nat} {o : Option τ}
    (ho : HasRef h all (Function.update pcs t p) c o) :
    (HasRef h all pcs c o ∧ o ≠ some t) ∨ (o = some t ∧ p.slot = some c) := by
  cases o with
  | none => exact .inl ⟨ho, nofun⟩
  | some u =>
      replace ho : (Function.update pcs t p u).slot = some c := ho
      by_cases hu : u = t
      · rw [hu, Function.update_self] at ho
        exact .inr ⟨by rw [hu], ho⟩
      · rw [Function.update_of_ne hu] at ho
        exact .inl ⟨ho, fun e => hu (Option.some.inj e)⟩

/-- Owners after `t` has gone to a point where it owns no more than before. -/
theorem owns_repoint {h : Heap} {live : Nat → Option Nat} {pcs : τ → Point}
    (hwork : ∀ a, p.work = some a → (pcs t).work = some a)
    (hextra : ∀ a, p.extra = some a → (pcs t).extra = some a) (a : Nat) (o : Owner τ)
    (ho : Owns h all live (Function.update pcs t p) a o) : Owns h all live pcs a o := by
  rcases owns_update ho with ⟨ho, -⟩ | ⟨rfl, hp⟩ | ⟨rfl, hp⟩
  · exact ho
  · exact hwork a hp
  · exact hextra a hp

theorem hasRef_repoint {h : Heap} {pcs : τ → Point}
    (hslot : ∀ c, p.slot = some c → (pcs t).slot = some c) (c : Nat × Nat) (o : Option τ)
    (ho : HasRef h all (Function.update pcs t p) c o) : HasRef h all pcs c o := by
  rcases hasRef_update ho with ⟨ho, -⟩ | ⟨rfl, hp⟩
  · exact ho
  · exact hslot c hp

theorem knows_update {h : Heap} {pages live : Nat → Option Nat} {pcs : τ → Point}
    (hp : Knows h pages live p) (hother : ∀ u, u ≠ t → Knows h pages live (pcs u)) (u : τ) :
    Knows h pages live (Function.update pcs t p u) := by
  by_cases hu : u = t
  · rw [hu, Function.update_self]
    exact hp
  · rw [Function.update_of_ne hu]
    exact hother u hu

theorem frees_update {pcs : τ → Point}
    (h : ∀ t u ptr, pcs t = .kfree ptr → pcs u = .kfree ptr → t = u)
    (hp : ∀ ptr, p = .kfree ptr → ∀ u, pcs u ≠ .kfree ptr) (u v : τ) (ptr : Nat)
    (hu : Function.update pcs t p u = .kfree ptr) (hv : Function.update pcs t p v = .kfree ptr) :
    u = v := by
  by_cases hut : u = t <;> by_cases hvt : v = t
  · rw [hut, hvt]
  · subst hut
    rw [Function.update_self] at hu
    rw [Function.update_of_ne hvt] at hv
    exact absurd hv (hp ptr hu v)
  · subst hvt
    rw [Function.update_self] at hv
    rw [Function.update_of_ne hut] at hu
    exact absurd hu (hp ptr hv u)
  · rw [Function.update_of_ne hut] at hu
    rw [Function.update_of_ne hvt] at hv
    exact h u v ptr hu hv

/-- The thread goes on, and nothing else happens. -/
theorem Good.repoint (h : Good s all) (hwork : ∀ a, p.work = some a → (s.pcs t).work = some a)
    (hextra : ∀ a, p.extra = some a → (s.pcs t).extra = some a)
    (hslot : ∀ c, p.slot = some c → (s.pcs t).slot = some c)
    (hknows : Knows s.heap s.pages s.live p)
    (hfrees : ∀ ptr, p = .kfree ptr → ∀ u, s.pcs u ≠ .kfree ptr) :
    Good { s with pcs := Function.update s.pcs t p } all where
  owned := h.owned.mono (owns_repoint hwork hextra)
  slots := h.slots.mono (hasRef_repoint hslot)
  shape := h.shape
  located := h.located
  blocks := h.blocks
  live := h.live
  knows := knows_update hknows fun u _ => h.knows u
  frees := frees_update h.frees hfrees

/-- A thread that owns nothing goes on, or one that is done with what it owned. -/
theorem Good.repoint_bare (h : Good s all) (hwork : p.work = none) (hextra : p.extra = none)
    (hslot : p.slot = none) (hknows : Knows s.heap s.pages s.live p)
    (hfrees : ∀ ptr, p = .kfree ptr → ∀ u, s.pcs u ≠ .kfree ptr) :
    Good { s with pcs := Function.update s.pcs t p } all := by
  refine h.repoint (fun a ha => ?_) (fun a ha => ?_) (fun c hc => ?_) hknows hfrees
  · rw [hwork] at ha
    cases ha
  · rw [hextra] at ha
    cases ha
  · rw [hslot] at hc
    cases hc

/-- `alloc_kpages`. -/
theorem Good.allocKpages {q : Nat → Point} (h : Good s all) (hwants : (s.pcs t).wants = some (n, q))
    (ha : Fresh s.pages a n) :
    Good { s with pages := Function.update s.pages a (some n)
                  pcs := Function.update s.pcs t (q a) } all := by
  have hnew : ∀ b, s.pages b ≠ none → b ≠ a := by
    rintro b hb rfl
    obtain ⟨m, hm⟩ := Option.ne_none_iff_exists'.1 hb
    have := ha.apart b m hm
    have := pageSize_le_pageSpan n
    have := pageSize_le_pageSpan m
    simp only [Apart, pageSize] at *
    omega
  have hslot : ∀ c, (q a).slot = some c → (s.pcs t).slot = some c := by
    intro c hc
    unfold Point.wants at hwants
    split at hwants <;> cases hwants <;> rename_i he
    · cases hc
    · cases hc
    · rw [he]
      exact hc
  have hknows : Knows s.heap (Function.update s.pages a (some n)) s.live (q a) := by
    have hk := h.knows t
    unfold Point.wants at hwants
    split at hwants <;> cases hwants <;> rename_i he <;> rw [he] at hk
    · exact ⟨hk, Function.update_self ..⟩
    · exact hk
    · exact hk
  have hfrees : ∀ ptr, q a = .kfree ptr → ∀ u, s.pcs u ≠ .kfree ptr := by
    intro ptr hq
    unfold Point.wants at hwants
    split at hwants <;> cases hwants <;> cases hq
  have howned : ∃ o, ∀ b x, Owns s.heap all s.live (Function.update s.pcs t (q a)) b x →
      Owns s.heap all s.live s.pcs b x ∨ (b = a ∧ x = o) := by
    unfold Point.wants at hwants
    split at hwants <;> cases hwants <;> rename_i he
    · refine ⟨.work t, fun b x ho => ?_⟩
      rcases owns_update ho with ⟨ho, -⟩ | ⟨rfl, hp⟩ | ⟨rfl, hp⟩
      · exact .inl ho
      · exact .inr ⟨(Option.some.inj hp).symm, rfl⟩
      · cases hp
    · refine ⟨.work t, fun b x ho => ?_⟩
      rcases owns_update ho with ⟨ho, -⟩ | ⟨rfl, hp⟩ | ⟨rfl, hp⟩
      · exact .inl ho
      · exact .inr ⟨(Option.some.inj hp).symm, rfl⟩
      · cases hp
    · refine ⟨.extra t, fun b x ho => ?_⟩
      rcases owns_update ho with ⟨ho, -⟩ | ⟨rfl, hp⟩ | ⟨rfl, hp⟩
      · exact .inl ho
      · refine .inl ?_
        change (s.pcs t).work = some b
        rw [he]
        exact hp
      · exact .inr ⟨(Option.some.inj hp).symm, rfl⟩
  obtain ⟨o, hR⟩ := howned
  refine ⟨h.owned.alloc ha hR, h.slots.mono (hasRef_repoint hslot), h.shape, h.located, h.blocks,
    fun b m hb => ?_, knows_update hknows fun u hu => ?_, frees_update h.frees hfrees⟩
  · refine (h.live b m hb).imp_right fun hbig => ⟨hbig.1, ?_⟩
    have hne := hnew b (by simp [hbig.2])
    exact (Function.update_of_ne hne _ _).trans hbig.2
  · refine (h.knows u).mono (fun _ hr => hr) (fun m b hb => Function.update_of_ne (hnew b ?_) _ _)
      fun _ _ hl => hl
    have hk := h.knows u
    rw [hb] at hk
    simp [hk.2]

omit [DecidableEq τ] in
theorem owns_of_frees (all : List Nat) {q : Point} (hfrees : (s.pcs t).frees = some (a, q)) :
    q.extra = none ∧ ∃ o, (o = .work t ∨ o = .extra t) ∧ Owns s.heap all s.live s.pcs a o ∧
      (o = .work t → q.work = none) ∧ (∀ b, q.work = some b → (s.pcs t).work = some b) := by
  unfold Point.frees at hfrees
  split at hfrees <;> cases hfrees <;> rename_i he
  · refine ⟨rfl, .extra t, .inr rfl, ?_, nofun, fun b hb => ?_⟩
    · change (s.pcs t).extra = _
      rw [he]
      rfl
    · rw [he]
      exact hb
  all_goals
    refine ⟨rfl, .work t, .inl rfl, ?_, fun _ => rfl, nofun⟩
    change (s.pcs t).work = _
    rw [he]
    rfl

/-- `free_kpages`. -/
theorem Good.freeKpages {q : Point} (h : Good s all) (hfrees : (s.pcs t).frees = some (a, q)) :
    Good { s with pages := Function.update s.pages a none, pcs := Function.update s.pcs t q }
      all := by
  obtain ⟨hextra, o, hot, ho, hnone, hwork⟩ := owns_of_frees all hfrees
  have hslot : ∀ c, q.slot = some c → (s.pcs t).slot = some c := by
    intro c hc
    unfold Point.frees at hfrees
    split at hfrees <;> cases hfrees <;> rename_i he
    · rw [he]
      exact hc
    all_goals cases hc
  have hknows : Knows s.heap s.pages s.live q := by
    have hk := h.knows t
    unfold Point.frees at hfrees
    split at hfrees <;> cases hfrees <;> rename_i he
    · rw [he] at hk
      exact hk
    all_goals trivial
  have hbig : ∀ m b, q ≠ .gotBig m b := by
    intro m b
    unfold Point.frees at hfrees
    split at hfrees <;> cases hfrees <;> nofun
  have hkfree : ∀ ptr, q = .kfree ptr → ∀ u, s.pcs u ≠ .kfree ptr := by
    intro ptr hq
    unfold Point.frees at hfrees
    split at hfrees <;> cases hfrees <;> cases hq
  have hR : ∀ b x, Owns s.heap all s.live (Function.update s.pcs t q) b x →
      Owns s.heap all s.live s.pcs b x ∧ x ≠ o := by
    intro b x hx
    rcases owns_update hx with ⟨hx, hne, hne'⟩ | ⟨rfl, hp⟩ | ⟨rfl, hp⟩
    · refine ⟨hx, ?_⟩
      rintro rfl
      rcases hot with rfl | rfl
      · exact hne rfl
      · exact hne' rfl
    · refine ⟨hwork b hp, ?_⟩
      rintro rfl
      rw [hnone rfl] at hp
      cases hp
    · rw [hextra] at hp
      cases hp
  -- nobody else has the page
  have hother : ∀ b x, Owns s.heap all s.live s.pcs b x → x ≠ o → b ≠ a := by
    rintro b x hx hne rfl
    exact hne (h.owned.unique b x o hx ho)
  refine ⟨h.owned.free ho hR, h.slots.mono (hasRef_repoint hslot), h.shape, h.located, h.blocks,
    fun b m hb => ?_, knows_update ?_ fun u hu => ?_, frees_update h.frees hkfree⟩
  · refine (h.live b m hb).imp_right fun ⟨hm, hpages⟩ => ⟨hm, ?_⟩
    have hne : b ≠ a := hother b .block ⟨m, hb, hm⟩ (by rcases hot with rfl | rfl <;> nofun)
    exact (Function.update_of_ne hne _ _).trans hpages
  · exact hknows.mono (fun _ hr => hr) (fun m b e => absurd e (hbig m b)) fun _ _ hl => hl
  · refine (h.knows u).mono (fun _ hr => hr) (fun m b hb => Function.update_of_ne ?_ _ _)
      fun _ _ hl => hl
    refine hother b (.work u) ?_ ?_
    · change (s.pcs u).work = some b
      rw [hb]
      rfl
    · rcases hot with rfl | rfl
      · exact fun e => hu (Owner.work.inj e)
      · nofun

omit [DecidableEq τ] in
/-- A thread writes to a live block. -/
theorem Good.write {mem : Nat → Nat} (h : Good s all) (ha : s.live a = some sz)
    (hmem : ∀ b, ¬ (a ≤ b ∧ b < a + extent sz) → mem b = s.heap.mem b) :
    Good { s with heap := { s.heap with mem := mem } } all where
  owned := h.owned
  slots := h.slots
  shape := h.shape.same_pages rfl rfl fun _ => ⟨rfl, rfl, rfl⟩
  located := h.located
  blocks pr hpr := by
    obtain ⟨l, hl⟩ := h.blocks pr hpr
    exact ⟨l, hl.same (fun b hb hfree => hmem b (h.free_apart ha hpr hb hfree)) fun _ _ => Iff.rfl⟩
  live := h.live
  knows := h.knows
  frees := h.frees

/-! ## Blocks -/

omit [DecidableEq τ] in
theorem samePage_setPageref {h : Heap} {f : Pageref → Pageref}
    (hf : SamePage (h.pagerefs pr) (f (h.pagerefs pr))) (c : Nat) :
    SamePage (h.pagerefs c) ((h.setPageref pr f).pagerefs c) := by
  by_cases hc : c = pr
  · subst hc
    simpa [Heap.setPageref] using hf
  · simp only [Heap.setPageref, Function.update_of_ne hc]
    exact ⟨rfl, rfl, rfl⟩

theorem Placed.mono {h h' : Heap} {all' : List Nat} {pages : Nat → Option Nat}
    (hp : Placed h all pages b m)
    (hall : ∀ pr ∈ all, IsBlock (h.pagerefs pr) b → m < largestSubpageSize →
      pr ∈ all' ∧ SamePage (h.pagerefs pr) (h'.pagerefs pr)) : Placed h' all' pages b m := by
  rcases hp with ⟨hm, pr, hpr, htype, hblock⟩ | hbig
  · obtain ⟨hpr', hsame⟩ := hall pr hpr hblock hm
    exact .inl ⟨hm, pr, hpr', hsame.blocktype.trans htype, (hsame.isBlock b).2 hblock⟩
  · exact .inr hbig

omit [DecidableEq τ] in
/-- A free block is allocated. -/
theorem Good.take {f : Pageref → Pageref} (h : Good s all) (hpr : pr ∈ all)
    (hl : PageOk s.heap.mem s.live (s.heap.pagerefs pr) (a :: l))
    (htype : (s.heap.pagerefs pr).blocktype = blocktype sz) (hsz : sz < largestSubpageSize)
    (hf : SamePage (s.heap.pagerefs pr) (f (s.heap.pagerefs pr)))
    (hl' : PageOk s.heap.mem (Function.update s.live a (some sz)) (f (s.heap.pagerefs pr)) l) :
    Good { s with heap := s.heap.setPageref pr f, live := Function.update s.live a (some sz) }
      all := by
  have hsame := samePage_setPageref hf
  have hblock := ((hl.mem_iff a).1 List.mem_cons_self).1
  refine ⟨h.owned.mono fun b x hx => ?_, h.slots.mono fun c x hx => ?_,
    h.shape.same_pages rfl rfl hsame, h.located, fun pr' hpr' => ?_, fun b m hb => ?_,
    fun u => (h.knows u).mono (fun _ hr => hr) (fun _ _ _ => rfl) fun ptr _ hptr => ?_, h.frees⟩
  · cases x with
    | heap pr' => exact ⟨hx.1, (hsame pr').pageaddr.symm.trans hx.2⟩
    | block =>
        obtain ⟨m, hm, hbig⟩ := hx
        refine ⟨m, ?_, hbig⟩
        by_cases hb : b = a
        · subst hb
          simp only [Function.update_self, Option.some.injEq] at hm
          subst hm
          exact absurd hsz (Nat.not_lt_of_le hbig)
        · simpa [hb] using hm
    | _ => exact hx
  · cases x <;> exact hx
  · by_cases hne : pr' = pr
    · subst hne
      refine ⟨l, ?_⟩
      simpa [Heap.setPageref] using hl'
    · obtain ⟨l', hl'⟩ := h.blocks pr' hpr'
      refine ⟨l', ?_⟩
      simp only [Heap.setPageref, Function.update_of_ne hne]
      refine hl'.same (fun _ _ _ => rfl) fun b hb => ?_
      have hba : b ≠ a := by
        rintro rfl
        exact hne (h.page_eq hpr' hpr (h.isBlock_bounds hpr' hb) (h.isBlock_bounds hpr hblock))
      simp [hba]
  · by_cases hba : b = a
    · subst hba
      simp only [Function.update_self, Option.some.injEq] at hb
      subst hb
      exact .inl ⟨hsz, pr, hpr, (hsame pr).blocktype.trans htype, ((hsame pr).isBlock b).2 hblock⟩
    · replace hb : s.live b = some m := (Function.update_of_ne hba _ _).symm.trans hb
      exact (h.live b m hb).mono fun pr' hpr' _ _ => ⟨hpr', hsame pr'⟩
  · by_cases hne : ptr = a
    · simp [hne]
    · exact fun e => hptr ((Function.update_of_ne hne _ _).symm.trans e)

omit [DecidableEq τ] in
/-- A live block is put on the list of its page. -/
theorem Good.give {mem : Nat → Nat} {f : Pageref → Pageref} (h : Good s all) (hpr : pr ∈ all)
    (hblock : IsBlock (s.heap.pagerefs pr) a)
    (hmem : ∀ b, ¬ (a ≤ b ∧ b < a + blockSize (s.heap.pagerefs pr).blocktype) →
      mem b = s.heap.mem b)
    (hf : SamePage (s.heap.pagerefs pr) (f (s.heap.pagerefs pr)))
    (hl : PageOk mem (Function.update s.live a none) (f (s.heap.pagerefs pr)) l)
    (hfrees : ∀ u, s.pcs u ≠ .kfree a) :
    Good { s with heap := { s.heap with mem := mem }.setPageref pr f
                  live := Function.update s.live a none } all := by
  have hsame : ∀ c, SamePage (s.heap.pagerefs c)
      (({ s.heap with mem := mem } : Heap).setPageref pr f |>.pagerefs c) := fun c =>
    samePage_setPageref (h := { s.heap with mem := mem }) hf c
  have hbounds := hblock.bounds (h.type_lt hpr)
  have hlive : ∀ b m, Function.update s.live a none b = some m → b ≠ a ∧ s.live b = some m := by
    intro b m hb
    have hba : b ≠ a := by
      rintro rfl
      simp at hb
    exact ⟨hba, by rwa [Function.update_of_ne hba] at hb⟩
  refine ⟨h.owned.mono fun b x hx => ?_, h.slots.mono fun c x hx => ?_,
    h.shape.same_pages rfl rfl hsame, h.located, fun pr' hpr' => ?_, fun b m hb => ?_,
    fun u => (h.knows u).mono (fun _ hr => hr) (fun _ _ _ => rfl) fun ptr he hptr => ?_, h.frees⟩
  · cases x with
    | heap pr' => exact ⟨hx.1, (hsame pr').pageaddr.symm.trans hx.2⟩
    | block =>
        obtain ⟨m, hm, hbig⟩ := hx
        exact ⟨m, (hlive b m hm).2, hbig⟩
    | _ => exact hx
  · cases x <;> exact hx
  · by_cases hne : pr' = pr
    · subst hne
      refine ⟨l, ?_⟩
      simpa [Heap.setPageref] using hl
    · obtain ⟨l', hl'⟩ := h.blocks pr' hpr'
      refine ⟨l', ?_⟩
      simp only [Heap.setPageref, Function.update_of_ne hne]
      -- the block is on another page
      have hout : ∀ b, IsBlock (s.heap.pagerefs pr') b →
          ¬ (a ≤ b ∧ b < a + blockSize (s.heap.pagerefs pr).blocktype) := by
        rintro b hb ⟨hab, hba⟩
        exact hne (h.page_eq hpr' hpr (h.isBlock_bounds hpr' hb) ⟨by omega, by omega⟩)
      refine hl'.same (fun b hb _ => hmem b (hout b hb)) fun b hb => ?_
      have hba : b ≠ a := by
        rintro rfl
        have hsize := (blockSize_spec _ (h.type_lt hpr)).1
        exact hout b hb ⟨Nat.le_refl b, by omega⟩
      rw [Function.update_of_ne hba]
  · exact (h.live b m (hlive b m hb).2).mono fun pr' hpr' _ _ => ⟨hpr', hsame pr'⟩
  · have hne : ptr ≠ a := by
      rintro rfl
      exact hfrees u he
    exact fun e => hptr ((Function.update_of_ne hne _ _).symm.trans e)

/-- A block of its own pages becomes live. -/
theorem Good.takeBig (h : Good s all) (ht : s.pcs t = .gotBig sz a) :
    Good { s with live := Function.update s.live a (some sz), pcs := Function.update s.pcs t .out }
      all := by
  have hk := h.knows t
  rw [ht] at hk
  obtain ⟨hsz, hpages⟩ := hk
  have ho : Owns s.heap all s.live s.pcs a (.work t) := by
    change (s.pcs t).work = some a
    rw [ht]
    rfl
  refine ⟨h.owned.move .block ho fun b x hx => ?_, h.slots.mono fun c x hx => ?_,
    h.shape, h.located, fun pr hpr => ?_, fun b m hb => ?_, knows_update trivial fun u _ =>
      (h.knows u).mono (fun _ hr => hr) (fun _ _ _ => rfl) fun ptr _ hptr => ?_,
    frees_update h.frees nofun⟩
  · rcases owns_update hx with ⟨hx, hne, -⟩ | ⟨-, hp⟩ | ⟨-, hp⟩
    · by_cases hb : b = a ∧ x = .block
      · exact .inr hb
      · refine .inl ⟨?_, fun e => hne e.2⟩
        cases x with
        | block =>
            obtain ⟨m, hm, hbig⟩ := hx
            have hba : b ≠ a := fun e => hb ⟨e, rfl⟩
            exact ⟨m, (Function.update_of_ne hba _ _).symm.trans hm, hbig⟩
        | _ => exact hx
    · cases hp
    · cases hp
  · exact hasRef_repoint (p := .out) nofun c x hx
  · obtain ⟨l, hl⟩ := h.blocks pr hpr
    refine ⟨l, hl.same (fun _ _ _ => rfl) fun b hb => ?_⟩
    have hba : b ≠ a := by
      rintro rfl
      have hbounds := h.isBlock_bounds hpr hb
      have ho' : Owns s.heap all s.live s.pcs (s.heap.pagerefs pr).pageaddr (.heap pr) := ⟨hpr, rfl⟩
      have he := h.owned.eq_of_mem ho ho' (Nat.le_refl b) (by simp [pageSize]) hbounds.1 hbounds.2
      rw [← he] at ho'
      have := h.owned.unique _ _ _ ho ho'
      cases this
    simp [hba]
  · by_cases hba : b = a
    · subst hba
      simp only [Function.update_self, Option.some.injEq] at hb
      subst hb
      exact .inr ⟨hsz, hpages⟩
    · exact h.live b m ((Function.update_of_ne hba _ _).symm.trans hb)
  · by_cases hne : ptr = a
    · simp [hne]
    · exact fun e => hptr ((Function.update_of_ne hne _ _).symm.trans e)

/-- A block of its own pages is given back. -/
theorem Good.giveBig (h : Good s all) (ht : s.pcs t = .kfree a) (ha : s.live a = some sz)
    (hsz : largestSubpageSize ≤ sz) :
    Good { s with live := Function.update s.live a none, pcs := Function.update s.pcs t (.freeBig a) }
      all := by
  have ho : Owns s.heap all s.live s.pcs a .block := ⟨sz, ha, hsz⟩
  have hlive : ∀ b m, Function.update s.live a none b = some m → b ≠ a ∧ s.live b = some m := by
    intro b m hb
    have hba : b ≠ a := by
      rintro rfl
      simp at hb
    exact ⟨hba, by rwa [Function.update_of_ne hba] at hb⟩
  refine ⟨h.owned.move (.work t) ho fun b x hx => ?_, h.slots.mono fun c x hx => ?_,
    h.shape, h.located, fun pr hpr => ?_, fun b m hb => h.live b m (hlive b m hb).2,
    knows_update trivial fun u hu =>
      (h.knows u).mono (fun _ hr => hr) (fun _ _ _ => rfl) fun ptr he hptr => ?_,
    frees_update h.frees nofun⟩
  · rcases owns_update hx with ⟨hx, -, -⟩ | ⟨rfl, hp⟩ | ⟨-, hp⟩
    · cases x with
      | block =>
          obtain ⟨m, hm, hbig⟩ := hx
          obtain ⟨hba, hm⟩ := hlive b m hm
          exact .inl ⟨⟨m, hm, hbig⟩, fun e => hba e.1⟩
      | _ => exact .inl ⟨hx, nofun⟩
    · exact .inr ⟨(Option.some.inj hp).symm, rfl⟩
    · cases hp
  · exact hasRef_repoint (p := .freeBig a) nofun c x hx
  · obtain ⟨l, hl⟩ := h.blocks pr hpr
    refine ⟨l, hl.same (fun _ _ _ => rfl) fun b hb => ?_⟩
    have hba : b ≠ a := by
      rintro rfl
      have hbounds := h.isBlock_bounds hpr hb
      have ho' : Owns s.heap all s.live s.pcs (s.heap.pagerefs pr).pageaddr (.heap pr) := ⟨hpr, rfl⟩
      have he := h.owned.eq_of_mem ho ho' (Nat.le_refl b) (by simp [pageSize]) hbounds.1 hbounds.2
      rw [← he] at ho'
      have := h.owned.unique _ _ _ ho ho'
      cases this
    simp [hba]
  · have hne : ptr ≠ a := by
      rintro rfl
      exact hu (h.frees u t ptr he ht)
    exact fun e => hptr ((Function.update_of_ne hne _ _).symm.trans e)

/-! ## Pages and page references -/

omit [DecidableEq τ] in
/-- The page of a root with a `struct pageref` in it. -/
theorem refAddr_bounds (page : Nat) (hk : k < npagerefsPerPage) :
    page ≤ refAddr page k ∧ refAddr page k < page + pageSize := by
  have h₁ : npagerefsPerPage = 256 := by decide
  unfold refAddr
  simp only [pagerefSize, pageSize]
  omega

omit [DecidableEq τ] in
/-- A `struct pageref` is at one place only. -/
theorem Good.ref_unique (h : Good s all) {r' k' page page' : Nat}
    (hpage : (s.heap.kheaproots r).page = some page)
    (hpage' : (s.heap.kheaproots r').page = some page') (hk : k < npagerefsPerPage)
    (hk' : k' < npagerefsPerPage) (he : refAddr page k = refAddr page' k') :
    r = r' ∧ page = page' ∧ k = k' := by
  have hb := refAddr_bounds page hk
  have hb' := refAddr_bounds page' hk'
  rw [← he] at hb'
  have ho : Owns s.heap all s.live s.pcs page (.root r) := hpage
  have ho' : Owns s.heap all s.live s.pcs page' (.root r') := hpage'
  have hpp := h.owned.eq_of_mem ho ho' hb.1 hb.2 hb'.1 hb'.2
  subst hpp
  have hrr := h.owned.unique _ _ _ ho ho'
  cases hrr
  refine ⟨rfl, rfl, ?_⟩
  unfold refAddr at he
  simp only [pagerefSize] at he
  omega

omit [DecidableEq τ] in
theorem page_takePageref (h : Heap) (r k r' : Nat) :
    ((h.takePageref r k).kheaproots r').page = (h.kheaproots r').page := by
  by_cases hr : r' = r
  · subst hr
    simp [Heap.takePageref, Heap.setRoot]
  · simp [Heap.takePageref, Heap.setRoot, hr]

omit [DecidableEq τ] in
theorem page_dropPageref (h : Heap) (r k r' : Nat) :
    ((h.dropPageref r k).kheaproots r').page = (h.kheaproots r').page := by
  by_cases hr : r' = r
  · subst hr
    simp [Heap.dropPageref, Heap.setRoot]
  · simp [Heap.dropPageref, Heap.setRoot, hr]

/-- `allocpageref`, when there is a bit. -/
theorem Good.takeRef {prpage : Nat} (h : Good s all) (ht : s.pcs t = .gotPage sz prpage)
    (hr : r < numPagerefpages) (hfree : FreeRef s.heap r k)
    (hfull : ∀ r' < r, npagerefsPerPage ≤ (s.heap.kheaproots r').numinuse)
    (hp : p.work = some prpage ∧ p.extra = none ∧ p.slot = some (r, k))
    (hknows : Knows s.heap s.pages s.live p) (hkfree : ∀ ptr, p ≠ .kfree ptr) :
    Good { s with heap := s.heap.takePageref r k, pcs := Function.update s.pcs t p } all := by
  have hpage := page_takePageref s.heap r k
  have hmono : ∀ {q}, Knows s.heap s.pages s.live q →
      Knows (s.heap.takePageref r k) s.pages s.live q := fun hq =>
    hq.mono (fun r' hr' => by rwa [hpage r']) (fun _ _ _ => rfl) fun _ _ hl => hl
  refine ⟨h.owned.mono fun b x hx => ?_, h.slots.take hr hfree.ref hfree.free hfree.room hfull
      (o := some t) fun c x hx => ?_, h.shape.same_pages rfl rfl fun _ => ⟨rfl, rfl, rfl⟩,
    fun pr hpr => ?_, h.blocks, h.live, knows_update (hmono hknows) fun u _ => hmono (h.knows u),
    frees_update h.frees fun ptr he => absurd he (hkfree ptr)⟩
  · rcases owns_update hx with ⟨hx, -, -⟩ | ⟨rfl, hw⟩ | ⟨rfl, he⟩
    · cases x with
      | root r' => exact (hpage r').symm.trans hx
      | _ => exact hx
    · change (s.pcs t).work = some b
      rw [ht]
      exact hp.1.symm.trans hw
    · rw [hp.2.1] at he
      cases he
  · rcases hasRef_update hx with ⟨hx, -⟩ | ⟨rfl, hs⟩
    · refine .inl ?_
      cases x with
      | none =>
          obtain ⟨page, hpg, hrest⟩ := hx
          exact ⟨page, (hpage c.1).symm.trans hpg, hrest⟩
      | some u => exact hx
    · exact .inr ⟨(Option.some.inj (hp.2.2.symm.trans hs)).symm, rfl⟩
  · obtain ⟨r', k', page, hpg, hrest⟩ := h.located pr hpr
    exact ⟨r', k', page, (hpage r').trans hpg, hrest⟩

/-- `root->page = va`. -/
theorem Good.rootPage {prpage va : Nat} (h : Good s all) (ht : s.pcs t = .gotRoot sz prpage r k va)
    (hnone : (s.heap.kheaproots r).page = none) :
    Good { s with heap := s.heap.setRoot r fun root => { root with page := some va }
                  pcs := Function.update s.pcs t (.droppedRoot sz prpage r k) } all := by
  have ho : Owns s.heap all s.live s.pcs va (.extra t) := by
    change (s.pcs t).extra = some va
    rw [ht]
    rfl
  have hself : ((s.heap.setRoot r fun root => { root with page := some va }).kheaproots r).page =
      some va := by simp [Heap.setRoot]
  have hother : ∀ r', r' ≠ r → ((s.heap.setRoot r fun root =>
      { root with page := some va }).kheaproots r').page = (s.heap.kheaproots r').page := by
    intro r' hr'
    simp [Heap.setRoot, hr']
  have hsome : ∀ r', (s.heap.kheaproots r').page ≠ none → r' ≠ r := by
    rintro r' hr' rfl
    exact hr' hnone
  have hmono : ∀ {q}, Knows s.heap s.pages s.live q → Knows (s.heap.setRoot r fun root =>
      { root with page := some va }) s.pages s.live q := fun hq =>
    hq.mono (fun r' hr' => by rwa [hother r' (hsome r' hr')]) (fun _ _ _ => rfl) fun _ _ hl => hl
  have hk := h.knows t
  rw [ht] at hk
  refine ⟨h.owned.move (.root r) ho fun b x hx => ?_, (h.slots.setPage va).mono fun c x hx => ?_,
    h.shape.same_pages rfl rfl fun _ => ⟨rfl, rfl, rfl⟩, fun pr hpr => ?_, h.blocks, h.live,
    knows_update ⟨hk, by rw [hself]; simp⟩ fun u _ => hmono (h.knows u),
    frees_update h.frees (by simp)⟩
  · rcases owns_update hx with ⟨hx, hne, hne'⟩ | ⟨rfl, hw⟩ | ⟨rfl, he⟩
    · cases x with
      | root r' =>
          by_cases hr' : r' = r
          · subst hr'
            exact .inr ⟨(Option.some.inj (hself.symm.trans hx)).symm, rfl⟩
          · exact .inl ⟨(hother r' hr').symm.trans hx, by simp⟩
      | extra u => exact .inl ⟨hx, fun e => hne' e.2⟩
      | _ => exact .inl ⟨hx, by simp⟩
    · refine .inl ⟨?_, by simp⟩
      change (s.pcs t).work = some b
      rw [ht]
      exact hw
    · cases he
  · rcases hasRef_update hx with ⟨hx, -⟩ | ⟨rfl, hs⟩
    · cases x with
      | none =>
          obtain ⟨page, hpg, hc, hmem⟩ := hx
          by_cases hr' : c.1 = r
          · -- no page of the heap has its reference on the new page
            rw [hr', hself] at hpg
            cases hpg
            obtain ⟨r', k', page', hpg', hk', he⟩ := h.located _ hmem
            have ho' : Owns s.heap all s.live s.pcs page' (.root r') := hpg'
            have hb := refAddr_bounds va hc
            have hb' := refAddr_bounds page' hk'
            rw [← he] at hb'
            have hpp := h.owned.eq_of_mem ho ho' hb.1 hb.2 hb'.1 hb'.2
            subst hpp
            have := h.owned.unique _ _ _ ho ho'
            cases this
          · exact ⟨page, (hother c.1 hr').symm.trans hpg, hc, hmem⟩
      | some u => exact hx
    · change (s.pcs t).slot = some c
      rw [ht]
      exact hs
  · obtain ⟨r', k', page, hpg, hrest⟩ := h.located pr hpr
    exact ⟨r', k', page, (hother r' (hsome r' (by simp [hpg]))).trans hpg, hrest⟩

/-- `subpage_kmalloc` makes a new page, which is put on the lists. -/
theorem Good.newPage {prpage page : Nat} (h : Good s all)
    (ht : s.pcs t = .droppedRoot sz prpage r k) (hpage : (s.heap.kheaproots r).page = some page) :
    ∃ h', newPage s.heap prpage (blocktype sz) (refAddr page k) = .ok h' ∧
      Good { s with heap := h', pcs := Function.update s.pcs t .out } (refAddr page k :: all) ∧
      (h'.pagerefs (refAddr page k)).blocktype = blocktype sz ∧
      ∃ l, PageOk h'.mem s.live (h'.pagerefs (refAddr page k)) l ∧ l ≠ [] := by
  have hwork : (s.pcs t).work = some prpage := by
    rw [ht]
    rfl
  have hslot : HasRef s.heap all s.pcs (r, k) (some t) := by
    change (s.pcs t).slot = some (r, k)
    rw [ht]
    rfl
  have hsz : sz < largestSubpageSize := by
    have hk := h.knows t
    rw [ht] at hk
    exact hk.1
  have ho : Owns s.heap all s.live s.pcs prpage (.work t) := hwork
  obtain ⟨hr, hk, -⟩ := h.slots.used r k _ hslot
  obtain ⟨haligned, hnonzero⟩ := h.owned.aligned_of ho
  obtain ⟨mem', ref, hrun, hout, hpa, hbt, hnext, hnextall, hok⟩ := newPage_eq s.heap
    (refAddr page k) hnonzero haligned (blocktype_spec hsz).1
    fun b h₁ h₂ => h.work_free hwork h₁ h₂
  have hnew : refAddr page k ∉ all := fun hmem => by
    have := h.slots.unique (r, k) none (some t) ⟨page, hpage, hk, hmem⟩ hslot
    cases this
  have hother : ∀ pr ∈ all, Function.update s.heap.pagerefs (refAddr page k) ref pr =
      s.heap.pagerefs pr := by
    intro pr hpr
    refine Function.update_of_ne ?_ _ _
    rintro rfl
    exact hnew hpr
  have hshape := h.shape.push mem' hnew hnextall (by rw [hnext, hbt])
  rw [hbt] at hshape
  refine ⟨_, hrun, ?_, ?_, ?_⟩
  · refine ⟨h.owned.move (.heap (refAddr page k)) ho fun b x hx => ?_,
      h.slots.move none hslot fun c x hx => ?_, hshape, fun pr hpr => ?_, fun pr hpr => ?_,
      fun b m hb => ?_, knows_update trivial fun u _ => (h.knows u).mono (fun _ hr => hr)
        (fun _ _ _ => rfl) fun _ _ hl => hl, frees_update h.frees nofun⟩
    · rcases owns_update hx with ⟨hx, hne, -⟩ | ⟨-, hp⟩ | ⟨-, hp⟩
      · cases x with
        | heap pr =>
            obtain ⟨hpr, hb⟩ := hx
            rcases List.mem_cons.1 hpr with rfl | hpr
            · refine .inr ⟨?_, rfl⟩
              rw [← hb, ← hpa]
              simp
            · refine .inl ⟨⟨hpr, ?_⟩, nofun⟩
              rw [← hb]
              exact congrArg Pageref.pageaddr (hother pr hpr).symm
        | work u => exact .inl ⟨hx, fun e => hne e.2⟩
        | _ => exact .inl ⟨hx, nofun⟩
      · cases hp
      · cases hp
    · rcases hasRef_update hx with ⟨hx, hne⟩ | ⟨-, hp⟩
      · cases x with
        | none =>
            obtain ⟨page', hpg, hc, hmem⟩ := hx
            rcases List.mem_cons.1 hmem with he | hmem
            · obtain ⟨h₁, -, h₂⟩ := h.ref_unique hpg hpage hc hk he
              exact .inr ⟨Prod.ext h₁ h₂, rfl⟩
            · exact .inl ⟨⟨page', hpg, hc, hmem⟩, nofun⟩
        | some u => exact .inl ⟨hx, hne⟩
      · cases hp
    · rcases List.mem_cons.1 hpr with rfl | hpr
      · exact ⟨r, k, page, hpage, hk, rfl⟩
      · exact h.located pr hpr
    · rcases List.mem_cons.1 hpr with rfl | hpr
      · refine ⟨blocksDown prpage (blockSize (blocktype sz))
          (pageSize / blockSize (blocktype sz) - 1), ?_⟩
        simpa using hok
      · obtain ⟨l, hl⟩ := h.blocks pr hpr
        refine ⟨l, ?_⟩
        simp only [hother pr hpr]
        refine hl.same (fun b hb _ => hout b fun hin => ?_) fun _ _ => Iff.rfl
        -- the new page is none of the others
        have hbounds := h.isBlock_bounds hpr hb
        have ho' : Owns s.heap all s.live s.pcs (s.heap.pagerefs pr).pageaddr (.heap pr) :=
          ⟨hpr, rfl⟩
        have he := h.owned.eq_of_mem ho ho' hin.1 hin.2 hbounds.1 hbounds.2
        rw [← he] at ho'
        have := h.owned.unique _ _ _ ho ho'
        cases this
    · refine (h.live b m hb).mono fun pr hpr _ _ => ⟨List.mem_cons_of_mem _ hpr, ?_⟩
      simp only [hother pr hpr]
      exact ⟨rfl, rfl, rfl⟩
  · simpa using hbt
  · refine ⟨_, by simpa using hok, ?_⟩
    rw [← List.length_pos_iff, length_blocksDown]
    exact Nat.succ_pos _

/-- A page without live blocks is taken from the lists, and its page reference is released. -/
theorem Good.release {refs : Nat → Pageref} {sizebases : Nat → Option Nat} {allbase : Option Nat}
    {page : Nat} (h : Good s all) (hpr : pr ∈ all)
    (hpage : (s.heap.kheaproots r).page = some page) (hk : k < npagerefsPerPage)
    (hpk : pr = refAddr page k)
    (hfree : ∀ b, IsBlock (s.heap.pagerefs pr) b → s.live b = none)
    (hrefs : ∀ a, (refs a).pageaddrAndBlocktype = (s.heap.pagerefs a).pageaddrAndBlocktype ∧
      (refs a).freelistOffset = (s.heap.pagerefs a).freelistOffset ∧
      (refs a).nfree = (s.heap.pagerefs a).nfree)
    (hshape : Shape { s.heap with pagerefs := refs, sizebases := sizebases, allbase := allbase }
      (all.erase pr)) :
    Good { s with
        heap := Heap.dropPageref
          { s.heap with pagerefs := refs, sizebases := sizebases, allbase := allbase } r k
        pcs := Function.update s.pcs t (.freePage (s.heap.pagerefs pr).pageaddr) }
      (all.erase pr) := by
  have hroots := page_dropPageref
    { s.heap with pagerefs := refs, sizebases := sizebases, allbase := allbase } r k
  have herase : ∀ {c}, c ∈ all.erase pr ↔ c ≠ pr ∧ c ∈ all := h.shape.nodup.mem_erase_iff
  have haddr : ∀ c, (refs c).pageaddr = (s.heap.pagerefs c).pageaddr := fun c => by
    unfold Pageref.pageaddr
    rw [(hrefs c).1]
  have htype : ∀ c, (refs c).blocktype = (s.heap.pagerefs c).blocktype := fun c => by
    unfold Pageref.blocktype
    rw [(hrefs c).1]
  have hblock : ∀ c b, IsBlock (refs c) b ↔ IsBlock (s.heap.pagerefs c) b := fun c b => by
    unfold IsBlock
    rw [haddr, htype]
  have ho : Owns s.heap all s.live s.pcs (s.heap.pagerefs pr).pageaddr (.heap pr) := ⟨hpr, rfl⟩
  have href : HasRef s.heap all s.pcs (r, k) none := ⟨page, hpage, hk, hpk ▸ hpr⟩
  have hinuse := (h.slots.used r k _ href).2.2
  refine ⟨h.owned.move (.work t) ho fun b x hx => ?_,
    h.slots.drop (h := { s.heap with pagerefs := refs, sizebases := sizebases, allbase := allbase })
      hk hinuse (by simp [hpage]) fun c x hx => ?_,
    hshape.same_pages rfl rfl fun _ => ⟨rfl, rfl, rfl⟩, fun c hc => ?_, fun c hc => ?_,
    fun b m hb => ?_, knows_update trivial fun u _ => (h.knows u).mono
      (fun r' hr' => by rwa [hroots r']) (fun _ _ _ => rfl) fun _ _ hl => hl,
    frees_update h.frees nofun⟩
  · rcases owns_update hx with ⟨hx, -, -⟩ | ⟨rfl, hw⟩ | ⟨rfl, he⟩
    · cases x with
      | heap c =>
          obtain ⟨hc, hb⟩ := hx
          obtain ⟨hne, hc⟩ := herase.1 hc
          exact .inl ⟨⟨hc, (haddr c).symm.trans hb⟩, fun e => hne (Owner.heap.inj e.2)⟩
      | root r' => exact .inl ⟨(hroots r').symm.trans hx, nofun⟩
      | _ => exact .inl ⟨hx, nofun⟩
    · exact .inr ⟨(Option.some.inj hw).symm, rfl⟩
    · cases he
  · rcases hasRef_update hx with ⟨hx, -⟩ | ⟨-, hs⟩
    · cases x with
      | none =>
          obtain ⟨page', hpg, hc, hmem⟩ := hx
          obtain ⟨hne, hmem⟩ := herase.1 hmem
          replace hpg : (s.heap.kheaproots c.1).page = some page' := (hroots c.1).symm.trans hpg
          refine ⟨⟨page', hpg, hc, hmem⟩, ?_⟩
          rintro rfl
          rw [hpage] at hpg
          cases hpg
          exact hne hpk.symm
      | some u =>
          refine ⟨hx, ?_⟩
          rintro rfl
          replace hx : HasRef s.heap all s.pcs (r, k) (some u) := hx
          have := h.slots.unique _ _ _ href hx
          cases this
    · cases hs
  · obtain ⟨r', k', page', hpg, hrest⟩ := h.located c (herase.1 hc).2
    exact ⟨r', k', page', (hroots r').trans hpg, hrest⟩
  · obtain ⟨l, hl⟩ := h.blocks c (herase.1 hc).2
    exact ⟨l, hl.relink (hrefs c).1 (hrefs c).2.1 (hrefs c).2.2⟩
  · rcases h.live b m hb with ⟨hm, c, hc, hct, hcb⟩ | hbig
    · have hne : c ≠ pr := by
        rintro rfl
        rw [hfree b hcb] at hb
        cases hb
      exact .inl ⟨hm, c, herase.2 ⟨hne, hc⟩, (htype c).trans hct, (hblock c b).2 hcb⟩
    · exact .inr hbig

end Os161.Vm.Kmalloc

import Os161.Synch.CondVar

set_option autoImplicit false

/-!
# Woken threads

A thread that has been woken in `cv_wait` is on its way back to the lock (`Returns`); in the
monitor that the kernel refines it is woken from the queue (`woken_iff`). When all threads are
asleep or have nothing to do with the lock, it is free and nobody is on the way to it
(`quiet_of_asleep`).
-/

namespace Os161.Synch

open Os161.Lib.Runs
open Os161.Lib.Monitor

variable {τ L C σ κ : Type} [DecidableEq τ] [DecidableEq L] [DecidableEq C]
  {v : Version} {P : Client τ L C σ κ} {s : Machine τ L C σ κ} {t : τ}

/-- In `cv_wait` on `c` behind `wchan_sleep`, and without the lock. -/
def Point.returns (c : C) : Point L C κ → Bool
  | .wait _ _ c' _ .unspin => c' == c
  | .acquire (.cvWait _ _ c') _ a => c' == c && a != .unspin
  | _ => false

/-- `u` has been woken from the wait channel of `c`, and has not got its lock back yet. -/
def Returns (s : Machine τ L C σ κ) (c : C) (u : τ) : Prop :=
  u ∉ s.queue (.cvWchan c) ∧ (pointOf (s.pcs u)).returns c = true

omit [DecidableEq τ] [DecidableEq L] in
/-- A thread that has given up its lock in `cv_wait` is on its way to the wait channel, or has been
there. -/
theorem returns_or_leaves {p : Point L C κ} {c : C} :
    (∃ ℓ k, p.phase = .waiting c ℓ k) ↔ p.returns c = true ∨ p.leaves c = true := by
  cases p with
  | client k => simp [Point.phase, Point.returns, Point.leaves]
  | acquire f ℓ a => cases f <;> cases a <;> simp [Point.phase, Point.returns, Point.leaves]
  | release f ℓ b => cases f <;> cases b <;> simp [Point.phase, Point.returns, Point.leaves]
  | wait k k' c' ℓ w => cases w <;> simp [Point.phase, Point.returns, Point.leaves]
  | wake k k' c' ℓ all w => cases w <;> simp [Point.phase, Point.returns, Point.leaves]

omit [DecidableEq τ] [DecidableEq L] in
theorem not_leaves_of_returns {p : Point L C κ} {c : C} (h : p.returns c = true) :
    p.leaves c = false := by
  cases p with
  | acquire f ℓ a => cases f <;> rfl
  | wait k k' c' ℓ w => cases w <;> first | rfl | cases h
  | client k => cases h
  | release f ℓ b => cases h
  | wake k k' c' ℓ all w => cases h

/-- The threads that the client sees woken. -/
theorem woken_iff (h : Sound (synch v P) s) {c : C} {u : τ} :
    (abs s).Woken c u ↔ Returns s c u := by
  have hmem : u ∈ (abs s).queue c ↔
      u ∈ s.queue (.cvWchan c) ∨ (pointOf (s.pcs u)).leaves c = true := by
    rw [← mem_leaving h]
    exact List.mem_append
  have hphase : (∃ ℓ k, (abs s).pcs u = .waiting c ℓ k) ↔
      (pointOf (s.pcs u)).returns c = true ∨ (pointOf (s.pcs u)).leaves c = true :=
    returns_or_leaves
  unfold State.Woken Returns
  rw [hmem, hphase]
  constructor
  · rintro ⟨hnot, hreturns | hleaves⟩
    · exact ⟨fun hq => hnot (.inl hq), hreturns⟩
    · exact absurd (.inr hleaves) hnot
  · rintro ⟨hnq, hreturns⟩
    refine ⟨?_, .inl hreturns⟩
    rintro (hq | hleaves)
    · exact hnq hq
    · rw [not_leaves_of_returns hreturns] at hleaves
      cases hleaves

/-- The threads that the client sees on a queue. -/
theorem released_iff (h : Sound (synch v P) s) {c : C} {u : τ} :
    u ∈ (abs s).queue c ↔ Released s c u := by
  unfold Released
  rw [← mem_leaving h, or_comm]
  exact List.mem_append

omit [DecidableEq τ] [DecidableEq C] in
/-- A point of the client at which no call begins or ends is only seen when it is there. -/
theorem client_of_phase {p : Point L C κ} {k : κ} (hcalled : p.Called P) (hk : p.phase = .active k)
    (hfrom : ∀ r k', ¬ P.calls k r k') (hto : ∀ k' r, ¬ P.calls k' r k) : p = .client k := by
  cases p with
  | client k' =>
      cases hk
      rfl
  | acquire f ℓ a =>
      cases f <;> cases a <;> cases hk <;>
        first | exact absurd hcalled (hfrom _ _) | exact absurd hcalled (hto _ _)
  | release f ℓ b =>
      cases f <;> cases b <;> cases hk <;>
        first | exact absurd hcalled (hfrom _ _) | exact absurd hcalled (hto _ _)
  | wait k₁ k₂ c ℓ w =>
      cases w <;> cases hk <;>
        first | exact absurd hcalled (hfrom _ _) | exact absurd hcalled (hto _ _)
  | wake k₁ k₂ c ℓ all w =>
      cases w <;> cases hk <;>
        first | exact absurd hcalled (hfrom _ _) | exact absurd hcalled (hto _ _)

theorem client_of_abs (h : Sound (synch v P) s) (hl : Linked P s) {k : κ}
    (hk : (abs s).pcs t = .active k) (hfrom : ∀ r k', ¬ P.calls k r k')
    (hto : ∀ k' r, ¬ P.calls k' r k) : s.pcs t = .active (.client k) := by
  have hp := client_of_phase (hl.called t) hk hfrom hto
  cases hpc : s.pcs t with
  | active p =>
      rw [hpc] at hp
      rw [show p = .client k from hp]
  | waiting c x p =>
      rw [hpc] at hp
      obtain ⟨p₀, hcall⟩ := h.called t c x p hpc
      obtain rfl : p = .client k := hp
      cases hcall

/-- `t` sleeps on a wait channel. -/
def Asleep (s : Machine τ L C σ κ) (t : τ) : Prop := ∃ c, t ∈ s.queue c

/-- A thread that sleeps on the channel of a lock has called `lock_acquire`. -/
theorem point_of_lockWchan (h : Sound (synch v P) s) {ℓ : L} (ht : t ∈ s.queue (.lockWchan ℓ)) :
    ∃ x f, s.pcs t = .waiting (.lockWchan ℓ) x (.acquire f ℓ .test) := by
  obtain ⟨x, p, hp⟩ := h.asleep _ t ht
  obtain ⟨p₀, hcall⟩ := h.called t _ x p hp
  have hcall : Calls p₀ (.wait (.lockWchan ℓ) x) p := hcall
  cases hcall with
  | acquireSleep f ℓ => exact ⟨_, f, hp⟩

/-- A thread that sleeps on the channel of a condition variable has called `cv_wait`. -/
theorem point_of_cvWchan (h : Sound (synch v P) s) {c : C} (ht : t ∈ s.queue (.cvWchan c)) :
    ∃ x k k' ℓ, s.pcs t = .waiting (.cvWchan c) x (.wait k k' c ℓ .unspin) := by
  obtain ⟨x, p, hp⟩ := h.asleep _ t ht
  obtain ⟨p₀, hcall⟩ := h.called t _ x p hp
  have hcall : Calls p₀ (.wait (.cvWchan c) x) p := hcall
  cases hcall with
  | waitSleep k k' c ℓ => exact ⟨_, k, k', ℓ, hp⟩

section OneLock

variable {P : Client τ Unit C σ κ} {s : Machine τ Unit C σ κ} {t : τ}

/-- A thread that sleeps does not hold the only lock. -/
theorem not_holds_of_asleep (h : Sound (synch v P) s) (hl : Linked P s) (ht : Asleep s t) :
    ¬ Holds P s () t := by
  obtain ⟨c, hc⟩ := ht
  have hcalled := hl.called t
  unfold Holds
  cases c with
  | lockWchan ℓ =>
      obtain ⟨x, f, hp⟩ := point_of_lockWchan h hc
      rw [hp] at hcalled ⊢
      cases f with
      | client k k' =>
          have hown := (P.owns_calls _ _ _ hcalled).1
          simpa [pointOf, Point.phase, Pc.owns] using hown
      | cvWait k k' c => simp [pointOf, Point.phase, Pc.owns]
  | cvWchan c =>
      obtain ⟨x, k, k', ℓ, hp⟩ := point_of_cvWchan h hc
      rw [hp]
      simp [pointOf, Point.phase, Pc.owns]

/-- `t` runs in the client, outside the critical sections of the only lock. -/
def Outside (P : Client τ Unit C σ κ) (s : Machine τ Unit C σ κ) (t : τ) : Prop :=
  ∃ k, s.pcs t = .active (.client k) ∧ P.owns k () = false

/-- When every thread sleeps or is outside the critical sections, the lock is free, nobody is on
the way to it, and those who sleep do so in `cv_wait`. -/
theorem quiet_of_asleep {y : σ} (h : Reach (Step (synch v P)) anyStep (boot v P y) s)
    (hall : ∀ t, Asleep s t ∨ Outside P s t) :
    (s.shared.locks ()).held = false ∧ (∀ c u, ¬ Returns s c u) ∧
    ∀ t, Asleep s t → ∃ c, t ∈ s.queue (.cvWchan c) := by
  have hsound := sound_of_reach h
  have hlinked := (reach_monitor h).1
  have hfree : (s.shared.locks ()).held = false := by
    rw [hlinked.held, Option.isSome_eq_false_iff, Option.isNone_iff_eq_none,
      Option.eq_none_iff_forall_ne_some]
    intro t ht
    have hholds := (holder_iff h () t).1 ht
    rcases hall t with hasleep | ⟨k, hk, ho⟩
    · exact not_holds_of_asleep hsound hlinked hasleep hholds
    · unfold Holds at hholds
      rw [hk] at hholds
      exact absurd (ho.symm.trans hholds) (by simp)
  -- a free lock has no sleepers, because somebody awake would be heading for it
  have hlock : s.queue (.lockWchan ()) = [] := by
    by_contra hne
    obtain ⟨t, ht⟩ := (served_of_reach h).served () hfree hne
    rcases hall t with ⟨c, hc⟩ | ⟨k, hk, -⟩
    · rcases ht with ⟨hnq, x, p, hp⟩ | ⟨f, a, hp, -⟩
      · obtain ⟨x', p', hp'⟩ := hsound.asleep c t hc
        rw [hp] at hp'
        cases hp'
        exact hnq hc
      · exact hsound.not_mem_queue hp c hc
    · obtain ⟨f, a, e, -⟩ := heading_active hk ht
      cases e
  have hcv : ∀ t c, t ∈ s.queue c → ∃ c', c = .cvWchan c' := by
    intro t c hc
    cases c with
    | lockWchan ℓ =>
        rw [hlock] at hc
        cases hc
    | cvWchan c => exact ⟨c, rfl⟩
  refine ⟨hfree, ?_, ?_⟩
  · rintro c u ⟨hnq, hreturns⟩
    rcases hall u with ⟨ch, hch⟩ | ⟨k, hk, -⟩
    · obtain ⟨c', rfl⟩ := hcv u ch hch
      obtain ⟨x, k, k', ℓ, hp⟩ := point_of_cvWchan hsound hch
      rw [hp] at hreturns
      obtain rfl : c' = c := by simpa [pointOf, Point.returns] using hreturns
      exact hnq hch
    · rw [hk] at hreturns
      cases hreturns
  · rintro t ⟨ch, hch⟩
    obtain ⟨c, rfl⟩ := hcv t ch hch
    exact ⟨c, hch⟩

end OneLock

end Os161.Synch

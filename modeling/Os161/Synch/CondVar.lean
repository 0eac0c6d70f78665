import Os161.Synch.Exclusion

set_option autoImplicit false

/-!
# Condition variables lose no wakeup

`cv_wait` gives up the sleep lock while it has the spinlock of the condition variable, and keeps
this spinlock until it is on the wait channel. So a thread that gets to the wakeup in `cv_signal`
or `cv_broadcast` finds on the channel every thread that has given up its lock in `cv_wait` and has
not been woken since (`mem_of_released`).
-/

namespace Os161.Synch

open Os161.Lib.Runs
open Os161.Lib.Monitor

variable {τ L C σ κ : Type} [DecidableEq τ] [DecidableEq L] [DecidableEq C]
  {v : Version} {P : Client τ L C σ κ} {s s' : Machine τ L C σ κ} {t : τ} {c : C}

/-- `w` is in `cv_wait` on `c`, has given up its lock there, and has not been woken since: it is on
its way to the wait channel, or on it. -/
def Released (s : Machine τ L C σ κ) (c : C) (w : τ) : Prop :=
  (pointOf (s.pcs w)).leaves c = true ∨ w ∈ s.queue (.cvWchan c)

/-- `t` is at the wakeup in `cv_broadcast`, or in `cv_signal`. -/
def AtWakeup (s : Machine τ L C σ κ) (c : C) (t : τ) (all : Bool) : Prop :=
  ∃ k k' ℓ, s.pcs t = .active (.wake k k' c ℓ all .wake)

/-- The next step of `t` wakes `w` from the wait channel of `c`. -/
def Wakes (s : Machine τ L C σ κ) (t : τ) (c : C) (w : τ) : Prop :=
  (AtWakeup s c t true ∧ w ∈ s.queue (.cvWchan c)) ∨
    (AtWakeup s c t false ∧ (s.queue (.cvWchan c)).head? = some w)

omit [DecidableEq τ] [DecidableEq L] [DecidableEq C] in
theorem not_wakes {p : Point L C κ} {w : τ} (ht : s.pcs t = .active p)
    (hp : ∀ k k' ℓ all, p ≠ .wake k k' c ℓ all .wake) : ¬ Wakes s t c w := by
  rintro (⟨⟨k, k', ℓ, h⟩, -⟩ | ⟨⟨k, k', ℓ, h⟩, -⟩)
  · rw [ht] at h
    cases h
    exact hp _ _ _ _ rfl
  · rw [ht] at h
    cases h
    exact hp _ _ _ _ rfl

/-- At a wakeup nobody is on the way to the wait channel any more. -/
theorem mem_of_released (h : Sound (synch v P) s) {all : Bool} (ht : AtWakeup s c t all) {w : τ}
    (hw : Released s c w) : w ∈ s.queue (.cvWchan c) := by
  obtain ⟨k, k', ℓ, hp⟩ := ht
  rcases hw with hw | hw
  · have hmem : w ∈ (abs s).queue c := List.mem_append.2 (.inr ((mem_leaving h).2 hw))
    rwa [abs_queue_of_wake h hp] at hmem
  · exact hw

/-- What a wakeup does. -/
theorem step_of_wakeup (hs : Step (synch v P) s t s') {k k' : κ} {ℓ : L} {all : Bool}
    (ht : s.pcs t = .active (.wake k k' c ℓ all .wake)) :
    s'.pcs = Function.update s.pcs t (.active (.wake k k' c ℓ all .unspin)) ∧
    s'.queue = Function.update s.queue (.cvWchan c)
      (if all then [] else (s.queue (.cvWchan c)).tail) := by
  obtain ⟨r, p, hc, rfl⟩ := hs.of_calls ht (fun _ _ hr => nomatch hr)
  have hc : Calls (.wake k k' c ℓ all .wake) r p := hc
  cases hc with
  | wakeOne => exact ⟨rfl, rfl⟩
  | wakeAll => exact ⟨rfl, rfl⟩

omit [DecidableEq L] in
/-- `t` moves; it is still on its way, or on the channel now, if it was on its way. -/
theorem Released.keep {w : τ} (hw : Released s c w)
    {pc : Pc (Spin L C) (Chan L C) (Point L C κ)} (hpcs : s'.pcs = Function.update s.pcs t pc)
    (hq : w ∈ s.queue (.cvWchan c) → w ∈ s'.queue (.cvWchan c))
    (hself : (pointOf (s.pcs t)).leaves c = true →
      (pointOf pc).leaves c = true ∨ t ∈ s'.queue (.cvWchan c)) : Released s' c w := by
  rcases hw with hw | hw
  · by_cases hwt : w = t
    · subst hwt
      rcases hself hw with h | h
      · left
        rwa [hpcs, Function.update_self]
      · exact .inr h
    · left
      rwa [hpcs, Function.update_of_ne hwt]
  · exact .inr (hq hw)

/-- Step lemma. A step that does not wake `w` leaves it where it is. -/
theorem Released.step {w : τ} (hw : Released s c w) (hs : Step (synch v P) s t s')
    (hnot : ¬ Wakes s t c w) : Released s' c w := by
  have hpoint : ∀ {p : Point L C κ}, s.pcs t = .active p → pointOf (s.pcs t) = p := by
    intro p hp
    rw [hp]
    rfl
  cases hs with
  | @run p p' x hk hr =>
      have hr : Runs v P t p s.shared p' x := hr
      refine hw.keep rfl id fun hself => ?_
      rw [hpoint hk] at hself
      rcases leaves_cases hself with ⟨k, k', ℓ, rfl⟩ | ⟨k, k', ℓ, rfl⟩ <;> cases hr
  | @acquire p p' x hk hc hfree =>
      have hc : Calls p (.acquire x) p' := hc
      refine hw.keep rfl id fun hself => ?_
      rw [hpoint hk] at hself
      rcases leaves_cases hself with ⟨k, k', ℓ, rfl⟩ | ⟨k, k', ℓ, rfl⟩ <;> cases hc
  | @release p p' x hk hc =>
      have hc : Calls p (.release x) p' := hc
      refine hw.keep rfl id fun hself => ?_
      rw [hpoint hk] at hself
      rcases leaves_cases hself with ⟨k, k', ℓ, rfl⟩ | ⟨k, k', ℓ, rfl⟩ <;> cases hc
      exact .inl hself
  | @wait p p' c' x hk hc =>
      have hc : Calls p (.wait c' x) p' := hc
      cases hc with
      | acquireSleep f ℓ =>
          refine hw.keep rfl (fun hmem => ?_) fun hself => ?_
          · exact (cvWchan_update s.queue ℓ (s.queue (.lockWchan ℓ) ++ [t]) c).symm ▸ hmem
          · rw [hpoint hk] at hself
            cases hself
      | waitSleep k k' c₁ ℓ =>
          refine hw.keep rfl (fun hmem => ?_) fun hself => .inr ?_
          · by_cases hcc : c = c₁
            · subst hcc
              simp [hmem]
            · simpa [hcc] using hmem
          · rw [hpoint hk] at hself
            obtain rfl := beq_iff_eq.1 hself
            simp
  | @resume p c' x hk hq hfree =>
      refine hw.keep rfl id fun hself => .inl ?_
      rw [hk] at hself
      exact hself
  | @signal p p' c' x hk hc =>
      have hc : Calls p (.signal c' x) p' := hc
      refine hw.keep rfl (fun hmem => ?_) fun hself => ?_
      · cases hc with
        | releaseFree f ℓ =>
            exact (cvWchan_update s.queue ℓ (s.queue (.lockWchan ℓ)).tail c).symm ▸ hmem
        | wakeOne k k' c₁ ℓ =>
            by_cases hcc : c = c₁
            · subst hcc
              -- `w` is not the head
              have hhead : (s.queue (.cvWchan c)).head? ≠ some w := fun hhead =>
                hnot (.inr ⟨⟨k, k', ℓ, hk⟩, hhead⟩)
              cases hqueue : s.queue (.cvWchan c) with
              | nil =>
                  rw [hqueue] at hmem
                  cases hmem
              | cons w₁ rest =>
                  rw [hqueue] at hmem hhead
                  have hne : w ≠ w₁ := by simpa [eq_comm] using hhead
                  simpa [hqueue, hne] using hmem
            · simpa [hcc] using hmem
      · rw [hpoint hk] at hself
        rcases leaves_cases hself with ⟨k, k', ℓ, rfl⟩ | ⟨k, k', ℓ, rfl⟩ <;> cases hc
  | @broadcast p p' c' x hk hc =>
      have hc : Calls p (.broadcast c' x) p' := hc
      cases hc with
      | wakeAll k k' c₁ ℓ =>
          refine hw.keep rfl (fun hmem => ?_) fun hself => ?_
          · by_cases hcc : c = c₁
            · subst hcc
              exact absurd (.inl ⟨⟨k, k', ℓ, hk⟩, hmem⟩) hnot
            · simpa [hcc] using hmem
          · rw [hpoint hk] at hself
            cases hself

/-- Run lemma. A thread that has given up its lock in `cv_wait` is on the wait channel at the next
wakeup, unless it has been woken before. -/
theorem mem_at_wakeup {ok : Machine τ L C σ κ → τ → Prop} {y : σ} {w : τ} {s₂ : Machine τ L C σ κ}
    (h : Reach (Step (synch v P)) ok (boot v P y) s) (hw : Released s c w)
    (hrun : Reach (Step (synch v P)) (fun s u => ¬ Wakes s u c w) s s₂) {all : Bool}
    (ht : AtWakeup s₂ c t all) : w ∈ s₂.queue (.cvWchan c) := by
  have hboth : Sound (synch v P) s₂ ∧ Released s₂ c w := by
    refine hrun.invariant (I := fun s => Sound (synch v P) s ∧ Released s c w) ?_ ?_
    · rintro s₃ u s₄ ⟨hI, hreleased⟩ hnot hs
      exact ⟨hs.sound hI, hreleased.step hs hnot⟩
    · exact ⟨sound_of_reach h, hw⟩
  exact mem_of_released hboth.1 ht hboth.2

/-- `cv_wait` gives the lock up and counts as waiting from then on. -/
theorem released_of_free (hs : Step (synch v P) s t s') {k k' : κ} {ℓ : L}
    (ht : s.pcs t = .active (.release (.cvWait k k' c) ℓ .free)) :
    (s'.shared.locks ℓ).held = false ∧ Released s' c t := by
  obtain ⟨r, p, hc, rfl⟩ := hs.of_calls ht (fun _ _ hr => nomatch hr)
  have hc : Calls (.release (.cvWait k k' c) ℓ .free) r p := hc
  cases hc with
  | releaseFree =>
      constructor
      · change (Function.update s.shared.locks ℓ _ ℓ).held = false
        rw [Function.update_self]
      · left
        change (pointOf (Function.update s.pcs t _ t)).leaves c = true
        rw [Function.update_self]
        simp [pointOf, Point.leaves]

/-- `cv_wait` gives its lock up and goes to sleep as one step. A thread that has given up its lock
there counts as waiting at once (1), and is on the wait channel whenever another thread gets to the
wakeup in `cv_signal` or `cv_broadcast` before it has been woken (2). So `cv_broadcast` wakes all
these threads (3), `cv_signal` wakes one of them if there is one (4), and `cv_wait` returns with the
lock held by its caller (5). -/
theorem cvWait_atomic (v : Version) (P : Client τ L C σ κ) (y : σ)
    (h : Reach (Step (synch v P)) anyStep (boot v P y) s) (c : C) :
    (∀ t s' k k' ℓ, s.pcs t = .active (.release (.cvWait k k' c) ℓ .free) →
      Step (synch v P) s t s' → (s'.shared.locks ℓ).held = false ∧ Released s' c t) ∧
    (∀ w s₂ t all, Released s c w →
      Reach (Step (synch v P)) (fun s u => ¬ Wakes s u c w) s s₂ → AtWakeup s₂ c t all →
      w ∈ s₂.queue (.cvWchan c)) ∧
    (∀ t s', AtWakeup s c t true → Step (synch v P) s t s' → ∀ w, Released s c w →
      s'.Woken (.cvWchan c) w) ∧
    (∀ t s', AtWakeup s c t false → Step (synch v P) s t s' → (∃ w, Released s c w) →
      ∃ w, Released s c w ∧ s'.Woken (.cvWchan c) w ∧
        ∀ u, u ≠ w → (Released s' c u ↔ Released s c u)) ∧
    (∀ t s' k k' ℓ w, s.pcs t = .active (.wait k k' c ℓ w) → Step (synch v P) s t s' →
      s'.pcs t = .active (.client k') →
      (s'.shared.locks ℓ).held = true ∧ (s'.shared.locks ℓ).holder = some t) := by
  have hsound := sound_of_reach h
  have hwoken : ∀ {s' : Machine τ L C σ κ} {t w : τ} {k k' : κ} {ℓ : L} {all : Bool},
      s.pcs t = .active (.wake k k' c ℓ all .wake) →
      s'.pcs = Function.update s.pcs t (.active (.wake k k' c ℓ all .unspin)) →
      w ∈ s.queue (.cvWchan c) → w ∉ s'.queue (.cvWchan c) → s'.Woken (.cvWchan c) w := by
    intro s' t w k k' ℓ all ht hpcs hmem hnot
    obtain ⟨x, p, hp⟩ := hsound.asleep _ w hmem
    have hwt : w ≠ t := by
      rintro rfl
      rw [ht] at hp
      cases hp
    exact ⟨hnot, x, p, by rw [hpcs, Function.update_of_ne hwt, hp]⟩
  refine ⟨fun t s' k k' ℓ ht hs => released_of_free hs ht,
    fun w s₂ t all hw hrun ht => mem_at_wakeup h hw hrun ht, ?_, ?_, ?_⟩
  · intro t s' ht hs w hw
    have hmem := mem_of_released hsound ht hw
    obtain ⟨k, k', ℓ, hp⟩ := ht
    obtain ⟨hpcs, hq⟩ := step_of_wakeup hs hp
    exact hwoken hp hpcs hmem (by simp [hq])
  · rintro t s' ht hs ⟨w₀, hw₀⟩
    have hmem := mem_of_released hsound ht hw₀
    have hall := fun u => mem_of_released (w := u) hsound ht
    obtain ⟨k, k', ℓ, hp⟩ := ht
    obtain ⟨hpcs, hq⟩ := step_of_wakeup hs hp
    cases hqueue : s.queue (.cvWchan c) with
    | nil =>
        rw [hqueue] at hmem
        cases hmem
    | cons w rest =>
        have hnodup := hsound.nodup (.cvWchan c)
        rw [hqueue, List.nodup_cons] at hnodup
        have hq' : s'.queue (.cvWchan c) = rest := by simp [hq, hqueue]
        refine ⟨w, .inr (by simp [hqueue]), ?_, fun u hu => ?_⟩
        · apply hwoken hp hpcs
          · simp [hqueue]
          · rw [hq']
            exact hnodup.1
        · constructor
          · rintro (hleaves | hmem')
            · by_cases hut : u = t
              · subst hut
                rw [hpcs, Function.update_self] at hleaves
                cases hleaves
              · rw [hpcs, Function.update_of_ne hut] at hleaves
                exact .inl hleaves
            · right
              rw [hqueue]
              rw [hq'] at hmem'
              exact List.mem_cons_of_mem w hmem'
          · intro hreleased
            have hmem' := hall u hreleased
            rw [hqueue] at hmem'
            right
            rw [hq']
            exact (List.mem_cons.1 hmem').resolve_left hu
  · intro t s' k k' ℓ w ht hs ht'
    have h' := h.tail trivial hs
    have hlinked := (reach_monitor h).1
    have hcalled := hlinked.called t
    rw [ht] at hcalled
    obtain ⟨hown, ho⟩ := P.owns_calls _ _ _ hcalled
    have hholder : (s'.shared.locks ℓ).holder = some t := by
      rw [holder_iff h']
      unfold Holds
      rw [ht']
      change P.owns k' ℓ = true
      rw [ho, hown]
    refine ⟨?_, hholder⟩
    rw [(reach_monitor h').1.held, hholder]
    rfl

/-- Thread `1` is in `cv_wait` and has just given up the lock; `2` takes it and calls `cv_signal`,
but gets to the wakeup only when `1` is on the channel. -/
theorem cvWait_atomic_handover :
    ∃ s : Machine Nat Unit Unit Unit (Unit → Bool), AtWakeup s () 2 false ∧
      1 ∈ s.queue (.cvWchan ()) := by
  have start : Reach (Step (synch .dvz (anyCalls Nat Unit Unit))) anyStep
      (boot .dvz (anyCalls Nat Unit Unit) ()) _ := .refl
  have released := start.tail (a := 1) trivial
      (.run rfl (.call (r := .acquire ()) ⟨rfl, rfl⟩))
    |>.tail (a := 1) trivial (.run rfl (.acquireEnter rfl))
    |>.tail (a := 1) trivial (.acquire rfl (.acquireSpin _ _) rfl)
    |>.tail (a := 1) trivial (.run rfl (.acquireFree rfl))
    |>.tail (a := 1) trivial (.release rfl (.acquireUnspin _ _))
    |>.tail (a := 1) trivial (.run rfl (.call (r := .wait () ()) ⟨rfl, rfl⟩))
    |>.tail (a := 1) trivial (.run rfl (.waitEnter rfl))
    |>.tail (a := 1) trivial (.acquire rfl (.waitSpin _ _ _ _) rfl)
    |>.tail (a := 1) trivial (.run rfl (.releaseEnter rfl rfl))
    |>.tail (a := 1) trivial (.acquire rfl (.releaseSpin _ _) rfl)
    |>.tail (a := 1) trivial (.signal rfl (.releaseFree _ _))
  have wakeup := (released.here fun s u => ¬ Wakes s u () 1).tail (a := 1) (not_wakes rfl nofun) (.release rfl (.releaseUnspin _ _))
    |>.tail (a := 2) (not_wakes rfl nofun) (.run rfl (.call (r := .acquire ()) ⟨rfl, rfl⟩))
    |>.tail (a := 2) (not_wakes rfl nofun) (.run rfl (.acquireEnter rfl))
    |>.tail (a := 2) (not_wakes rfl nofun) (.acquire rfl (.acquireSpin _ _) rfl)
    |>.tail (a := 2) (not_wakes rfl nofun) (.run rfl (.acquireFree rfl))
    |>.tail (a := 2) (not_wakes rfl nofun) (.release rfl (.acquireUnspin _ _))
    |>.tail (a := 2) (not_wakes rfl nofun) (.run rfl (.call (r := .signal () ()) ⟨rfl, rfl⟩))
    |>.tail (a := 2) (not_wakes rfl nofun) (.run rfl (.wakeEnter rfl))
    |>.tail (a := 1) (not_wakes rfl nofun) (.wait rfl (.waitSleep _ _ _ _))
    |>.tail (a := 2) (not_wakes rfl nofun) (.acquire rfl (.wakeSpin _ _ _ _ _) rfl)
  exact ⟨_, ⟨_, _, _, rfl⟩,
    (cvWait_atomic .dvz _ () released ()).2.1 1 _ 2 false (.inl rfl) wakeup ⟨_, _, _, rfl⟩⟩

end Os161.Synch

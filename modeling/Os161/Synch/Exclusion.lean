import Os161.Synch.Refine

set_option autoImplicit false

/-!
# Mutual exclusion and sleepers of sleep locks

A sleep lock has at most one holder, because the monitor that the kernel refines has
(`Os161.Synch.reach_abs`). No sleeper is left behind: whenever the lock is free and somebody sleeps
on its wait channel, a thread has been woken from there or is about to test the lock (`Served`).
-/

namespace Os161.Synch

open Os161.Lib.Runs
open Os161.Lib.Monitor

variable {τ L C σ κ : Type} [DecidableEq τ] [DecidableEq L] [DecidableEq C]
  {v : Version} {P : Client τ L C σ κ} {s s' : Machine τ L C σ κ} {t : τ}

/-- `t` is between its `lock_acquire` and its `lock_release`: it has stored itself as the holder
and has not yet cleared it. -/
def Holds (P : Client τ L C σ κ) (s : Machine τ L C σ κ) (ℓ : L) (t : τ) : Prop :=
  (pointOf (s.pcs t)).phase.owns P ℓ = true

/-- `t` is in `lock_acquire`, and has been woken or is running towards the test. -/
def Heading (s : Machine τ L C σ κ) (ℓ : L) (t : τ) : Prop :=
  s.Woken (.lockWchan ℓ) t ∨
    ∃ f a, s.pcs t = .active (.acquire f ℓ a) ∧ (a = .spin ∨ a = .test)

/-- Somebody sleeps on the wait channel of a free lock only if somebody else is heading for it. -/
structure Served (s : Machine τ L C σ κ) : Prop where
  /-- A thread that is about to sleep has found the lock held, and still has its spinlock. -/
  sleeping : ∀ t f ℓ, s.pcs t = .active (.acquire f ℓ .sleep) → (s.shared.locks ℓ).held = true
  served : ∀ ℓ, (s.shared.locks ℓ).held = false → s.queue (.lockWchan ℓ) ≠ [] → ∃ t, Heading s ℓ t

omit [DecidableEq L] [DecidableEq C] in
/-- Other threads keep heading for a lock. -/
theorem Heading.other {pc : Pc (Spin L C) (Chan L C) (Point L C κ)} {ℓ : L} {u : τ}
    (h : Heading s ℓ u) (hut : u ≠ t) (hpcs : s'.pcs = Function.update s.pcs t pc)
    (hq : s'.queue (.lockWchan ℓ) = s.queue (.lockWchan ℓ)) : Heading s' ℓ u := by
  have hpu : s'.pcs u = s.pcs u := by rw [hpcs, Function.update_of_ne hut]
  rcases h with ⟨hnq, x, p, hp⟩ | ⟨f, a, hp, ha⟩
  · exact .inl ⟨by rwa [hq], x, p, hpu.trans hp⟩
  · exact .inr ⟨f, a, hpu.trans hp, ha⟩

omit [DecidableEq L] [DecidableEq C] in
/-- `t` moves; where it was heading for a lock that is still free, it still is. -/
theorem Served.keep (h : Served s) {pc : Pc (Spin L C) (Chan L C) (Point L C κ)}
    (hpcs : s'.pcs = Function.update s.pcs t pc)
    (hq : ∀ ℓ, s'.queue (.lockWchan ℓ) = s.queue (.lockWchan ℓ))
    (hheld : ∀ ℓ, (s'.shared.locks ℓ).held = false → (s.shared.locks ℓ).held = false)
    (hsleep : ∀ f ℓ, pc = .active (.acquire f ℓ .sleep) → (s'.shared.locks ℓ).held = true)
    (hself : ∀ ℓ, (s'.shared.locks ℓ).held = false → Heading s ℓ t → Heading s' ℓ t) :
    Served s' where
  sleeping u f ℓ hu := by
    by_cases hut : u = t
    · subst hut
      rw [hpcs, Function.update_self] at hu
      exact hsleep f ℓ hu
    · rw [hpcs, Function.update_of_ne hut] at hu
      rw [← Bool.not_eq_false]
      intro hfree
      exact absurd (hheld ℓ hfree) (by simp [h.sleeping u f ℓ hu])
  served ℓ hfree hne := by
    obtain ⟨u, hu⟩ := h.served ℓ (hheld ℓ hfree) (by rwa [← hq ℓ])
    by_cases hut : u = t
    · subst hut
      exact ⟨u, hself ℓ hfree hu⟩
    · exact ⟨u, hu.other hut hpcs (hq ℓ)⟩

omit [DecidableEq τ] [DecidableEq L] [DecidableEq C] in
/-- A thread that runs is heading for a lock only when it is before the test. -/
theorem heading_active {p : Point L C κ} {ℓ : L} (ht : s.pcs t = .active p)
    (h : Heading s ℓ t) : ∃ f a, p = .acquire f ℓ a ∧ (a = .spin ∨ a = .test) := by
  rcases h with ⟨-, x, q, hq⟩ | ⟨f, a, hp, ha⟩
  · rw [ht] at hq
    cases hq
  · rw [ht] at hp
    cases hp
    exact ⟨f, a, rfl, ha⟩

/-- The holder's spinlock is the one that keeps the others from changing the lock. -/
theorem sleeping_unique (h : Sound (synch v P) s) {f f' : Caller C κ} {ℓ : L} {u : τ}
    (ht : s.pcs t = .active (.release f ℓ .free))
    (hu : s.pcs u = .active (.acquire f' ℓ .sleep)) : False := by
  have e : t = u := by
    refine h.owner_unique (?_ : (s.pcs t).owns (synch v P) (.slock ℓ) = true) ?_
    · rw [ht]
      change (Point.release f ℓ .free).spins _ = true
      simp [Point.spins, Release.locked]
    · rw [hu]
      change (Point.acquire f' ℓ .sleep).spins _ = true
      simp [Point.spins, Acquire.locked]
  subst e
  rw [ht] at hu
  cases hu

/-- A lock is given up: the head of its wait channel is woken. -/
theorem Served.free (h : Served s) (hs : Sound (synch v P) s) {f : Caller C κ} {ℓ : L}
    (ht : s.pcs t = .active (.release f ℓ .free))
    (hpcs : s'.pcs = Function.update s.pcs t (.active (.release f ℓ .unspin)))
    (hq : s'.queue = Function.update s.queue (.lockWchan ℓ) (s.queue (.lockWchan ℓ)).tail)
    (hx : s'.shared.locks =
      Function.update s.shared.locks ℓ { held := false, holder := none }) : Served s' where
  sleeping u f' ℓ' hu := by
    have hut : u ≠ t := by
      rintro rfl
      rw [hpcs, Function.update_self] at hu
      cases hu
    rw [hpcs, Function.update_of_ne hut] at hu
    have hℓ : ℓ' ≠ ℓ := by
      rintro rfl
      exact sleeping_unique hs ht hu
    rw [hx, Function.update_of_ne hℓ]
    exact h.sleeping u f' ℓ' hu
  served ℓ' hfree hne := by
    by_cases hℓ : ℓ' = ℓ
    · subst hℓ
      rw [hq, Function.update_self] at hne
      cases hqueue : s.queue (.lockWchan ℓ') with
      | nil =>
          rw [hqueue] at hne
          exact absurd rfl hne
      | cons w rest =>
          obtain ⟨x, p, hp⟩ := hs.asleep (.lockWchan ℓ') w (by simp [hqueue])
          have hwt : w ≠ t := by
            rintro rfl
            rw [ht] at hp
            cases hp
          have hnodup := hs.nodup (.lockWchan ℓ')
          rw [hqueue, List.nodup_cons] at hnodup
          refine ⟨w, .inl ⟨?_, x, p, ?_⟩⟩
          · rw [hq, Function.update_self, hqueue]
            exact hnodup.1
          · rw [hpcs, Function.update_of_ne hwt, hp]
    · have hchan : (Chan.lockWchan ℓ' : Chan L C) ≠ .lockWchan ℓ := by simpa using hℓ
      rw [hx, Function.update_of_ne hℓ] at hfree
      rw [hq, Function.update_of_ne hchan] at hne
      obtain ⟨u, hu⟩ := h.served ℓ' hfree hne
      have hut : u ≠ t := by
        rintro rfl
        obtain ⟨f', a, e, -⟩ := heading_active ht hu
        cases e
      refine ⟨u, hu.other hut hpcs ?_⟩
      rw [hq, Function.update_of_ne hchan]

/-- A thread goes to sleep on the wait channel of a lock that is held. -/
theorem Served.sleep (h : Served s) {f : Caller C κ} {ℓ : L} {x : Spin L C}
    (ht : s.pcs t = .active (.acquire f ℓ .sleep))
    (hpcs : s'.pcs = Function.update s.pcs t (.waiting (.lockWchan ℓ) x (.acquire f ℓ .test)))
    (hq : s'.queue = Function.update s.queue (.lockWchan ℓ) (s.queue (.lockWchan ℓ) ++ [t]))
    (hx : s'.shared.locks = s.shared.locks) : Served s' where
  sleeping u f' ℓ' hu := by
    have hut : u ≠ t := by
      rintro rfl
      rw [hpcs, Function.update_self] at hu
      cases hu
    rw [hpcs, Function.update_of_ne hut] at hu
    rw [hx]
    exact h.sleeping u f' ℓ' hu
  served ℓ' hfree hne := by
    rw [hx] at hfree
    have hℓ : ℓ' ≠ ℓ := by
      rintro rfl
      exact absurd hfree (by simp [h.sleeping t f ℓ' ht])
    have hchan : (Chan.lockWchan ℓ' : Chan L C) ≠ .lockWchan ℓ := by simpa using hℓ
    rw [hq, Function.update_of_ne hchan] at hne
    obtain ⟨u, hu⟩ := h.served ℓ' hfree hne
    have hut : u ≠ t := by
      rintro rfl
      obtain ⟨f', a, e, ha⟩ := heading_active ht hu
      cases e
      rcases ha with ha | ha <;> cases ha
    refine ⟨u, hu.other hut hpcs ?_⟩
    rw [hq, Function.update_of_ne hchan]

/-- Step lemma. -/
theorem Served.step (h : Served s) (hs : Step (synch v P) s t s') (hsound : Sound (synch v P) s) :
    Served s' := by
  -- a thread that runs is heading for the lock that it is about to test, or for none
  have hnone : ∀ {p : Point L C κ} {ℓ : L}, s.pcs t = .active p →
      (∀ f a, p = .acquire f ℓ a → a ≠ .spin ∧ a ≠ .test) → ¬ Heading s ℓ t := by
    intro p ℓ ht hp hhead
    obtain ⟨f, a, e, ha⟩ := heading_active ht hhead
    rcases ha with ha | ha
    · exact (hp f a e).1 ha
    · exact (hp f a e).2 ha
  cases hs with
  | @run p p' x hk hr =>
      have hr : Runs v P t p s.shared p' x := hr
      cases hr with
      | @acquireFree f ℓ x hfree =>
          refine h.keep rfl (fun _ => rfl) (fun ℓ' hℓ' => ?_) (fun _ _ e => nomatch e)
            fun ℓ' hℓ' hhead => ?_
          · by_cases hℓ : ℓ' = ℓ
            · subst hℓ
              exact hfree
            · simpa [hℓ] using hℓ'
          · obtain ⟨f', a, e, -⟩ := heading_active hk hhead
            cases e
            simp at hℓ'
      | @acquireHeld f ℓ x hheld =>
          refine h.keep rfl (fun _ => rfl) (fun _ => id) (fun f' ℓ' e => ?_)
            fun ℓ' hℓ' hhead => ?_
          · cases e
            exact hheld
          · obtain ⟨f', a, e, -⟩ := heading_active hk hhead
            cases e
            exact absurd (hheld.symm.trans hℓ') (by simp)
      | @acquireEnter f ℓ =>
          refine h.keep rfl (fun _ => rfl) (fun _ => id) (fun _ _ e => nomatch e)
            fun ℓ' _ hhead => absurd hhead (hnone hk fun f a e => ?_)
          cases e
          simp
      | @call k k' r hcall =>
          refine h.keep rfl (fun _ => rfl) (fun _ => id) (fun f ℓ e => ?_)
            fun ℓ _ hhead => absurd hhead (hnone hk fun f a e => nomatch e)
          cases r <;> cases e
      | _ =>
          exact h.keep rfl (fun _ => rfl) (fun _ => id) (fun _ _ e => nomatch e)
            fun ℓ _ hhead => absurd hhead (hnone hk fun f a e => nomatch e)
  | @acquire p p' x hk hc hfree =>
      have hc : Calls p (.acquire x) p' := hc
      cases hc with
      | acquireSpin f ℓ =>
          refine h.keep rfl (fun _ => rfl) (fun _ => id) (fun _ _ e => nomatch e)
            fun ℓ' _ hhead => ?_
          obtain ⟨f', a, e, -⟩ := heading_active hk hhead
          cases e
          exact .inr ⟨f, .test, Function.update_self .., .inr rfl⟩
      | _ =>
          exact h.keep rfl (fun _ => rfl) (fun _ => id) (fun _ _ e => nomatch e)
            fun ℓ _ hhead => absurd hhead (hnone hk fun f a e => nomatch e)
  | @release p p' x hk hc =>
      have hc : Calls p (.release x) p' := hc
      cases hc with
      | acquireUnspin f ℓ =>
          refine h.keep rfl (fun _ => rfl) (fun _ => id) (fun f' ℓ' e => ?_)
            fun ℓ' _ hhead => absurd hhead (hnone hk fun f a e => ?_)
          · cases f <;> cases e
          · cases e
            simp
      | releaseUnspin f ℓ =>
          refine h.keep rfl (fun _ => rfl) (fun _ => id) (fun f' ℓ' e => ?_)
            fun ℓ' _ hhead => absurd hhead (hnone hk fun f a e => nomatch e)
          cases f <;> cases e
      | _ =>
          exact h.keep rfl (fun _ => rfl) (fun _ => id) (fun _ _ e => nomatch e)
            fun ℓ _ hhead => absurd hhead (hnone hk fun f a e => nomatch e)
  | @wait p p' c x hk hc =>
      have hc : Calls p (.wait c x) p' := hc
      cases hc with
      | acquireSleep f ℓ => exact h.sleep hk rfl rfl rfl
      | waitSleep k k' c ℓ =>
          exact h.keep rfl (lockWchan_update s.queue c (s.queue (.cvWchan c) ++ [t])) (fun _ => id)
            (fun _ _ e => nomatch e) fun ℓ _ hhead => absurd hhead (hnone hk fun f a e => nomatch e)
  | @resume p c x hk hq hfree =>
      obtain ⟨p₀, hc⟩ := hsound.called t c x p hk
      have hc : Calls p₀ (.wait c x) p := hc
      cases hc with
      | acquireSleep f ℓ =>
          refine h.keep rfl (fun _ => rfl) (fun _ => id) (fun _ _ e => nomatch e)
            fun ℓ' _ hhead => ?_
          rcases hhead with ⟨-, y, q, hq'⟩ | ⟨f', a, hp, -⟩
          · rw [hk] at hq'
            cases hq'
            exact .inr ⟨f, .test, Function.update_self .., .inr rfl⟩
          · rw [hk] at hp
            cases hp
      | waitSleep k k' c ℓ =>
          refine h.keep rfl (fun _ => rfl) (fun _ => id) (fun _ _ e => nomatch e)
            fun ℓ' _ hhead => ?_
          rcases hhead with ⟨-, y, q, hq'⟩ | ⟨f', a, hp, -⟩
          · rw [hk] at hq'
            cases hq'
          · rw [hk] at hp
            cases hp
  | @signal p p' c x hk hc =>
      have hc : Calls p (.signal c x) p' := hc
      cases hc with
      | releaseFree f ℓ => exact h.free hsound hk rfl rfl rfl
      | wakeOne k k' c ℓ =>
          exact h.keep rfl (lockWchan_update s.queue c (s.queue (.cvWchan c)).tail) (fun _ => id)
            (fun _ _ e => nomatch e) fun ℓ _ hhead => absurd hhead (hnone hk fun f a e => nomatch e)
  | @broadcast p p' c x hk hc =>
      have hc : Calls p (.broadcast c x) p' := hc
      cases hc with
      | wakeAll k k' c ℓ =>
          exact h.keep rfl (lockWchan_update s.queue c []) (fun _ => id)
            (fun _ _ e => nomatch e) fun ℓ _ hhead => absurd hhead (hnone hk fun f a e => nomatch e)

theorem served_boot (y : σ) : Served (boot v P y) where
  sleeping _ _ _ e := nomatch e
  served _ _ hne := absurd rfl hne

/-- Run lemma. -/
theorem served_of_reach {ok : Machine τ L C σ κ → τ → Prop} {y : σ}
    (h : Reach (Step (synch v P)) ok (boot v P y) s) : Served s := by
  have hboth : Sound (synch v P) s ∧ Served s := by
    refine h.invariant (I := fun s => Sound (synch v P) s ∧ Served s) ?_ ?_
    · rintro s₁ u s₂ ⟨hI, hserved⟩ _ hs
      exact ⟨hs.sound hI, hserved.step hs hI⟩
    · exact ⟨sound_init _, served_boot y⟩
  exact hboth.2

/-- `thread_holder` is the thread that holds the lock. -/
theorem holder_iff {ok : Machine τ L C σ κ → τ → Prop} {y : σ}
    (h : Reach (Step (synch v P)) ok (boot v P y) s) (ℓ : L) (t : τ) :
    (s.shared.locks ℓ).holder = some t ↔ Holds P s ℓ t := by
  have habs := (reach_monitor h).2
  exact (sound_of_reach habs).owner ℓ t

/-- Sleep locks exclude each other's holders and strand nobody. The threads run any client `P` that
releases only locks it holds and does not acquire a lock that it holds. -/
theorem sleepLock_exclusive (v : Version) (P : Client τ L C σ κ) (y : σ)
    (h : Reach (Step (synch v P)) anyStep (boot v P y) s) (ℓ : L) :
    (∀ t u, Holds P s ℓ t → Holds P s ℓ u → t = u) ∧
    (∀ t, (s.shared.locks ℓ).holder = some t ↔ Holds P s ℓ t) ∧
    ((s.shared.locks ℓ).held = true ↔
      ∃ t, (s.shared.locks ℓ).holder = some t ∧ Holds P s ℓ t) ∧
    ((s.shared.locks ℓ).held = false → ∀ u ∈ s.queue (.lockWchan ℓ),
      ∃ t, Heading s ℓ t ∧ t ∉ s.queue (.lockWchan ℓ)) := by
  have hsound := sound_of_reach h
  have hlinked := (reach_monitor h).1
  refine ⟨fun t u ht hu => ?_, holder_iff h ℓ, ?_, fun hfree u hu => ?_⟩
  · rw [← holder_iff h] at ht hu
    exact Option.some.inj (ht.symm.trans hu)
  · rw [hlinked.held, Option.isSome_iff_exists]
    constructor
    · rintro ⟨t, ht⟩
      exact ⟨t, ht, (holder_iff h ℓ t).1 ht⟩
    · rintro ⟨t, ht, -⟩
      exact ⟨t, ht⟩
  · obtain ⟨t, ht⟩ := (served_of_reach h).served ℓ hfree (List.ne_nil_of_mem hu)
    refine ⟨t, ht, ?_⟩
    rcases ht with ⟨hnq, -⟩ | ⟨f, a, hp, -⟩
    · exact hnq
    · exact hsound.not_mem_queue hp _

/-- Threads `1`, `2` and `3` want the lock, `1` gets it and releases it: `2` has been woken and `3`
sleeps on the channel of the free lock. -/
theorem sleepLock_exclusive_two_sleepers :
    ∃ s : Machine Nat Unit Unit Unit (Unit → Bool), (s.shared.locks ()).held = false ∧
      s.queue (.lockWchan ()) = [3] ∧ ∃ t, Heading s () t ∧ t ∉ s.queue (.lockWchan ()) := by
  have start : Reach (Step (synch .dvz (anyCalls Nat Unit Unit))) anyStep
      (boot .dvz (anyCalls Nat Unit Unit) ()) _ := .refl
  have acquired := start.tail (a := 1) trivial
      (.run rfl (.call (r := .acquire ()) ⟨rfl, rfl⟩))
    |>.tail (a := 1) trivial (.run rfl (.acquireEnter rfl))
    |>.tail (a := 1) trivial (.acquire rfl (.acquireSpin _ _) rfl)
    |>.tail (a := 1) trivial (.run rfl (.acquireFree rfl))
    |>.tail (a := 1) trivial (.release rfl (.acquireUnspin _ _))
  have asleep := acquired.tail (a := 2) trivial
      (.run rfl (.call (r := .acquire ()) ⟨rfl, rfl⟩))
    |>.tail (a := 2) trivial (.run rfl (.acquireEnter rfl))
    |>.tail (a := 2) trivial (.acquire rfl (.acquireSpin _ _) rfl)
    |>.tail (a := 2) trivial (.run rfl (.acquireHeld rfl))
    |>.tail (a := 2) trivial (.wait rfl (.acquireSleep _ _))
    |>.tail (a := 3) trivial (.run rfl (.call (r := .acquire ()) ⟨rfl, rfl⟩))
    |>.tail (a := 3) trivial (.run rfl (.acquireEnter rfl))
    |>.tail (a := 3) trivial (.acquire rfl (.acquireSpin _ _) rfl)
    |>.tail (a := 3) trivial (.run rfl (.acquireHeld rfl))
    |>.tail (a := 3) trivial (.wait rfl (.acquireSleep _ _))
  have released := asleep.tail (a := 1) trivial
      (.run rfl (.call (r := .release ()) ⟨rfl, rfl⟩))
    |>.tail (a := 1) trivial (.run rfl (.releaseEnter rfl rfl))
    |>.tail (a := 1) trivial (.acquire rfl (.releaseSpin _ _) rfl)
    |>.tail (a := 1) trivial (.signal rfl (.releaseFree _ _))
  exact ⟨_, rfl, rfl,
    (sleepLock_exclusive .dvz _ () released ()).2.2.2 rfl 3 (List.mem_singleton.2 rfl)⟩

/-! ## Assertions -/

/-- The assertions at a point hold. -/
def Asserts (v : Version) (x : Shared τ L σ) (t : τ) : Point L C κ → Prop
  | .acquire _ ℓ .enter => acquireAsserts v (x.locks ℓ) t = true
  | .release _ ℓ .enter => (x.locks ℓ).held = true ∧ lockDoIHold v (x.locks ℓ) t = true
  | .wait _ _ _ ℓ .enter => lockDoIHold v (x.locks ℓ) t = true
  | .wait _ _ _ ℓ .leave => leaveAsserts v (x.locks ℓ) t = true
  | .wake _ _ _ ℓ _ .enter => lockDoIHold v (x.locks ℓ) t = true
  | _ => True

end Os161.Synch

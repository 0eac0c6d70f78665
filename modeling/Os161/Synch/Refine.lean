import Os161.Synch.Lock

set_option autoImplicit false

/-!
# Sleep locks and condition variables refine monitors

Seen from the client, every call on a sleep lock or a condition variable takes effect in one step:
`lock_acquire` when it stores the holder, `lock_release` when it clears it, `cv_wait` when the
`lock_release` in it does, `cv_signal` and `cv_broadcast` at the wakeup. `abs` shows the state of
the spinlocks and wait channels in this way, as a state of the monitor that runs the client
itself; a thread in `cv_wait` is on the queue from the moment it gives up the lock. Every step of
the kernel is a step of that monitor or is not seen there (`step_abs`).
-/

namespace Os161.Synch

open Os161.Lib.Runs
open Os161.Lib.Monitor

/-- States of the spinlocks and wait channels. -/
abbrev Machine (τ L C σ κ : Type) : Type :=
  State τ (Spin L C) (Chan L C) (Shared τ L σ) (Point L C κ)

/-- The program point of a thread, also of one that sleeps. -/
def pointOf {L C κ : Type} : Pc (Spin L C) (Chan L C) (Point L C κ) → Point L C κ
  | .active p => p
  | .waiting _ _ p => p

/-! ## Abstraction -/

section Abstraction

variable {τ L C σ κ : Type} [DecidableEq C]

/-- Where the client is, when every call takes effect in one step. -/
def Point.phase : Point L C κ → Pc L C κ
  | .client k => .active k
  | .acquire (.client k k') _ a => if a = .unspin then .active k' else .active k
  | .acquire (.cvWait _ k' c) ℓ a => if a = .unspin then .active k' else .waiting c ℓ k'
  | .release (.client k k') _ b => if b = .unspin then .active k' else .active k
  | .release (.cvWait k k' c) ℓ b => if b = .unspin then .waiting c ℓ k' else .active k
  | .wait k _ _ _ .enter => .active k
  | .wait k _ _ _ .spin => .active k
  | .wait _ k' c ℓ .sleep => .waiting c ℓ k'
  | .wait _ k' c ℓ .unspin => .waiting c ℓ k'
  | .wait _ k' _ _ .leave => .active k'
  | .wake k k' _ _ _ w => if w = .unspin then .active k' else .active k

/-- In `cv_wait` on `c`, between the release of the lock and the wait channel. -/
def Point.leaves (c : C) : Point L C κ → Bool
  | .release (.cvWait _ _ c') _ .unspin => c' == c
  | .wait _ _ c' _ .sleep => c' == c
  | _ => false

/-- The thread, if there is one, that is in `cv_wait` on `c` between the release of the lock and
the wait channel; it has `cv_lock`. -/
def leaving (s : Machine τ L C σ κ) (c : C) : List τ :=
  (s.holder (.cvLock c)).toList.filter fun t => (pointOf (s.pcs t)).leaves c

/-- The state as the client sees it. -/
def abs (s : Machine τ L C σ κ) : State τ L C σ κ :=
  { holder := fun ℓ => (s.shared.locks ℓ).holder
    queue := fun c => s.queue (.cvWchan c) ++ leaving s c
    pcs := fun t => (pointOf (s.pcs t)).phase
    shared := s.shared.data }

variable [DecidableEq τ] [DecidableEq L]

/-- The call that a caller of `lock_acquire` has made. -/
def Caller.Acquires (P : Client τ L C σ κ) (ℓ : L) : Caller C κ → Prop
  | .client k k' => P.calls k (.acquire ℓ) k'
  | .cvWait k k' c => P.calls k (.wait c ℓ) k'

/-- The call that a caller of `lock_release` has made. -/
def Caller.Releases (P : Client τ L C σ κ) (ℓ : L) : Caller C κ → Prop
  | .client k k' => P.calls k (.release ℓ) k'
  | .cvWait k k' c => P.calls k (.wait c ℓ) k'

/-- A thread in a call has made this call. -/
def Point.Called (P : Client τ L C σ κ) : Point L C κ → Prop
  | .client _ => True
  | .acquire f ℓ _ => f.Acquires P ℓ
  | .release f ℓ _ => f.Releases P ℓ
  | .wait k k' c ℓ _ => P.calls k (.wait c ℓ) k'
  | .wake k k' c ℓ all _ => P.calls k (wakeup c ℓ all) k'

/-- `lock_held` says whether there is a holder, and threads in calls have made them. -/
structure Linked (P : Client τ L C σ κ) (s : Machine τ L C σ κ) : Prop where
  held : ∀ ℓ, (s.shared.locks ℓ).held = (s.shared.locks ℓ).holder.isSome
  called : ∀ t, (pointOf (s.pcs t)).Called P

omit [DecidableEq τ] in
/-- A lock that is not held has no holder. -/
theorem Linked.holder_of_free {P : Client τ L C σ κ} {s : Machine τ L C σ κ} (h : Linked P s)
    {ℓ : L} (hfree : (s.shared.locks ℓ).held = false) : (abs s).holder ℓ = none := by
  have := h.held ℓ
  rw [hfree, eq_comm, Option.isSome_eq_false_iff, Option.isNone_iff_eq_none] at this
  exact this

end Abstraction

section Points

variable {τ L C σ κ : Type} [DecidableEq τ] [DecidableEq L] [DecidableEq C]
  {v : Version} {P : Client τ L C σ κ} {t : τ} {p p' : Point L C κ} {x x' : Shared τ L σ}
  {r : Req (Spin L C) (Chan L C)}

omit [DecidableEq C] in
theorem called_of_runs (h : Runs v P t p x p' x') (hp : p.Called P) : p'.Called P := by
  cases h with
  | client => trivial
  | @call k k' r x hc => cases r <;> exact hc
  | acquireEnter => exact hp
  | acquireHeld => exact hp
  | acquireFree => exact hp
  | releaseEnter => exact hp
  | waitEnter => exact hp
  | waitLeave => trivial
  | wakeEnter => exact hp

omit [DecidableEq τ] [DecidableEq C] in
theorem called_of_calls {P : Client τ L C σ κ} (h : Calls p r p') (hp : p.Called P) :
    p'.Called P := by
  cases h with
  | acquireUnspin f ℓ =>
      cases f with
      | client k k' => trivial
      | cvWait k k' c => exact hp
  | releaseUnspin f ℓ =>
      cases f with
      | client k k' => trivial
      | cvWait k k' c => exact hp
  | wakeUnspin => trivial
  | acquireSpin => exact hp
  | acquireSleep => exact hp
  | releaseSpin => exact hp
  | releaseFree => exact hp
  | waitSpin => exact hp
  | waitSleep => exact hp
  | waitUnspin => exact hp
  | wakeSpin => exact hp
  | wakeOne => exact hp
  | wakeAll => exact hp

omit [DecidableEq L] [DecidableEq C] in
/-- A use of a spinlock or wait channel that stores nothing is not seen by the client. -/
theorem phase_of_calls (h : Calls p r p') (hfree : ∀ f ℓ, p ≠ .release f ℓ .free)
    (hwake : ∀ k k' c ℓ all, p ≠ .wake k k' c ℓ all .wake) : p'.phase = p.phase := by
  cases h with
  | acquireUnspin f ℓ => cases f <;> rfl
  | acquireSpin f ℓ => cases f <;> rfl
  | acquireSleep f ℓ => cases f <;> rfl
  | releaseUnspin f ℓ => cases f <;> rfl
  | releaseSpin f ℓ => cases f <;> rfl
  | releaseFree f ℓ => exact absurd rfl (hfree f ℓ)
  | wakeOne k k' c ℓ => exact absurd rfl (hwake k k' c ℓ false)
  | wakeAll k k' c ℓ => exact absurd rfl (hwake k k' c ℓ true)
  | waitSpin => rfl
  | waitSleep => rfl
  | waitUnspin => rfl
  | wakeSpin => rfl
  | wakeUnspin => rfl

omit [DecidableEq τ] [DecidableEq L] in
theorem leaves_cases {c : C} (h : p.leaves c = true) :
    (∃ k k' ℓ, p = .release (.cvWait k k' c) ℓ .unspin) ∨ ∃ k k' ℓ, p = .wait k k' c ℓ .sleep := by
  unfold Point.leaves at h
  split at h
  · rename_i k k' c' ℓ
    obtain rfl := beq_iff_eq.1 h
    exact .inl ⟨k, k', ℓ, rfl⟩
  · rename_i k k' c' ℓ
    obtain rfl := beq_iff_eq.1 h
    exact .inr ⟨k, k', ℓ, rfl⟩
  · cases h

/-- A thread on its way to the wait channel has the spinlock of the condition variable. -/
theorem spins_of_leaves {c : C} (h : p.leaves c = true) : p.spins (.cvLock c) = true := by
  rcases leaves_cases h with ⟨k, k', ℓ, rfl⟩ | ⟨k, k', ℓ, rfl⟩
  · simp [Point.spins, Caller.spins]
  · simp [Point.spins, Wait.locked]

omit [DecidableEq L] in
/-- Using a spinlock or wait channel, a thread starts or ends to be on its way to the channel of
`c` only when it gives up its lock in `cv_wait` or joins the channel. -/
theorem leaves_of_calls {c : C} (h : Calls p r p')
    (hfree : ∀ k k' ℓ, p ≠ .release (.cvWait k k' c) ℓ .free)
    (hsleep : ∀ k k' ℓ, p ≠ .wait k k' c ℓ .sleep) : p'.leaves c = p.leaves c := by
  cases h with
  | acquireUnspin f ℓ => cases f <;> rfl
  | acquireSpin f ℓ => cases f <;> rfl
  | acquireSleep f ℓ => cases f <;> rfl
  | releaseUnspin f ℓ => cases f <;> rfl
  | releaseSpin f ℓ => cases f <;> rfl
  | releaseFree f ℓ =>
      cases f with
      | client k k' => rfl
      | cvWait k k' c' =>
          have hne : c' ≠ c := by
            rintro rfl
            exact hfree k k' ℓ rfl
          simpa [Point.leaves] using hne
  | waitSleep k k' c' ℓ =>
      have hne : c' ≠ c := by
        rintro rfl
        exact hsleep k k' ℓ rfl
      simpa [Point.leaves] using hne
  | wakeOne => rfl
  | wakeAll => rfl
  | waitSpin => rfl
  | waitUnspin => rfl
  | wakeSpin => rfl
  | wakeUnspin => rfl

end Points

/-! ## Simulation -/

section Simulation

variable {τ L C σ κ : Type} [DecidableEq τ] [DecidableEq L] [DecidableEq C]
  {v : Version} {P : Client τ L C σ κ} {s s' : Machine τ L C σ κ} {t : τ}

theorem leaves_spins (h : Sound (synch v P) s) {c : C} {u : τ}
    (hu : (pointOf (s.pcs u)).leaves c = true) : s.holder (.cvLock c) = some u := by
  rw [h.owner]
  cases hpc : s.pcs u with
  | active p =>
      rw [hpc] at hu
      exact spins_of_leaves hu
  | waiting c' x p =>
      -- a thread that sleeps is not on its way any more
      obtain ⟨p₀, hcall⟩ := h.called u c' x p hpc
      rw [hpc] at hu
      have hcall : Calls p₀ (.wait c' x) p := hcall
      cases hcall <;> cases hu

theorem mem_leaving (h : Sound (synch v P) s) {c : C} {u : τ} :
    u ∈ leaving s c ↔ (pointOf (s.pcs u)).leaves c = true := by
  unfold leaving
  rw [List.mem_filter, Option.mem_toList]
  constructor
  · rintro ⟨-, hu⟩
    exact hu
  · intro hu
    exact ⟨leaves_spins h hu, hu⟩

/-- At most one thread is on its way. -/
theorem leaving_eq_singleton (h : Sound (synch v P) s) {c : C} {u : τ}
    (hu : (pointOf (s.pcs u)).leaves c = true) : leaving s c = [u] := by
  unfold leaving
  rw [leaves_spins h hu]
  simp [hu]

theorem leaving_eq_nil (h : Sound (synch v P) s) {c : C}
    (hnone : ∀ u, (pointOf (s.pcs u)).leaves c = false) : leaving s c = [] := by
  rw [List.eq_nil_iff_forall_not_mem]
  intro u hu
  rw [mem_leaving h, hnone u] at hu
  cases hu

/-- Nobody is on its way when a thread that is not has the spinlock. -/
theorem leaving_eq_nil_of_spins (h : Sound (synch v P) s) {c : C} {p : Point L C κ}
    (ht : s.pcs t = .active p) (hspin : p.spins (.cvLock c) = true) (hp : p.leaves c = false) :
    leaving s c = [] := by
  apply leaving_eq_nil h
  intro u
  rw [← Bool.not_eq_true]
  intro hu
  have hheld : s.holder (.cvLock c) = some t := by
    rw [h.owner, ht]
    exact hspin
  have e := (leaves_spins h hu).symm.trans hheld
  cases e
  rw [ht] at hu
  exact absurd (hp.symm.trans hu) (by simp)

theorem leaving_congr (h : Sound (synch v P) s) (h' : Sound (synch v P) s') {c : C}
    (hsame : ∀ u, (pointOf (s'.pcs u)).leaves c = (pointOf (s.pcs u)).leaves c) :
    leaving s' c = leaving s c := by
  by_cases hex : ∃ u, (pointOf (s.pcs u)).leaves c = true
  · obtain ⟨u, hu⟩ := hex
    rw [leaving_eq_singleton h hu, leaving_eq_singleton h' ((hsame u).trans hu)]
  · have hnone : ∀ u, (pointOf (s.pcs u)).leaves c = false := by
      intro u
      rw [← Bool.not_eq_true]
      exact fun hu => hex ⟨u, hu⟩
    rw [leaving_eq_nil h hnone, leaving_eq_nil h' fun u => (hsame u).trans (hnone u)]

omit [DecidableEq L] [DecidableEq C] in
/-- What holds of the point of `t` before and after its step holds of the points of all threads. -/
theorem point_update {β : Type} (f : Point L C κ → β) {pc : Pc (Spin L C) (Chan L C) (Point L C κ)}
    (hpc : f (pointOf pc) = f (pointOf (s.pcs t))) (u : τ) :
    f (pointOf (Function.update s.pcs t pc u)) = f (pointOf (s.pcs u)) := by
  by_cases hut : u = t
  · subst hut
    rw [Function.update_self, hpc]
  · rw [Function.update_of_ne hut]

omit [DecidableEq L] in
theorem abs_pcs {pc : Pc (Spin L C) (Chan L C) (Point L C κ)}
    (hpcs : s'.pcs = Function.update s.pcs t pc) :
    (abs s').pcs = Function.update (abs s).pcs t (pointOf pc).phase := by
  funext u
  change (pointOf (s'.pcs u)).phase = _
  rw [hpcs]
  by_cases hut : u = t
  · subst hut
    simp only [Function.update_self]
  · simp only [Function.update_of_ne hut]
    rfl

/-- Queues after a step of `t` that does not begin or end its way to a wait channel. -/
theorem abs_queue (h : Sound (synch v P) s) (h' : Sound (synch v P) s')
    {pc : Pc (Spin L C) (Chan L C) (Point L C κ)} (hpcs : s'.pcs = Function.update s.pcs t pc)
    {c : C} (hleaves : (pointOf pc).leaves c = (pointOf (s.pcs t)).leaves c)
    (hq : s'.queue (.cvWchan c) = s.queue (.cvWchan c)) : (abs s').queue c = (abs s).queue c := by
  have hsame : leaving s' c = leaving s c := by
    apply leaving_congr h h'
    intro u
    rw [hpcs]
    exact point_update (fun p => p.leaves c) hleaves u
  change s'.queue (.cvWchan c) ++ leaving s' c = s.queue (.cvWchan c) ++ leaving s c
  rw [hq, hsame]

/-- A step that is not seen. -/
theorem abs_eq (h : Sound (synch v P) s) (h' : Sound (synch v P) s')
    {pc : Pc (Spin L C) (Chan L C) (Point L C κ)} (hpcs : s'.pcs = Function.update s.pcs t pc)
    (hphase : (pointOf pc).phase = (pointOf (s.pcs t)).phase)
    (hleaves : ∀ c, (pointOf pc).leaves c = (pointOf (s.pcs t)).leaves c)
    (hq : ∀ c, s'.queue (.cvWchan c) = s.queue (.cvWchan c)) (hx : s'.shared = s.shared) :
    abs s' = abs s := by
  apply State.ext
  · change (fun ℓ => (s'.shared.locks ℓ).holder) = _
    rw [hx]
    rfl
  · funext c
    exact abs_queue h h' hpcs (hleaves c) (hq c)
  · rw [abs_pcs hpcs, hphase]
    exact Function.update_eq_self t (abs s).pcs
  · change s'.shared.data = _
    rw [hx]
    rfl

omit [DecidableEq τ] [DecidableEq L] in
theorem abs_pcs_self {p : Point L C κ} (ht : s.pcs t = .active p) : (abs s).pcs t = p.phase := by
  change (pointOf (s.pcs t)).phase = p.phase
  rw [ht]
  rfl

/-- A thread that runs in the kernel, and is not on its way to the channel, is not on the queue. -/
theorem not_mem_abs_queue (h : Sound (synch v P) s) {p : Point L C κ} (ht : s.pcs t = .active p)
    {c : C} (hp : p.leaves c = false) : t ∉ (abs s).queue c := by
  intro hmem
  rcases List.mem_append.1 hmem with hmem | hmem
  · exact h.not_mem_queue ht _ hmem
  · rw [mem_leaving h, ht] at hmem
    exact absurd (hp.symm.trans hmem) (by simp)

/-- The lock is taken in `lock_acquire`. -/
theorem step_abs_take (h : Sound (synch v P) s) (hl : Linked P s) (h' : Sound (synch v P) s')
    {f : Caller C κ} {ℓ : L} (ht : s.pcs t = .active (.acquire f ℓ .test))
    (hfree : (s.shared.locks ℓ).held = false)
    (hpcs : s'.pcs = Function.update s.pcs t (.active (.acquire f ℓ .unspin)))
    (hq : s'.queue = s.queue)
    (hx : s'.shared =
      { locks := Function.update s.shared.locks ℓ { held := true, holder := some t }
        data := f.acquires P t ℓ s.shared.data }) :
    Step P (abs s) t (abs s') := by
  have hnone : (abs s).holder ℓ = none := hl.holder_of_free hfree
  have hcalled := hl.called t
  rw [ht] at hcalled
  have hqueue : (abs s').queue = (abs s).queue := by
    funext c
    apply abs_queue h h' hpcs
    · rw [ht]
      rfl
    · rw [hq]
  have hholder : (abs s').holder = Function.update (abs s).holder ℓ (some t) := by
    funext ℓ'
    change (s'.shared.locks ℓ').holder = _
    rw [hx]
    by_cases hℓ : ℓ' = ℓ
    · subst hℓ
      simp
    · simp only [Function.update_of_ne hℓ]
      rfl
  have hdata : (abs s').shared = f.acquires P t ℓ (abs s).shared := by
    change s'.shared.data = _
    rw [hx]
    rfl
  cases f with
  | client k k' =>
      have e : abs s' = { abs s with holder := Function.update (abs s).holder ℓ (some t)
                                     pcs := Function.update (abs s).pcs t (.active k')
                                     shared := P.effect t k (.acquire ℓ) (abs s).shared } :=
        State.ext hholder hqueue (abs_pcs hpcs) hdata
      rw [e]
      exact Step.acquire (abs_pcs_self ht) hcalled hnone
  | cvWait k k' c =>
      have e : abs s' = { abs s with holder := Function.update (abs s).holder ℓ (some t)
                                     pcs := Function.update (abs s).pcs t (.active k') } :=
        State.ext hholder hqueue (abs_pcs hpcs) hdata
      rw [e]
      exact Step.resume (abs_pcs_self ht) (not_mem_abs_queue h ht rfl) hnone

/-- Steps that use neither a spinlock nor a wait channel. -/
theorem step_abs_runs (h : Sound (synch v P) s) (hl : Linked P s) (h' : Sound (synch v P) s')
    {p p' : Point L C κ} (ht : s.pcs t = .active p) (hr : Runs v P t p s.shared p' s'.shared)
    (hpcs : s'.pcs = Function.update s.pcs t (.active p')) (hq : s'.queue = s.queue) :
    abs s' = abs s ∨ Step P (abs s) t (abs s') := by
  have hpoint : pointOf (s.pcs t) = p := by rw [ht]; rfl
  have stutter : s'.shared = s.shared → p'.phase = p.phase → (∀ c, p'.leaves c = p.leaves c) →
      abs s' = abs s := by
    intro hx hphase hleaves
    apply abs_eq h h' hpcs _ _ (fun c => by rw [hq]) hx
    · rw [hpoint]
      exact hphase
    · rw [hpoint]
      exact hleaves
  generalize hx : s'.shared = x at hr
  cases hr with
  | @client k k' x y hrun =>
      right
      have e : abs s' = { abs s with pcs := Function.update (abs s).pcs t (.active k')
                                     shared := y } := by
        apply State.ext
        · funext ℓ
          change (s'.shared.locks ℓ).holder = _
          rw [hx]
          rfl
        · funext c
          apply abs_queue h h' hpcs
          · rw [hpoint]
            rfl
          · rw [hq]
        · exact abs_pcs hpcs
        · change s'.shared.data = _
          rw [hx]
      rw [e]
      exact Step.run (abs_pcs_self ht) hrun
  | @call k k' r x hcall =>
      refine .inl (stutter hx ?_ fun c => ?_)
      · cases r <;> rfl
      · cases r <;> rfl
  | @acquireEnter f ℓ x => exact .inl (stutter hx (by cases f <;> rfl) fun _ => rfl)
  | @acquireHeld f ℓ x => exact .inl (stutter hx (by cases f <;> rfl) fun _ => rfl)
  | @acquireFree f ℓ x hfree => exact .inr (step_abs_take h hl h' ht hfree hpcs hq hx)
  | @releaseEnter f ℓ x =>
      refine .inl (stutter hx ?_ fun c => ?_)
      · cases f <;> rfl
      · cases f <;> rfl
  | @waitEnter => exact .inl (stutter hx rfl fun _ => rfl)
  | @waitLeave => exact .inl (stutter hx rfl fun _ => rfl)
  | @wakeEnter => exact .inl (stutter hx rfl fun _ => rfl)

/-- The lock is given up in `lock_release`. -/
theorem step_abs_free (h : Sound (synch v P) s) (hl : Linked P s) (h' : Sound (synch v P) s')
    {f : Caller C κ} {ℓ : L} (ht : s.pcs t = .active (.release f ℓ .free))
    (hpcs : s'.pcs = Function.update s.pcs t (.active (.release f ℓ .unspin)))
    (hq : ∀ c, s'.queue (.cvWchan c) = s.queue (.cvWchan c))
    (hx : s'.shared =
      { locks := Function.update s.shared.locks ℓ { held := false, holder := none }
        data := f.releases P t ℓ s.shared.data }) :
    Step P (abs s) t (abs s') := by
  have hcalled := hl.called t
  rw [ht] at hcalled
  have hholder : (abs s').holder = Function.update (abs s).holder ℓ none := by
    funext ℓ'
    change (s'.shared.locks ℓ').holder = _
    rw [hx]
    by_cases hℓ : ℓ' = ℓ
    · subst hℓ
      simp
    · simp only [Function.update_of_ne hℓ]
      rfl
  have hdata : (abs s').shared = f.releases P t ℓ (abs s).shared := by
    change s'.shared.data = _
    rw [hx]
    rfl
  cases f with
  | client k k' =>
      have hqueue : (abs s').queue = (abs s).queue := by
        funext c
        apply abs_queue h h' hpcs _ (hq c)
        rw [ht]
        rfl
      have e : abs s' = { abs s with holder := Function.update (abs s).holder ℓ none
                                     pcs := Function.update (abs s).pcs t (.active k')
                                     shared := P.effect t k (.release ℓ) (abs s).shared } :=
        State.ext hholder hqueue (abs_pcs hpcs) hdata
      rw [e]
      exact Step.release (abs_pcs_self ht) hcalled
  | cvWait k k' c =>
      have hqueue : (abs s').queue =
          Function.update (abs s).queue c ((abs s).queue c ++ [t]) := by
        funext c'
        by_cases hc : c' = c
        · subst hc
          -- `t` is now the one on its way, and has kept others from it
          have hbefore : leaving s c' = [] := by
            apply leaving_eq_nil_of_spins h ht
            · simp [Point.spins, Caller.spins]
            · rfl
          have hafter : leaving s' c' = [t] := by
            apply leaving_eq_singleton h'
            rw [hpcs, Function.update_self]
            simp [pointOf, Point.leaves]
          rw [Function.update_self]
          change s'.queue (.cvWchan c') ++ leaving s' c' =
            s.queue (.cvWchan c') ++ leaving s c' ++ [t]
          rw [hbefore, hafter, hq c', List.append_nil]
        · rw [Function.update_of_ne hc]
          apply abs_queue h h' hpcs _ (hq c')
          rw [ht]
          simpa [pointOf, Point.leaves] using Ne.symm hc
      have e : abs s' = { holder := Function.update (abs s).holder ℓ none
                          queue := Function.update (abs s).queue c ((abs s).queue c ++ [t])
                          pcs := Function.update (abs s).pcs t (.waiting c ℓ k')
                          shared := P.effect t k (.wait c ℓ) (abs s).shared } :=
        State.ext hholder hqueue (abs_pcs hpcs) hdata
      rw [e]
      exact Step.wait (abs_pcs_self ht) hcalled

/-- The queue of the condition variable at a wakeup is the wait channel. -/
theorem abs_queue_of_wake (h : Sound (synch v P) s) {k k' : κ} {c : C} {ℓ : L} {all : Bool}
    (ht : s.pcs t = .active (.wake k k' c ℓ all .wake)) :
    (abs s).queue c = s.queue (.cvWchan c) := by
  have hnone : leaving s c = [] := by
    apply leaving_eq_nil_of_spins h ht
    · simp [Point.spins, Wake.locked]
    · rfl
  change s.queue (.cvWchan c) ++ leaving s c = s.queue (.cvWchan c)
  rw [hnone, List.append_nil]

/-- Queues after a wakeup that leaves `q` on the channel. -/
theorem abs_queue_wake (h : Sound (synch v P) s) (h' : Sound (synch v P) s') {k k' : κ} {c : C}
    {ℓ : L} {all : Bool} (ht : s.pcs t = .active (.wake k k' c ℓ all .wake))
    (hpcs : s'.pcs = Function.update s.pcs t (.active (.wake k k' c ℓ all .unspin))) {q : List τ}
    (hq : s'.queue = Function.update s.queue (.cvWchan c) q) :
    (abs s').queue = Function.update (abs s).queue c q := by
  funext c'
  have hleaves : (pointOf (.active (.wake k k' c ℓ all .unspin))).leaves c' =
      (pointOf (s.pcs t)).leaves c' := by
    rw [ht]
    rfl
  by_cases hc : c' = c
  · subst hc
    have hsame : leaving s' c' = leaving s c' := by
      apply leaving_congr h h'
      intro u
      rw [hpcs]
      exact point_update (fun p => p.leaves c') hleaves u
    have hnone : leaving s c' = [] := by
      apply leaving_eq_nil_of_spins h ht
      · simp [Point.spins, Wake.locked]
      · rfl
    rw [Function.update_self]
    change s'.queue (.cvWchan c') ++ leaving s' c' = q
    rw [hsame, hnone, hq, Function.update_self, List.append_nil]
  · rw [Function.update_of_ne hc]
    apply abs_queue h h' hpcs hleaves
    rw [hq, Function.update_of_ne (by simpa using hc)]

/-- The wakeup in `cv_signal` and `cv_broadcast`. -/
theorem step_abs_wake (h : Sound (synch v P) s) (hl : Linked P s) (h' : Sound (synch v P) s')
    {k k' : κ} {c : C} {ℓ : L} {all : Bool} (ht : s.pcs t = .active (.wake k k' c ℓ all .wake))
    (hpcs : s'.pcs = Function.update s.pcs t (.active (.wake k k' c ℓ all .unspin)))
    (hq : s'.queue = Function.update s.queue (.cvWchan c)
      (if all then [] else (s.queue (.cvWchan c)).tail))
    (hx : s'.shared = { s.shared with data := P.effect t k (wakeup c ℓ all) s.shared.data }) :
    Step P (abs s) t (abs s') := by
  have hcalled := hl.called t
  rw [ht] at hcalled
  have hholder : (abs s').holder = (abs s).holder := by
    funext ℓ'
    change (s'.shared.locks ℓ').holder = _
    rw [hx]
    rfl
  have hdata : (abs s').shared = P.effect t k (wakeup c ℓ all) (abs s).shared := by
    change s'.shared.data = _
    rw [hx]
    rfl
  have hqueue := abs_queue_wake h h' ht hpcs hq
  cases all with
  | false =>
      rw [← abs_queue_of_wake h ht] at hqueue
      have e : abs s' = { abs s with queue := Function.update (abs s).queue c ((abs s).queue c).tail
                                     pcs := Function.update (abs s).pcs t (.active k')
                                     shared := P.effect t k (.signal c ℓ) (abs s).shared } :=
        State.ext hholder hqueue (abs_pcs hpcs) hdata
      rw [e]
      exact Step.signal (abs_pcs_self ht) hcalled
  | true =>
      have e : abs s' = { abs s with queue := Function.update (abs s).queue c []
                                     pcs := Function.update (abs s).pcs t (.active k')
                                     shared := P.effect t k (.broadcast c ℓ) (abs s).shared } :=
        State.ext hholder hqueue (abs_pcs hpcs) hdata
      rw [e]
      exact Step.broadcast (abs_pcs_self ht) hcalled

/-- A thread joins the channel of a condition variable: on the queue it is already. -/
theorem abs_queue_sleep (h : Sound (synch v P) s) (h' : Sound (synch v P) s') {k k' : κ} {c : C}
    {ℓ : L} {x : Spin L C} (ht : s.pcs t = .active (.wait k k' c ℓ .sleep))
    (hpcs : s'.pcs =
      Function.update s.pcs t (.waiting (.cvWchan c) x (.wait k k' c ℓ .unspin)))
    (hq : s'.queue =
      Function.update s.queue (.cvWchan c) (s.queue (.cvWchan c) ++ [t])) :
    (abs s').queue = (abs s).queue := by
  funext c'
  by_cases hc : c' = c
  · subst hc
    have hself : (pointOf (s.pcs t)).leaves c' = true := by
      rw [ht]
      simp [pointOf, Point.leaves]
    have hbefore := leaving_eq_singleton h hself
    have hafter : leaving s' c' = [] := by
      apply leaving_eq_nil h'
      intro u
      rw [hpcs]
      by_cases hut : u = t
      · subst hut
        rw [Function.update_self]
        rfl
      · -- only `t` was on its way
        rw [Function.update_of_ne hut, ← Bool.not_eq_true, ← mem_leaving h, hbefore]
        simpa using hut
    change s'.queue (.cvWchan c') ++ leaving s' c' = s.queue (.cvWchan c') ++ leaving s c'
    rw [hbefore, hafter, hq, Function.update_self, List.append_nil]
  · apply abs_queue h h' hpcs
    · rw [ht]
      simpa [pointOf, Point.leaves] using Ne.symm hc
    · rw [hq, Function.update_of_ne (by simpa using hc)]

/-- A use of a spinlock or wait channel that is not seen. -/
theorem abs_eq_of_calls (h : Sound (synch v P) s) (h' : Sound (synch v P) s') {p p' : Point L C κ}
    {r : Req (Spin L C) (Chan L C)} (ht : s.pcs t = .active p) (hc : Calls p r p')
    (hfree : ∀ f ℓ, p ≠ .release f ℓ .free) (hsleep : ∀ k k' c ℓ, p ≠ .wait k k' c ℓ .sleep)
    (hwake : ∀ k k' c ℓ all, p ≠ .wake k k' c ℓ all .wake)
    {pc : Pc (Spin L C) (Chan L C) (Point L C κ)} (hpc : pointOf pc = p')
    (hpcs : s'.pcs = Function.update s.pcs t pc)
    (hq : ∀ c, s'.queue (.cvWchan c) = s.queue (.cvWchan c)) (hx : s'.shared = s.shared) :
    abs s' = abs s := by
  have hpoint : pointOf (s.pcs t) = p := by rw [ht]; rfl
  apply abs_eq h h' hpcs _ _ hq hx
  · rw [hpoint, hpc]
    exact phase_of_calls hc hfree hwake
  · intro c
    rw [hpoint, hpc]
    exact leaves_of_calls hc (fun k k' ℓ => hfree _ ℓ) fun k k' ℓ => hsleep k k' c ℓ

omit [DecidableEq τ] in
theorem cvWchan_update (q : Chan L C → List τ) (ℓ : L) (l : List τ) (c : C) :
    Function.update q (.lockWchan ℓ) l (.cvWchan c) = q (.cvWchan c) :=
  Function.update_of_ne (by simp) _ _

omit [DecidableEq τ] in
theorem lockWchan_update (q : Chan L C → List τ) (c : C) (l : List τ) (ℓ : L) :
    Function.update q (.cvWchan c) l (.lockWchan ℓ) = q (.lockWchan ℓ) :=
  Function.update_of_ne (by simp) _ _

/-- Step lemma. Every step of the kernel is a step of the client on a monitor, or is not seen. -/
theorem step_abs (hs : Step (synch v P) s t s') (h : Sound (synch v P) s) (hl : Linked P s) :
    abs s' = abs s ∨ Step P (abs s) t (abs s') := by
  have h' := hs.sound h
  cases hs with
  | run hk hr => exact step_abs_runs h hl h' hk hr rfl rfl
  | @acquire p p' x hk hc hfree =>
      have hc : Calls p (.acquire x) p' := hc
      left
      cases hc <;> exact abs_eq_of_calls h h' hk (by constructor) (by simp) (by simp) (by simp)
        rfl rfl (fun _ => rfl) rfl
  | @release p p' x hk hc =>
      have hc : Calls p (.release x) p' := hc
      left
      cases hc <;> exact abs_eq_of_calls h h' hk (by constructor) (by simp) (by simp) (by simp)
        rfl rfl (fun _ => rfl) rfl
  | @wait p p' c x hk hc =>
      have hc : Calls p (.wait c x) p' := hc
      left
      cases hc with
      | acquireSleep f ℓ =>
          exact abs_eq_of_calls h h' hk (.acquireSleep f ℓ) (by simp) (by simp) (by simp) rfl rfl
            (cvWchan_update s.queue ℓ (s.queue (.lockWchan ℓ) ++ [t])) rfl
      | waitSleep k k' c ℓ =>
          apply State.ext
          · rfl
          · exact abs_queue_sleep h h' hk rfl rfl
          · rw [abs_pcs rfl]
            have hphase : (abs s).pcs t = .waiting c ℓ k' := abs_pcs_self hk
            change Function.update (abs s).pcs t (.waiting c ℓ k') = (abs s).pcs
            rw [← hphase, Function.update_eq_self]
          · rfl
  | @resume p c x hk hq hfree =>
      left
      have hpoint : pointOf (s.pcs t) = p := by rw [hk]; rfl
      apply abs_eq h h' rfl _ _ (fun _ => rfl) rfl
      · rw [hpoint]
        rfl
      · intro c
        rw [hpoint]
        rfl
  | @signal p p' c x hk hc =>
      have hc : Calls p (.signal c x) p' := hc
      right
      cases hc with
      | releaseFree f ℓ =>
          exact step_abs_free h hl h' hk rfl
            (cvWchan_update s.queue ℓ (s.queue (.lockWchan ℓ)).tail) rfl
      | wakeOne k k' c ℓ => exact step_abs_wake h hl h' hk rfl rfl rfl
  | @broadcast p p' c x hk hc =>
      have hc : Calls p (.broadcast c x) p' := hc
      right
      cases hc with
      | wakeAll k k' c ℓ => exact step_abs_wake h hl h' hk rfl rfl rfl

omit [DecidableEq C] in
/-- `t` goes to a point in a call that it has made; the locks are as they were. -/
theorem Linked.move (hl : Linked P s) (pc : Pc (Spin L C) (Chan L C) (Point L C κ))
    (hpc : (pointOf pc).Called P) (hpcs : s'.pcs = Function.update s.pcs t pc)
    (hheld : ∀ ℓ, (s'.shared.locks ℓ).held = (s'.shared.locks ℓ).holder.isSome) :
    Linked P s' where
  held := hheld
  called u := by
    rw [hpcs]
    by_cases hut : u = t
    · subst hut
      rw [Function.update_self]
      exact hpc
    · rw [Function.update_of_ne hut]
      exact hl.called u

omit [DecidableEq τ] [DecidableEq C] in
/-- The locks after one of them has been written. -/
theorem held_update {locks : L → Lock τ}
    (h : ∀ ℓ, (locks ℓ).held = (locks ℓ).holder.isSome) (ℓ : L) {l : Lock τ}
    (hl : l.held = l.holder.isSome) (ℓ' : L) :
    (Function.update locks ℓ l ℓ').held = (Function.update locks ℓ l ℓ').holder.isSome := by
  by_cases hℓ : ℓ' = ℓ
  · subst hℓ
    rw [Function.update_self]
    exact hl
  · rw [Function.update_of_ne hℓ]
    exact h ℓ'

/-- Step lemma. -/
theorem Linked.step (hl : Linked P s) (hs : Step (synch v P) s t s') : Linked P s' := by
  have hcalled : ∀ {p : Point L C κ}, s.pcs t = .active p → p.Called P := by
    intro p hp
    have := hl.called t
    rwa [hp] at this
  cases hs with
  | @run p p' x hk hr =>
      have hr : Runs v P t p s.shared p' x := hr
      apply hl.move (.active p') (called_of_runs hr (hcalled hk)) rfl
      cases hr with
      | acquireFree => exact held_update hl.held _ rfl
      | _ => exact hl.held
  | @acquire p p' x hk hc hfree =>
      have hc : Calls p (.acquire x) p' := hc
      apply hl.move (.active p') (called_of_calls hc (hcalled hk)) rfl
      cases hc <;> exact hl.held
  | @release p p' x hk hc =>
      have hc : Calls p (.release x) p' := hc
      apply hl.move (.active p') (called_of_calls hc (hcalled hk)) rfl
      cases hc <;> exact hl.held
  | @wait p p' c x hk hc =>
      have hc : Calls p (.wait c x) p' := hc
      apply hl.move (.waiting c x p') (called_of_calls hc (hcalled hk)) rfl
      cases hc <;> exact hl.held
  | @resume p c x hk hq hfree =>
      have hp := hl.called t
      rw [hk] at hp
      exact hl.move (.active p) hp rfl hl.held
  | @signal p p' c x hk hc =>
      have hc : Calls p (.signal c x) p' := hc
      apply hl.move (.active p') (called_of_calls hc (hcalled hk)) rfl
      cases hc with
      | releaseFree f ℓ => exact held_update hl.held _ rfl
      | wakeOne => exact hl.held
  | @broadcast p p' c x hk hc =>
      have hc : Calls p (.broadcast c x) p' := hc
      apply hl.move (.active p') (called_of_calls hc (hcalled hk)) rfl
      cases hc
      exact hl.held

variable (v P) in
/-- Boot: all locks are created, and every thread is at the start of the client. -/
def boot (y : σ) : Machine τ L C σ κ := (synch v P).init (created y)

theorem linked_boot (y : σ) : Linked P (boot v P y) where
  held _ := rfl
  called _ := trivial

/-- Run lemma. A run of the kernel is a run of the client on a monitor; a guard that is about what
the client sees carries over. -/
theorem reach_abs {ok : Machine τ L C σ κ → τ → Prop} (ok' : State τ L C σ κ → τ → Prop)
    (hok : ∀ s t, Sound (synch v P) s → Linked P s → ok s t → ok' (abs s) t) {y : σ}
    (h : Reach (Step (synch v P)) ok (boot v P y) s) :
    Linked P s ∧ Reach (Step P) ok' (P.init y) (abs s) := by
  induction h with
  | refl => exact ⟨linked_boot y, .refl⟩
  | @tail s₁ s₂ u h hstep hs ih =>
      obtain ⟨hl, hreach⟩ := ih
      have hsound := sound_of_reach h
      refine ⟨hl.step hs, ?_⟩
      rcases step_abs hs hsound hl with e | hstep'
      · rw [e]
        exact hreach
      · exact hreach.tail (hok s₁ u hsound hl hstep) hstep'

/-- The same without a guard. -/
theorem reach_monitor {ok : Machine τ L C σ κ → τ → Prop} {y : σ}
    (h : Reach (Step (synch v P)) ok (boot v P y) s) :
    Linked P s ∧ Reach (Step P) anyStep (P.init y) (abs s) :=
  reach_abs anyStep (fun _ _ _ _ _ => trivial) h

end Simulation

end Os161.Synch

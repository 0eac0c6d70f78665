import Os161.Synch.Refine

set_option autoImplicit false

/-!
# Calls that nobody is in the way of

When the spinlocks are free, the calls on sleep locks and condition variables go through: a thread
that is left alone runs from the call to the return, or to the sleep in `cv_wait`. The runs stay in
a guard that says nothing about threads in calls.
-/

namespace Os161.Synch

open Os161.Lib.Runs
open Os161.Lib.Monitor

variable {τ L C σ κ : Type} [DecidableEq τ] [DecidableEq L] [DecidableEq C]
  {v : Version} {P : Client τ L C σ κ} {s₀ s : Machine τ L C σ κ} {t : τ} {k k' : κ} {c : C} {ℓ : L}
  {ok : Machine τ L C σ κ → τ → Prop}

/-- A guard that lets threads in calls go on. -/
def AllowsCalls (ok : Machine τ L C σ κ → τ → Prop) : Prop :=
  ∀ s t p, s.pcs t = .active p → (∀ k, p ≠ .client k) → ok s t

omit [DecidableEq τ] [DecidableEq L] [DecidableEq C] in
theorem allowsCalls_anyStep : AllowsCalls (anyStep : Machine τ L C σ κ → τ → Prop) :=
  fun _ _ _ _ _ => trivial

omit [DecidableEq L] [DecidableEq C] in
/-- A lock that is free is not held by the caller. -/
theorem acquireAsserts_of_free {l : Lock τ} (h : l.held = false) : acquireAsserts v l t = true := by
  cases v <;> simp [acquireAsserts, lockDoIHold, h]

omit [DecidableEq L] [DecidableEq C] in
theorem lockDoIHold_of_holder {l : Lock τ} (h : l.held = true) (ht : l.holder = some t) :
    lockDoIHold v l t = true := by
  cases v <;> simp [lockDoIHold, h, ht]

omit [DecidableEq τ] in
/-- A spinlock is taken and given back. -/
theorem holder_restore {holder : Spin L C → Option τ} {x : Spin L C} (h : holder x = none) :
    Function.update (Function.update holder x (some t)) x none = holder := by
  rw [Function.update_idem, ← h, Function.update_eq_self]

/-- `lock_acquire` on a free lock. -/
theorem reach_lockAcquire (hok : AllowsCalls ok) (h : Reach (Step (synch v P)) ok s₀ s)
    (hs : ok s t) (ht : s.pcs t = .active (.client k)) (hc : P.calls k (.acquire ℓ) k')
    (hheld : (s.shared.locks ℓ).held = false) (hslock : s.holder (.slock ℓ) = none) :
    Reach (Step (synch v P)) ok s₀
      { s with pcs := Function.update s.pcs t (.active (.client k'))
               shared := { locks := Function.update s.shared.locks ℓ
                             { held := true, holder := some t }
                           data := P.effect t k (.acquire ℓ) s.shared.data } } := by
  have called := h.tail hs (.run ht (.call hc))
  have entered := called.tail (hok _ _ _ (Function.update_self ..) nofun)
    (.run (Function.update_self ..) (.acquireEnter (acquireAsserts_of_free hheld)))
  have spun := entered.tail (hok _ _ _ (Function.update_self ..) nofun)
    (.acquire (Function.update_self ..) (.acquireSpin _ _) hslock)
  have taken := spun.tail (hok _ _ _ (Function.update_self ..) nofun)
    (.run (Function.update_self ..) (.acquireFree hheld))
  have done := taken.tail (hok _ _ _ (Function.update_self ..) nofun)
    (.release (Function.update_self ..) (.acquireUnspin _ _))
  simpa [synch, store, Caller.acquires, Caller.acquired, holder_restore hslock] using done

/-- `lock_release`; the first sleeper is woken. -/
theorem reach_lockRelease (hok : AllowsCalls ok) (h : Reach (Step (synch v P)) ok s₀ s)
    (hs : ok s t) (ht : s.pcs t = .active (.client k)) (hc : P.calls k (.release ℓ) k')
    (hheld : (s.shared.locks ℓ).held = true) (hholder : (s.shared.locks ℓ).holder = some t)
    (hslock : s.holder (.slock ℓ) = none) :
    Reach (Step (synch v P)) ok s₀
      { s with queue := Function.update s.queue (.lockWchan ℓ) (s.queue (.lockWchan ℓ)).tail
               pcs := Function.update s.pcs t (.active (.client k'))
               shared := { locks := Function.update s.shared.locks ℓ
                             { held := false, holder := none }
                           data := P.effect t k (.release ℓ) s.shared.data } } := by
  have called := h.tail hs (.run ht (.call hc))
  have entered := called.tail (hok _ _ _ (Function.update_self ..) nofun)
    (.run (Function.update_self ..) (.releaseEnter hheld (lockDoIHold_of_holder hheld hholder)))
  have spun := entered.tail (hok _ _ _ (Function.update_self ..) nofun)
    (.acquire (Function.update_self ..) (.releaseSpin _ _) hslock)
  have freed := spun.tail (hok _ _ _ (Function.update_self ..) nofun)
    (.signal (Function.update_self ..) (.releaseFree _ _))
  have done := freed.tail (hok _ _ _ (Function.update_self ..) nofun)
    (.release (Function.update_self ..) (.releaseUnspin _ _))
  simpa [synch, store, Caller.releases, Caller.released, holder_restore hslock] using done

/-- `cv_wait`, up to the sleep. -/
theorem reach_cvWait (hok : AllowsCalls ok) (h : Reach (Step (synch v P)) ok s₀ s)
    (hs : ok s t) (ht : s.pcs t = .active (.client k)) (hc : P.calls k (.wait c ℓ) k')
    (hheld : (s.shared.locks ℓ).held = true) (hholder : (s.shared.locks ℓ).holder = some t)
    (hslock : s.holder (.slock ℓ) = none) (hcv : s.holder (.cvLock c) = none) :
    Reach (Step (synch v P)) ok s₀
      { s with queue := Function.update
                 (Function.update s.queue (.lockWchan ℓ) (s.queue (.lockWchan ℓ)).tail)
                 (.cvWchan c) (s.queue (.cvWchan c) ++ [t])
               pcs := Function.update s.pcs t
                 (.waiting (.cvWchan c) (.cvLock c) (.wait k k' c ℓ .unspin))
               shared := { locks := Function.update s.shared.locks ℓ
                             { held := false, holder := none }
                           data := P.effect t k (.wait c ℓ) s.shared.data } } := by
  have hmine := lockDoIHold_of_holder (v := v) hheld hholder
  have called := h.tail hs (.run ht (.call hc))
  have entered := called.tail (hok _ _ _ (Function.update_self ..) nofun)
    (.run (Function.update_self ..) (.waitEnter hmine))
  have locked := entered.tail (hok _ _ _ (Function.update_self ..) nofun)
    (.acquire (Function.update_self ..) (.waitSpin _ _ _ _) hcv)
  have releasing := locked.tail (hok _ _ _ (Function.update_self ..) nofun)
    (.run (Function.update_self ..) (.releaseEnter hheld hmine))
  have hslock' : Function.update s.holder (.cvLock c) (some t) (.slock ℓ) = none := by simp [hslock]
  have spun := releasing.tail (hok _ _ _ (Function.update_self ..) nofun)
    (.acquire (Function.update_self ..) (.releaseSpin _ _) hslock')
  have freed := spun.tail (hok _ _ _ (Function.update_self ..) nofun)
    (.signal (Function.update_self ..) (.releaseFree _ _))
  have released := freed.tail (hok _ _ _ (Function.update_self ..) nofun)
    (.release (Function.update_self ..) (.releaseUnspin _ _))
  have done := released.tail (hok _ _ _ (Function.update_self ..) nofun)
    (.wait (Function.update_self ..) (.waitSleep _ _ _ _))
  simpa [synch, store, Caller.releases, Caller.released, holder_restore hslock',
    holder_restore hcv] using done

/-- `cv_signal` and `cv_broadcast`. -/
theorem reach_cvWake (all : Bool) (hok : AllowsCalls ok) (h : Reach (Step (synch v P)) ok s₀ s)
    (hs : ok s t) (ht : s.pcs t = .active (.client k)) (hc : P.calls k (wakeup c ℓ all) k')
    (hheld : (s.shared.locks ℓ).held = true) (hholder : (s.shared.locks ℓ).holder = some t)
    (hcv : s.holder (.cvLock c) = none) :
    Reach (Step (synch v P)) ok s₀
      { s with queue := Function.update s.queue (.cvWchan c)
                 (if all then [] else (s.queue (.cvWchan c)).tail)
               pcs := Function.update s.pcs t (.active (.client k'))
               shared := { s.shared with data := P.effect t k (wakeup c ℓ all) s.shared.data } } := by
  have hmine := lockDoIHold_of_holder (v := v) hheld hholder
  have called := h.tail hs (.run ht (.call hc))
  have hcalled : Point.enter k (wakeup c ℓ all) k' = .wake k k' c ℓ all .enter := by
    cases all <;> rfl
  rw [hcalled] at called
  have entered := called.tail (hok _ _ _ (Function.update_self ..) (by simp))
    (.run (Function.update_self ..) (.wakeEnter hmine))
  have locked := entered.tail (hok _ _ _ (Function.update_self ..) (by simp))
    (.acquire (Function.update_self ..) (.wakeSpin _ _ _ _ _) hcv)
  cases all with
  | false =>
      have woken := locked.tail (hok _ _ _ (Function.update_self ..) (by simp))
        (.signal (Function.update_self ..) (.wakeOne _ _ _ _))
      have done := woken.tail (hok _ _ _ (Function.update_self ..) (by simp))
        (.release (Function.update_self ..) (.wakeUnspin _ _ _ _ _))
      simpa [synch, store, holder_restore hcv] using done
  | true =>
      have woken := locked.tail (hok _ _ _ (Function.update_self ..) (by simp))
        (.broadcast (Function.update_self ..) (.wakeAll _ _ _ _))
      have done := woken.tail (hok _ _ _ (Function.update_self ..) (by simp))
        (.release (Function.update_self ..) (.wakeUnspin _ _ _ _ _))
      simpa [synch, store, holder_restore hcv] using done

/-- The rest of `cv_wait`, for a thread that has been woken. -/
theorem reach_cvReturn (hok : AllowsCalls ok) (h : Reach (Step (synch v P)) ok s₀ s)
    (hs : ok s t) (ht : s.pcs t = .waiting (.cvWchan c) (.cvLock c) (.wait k k' c ℓ .unspin))
    (hq : t ∉ s.queue (.cvWchan c)) (hheld : (s.shared.locks ℓ).held = false)
    (hslock : s.holder (.slock ℓ) = none) (hcv : s.holder (.cvLock c) = none) :
    Reach (Step (synch v P)) ok s₀
      { s with pcs := Function.update s.pcs t (.active (.client k'))
               shared := { locks := Function.update s.shared.locks ℓ
                             { held := true, holder := some t }
                           data := s.shared.data } } := by
  have resumed := h.tail hs (.resume ht hq hcv)
  have unspun := resumed.tail (hok _ _ _ (Function.update_self ..) nofun)
    (.release (Function.update_self ..) (.waitUnspin _ _ _ _))
  have entered := unspun.tail (hok _ _ _ (Function.update_self ..) nofun)
    (.run (Function.update_self ..) (.acquireEnter (acquireAsserts_of_free hheld)))
  have hslock' : Function.update (Function.update s.holder (.cvLock c) (some t)) (.cvLock c) none
      (.slock ℓ) = none := by
    rw [holder_restore hcv, hslock]
  have spun := entered.tail (hok _ _ _ (Function.update_self ..) nofun)
    (.acquire (Function.update_self ..) (.acquireSpin _ _) hslock')
  have taken := spun.tail (hok _ _ _ (Function.update_self ..) nofun)
    (.run (Function.update_self ..) (.acquireFree hheld))
  have returned := taken.tail (hok _ _ _ (Function.update_self ..) nofun)
    (.release (Function.update_self ..) (.acquireUnspin _ _))
  have hleave : leaveAsserts v (Function.update s.shared.locks ℓ { held := true, holder := some t } ℓ)
      t = true := by
    rw [Function.update_self]
    cases v <;> simp [leaveAsserts, lockDoIHold]
  have done := returned.tail (hok _ _ _ (Function.update_self ..) nofun)
    (.run (Function.update_self ..) (.waitLeave hleave))
  simpa [synch, store, Caller.acquires, Caller.acquired, holder_restore hcv,
    holder_restore hslock] using done

end Os161.Synch

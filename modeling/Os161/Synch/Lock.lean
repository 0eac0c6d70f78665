import Os161.Lib.Monitor

set_option autoImplicit false

/-!
# Sleep locks and condition variables

`lock_acquire`, `lock_release`, `cv_wait`, `cv_signal` and `cv_broadcast` of
`kern/thread/synch.c`, in both kernels, for any number of locks, condition variables and threads.
They are built from spinlocks and wait channels, which are the locks and queues of `Lib.Monitor`:
`wchan_sleep` puts the thread on the channel and unlocks the spinlock, and nobody else has the
spinlock in between. The body of a critical section that does not sleep is one step.

The threads run a client of the sleep locks and condition variables, again in the sense of
`Lib.Monitor`, and `synch` is the client of the spinlocks and wait channels that this makes.
-/

namespace Os161.Synch

open Os161.Lib.Runs
open Os161.Lib.Monitor

/-- The two kernels: `os161-dvz-main` and `os161-vud-proj1-proj2`. -/
inductive Version where
  | dvz
  | vud
  deriving DecidableEq, Repr

/-- The spinlock of a lock, and the spinlock of a condition variable. -/
inductive Spin (L C : Type) where
  | slock (ℓ : L)
  | cvLock (c : C)
  deriving DecidableEq, Repr

/-- The wait channel of a lock, and the wait channel of a condition variable. -/
inductive Chan (L C : Type) where
  | lockWchan (ℓ : L)
  | cvWchan (c : C)
  deriving DecidableEq, Repr

/-- What the spinlock of a `struct lock` protects: `lock_held` and `thread_holder`, in the other
kernel `lk_hold` and `lk_thread`. -/
structure Lock (τ : Type) where
  held : Bool
  holder : Option τ
  deriving DecidableEq, Repr

/-- `lock_create`. -/
def lockCreate {τ : Type} : Lock τ := { held := false, holder := none }

/-- `lock_do_i_hold`, called by `t`. -/
def lockDoIHold {τ : Type} [DecidableEq τ] (v : Version) (l : Lock τ) (t : τ) : Bool :=
  match v with
  | .dvz => l.holder == some t
  | .vud => l.held && l.holder == some t

/-- The locks, and what the client shares. -/
structure Shared (τ L σ : Type) where
  locks : L → Lock τ
  data : σ

/-! ## Program points -/

/-- `lock_acquire`. -/
inductive Acquire where
  /-- The assertions. -/
  | enter
  /-- `spinlock_acquire(&lock->lock_slock)`. -/
  | spin
  /-- `while (lock->lock_held)`, and the stores after the loop. -/
  | test
  /-- `wchan_sleep(lock->lock_wchan, &lock->lock_slock)`. -/
  | sleep
  /-- `spinlock_release(&lock->lock_slock)`. -/
  | unspin
  deriving DecidableEq, Repr

/-- `lock_release`. -/
inductive Release where
  /-- The assertions. -/
  | enter
  /-- `spinlock_acquire(&lock->lock_slock)`. -/
  | spin
  /-- The stores and `wchan_wakeone(lock->lock_wchan, &lock->lock_slock)`. -/
  | free
  /-- `spinlock_release(&lock->lock_slock)`. -/
  | unspin
  deriving DecidableEq, Repr

/-- `cv_wait`, outside the calls of `lock_release` and `lock_acquire` in it. -/
inductive Wait where
  /-- The assertions. -/
  | enter
  /-- `spinlock_acquire(&cv->cv_lock)`. -/
  | spin
  /-- `wchan_sleep(cv->cv_wchan, &cv->cv_lock)`. -/
  | sleep
  /-- `spinlock_release(&cv->cv_lock)`. -/
  | unspin
  /-- The assertion at the end. -/
  | leave
  deriving DecidableEq, Repr

/-- `cv_signal` and `cv_broadcast`. -/
inductive Wake where
  /-- The assertions. -/
  | enter
  /-- `spinlock_acquire(&cv->cv_lock)`. -/
  | spin
  /-- `wchan_wakeone` or `wchan_wakeall` on `cv->cv_wchan`. -/
  | wake
  /-- `spinlock_release(&cv->cv_lock)`. -/
  | unspin
  deriving DecidableEq, Repr

/-- Who has called `lock_acquire` or `lock_release`: the client at `k`, which goes on at `k'`, or
the `cv_wait` that the client has called there. -/
inductive Caller (C κ : Type) where
  | client (k k' : κ)
  | cvWait (k k' : κ) (c : C)
  deriving DecidableEq, Repr

/-- A thread in the client, or in a call that it has made at `k` and that leads to `k'`. -/
inductive Point (L C κ : Type) where
  | client (k : κ)
  | acquire (f : Caller C κ) (ℓ : L) (a : Acquire)
  | release (f : Caller C κ) (ℓ : L) (b : Release)
  | wait (k k' : κ) (c : C) (ℓ : L) (w : Wait)
  | wake (k k' : κ) (c : C) (ℓ : L) (all : Bool) (w : Wake)
  deriving DecidableEq, Repr

section Points

variable {L C κ : Type}

/-- The call `r`, made at `k`, begins. -/
def Point.enter (k : κ) (r : Req L C) (k' : κ) : Point L C κ :=
  match r with
  | .acquire ℓ => .acquire (.client k k') ℓ .enter
  | .release ℓ => .release (.client k k') ℓ .enter
  | .wait c ℓ => .wait k k' c ℓ .enter
  | .signal c ℓ => .wake k k' c ℓ false .enter
  | .broadcast c ℓ => .wake k k' c ℓ true .enter

/-- The return from `lock_acquire`. -/
def Caller.acquired (ℓ : L) : Caller C κ → Point L C κ
  | .client _ k' => .client k'
  | .cvWait k k' c => .wait k k' c ℓ .leave

/-- The return from `lock_release`. -/
def Caller.released (ℓ : L) : Caller C κ → Point L C κ
  | .client _ k' => .client k'
  | .cvWait k k' c => .wait k k' c ℓ .sleep

/-- The call on a condition variable that wakes one or all of its threads. -/
def wakeup (c : C) (ℓ : L) (all : Bool) : Req L C :=
  if all then .broadcast c ℓ else .signal c ℓ

/-- Uses of spinlocks and wait channels. -/
inductive Calls : Point L C κ → Req (Spin L C) (Chan L C) → Point L C κ → Prop where
  | acquireSpin (f : Caller C κ) (ℓ : L) :
      Calls (.acquire f ℓ .spin) (.acquire (.slock ℓ)) (.acquire f ℓ .test)
  | acquireSleep (f : Caller C κ) (ℓ : L) :
      Calls (.acquire f ℓ .sleep) (.wait (.lockWchan ℓ) (.slock ℓ)) (.acquire f ℓ .test)
  | acquireUnspin (f : Caller C κ) (ℓ : L) :
      Calls (.acquire f ℓ .unspin) (.release (.slock ℓ)) (f.acquired ℓ)
  | releaseSpin (f : Caller C κ) (ℓ : L) :
      Calls (.release f ℓ .spin) (.acquire (.slock ℓ)) (.release f ℓ .free)
  | releaseFree (f : Caller C κ) (ℓ : L) :
      Calls (.release f ℓ .free) (.signal (.lockWchan ℓ) (.slock ℓ)) (.release f ℓ .unspin)
  | releaseUnspin (f : Caller C κ) (ℓ : L) :
      Calls (.release f ℓ .unspin) (.release (.slock ℓ)) (f.released ℓ)
  | waitSpin (k k' : κ) (c : C) (ℓ : L) :
      Calls (.wait k k' c ℓ .spin) (.acquire (.cvLock c)) (.release (.cvWait k k' c) ℓ .enter)
  | waitSleep (k k' : κ) (c : C) (ℓ : L) :
      Calls (.wait k k' c ℓ .sleep) (.wait (.cvWchan c) (.cvLock c)) (.wait k k' c ℓ .unspin)
  | waitUnspin (k k' : κ) (c : C) (ℓ : L) :
      Calls (.wait k k' c ℓ .unspin) (.release (.cvLock c)) (.acquire (.cvWait k k' c) ℓ .enter)
  | wakeSpin (k k' : κ) (c : C) (ℓ : L) (all : Bool) :
      Calls (.wake k k' c ℓ all .spin) (.acquire (.cvLock c)) (.wake k k' c ℓ all .wake)
  | wakeOne (k k' : κ) (c : C) (ℓ : L) :
      Calls (.wake k k' c ℓ false .wake) (.signal (.cvWchan c) (.cvLock c))
        (.wake k k' c ℓ false .unspin)
  | wakeAll (k k' : κ) (c : C) (ℓ : L) :
      Calls (.wake k k' c ℓ true .wake) (.broadcast (.cvWchan c) (.cvLock c))
        (.wake k k' c ℓ true .unspin)
  | wakeUnspin (k k' : κ) (c : C) (ℓ : L) (all : Bool) :
      Calls (.wake k k' c ℓ all .unspin) (.release (.cvLock c)) (.client k')

end Points

/-! ## Steps -/

section Steps

variable {τ L C σ κ : Type} [DecidableEq τ] [DecidableEq L] [DecidableEq C]

/-- The assertions at the beginning of `lock_acquire`. -/
def acquireAsserts (v : Version) (l : Lock τ) (t : τ) : Bool :=
  match v with
  | .dvz => true
  | .vud => !lockDoIHold .vud l t

/-- The assertion at the end of `cv_wait`. -/
def leaveAsserts (v : Version) (l : Lock τ) (t : τ) : Bool :=
  match v with
  | .dvz => true
  | .vud => lockDoIHold .vud l t

/-- What the client stores with the call, when `lock_acquire` has the lock. -/
def Caller.acquires (P : Client τ L C σ κ) (t : τ) (ℓ : L) : Caller C κ → σ → σ
  | .client k _ => P.effect t k (.acquire ℓ)
  | .cvWait _ _ _ => id

/-- What the client stores with the call, when `lock_release` gives the lock up. -/
def Caller.releases (P : Client τ L C σ κ) (t : τ) (ℓ : L) : Caller C κ → σ → σ
  | .client k _ => P.effect t k (.release ℓ)
  | .cvWait k _ c => P.effect t k (.wait c ℓ)

/-- Steps that use neither a spinlock nor a wait channel. An assertion that fails panics, and there
is no step. -/
inductive Runs (v : Version) (P : Client τ L C σ κ) (t : τ) :
    Point L C κ → Shared τ L σ → Point L C κ → Shared τ L σ → Prop where
  | client {k k' : κ} {x : Shared τ L σ} {y : σ} : P.runs t k x.data k' y →
      Runs v P t (.client k) x (.client k') { x with data := y }
  | call {k k' : κ} {r : Req L C} {x : Shared τ L σ} : P.calls k r k' →
      Runs v P t (.client k) x (.enter k r k') x
  | acquireEnter {f : Caller C κ} {ℓ : L} {x : Shared τ L σ} :
      acquireAsserts v (x.locks ℓ) t = true →
      Runs v P t (.acquire f ℓ .enter) x (.acquire f ℓ .spin) x
  | acquireHeld {f : Caller C κ} {ℓ : L} {x : Shared τ L σ} : (x.locks ℓ).held = true →
      Runs v P t (.acquire f ℓ .test) x (.acquire f ℓ .sleep) x
  | acquireFree {f : Caller C κ} {ℓ : L} {x : Shared τ L σ} : (x.locks ℓ).held = false →
      Runs v P t (.acquire f ℓ .test) x (.acquire f ℓ .unspin)
        { locks := Function.update x.locks ℓ { held := true, holder := some t }
          data := f.acquires P t ℓ x.data }
  | releaseEnter {f : Caller C κ} {ℓ : L} {x : Shared τ L σ} : (x.locks ℓ).held = true →
      lockDoIHold v (x.locks ℓ) t = true →
      Runs v P t (.release f ℓ .enter) x (.release f ℓ .spin) x
  | waitEnter {k k' : κ} {c : C} {ℓ : L} {x : Shared τ L σ} :
      lockDoIHold v (x.locks ℓ) t = true →
      Runs v P t (.wait k k' c ℓ .enter) x (.wait k k' c ℓ .spin) x
  | waitLeave {k k' : κ} {c : C} {ℓ : L} {x : Shared τ L σ} :
      leaveAsserts v (x.locks ℓ) t = true →
      Runs v P t (.wait k k' c ℓ .leave) x (.client k') x
  | wakeEnter {k k' : κ} {c : C} {ℓ : L} {all : Bool} {x : Shared τ L σ} :
      lockDoIHold v (x.locks ℓ) t = true →
      Runs v P t (.wake k k' c ℓ all .enter) x (.wake k k' c ℓ all .spin) x

/-- What is stored together with the uses of spinlocks and wait channels. -/
def store (P : Client τ L C σ κ) (t : τ) (x : Shared τ L σ) : Point L C κ → Shared τ L σ
  | .release f ℓ .free =>
      { locks := Function.update x.locks ℓ { held := false, holder := none }
        data := f.releases P t ℓ x.data }
  | .wake k _ c ℓ all .wake => { x with data := P.effect t k (wakeup c ℓ all) x.data }
  | _ => x

/-- The spinlock of a lock is held. -/
def Acquire.locked : Acquire → Bool
  | .enter | .spin => false
  | .test | .sleep | .unspin => true

def Release.locked : Release → Bool
  | .enter | .spin => false
  | .free | .unspin => true

/-- The spinlock of a condition variable is held. -/
def Wait.locked : Wait → Bool
  | .enter | .spin | .leave => false
  | .sleep | .unspin => true

def Wake.locked : Wake → Bool
  | .enter | .spin => false
  | .wake | .unspin => true

/-- The spinlock that the caller of `lock_release` has. -/
def Caller.spins : Caller C κ → Spin L C → Bool
  | .client _ _, _ => false
  | .cvWait _ _ c, x => x == .cvLock c

/-- The spinlocks of a thread. -/
def Point.spins : Point L C κ → Spin L C → Bool
  | .client _, _ => false
  | .acquire _ ℓ a, x => a.locked && x == .slock ℓ
  | .release f ℓ b, x => f.spins x || (b.locked && x == .slock ℓ)
  | .wait _ _ c _ w, x => w.locked && x == .cvLock c
  | .wake _ _ c _ _ w, x => w.locked && x == .cvLock c

omit [DecidableEq τ] in
theorem calls_moves {p p' : Point L C κ} {r : Req (Spin L C) (Chan L C)} (h : Calls p r p') :
    r.Moves p.spins p'.spins := by
  cases h with
  | acquireSpin f ℓ =>
      refine ⟨rfl, funext fun x => ?_⟩
      by_cases hx : x = .slock ℓ <;> simp [Point.spins, Acquire.locked, hx]
  | acquireSleep f ℓ => exact ⟨by simp [Point.spins, Acquire.locked], rfl⟩
  | acquireUnspin f ℓ =>
      refine ⟨by simp [Point.spins, Acquire.locked], funext fun x => ?_⟩
      cases f <;> by_cases hx : x = .slock ℓ <;>
        simp [Caller.acquired, Point.spins, Acquire.locked, Wait.locked, hx]
  | releaseSpin f ℓ =>
      refine ⟨by cases f <;> simp [Point.spins, Caller.spins, Release.locked], funext fun x => ?_⟩
      by_cases hx : x = .slock ℓ <;> simp [Point.spins, Release.locked, hx]
  | releaseFree f ℓ => exact ⟨by simp [Point.spins, Release.locked], rfl⟩
  | releaseUnspin f ℓ =>
      refine ⟨by simp [Point.spins, Release.locked], funext fun x => ?_⟩
      cases f <;> by_cases hx : x = .slock ℓ <;>
        simp [Caller.released, Caller.spins, Point.spins, Release.locked, Wait.locked, hx]
  | waitSpin k k' c ℓ =>
      refine ⟨rfl, funext fun x => ?_⟩
      by_cases hx : x = .cvLock c <;>
        simp [Point.spins, Caller.spins, Release.locked, Wait.locked, hx]
  | waitSleep k k' c ℓ => exact ⟨by simp [Point.spins, Wait.locked], rfl⟩
  | waitUnspin k k' c ℓ =>
      refine ⟨by simp [Point.spins, Wait.locked], funext fun x => ?_⟩
      by_cases hx : x = .cvLock c <;> simp [Point.spins, Acquire.locked, Wait.locked, hx]
  | wakeSpin k k' c ℓ all =>
      refine ⟨rfl, funext fun x => ?_⟩
      by_cases hx : x = .cvLock c <;> simp [Point.spins, Wake.locked, hx]
  | wakeOne k k' c ℓ => exact ⟨by simp [Point.spins, Wake.locked], rfl⟩
  | wakeAll k k' c ℓ => exact ⟨by simp [Point.spins, Wake.locked], rfl⟩
  | wakeUnspin k k' c ℓ all =>
      refine ⟨by simp [Point.spins, Wake.locked], funext fun x => ?_⟩
      by_cases hx : x = .cvLock c <;> simp [Point.spins, Wake.locked, hx]

theorem spins_of_runs {v : Version} {P : Client τ L C σ κ} {t : τ} {p p' : Point L C κ}
    {x x' : Shared τ L σ} (h : Runs v P t p x p' x') : p'.spins = p.spins := by
  cases h with
  | @call k k' r x hc => cases r <;> rfl
  | _ => rfl

/-- Threads that run the client `P` on sleep locks and condition variables, as a client of
spinlocks and wait channels. -/
def synch (v : Version) (P : Client τ L C σ κ) :
    Client τ (Spin L C) (Chan L C) (Shared τ L σ) (Point L C κ) where
  start := .client P.start
  runs := Runs v P
  calls := Calls
  effect t p _ x := store P t x p
  owns := Point.spins
  owns_start _ := rfl
  owns_runs _ _ _ _ _ h := spins_of_runs h
  owns_calls _ _ _ h := calls_moves h

/-- All locks are created, and the client shares `y`. -/
def created (y : σ) : Shared τ L σ := { locks := fun _ => lockCreate, data := y }

end Steps

end Os161.Synch

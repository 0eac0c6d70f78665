import Os161.Lib.Runs
import Mathlib.Logic.Function.Basic

set_option autoImplicit false

/-!
# The VFS big lock

`vfs_biglock_acquire`, `vfs_biglock_release` and `vfs_biglock_do_i_hold` of `kern/vfs/vfslist.c`,
with `lock_acquire`, `lock_release` and `lock_do_i_hold` of `kern/thread/synch.c`, statement by
statement: any number of threads, one statement of one thread at a time. `lock_do_i_hold` and the
uses of `vfs_biglock_depth` are outside of the spinlock of the lock.

The threads call the functions in a properly nested way: a thread releases no more often than it
has acquired. `vfs_biglock_depth` is an `unsigned` and wraps.
-/

namespace Os161.Vfs.Biglock

open Os161.Lib.Runs

/-- `vfs_biglock`, the holder of its spinlock, and `vfs_biglock_depth`. -/
structure Shared (τ : Type) where
  slock : Option τ
  lockHeld : Bool
  threadHolder : Option τ
  depth : UInt32
  deriving DecidableEq

/-- The statement a thread is about to execute. -/
inductive Pc where
  /-- No call is going on. -/
  | outside
  /-- `lock_do_i_hold(vfs_biglock)` of `vfs_biglock_acquire`. -/
  | acqTest
  /-- `vfs_biglock_depth == 0` behind it. -/
  | acqDepth
  /-- `spinlock_acquire` of `lock_acquire`, or at the end of `wchan_sleep`. -/
  | lockSpin
  /-- `while(lock->lock_held)`. -/
  | lockWhile
  /-- On the wait channel. -/
  | asleep
  /-- `lock->lock_held = true`. -/
  | setHeld
  /-- `KASSERT(lock->lock_held)` and `lock->thread_holder = curthread`. -/
  | setHolder
  /-- `KASSERT(lock->thread_holder != NULL)` and `spinlock_release`. -/
  | lockUnspin
  /-- Reads the variable for `vfs_biglock_depth++`. -/
  | incRead
  /-- Writes it, after it has read `d`. -/
  | incWrite (d : UInt32)
  /-- `KASSERT(lock_do_i_hold(vfs_biglock))` of `vfs_biglock_release`. -/
  | relTest
  /-- `KASSERT(vfs_biglock_depth > 0)`. -/
  | relAssert
  /-- Reads the variable for `vfs_biglock_depth--`. -/
  | decRead
  /-- Writes it, after it has read `d`. -/
  | decWrite (d : UInt32)
  /-- `if (vfs_biglock_depth == 0)`. -/
  | relDepth
  /-- `KASSERT(lock->lock_held)` of `lock_release`. -/
  | unlockHeld
  /-- `KASSERT(lock_do_i_hold(lock))`. -/
  | unlockHolder
  /-- `spinlock_acquire`. -/
  | unlockSpin
  /-- `lock->lock_held = false`. -/
  | clearHeld
  /-- `lock->thread_holder = NULL`. -/
  | clearHolder
  /-- `wchan_wakeone`. -/
  | wakeone
  /-- `spinlock_release`. -/
  | unlockUnspin
  /-- After a failed assertion. -/
  | panicked
  deriving DecidableEq

/-- A thread. The numbers are not part of the kernel: `nest` is the number of calls of
`vfs_biglock_acquire` that have returned and for which `vfs_biglock_release` has not been called,
`outer` the number of calls of `vfs_biglock_acquire` with `nest` 0, and `taken` and `given` count
how often `lock_acquire` and `lock_release` have set and cleared `lock_held`. -/
structure Thread where
  pc : Pc
  nest : Nat
  outer : Nat
  taken : Nat
  given : Nat
  deriving DecidableEq

def Thread.goto (th : Thread) (pc : Pc) : Thread := { th with pc := pc }

structure State (τ : Type) where
  sh : Shared τ
  threads : τ → Thread

section Model

variable {τ : Type} [DecidableEq τ]

def lockDoIHold (sh : Shared τ) (t : τ) : Bool := sh.threadHolder = some t

/-- The next statement of a thread: `none` when it waits, or is in no call. -/
def next (sh : Shared τ) (t : τ) (th : Thread) : Option (Shared τ × Thread) :=
  match th.pc with
  | .outside => none
  | .acqTest => some (sh, th.goto (if lockDoIHold sh t then .acqDepth else .lockSpin))
  | .acqDepth => some (sh, th.goto (if sh.depth = 0 then .lockSpin else .incRead))
  | .lockSpin =>
      if sh.slock = none then some ({ sh with slock := some t }, th.goto .lockWhile) else none
  | .lockWhile =>
      if sh.lockHeld then some ({ sh with slock := none }, th.goto .asleep)
      else some (sh, th.goto .setHeld)
  | .asleep => none
  | .setHeld =>
      some ({ sh with lockHeld := true }, { th with pc := .setHolder, taken := th.taken + 1 })
  | .setHolder =>
      if sh.lockHeld then some ({ sh with threadHolder := some t }, th.goto .lockUnspin)
      else some (sh, th.goto .panicked)
  | .lockUnspin =>
      if sh.threadHolder ≠ none then some ({ sh with slock := none }, th.goto .incRead)
      else some (sh, th.goto .panicked)
  | .incRead => some (sh, th.goto (.incWrite sh.depth))
  | .incWrite d =>
      some ({ sh with depth := d + 1 }, { th with pc := .outside, nest := th.nest + 1 })
  | .relTest => some (sh, th.goto (if lockDoIHold sh t then .relAssert else .panicked))
  | .relAssert => some (sh, th.goto (if sh.depth > 0 then .decRead else .panicked))
  | .decRead => some (sh, th.goto (.decWrite sh.depth))
  | .decWrite d => some ({ sh with depth := d - 1 }, th.goto .relDepth)
  | .relDepth => some (sh, th.goto (if sh.depth = 0 then .unlockHeld else .outside))
  | .unlockHeld => some (sh, th.goto (if sh.lockHeld then .unlockHolder else .panicked))
  | .unlockHolder => some (sh, th.goto (if lockDoIHold sh t then .unlockSpin else .panicked))
  | .unlockSpin =>
      if sh.slock = none then some ({ sh with slock := some t }, th.goto .clearHeld) else none
  | .clearHeld =>
      some ({ sh with lockHeld := false }, { th with pc := .clearHolder, given := th.given + 1 })
  | .clearHolder => some ({ sh with threadHolder := none }, th.goto .wakeone)
  | .wakeone => none
  | .unlockUnspin => some ({ sh with slock := none }, th.goto .outside)
  | .panicked => none

/-- The call of `vfs_biglock_acquire`. -/
def Thread.callAcquire (th : Thread) : Thread :=
  { th with pc := .acqTest, outer := if th.nest = 0 then th.outer + 1 else th.outer }

/-- The call of `vfs_biglock_release`. -/
def Thread.callRelease (th : Thread) : Thread := { th with pc := .relTest, nest := th.nest - 1 }

/-- What happens: a thread calls one of the functions, or executes a statement; `wakes` is the
thread that `wchan_wakeone` takes off the wait channel. -/
inductive Action (τ : Type) where
  | acquire (t : τ)
  | release (t : τ)
  | run (t : τ)
  | wakes (t : τ) (u : Option τ)

def State.put (s : State τ) (t : τ) (th : Thread) : State τ :=
  { s with threads := Function.update s.threads t th }

inductive Step : State τ → Action τ → State τ → Prop where
  | acquire {s : State τ} {t : τ} (h : (s.threads t).pc = .outside) :
      Step s (.acquire t) (s.put t (s.threads t).callAcquire)
  | release {s : State τ} {t : τ} (h : (s.threads t).pc = .outside)
      (hnest : 0 < (s.threads t).nest) : Step s (.release t) (s.put t (s.threads t).callRelease)
  | run {s : State τ} {t : τ} {sh : Shared τ} {th : Thread}
      (h : next s.sh t (s.threads t) = some (sh, th)) :
      Step s (.run t) { sh := sh, threads := Function.update s.threads t th }
  | wakesOne {s : State τ} {t u : τ} (h : (s.threads t).pc = .wakeone)
      (hu : (s.threads u).pc = .asleep) :
      Step s (.wakes t (some u))
        ((s.put u ((s.threads u).goto .lockSpin)).put t ((s.threads t).goto .unlockUnspin))
  | wakesNone {s : State τ} {t : τ} (h : (s.threads t).pc = .wakeone)
      (hnone : ∀ u, (s.threads u).pc ≠ .asleep) :
      Step s (.wakes t none) (s.put t ((s.threads t).goto .unlockUnspin))

/-- After `vfs_bootstrap`. -/
def bootstrap : State τ where
  sh := { slock := none, lockHeld := false, threadHolder := none, depth := 0 }
  threads _ := { pc := .outside, nest := 0, outer := 0, taken := 0, given := 0 }

end Model

/-! ## What the functions promise -/

/-- Between the call of `lock_acquire` and the moment it has the lock. -/
def Pc.waiting : Pc → Bool
  | .lockSpin | .lockWhile | .asleep => true
  | _ => false

/-- In `lock_release`, before the lock is free. -/
def Pc.unlocking : Pc → Bool
  | .unlockHeld | .unlockHolder | .unlockSpin | .clearHeld => true
  | _ => false

/-- The lock is held and the depth is not yet, or no longer, what it is for. -/
def Pc.changing : Pc → Bool
  | .setHolder | .lockUnspin | .incRead | .incWrite _ | .relDepth => true
  | pc => pc.unlocking

/-- In `vfs_biglock_release`, before the depth is decremented. -/
def Pc.releasing : Pc → Bool
  | .relTest | .relAssert | .decRead | .decWrite _ => true
  | _ => false

variable {τ : Type}

/-- The lock is recursive. -/
structure Recursive (s : State τ) : Prop where
  /-- A positive depth means that the lock is held. -/
  held : 0 < s.sh.depth → s.sh.lockHeld = true
  /-- The lock is held with depth 0 only inside the outermost calls. -/
  positive : s.sh.lockHeld = true →
    0 < s.sh.depth ∨ ∃ t, (s.threads t).pc.changing = true ∧ (s.threads t).nest = 0
  /-- The depth is the nesting depth of the holder; a release counts once it has been called. -/
  depth : ∀ t, s.sh.threadHolder = some t →
    s.sh.depth.toNat = (s.threads t).nest + if (s.threads t).pc.releasing then 1 else 0
  /-- `vfs_biglock_do_i_hold` is right. -/
  holds : ∀ t, (s.threads t).pc = .outside →
    (s.sh.threadHolder = some t ↔ 0 < (s.threads t).nest)
  /-- The lock is acquired at depth 0. -/
  acquires : ∀ t, (s.threads t).pc = .setHeld → s.sh.depth = 0
  /-- The lock is released when the depth has come back to 0. -/
  releases : ∀ t, (s.threads t).pc.unlocking = true →
    s.sh.depth = 0 ∧ s.sh.threadHolder = some t ∧ (s.threads t).nest = 0
  /-- No thread waits for the lock while it holds it. -/
  waits : ∀ t, (s.threads t).pc.waiting = true →
    s.sh.threadHolder ≠ some t ∧ (s.threads t).nest = 0
  /-- The lock was acquired once for every outermost acquire, and released once for every one that
  is over. -/
  once : ∀ t, (s.threads t).pc = .outside → (s.threads t).outer = (s.threads t).taken ∧
    (s.threads t).taken = (s.threads t).given + if (s.threads t).nest = 0 then 0 else 1
  /-- No assertion fails. -/
  asserts : ∀ t, (s.threads t).pc ≠ .panicked

/-! ## The invariant -/

/-- What a thread knows about the lock. -/
inductive Role where
  /-- It does not hold it. -/
  | idle
  /-- It does not hold it, but the spinlock. -/
  | spins
  /-- It has the spinlock, and the lock is free. -/
  | free
  /-- It has set `lock_held`, but not `thread_holder`. -/
  | half
  /-- It holds the lock at depth `n`. -/
  | mine (n : Nat)
  /-- It holds the lock at depth 0, and the spinlock. -/
  | mineSpins
  /-- It has cleared `lock_held`, but not `thread_holder`. -/
  | left

def Role.Fits (sh : Shared τ) (t : τ) : Role → Prop
  | .idle => sh.threadHolder ≠ some t
  | .spins => sh.slock = some t ∧ sh.threadHolder ≠ some t
  | .free => sh.slock = some t ∧ sh.lockHeld = false ∧ sh.threadHolder = none ∧ sh.depth = 0
  | .half => sh.slock = some t ∧ sh.lockHeld = true ∧ sh.threadHolder = none ∧ sh.depth = 0
  | .mine n => sh.lockHeld = true ∧ sh.threadHolder = some t ∧ sh.depth.toNat = n
  | .mineSpins =>
      sh.slock = some t ∧ sh.lockHeld = true ∧ sh.threadHolder = some t ∧ sh.depth = 0
  | .left => sh.slock = some t ∧ sh.lockHeld = false ∧ sh.threadHolder = some t ∧ sh.depth = 0

/-- The thread is the one that the lock is held for. -/
def Role.owns : Role → Bool
  | .half | .mine _ | .mineSpins => true
  | _ => false

def Thread.role (th : Thread) : Role :=
  match th.pc with
  | .outside | .acqTest => if th.nest = 0 then .idle else .mine th.nest
  | .acqDepth | .incRead | .incWrite _ | .relDepth => .mine th.nest
  | .lockSpin | .asleep | .panicked => .idle
  | .lockWhile | .unlockUnspin => .spins
  | .setHeld | .wakeone => .free
  | .setHolder => .half
  | .lockUnspin | .clearHeld => .mineSpins
  | .relTest | .relAssert | .decRead | .decWrite _ => .mine (th.nest + 1)
  | .unlockHeld | .unlockHolder | .unlockSpin => .mine 0
  | .clearHolder => .left

/-- The calls of `lock_acquire` and `lock_release` that are to come. -/
def Thread.Counts (th : Thread) (waiting holding : Nat) : Prop :=
  th.outer = th.taken + waiting ∧ th.taken = th.given + holding

/-- What holds of the thread alone. -/
def Thread.Ok (th : Thread) : Prop :=
  match th.pc with
  | .outside => th.Counts 0 (if th.nest = 0 then 0 else 1)
  | .acqTest => th.nest + 1 < 2 ^ 32 ∧ if th.nest = 0 then th.Counts 1 0 else th.Counts 0 1
  | .acqDepth => th.nest + 1 < 2 ^ 32 ∧ 0 < th.nest ∧ th.Counts 0 1
  | .lockSpin | .lockWhile | .asleep | .setHeld => th.nest = 0 ∧ th.Counts 1 0
  | .setHolder | .lockUnspin => th.nest = 0 ∧ th.Counts 0 1
  | .incRead => th.nest + 1 < 2 ^ 32 ∧ th.Counts 0 1
  | .incWrite d => th.nest + 1 < 2 ^ 32 ∧ th.Counts 0 1 ∧ d.toNat = th.nest
  | .relTest | .relAssert | .decRead | .relDepth => th.Counts 0 1
  | .decWrite d => th.Counts 0 1 ∧ d.toNat = th.nest + 1
  | .unlockHeld | .unlockHolder | .unlockSpin | .clearHeld => th.nest = 0 ∧ th.Counts 0 1
  | .clearHolder | .wakeone | .unlockUnspin => th.nest = 0 ∧ th.Counts 0 0
  | .panicked => False

structure Inv (s : State τ) : Prop where
  ok : ∀ t, (s.threads t).Ok
  fits : ∀ t, (s.threads t).role.Fits s.sh t
  free : s.sh.lockHeld = false → s.sh.depth = 0 ∧ ∀ t, s.sh.threadHolder = some t →
    s.sh.slock = some t
  owner : s.sh.lockHeld = true → ∃ t, (s.threads t).role.owns = true

/-! What a thread does to the lock, as the other threads see it. -/

section Others

variable {sh : Shared τ} {t u : τ} {r : Role}

theorem Role.Fits.lockSlock (h : r.Fits sh u) (ht : sh.slock = none) :
    r.Fits { sh with slock := some t } u := by
  cases r <;> simp_all [Role.Fits]

theorem Role.Fits.unlockSlock (h : r.Fits sh u) (hu : u ≠ t) (ht : sh.slock = some t) :
    r.Fits { sh with slock := none } u := by
  cases r <;> simp_all [Role.Fits]

theorem Role.Fits.setHeld (h : r.Fits sh u) (hu : u ≠ t) (ht : sh.slock = some t)
    (hfree : sh.threadHolder = none) : r.Fits { sh with lockHeld := true } u := by
  cases r <;> simp_all [Role.Fits]

theorem Role.Fits.setHolder (h : r.Fits sh u) (hu : u ≠ t) (ht : sh.slock = some t)
    (hfree : sh.threadHolder = none) : r.Fits { sh with threadHolder := some t } u := by
  have hu' : t ≠ u := hu.symm
  cases r <;> simp_all [Role.Fits]

theorem Role.Fits.setDepth (h : r.Fits sh u) (hu : u ≠ t) (ht : sh.threadHolder = some t)
    (hheld : sh.lockHeld = true) (d : UInt32) : r.Fits { sh with depth := d } u := by
  cases r <;> simp_all [Role.Fits]

theorem Role.Fits.clearHeld (h : r.Fits sh u) (hu : u ≠ t) (ht : sh.slock = some t)
    (hholder : sh.threadHolder = some t) : r.Fits { sh with lockHeld := false } u := by
  cases r <;> simp_all [Role.Fits]

theorem Role.Fits.clearHolder (h : r.Fits sh u) (hu : u ≠ t) (ht : sh.slock = some t)
    (hholder : sh.threadHolder = some t) : r.Fits { sh with threadHolder := none } u := by
  cases r <;> simp_all [Role.Fits]

end Others

section Steps

variable [DecidableEq τ] {s s' : State τ} {t : τ} {sh : Shared τ} {th : Thread} {pc : Pc}

/-- The thread `t` becomes `th`, and the lock `sh`. -/
theorem Inv.put (h : Inv s) (hok : th.Ok) (hfits : th.role.Fits sh t)
    (hothers : ∀ u, u ≠ t → ∀ r : Role, r.Fits s.sh u → r.Fits sh u)
    (hfree : sh.lockHeld = false → sh.depth = 0 ∧ ∀ u, sh.threadHolder = some u →
      sh.slock = some u)
    (howner : sh.lockHeld = true →
      th.role.owns = true ∨ s.sh.lockHeld = true ∧ (s.threads t).role.owns = false) :
    Inv ⟨sh, Function.update s.threads t th⟩ where
  ok u := by
    dsimp only
    by_cases hu : u = t
    · subst hu
      rw [Function.update_self]
      exact hok
    · rw [Function.update_of_ne hu]
      exact h.ok u
  fits u := by
    dsimp only
    by_cases hu : u = t
    · subst hu
      rw [Function.update_self]
      exact hfits
    · rw [Function.update_of_ne hu]
      exact hothers u hu _ (h.fits u)
  free := hfree
  owner hheld := by
    dsimp only
    rcases howner hheld with hown | ⟨hbefore, hnot⟩
    · exact ⟨t, by rw [Function.update_self]; exact hown⟩
    · obtain ⟨u, hu⟩ := h.owner hbefore
      have hne : u ≠ t := by
        rintro rfl
        rw [hnot] at hu
        cases hu
      exact ⟨u, by rw [Function.update_of_ne hne]; exact hu⟩

/-- A step that leaves the lock alone, and what the thread knows about it. -/
theorem Inv.goto (h : Inv s) (hok : th.Ok) (hfits : th.role.Fits s.sh t)
    (hown : (s.threads t).role.owns = true → th.role.owns = true) :
    Inv ⟨s.sh, Function.update s.threads t th⟩ := by
  refine h.put hok hfits (fun _ _ _ hr => hr) h.free fun hheld => ?_
  cases hbefore : (s.threads t).role.owns with
  | true => exact .inl (hown hbefore)
  | false => exact .inr ⟨hheld, rfl⟩

/-- Every statement keeps the invariant. -/
theorem Inv.next (h : Inv s) (hnext : next s.sh t (s.threads t) = some (sh, th)) :
    Inv ⟨sh, Function.update s.threads t th⟩ := by
  have hok := h.ok t
  have hfits := h.fits t
  have hgoto := @Inv.goto τ _ s t th h
  have hput := @Inv.put τ _ s t sh th h
  generalize s.threads t = x at hok hfits hnext hgoto hput
  obtain ⟨pc, nest, outer, taken, given⟩ := x
  cases pc with
  | outside => cases hnext
  | asleep => cases hnext
  | wakeone => cases hnext
  | panicked => cases hok
  | acqTest =>
      cases hnext
      obtain ⟨hsmall, hcounts⟩ := hok
      -- the thread goes on to wait for the lock exactly when it does not hold it
      rcases Nat.eq_zero_or_pos nest with rfl | hpos
      · have hnot : lockDoIHold s.sh t = false := decide_eq_false hfits
        rw [hnot] at hgoto ⊢
        exact hgoto ⟨rfl, hcounts⟩ hfits nofun
      · simp only [Thread.role, if_neg hpos.ne'] at hfits hcounts
        have hmine : lockDoIHold s.sh t = true := decide_eq_true hfits.2.1
        rw [hmine] at hgoto ⊢
        exact hgoto ⟨hsmall, hpos, hcounts⟩ hfits fun _ => rfl
  | acqDepth =>
      cases hnext
      obtain ⟨hsmall, hpos, hcounts⟩ := hok
      have hne : s.sh.depth ≠ 0 := by
        intro e
        have hdepth := hfits.2.2
        rw [e] at hdepth
        exact hpos.ne hdepth
      rw [if_neg hne] at hgoto ⊢
      exact hgoto ⟨hsmall, hcounts⟩ hfits fun _ => rfl
  | lockSpin =>
      simp only [Biglock.next] at hnext
      split_ifs at hnext with hslock
      cases hnext
      refine hput hok ⟨rfl, hfits⟩ (fun u _ r hr => hr.lockSlock hslock) (fun hheld => ?_)
        fun hheld => .inr ⟨hheld, rfl⟩
      refine ⟨(h.free hheld).1, fun u hu => ?_⟩
      rw [(h.free hheld).2 u hu] at hslock
      cases hslock
  | lockWhile =>
      simp only [Biglock.next] at hnext
      split_ifs at hnext with hheld <;> cases hnext
      · refine hput hok hfits.2 (fun u hu r hr => hr.unlockSlock hu hfits.1) (fun hnot => ?_)
          fun _ => .inr ⟨hheld, rfl⟩
        rw [hheld] at hnot
        cases hnot
      · have hfree : s.sh.lockHeld = false := Bool.eq_false_iff.2 hheld
        have hnone : s.sh.threadHolder = none := by
          -- another holder would have the spinlock
          cases hholder : s.sh.threadHolder with
          | none => rfl
          | some u =>
              have hu := (h.free hfree).2 u hholder
              rw [hfits.1] at hu
              rw [← hholder] at hu
              exact (hfits.2 hu.symm).elim
        exact hgoto hok ⟨hfits.1, hfree, hnone, (h.free hfree).1⟩ nofun
  | setHeld =>
      cases hnext
      obtain ⟨hslock, hheld, hholder, hdepth⟩ := hfits
      obtain ⟨hnest, houter, htaken⟩ := hok
      refine hput ⟨hnest, ?_, ?_⟩ ⟨hslock, rfl, hholder, hdepth⟩
        (fun u hu r hr => hr.setHeld hu hslock hholder) nofun fun _ => .inl rfl
      · exact houter
      · exact congrArg (· + 1) htaken
  | setHolder =>
      obtain ⟨hslock, hheld, hholder, hdepth⟩ := hfits
      simp only [Biglock.next] at hnext
      rw [if_pos hheld] at hnext
      cases hnext
      exact hput hok ⟨hslock, hheld, rfl, hdepth⟩
        (fun u hu r hr => hr.setHolder hu hslock hholder)
        (fun hnot => nomatch hheld.symm.trans hnot) fun _ => .inl rfl
  | lockUnspin =>
      obtain ⟨hslock, hheld, hholder, hdepth⟩ := hfits
      obtain ⟨rfl, hcounts⟩ := hok
      have hne : s.sh.threadHolder ≠ none := by
        rw [hholder]
        exact Option.some_ne_none t
      have hsmall : 0 + 1 < 2 ^ 32 := by decide
      simp only [Biglock.next] at hnext
      rw [if_pos hne] at hnext
      cases hnext
      refine hput ⟨hsmall, hcounts⟩ ⟨hheld, hholder, ?_⟩
        (fun u hu r hr => hr.unlockSlock hu hslock)
        (fun hnot => nomatch hheld.symm.trans hnot) fun _ => .inl rfl
      exact congrArg UInt32.toNat hdepth
  | incRead =>
      cases hnext
      exact hgoto ⟨hok.1, hok.2, hfits.2.2⟩ hfits fun _ => rfl
  | incWrite d =>
      cases hnext
      obtain ⟨hsmall, hcounts, hd⟩ := hok
      obtain ⟨hheld, hholder, hdepth⟩ := hfits
      refine hput hcounts ⟨hheld, hholder, ?_⟩ (fun u hu r hr => hr.setDepth hu hholder hheld _)
        (fun hnot => nomatch hheld.symm.trans hnot) fun _ => .inl rfl
      change (d + 1).toNat = nest + 1
      rw [UInt32.toNat_add, hd]
      exact Nat.mod_eq_of_lt hsmall
  | relTest =>
      cases hnext
      have hmine : lockDoIHold s.sh t = true := decide_eq_true hfits.2.1
      rw [hmine] at hgoto ⊢
      exact hgoto hok hfits fun _ => rfl
  | relAssert =>
      cases hnext
      have hpos : s.sh.depth > 0 := by
        rw [gt_iff_lt, UInt32.lt_iff_toNat_lt, hfits.2.2]
        exact Nat.succ_pos nest
      rw [if_pos hpos] at hgoto ⊢
      exact hgoto hok hfits fun _ => rfl
  | decRead =>
      cases hnext
      exact hgoto ⟨hok, hfits.2.2⟩ hfits fun _ => rfl
  | decWrite d =>
      cases hnext
      obtain ⟨hcounts, hd⟩ := hok
      obtain ⟨hheld, hholder, hdepth⟩ := hfits
      refine hput hcounts ⟨hheld, hholder, ?_⟩ (fun u hu r hr => hr.setDepth hu hholder hheld _)
        (fun hnot => nomatch hheld.symm.trans hnot) fun _ => .inl rfl
      change (d - 1).toNat = nest
      have hle : 1 ≤ d := by
        rw [UInt32.le_iff_toNat_le, hd]
        exact Nat.le_add_left 1 nest
      rw [UInt32.toNat_sub_of_le _ _ hle, hd]
      rfl
  | relDepth =>
      cases hnext
      obtain ⟨hheld, hholder, hdepth⟩ := hfits
      by_cases hzero : s.sh.depth = 0
      · rw [if_pos hzero] at hgoto ⊢
        have hnest : nest = 0 := by
          rw [hzero] at hdepth
          exact hdepth.symm
        subst hnest
        exact hgoto ⟨rfl, hok⟩ ⟨hheld, hholder, hdepth⟩ fun _ => rfl
      · rw [if_neg hzero] at hgoto ⊢
        have hnest : nest ≠ 0 := by
          rintro rfl
          exact hzero (UInt32.toNat_inj.1 hdepth)
        refine hgoto ?_ ?_ fun _ => ?_
        · change Thread.Counts _ 0 (if nest = 0 then 0 else 1)
          rw [if_neg hnest]
          exact hok
        · change Role.Fits s.sh t (if nest = 0 then .idle else .mine nest)
          rw [if_neg hnest]
          exact ⟨hheld, hholder, hdepth⟩
        · change Role.owns (if nest = 0 then .idle else .mine nest) = true
          rw [if_neg hnest]
          rfl
  | unlockHeld =>
      cases hnext
      rw [if_pos hfits.1] at hgoto ⊢
      exact hgoto hok hfits fun _ => rfl
  | unlockHolder =>
      cases hnext
      have hmine : lockDoIHold s.sh t = true := decide_eq_true hfits.2.1
      rw [hmine] at hgoto ⊢
      exact hgoto hok hfits fun _ => rfl
  | unlockSpin =>
      simp only [Biglock.next] at hnext
      split_ifs at hnext with hslock
      cases hnext
      obtain ⟨hheld, hholder, hdepth⟩ := hfits
      exact hput hok ⟨rfl, hheld, hholder, UInt32.toNat_inj.1 hdepth⟩
        (fun u _ r hr => hr.lockSlock hslock) (fun hnot => nomatch hheld.symm.trans hnot)
        fun _ => .inl rfl
  | clearHeld =>
      cases hnext
      obtain ⟨hslock, hheld, hholder, hdepth⟩ := hfits
      obtain ⟨hnest, houter, htaken⟩ := hok
      refine hput ⟨hnest, houter, htaken⟩ ⟨hslock, rfl, hholder, hdepth⟩
        (fun u hu r hr => hr.clearHeld hu hslock hholder) (fun _ => ⟨hdepth, fun u hu => ?_⟩) nofun
      exact hslock.trans (hholder.symm.trans hu)
  | clearHolder =>
      cases hnext
      obtain ⟨hslock, hheld, hholder, hdepth⟩ := hfits
      exact hput hok ⟨hslock, hheld, rfl, hdepth⟩
        (fun u hu r hr => hr.clearHolder hu hslock hholder) (fun _ => ⟨hdepth, nofun⟩)
        (fun hnot => nomatch hheld.symm.trans hnot)
  | unlockUnspin =>
      cases hnext
      obtain ⟨hslock, hholder⟩ := hfits
      obtain ⟨rfl, hcounts⟩ := hok
      refine hput hcounts hholder (fun u hu r hr => hr.unlockSlock hu hslock) (fun hheld => ?_)
        fun hheld => .inr ⟨hheld, rfl⟩
      refine ⟨(h.free hheld).1, fun u hu => ?_⟩
      have hu' := (h.free hheld).2 u hu
      rw [hslock, ← hu] at hu'
      exact (hholder hu'.symm).elim

/-- The call of `vfs_biglock_acquire` by a thread that has not nested `2 ^ 32 - 1` calls. -/
theorem Inv.acquire (h : Inv s) (hpc : (s.threads t).pc = .outside)
    (hsmall : (s.threads t).nest + 1 < 2 ^ 32) : Inv (s.put t (s.threads t).callAcquire) := by
  have hok := h.ok t
  have hfits := h.fits t
  have hgoto := @Inv.goto τ _ s t (s.threads t).callAcquire h
  rw [State.put]
  generalize s.threads t = x at hok hfits hpc hsmall hgoto ⊢
  obtain ⟨pc, nest, outer, taken, given⟩ := x
  subst hpc
  refine hgoto ?_ hfits fun hown => hown
  rcases Nat.eq_zero_or_pos nest with rfl | hpos
  · exact ⟨hsmall, congrArg (· + 1) hok.1, hok.2⟩
  · simp only [Thread.Ok, if_neg hpos.ne'] at hok
    refine ⟨hsmall, ?_⟩
    simp only [Thread.callAcquire, if_neg hpos.ne']
    exact hok

theorem Inv.release (h : Inv s) (hpc : (s.threads t).pc = .outside)
    (hnest : 0 < (s.threads t).nest) : Inv (s.put t (s.threads t).callRelease) := by
  have hok := h.ok t
  have hfits := h.fits t
  have hgoto := @Inv.goto τ _ s t (s.threads t).callRelease h
  rw [State.put]
  generalize s.threads t = x at hok hfits hpc hnest hgoto ⊢
  obtain ⟨pc, nest, outer, taken, given⟩ := x
  subst hpc
  obtain ⟨n, rfl⟩ := Nat.exists_eq_add_one_of_ne_zero (Nat.pos_iff_ne_zero.1 hnest)
  exact hgoto hok hfits fun _ => rfl

/-- A thread is taken off the wait channel. -/
theorem Inv.awake (h : Inv s) (hpc : (s.threads t).pc = .asleep) :
    Inv (s.put t ((s.threads t).goto .lockSpin)) := by
  have hok := h.ok t
  have hfits := h.fits t
  have hgoto := @Inv.goto τ _ s t ((s.threads t).goto .lockSpin) h
  rw [State.put]
  generalize s.threads t = x at hok hfits hpc hgoto ⊢
  obtain ⟨pc, nest, outer, taken, given⟩ := x
  subst hpc
  exact hgoto hok hfits nofun

theorem Inv.woken (h : Inv s) (hpc : (s.threads t).pc = .wakeone) :
    Inv (s.put t ((s.threads t).goto .unlockUnspin)) := by
  have hok := h.ok t
  have hfits := h.fits t
  have hgoto := @Inv.goto τ _ s t ((s.threads t).goto .unlockUnspin) h
  rw [State.put]
  generalize s.threads t = x at hok hfits hpc hgoto ⊢
  obtain ⟨pc, nest, outer, taken, given⟩ := x
  subst hpc
  obtain ⟨hslock, -, hholder, -⟩ := hfits
  refine hgoto hok ⟨hslock, ?_⟩ nofun
  rw [hholder]
  exact (Option.some_ne_none t).symm

/-- No thread nests `2 ^ 32` calls of `vfs_biglock_acquire`. -/
def Shallow (s : State τ) : Action τ → Prop
  | .acquire t => (s.threads t).nest + 1 < 2 ^ 32
  | _ => True

theorem Inv.step {a : Action τ} (h : Inv s) (hok : Shallow s a) (hstep : Step s a s') :
    Inv s' := by
  cases hstep with
  | acquire hpc => exact h.acquire hpc hok
  | release hpc hnest => exact h.release hpc hnest
  | run hnext => exact h.next hnext
  | @wakesOne t u hpc hu =>
      have hne : t ≠ u := by
        rintro rfl
        rw [hpc] at hu
        cases hu
      have hsame : (s.put u ((s.threads u).goto .lockSpin)).threads t = s.threads t :=
        Function.update_of_ne hne _ _
      have hwoken := (h.awake hu).woken (t := t)
      rw [hsame] at hwoken
      exact hwoken hpc
  | wakesNone hpc _ => exact h.woken hpc

omit [DecidableEq τ] in
theorem inv_bootstrap : Inv (bootstrap : State τ) where
  ok _ := ⟨rfl, rfl⟩
  fits t := (Option.some_ne_none t).symm
  free _ := ⟨rfl, nofun⟩
  owner := nofun

/-- Run lemma. -/
theorem inv_of_reach (h : Reach Step Shallow bootstrap s) : Inv s :=
  h.invariant (fun _ _ _ hinv hok hstep => hinv.step hok hstep) inv_bootstrap

end Steps

section Promises

variable {s : State τ} {sh : Shared τ} {t : τ} {th : Thread}

/-- A thread that owns the lock at depth 0 is inside the outermost call. -/
theorem changing_of_owns (hok : th.Ok) (hfits : th.role.Fits sh t) (hown : th.role.owns = true)
    (hzero : sh.depth = 0) : th.pc.changing = true ∧ th.nest = 0 := by
  obtain ⟨pc, nest, outer, taken, given⟩ := th
  have hn : ∀ n, sh.depth.toNat = n → n = 0 := by
    intro n e
    rw [← e, hzero]
    rfl
  cases pc with
  | outside | acqTest =>
      by_cases hnest : nest = 0
      · simp only [Thread.role, if_pos hnest] at hown
        cases hown
      · simp only [Thread.role, if_neg hnest] at hfits
        exact (hnest (hn _ hfits.2.2)).elim
  | acqDepth => exact (hok.2.1.ne' (hn _ hfits.2.2)).elim
  | incRead | incWrite d | relDepth => exact ⟨rfl, hn _ hfits.2.2⟩
  | relTest | relAssert | decRead | decWrite d => cases hn _ hfits.2.2
  | setHolder | lockUnspin | unlockHeld | unlockHolder | unlockSpin | clearHeld =>
      exact ⟨rfl, hok.1⟩
  | lockSpin | lockWhile | asleep | setHeld | clearHolder | wakeone | unlockUnspin | panicked =>
      cases hown

/-- The depth, as the holder knows it. -/
theorem depth_of_holder (hok : th.Ok) (hfits : th.role.Fits sh t)
    (hholder : sh.threadHolder = some t) :
    sh.depth.toNat = th.nest + if th.pc.releasing then 1 else 0 := by
  obtain ⟨pc, nest, outer, taken, given⟩ := th
  have hzero : sh.depth = 0 → sh.depth.toNat = 0 := congrArg UInt32.toNat
  cases pc with
  | outside | acqTest =>
      by_cases hnest : nest = 0
      · simp only [Thread.role, if_pos hnest] at hfits
        exact (hfits hholder).elim
      · simp only [Thread.role, if_neg hnest] at hfits
        exact hfits.2.2
  | acqDepth | incRead | incWrite d | relDepth => exact hfits.2.2
  | relTest | relAssert | decRead | decWrite d => exact hfits.2.2
  | setHolder | setHeld | wakeone => cases hfits.2.2.1.symm.trans hholder
  | unlockHeld | unlockHolder | unlockSpin => rw [hfits.2.2, hok.1]; rfl
  | lockUnspin | clearHeld | clearHolder => rw [hzero hfits.2.2.2, hok.1]; rfl
  | lockSpin | asleep => exact (hfits hholder).elim
  | lockWhile | unlockUnspin => exact (hfits.2 hholder).elim
  | panicked => cases hok

theorem Inv.recursive (h : Inv s) : Recursive s where
  held hpos := by
    cases hheld : s.sh.lockHeld with
    | true => rfl
    | false =>
        rw [(h.free hheld).1] at hpos
        cases hpos
  positive hheld := by
    obtain ⟨t, ht⟩ := h.owner hheld
    by_cases hzero : s.sh.depth = 0
    · exact .inr ⟨t, changing_of_owns (h.ok t) (h.fits t) ht hzero⟩
    · exact .inl (UInt32.pos_iff_ne_zero.2 hzero)
  depth t hholder := depth_of_holder (h.ok t) (h.fits t) hholder
  holds t hpc := by
    have hfits := h.fits t
    simp only [Thread.role, hpc] at hfits
    split_ifs at hfits with hnest
    · exact ⟨fun hholder => (hfits hholder).elim, fun hpos => (hpos.ne' hnest).elim⟩
    · exact ⟨fun _ => Nat.pos_of_ne_zero hnest, fun _ => hfits.2.1⟩
  acquires t hpc := by
    have hfits := h.fits t
    simp only [Thread.role, hpc] at hfits
    exact hfits.2.2.2
  releases t hpc := by
    have hok := h.ok t
    have hfits := h.fits t
    generalize s.threads t = x at hok hfits hpc ⊢
    obtain ⟨pc, nest, outer, taken, given⟩ := x
    cases pc with
    | unlockHeld | unlockHolder | unlockSpin =>
        exact ⟨UInt32.toNat_inj.1 hfits.2.2, hfits.2.1, hok.1⟩
    | clearHeld => exact ⟨hfits.2.2.2, hfits.2.2.1, hok.1⟩
    | _ => cases hpc
  waits t hpc := by
    have hok := h.ok t
    have hfits := h.fits t
    generalize s.threads t = x at hok hfits hpc ⊢
    obtain ⟨pc, nest, outer, taken, given⟩ := x
    cases pc with
    | lockSpin | asleep => exact ⟨hfits, hok.1⟩
    | lockWhile => exact ⟨hfits.2, hok.1⟩
    | _ => cases hpc
  once t hpc := by
    have hok := h.ok t
    simp only [Thread.Ok, hpc] at hok
    exact hok
  asserts t hpc := by
    have hok := h.ok t
    simp only [Thread.Ok, hpc] at hok

end Promises

/-- As long as no thread nests `2 ^ 32` calls of `vfs_biglock_acquire`, the lock is recursive in
every state. -/
theorem biglock_recursive {τ : Type} [DecidableEq τ] {s : State τ}
    (h : Reach Step Shallow bootstrap s) : Recursive s :=
  (inv_of_reach h).recursive

/-! ## One thread that nests its calls -/

section Nested

/-- One thread. -/
def single (x : Shared Unit × Thread) : State Unit := ⟨x.1, fun _ => x.2⟩

theorem update_single (x : Shared Unit × Thread) (th : Thread) :
    Function.update (single x).threads () th = fun _ => th := by
  funext u
  cases u
  rw [Function.update_self]

/-- `n` statements of the thread. -/
def steps : Nat → Shared Unit × Thread → Option (Shared Unit × Thread)
  | 0, x => some x
  | n + 1, x => (next x.1 () x.2).bind (steps n)

theorem reach_steps {ok : State Unit → Action Unit → Prop} (hok : ∀ s t, ok s (.run t)) {n : Nat} :
    ∀ {x y : Shared Unit × Thread}, Reach Step ok bootstrap (single x) → steps n x = some y →
      Reach Step ok bootstrap (single y) := by
  induction n with
  | zero =>
      intro x y h hxy
      cases hxy
      exact h
  | succ n ih =>
      intro x y h hxy
      obtain ⟨⟨sh, th⟩, hnext, hrest⟩ := Option.bind_eq_some_iff.1 hxy
      have hstep := Step.run (s := single x) (t := ()) hnext
      rw [update_single] at hstep
      exact ih (h.tail (hok _ _) hstep) hrest

/-- The thread holds the lock after `k` calls of `vfs_biglock_acquire`. -/
def nested (k : Nat) : Shared Unit × Thread :=
  (⟨none, true, some (), UInt32.ofNat k⟩, ⟨.outside, k, 1, 1, 0⟩)

theorem reach_acquire {ok : State Unit → Action Unit → Prop} {x : Shared Unit × Thread}
    (h : Reach Step ok bootstrap (single x)) (hpc : x.2.pc = .outside)
    (hok : ok (single x) (.acquire ())) :
    Reach Step ok bootstrap (single (x.1, x.2.callAcquire)) := by
  have hstep := Step.acquire (s := single x) (t := ()) hpc
  rw [State.put, update_single] at hstep
  exact h.tail hok hstep

theorem reach_nested_one : Reach Step Shallow bootstrap (single (nested 1)) := by
  have hstart : Reach Step Shallow bootstrap
      (single (⟨none, false, none, 0⟩, ⟨.outside, 0, 0, 0, 0⟩)) := .refl
  have hcall := reach_acquire hstart rfl (by decide : 0 + 1 < 2 ^ 32)
  exact reach_steps (n := 8) (fun _ _ => trivial) hcall (by decide)

theorem reach_nested_succ {ok : State Unit → Action Unit → Prop} (hok : ∀ s t, ok s (.run t))
    {k : Nat} (h : Reach Step ok bootstrap (single (nested k))) (hk : UInt32.ofNat k ≠ 0)
    (hpos : k ≠ 0) (hacquire : ok (single (nested k)) (.acquire ())) :
    Reach Step ok bootstrap (single (nested (k + 1))) := by
  have hcall := reach_acquire h rfl hacquire
  refine reach_steps (n := 4) hok hcall ?_
  have hadd : UInt32.ofNat k + 1 = UInt32.ofNat (k + 1) := (UInt32.ofNat_add k 1).symm
  simp only [steps, next, nested, lockDoIHold, Thread.callAcquire, Thread.goto, decide_true, hk,
    hpos, hadd, if_true, if_false, Option.bind_some]

/-- Every nesting depth can be reached. -/
theorem reach_nested {k : Nat} (hk : k + 1 < 2 ^ 32) :
    Reach Step Shallow bootstrap (single (nested (k + 1))) := by
  induction k with
  | zero => exact reach_nested_one
  | succ k ih =>
      have hlt : k + 1 < 2 ^ 32 := Nat.lt_of_succ_lt hk
      refine reach_nested_succ (fun _ _ => trivial) (ih hlt) ?_ (Nat.succ_ne_zero k) hk
      intro e
      have htoNat := congrArg UInt32.toNat e
      rw [UInt32.toNat_ofNat', Nat.mod_eq_of_lt hlt] at htoNat
      exact Nat.succ_ne_zero k htoNat

/-- The lock is held after three nested calls. -/
theorem biglock_recursive_nested : Recursive (single (nested 3)) :=
  biglock_recursive (reach_nested (by decide))

/-- After `2 ^ 32` nested calls the lock is held, and the depth is 0. -/
theorem biglock_recursive_fails :
    ¬ ∀ s : State Unit, Reach Step anyStep bootstrap s → Recursive s := by
  intro hall
  have hlast : Reach Step anyStep bootstrap (single (nested (2 ^ 32 - 2 + 1))) :=
    (reach_nested (by decide)).mono fun _ _ _ => trivial
  have hne : UInt32.ofNat (2 ^ 32 - 2 + 1) ≠ 0 := by decide
  have hover := reach_nested_succ (fun _ _ => trivial) hlast hne (by decide) trivial
  have hzero : (single (nested (2 ^ 32 - 2 + 1 + 1))).sh.depth = 0 := by decide
  rcases (hall _ hover).positive rfl with hpos | ⟨t, hchanging, -⟩
  · rw [hzero] at hpos
    cases hpos
  · cases hchanging

end Nested

end Os161.Vfs.Biglock

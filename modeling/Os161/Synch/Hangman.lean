import Os161.Lib.Chains
import Os161.Synch.Lock

set_option autoImplicit false

/-!
# The deadlock detector

`hangman_wait`, `hangman_acquire` and `hangman_release` of `kern/thread/hangman.c`, and the calls of
them that `lock_acquire` and `lock_release` of os161-dvz-main make, for any number of threads and
locks. Each of the three functions runs under `hangman_lock` and is one step. In `lock_acquire` and
`lock_release` every statement that other threads can see is a step of its own; the spinlocks and the
wait channels of the locks are locks and queues of `Lib.Monitor`. A call that panics has no step.

Between `lock_held = true` and `hangman_acquire`, and between `hangman_release` and
`lock_held = false`, the detector does not know the holder of a lock. `Tracks` says that this is all
it does not know, so that it finds exactly the deadlocks.
-/

namespace Os161.Synch.Hangman

open Os161.Lib.Chains
open Os161.Lib.Monitor
open Os161.Lib.Runs

/-- The detector panics. -/
inductive Panic where
  /-- "Deadlock." -/
  | deadlock
  /-- "hangman_wait: already waiting for something?" -/
  | alreadyWaiting
  /-- "hangman_acquire: not waiting for lock". -/
  | notWaiting
  /-- "hangman_acquire: lock still held". -/
  | stillHeld
  /-- "hangman_release: waiting for something?" -/
  | waiting
  /-- "hangman_release: not the holder". -/
  | notHolder
  deriving DecidableEq, Repr

/-- `a_waiting` of the `struct hangman_actor`s, and `l_holding` of the `struct hangman_lockable`s. -/
structure Graph (τ L : Type) where
  waiting : τ → Option L
  holding : L → Option τ

section Detector

variable {τ L : Type} [DecidableEq τ] [DecidableEq L]

/-- The graph of the lock `ℓ`, when every actor is initialised and no lock is held. -/
def Graph.init (τ L : Type) : Graph τ L := { waiting := fun _ => none, holding := fun _ => none }

/-- The waits-for graph: from an actor to what it waits for, from a lockable to its holder. -/
def Graph.next (g : Graph τ L) : τ ⊕ L → Option (τ ⊕ L)
  | .inl a => (g.waiting a).map .inr
  | .inr l => (g.holding l).map .inl

/-- `a` begins to wait for `l`. -/
def Graph.wait (g : Graph τ L) (a : τ) (l : L) : Graph τ L :=
  { g with waiting := Function.update g.waiting a (some l) }

/-- `a` takes `l`. -/
def Graph.acquire (g : Graph τ L) (a : τ) (l : L) : Graph τ L :=
  { waiting := Function.update g.waiting a none
    holding := Function.update g.holding l (some a) }

/-- Nobody holds `l` any more. -/
def Graph.release (g : Graph τ L) (l : L) : Graph τ L :=
  { g with holding := Function.update g.holding l none }

/-- `hangman_check` from `cur` on, in at most `fuel` turns of its loop: whether `target` is found. -/
def hangmanCheck (g : Graph τ L) (target : τ) : Nat → Option τ → Option Bool
  | 0, _ => none
  | _ + 1, none => some false
  | fuel + 1, some cur =>
      if cur = target then some true
      else
        match g.waiting cur with
        | none => some false
        | some l => hangmanCheck g target fuel (g.holding l)

/-- `hangman_wait`. -/
def hangmanWait (g : Graph τ L) (fuel : Nat) (a : τ) (l : L) : Option (Except Panic (Graph τ L)) :=
  if g.waiting a ≠ none then some (.error .alreadyWaiting)
  else
    match hangmanCheck g a fuel (g.holding l) with
    | none => none
    | some true => some (.error .deadlock)
    | some false => some (.ok (g.wait a l))

/-- `hangman_acquire`. -/
def hangmanAcquire (g : Graph τ L) (a : τ) (l : L) : Except Panic (Graph τ L) :=
  if g.waiting a ≠ some l then .error .notWaiting
  else if g.holding l ≠ none then .error .stillHeld
  else .ok (g.acquire a l)

/-- `hangman_release`. -/
def hangmanRelease (g : Graph τ L) (a : τ) (l : L) : Except Panic (Graph τ L) :=
  if g.waiting a ≠ none then .error .waiting
  else if g.holding l ≠ some a then .error .notHolder
  else .ok (g.release l)

/-! ## The graph -/

variable {g : Graph τ L} {a : τ} {l : L}

omit [DecidableEq τ] [DecidableEq L] in
theorem ends_init : Ends (Graph.init τ L).next := by
  have hnext : (Graph.init τ L).next = fun _ => none := by
    funext x
    cases x <;> rfl
  rw [hnext]
  exact ends_empty

theorem next_waiting (o : Option L) :
    { g with waiting := Function.update g.waiting a o : Graph τ L }.next =
      Function.update g.next (.inl a) (o.map .inr) := by
  funext x
  cases x with
  | inl b => by_cases hb : b = a <;> simp [Graph.next, hb]
  | inr m => simp [Graph.next]

theorem next_holding (o : Option τ) :
    { g with holding := Function.update g.holding l o : Graph τ L }.next =
      Function.update g.next (.inr l) (o.map .inl) := by
  funext x
  cases x with
  | inl b => simp [Graph.next]
  | inr m => by_cases hm : m = l <;> simp [Graph.next, hm]

/-- A wait that closes no cycle. -/
theorem ends_wait (h : Ends g.next)
    (hback : ¬ Relation.ReflTransGen (Link g.next) (.inr l) (.inl a)) : Ends (g.wait a l).next := by
  rw [Graph.wait, next_waiting]
  exact h.link hback

/-- Whoever takes a lock waits for nothing, and is the end of every chain to it. -/
theorem ends_acquire (h : Ends g.next) : Ends (g.acquire a l).next := by
  have hcut : Ends { g with waiting := Function.update g.waiting a none : Graph τ L }.next := by
    rw [next_waiting]
    exact h.cut _
  change Ends (Graph.next { waiting := Function.update g.waiting a none, holding := _ })
  rw [next_holding (g := { g with waiting := Function.update g.waiting a none })]
  refine hcut.link fun hback => ?_
  rcases Relation.ReflTransGen.cases_head hback with he | ⟨x, hx, -⟩
  · cases he
  · simp [Link, Graph.next] at hx

theorem ends_release (h : Ends g.next) : Ends (g.release l).next := by
  rw [Graph.release, next_holding]
  exact h.cut _

/-! ## The walk -/

omit [DecidableEq L] in
/-- The walk comes to its end. -/
theorem check_ends (h : Ends g.next) (target : τ) (x : τ ⊕ L) :
    ∃ fuel found, hangmanCheck g target fuel (x.elim some g.holding) = some found := by
  induction h x with
  | intro x _ ih =>
    cases x with
    | inl cur =>
      by_cases hcur : cur = target
      · exact ⟨1, true, by simp [hangmanCheck, hcur]⟩
      · cases hwait : g.waiting cur with
        | none => exact ⟨1, false, by simp [hangmanCheck, hcur, hwait]⟩
        | some m =>
          obtain ⟨fuel, found, hrest⟩ := ih (.inr m) (by simp [Link, Graph.next, hwait])
          exact ⟨fuel + 1, found, by simpa [hangmanCheck, hcur, hwait] using hrest⟩
    | inr m =>
      cases hhold : g.holding m with
      | none => exact ⟨1, false, by simp [hangmanCheck, hhold]⟩
      | some b =>
        obtain ⟨fuel, found, hrest⟩ := ih (.inl b) (by simp [Link, Graph.next, hhold])
        exact ⟨fuel, found, by simpa [hhold] using hrest⟩

omit [DecidableEq L] in
/-- The walk finds its target exactly when the lock leads to it. -/
theorem check_finds (target : τ) : ∀ (fuel : Nat) (m : L) {found : Bool},
    hangmanCheck g target fuel (g.holding m) = some found →
      (found = true ↔ Relation.ReflTransGen (Link g.next) (.inr m) (.inl target))
  | 0, _, _, h => nomatch h
  | fuel + 1, m, found, h => by
      rw [Relation.ReflTransGen.cases_head_iff]
      cases hhold : g.holding m with
      | none =>
        rw [hhold] at h
        cases h
        simp [Link, Graph.next, hhold]
      | some cur =>
        have hstep : ∀ y, Link g.next (.inr m) y ↔ y = .inl cur := by
          simp [Link, Graph.next, hhold, eq_comm]
        simp only [hstep, reduceCtorEq, false_or, exists_eq_left]
        rw [hhold, hangmanCheck] at h
        by_cases hcur : cur = target
        · rw [if_pos hcur] at h
          cases h
          rw [hcur]
          exact iff_of_true rfl .refl
        · rw [if_neg hcur] at h
          rw [Relation.ReflTransGen.cases_head_iff]
          cases hwait : g.waiting cur with
          | none =>
            rw [hwait] at h
            cases h
            simp [Link, Graph.next, hwait, hcur]
          | some m' =>
            rw [hwait] at h
            have hstep' : ∀ y, Link g.next (.inl cur) y ↔ y = .inr m' := by
              simp [Link, Graph.next, hwait, eq_comm]
            simp only [hstep', Sum.inl.injEq, hcur, false_or, exists_eq_left]
            exact check_finds target fuel m' h

omit [DecidableEq L] in
/-- `hangman_wait` comes to its end. -/
theorem wait_ends (h : Ends g.next) (a : τ) (l : L) : ∃ fuel r, hangmanWait g fuel a l = some r := by
  obtain ⟨fuel, found, hcheck⟩ := check_ends h a (.inr l)
  have hcheck : hangmanCheck g a fuel (g.holding l) = some found := hcheck
  refine ⟨fuel, ?_⟩
  unfold hangmanWait
  by_cases hidle : g.waiting a = none
  · rw [if_neg (by simp [hidle]), hcheck]
    cases found <;> exact ⟨_, rfl⟩
  · exact ⟨_, if_pos hidle⟩

omit [DecidableEq L] in
/-- What `hangman_wait` has found out when it comes to its end. -/
theorem wait_cases (hidle : g.waiting a = none) {fuel : Nat} {r : Except Panic (Graph τ L)}
    (hr : hangmanWait g fuel a l = some r) :
    (r = .error .deadlock ∧ Relation.ReflTransGen (Link g.next) (.inr l) (.inl a)) ∨
      (r = .ok (g.wait a l) ∧ ¬ Relation.ReflTransGen (Link g.next) (.inr l) (.inl a)) := by
  unfold hangmanWait at hr
  rw [if_neg (by simp [hidle])] at hr
  cases hcheck : hangmanCheck g a fuel (g.holding l) with
  | none =>
    rw [hcheck] at hr
    cases hr
  | some found =>
    have hfinds := check_finds a fuel l hcheck
    rw [hcheck] at hr
    cases found with
    | true =>
      cases hr
      exact .inl ⟨rfl, hfinds.1 rfl⟩
    | false =>
      cases hr
      exact .inr ⟨rfl, fun hback => Bool.false_ne_true (hfinds.2 hback)⟩

omit [DecidableEq L] in
/-- `hangman_wait` panics exactly when the lock leads to the actor. -/
theorem wait_panics_iff (h : Ends g.next) (hidle : g.waiting a = none) :
    (∃ fuel p, hangmanWait g fuel a l = some (.error p)) ↔
      Relation.ReflTransGen (Link g.next) (.inr l) (.inl a) := by
  constructor
  · rintro ⟨fuel, p, hr⟩
    rcases wait_cases hidle hr with ⟨-, hback⟩ | ⟨he, -⟩
    · exact hback
    · cases he
  · intro hback
    obtain ⟨fuel, r, hr⟩ := wait_ends h a l
    rcases wait_cases hidle hr with ⟨rfl, -⟩ | ⟨-, hno⟩
    · exact ⟨fuel, _, hr⟩
    · exact absurd hback hno

theorem acyclic_wait_iff (h : Ends g.next) :
    Acyclic (g.wait a l).next ↔ ¬ Relation.ReflTransGen (Link g.next) (.inr l) (.inl a) := by
  rw [Graph.wait, next_waiting]
  exact acyclic_link_iff h

end Detector

/-! ## The locks -/

/-- `lock_acquire`. -/
inductive Acquire where
  /-- `spinlock_acquire(&lock->lock_slock)`. -/
  | spin
  /-- `HANGMAN_WAIT(&curthread->t_hangman, &lock->lk_hangman)`. -/
  | wait
  /-- `while (lock->lock_held)`, and the stores after the loop. -/
  | test
  /-- `wchan_sleep(lock->lock_wchan, &lock->lock_slock)`. -/
  | sleep
  /-- `HANGMAN_ACQUIRE(&curthread->t_hangman, &lock->lk_hangman)`. -/
  | acquire
  /-- `spinlock_release(&lock->lock_slock)`. -/
  | unspin
  deriving DecidableEq, Repr

/-- `lock_release`. -/
inductive Release where
  /-- The assertions. -/
  | enter
  /-- `spinlock_acquire(&lock->lock_slock)`. -/
  | spin
  /-- `HANGMAN_RELEASE(&curthread->t_hangman, &lock->lk_hangman)`. -/
  | release
  /-- The stores and `wchan_wakeone(lock->lock_wchan, &lock->lock_slock)`. -/
  | free
  /-- `spinlock_release(&lock->lock_slock)`. -/
  | unspin
  deriving DecidableEq, Repr

/-- A thread in no call, or in one of the two functions. -/
inductive Point (L : Type) where
  | out
  | acquire (l : L) (p : Acquire)
  | release (l : L) (p : Release)
  deriving DecidableEq, Repr

/-- The locks and the detector. -/
structure Shared (τ L : Type) where
  locks : L → Lock τ
  hangman : Graph τ L

section Locks

variable {τ L : Type} [DecidableEq τ] [DecidableEq L]

/-- All locks are created. -/
def created (τ L : Type) : Shared τ L := { locks := fun _ => lockCreate, hangman := .init τ L }

/-- Steps that use neither a spinlock nor a wait channel. -/
inductive Runs (t : τ) : Point L → Shared τ L → Point L → Shared τ L → Prop where
  | callAcquire (l : L) (x : Shared τ L) : Runs t .out x (.acquire l .spin) x
  | callRelease (l : L) (x : Shared τ L) : Runs t .out x (.release l .enter) x
  | wait {l : L} {x : Shared τ L} {fuel : Nat} {g : Graph τ L} :
      hangmanWait x.hangman fuel t l = some (.ok g) →
      Runs t (.acquire l .wait) x (.acquire l .test) { x with hangman := g }
  | held {l : L} {x : Shared τ L} : (x.locks l).held = true →
      Runs t (.acquire l .test) x (.acquire l .sleep) x
  | free {l : L} {x : Shared τ L} : (x.locks l).held = false →
      Runs t (.acquire l .test) x (.acquire l .acquire)
        { x with locks := Function.update x.locks l { held := true, holder := some t } }
  | acquire {l : L} {x : Shared τ L} {g : Graph τ L} : hangmanAcquire x.hangman t l = .ok g →
      Runs t (.acquire l .acquire) x (.acquire l .unspin) { x with hangman := g }
  | enter {l : L} {x : Shared τ L} : (x.locks l).held = true →
      lockDoIHold .dvz (x.locks l) t = true → Runs t (.release l .enter) x (.release l .spin) x
  | release {l : L} {x : Shared τ L} {g : Graph τ L} : hangmanRelease x.hangman t l = .ok g →
      Runs t (.release l .release) x (.release l .free) { x with hangman := g }

/-- Uses of the spinlocks and the wait channels. -/
inductive Calls : Point L → Req L L → Point L → Prop where
  | acquireSpin (l : L) : Calls (.acquire l .spin) (.acquire l) (.acquire l .wait)
  | acquireSleep (l : L) : Calls (.acquire l .sleep) (.wait l l) (.acquire l .test)
  | acquireUnspin (l : L) : Calls (.acquire l .unspin) (.release l) .out
  | releaseSpin (l : L) : Calls (.release l .spin) (.acquire l) (.release l .release)
  | releaseFree (l : L) : Calls (.release l .free) (.signal l l) (.release l .unspin)
  | releaseUnspin (l : L) : Calls (.release l .unspin) (.release l) .out

/-- What is stored together with them. -/
def store (x : Shared τ L) : Point L → Shared τ L
  | .release l .free =>
      { x with locks := Function.update x.locks l { held := false, holder := none } }
  | _ => x

/-- The spinlock that a thread has. -/
def Point.spins : Point L → L → Bool
  | .out, _ | .acquire _ .spin, _ | .release _ .enter, _ | .release _ .spin, _ => false
  | .acquire l _, m | .release l _, m => m == l

/-- Threads that call `lock_acquire` and `lock_release`. -/
def lockUsers (τ L : Type) [DecidableEq τ] [DecidableEq L] :
    Client τ L L (Shared τ L) (Point L) where
  start := .out
  runs := Runs
  calls := Calls
  effect _ k _ x := store x k
  owns := Point.spins
  owns_start _ := rfl
  owns_runs _ _ _ _ _ h := by cases h <;> rfl
  owns_calls _ _ _ h := by
    cases h with
    | acquireSpin l =>
      refine ⟨rfl, funext fun m => ?_⟩
      by_cases hm : m = l <;> simp [Point.spins, hm]
    | acquireSleep l => exact ⟨by simp [Point.spins], rfl⟩
    | acquireUnspin l =>
      refine ⟨by simp [Point.spins], funext fun m => ?_⟩
      by_cases hm : m = l <;> simp [Point.spins, hm]
    | releaseSpin l =>
      refine ⟨rfl, funext fun m => ?_⟩
      by_cases hm : m = l <;> simp [Point.spins, hm]
    | releaseFree l => exact ⟨by simp [Point.spins], rfl⟩
    | releaseUnspin l =>
      refine ⟨by simp [Point.spins], funext fun m => ?_⟩
      by_cases hm : m = l <;> simp [Point.spins, hm]

/-- The locks, the threads and the detector. -/
abbrev Machine (τ L : Type) : Type := State τ L L (Shared τ L) (Point L)

/-! ## What the detector knows -/

/-- The lock that a thread waits for, as far as the detector knows. -/
def wants : Pc L L (Point L) → Option L
  | .active (.acquire l .test) | .active (.acquire l .sleep) | .active (.acquire l .acquire) =>
      some l
  | .waiting l _ _ => some l
  | _ => none

/-- A thread has a lock of which the detector does not know that it has it. -/
def Gap (l : L) (pc : Pc L L (Point L)) : Prop :=
  pc = .active (.acquire l .acquire) ∨ pc = .active (.release l .free)

/-- A thread has passed the assertions of `lock_release`. -/
def Releasing (l : L) (pc : Pc L L (Point L)) : Prop :=
  pc = .active (.release l .spin) ∨ pc = .active (.release l .release)

/-- What the detector and the locks say about the thread `t`. -/
structure Knows (x : Shared τ L) (t : τ) (pc : Pc L L (Point L)) : Prop where
  waiting : x.hangman.waiting t = wants pc
  holds : ∀ l, x.hangman.holding l = some t → (x.locks l).holder = some t
  gap : ∀ l, (x.locks l).holder = some t ∧ x.hangman.holding l ≠ some t ↔ Gap l pc
  releasing : ∀ l, Releasing l pc → (x.locks l).holder = some t

/-- The detector follows the locks. -/
structure Tracks (s : Machine τ L) : Prop where
  knows : ∀ t, Knows s.shared t (s.pcs t)
  held : ∀ l, (s.shared.locks l).held = (s.shared.locks l).holder.isSome
  ends : Ends s.shared.hangman.next

variable {s s' : Machine τ L} {x x' : Shared τ L} {t u : τ} {l : L} {pc pc' : Pc L L (Point L)}

theorem tracks_init : Tracks ((lockUsers τ L).init (created τ L)) where
  knows t :=
    { waiting := rfl
      holds := fun _ h => nomatch h
      gap := fun l => by simp [Gap, Client.init, created, lockCreate, lockUsers]
      releasing := fun l h => by rcases h with h | h <;> cases h }
  held _ := rfl
  ends := ends_init

/-- Nothing that `u` has or waits for is different. -/
structure Same (x x' : Shared τ L) (u : τ) : Prop where
  waiting : x'.hangman.waiting u = x.hangman.waiting u
  holder : ∀ l, (x'.locks l).holder = some u ↔ (x.locks l).holder = some u
  holding : ∀ l, x'.hangman.holding l = some u ↔ x.hangman.holding l = some u

omit [DecidableEq τ] [DecidableEq L] in
theorem Knows.same (h : Knows x u pc) (hs : Same x x' u) : Knows x' u pc where
  waiting := hs.waiting.trans h.waiting
  holds l hl := (hs.holder l).2 (h.holds l ((hs.holding l).1 hl))
  gap l := by
    rw [hs.holder l, ne_eq, hs.holding l]
    exact h.gap l
  releasing l hl := (hs.holder l).2 (h.releasing l hl)

omit [DecidableEq τ] [DecidableEq L] in
/-- A step to another point with the same locks. -/
theorem Knows.move (h : Knows x t pc) (hw : wants pc' = wants pc) (hg : ∀ l, ¬ Gap l pc)
    (hg' : ∀ l, ¬ Gap l pc') (hr : ∀ l, Releasing l pc' → (x.locks l).holder = some t) :
    Knows x t pc' where
  waiting := h.waiting.trans hw.symm
  holds := h.holds
  gap l := by
    rw [h.gap l]
    exact iff_of_false (hg l) (hg' l)
  releasing := hr

omit [DecidableEq L] in
/-- One thread moves, and changes only what it has itself. -/
theorem Tracks.update (h : Tracks s) (hpcs : s'.pcs = Function.update s.pcs t pc)
    (hself : Knows s'.shared t pc) (hother : ∀ u, u ≠ t → Same s.shared s'.shared u)
    (hheld : ∀ l, (s'.shared.locks l).held = (s'.shared.locks l).holder.isSome)
    (hends : Ends s'.shared.hangman.next) : Tracks s' where
  knows u := by
    rw [hpcs]
    by_cases hu : u = t
    · rw [hu, Function.update_self]
      exact hself
    · rw [Function.update_of_ne hu]
      exact (h.knows u).same (hother u hu)
  held := hheld
  ends := hends

omit [DecidableEq τ] [DecidableEq L] in
theorem same_refl (x : Shared τ L) (u : τ) : Same x x u := ⟨rfl, fun _ => Iff.rfl, fun _ => Iff.rfl⟩

omit [DecidableEq L] in
/-- One thread moves, and changes nothing. -/
theorem Tracks.move (h : Tracks s) (hpcs : s'.pcs = Function.update s.pcs t pc)
    (hshared : s'.shared = s.shared) (hself : Knows s.shared t pc) : Tracks s' := by
  refine h.update hpcs ?_ ?_ ?_ ?_
  · rwa [hshared]
  · rw [hshared]
    exact fun u _ => same_refl _ u
  · rw [hshared]
    exact h.held
  · rw [hshared]
    exact h.ends

omit [DecidableEq L] in
/-- `hangman_wait` of a thread that is about to wait. -/
theorem Knows.wait (h : Knows x t (.active (.acquire l .wait))) :
    Knows { x with hangman := x.hangman.wait t l } t (.active (.acquire l .test)) where
  waiting := by simp [Graph.wait, wants]
  holds := h.holds
  gap m := by simpa [Graph.wait, Gap] using h.gap m
  releasing m hm := by simp [Releasing] at hm

omit [DecidableEq τ] in
/-- `lock_held = true` and `thread_holder = curthread`. -/
theorem Knows.take (h : Knows x t (.active (.acquire l .test))) (hfree : (x.locks l).holder = none) :
    Knows { x with locks := Function.update x.locks l { held := true, holder := some t } } t
      (.active (.acquire l .acquire)) where
  waiting := h.waiting
  holds m hm := by
    have hold := h.holds m hm
    by_cases hml : m = l
    · rw [hml]
      simp
    · simpa [hml] using hold
  gap m := by
    by_cases hml : m = l
    · subst hml
      have hnot : x.hangman.holding m ≠ some t := by
        intro hm
        exact nomatch hfree.symm.trans (h.holds m hm)
      simp [Gap, hnot]
    · simpa [Gap, hml, Ne.symm hml] using h.gap m
  releasing m hm := by simp [Releasing] at hm

/-- `hangman_acquire` of a thread that has taken the lock. -/
theorem Knows.acquire (h : Knows x t (.active (.acquire l .acquire))) :
    Knows { x with hangman := x.hangman.acquire t l } t (.active (.acquire l .unspin)) where
  waiting := by simp [Graph.acquire, wants]
  holds m hm := by
    by_cases hml : m = l
    · rw [hml]
      exact ((h.gap l).2 (.inl rfl)).1
    · exact h.holds m (by simpa [Graph.acquire, hml] using hm)
  gap m := by
    by_cases hml : m = l
    · simp [Gap, Graph.acquire, hml]
    · simpa [Gap, Graph.acquire, hml, Ne.symm hml] using h.gap m
  releasing m hm := by simp [Releasing] at hm

omit [DecidableEq τ] in
/-- `hangman_release` of a thread that has the lock. -/
theorem Knows.release (h : Knows x t (.active (.release l .release))) :
    Knows { x with hangman := x.hangman.release l } t (.active (.release l .free)) where
  waiting := h.waiting
  holds m hm := by
    by_cases hml : m = l
    · simp [Graph.release, hml] at hm
    · exact h.holds m (by simpa [Graph.release, hml] using hm)
  gap m := by
    by_cases hml : m = l
    · subst hml
      simp [Gap, Graph.release, h.releasing m (.inr rfl)]
    · simpa [Gap, Graph.release, hml, Ne.symm hml] using h.gap m
  releasing m hm := by simp [Releasing] at hm

omit [DecidableEq τ] in
/-- `lock_held = false` and `thread_holder = NULL`. -/
theorem Knows.free (h : Knows x t (.active (.release l .free))) :
    Knows { x with locks := Function.update x.locks l { held := false, holder := none } } t
      (.active (.release l .unspin)) where
  waiting := h.waiting
  holds m hm := by
    have hold := h.holds m hm
    by_cases hml : m = l
    · rw [hml] at hm
      exact absurd hm ((h.gap l).2 (.inr rfl)).2
    · simpa [hml] using hold
  gap m := by
    by_cases hml : m = l
    · simp [Gap, hml]
    · simpa [Gap, hml, Ne.symm hml] using h.gap m
  releasing m hm := by simp [Releasing] at hm

/-! ## Steps -/

omit [DecidableEq τ] in
/-- Nobody else is concerned with what is stored about `l`. -/
theorem same_locks {k : Lock τ} (hu : u ≠ t)
    (hold : (x.locks l).holder = none ∨ (x.locks l).holder = some t)
    (hnew : k.holder = none ∨ k.holder = some t) :
    Same x { x with locks := Function.update x.locks l k } u where
  waiting := rfl
  holder m := by
    by_cases hm : m = l
    · subst hm
      rcases hold with h | h <;> rcases hnew with h' | h' <;> simp [h, h', Ne.symm hu]
    · simp [hm]
  holding _ := Iff.rfl

omit [DecidableEq τ] [DecidableEq L] in
theorem holding_eq_none (h : Tracks s) (hgap : Gap l (s.pcs t)) :
    s.shared.hangman.holding l = none := by
  obtain ⟨hholder, hnot⟩ := ((h.knows t).gap l).2 hgap
  cases hu : s.shared.hangman.holding l with
  | none => rfl
  | some u =>
    have hhold := (h.knows u).holds l hu
    rw [hholder] at hhold
    cases hhold
    exact absurd hu hnot

theorem Tracks.runs (h : Tracks s) {p p' : Point L} (hk : s.pcs t = .active p)
    (hr : Runs t p s.shared p' x') :
    Tracks { s with pcs := Function.update s.pcs t (.active p'), shared := x' } := by
  have hknows := h.knows t
  rw [hk] at hknows
  cases hr with
  | callAcquire l =>
    exact h.move rfl rfl (hknows.move rfl (by simp [Gap]) (by simp [Gap]) (by simp [Releasing]))
  | callRelease l =>
    exact h.move rfl rfl (hknows.move rfl (by simp [Gap]) (by simp [Gap]) (by simp [Releasing]))
  | @wait l _ fuel g hg =>
    rcases wait_cases hknows.waiting hg with ⟨he, -⟩ | ⟨he, hback⟩
    · cases he
    · cases he
      refine h.update rfl hknows.wait (fun u hu => ?_) h.held (ends_wait h.ends hback)
      exact ⟨by simp [Graph.wait, hu], fun _ => Iff.rfl, fun _ => Iff.rfl⟩
  | held hheld =>
    exact h.move rfl rfl (hknows.move rfl (by simp [Gap]) (by simp [Gap]) (by simp [Releasing]))
  | @free l _ hfree =>
    have hnone : (s.shared.locks l).holder = none := by
      have := h.held l
      rw [hfree] at this
      simpa using this.symm
    refine h.update rfl (hknows.take hnone) (fun u hu => ?_) (fun m => ?_) h.ends
    · exact same_locks hu (.inl hnone) (.inr rfl)
    · by_cases hm : m = l
      · simp [hm]
      · simpa [hm] using h.held m
  | @acquire l _ g hg =>
    have hgap : Gap l (s.pcs t) := .inl hk
    unfold hangmanAcquire at hg
    split_ifs at hg with h₁ h₂
    cases hg
    refine h.update rfl hknows.acquire (fun u hu => ?_) h.held (ends_acquire h.ends)
    refine ⟨by simp [Graph.acquire, hu], fun _ => Iff.rfl, fun m => ?_⟩
    by_cases hm : m = l
    · simp [Graph.acquire, hm, holding_eq_none h hgap, Ne.symm hu]
    · simp [Graph.acquire, hm]
  | @enter l _ hheld hhold =>
    refine h.move rfl rfl (hknows.move rfl (by simp [Gap]) (by simp [Gap]) fun m hm => ?_)
    obtain rfl : l = m := by simpa [Releasing] using hm
    exact beq_iff_eq.1 hhold
  | @release l _ g hg =>
    unfold hangmanRelease at hg
    split_ifs at hg with h₁ h₂
    cases hg
    refine h.update rfl hknows.release (fun u hu => ?_) h.held (ends_release h.ends)
    refine ⟨rfl, fun _ => Iff.rfl, fun m => ?_⟩
    by_cases hm : m = l
    · have h₂ : s.shared.hangman.holding l = some t := not_not.1 h₂
      simp [Graph.release, hm, h₂, Ne.symm hu]
    · simp [Graph.release, hm]

/-- Step lemma. -/
theorem Tracks.step (h : Tracks s) (hs : Step (lockUsers τ L) s t s')
    (hsound : Sound (lockUsers τ L) s) : Tracks s' := by
  cases hs with
  | run hk hr => exact h.runs hk hr
  | @acquire p p' l hk hc hfree =>
    have hknows := h.knows t
    rw [hk] at hknows
    cases hc with
    | acquireSpin =>
      exact h.move rfl rfl (hknows.move rfl (by simp [Gap]) (by simp [Gap]) (by simp [Releasing]))
    | releaseSpin =>
      refine h.move rfl rfl (hknows.move rfl (by simp [Gap]) (by simp [Gap]) fun m hm => ?_)
      obtain rfl : l = m := by simpa [Releasing] using hm
      exact hknows.releasing l (.inl rfl)
  | @release p p' l hk hc =>
    have hknows := h.knows t
    rw [hk] at hknows
    cases hc with
    | acquireUnspin | releaseUnspin =>
      exact h.move rfl rfl (hknows.move rfl (by simp [Gap]) (by simp [Gap]) (by simp [Releasing]))
  | @wait p p' c l hk hc =>
    have hknows := h.knows t
    rw [hk] at hknows
    cases hc with
    | acquireSleep =>
      exact h.move rfl rfl (hknows.move rfl (by simp [Gap]) (by simp [Gap]) (by simp [Releasing]))
  | @resume p c l hk hq hfree =>
    have hknows := h.knows t
    rw [hk] at hknows
    obtain ⟨p₀, hc⟩ := hsound.called t c l p hk
    cases hc with
    | acquireSleep =>
      exact h.move rfl rfl (hknows.move rfl (by simp [Gap]) (by simp [Gap]) (by simp [Releasing]))
  | @signal p p' c l hk hc =>
    have hknows := h.knows t
    rw [hk] at hknows
    cases hc with
    | releaseFree =>
      have hholder := ((hknows.gap c).2 (.inr rfl)).1
      refine h.update rfl hknows.free (fun u hu => ?_) (fun m => ?_) h.ends
      · exact same_locks hu (.inr hholder) (.inl rfl)
      · change (Function.update s.shared.locks c _ m).held =
          (Function.update s.shared.locks c _ m).holder.isSome
        by_cases hm : m = c
        · simp [hm]
        · simpa [hm] using h.held m
  | broadcast hk hc => cases hc

/-- Run lemma. -/
theorem tracks_of_reach (h : Reach (Step (lockUsers τ L)) anyStep
    ((lockUsers τ L).init (created τ L)) s) : Tracks s := by
  have hboth : Sound (lockUsers τ L) s ∧ Tracks s := by
    refine h.invariant (I := fun s => Sound (lockUsers τ L) s ∧ Tracks s) ?_ ?_
    · rintro s₁ u s₂ ⟨hsound, htracks⟩ _ hs
      exact ⟨hs.sound hsound, htracks.step hs hsound⟩
    · exact ⟨sound_init _, tracks_init⟩
  exact hboth.2

/-! ## Deadlocks -/

/-- A thread in `lock_acquire` cannot go on before `l` is free. -/
def Blocked (l : L) (pc : Pc L L (Point L)) : Prop :=
  pc = .active (.acquire l .test) ∨ pc = .active (.acquire l .sleep) ∨ ∃ m p, pc = .waiting l m p

/-- `t` cannot go on before `u` has released a lock. -/
def WaitsFor (s : Machine τ L) (t u : τ) : Prop :=
  ∃ l, Blocked l (s.pcs t) ∧ (s.shared.locks l).holder = some u

/-- When `t` waits for `l`, it waits for a thread that waits, perhaps through others, for `t`. -/
def Deadlocks (s : Machine τ L) (t : τ) (l : L) : Prop :=
  ∃ u, (s.shared.locks l).holder = some u ∧ Relation.ReflTransGen (WaitsFor s) u t

omit [DecidableEq τ] [DecidableEq L] in
theorem wants_eq_some (pc : Pc L L (Point L)) (l : L) :
    wants pc = some l ↔ Blocked l pc ∨ pc = .active (.acquire l .acquire) := by
  cases pc with
  | waiting m m' p => simp [wants, Blocked]
  | active p =>
    cases p with
    | out => simp [wants, Blocked]
    | release m b => simp [wants, Blocked]
    | acquire m a => cases a <;> simp [wants, Blocked]

omit [DecidableEq τ] [DecidableEq L] in
/-- The detector knows the holder of a lock unless the holder is about to tell. -/
theorem holding_of_holder (h : Tracks s) (hu : (s.shared.locks l).holder = some u)
    (hgap : ¬ Gap l (s.pcs u)) : s.shared.hangman.holding l = some u := by
  by_contra hnot
  exact hgap (((h.knows u).gap l).1 ⟨hu, hnot⟩)

omit [DecidableEq τ] [DecidableEq L] in
theorem not_gap_of_blocked {m : L} (hm : Blocked m (s.pcs u)) : ¬ Gap l (s.pcs u) := by
  rcases hm with hm | hm | ⟨_, _, hm⟩ <;> rw [hm] <;> simp [Gap]

omit [DecidableEq τ] [DecidableEq L] in
/-- A chain of waiting threads is a chain in the graph. -/
theorem links_of_waitsFor (h : Tracks s) (hgap : ∀ l, ¬ Gap l (s.pcs t))
    (hut : Relation.TransGen (WaitsFor s) u t) :
    Relation.TransGen (Link s.shared.hangman.next) (.inl u) (.inl t) := by
  have hstep : ∀ {u w : τ}, WaitsFor s u w → (∀ l, ¬ Gap l (s.pcs w)) →
      Relation.TransGen (Link s.shared.hangman.next) (.inl u) (.inl w) := by
    rintro u w ⟨l, hblocked, hholder⟩ hw
    have hwants : s.shared.hangman.waiting u = some l :=
      (h.knows u).waiting.trans ((wants_eq_some _ _).2 (.inl hblocked))
    have hholds := holding_of_holder h hholder (hw l)
    refine .head (b := .inr l) ?_ (.single ?_)
    · simp [Link, Graph.next, hwants]
    · simp [Link, Graph.next, hholds]
  induction hut using Relation.TransGen.head_induction_on with
  | single hw => exact hstep hw hgap
  | head hw hrest ih =>
    obtain ⟨w, ⟨m, hm, -⟩, -⟩ := Relation.TransGen.head'_iff.1 hrest
    exact (hstep hw fun l => not_gap_of_blocked hm).trans ih

omit [DecidableEq τ] [DecidableEq L] in
/-- A chain in the graph that ends at a thread is a chain of waiting threads. -/
theorem waitsFor_of_links (h : Tracks s) {y : τ ⊕ L}
    (hy : Relation.ReflTransGen (Link s.shared.hangman.next) y (.inl t)) :
    match y with
    | .inl u => Relation.ReflTransGen (WaitsFor s) u t
    | .inr l => s.shared.hangman.holding l ≠ none ∧ Deadlocks s t l := by
  induction hy using Relation.ReflTransGen.head_induction_on with
  | refl => exact .refl
  | @head a b hab _ ih =>
    cases a with
    | inl u =>
      cases hwait : s.shared.hangman.waiting u with
      | none => simp [Link, Graph.next, hwait] at hab
      | some l =>
        obtain rfl : .inr l = b := by simpa [Link, Graph.next, hwait] using hab
        obtain ⟨hheld, w, hholder, hrest⟩ := ih
        rw [(h.knows u).waiting, wants_eq_some] at hwait
        rcases hwait with hblocked | htaking
        · exact .head ⟨l, hblocked, hholder⟩ hrest
        · exact absurd (holding_eq_none h (.inl htaking)) hheld
    | inr l =>
      cases hhold : s.shared.hangman.holding l with
      | none => simp [Link, Graph.next, hhold] at hab
      | some u =>
        obtain rfl : .inl u = b := by simpa [Link, Graph.next, hhold] using hab
        exact ⟨by simp [hhold], u, (h.knows u).holds l hhold, ih⟩

/-- The new wait closes a cycle exactly when it is a deadlock. -/
theorem leads_iff_deadlocks (h : Tracks s) (hsound : Sound (lockUsers τ L) s)
    (ht : s.pcs t = .active (.acquire l .wait)) :
    Relation.ReflTransGen (Link s.shared.hangman.next) (.inr l) (.inl t) ↔ Deadlocks s t l := by
  have hgap : ∀ m, ¬ Gap m (s.pcs t) := by simp [ht, Gap]
  constructor
  · exact fun hback => (waitsFor_of_links h hback).2
  · rintro ⟨u, hholder, hrest⟩
    -- nobody else is between `lock_slock` and its release
    have hnot : ¬ Gap l (s.pcs u) := by
      intro hu
      have hown : (s.pcs u).owns (lockUsers τ L) l = true := by
        rcases hu with hu | hu <;> rw [hu] <;> simp [Pc.owns, lockUsers, Point.spins]
      have hown' : (s.pcs t).owns (lockUsers τ L) l = true := by
        rw [ht]
        simp [Pc.owns, lockUsers, Point.spins]
      obtain rfl := hsound.owner_unique hown hown'
      exact hgap l hu
    have hholds := holding_of_holder h hholder hnot
    refine .head (b := .inl u) (by simp [Link, Graph.next, hholds]) ?_
    rcases Relation.reflTransGen_iff_eq_or_transGen.1 hrest with rfl | hrest
    · exact .refl
    · exact (links_of_waitsFor h hgap hrest).to_reflTransGen

/-- The deadlock detector is sound and complete. The waits-for graph has no cycle, and no threads
wait for each other in a cycle. Whenever a thread calls `hangman_wait`, the walk comes to its end,
and the call panics exactly when the new wait closes a cycle, and this is when it makes a deadlock.
The other two functions do not panic. -/
theorem hangman_detects (h : Reach (Step (lockUsers τ L)) anyStep
    ((lockUsers τ L).init (created τ L)) s) :
    Acyclic s.shared.hangman.next ∧ (∀ t, ¬ Relation.TransGen (WaitsFor s) t t) ∧
    ∀ t l,
      (s.pcs t = .active (.acquire l .wait) →
        (∃ fuel r, hangmanWait s.shared.hangman fuel t l = some r) ∧
        ((∃ fuel p, hangmanWait s.shared.hangman fuel t l = some (.error p)) ↔
          ¬ Acyclic (s.shared.hangman.wait t l).next) ∧
        ((∃ fuel p, hangmanWait s.shared.hangman fuel t l = some (.error p)) ↔
          Deadlocks s t l)) ∧
      (s.pcs t = .active (.acquire l .acquire) →
        ∃ g, hangmanAcquire s.shared.hangman t l = .ok g) ∧
      (s.pcs t = .active (.release l .release) →
        ∃ g, hangmanRelease s.shared.hangman t l = .ok g) := by
  have htracks := tracks_of_reach h
  refine ⟨htracks.ends.acyclic, fun t hcycle => ?_, fun t l => ⟨fun ht => ?_, fun ht => ?_, fun ht => ?_⟩⟩
  · obtain ⟨u, ⟨m, hm, -⟩, -⟩ := Relation.TransGen.head'_iff.1 hcycle
    exact htracks.ends.acyclic _ (links_of_waitsFor htracks (fun l => not_gap_of_blocked hm) hcycle)
  · have hidle : s.shared.hangman.waiting t = none := by
      rw [(htracks.knows t).waiting, ht]
      rfl
    have hpanics := wait_panics_iff (l := l) htracks.ends hidle
    refine ⟨wait_ends htracks.ends t l, ?_, ?_⟩
    · rw [hpanics, acyclic_wait_iff htracks.ends, not_not]
    · rw [hpanics, leads_iff_deadlocks htracks (sound_of_reach h) ht]
  · have hwants : s.shared.hangman.waiting t = some l := by
      rw [(htracks.knows t).waiting, ht]
      rfl
    have hfree := holding_eq_none htracks (.inl ht)
    exact ⟨_, by simp [hangmanAcquire, hwants, hfree]; rfl⟩
  · have hidle : s.shared.hangman.waiting t = none := by
      rw [(htracks.knows t).waiting, ht]
      rfl
    have hholds : s.shared.hangman.holding l = some t :=
      holding_of_holder htracks ((htracks.knows t).releasing l (.inr ht)) (by simp [ht, Gap])
    exact ⟨_, by simp [hangmanRelease, hidle, hholds]; rfl⟩

end Locks

/-- Two threads that take two locks in opposite orders: `false` has the lock `false` and waits for
`true`, and `true` has the lock `true` and is about to wait for `false`. The detector panics. -/
theorem hangman_detects_opposite :
    ∃ s : Machine Bool Bool, s.pcs true = .active (.acquire false .wait) ∧ Deadlocks s true false ∧
      ∃ fuel p, hangmanWait s.shared.hangman fuel true false = some (.error p) := by
  have start : Reach (Step (lockUsers Bool Bool)) anyStep
      ((lockUsers Bool Bool).init (created Bool Bool)) _ := .refl
  have first := start.tail (a := false) trivial (.run rfl (.callAcquire false _))
    |>.tail (a := false) trivial (.acquire rfl (.acquireSpin _) rfl)
    |>.tail (a := false) trivial (.run rfl (@Runs.wait _ _ _ _ _ _ _ 1 _ rfl))
    |>.tail (a := false) trivial (.run rfl (.free rfl))
    |>.tail (a := false) trivial (.run rfl (.acquire rfl))
    |>.tail (a := false) trivial (.release rfl (.acquireUnspin _))
  have second := first.tail (a := true) trivial (.run rfl (.callAcquire true _))
    |>.tail (a := true) trivial (.acquire rfl (.acquireSpin _) rfl)
    |>.tail (a := true) trivial (.run rfl (@Runs.wait _ _ _ _ _ _ _ 1 _ rfl))
    |>.tail (a := true) trivial (.run rfl (.free rfl))
    |>.tail (a := true) trivial (.run rfl (.acquire rfl))
    |>.tail (a := true) trivial (.release rfl (.acquireUnspin _))
  have waits := second.tail (a := false) trivial (.run rfl (.callAcquire true _))
    |>.tail (a := false) trivial (.acquire rfl (.acquireSpin _) rfl)
    |>.tail (a := false) trivial (.run rfl (@Runs.wait _ _ _ _ _ _ _ 2 _ rfl))
    |>.tail (a := false) trivial (.run rfl (.held rfl))
    |>.tail (a := true) trivial (.run rfl (.callAcquire false _))
    |>.tail (a := true) trivial (.acquire rfl (.acquireSpin _) rfl)
  have hdetects := ((hangman_detects waits).2.2 true false).1 rfl
  refine ⟨_, rfl, ?dead, hdetects.2.2.2 ?dead⟩
  exact ⟨false, rfl, .single ⟨true, .inr (.inl rfl), rfl⟩⟩

end Os161.Synch.Hangman

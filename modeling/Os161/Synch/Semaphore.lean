import Os161.Lib.Monitor

set_option autoImplicit false

/-!
# Semaphores

`P` and `V` of `kern/thread/synch.c`, for one semaphore and any number of threads. The spinlock
`sem_lock` and the wait channel `sem_wchan` are a lock and a queue of `Lib.Monitor`: `wchan_sleep`
puts the thread on the channel and unlocks the spinlock, and nobody else has the spinlock in
between. The body of a critical section that does not sleep is one step.
-/

namespace Os161.Synch.Sem

open Os161.Lib.Runs
open Os161.Lib.Monitor

/-- `struct semaphore`, and how many calls have been completed. -/
structure Semaphore where
  /-- `sem_count`, an `unsigned`. -/
  count : Nat
  ps : Nat
  vs : Nat
  deriving DecidableEq, Repr

/-- `sem_create`. -/
def semCreate (initialCount : BitVec 32) : Semaphore :=
  { count := initialCount.toNat, ps := 0, vs := 0 }

/-- Where a thread is. -/
inductive Point where
  /-- In no call. -/
  | out
  /-- `P`: `spinlock_acquire(&sem->sem_lock)`. -/
  | pEnter
  /-- `while (sem->sem_count == 0)`. -/
  | pTest
  /-- `wchan_sleep(sem->sem_wchan, &sem->sem_lock)`. -/
  | pSleep
  /-- `sem->sem_count--` and `spinlock_release(&sem->sem_lock)`. -/
  | pTake
  /-- `V`: `spinlock_acquire(&sem->sem_lock)`. -/
  | vEnter
  /-- `KASSERT(sem->sem_count > 0)`, about the value that the next step stores. -/
  | vCheck
  /-- `sem->sem_count++` and `wchan_wakeone(sem->sem_wchan, &sem->sem_lock)`. -/
  | vWake
  /-- `spinlock_release(&sem->sem_lock)`. -/
  | vLeave
  deriving DecidableEq, Repr

/-- Steps that use neither the spinlock nor the channel. When the count would wrap, the assertion
of `V` panics, and there is no step. -/
inductive Runs : Point → Semaphore → Point → Semaphore → Prop where
  | callP (x : Semaphore) : Runs .out x .pEnter x
  | callV (x : Semaphore) : Runs .out x .vEnter x
  | empty (x : Semaphore) : x.count = 0 → Runs .pTest x .pSleep x
  | pass (x : Semaphore) : x.count ≠ 0 → Runs .pTest x .pTake x
  | check (x : Semaphore) : 0 < (x.count + 1) % 2 ^ 32 → Runs .vCheck x .vWake x

/-- Uses of the spinlock and the channel. -/
inductive Calls : Point → Req Unit Unit → Point → Prop where
  | pAcquire : Calls .pEnter (.acquire ()) .pTest
  | pSleep : Calls .pSleep (.wait () ()) .pTest
  | pRelease : Calls .pTake (.release ()) .out
  | vAcquire : Calls .vEnter (.acquire ()) .vCheck
  | vWake : Calls .vWake (.signal () ()) .vLeave
  | vRelease : Calls .vLeave (.release ()) .out

/-- What is stored together with them. -/
def store (x : Semaphore) : Point → Semaphore
  | .pTake => { x with count := x.count - 1, ps := x.ps + 1 }
  | .vWake => { x with count := (x.count + 1) % 2 ^ 32, vs := x.vs + 1 }
  | _ => x

/-- The points at which the thread has `sem_lock`. -/
def Point.locked : Point → Bool
  | .pTest | .pSleep | .pTake | .vCheck | .vWake | .vLeave => true
  | .out | .pEnter | .vEnter => false

/-- Threads that call `P` and `V`. -/
def semaphore (τ : Type) : Client τ Unit Unit Semaphore Point where
  start := .out
  runs _ := Runs
  calls := Calls
  effect _ k _ x := store x k
  owns k _ := k.locked
  owns_start _ := rfl
  owns_runs _ _ _ _ _ h := by cases h <;> rfl
  owns_calls _ _ _ h := by
    cases h
    all_goals refine ⟨rfl, funext fun ℓ => ?_⟩
    all_goals rfl

/-- The thread is in a call of `P`. -/
def InP : Pc Unit Unit Point → Prop
  | .active k => k = .pEnter ∨ k = .pTest ∨ k = .pSleep ∨ k = .pTake
  | .waiting _ _ _ => True

/-! ## The count -/

/-- Nothing is lost: what `V` has added and `P` has taken away. -/
def Conserved (initialCount : BitVec 32) (x : Semaphore) : Prop :=
  x.count + x.ps = initialCount.toNat + x.vs

/-- What a thread that has `sem_lock` knows about the count. -/
def Knows : Point → Semaphore → Prop
  | .pSleep, x => x.count = 0
  | .pTake, x => x.count ≠ 0
  | .vWake, x => 0 < (x.count + 1) % 2 ^ 32
  | _, _ => True

/-- The count is an `unsigned` that conserves what it started with. -/
structure Good (initialCount : BitVec 32) (x : Semaphore) : Prop where
  bound : x.count < 2 ^ 32
  conserved : Conserved initialCount x

variable {τ : Type} [DecidableEq τ] {n : BitVec 32} {s : State τ Unit Unit Semaphore Point}

theorem good_semCreate (n : BitVec 32) : Good n (semCreate n) where
  bound := n.isLt
  conserved := rfl

omit [DecidableEq τ] in
/-- The count is good whenever nobody has `sem_lock`, and a thread that has it knows what it has
tested. -/
theorem guarded (n : BitVec 32) :
    Guarded (semaphore τ) (Good n) fun k x => Good n x ∧ Knows k x where
  inside t k k' x x' ho hD hr := by
    obtain ⟨hgood, -⟩ := hD
    cases hr with
    | callP => cases ho
    | callV => cases ho
    | empty _ h => exact ⟨hgood, h⟩
    | pass _ h => exact ⟨hgood, h⟩
    | check _ h => exact ⟨hgood, h⟩
  outside t k k' x x' ho hr := by cases hr <;> rfl
  acquire t k k' x hc hF := by cases hc <;> exact ⟨hF, trivial⟩
  release t k k' x hc hD := by
    obtain ⟨⟨hbound, hcons⟩, hknows⟩ := hD
    cases hc with
    | pRelease =>
        have hpos : x.count ≠ 0 := hknows
        constructor
        · change x.count - 1 < 2 ^ 32
          omega
        · change x.count - 1 + (x.ps + 1) = n.toNat + x.vs
          unfold Conserved at hcons
          omega
    | vRelease => exact ⟨hbound, hcons⟩
  wait t c k k' x hc hD := by
    cases hc
    exact hD.1
  resume c k k' x hc hF := by
    cases hc
    exact ⟨hF, trivial⟩
  signal t c k k' x hc hD := by
    obtain ⟨⟨hbound, hcons⟩, hknows⟩ := hD
    cases hc
    have hno : 0 < (x.count + 1) % 2 ^ 32 := hknows
    refine ⟨⟨Nat.mod_lt _ (by decide), ?_⟩, trivial⟩
    change (x.count + 1) % 2 ^ 32 + x.ps = n.toNat + (x.vs + 1)
    unfold Conserved at hcons
    omega
  broadcast t c k k' x hc := by cases hc

/-! ## Wakeups -/

/-- What a thread with `sem_lock` leaves to the woken threads. -/
def need : Point → Semaphore → Nat
  | .pTest, x => x.count - 1
  | .pTake, x => x.count - 1
  | _, x => x.count

omit [DecidableEq τ] in
/-- Every woken thread takes one from the count, and every `V` adds one and wakes one thread. -/
theorem accounts (n : BitVec 32) :
    Accounts (semaphore τ) anyStep (Good n) (fun k x => Good n x ∧ Knows k x) () (fun _ => 1)
      Semaphore.count need where
  inside s t k k' x _ _ ho hD hr hcov := by
    cases hr with
    | callP => cases ho
    | callV => cases ho
    | empty _ h =>
        change Covered _ _ s s.shared.count
        rw [h]
        exact Covered.zero
    | pass _ h => exact hcov
    | check _ h => exact hcov
  acquire t k k' x hc _ := by
    cases hc with
    | pAcquire => exact Nat.sub_le _ _
    | vAcquire => exact le_rfl
  release t k k' x hc _ := by cases hc <;> exact le_rfl
  waitHere t k k' x hc hD := by
    cases hc
    exact ⟨hD.2, le_rfl⟩
  waitElse t c k k' x hc _ hne := absurd rfl hne
  resumeHere k k' x hc _ := by
    cases hc
    exact le_rfl
  resumeElse c k k' x hc _ hne := absurd rfl hne
  signalHere t k k' x hc hD := by
    cases hc
    exact Nat.mod_le _ _
  signalElse t c k k' x hc _ hne := absurd rfl hne
  broadcastElse t c k k' x hc _ hne := absurd rfl hne

omit [DecidableEq τ] in
/-- Only a thread in a call of `P` sleeps on the channel. -/
theorem inP_of_woken {t : τ} (h : s.Woken () t) : InP (s.pcs t) := by
  obtain ⟨-, ℓ, k, hk⟩ := h
  rw [hk]
  trivial

/-- When the count is not zero and a thread sleeps on the channel, some thread in `P` is awake: one
that has been woken, or the one that has `sem_lock`. -/
theorem exists_awake (h : Reach (Step (semaphore τ)) anyStep ((semaphore τ).init (semCreate n)) s)
    (hcount : 0 < s.shared.count) (hq : s.queue () ≠ []) :
    ∃ u, InP (s.pcs u) ∧ u ∉ s.queue () := by
  have hsound := sound_of_reach h
  have hbal := (accounts n).balanced (guarded n) (good_semCreate n) h
  have hwoken : Covered (fun _ => 1) () s s.shared.count → ∃ u, InP (s.pcs u) ∧ u ∉ s.queue () := by
    intro hcov
    obtain ⟨u, hu⟩ := hcov.exists_woken hcount hq
    exact ⟨u, inP_of_woken hu, hu.1⟩
  cases hheld : s.holder () with
  | none => exact hwoken (hbal.free hheld)
  | some t =>
      obtain ⟨k, hk, ho⟩ := hsound.active_of_holder hheld
      have hcov := hbal.held t k hk ho
      have hself := hsound.not_mem_queue hk ()
      -- the thread that has the spinlock is in `P` itself, or leaves the whole count
      cases k with
      | pTest => exact ⟨t, by rw [hk]; simp [InP], hself⟩
      | pSleep => exact ⟨t, by rw [hk]; simp [InP], hself⟩
      | pTake => exact ⟨t, by rw [hk]; simp [InP], hself⟩
      | vCheck => exact hwoken hcov
      | vWake => exact hwoken hcov
      | vLeave => exact hwoken hcov
      | out => cases ho
      | pEnter => cases ho
      | vEnter => cases ho

/-- The count is what it was at the start and every completed `V` has added and every completed `P`
has taken. While a thread sleeps and `sem_lock` is free, at least as many threads as the count have
been woken and have not tested the count again, so it is never positive with every thread in `P`
asleep. -/
theorem semaphore_conserves (n : BitVec 32) {s : State τ Unit Unit Semaphore Point}
    (h : Reach (Step (semaphore τ)) anyStep ((semaphore τ).init (semCreate n)) s) :
    (s.shared.count : Int) = n.toNat + s.shared.vs - s.shared.ps ∧
    (s.holder () = none → ∀ t ∈ s.queue (),
      (s.shared.count : ENat) ≤ {u | s.Woken () u}.encard) ∧
    (0 < s.shared.count → ∀ t ∈ s.queue (), ∃ u, InP (s.pcs u) ∧ u ∉ s.queue ()) := by
  have hcons := (guarded n).consistent (good_semCreate n) h
  have hbal := (accounts n).balanced (guarded n) (good_semCreate n) h
  have hgood := hcons.always (sound_of_reach h) (fun _ hF => hF) fun _ _ hD => hD.1
  refine ⟨?_, fun hfree t ht => ?_, fun hcount t ht => ?_⟩
  · have := hgood.conserved
    unfold Conserved at this
    omega
  · exact (hbal.free hfree).le_encard (List.ne_nil_of_mem ht)
  · exact exists_awake h hcount (List.ne_nil_of_mem ht)

/-- Threads `1` and `2` go to sleep in `P`, and `3` completes a `V`: the count is `1`, `2` sleeps,
and `1` has been woken. -/
theorem semaphore_conserves_two_sleepers :
    ∃ s : State Nat Unit Unit Semaphore Point, s.shared.count = 1 ∧ s.queue () = [2] ∧
      (1 : ENat) ≤ {u | s.Woken () u}.encard := by
  have start : Reach (Step (semaphore Nat)) anyStep ((semaphore Nat).init (semCreate 0)) _ := .refl
  have run := start.tail (a := 1) trivial (.run rfl (.callP _))
    |>.tail (a := 1) trivial (.acquire rfl .pAcquire rfl)
    |>.tail (a := 1) trivial (.run rfl (.empty _ rfl))
    |>.tail (a := 1) trivial (.wait rfl .pSleep)
    |>.tail (a := 2) trivial (.run rfl (.callP _))
    |>.tail (a := 2) trivial (.acquire rfl .pAcquire rfl)
    |>.tail (a := 2) trivial (.run rfl (.empty _ rfl))
    |>.tail (a := 2) trivial (.wait rfl .pSleep)
    |>.tail (a := 3) trivial (.run rfl (.callV _))
    |>.tail (a := 3) trivial (.acquire rfl .vAcquire rfl)
    |>.tail (a := 3) trivial (.run rfl (.check _ (by decide)))
    |>.tail (a := 3) trivial (.signal rfl .vWake)
    |>.tail (a := 3) trivial (.release rfl .vRelease)
  exact ⟨_, rfl, rfl, (semaphore_conserves 0 run).2.1 rfl 2 (List.mem_singleton.2 rfl)⟩

end Os161.Synch.Sem

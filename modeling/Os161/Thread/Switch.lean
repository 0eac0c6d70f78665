import Mathlib.Data.List.FinRange
import Os161.Lib.Places
import Os161.Lib.Runs

set_option autoImplicit false

/-!
# Threads, run queues and wait channels

`thread_fork`, `thread_switch` with its callers, `thread_consider_migration` and the functions of
wait channels of `kern/thread/thread.c`, on any number of cpus. Spinlocks are those of the run queues
and those passed to the functions of wait channels; what a cpu does between two operations on
spinlocks is one step. Interrupts happen while a cpu has no spinlock and is in none of these
functions: in the code of a thread, and in `cpu_idle`. The interprocessor interrupts that make an
idle cpu look at its run queue are left out, since it may look at any time.

A `struct threadlist` is a list, and the address of a `struct thread` is a number.
-/

namespace Os161.Thread

/-- Addresses of `struct thread`. -/
abbrev Tid : Type := Nat

/-- `threadstate_t`. -/
inductive ThreadState where
  | run
  | ready
  | sleep
  | zombie
  deriving DecidableEq, Repr

/-- The spinlocks: `c_runqueue_lock` of a cpu, and the one of a wait channel. -/
inductive Spin (n : Nat) (ω : Type) where
  | runqueue (c : Fin n)
  | lk (w : ω)
  deriving DecidableEq

/-- `newstate` and `wc` of `thread_switch`. -/
inductive Newstate (ω : Type) where
  | ready
  | sleep (wc : ω)
  | zombie
  deriving DecidableEq

/-- Where a cpu is, and what is in local variables there. -/
inductive Code (n : Nat) (ω : Type) where
  /-- In the code of the current thread, or in `cpu_idle`. -/
  | out
  /-- `thread_switch`, at `spinlock_acquire(&curcpu->c_runqueue_lock)`. -/
  | switching (new : Newstate ω)
  /-- Nothing to do, at `spinlock_release(&curcpu->c_runqueue_lock)`. -/
  | nothing
  /-- `case S_SLEEP`, at `spinlock_release(lk)`. -/
  | asleep (wc : ω)
  /-- No thread to run, at `spinlock_release(&curcpu->c_runqueue_lock)`. -/
  | idling
  /-- Behind `switchframe_switch`, at `spinlock_release(&curcpu->c_runqueue_lock)`. -/
  | switched
  /-- `exorcise`. -/
  | exorcise
  /-- `thread_destroy(z)`. -/
  | destroy (z : Tid)
  /-- `thread_make_runnable(target, false)`, at `spinlock_acquire`; `list` is the private list of
  `wchan_wakeall`. -/
  | makeRunnable (target : Tid) (list : List Tid)
  /-- The same, at `spinlock_release`. -/
  | madeRunnable (targetcpu : Fin n) (list : List Tid)
  /-- `thread_consider_migration`, at the `spinlock_acquire` of the first loop. -/
  | count (i : Fin n) (rest : List (Fin n)) (myCount totalCount : Nat)
  | counted (i : Fin n) (rest : List (Fin n)) (myCount totalCount : Nat)
  /-- The loop that fills `victims`. -/
  | gather (oneShare toSend : Nat)
  | gathered (oneShare toSend : Nat) (victims : List Tid)
  /-- The loop that sends them. -/
  | send (i : Fin n) (rest : List (Fin n)) (oneShare toSend : Nat) (victims : List Tid)
  | sent (i : Fin n) (rest : List (Fin n)) (oneShare toSend : Nat) (victims : List Tid)
  /-- Leftovers. -/
  | giveBack (victims : List Tid)
  | gaveBack

variable {n : Nat} {ω : Type}

/-- The private list of `wchan_wakeall` or `thread_consider_migration`. -/
def Code.privateList : Code n ω → List Tid
  | .makeRunnable _ list | .madeRunnable _ list => list
  | .gathered _ _ victims | .send _ _ _ _ victims | .sent _ _ _ _ victims | .giveBack victims =>
      victims
  | _ => []

/-- A thread that is only in a local variable: the `target` of a wakeup or the new thread of
`thread_fork`, or the zombie that is destroyed. -/
def Code.inHand : Code n ω → List Tid
  | .destroy z => [z]
  | .makeRunnable target _ => [target]
  | _ => []

/-- The current thread is on a wait channel already, and `c_isidle` is not set yet. -/
def Code.isAsleep : Code n ω → Bool
  | .asleep _ => true
  | _ => false

/-- The cpus with their lists, the threads, and the spinlocks with the cpus that hold them. -/
structure State (n : Nat) (ω : Type) where
  runqueue : Fin n → List Tid
  zombies : Fin n → List Tid
  wcThreads : ω → List Tid
  isidle : Fin n → Bool
  curthread : Fin n → Tid
  state : Tid → ThreadState
  cpu : Tid → Fin n
  /-- The `struct thread` exists. -/
  alive : Tid → Bool
  /-- `newthread` of a `thread_fork` that the thread is in. -/
  newthread : Tid → Option Tid
  holder : Spin n ω → Option (Fin n)
  code : Fin n → Code n ω

section Loops

/-- `thread_consider_migration` behind `victims` have been sent. -/
def finish : List Tid → Code n ω
  | [] => .out
  | t :: victims => .giveBack (t :: victims)

/-- The loop over the cpus to which threads are sent. -/
def sending (c : Fin n) (oneShare toSend : Nat) (victims : List Tid) : List (Fin n) → Code n ω
  | [] => finish victims
  | i :: rest =>
      if toSend = 0 then finish victims
      else if i = c then sending c oneShare toSend victims rest
      else .send i rest oneShare toSend victims

/-- The loop over the cpus whose threads are counted, and the computation of `to_send`. -/
def counting (myCount totalCount : Nat) : List (Fin n) → Code n ω
  | [] =>
      let oneShare := (totalCount + n - 1) / n
      if myCount < oneShare then .out else .gather oneShare (myCount - oneShare)
  | i :: rest => .count i rest myCount totalCount

/-- `to_send` threads go from the tail of the run queue to the head of `victims`; `none` when the
queue runs empty. -/
def gather : Nat → List Tid → List Tid → Option (List Tid × List Tid)
  | 0, queue, victims => some (queue, victims)
  | k + 1, queue, victims =>
      match queue.getLast? with
      | none => none
      | some t => gather k queue.dropLast (t :: victims)

/-- `while (c->c_runqueue.tl_count < one_share && to_send > 0)`: the threads that go to the other
cpu, the victims that remain, and `to_send`; `none` when `victims` runs empty. -/
def sendTo (curthread : Tid) (oneShare : Nat) : Nat → Nat → List Tid →
    Option (List Tid × List Tid × Nat)
  | 0, _, victims => some ([], victims, 0)
  | toSend + 1, tlCount, victims =>
      if tlCount < oneShare then
        match victims with
        | [] => none
        | t :: victims =>
            if t = curthread then sendTo curthread oneShare toSend tlCount (victims ++ [t])
            else (sendTo curthread oneShare toSend (tlCount + 1) victims).map
              fun (ts, rest) => (t :: ts, rest)
      else some ([], victims, toSend + 1)

/-- The loop of `wchan_wakeall`, or the end of `wchan_wakeone`. -/
def waking : List Tid → Code n ω
  | [] => .out
  | target :: list => .makeRunnable target list

end Loops

section Updates

variable [DecidableEq ω] (s : State n ω) (c : Fin n)

/-- The cpu `c` goes on at `p`. -/
def State.goto (p : Code n ω) : State n ω := { s with code := Function.update s.code c p }

/-- `spinlock_acquire`. -/
def State.lock (k : Spin n ω) : State n ω :=
  { s with holder := Function.update s.holder k (some c) }

/-- `spinlock_release`. -/
def State.unlock (k : Spin n ω) : State n ω := { s with holder := Function.update s.holder k none }

def State.setState (t : Tid) (x : ThreadState) : State n ω :=
  { s with state := Function.update s.state t x }

/-- `thread_make_runnable`, with the lock. -/
def State.enqueue (t : Tid) : State n ω :=
  { s with state := Function.update s.state t .ready
           runqueue := Function.update s.runqueue (s.cpu t) (s.runqueue (s.cpu t) ++ [t]) }

/-- The threads `ts` go to the end of the run queue of `i`. -/
def State.append (i : Fin n) (ts : List Tid) : State n ω :=
  { s with runqueue := Function.update s.runqueue i (s.runqueue i ++ ts) }

/-- `curcpu->c_isidle = true`, and one round of the loop that looks for the next thread; with one,
the code up to `spinlock_release` in the context of that thread. -/
def State.pick : State n ω :=
  match s.runqueue c with
  | [] => { s with isidle := Function.update s.isidle c true }.goto c .idling
  | next :: rest =>
      { s with runqueue := Function.update s.runqueue c rest
               isidle := Function.update s.isidle c false
               curthread := Function.update s.curthread c next
               state := Function.update s.state next .run }.goto c .switched

end Updates

/-- After boot every cpu runs its first thread. -/
def boot (n : Nat) (ω : Type) (h : 0 < n) : State n ω where
  runqueue _ := []
  zombies _ := []
  wcThreads _ := []
  isidle _ := false
  curthread c := c
  state _ := .ready
  cpu t := ⟨t % n, Nat.mod_lt t h⟩
  alive t := decide (t < n)
  newthread _ := none
  holder _ := none
  code _ := .out

variable [DecidableEq ω]

/-- One step of the cpu `c`. -/
inductive Step (s : State n ω) (c : Fin n) : State n ω → Prop where
  /-- Callers of the functions of wait channels take and give back their spinlocks. -/
  | acquire {w : ω} : s.code c = .out → s.holder (.lk w) = none → Step s c (s.lock c (.lk w))
  | release {w : ω} : s.code c = .out → s.holder (.lk w) = some c → Step s c (s.unlock (.lk w))
  /-- `thread_create` in `thread_fork`. -/
  | create {t : Tid} : s.code c = .out → s.isidle c = false → s.newthread (s.curthread c) = none →
      s.alive t = false →
      Step s c { s with
        alive := Function.update s.alive t true
        state := Function.update s.state t .ready
        cpu := Function.update s.cpu t (s.cpu (s.curthread c))
        newthread := Function.update (Function.update s.newthread t none) (s.curthread c) (some t) }
  /-- `thread_fork` fails. -/
  | failed {t : Tid} : s.code c = .out → s.isidle c = false →
      s.newthread (s.curthread c) = some t →
      Step s c { s with alive := Function.update s.alive t false
                        newthread := Function.update s.newthread (s.curthread c) none }
  /-- `thread_make_runnable(newthread, false)`. -/
  | forked {t : Tid} : s.code c = .out → s.isidle c = false →
      s.newthread (s.curthread c) = some t →
      Step s c ({ s with
        newthread := Function.update s.newthread (s.curthread c) none }.goto c (.makeRunnable t []))
  /-- `thread_yield`. On an idle cpu it does nothing. -/
  | yield : s.code c = .out → s.isidle c = false → Step s c (s.goto c (.switching .ready))
  | exit : s.code c = .out → s.isidle c = false → s.newthread (s.curthread c) = none →
      Step s c (s.goto c (.switching .zombie))
  /-- `wchan_sleep`. -/
  | sleep {w : ω} : s.code c = .out → s.isidle c = false → s.newthread (s.curthread c) = none →
      s.holder (.lk w) = some c → (∀ k, k ≠ .lk w → s.holder k ≠ some c) →
      Step s c (s.goto c (.switching (.sleep w)))
  /-- `thread_switch`. -/
  | nothingToDo : s.code c = .switching .ready → s.holder (.runqueue c) = none →
      s.runqueue c = [] → Step s c ((s.lock c (.runqueue c)).goto c .nothing)
  | switchReady : s.code c = .switching .ready → s.holder (.runqueue c) = none →
      s.runqueue c ≠ [] →
      Step s c (((s.lock c (.runqueue c)).enqueue (s.curthread c)).pick c)
  | switchSleep {w : ω} : s.code c = .switching (.sleep w) → s.holder (.runqueue c) = none →
      Step s c ({ s.lock c (.runqueue c) with
        wcThreads := Function.update s.wcThreads w (s.wcThreads w ++ [s.curthread c]) }.goto c
          (.asleep w))
  | switchZombie : s.code c = .switching .zombie → s.holder (.runqueue c) = none →
      Step s c (({ s.lock c (.runqueue c) with
        zombies := Function.update s.zombies c (s.zombies c ++ [s.curthread c]) }.setState
          (s.curthread c) .zombie).pick c)
  | releaseLk {w : ω} : s.code c = .asleep w →
      Step s c (((s.unlock (.lk w)).setState (s.curthread c) .sleep).pick c)
  | idle : s.code c = .idling → Step s c ((s.unlock (.runqueue c)).goto c .out)
  | unidle : s.code c = .out → s.isidle c = true → (∀ k, s.holder k ≠ some c) →
      s.holder (.runqueue c) = none → Step s c ((s.lock c (.runqueue c)).pick c)
  | stay : s.code c = .nothing → Step s c ((s.unlock (.runqueue c)).goto c .out)
  | resume : s.code c = .switched → Step s c ((s.unlock (.runqueue c)).goto c .exorcise)
  /-- `exorcise`. -/
  | exorcised : s.code c = .exorcise → s.zombies c = [] → Step s c (s.goto c .out)
  | zombie {z : Tid} {zs : List Tid} : s.code c = .exorcise → s.zombies c = z :: zs →
      Step s c ({ s with zombies := Function.update s.zombies c zs }.goto c (.destroy z))
  | destroy {z : Tid} : s.code c = .destroy z →
      Step s c ({ s with alive := Function.update s.alive z false }.goto c .exorcise)
  /-- `wchan_wakeone`. -/
  | wakeone {w : ω} {t : Tid} {ts : List Tid} : s.code c = .out → s.holder (.lk w) = some c →
      s.wcThreads w = t :: ts →
      Step s c ({ s with wcThreads := Function.update s.wcThreads w ts }.goto c (waking [t]))
  /-- `wchan_wakeall`. -/
  | wakeall {w : ω} : s.code c = .out → s.holder (.lk w) = some c →
      Step s c ({ s with wcThreads := Function.update s.wcThreads w [] }.goto c
        (waking (s.wcThreads w)))
  | makeRunnable {t : Tid} {ts : List Tid} : s.code c = .makeRunnable t ts →
      s.holder (.runqueue (s.cpu t)) = none →
      Step s c (((s.lock c (.runqueue (s.cpu t))).enqueue t).goto c (.madeRunnable (s.cpu t) ts))
  | madeRunnable {i : Fin n} {ts : List Tid} : s.code c = .madeRunnable i ts →
      Step s c ((s.unlock (.runqueue i)).goto c (waking ts))
  /-- `thread_consider_migration`. -/
  | migration : s.code c = .out → (∀ k, s.holder k ≠ some c) →
      Step s c (s.goto c (counting 0 0 (List.finRange n)))
  | count {i : Fin n} {rest : List (Fin n)} {my total : Nat} : s.code c = .count i rest my total →
      s.holder (.runqueue i) = none →
      Step s c ((s.lock c (.runqueue i)).goto c (.counted i rest
        (if i = c then (s.runqueue i).length else my) (total + (s.runqueue i).length)))
  | counted {i : Fin n} {rest : List (Fin n)} {my total : Nat} :
      s.code c = .counted i rest my total →
      Step s c ((s.unlock (.runqueue i)).goto c (counting my total rest))
  | gather {share toSend : Nat} {queue victims : List Tid} : s.code c = .gather share toSend →
      s.holder (.runqueue c) = none → gather toSend (s.runqueue c) [] = some (queue, victims) →
      Step s c ({ s.lock c (.runqueue c) with
        runqueue := Function.update s.runqueue c queue }.goto c (.gathered share toSend victims))
  | gathered {share toSend : Nat} {victims : List Tid} :
      s.code c = .gathered share toSend victims →
      Step s c ((s.unlock (.runqueue c)).goto c
        (sending c share toSend victims (List.finRange n)))
  | send {i : Fin n} {rest : List (Fin n)} {share toSend toSend' : Nat}
      {victims ts victims' : List Tid} : s.code c = .send i rest share toSend victims →
      s.holder (.runqueue i) = none →
      sendTo (s.curthread c) share toSend (s.runqueue i).length victims =
        some (ts, victims', toSend') →
      Step s c ({ (s.lock c (.runqueue i)).append i ts with
        cpu := fun t => if t ∈ ts then i else s.cpu t }.goto c
          (.sent i rest share toSend' victims'))
  | sent {i : Fin n} {rest : List (Fin n)} {share toSend : Nat} {victims : List Tid} :
      s.code c = .sent i rest share toSend victims →
      Step s c ((s.unlock (.runqueue i)).goto c (sending c share toSend victims rest))
  | giveBack {victims : List Tid} : s.code c = .giveBack victims →
      s.holder (.runqueue c) = none →
      Step s c (((s.lock c (.runqueue c)).append c victims).goto c .gaveBack)
  | gaveBack : s.code c = .gaveBack → Step s c ((s.unlock (.runqueue c)).goto c .out)

end Os161.Thread

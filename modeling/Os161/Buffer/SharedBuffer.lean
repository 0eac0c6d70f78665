import Os161.Lib.Ring
import Os161.Synch.Awake
import Os161.Synch.Uncontended

set_option autoImplicit false

/-!
# The bounded buffer

`put_char_to_buff` and `get_char_from_buff` of `kern/shared_buffer/shared_buffer.c`, in the other
kernel `shared_buffer_produce` and `shared_buffer_consume`, for one buffer of any size and any
number of threads. The threads are a client of one sleep lock and two condition variables, so
`Synch.synch` runs them on the spinlocks and wait channels of either kernel. Every statement
between the calls is a step of its own.

`Ring` is what the buffer is when the lock is free: a queue in a circular array that holds what has
been put and not been got. A thread with the lock has changed a ring in a few fields.
-/

namespace Os161.Buffer

open Os161.Lib.Runs
open Os161.Lib.Monitor
open Os161.Lib.Ring
open Os161.Synch

variable {α : Type}

/-- `prod_cv` and `cons_cv`. -/
inductive Cv where
  | prod
  | cons
  deriving DecidableEq, Repr

/-- `Shared_Buffer` without the lock and the condition variables, and what has been put and got. An
element is noted when the critical section in which it is put or got ends. -/
structure SharedBuffer (α : Type) where
  counter : Int
  buffer : Int → α
  buffSize : Int
  in_ : Int
  out : Int
  puts : List α
  gets : List α

/-- `shared_buffer_create`: the new array is not initialised. -/
def sharedBufferCreate (bufSize : Int) (garbage : Int → α) : SharedBuffer α :=
  { counter := 0, buffer := garbage, buffSize := bufSize, in_ := 0, out := 0, puts := [], gets := [] }

/-! ## Statements -/

/-- `sb->buffer[sb->in] = c`. -/
def SharedBuffer.store (x : SharedBuffer α) (c : α) : SharedBuffer α :=
  { x with buffer := Function.update x.buffer x.in_ c }

/-- `sb->in = (sb->in + 1) % sb->BUFF_SIZE`. -/
def SharedBuffer.advanceIn (x : SharedBuffer α) : SharedBuffer α :=
  { x with in_ := (x.in_ + 1).tmod x.buffSize }

/-- `sb->counter++`. -/
def SharedBuffer.incr (x : SharedBuffer α) : SharedBuffer α :=
  { x with counter := x.counter + 1 }

/-- `sb->out = (sb->out + 1) % sb->BUFF_SIZE`. -/
def SharedBuffer.advanceOut (x : SharedBuffer α) : SharedBuffer α :=
  { x with out := (x.out + 1).tmod x.buffSize }

/-- `sb->counter--`. -/
def SharedBuffer.decr (x : SharedBuffer α) : SharedBuffer α :=
  { x with counter := x.counter - 1 }

/-- `put_char_to_buff`. -/
inductive Put where
  /-- `lock_acquire(sb->buff_lock)`. -/
  | enter
  /-- `while (sb->counter == sb->BUFF_SIZE)`. -/
  | test
  /-- `cv_wait(sb->prod_cv, sb->buff_lock)`. -/
  | wait
  /-- `thread_yield()`, when `buff_testnum` is 5. -/
  | yield5
  /-- `sb->buffer[sb->in] = c`. -/
  | store
  /-- `kprintf` in `shared_buffer_produce`. -/
  | print
  /-- `sb->in = (sb->in + 1) % sb->BUFF_SIZE`. -/
  | advance
  /-- `sb->counter++`. -/
  | count
  /-- `thread_yield()`, when `buff_testnum` is 6. -/
  | yield6
  /-- `cv_signal(sb->cons_cv, sb->buff_lock)`. -/
  | signal
  /-- `lock_release(sb->buff_lock)`. -/
  | release
  deriving DecidableEq, Repr

/-- `get_char_from_buff`, with `ret` from where it has been read. -/
inductive Get (α : Type) where
  /-- `lock_acquire(sb->buff_lock)`. -/
  | enter
  /-- `while (sb->counter == 0)`. -/
  | test
  /-- `cv_wait(sb->cons_cv, sb->buff_lock)`. -/
  | wait
  /-- `char ret = sb->buffer[sb->out]`. -/
  | load
  /-- `thread_yield()`, when `buff_testnum` is 7. -/
  | yield7 (ret : α)
  /-- `kprintf` in `shared_buffer_consume`. -/
  | print (ret : α)
  /-- `sb->out = (sb->out + 1) % sb->BUFF_SIZE`. -/
  | advance (ret : α)
  /-- `sb->counter--`. -/
  | count (ret : α)
  /-- `cv_signal(sb->prod_cv, sb->buff_lock)`. -/
  | signal (ret : α)
  /-- `lock_release(sb->buff_lock)`. -/
  | release (ret : α)
  deriving DecidableEq, Repr

/-- A thread that is in no call, or puts `c`, or gets. -/
inductive Point (α : Type) where
  | out
  | put (c : α) (p : Put)
  | get (p : Get α)
  deriving DecidableEq, Repr

/-- What follows the loop of `put_char_to_buff`. -/
def Put.afterTest : Version → Put
  | .dvz => .yield5
  | .vud => .store

/-- What follows the store. -/
def Put.afterStore : Version → Put
  | .dvz => .advance
  | .vud => .print

/-- What follows `sb->counter++`. -/
def Put.afterCount : Version → Put
  | .dvz => .yield6
  | .vud => .signal

/-- What follows the load in `get_char_from_buff`. -/
def Get.afterLoad (ret : α) : Version → Get α
  | .dvz => .yield7 ret
  | .vud => .print ret

/-- Statements between the calls. A thread that yields, or does not yield because of
`buff_testnum`, leaves the buffer alone. -/
inductive Runs (v : Version) : Point α → SharedBuffer α → Point α → SharedBuffer α → Prop where
  | callPut (c : α) (x : SharedBuffer α) : Runs v .out x (.put c .enter) x
  | callGet (x : SharedBuffer α) : Runs v .out x (.get .enter) x
  | full (c : α) (x : SharedBuffer α) : x.counter = x.buffSize →
      Runs v (.put c .test) x (.put c .wait) x
  | notFull (c : α) (x : SharedBuffer α) : x.counter ≠ x.buffSize →
      Runs v (.put c .test) x (.put c (.afterTest v)) x
  | yield5 (c : α) (x : SharedBuffer α) : Runs v (.put c .yield5) x (.put c .store) x
  | store (c : α) (x : SharedBuffer α) :
      Runs v (.put c .store) x (.put c (.afterStore v)) (x.store c)
  | printPut (c : α) (x : SharedBuffer α) : Runs v (.put c .print) x (.put c .advance) x
  | advanceIn (c : α) (x : SharedBuffer α) :
      Runs v (.put c .advance) x (.put c .count) x.advanceIn
  | incr (c : α) (x : SharedBuffer α) : Runs v (.put c .count) x (.put c (.afterCount v)) x.incr
  | yield6 (c : α) (x : SharedBuffer α) : Runs v (.put c .yield6) x (.put c .signal) x
  | empty (x : SharedBuffer α) : x.counter = 0 → Runs v (.get .test) x (.get .wait) x
  | notEmpty (x : SharedBuffer α) : x.counter ≠ 0 → Runs v (.get .test) x (.get .load) x
  | load (x : SharedBuffer α) :
      Runs v (.get .load) x (.get (.afterLoad (x.buffer x.out) v)) x
  | yield7 (ret : α) (x : SharedBuffer α) : Runs v (.get (.yield7 ret)) x (.get (.advance ret)) x
  | printGet (ret : α) (x : SharedBuffer α) : Runs v (.get (.print ret)) x (.get (.advance ret)) x
  | advanceOut (ret : α) (x : SharedBuffer α) :
      Runs v (.get (.advance ret)) x (.get (.count ret)) x.advanceOut
  | decr (ret : α) (x : SharedBuffer α) : Runs v (.get (.count ret)) x (.get (.signal ret)) x.decr

/-- Calls on the lock and the condition variables. -/
inductive Calls : Point α → Req Unit Cv → Point α → Prop where
  | putAcquire (c : α) : Calls (.put c .enter) (.acquire ()) (.put c .test)
  | putWait (c : α) : Calls (.put c .wait) (.wait .prod ()) (.put c .test)
  | putSignal (c : α) : Calls (.put c .signal) (.signal .cons ()) (.put c .release)
  | putRelease (c : α) : Calls (.put c .release) (.release ()) .out
  | getAcquire : Calls (.get .enter) (.acquire ()) (.get .test)
  | getWait : Calls (.get .wait) (.wait .cons ()) (.get .test)
  | getSignal (ret : α) : Calls (.get (.signal ret)) (.signal .prod ()) (.get (.release ret))
  | getRelease (ret : α) : Calls (.get (.release ret)) (.release ()) .out

/-- At its end a critical section is noted. -/
def note (x : SharedBuffer α) : Point α → SharedBuffer α
  | .put c .release => { x with puts := x.puts ++ [c] }
  | .get (.release ret) => { x with gets := x.gets ++ [ret] }
  | _ => x

/-- The points at which a thread has the lock. -/
def Point.locked : Point α → Bool
  | .out | .put _ .enter | .get .enter => false
  | .put _ _ | .get _ => true

theorem locked_of_runs {v : Version} {k k' : Point α} {x x' : SharedBuffer α} (h : Runs v k x k' x') :
    k'.locked = k.locked := by
  cases h <;> first | rfl | (cases v <;> rfl)

/-- Threads that put and get. -/
def bufferUsers (v : Version) (τ α : Type) : Client τ Unit Cv (SharedBuffer α) (Point α) where
  start := .out
  runs _ := Runs v
  calls := Calls
  effect _ k _ x := note x k
  owns k _ := k.locked
  owns_start _ := rfl
  owns_runs _ _ _ _ _ h := funext fun _ => locked_of_runs h
  owns_calls _ _ _ h := by
    cases h
    all_goals refine ⟨rfl, funext fun ℓ => ?_⟩
    all_goals rfl

/-! ## The buffer as a queue -/

/-- What is in the buffer, in order. -/
def SharedBuffer.contents (x : SharedBuffer α) : List α := cells x.buffer x.buffSize x.out x.counter.toNat

/-- The buffer is a queue of what has been put and not been got. -/
structure Ring (size : Int) (x : SharedBuffer α) : Prop where
  buffSize : x.buffSize = size
  counter_nonneg : 0 ≤ x.counter
  counter_le : x.counter ≤ size
  out_nonneg : 0 ≤ x.out
  out_lt : x.out < size
  in_eq : x.in_ = (x.out + x.counter) % size
  fifo : x.puts = x.gets ++ x.contents

variable {size : Int} {x : SharedBuffer α}

theorem ring_create (hsize : 0 < size) (garbage : Int → α) :
    Ring size (sharedBufferCreate size garbage) where
  buffSize := rfl
  counter_nonneg := le_rfl
  counter_le := hsize.le
  out_nonneg := le_rfl
  out_lt := hsize
  in_eq := rfl
  fifo := rfl

/-- The next index. -/
theorem tmod_next {i : Int} (hi : 0 ≤ i) : (i + 1).tmod size = (i + 1) % size :=
  Int.tmod_eq_emod_of_nonneg (by omega)

theorem Ring.in_nonneg (h : Ring size x) : 0 ≤ x.in_ := by
  have hpos : 0 < size := h.out_nonneg.trans_lt h.out_lt
  rw [h.in_eq]
  exact Int.emod_nonneg _ hpos.ne'

/-- A put puts its element at the end. -/
theorem Ring.put (h : Ring size x) (hroom : x.counter < size) (c : α) :
    Ring size (note ((x.store c).advanceIn).incr (.put c .release)) where
  buffSize := h.buffSize
  counter_nonneg := by
    have := h.counter_nonneg
    change 0 ≤ x.counter + 1
    omega
  counter_le := by
    change x.counter + 1 ≤ size
    omega
  out_nonneg := h.out_nonneg
  out_lt := h.out_lt
  in_eq := by
    change (x.in_ + 1).tmod x.buffSize = (x.out + (x.counter + 1)) % size
    rw [tmod_next h.in_nonneg, h.buffSize, h.in_eq, Int.emod_add_emod, add_assoc]
  fifo := by
    have hcounter : (x.counter.toNat : Int) = x.counter := Int.toNat_of_nonneg h.counter_nonneg
    have hnext : (x.counter + 1).toNat = x.counter.toNat + 1 := by
      have := h.counter_nonneg
      omega
    have hroom : (x.counter.toNat : Int) < size := by omega
    have hpush := cells_push x.buffer c x.out hroom
    rw [hcounter, ← h.in_eq] at hpush
    change x.puts ++ [c] = x.gets ++ cells (Function.update x.buffer x.in_ c) x.buffSize x.out
      (x.counter + 1).toNat
    rw [hnext, h.buffSize, hpush, h.fifo, List.append_assoc]
    unfold SharedBuffer.contents
    rw [h.buffSize]

/-- A get takes the first element. -/
theorem Ring.get (h : Ring size x) (hne : 0 < x.counter) :
    Ring size (note (x.advanceOut).decr (.get (.release (x.buffer x.out)))) where
  buffSize := h.buffSize
  counter_nonneg := by
    change 0 ≤ x.counter - 1
    omega
  counter_le := by
    have := h.counter_le
    change x.counter - 1 ≤ size
    omega
  out_nonneg := by
    have hpos : 0 < size := h.out_nonneg.trans_lt h.out_lt
    change 0 ≤ (x.out + 1).tmod x.buffSize
    rw [tmod_next h.out_nonneg, h.buffSize]
    exact Int.emod_nonneg _ hpos.ne'
  out_lt := by
    have hpos : 0 < size := h.out_nonneg.trans_lt h.out_lt
    change (x.out + 1).tmod x.buffSize < size
    rw [tmod_next h.out_nonneg, h.buffSize]
    exact Int.emod_lt_of_pos _ hpos
  in_eq := by
    change x.in_ = ((x.out + 1).tmod x.buffSize + (x.counter - 1)) % size
    rw [tmod_next h.out_nonneg, h.buffSize, h.in_eq, Int.emod_add_emod]
    congr 1
    omega
  fifo := by
    have hnext : x.counter.toNat = (x.counter - 1).toNat + 1 := by omega
    change x.puts = x.gets ++ [x.buffer x.out] ++ cells x.buffer x.buffSize
      ((x.out + 1).tmod x.buffSize) (x.counter - 1).toNat
    rw [tmod_next h.out_nonneg, h.buffSize, List.append_assoc, List.singleton_append,
      ← cells_pop x.buffer h.out_nonneg h.out_lt, ← hnext, h.fifo]
    unfold SharedBuffer.contents
    rw [h.buffSize]

/-! ## Inside the critical sections -/

/-- What a put that has the lock has done to the ring `y`. -/
def Put.changes (size : Int) (c : α) (p : Put) (y x : SharedBuffer α) : Prop :=
  match p with
  | .enter | .test => x = y
  | .wait => y.counter = size ∧ x = y
  | .yield5 | .store => y.counter < size ∧ x = y
  | .print | .advance => y.counter < size ∧ x = y.store c
  | .count => y.counter < size ∧ x = (y.store c).advanceIn
  | .yield6 | .signal | .release => y.counter < size ∧ x = ((y.store c).advanceIn).incr

/-- What a get that has the lock has done to the ring `y`. -/
def Get.changes (p : Get α) (y x : SharedBuffer α) : Prop :=
  match p with
  | .enter | .test => x = y
  | .wait => y.counter = 0 ∧ x = y
  | .load => 0 < y.counter ∧ x = y
  | .yield7 ret | .print ret | .advance ret => 0 < y.counter ∧ ret = y.buffer y.out ∧ x = y
  | .count ret => 0 < y.counter ∧ ret = y.buffer y.out ∧ x = y.advanceOut
  | .signal ret | .release ret => 0 < y.counter ∧ ret = y.buffer y.out ∧ x = (y.advanceOut).decr

/-- A thread with the lock has changed a ring. -/
def Changed (size : Int) (k : Point α) (x : SharedBuffer α) : Prop :=
  ∃ y, Ring size y ∧
    match k with
    | .out => x = y
    | .put c p => p.changes size c y x
    | .get p => p.changes y x

/-- Step lemma. -/
theorem Changed.runs {v : Version} {k k' : Point α} {x' : SharedBuffer α} (h : Changed size k x)
    (hr : Runs v k x k' x') : Changed size k' x' := by
  obtain ⟨y, hy, hch⟩ := h
  refine ⟨y, hy, ?_⟩
  cases hr with
  | callPut c => exact hch
  | callGet => exact hch
  | full c _ hfull =>
      obtain rfl : x = y := hch
      exact ⟨hfull.trans hy.buffSize, rfl⟩
  | notFull c _ hne =>
      obtain rfl : x = y := hch
      have hroom : x.counter < size := by
        have := hy.counter_le
        rw [hy.buffSize] at hne
        omega
      cases v <;> exact ⟨hroom, rfl⟩
  | yield5 c => exact hch
  | store c =>
      obtain ⟨hroom, rfl⟩ := hch
      cases v <;> exact ⟨hroom, rfl⟩
  | printPut c => exact hch
  | advanceIn c =>
      obtain ⟨hroom, rfl⟩ := hch
      exact ⟨hroom, rfl⟩
  | incr c =>
      obtain ⟨hroom, rfl⟩ := hch
      cases v <;> exact ⟨hroom, rfl⟩
  | yield6 c => exact hch
  | empty _ hempty =>
      obtain rfl : x = y := hch
      exact ⟨hempty, rfl⟩
  | notEmpty _ hne =>
      obtain rfl : x = y := hch
      have hpos : 0 < x.counter := by
        have := hy.counter_nonneg
        omega
      exact ⟨hpos, rfl⟩
  | load =>
      obtain ⟨hpos, rfl⟩ := hch
      cases v <;> exact ⟨hpos, rfl, rfl⟩
  | yield7 ret => exact hch
  | printGet ret => exact hch
  | advanceOut ret =>
      obtain ⟨hpos, hret, rfl⟩ := hch
      exact ⟨hpos, hret, rfl⟩
  | decr ret =>
      obtain ⟨hpos, hret, rfl⟩ := hch
      exact ⟨hpos, hret, rfl⟩

/-- The buffer is a ring when the lock is free. -/
theorem guarded (v : Version) (τ : Type) (size : Int) :
    Guarded (bufferUsers v τ α) (Ring size) (Changed size) where
  inside t k k' x x' _ hD hr := hD.runs hr
  outside t k k' x x' ho hr := by cases hr <;> first | rfl | cases ho
  acquire t k k' x hc hF := by
    cases hc with
    | putAcquire c => exact ⟨x, hF, rfl⟩
    | getAcquire => exact ⟨x, hF, rfl⟩
  release t k k' x hc hD := by
    obtain ⟨y, hy, hch⟩ := hD
    cases hc with
    | putRelease c =>
        obtain ⟨hroom, rfl⟩ := hch
        exact hy.put hroom c
    | getRelease ret =>
        obtain ⟨hpos, rfl, rfl⟩ := hch
        exact hy.get hpos
  wait t c k k' x hc hD := by
    obtain ⟨y, hy, hch⟩ := hD
    cases hc with
    | putWait c =>
        obtain ⟨-, rfl⟩ := hch
        exact hy
    | getWait =>
        obtain ⟨-, rfl⟩ := hch
        exact hy
  resume c k k' x hc hF := by
    cases hc with
    | putWait c => exact ⟨x, hF, rfl⟩
    | getWait => exact ⟨x, hF, rfl⟩
  signal t c k k' x hc hD := by
    obtain ⟨y, hy, hch⟩ := hD
    cases hc with
    | putSignal c => exact ⟨y, hy, hch⟩
    | getSignal ret => exact ⟨y, hy, hch⟩
  broadcast t c k k' x hc := by cases hc

/-- The counter stays in its range, and what has been got has been put, in the middle of the
critical sections, too. -/
structure Orderly (size : Int) (x : SharedBuffer α) : Prop where
  buffSize : x.buffSize = size
  counter_nonneg : 0 ≤ x.counter
  counter_le : x.counter ≤ size
  fifo : x.gets <+: x.puts

theorem Ring.orderly (h : Ring size x) : Orderly size x where
  buffSize := h.buffSize
  counter_nonneg := h.counter_nonneg
  counter_le := h.counter_le
  fifo := ⟨_, h.fifo.symm⟩

theorem Orderly.incr {y : SharedBuffer α} (h : Orderly size y) (hroom : y.counter < size) (c : α) :
    Orderly size ((y.store c).advanceIn).incr where
  buffSize := h.buffSize
  counter_nonneg := by
    have := h.counter_nonneg
    change 0 ≤ y.counter + 1
    omega
  counter_le := by
    change y.counter + 1 ≤ size
    omega
  fifo := h.fifo

theorem Orderly.decr {y : SharedBuffer α} (h : Orderly size y) (hpos : 0 < y.counter) :
    Orderly size (y.advanceOut).decr where
  buffSize := h.buffSize
  counter_nonneg := by
    change 0 ≤ y.counter - 1
    omega
  counter_le := by
    have := h.counter_le
    change y.counter - 1 ≤ size
    omega
  fifo := h.fifo

theorem Changed.orderly {k : Point α} (h : Changed size k x) : Orderly size x := by
  obtain ⟨y, hy, hch⟩ := h
  have ho := hy.orderly
  cases k with
  | out =>
      obtain rfl : x = y := hch
      exact ho
  | put c p =>
      cases p with
      | enter | test =>
          obtain rfl : x = y := hch
          exact ho
      | wait | yield5 | store =>
          obtain ⟨-, rfl⟩ := hch
          exact ho
      | print | advance | count =>
          obtain ⟨-, rfl⟩ := hch
          exact ⟨ho.buffSize, ho.counter_nonneg, ho.counter_le, ho.fifo⟩
      | yield6 | signal | release =>
          obtain ⟨hroom, rfl⟩ := hch
          exact ho.incr hroom c
  | get p =>
      cases p with
      | enter | test =>
          obtain rfl : x = y := hch
          exact ho
      | wait | load =>
          obtain ⟨-, rfl⟩ := hch
          exact ho
      | yield7 ret | print ret | advance ret =>
          obtain ⟨-, -, rfl⟩ := hch
          exact ho
      | count ret =>
          obtain ⟨-, -, rfl⟩ := hch
          exact ⟨ho.buffSize, ho.counter_nonneg, ho.counter_le, ho.fifo⟩
      | signal ret | release ret =>
          obtain ⟨hpos, -, rfl⟩ := hch
          exact ho.decr hpos

/-! ## Runs -/

variable {τ : Type} [DecidableEq τ] {v : Version} {s : Machine τ Unit Cv (SharedBuffer α) (Point α)}

/-- The lock and the condition variables have been created with the buffer, and nobody is in a
call. -/
abbrev start (v : Version) (τ : Type) [DecidableEq τ] (size : Int) (garbage : Int → α) :
    Machine τ Unit Cv (SharedBuffer α) (Point α) :=
  boot v (bufferUsers v τ α) (sharedBufferCreate size garbage)

theorem consistent_of_reach {garbage : Int → α} (hsize : 0 < size)
    (h : Reach (Step (synch v (bufferUsers v τ α))) anyStep (start v τ size garbage) s) :
    Consistent (bufferUsers v τ α) (Ring size) (Changed size) (abs s) :=
  (guarded v τ size).consistent (ring_create hsize garbage)
    (reach_monitor h).2

theorem orderly_of_reach {garbage : Int → α} (hsize : 0 < size)
    (h : Reach (Step (synch v (bufferUsers v τ α))) anyStep (start v τ size garbage) s) :
    Orderly size s.shared.data :=
  (consistent_of_reach hsize h).always
    (sound_of_reach (reach_monitor h).2)
    (fun _ hF => hF.orderly) fun _ _ hD => hD.orderly

/-- Elements are got in the order in which they have been put, none twice and none left out. The
counter stays between `0` and the size, and when the lock is free, `in` is as many cells ahead of
`out` as the counter says. -/
theorem sharedBuffer_fifo (v : Version) (size : Int) (hsize : 0 < size) (garbage : Int → α)
    (h : Reach (Step (synch v (bufferUsers v τ α))) anyStep (start v τ size garbage) s) :
    0 ≤ s.shared.data.counter ∧ s.shared.data.counter ≤ s.shared.data.buffSize ∧
    ((s.shared.locks ()).held = false →
      s.shared.data.in_ =
        (s.shared.data.out + s.shared.data.counter) % s.shared.data.buffSize) ∧
    s.shared.data.gets <+: s.shared.data.puts := by
  have hord := orderly_of_reach hsize h
  have hlinked := (reach_monitor h).1
  refine ⟨hord.counter_nonneg, ?_, fun hfree => ?_, hord.fifo⟩
  · rw [hord.buffSize]
    exact hord.counter_le
  · rw [hord.buffSize]
    exact ((consistent_of_reach hsize h).free (hlinked.holder_of_free hfree)).in_eq

/-- Thread `1` puts `7` in a buffer of size `1`, and `2` gets it. -/
theorem sharedBuffer_fifo_put_get :
    ∃ s : Machine Nat Unit Cv (SharedBuffer Nat) (Point Nat), s.shared.data.gets = [7] ∧
      s.shared.data.gets <+: s.shared.data.puts := by
  have begin : Reach (Step (synch .dvz (bufferUsers .dvz Nat Nat))) anyStep
      (start .dvz Nat 1 fun _ => 0) _ := .refl
  have locked := reach_lockAcquire (t := 1) allowsCalls_anyStep
    (begin.tail (a := 1) trivial (.run rfl (.client (.callPut 7 _)))) trivial rfl (.putAcquire 7) rfl
    rfl
  have stored := locked.tail (a := 1) trivial (.run rfl (.client (.notFull 7 _ (by decide))))
    |>.tail (a := 1) trivial (.run rfl (.client (.yield5 7 _)))
    |>.tail (a := 1) trivial (.run rfl (.client (.store 7 _)))
    |>.tail (a := 1) trivial (.run rfl (.client (.advanceIn 7 _)))
    |>.tail (a := 1) trivial (.run rfl (.client (.incr 7 _)))
    |>.tail (a := 1) trivial (.run rfl (.client (.yield6 7 _)))
  have signalled := reach_cvWake false (t := 1) allowsCalls_anyStep stored trivial rfl (.putSignal 7)
    rfl rfl rfl
  have released := reach_lockRelease (t := 1) allowsCalls_anyStep signalled trivial rfl
    (.putRelease 7) rfl rfl rfl
  have locked₂ := reach_lockAcquire (t := 2) allowsCalls_anyStep
    (released.tail (a := 2) trivial (.run rfl (.client (.callGet _)))) trivial rfl .getAcquire rfl rfl
  have taken := locked₂.tail (a := 2) trivial (.run rfl (.client (.notEmpty _ (by decide))))
    |>.tail (a := 2) trivial (.run rfl (.client (.load _)))
    |>.tail (a := 2) trivial (.run rfl (.client (.yield7 _ _)))
    |>.tail (a := 2) trivial (.run rfl (.client (.advanceOut _ _)))
    |>.tail (a := 2) trivial (.run rfl (.client (.decr _ _)))
  have signalled₂ := reach_cvWake false (t := 2) allowsCalls_anyStep taken trivial rfl (.getSignal _)
    rfl rfl rfl
  have released₂ := reach_lockRelease (t := 2) allowsCalls_anyStep signalled₂ trivial rfl
    (.getRelease _) rfl rfl rfl
  exact ⟨_, rfl, (sharedBuffer_fifo .dvz 1 (by decide) _ released₂).2.2.2⟩

end Os161.Buffer

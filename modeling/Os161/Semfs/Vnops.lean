import Os161.Synch.Awake

set_option autoImplicit false

/-!
# User-level semaphores

`semfs_read`, `semfs_write` and `semfs_truncate` of `kern/fs/semfs/semfs_vnops.c`, which is the same
file in both kernels, on one semaphore and for any number of threads. The threads are a client of
`sems_lock` and `sems_cv`, and every statement between the calls is a step of its own. Both
`semfs_write` and `semfs_truncate` call `semfs_wakeup` before they store the new count.
-/

namespace Os161.Semfs

open Os161.Lib.Runs
open Os161.Lib.Monitor
open Os161.Synch

/-- `unsigned` and `size_t`. -/
abbrev Word : Type := BitVec 32

/-- `struct semfs_sem` without the lock and the condition variable. -/
structure SemfsSem where
  count : Word
  deriving DecidableEq, Repr

/-- `semfs_sem_create`. -/
def semfsSemCreate : SemfsSem := { count := 0 }

/-- `semfs_read`. -/
inductive Read where
  /-- `lock_acquire(sem->sems_lock)`. -/
  | enter
  /-- `while (uio->uio_resid > 0)`. -/
  | test
  /-- `if (sem->sems_count > 0)`, with its body. -/
  | consume
  /-- `if (uio->uio_resid == 0) break`. -/
  | check
  /-- `if (sem->sems_count == 0)`. -/
  | block
  /-- `cv_wait(sem->sems_cv, sem->sems_lock)`. -/
  | wait
  /-- `lock_release(sem->sems_lock)`. -/
  | release
  deriving DecidableEq, Repr

/-- `semfs_write`. -/
inductive Write where
  /-- `lock_acquire(sem->sems_lock)`. -/
  | enter
  /-- `while (uio->uio_resid > 0)`, and the test for an overflow. -/
  | test
  /-- `lock_release(sem->sems_lock)`. -/
  | release
  deriving DecidableEq, Repr

/-- `semfs_truncate`. -/
inductive Truncate where
  /-- The tests of `len`. -/
  | check
  /-- `lock_acquire(sem->sems_lock)`. -/
  | enter
  /-- The call of `semfs_wakeup`. -/
  | locked
  /-- `lock_release(sem->sems_lock)`. -/
  | release
  deriving DecidableEq, Repr

/-- `semfs_wakeup`. -/
inductive Wakeup where
  /-- The tests of the old and the new count. -/
  | test
  /-- `cv_signal(sem->sems_cv, sem->sems_lock)`. -/
  | signal
  /-- `cv_broadcast(sem->sems_cv, sem->sems_lock)`. -/
  | broadcast
  deriving DecidableEq, Repr

/-- Who has called `semfs_wakeup`. -/
inductive Poster where
  | write
  | truncate (len : BitVec 64)
  deriving DecidableEq, Repr

/-- A thread in no call, or in one of the functions, with `uio_resid`. -/
inductive Point where
  | out
  | read (resid : Word) (p : Read)
  | write (resid : Word) (p : Write)
  | truncate (len : BitVec 64) (p : Truncate)
  /-- In `semfs_wakeup(sem, newcount)`. -/
  | wakeup (f : Poster) (newcount : Word) (p : Wakeup)
  /-- `sem->sems_count = newcount`, and `uio->uio_resid = 0` in `semfs_write`. -/
  | store (f : Poster) (newcount : Word)
  deriving DecidableEq, Repr

/-- Behind the store of the new count. -/
def Poster.stored : Poster → Point
  | .write => .write 0 .test
  | .truncate len => .truncate len .release

/-- `consume = uio->uio_resid`, but not more than `sem->sems_count`. -/
def consume (resid count : Word) : Word := if count < resid then count else resid

/-- Steps between the calls on the lock and the condition variable. -/
inductive Runs : Point → SemfsSem → Point → SemfsSem → Prop where
  | callRead (resid : Word) (x : SemfsSem) : Runs .out x (.read resid .enter) x
  | callWrite (resid : Word) (x : SemfsSem) : Runs .out x (.write resid .enter) x
  | callTruncate (len : BitVec 64) (x : SemfsSem) : Runs .out x (.truncate len .check) x
  | readDone {resid : Word} (x : SemfsSem) : resid = 0 →
      Runs (.read resid .test) x (.read resid .release) x
  | readMore {resid : Word} (x : SemfsSem) : resid ≠ 0 →
      Runs (.read resid .test) x (.read resid .consume) x
  | consume {resid : Word} (x : SemfsSem) : x.count ≠ 0 →
      Runs (.read resid .consume) x (.read (resid - consume resid x.count) .check)
        { count := x.count - consume resid x.count }
  | nothing {resid : Word} (x : SemfsSem) : x.count = 0 →
      Runs (.read resid .consume) x (.read resid .check) x
  | breakLoop {resid : Word} (x : SemfsSem) : resid = 0 →
      Runs (.read resid .check) x (.read resid .release) x
  | stay {resid : Word} (x : SemfsSem) : resid ≠ 0 →
      Runs (.read resid .check) x (.read resid .block) x
  | block {resid : Word} (x : SemfsSem) : x.count = 0 →
      Runs (.read resid .block) x (.read resid .wait) x
  | again {resid : Word} (x : SemfsSem) : x.count ≠ 0 →
      Runs (.read resid .block) x (.read resid .test) x
  | writeDone {resid : Word} (x : SemfsSem) : resid = 0 →
      Runs (.write resid .test) x (.write resid .release) x
  -- `return EFBIG`
  | overflow {resid : Word} (x : SemfsSem) : resid ≠ 0 → x.count + resid < x.count →
      Runs (.write resid .test) x (.write resid .release) x
  | post {resid : Word} (x : SemfsSem) : resid ≠ 0 → ¬ x.count + resid < x.count →
      Runs (.write resid .test) x (.wakeup .write (x.count + resid) .test) x
  -- `return EINVAL`
  | negative {len : BitVec 64} (x : SemfsSem) : len.slt 0 = true →
      Runs (.truncate len .check) x .out x
  -- `return EFBIG`
  | tooBig {len : BitVec 64} (x : SemfsSem) : len.slt 0 = false →
      (0xffffffff : BitVec 64).slt len = true → Runs (.truncate len .check) x .out x
  | fits {len : BitVec 64} (x : SemfsSem) : len.slt 0 = false →
      (0xffffffff : BitVec 64).slt len = false →
      Runs (.truncate len .check) x (.truncate len .enter) x
  | set (len : BitVec 64) (x : SemfsSem) :
      Runs (.truncate len .locked) x (.wakeup (.truncate len) (len.setWidth 32) .test) x
  | skip (f : Poster) {newcount : Word} (x : SemfsSem) : x.count ≠ 0 ∨ newcount = 0 →
      Runs (.wakeup f newcount .test) x (.store f newcount) x
  | one (f : Poster) {newcount : Word} (x : SemfsSem) : x.count = 0 → newcount = 1 →
      Runs (.wakeup f newcount .test) x (.wakeup f newcount .signal) x
  | all (f : Poster) {newcount : Word} (x : SemfsSem) : x.count = 0 → newcount ≠ 0 →
      newcount ≠ 1 → Runs (.wakeup f newcount .test) x (.wakeup f newcount .broadcast) x
  | store (f : Poster) (newcount : Word) (x : SemfsSem) :
      Runs (.store f newcount) x f.stored { count := newcount }

/-- Calls on the lock and the condition variable. -/
inductive Calls : Point → Req Unit Unit → Point → Prop where
  | readAcquire (resid : Word) : Calls (.read resid .enter) (.acquire ()) (.read resid .test)
  | readWait (resid : Word) : Calls (.read resid .wait) (.wait () ()) (.read resid .test)
  | readRelease (resid : Word) : Calls (.read resid .release) (.release ()) .out
  | writeAcquire (resid : Word) : Calls (.write resid .enter) (.acquire ()) (.write resid .test)
  | writeRelease (resid : Word) : Calls (.write resid .release) (.release ()) .out
  | truncateAcquire (len : BitVec 64) :
      Calls (.truncate len .enter) (.acquire ()) (.truncate len .locked)
  | truncateRelease (len : BitVec 64) : Calls (.truncate len .release) (.release ()) .out
  | signal (f : Poster) (newcount : Word) :
      Calls (.wakeup f newcount .signal) (.signal () ()) (.store f newcount)
  | broadcast (f : Poster) (newcount : Word) :
      Calls (.wakeup f newcount .broadcast) (.broadcast () ()) (.store f newcount)

/-- The points at which a thread has `sems_lock`. -/
def Point.locked : Point → Bool
  | .out | .read _ .enter | .write _ .enter | .truncate _ .check | .truncate _ .enter => false
  | _ => true

/-- Threads that use the semaphore. -/
def semfsUsers (τ : Type) : Client τ Unit Unit SemfsSem Point where
  start := .out
  runs _ := Runs
  calls := Calls
  effect _ _ _ x := x
  owns k _ := k.locked
  owns_start _ := rfl
  owns_runs _ _ _ _ _ h := by
    cases h
    case store f newcount => cases f <;> rfl
    all_goals rfl
  owns_calls _ _ _ h := by
    cases h
    all_goals refine ⟨rfl, funext fun ℓ => ?_⟩
    all_goals rfl

end Os161.Semfs

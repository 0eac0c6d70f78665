import Mathlib.Data.Finset.Card
import Os161.Lib.Runs
import Os161.Proc.Table

set_option autoImplicit false

/-!
# Threads and the processes they belong to

`proc_addthread`, `proc_remthread`, `thread_exit` and the callers that add a thread to a process:
`thread_fork` into the process of the caller (kernel tests, the threads of new cpus), and
`common_prog` and `fork`, which make a process first. `proc_remthread` is split after the
decrement of `p_numthreads`, where it has given up `p_lock`; another cpu can run before
`proc_destroy` is called. A step that would fail an assertion has no successor state, so the
results say that no thread is ever in front of such a step.

`proc_remthread` calls `proc_destroy` for every thread that leaves, whatever is left in the
process; `destroysExactly_of_leavesLast` says when that is right.
-/

namespace Os161.Lifetime

open Os161.Lib.Runs
open Os161.Lib.Slots (update_eq_some)
open Os161.Proc (kproc)

/-! ## The machine -/

/-- Address of a `struct thread`. -/
abbrev ThreadRef : Type := Nat

/-- Where a thread is. -/
inductive Point where
  | running
  /-- It has made the process `q` and has not yet put a thread into it. -/
  | holding (q : ProcRef)
  /-- In `proc_remthread`, after `p_numthreads--`: `proc_destroy(t->t_proc)` is next. -/
  | leaving
  deriving DecidableEq, Repr

/-- `struct thread`. -/
structure Thread where
  tProc : ProcRef
  point : Point
  deriving DecidableEq, Repr

/-- The threads, and `p_numthreads` of every process that exists. -/
structure Threads where
  threads : ThreadRef → Option Thread
  nextThread : ThreadRef
  pNumthreads : ProcRef → Option Nat
  nextProc : ProcRef
  /-- The processes that have had a thread; nothing the kernel does depends on it. -/
  served : List ProcRef

/-- The boot thread in the kernel's own process. -/
def bootThread : Threads :=
  { threads := fun t => if t = 0 then some ⟨kproc, .running⟩ else none
    nextThread := 1
    pNumthreads := fun p => if p = kproc then some 1 else none
    nextProc := 1
    served := [kproc] }

/-- The thread `t` goes to another point. -/
def Threads.goto (m : Threads) (t : ThreadRef) (T : Thread) (point : Point) : Threads :=
  { m with threads := Function.update m.threads t (some { T with point := point }) }

/-- `proc_addthread` with a new thread. -/
def procAddthread (m : Threads) (p : ProcRef) : Option Threads :=
  (m.pNumthreads p).map fun n =>
    { m with
      threads := Function.update m.threads m.nextThread (some ⟨p, .running⟩)
      nextThread := m.nextThread + 1
      pNumthreads := Function.update m.pNumthreads p (some (n + 1))
      served := p :: m.served }

/-- `proc_create`. -/
def procCreate (m : Threads) : Threads :=
  { m with
    pNumthreads := Function.update m.pNumthreads m.nextProc (some 0)
    nextProc := m.nextProc + 1 }

/-- The part of `proc_remthread` under `p_lock`. -/
def procRemthread (m : Threads) (p : ProcRef) : Option Threads :=
  match m.pNumthreads p with
  | some (n + 1) => some { m with pNumthreads := Function.update m.pNumthreads p (some n) }
  | _ => none

/-- `proc_destroy`, with its two assertions. -/
def procDestroy (m : Threads) (p : ProcRef) : Option Threads :=
  if p ≠ kproc ∧ m.pNumthreads p = some 0 then
    some { m with pNumthreads := Function.update m.pNumthreads p none }
  else none

/-- What a thread does next. -/
inductive Move where
  /-- `thread_fork` with the process NULL: into the process of the caller. -/
  | threadFork
  /-- `proc_create_runprogram`. -/
  | create
  /-- `thread_fork` into the process the caller has made. -/
  | forkInto
  /-- The process is destroyed again, as in `common_prog` when `thread_fork` has failed. -/
  | discard
  /-- The process is left alone, as in `fork` when `thread_fork` has failed. -/
  | forget
  /-- `thread_exit`, up to the decrement in `proc_remthread`. -/
  | threadExit
  /-- `proc_destroy(t->t_proc)` and the rest of `thread_exit`. -/
  | destroy
  deriving DecidableEq, Repr

/-- A move and the thread that makes it. -/
structure Action where
  thread : ThreadRef
  move : Move

/-- One move of the thread `t`, which is `T`. -/
def advance (m : Threads) (t : ThreadRef) (T : Thread) : Move → Option Threads
  | .threadFork => if T.point = .running then procAddthread m T.tProc else none
  | .create =>
      if T.point = .running then some ((procCreate m).goto t T (.holding m.nextProc)) else none
  | .forkInto =>
      match T.point with
      | .holding q => procAddthread (m.goto t T .running) q
      | _ => none
  | .discard =>
      match T.point with
      | .holding q => procDestroy (m.goto t T .running) q
      | _ => none
  | .forget =>
      match T.point with
      | .holding _ => some (m.goto t T .running)
      | _ => none
  | .threadExit =>
      if T.point = .running then procRemthread (m.goto t T .leaving) T.tProc else none
  | .destroy =>
      if T.point = .leaving then
        procDestroy { m with threads := Function.update m.threads t none } T.tProc
      else none

/-- One step of the machine, computed. -/
def exec (m : Threads) (a : Action) : Option Threads :=
  (m.threads a.thread).bind fun T => advance m a.thread T a.move

/-- One step of the machine. -/
def step (m : Threads) (a : Action) (m' : Threads) : Prop := exec m a = some m'

/-! ## What a step does -/

theorem procAddthread_eq_some {m m' : Threads} {p : ProcRef} :
    procAddthread m p = some m' ↔ ∃ n, m.pNumthreads p = some n ∧
      m' = { m with
        threads := Function.update m.threads m.nextThread (some ⟨p, .running⟩)
        nextThread := m.nextThread + 1
        pNumthreads := Function.update m.pNumthreads p (some (n + 1))
        served := p :: m.served } := by
  unfold procAddthread
  rw [Option.map_eq_some_iff]
  constructor
  · rintro ⟨n, hn, rfl⟩
    exact ⟨n, hn, rfl⟩
  · rintro ⟨n, hn, rfl⟩
    exact ⟨n, hn, rfl⟩

theorem procRemthread_eq_some {m m' : Threads} {p : ProcRef} :
    procRemthread m p = some m' ↔ ∃ n, m.pNumthreads p = some (n + 1) ∧
      m' = { m with pNumthreads := Function.update m.pNumthreads p (some n) } := by
  unfold procRemthread
  rcases h : m.pNumthreads p with - | - | n
  · simp
  · simp
  · simp [eq_comm]

theorem procDestroy_eq_some {m m' : Threads} {p : ProcRef} :
    procDestroy m p = some m' ↔ p ≠ kproc ∧ m.pNumthreads p = some 0 ∧
      m' = { m with pNumthreads := Function.update m.pNumthreads p none } := by
  unfold procDestroy
  split_ifs with h
  · simp [h, eq_comm]
  · constructor
    · intro h'
      cases h'
    · rintro ⟨h₁, h₂, -⟩
      exact absurd ⟨h₁, h₂⟩ h

/-- What a step of the thread `t`, which is `T`, does. -/
inductive Effect (m : Threads) (t : ThreadRef) (T : Thread) (move : Move) (m' : Threads) : Prop where
  /-- A thread more in a process that exists: the caller's, or one it has made. -/
  | added (p : ProcRef) (n : Nat) : move ≠ .threadExit →
      (T.point = .running ∧ p = T.tProc) ∨ T.point = .holding p → m.pNumthreads p = some n →
      m' = { m with
        threads := Function.update (Function.update m.threads t (some ⟨T.tProc, .running⟩))
          m.nextThread (some ⟨p, .running⟩)
        nextThread := m.nextThread + 1
        pNumthreads := Function.update m.pNumthreads p (some (n + 1))
        served := p :: m.served } → Effect m t T move m'
  | created : T.point = .running →
      m' = { m with
        threads := Function.update m.threads t (some ⟨T.tProc, .holding m.nextProc⟩)
        pNumthreads := Function.update m.pNumthreads m.nextProc (some 0)
        nextProc := m.nextProc + 1 } → Effect m t T move m'
  | discarded (q : ProcRef) : T.point = .holding q →
      m' = { m with
        threads := Function.update m.threads t (some ⟨T.tProc, .running⟩)
        pNumthreads := Function.update m.pNumthreads q none } → Effect m t T move m'
  | forgot (q : ProcRef) : T.point = .holding q →
      m' = { m with threads := Function.update m.threads t (some ⟨T.tProc, .running⟩) } →
      Effect m t T move m'
  | left (n : Nat) : move = .threadExit → T.point = .running →
      m.pNumthreads T.tProc = some (n + 1) →
      m' = { m with
        threads := Function.update m.threads t (some ⟨T.tProc, .leaving⟩)
        pNumthreads := Function.update m.pNumthreads T.tProc (some n) } → Effect m t T move m'
  | destroyed : T.point = .leaving →
      m' = { m with
        threads := Function.update m.threads t none
        pNumthreads := Function.update m.pNumthreads T.tProc none } → Effect m t T move m'

theorem effect_of_step {m m' : Threads} {a : Action} (h : step m a m') :
    ∃ T, m.threads a.thread = some T ∧ Effect m a.thread T a.move m' := by
  obtain ⟨t, move⟩ := a
  obtain ⟨T, hT, h⟩ := Option.bind_eq_some_iff.1 h
  refine ⟨T, hT, ?_⟩
  obtain ⟨p, point⟩ := T
  -- a thread that stays where it is
  have hstay : Function.update m.threads t (some ⟨p, point⟩) = m.threads := by
    rw [← hT, Function.update_eq_self]
  cases move with
  | threadFork =>
      simp only [advance] at h
      split_ifs at h with hpt
      obtain ⟨n, hn, rfl⟩ := procAddthread_eq_some.1 h
      obtain rfl : point = .running := hpt
      refine .added p n (by simp) (.inl ⟨rfl, rfl⟩) hn ?_
      rw [hstay]
  | create =>
      simp only [advance] at h
      split_ifs at h with hpt
      cases h
      exact .created hpt rfl
  | forkInto =>
      cases point with
      | holding q =>
          obtain ⟨n, hn, rfl⟩ := procAddthread_eq_some.1 h
          exact .added q n (by simp) (.inr rfl) hn rfl
      | running => cases h
      | leaving => cases h
  | discard =>
      cases point with
      | holding q =>
          obtain ⟨-, -, rfl⟩ := procDestroy_eq_some.1 h
          exact .discarded q rfl rfl
      | running => cases h
      | leaving => cases h
  | forget =>
      cases point with
      | holding q =>
          cases h
          exact .forgot q rfl rfl
      | running => cases h
      | leaving => cases h
  | threadExit =>
      simp only [advance] at h
      split_ifs at h with hpt
      obtain ⟨n, hn, rfl⟩ := procRemthread_eq_some.1 h
      exact .left n rfl hpt hn rfl
  | destroy =>
      simp only [advance] at h
      split_ifs at h with hpt
      obtain ⟨-, -, rfl⟩ := procDestroy_eq_some.1 h
      exact .destroyed hpt rfl

/-! ## When every destruction is right -/

/-- Every call of `proc_destroy` a thread is in front of meets the assertions there, and a process
whose last thread has left is destroyed. -/
structure DestroysExactly (m : Threads) : Prop where
  /-- A leaving thread is the last one of a process other than the kernel's. -/
  leaving : ∀ t T, m.threads t = some T → T.point = .leaving →
    T.tProc ≠ kproc ∧ m.pNumthreads T.tProc = some 0
  /-- So is the process that a caller of `thread_fork` may have to destroy. -/
  holding : ∀ t T q, m.threads t = some T → T.point = .holding q →
    q ≠ kproc ∧ m.pNumthreads q = some 0
  kproc : m.pNumthreads kproc ≠ none
  /-- The process of a thread has not been destroyed. -/
  alive : ∀ t T, m.threads t = some T → m.pNumthreads T.tProc ≠ none
  /-- A process that has lost its last thread is about to be destroyed. -/
  last : ∀ p, p ∈ m.served → m.pNumthreads p = some 0 →
    ∃ t T, m.threads t = some T ∧ T.tProc = p ∧ T.point = .leaving

/-- `thread_exit` is called by the only thread of a process other than the kernel's. -/
def LeavesLast (m : Threads) (a : Action) : Prop :=
  a.move = .threadExit → ∀ T, m.threads a.thread = some T →
    T.tProc ≠ kproc ∧ m.pNumthreads T.tProc = some 1

/-- The thread `t` is in the process `p` and not on its way out. -/
def Attached (m : Threads) (p : ProcRef) (t : ThreadRef) : Prop :=
  ∃ T, m.threads t = some T ∧ T.tProc = p ∧ T.point ≠ .leaving

/-- `n` threads have `P`. -/
def Count (P : ThreadRef → Prop) (n : Nat) : Prop :=
  ∃ S : Finset ThreadRef, S.card = n ∧ ∀ t, t ∈ S ↔ P t

theorem Count.congr {P Q : ThreadRef → Prop} {n : Nat} (h : Count P n) (hPQ : ∀ t, Q t ↔ P t) :
    Count Q n := by
  obtain ⟨S, hcard, hS⟩ := h
  exact ⟨S, hcard, fun t => (hS t).trans (hPQ t).symm⟩

theorem Count.insert {P Q : ThreadRef → Prop} {n : Nat} {t₀ : ThreadRef} (h : Count P n)
    (hnot : ¬ P t₀) (hPQ : ∀ t, Q t ↔ t = t₀ ∨ P t) : Count Q (n + 1) := by
  obtain ⟨S, hcard, hS⟩ := h
  refine ⟨Insert.insert t₀ S, ?_, fun t => ?_⟩
  · rw [Finset.card_insert_of_notMem fun hm => hnot ((hS t₀).1 hm), hcard]
  · rw [Finset.mem_insert, hS, hPQ]

theorem Count.erase {P Q : ThreadRef → Prop} {n : Nat} {t₀ : ThreadRef} (h : Count P (n + 1))
    (hP : P t₀) (hPQ : ∀ t, Q t ↔ t ≠ t₀ ∧ P t) : Count Q n := by
  obtain ⟨S, hcard, hS⟩ := h
  refine ⟨S.erase t₀, ?_, fun t => ?_⟩
  · rw [Finset.card_erase_of_mem ((hS t₀).2 hP), hcard, Nat.add_sub_cancel]
  · rw [Finset.mem_erase, hS, hPQ]

theorem Count.not_of_zero {P : ThreadRef → Prop} (h : Count P 0) (t : ThreadRef) : ¬ P t := by
  obtain ⟨S, hcard, hS⟩ := h
  rw [← hS, Finset.card_eq_zero.1 hcard]
  exact Finset.notMem_empty t

/-- The invariant: besides what is to be shown, `p_numthreads` counts the threads. -/
structure Sound (m : Threads) : Prop extends DestroysExactly m where
  freshThread : ∀ t T, m.threads t = some T → t < m.nextThread
  freshProc : ∀ p n, m.pNumthreads p = some n → p < m.nextProc
  freshServed : ∀ p, p ∈ m.served → p < m.nextProc
  count : ∀ p n, m.pNumthreads p = some n → Count (Attached m p) n
  sole : ∀ t T t' T', m.threads t = some T → m.threads t' = some T' → T.point = .leaving →
    T'.tProc = T.tProc → t' = t
  unstarted : ∀ t T q t' T', m.threads t = some T → T.point = .holding q →
    m.threads t' = some T' → T'.tProc ≠ q ∧ (T'.point = .holding q → t' = t)

section Steps

variable {m : Threads} {t : ThreadRef} {T : Thread}

/-- `Attached`, when one thread is replaced. -/
theorem attached_update {x : Option Thread} {p : ProcRef} {u : ThreadRef} {n : ThreadRef}
    {num : ProcRef → Option Nat} {k : ProcRef} {l : List ProcRef} :
    Attached ⟨Function.update m.threads t x, n, num, k, l⟩ p u ↔
      if u = t then ∃ U, x = some U ∧ U.tProc = p ∧ U.point ≠ .leaving else Attached m p u := by
  by_cases h : u = t
  · subst h
    simp [Attached]
  · simp [Attached, h]

/-- Where a thread that stays in its process stands does not matter for the count. -/
theorem attached_moved {point : Point} {p : ProcRef} {u : ThreadRef} {n : ThreadRef}
    {num : ProcRef → Option Nat} {k : ProcRef} {l : List ProcRef} (hT : m.threads t = some T)
    (hold : T.point ≠ .leaving) (hnew : point ≠ .leaving) :
    Attached ⟨Function.update m.threads t (some ⟨T.tProc, point⟩), n, num, k, l⟩ p u ↔
      Attached m p u := by
  rw [attached_update]
  split_ifs with hu
  · subst hu
    simp [Attached, hT, hold, hnew]
  · rfl

theorem Sound.tProc_lt (h : Sound m) {u : ThreadRef} {U : Thread} (hU : m.threads u = some U) :
    U.tProc < m.nextProc := by
  obtain ⟨n, hn⟩ := Option.ne_none_iff_exists'.1 (h.alive u U hU)
  exact h.freshProc _ n hn

theorem Sound.kproc_lt (h : Sound m) : kproc < m.nextProc := by
  obtain ⟨n, hn⟩ := Option.ne_none_iff_exists'.1 h.kproc
  exact h.freshProc _ n hn

/-- A leaving thread other than `t` is still there when `t` is replaced. -/
theorem last_update {x : Option Thread} {p : ProcRef} (hT : m.threads t = some T)
    (h : ∃ u U, m.threads u = some U ∧ U.tProc = p ∧ U.point = .leaving)
    (hne : T.tProc ≠ p ∨ T.point ≠ .leaving) :
    ∃ u U, Function.update m.threads t x u = some U ∧ U.tProc = p ∧ U.point = .leaving := by
  obtain ⟨u, U, hU, hp, hl⟩ := h
  have hut : u ≠ t := by
    rintro rfl
    rw [hT] at hU
    cases hU
    rcases hne with hne | hne
    · exact hne hp
    · exact hne hl
  exact ⟨u, U, by rw [Function.update_of_ne hut, hU], hp, hl⟩

/-- What one thread may do to the counters of processes when it stays in its process or ends, and
holds no process afterwards. -/
structure GivesUp (m : Threads) (t : ThreadRef) (T : Thread) (x : Option Thread)
    (num : ProcRef → Option Nat) : Prop where
  stays : ∀ X, x = some X → X.tProc = T.tProc ∧ (∀ q, X.point ≠ .holding q) ∧ num T.tProc ≠ none
  /-- A thread that begins to leave is the last one in its process. -/
  leaves : ∀ X, x = some X → X.point = .leaving → T.tProc ≠ kproc ∧ num T.tProc = some 0 ∧
    ∀ u U, m.threads u = some U → u ≠ t → U.tProc ≠ T.tProc
  /-- Processes that other threads are in or hold keep their counter. -/
  others : ∀ u U p, m.threads u = some U → u ≠ t → U.tProc = p ∨ U.point = .holding p →
    num p = m.pNumthreads p
  kproc : num kproc ≠ none
  known : ∀ p n, num p = some n → m.pNumthreads p ≠ none
  last : ∀ p, p ∈ m.served → num p = some 0 →
    ∃ u U, Function.update m.threads t x u = some U ∧ U.tProc = p ∧ U.point = .leaving
  count : ∀ p n, num p = some n →
    Count (Attached { m with threads := Function.update m.threads t x } p) n

/-- Such a step keeps the invariant. -/
theorem Sound.givesUp {x : Option Thread} {num : ProcRef → Option Nat} (h : Sound m)
    (hT : m.threads t = some T) (hx : GivesUp m t T x num) :
    Sound { m with threads := Function.update m.threads t x, pNumthreads := num } := by
  refine ⟨⟨?_, ?_, hx.kproc, ?_, hx.last⟩, ?_, ?_, h.freshServed, hx.count, ?_, ?_⟩
  · intro u U hU hl
    rcases update_eq_some hU with ⟨-, he⟩ | ⟨hu, hU⟩
    · obtain ⟨hk, h0, -⟩ := hx.leaves U he hl
      rw [(hx.stays U he).1]
      exact ⟨hk, h0⟩
    · obtain ⟨hk, h0⟩ := h.leaving u U hU hl
      exact ⟨hk, (hx.others u U _ hU hu (.inl rfl)).trans h0⟩
  · intro u U q hU hq
    rcases update_eq_some hU with ⟨-, he⟩ | ⟨hu, hU⟩
    · exact absurd hq ((hx.stays U he).2.1 q)
    · obtain ⟨hk, h0⟩ := h.holding u U q hU hq
      exact ⟨hk, (hx.others u U q hU hu (.inr hq)).trans h0⟩
  · intro u U hU
    rcases update_eq_some hU with ⟨-, he⟩ | ⟨hu, hU⟩
    · obtain ⟨htp, -, hne⟩ := hx.stays U he
      rw [htp]
      exact hne
    · exact fun h0 => h.alive u U hU ((hx.others u U _ hU hu (.inl rfl)).symm.trans h0)
  · intro u U hU
    rcases update_eq_some hU with ⟨rfl, -⟩ | ⟨-, hU⟩
    · exact h.freshThread _ T hT
    · exact h.freshThread u U hU
  · intro p n hn
    obtain ⟨k, hk⟩ := Option.ne_none_iff_exists'.1 (hx.known p n hn)
    exact h.freshProc p k hk
  · intro u U u' U' hU hU' hl hp
    rcases update_eq_some hU with ⟨rfl, he⟩ | ⟨-, hU₀⟩
    · rcases update_eq_some hU' with ⟨rfl, -⟩ | ⟨hu', hU'⟩
      · rfl
      · exact absurd (hp.trans (hx.stays U he).1) ((hx.leaves U he hl).2.2 u' U' hU' hu')
    · rcases update_eq_some hU' with ⟨rfl, he'⟩ | ⟨-, hU'⟩
      · exact h.sole u U _ T hU₀ hT hl ((hx.stays U' he').1.symm.trans hp)
      · exact h.sole u U u' U' hU₀ hU' hl hp
  · intro u U q u' U' hU hq hU'
    rcases update_eq_some hU with ⟨-, he⟩ | ⟨-, hU₀⟩
    · exact absurd hq ((hx.stays U he).2.1 q)
    · rcases update_eq_some hU' with ⟨rfl, he'⟩ | ⟨-, hU'⟩
      · obtain ⟨htp, hpt, -⟩ := hx.stays U' he'
        rw [htp]
        exact ⟨(h.unstarted u U q _ T hU₀ hq hT).1, fun hq' => absurd hq' (hpt q)⟩
      · exact h.unstarted u U q u' U' hU₀ hq hU'

theorem Sound.created (h : Sound m) (hT : m.threads t = some T) (hr : T.point = .running) :
    Sound { m with
      threads := Function.update m.threads t (some ⟨T.tProc, .holding m.nextProc⟩)
      pNumthreads := Function.update m.pNumthreads m.nextProc (some 0)
      nextProc := m.nextProc + 1 } := by
  have hkeep : ∀ p, p < m.nextProc →
      Function.update m.pNumthreads m.nextProc (some 0) p = m.pNumthreads p :=
    fun p hp => Function.update_of_ne (Nat.ne_of_lt hp) _ _
  have htp : ∀ u U, m.threads u = some U → U.tProc ≠ m.nextProc :=
    fun u U hU => Nat.ne_of_lt (h.tProc_lt hU)
  have hheld : ∀ u U q, m.threads u = some U → U.point = .holding q → q < m.nextProc :=
    fun u U q hU hq => h.freshProc q 0 (h.holding u U q hU hq).2
  refine ⟨⟨?_, ?_, ?_, ?_, ?_⟩, ?_, ?_, ?_, ?_, ?_, ?_⟩
  · intro u U hU hl
    rcases update_eq_some hU with ⟨-, ⟨⟩⟩ | ⟨-, hU⟩
    · cases hl
    · obtain ⟨hk, h0⟩ := h.leaving u U hU hl
      exact ⟨hk, (hkeep _ (h.tProc_lt hU)).trans h0⟩
  · intro u U q hU hq
    rcases update_eq_some hU with ⟨-, ⟨⟩⟩ | ⟨-, hU⟩
    · cases hq
      exact ⟨(Nat.ne_of_lt h.kproc_lt).symm, Function.update_self _ _ _⟩
    · obtain ⟨hk, h0⟩ := h.holding u U q hU hq
      exact ⟨hk, (hkeep q (hheld u U q hU hq)).trans h0⟩
  · exact fun h0 => h.kproc ((hkeep _ h.kproc_lt).symm.trans h0)
  · intro u U hU
    rcases update_eq_some hU with ⟨-, ⟨⟩⟩ | ⟨-, hU⟩
    · exact fun h0 => h.alive t T hT ((hkeep _ (h.tProc_lt hT)).symm.trans h0)
    · exact fun h0 => h.alive u U hU ((hkeep _ (h.tProc_lt hU)).symm.trans h0)
  · intro p hp h0
    have h0' := (hkeep p (h.freshServed p hp)).symm.trans h0
    exact last_update hT (h.last p hp h0') (.inr (by simp [hr]))
  · intro u U hU
    rcases update_eq_some hU with ⟨rfl, -⟩ | ⟨-, hU⟩
    · exact h.freshThread _ T hT
    · exact h.freshThread u U hU
  · intro p n hn
    by_cases hp : p = m.nextProc
    · exact hp ▸ Nat.lt_succ_self _
    · simp only [Function.update_of_ne hp] at hn
      exact Nat.lt_succ_of_lt (h.freshProc p n hn)
  · exact fun p hp => Nat.lt_succ_of_lt (h.freshServed p hp)
  · intro p n hn
    by_cases hp : p = m.nextProc
    · -- nobody is in the new process yet
      subst hp
      simp only [Function.update_self, Option.some.injEq] at hn
      subst hn
      refine ⟨∅, rfl, fun u => ?_⟩
      simp only [Finset.notMem_empty, false_iff]
      intro hatt
      obtain ⟨U, hU, hUp, -⟩ := (attached_moved hT (by simp [hr]) (by simp)).1 hatt
      exact htp u U hU hUp
    · simp only [Function.update_of_ne hp] at hn
      exact (h.count p n hn).congr fun u => attached_moved hT (by simp [hr]) (by simp)
  · intro u U u' U' hU hU' hl hp
    rcases update_eq_some hU with ⟨-, ⟨⟩⟩ | ⟨-, hU₀⟩
    · cases hl
    · rcases update_eq_some hU' with ⟨rfl, ⟨⟩⟩ | ⟨-, hU'⟩
      · exact h.sole u U _ T hU₀ hT hl hp
      · exact h.sole u U u' U' hU₀ hU' hl hp
  · intro u U q u' U' hU hq hU'
    rcases update_eq_some hU with ⟨rfl, ⟨⟩⟩ | ⟨-, hU₀⟩
    · -- the process that the caller holds now is new
      cases hq
      rcases update_eq_some hU' with ⟨rfl, ⟨⟩⟩ | ⟨-, hU'⟩
      · exact ⟨htp _ T hT, fun _ => rfl⟩
      · exact ⟨htp u' U' hU', fun hq' => absurd (hheld u' U' _ hU' hq') (lt_irrefl _)⟩
    · rcases update_eq_some hU' with ⟨rfl, ⟨⟩⟩ | ⟨-, hU'⟩
      · refine ⟨(h.unstarted u U q _ T hU₀ hq hT).1, fun hq' => ?_⟩
        cases hq'
        exact absurd (hheld u U _ hU₀ hq) (lt_irrefl _)
      · exact h.unstarted u U q u' U' hU₀ hq hU'

theorem Sound.forgot {q : ProcRef} (h : Sound m) (hT : m.threads t = some T)
    (hq : T.point = .holding q) :
    Sound { m with threads := Function.update m.threads t (some ⟨T.tProc, .running⟩) } := by
  refine h.givesUp hT ⟨?_, ?_, fun _ _ _ _ _ _ => rfl, h.kproc, ?_, ?_, ?_⟩
  · rintro X ⟨⟩
    exact ⟨rfl, fun q => by simp, h.alive t T hT⟩
  · rintro X ⟨⟩ hl
    cases hl
  · intro p n hn
    simp [hn]
  · intro p hp h0
    exact last_update hT (h.last p hp h0) (.inr (by simp [hq]))
  · intro p n hn
    exact (h.count p n hn).congr fun u => attached_moved hT (by simp [hq]) (by simp)

theorem Sound.discarded {q : ProcRef} (h : Sound m) (hT : m.threads t = some T)
    (hq : T.point = .holding q) :
    Sound { m with
      threads := Function.update m.threads t (some ⟨T.tProc, .running⟩)
      pNumthreads := Function.update m.pNumthreads q none } := by
  have hne : ∀ u U, m.threads u = some U → U.tProc ≠ q :=
    fun u U hU => (h.unstarted t T q u U hT hq hU).1
  have hkeep : ∀ p n, Function.update m.pNumthreads q none p = some n →
      m.pNumthreads p = some n := by
    intro p n hn
    have hpq : p ≠ q := by
      rintro rfl
      simp at hn
    rwa [Function.update_of_ne hpq] at hn
  refine h.givesUp hT ⟨?_, ?_, ?_, ?_, ?_, ?_, ?_⟩
  · rintro X ⟨⟩
    refine ⟨rfl, fun q => by simp, ?_⟩
    rw [Function.update_of_ne (hne t T hT)]
    exact h.alive t T hT
  · rintro X ⟨⟩ hl
    cases hl
  · -- nobody else is in the process, and nobody else holds it
    intro u U p hU hu hp
    apply Function.update_of_ne
    rintro rfl
    rcases hp with hp | hp
    · exact hne u U hU hp
    · exact hu ((h.unstarted t T p u U hT hq hU).2 hp)
  · rw [Function.update_of_ne (h.holding t T q hT hq).1.symm]
    exact h.kproc
  · intro p n hn
    simp [hkeep p n hn]
  · intro p hp h0
    exact last_update hT (h.last p hp (hkeep p 0 h0)) (.inr (by simp [hq]))
  · intro p n hn
    exact (h.count p n (hkeep p n hn)).congr fun u => attached_moved hT (by simp [hq]) (by simp)

theorem Sound.left (h : Sound m) (hT : m.threads t = some T) (hr : T.point = .running)
    (hk : T.tProc ≠ Proc.kproc) (h1 : m.pNumthreads T.tProc = some 1) :
    Sound { m with
      threads := Function.update m.threads t (some ⟨T.tProc, .leaving⟩)
      pNumthreads := Function.update m.pNumthreads T.tProc (some 0) } := by
  have hatt : Attached m T.tProc t := ⟨T, hT, rfl, by simp [hr]⟩
  -- no other thread is left in the process
  have hcount : Count (fun u => u ≠ t ∧ Attached m T.tProc u) 0 :=
    (h.count _ 1 h1).erase hatt fun u => Iff.rfl
  have hnone : ∀ u U, m.threads u = some U → u ≠ t → U.tProc ≠ T.tProc := by
    intro u U hU hut hp
    refine hcount.not_of_zero u ⟨hut, U, hU, hp, ?_⟩
    intro hl
    have h0 := (h.leaving u U hU hl).2
    rw [hp, h1] at h0
    cases h0
  refine h.givesUp hT ⟨?_, ?_, ?_, ?_, ?_, ?_, ?_⟩
  · rintro X ⟨⟩
    exact ⟨rfl, fun q => by simp, by simp⟩
  · rintro X ⟨⟩ -
    exact ⟨hk, by simp, hnone⟩
  · intro u U p hU hu hp
    apply Function.update_of_ne
    rintro rfl
    rcases hp with hp | hp
    · exact hnone u U hU hu hp
    · exact (h.unstarted u U _ t T hU hp hT).1 rfl
  · rw [Function.update_of_ne hk.symm]
    exact h.kproc
  · intro p n hn
    by_cases hp : p = T.tProc
    · simp [hp, h1]
    · rw [Function.update_of_ne hp] at hn
      simp [hn]
  · intro p hp h0
    by_cases hpt : p = T.tProc
    · exact ⟨t, ⟨T.tProc, .leaving⟩, by simp, hpt.symm, rfl⟩
    · rw [Function.update_of_ne hpt] at h0
      exact last_update hT (h.last p hp h0) (.inl (Ne.symm hpt))
  · intro p n hn
    by_cases hp : p = T.tProc
    · subst hp
      simp only [Function.update_self, Option.some.injEq] at hn
      subst hn
      apply hcount.congr
      intro u
      rw [attached_update]
      split_ifs with hu
      · simp [hu]
      · simp [hu]
    · rw [Function.update_of_ne hp] at hn
      apply (h.count p n hn).congr
      intro u
      rw [attached_update]
      split_ifs with hu
      · subst hu
        have hp' : T.tProc ≠ p := Ne.symm hp
        simp [Attached, hT, hp']
      · rfl

theorem Sound.destroyed (h : Sound m) (hT : m.threads t = some T) (hl : T.point = .leaving) :
    Sound { m with
      threads := Function.update m.threads t none
      pNumthreads := Function.update m.pNumthreads T.tProc none } := by
  have hkeep : ∀ p n, Function.update m.pNumthreads T.tProc none p = some n →
      p ≠ T.tProc ∧ m.pNumthreads p = some n := by
    intro p n hn
    have hpt : p ≠ T.tProc := by
      rintro rfl
      simp at hn
    rw [Function.update_of_ne hpt] at hn
    exact ⟨hpt, hn⟩
  refine h.givesUp hT ⟨?_, ?_, ?_, ?_, ?_, ?_, ?_⟩
  · rintro X ⟨⟩
  · rintro X ⟨⟩
  · intro u U p hU hu hp
    apply Function.update_of_ne
    rintro rfl
    rcases hp with hp | hp
    · exact hu (h.sole t T u U hT hU hl hp)
    · exact (h.unstarted u U _ t T hU hp hT).1 rfl
  · rw [Function.update_of_ne (h.leaving t T hT hl).1.symm]
    exact h.kproc
  · intro p n hn
    simp [(hkeep p n hn).2]
  · intro p hp h0
    obtain ⟨hpt, h0⟩ := hkeep p 0 h0
    exact last_update hT (h.last p hp h0) (.inl (Ne.symm hpt))
  · intro p n hn
    obtain ⟨hpt, hn⟩ := hkeep p n hn
    apply (h.count p n hn).congr
    intro u
    rw [attached_update]
    split_ifs with hu
    · subst hu
      simp [Attached, hT, hl]
    · rfl

theorem Sound.added {p : ProcRef} {n : Nat} (h : Sound m) (hn : m.pNumthreads p = some n)
    (hstay : ∀ u U, m.threads u = some U → U.point = .leaving → U.tProc ≠ p)
    (hfree : ∀ u U, m.threads u = some U → U.point ≠ .holding p) :
    Sound { m with
      threads := Function.update m.threads m.nextThread (some ⟨p, .running⟩)
      nextThread := m.nextThread + 1
      pNumthreads := Function.update m.pNumthreads p (some (n + 1))
      served := p :: m.served } := by
  have hold : ∀ u U, m.threads u = some U → u ≠ m.nextThread :=
    fun u U hU => Nat.ne_of_lt (h.freshThread u U hU)
  have halive : ∀ q, m.pNumthreads q ≠ none →
      Function.update m.pNumthreads p (some (n + 1)) q ≠ none := by
    intro q hq
    by_cases hqp : q = p
    · simp [hqp]
    · rwa [Function.update_of_ne hqp]
  refine ⟨⟨?_, ?_, halive _ h.kproc, ?_, ?_⟩, ?_, ?_, ?_, ?_, ?_, ?_⟩
  · intro u U hU hl
    rcases update_eq_some hU with ⟨-, ⟨⟩⟩ | ⟨-, hU⟩
    · cases hl
    · obtain ⟨hk, h0⟩ := h.leaving u U hU hl
      exact ⟨hk, (Function.update_of_ne (hstay u U hU hl) _ _).trans h0⟩
  · intro u U q hU hq
    rcases update_eq_some hU with ⟨-, ⟨⟩⟩ | ⟨-, hU₀⟩
    · cases hq
    · have hqp : q ≠ p := by
        rintro rfl
        exact hfree u U hU₀ hq
      obtain ⟨hk, h0⟩ := h.holding u U q hU₀ hq
      exact ⟨hk, (Function.update_of_ne hqp _ _).trans h0⟩
  · intro u U hU
    rcases update_eq_some hU with ⟨-, ⟨⟩⟩ | ⟨-, hU⟩
    · simp
    · exact halive _ (h.alive u U hU)
  · intro q hq h0
    have hqp : q ≠ p := by
      rintro rfl
      simp at h0
    simp only [Function.update_of_ne hqp] at h0
    obtain ⟨u, U, hU, hup, hl⟩ := h.last q ((List.mem_cons.1 hq).resolve_left hqp) h0
    exact ⟨u, U, (Function.update_of_ne (hold u U hU) _ _).trans hU, hup, hl⟩
  · intro u U hU
    rcases update_eq_some hU with ⟨rfl, -⟩ | ⟨-, hU⟩
    · exact Nat.lt_succ_self _
    · exact Nat.lt_succ_of_lt (h.freshThread u U hU)
  · intro q k hk
    by_cases hq : q = p
    · exact hq ▸ h.freshProc p n hn
    · simp only [Function.update_of_ne hq] at hk
      exact h.freshProc q k hk
  · intro q hq
    rcases List.mem_cons.1 hq with rfl | hq
    · exact h.freshProc q n hn
    · exact h.freshServed q hq
  · intro q k hk
    have hnot : ∀ q, ¬ Attached m q m.nextThread := by
      rintro q ⟨U, hU, -⟩
      exact hold _ U hU rfl
    by_cases hq : q = p
    · subst hq
      simp only [Function.update_self, Option.some.injEq] at hk
      subst hk
      apply (h.count q n hn).insert (hnot q)
      intro u
      rw [attached_update]
      split_ifs with hu
      · simp [hu]
      · simp [hu]
    · simp only [Function.update_of_ne hq] at hk
      apply (h.count q k hk).congr
      intro u
      rw [attached_update]
      split_ifs with hu
      · have hpq : p ≠ q := Ne.symm hq
        subst hu
        simp [hnot, hpq]
      · rfl
  · intro u U u' U' hU hU' hl hp
    rcases update_eq_some hU with ⟨-, ⟨⟩⟩ | ⟨-, hU⟩
    · cases hl
    · rcases update_eq_some hU' with ⟨-, ⟨⟩⟩ | ⟨-, hU'⟩
      · exact absurd hp.symm (hstay u U hU hl)
      · exact h.sole u U u' U' hU hU' hl hp
  · intro u U q u' U' hU hq hU'
    rcases update_eq_some hU with ⟨-, ⟨⟩⟩ | ⟨-, hU₀⟩
    · cases hq
    · rcases update_eq_some hU' with ⟨-, ⟨⟩⟩ | ⟨-, hU'⟩
      · refine ⟨?_, fun h => by cases h⟩
        rintro rfl
        exact hfree u U hU₀ hq
      · exact h.unstarted u U q u' U' hU₀ hq hU'

/-- One step. -/
theorem Sound.step {m' : Threads} {a : Action} (h : Sound m) (hok : LeavesLast m a)
    (hst : Lifetime.step m a m') : Sound m' := by
  obtain ⟨T, hT, he⟩ := effect_of_step hst
  cases he with
  | added p n _ hp hn hm =>
      -- first the caller lets go of the process, then the process gets its thread
      subst hm
      rcases hp with ⟨hr, rfl⟩ | hq
      · have hstay : Function.update m.threads a.thread (some ⟨T.tProc, .running⟩) = m.threads := by
          rw [← hr, Function.update_eq_self_iff, hT]
        rw [hstay]
        refine h.added hn (fun u U hU hl hp => ?_) fun u U hU hq => ?_
        · have hut := h.sole u U a.thread T hU hT hl hp.symm
          subst hut
          rw [hT] at hU
          cases hU
          rw [hr] at hl
          cases hl
        · exact (h.unstarted u U _ a.thread T hU hq hT).1 rfl
      · refine (h.forgot hT hq).added hn (fun u U hU hl hp => ?_) fun u U hU hq' => ?_
        · rcases update_eq_some hU with ⟨-, ⟨⟩⟩ | ⟨-, hU⟩
          · cases hl
          · exact (h.unstarted a.thread T p u U hT hq hU).1 hp
        · rcases update_eq_some hU with ⟨-, ⟨⟩⟩ | ⟨hu, hU⟩
          · cases hq'
          · exact hu ((h.unstarted a.thread T p u U hT hq hU).2 hq')
  | created hr hm =>
      subst hm
      exact h.created hT hr
  | discarded q hq hm =>
      subst hm
      exact h.discarded hT hq
  | forgot q hq hm =>
      subst hm
      exact h.forgot hT hq
  | left n hmove hr hn hm =>
      subst hm
      obtain ⟨hk, h1⟩ := hok hmove T hT
      rw [h1] at hn
      cases hn
      exact h.left hT hr hk h1
  | destroyed hl hm =>
      subst hm
      exact h.destroyed hT hl

end Steps

theorem sound_boot : Sound bootThread := by
  have ht : ∀ t T, bootThread.threads t = some T → t = 0 ∧ T = ⟨kproc, .running⟩ := by
    intro t T h
    simp only [bootThread] at h
    split_ifs at h with h0
    cases h
    exact ⟨h0, rfl⟩
  have hp : ∀ p n, bootThread.pNumthreads p = some n → p = kproc ∧ n = 1 := by
    intro p n h
    simp only [bootThread] at h
    split_ifs at h with h0
    cases h
    exact ⟨h0, rfl⟩
  refine ⟨⟨?_, ?_, by simp [bootThread], ?_, ?_⟩, ?_, ?_, ?_, ?_, ?_, ?_⟩
  · intro t T hT hl
    rw [(ht t T hT).2] at hl
    cases hl
  · intro t T q hT hq
    rw [(ht t T hT).2] at hq
    cases hq
  · intro t T hT
    rw [(ht t T hT).2]
    simp [bootThread]
  · intro p _ h0
    cases (hp p 0 h0).2
  · intro t T hT
    rw [(ht t T hT).1]
    exact Nat.zero_lt_one
  · intro p n hn
    rw [(hp p n hn).1]
    exact Nat.zero_lt_one
  · intro p hmem
    rw [List.mem_singleton.1 hmem]
    exact Nat.zero_lt_one
  · intro p n hn
    obtain ⟨rfl, rfl⟩ := hp p n hn
    refine ⟨{0}, rfl, fun t => ?_⟩
    rw [Finset.mem_singleton]
    constructor
    · rintro rfl
      exact ⟨⟨kproc, .running⟩, by simp [bootThread], rfl, by simp⟩
    · rintro ⟨T, hT, -⟩
      exact (ht t T hT).1
  · intro t T t' T' hT hT' hl
    rw [(ht t T hT).2] at hl
    cases hl
  · intro t T q t' T' hT hq
    rw [(ht t T hT).2] at hq
    cases hq

/-- In every run in which `thread_exit` is called only by the last thread of a process other than
the kernel's, processes are destroyed exactly when their last thread leaves. -/
theorem destroysExactly_of_leavesLast {m : Threads} (h : Reach step LeavesLast bootThread m) :
    DestroysExactly m :=
  (h.invariant (I := Sound) (fun _ _ _ hI hok hst => hI.step hok hst) sound_boot).toDestroysExactly

/-- A program is started from the menu, and its only thread exits. -/
def programRun : List Action :=
  [⟨0, .create⟩, ⟨0, .forkInto⟩, ⟨1, .threadExit⟩, ⟨1, .destroy⟩]

/-- `LeavesLast`, computed. -/
def leavesLast (m : Threads) (a : Action) : Bool :=
  a.move != .threadExit || (m.threads a.thread).all fun T =>
    T.tProc != kproc && m.pNumthreads T.tProc == some 1

theorem leavesLast_sound {m : Threads} {a : Action} (h : leavesLast m a = true) :
    LeavesLast m a := by
  intro hmove T hT
  simpa [leavesLast, hmove, hT] using h

theorem destroysExactly_programRun :
    ∃ m, runChecked exec leavesLast bootThread programRun = some m ∧ m.pNumthreads 1 = none ∧
      DestroysExactly m := by
  have hrun : (runChecked exec leavesLast bootThread programRun).any
      (fun m => m.pNumthreads 1 == none) = true := by decide
  obtain ⟨m, hm, h1⟩ := (Option.any_eq_true _ _).1 hrun
  have hreach : Reach step LeavesLast bootThread m :=
    reach_of_runChecked (fun _ _ _ h => h) (fun _ _ _ h => leavesLast_sound h) programRun .refl hm
  exact ⟨m, hm, by simpa using h1, destroysExactly_of_leavesLast hreach⟩

/-- A second thread of the kernel's own process exits, as the threads of the kernel tests do. -/
def kernelRun : List Action := [⟨0, .threadFork⟩, ⟨1, .threadExit⟩]

theorem not_destroysExactly_of_anyStep :
    ¬ ∀ m, Reach step anyStep bootThread m → DestroysExactly m := by
  intro h
  have hrun : (runAll exec bootThread kernelRun).any
      (fun m => m.threads 1 == some ⟨kproc, .leaving⟩) = true := by decide
  obtain ⟨m, hm, h1⟩ := (Option.any_eq_true _ _).1 hrun
  have hreach : Reach step anyStep bootThread m :=
    reach_of_runAll (fun _ _ _ h => h) kernelRun .refl hm
  exact ((h m hreach).leaving 1 _ (by simpa using h1) rfl).1 rfl

end Os161.Lifetime

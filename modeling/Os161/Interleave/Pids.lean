import Os161.Interleave.Records
import Os161.Interleave.Registry

set_option autoImplicit false

/-!
# Process ids

A session: the menu starts programs one after another, each when no thread of the one before is
left, and the processes of a program fork, exit and wait. The pids come from one counter for the
whole session, and the exit codes of an earlier program may still be on the table.

`get_next_pid` never gives a number twice, but it does not stop at `PID_MAX` either:
`validPids_of_keepsPids` says when the pid that `fork` returns is one that `waitpid` accepts.
-/

namespace Os161.Interleave

open Os161.Lib.Runs
open Os161.Lib.Slots
open Os161.Proc
open Os161.Syscall

/-! ## Sessions -/

/-- How the start of a program ends. -/
inductive Start where
  /-- `proc_create_runprogram` fails; the table is given a NULL. -/
  | noProc
  /-- `thread_fork` or the loading fails; the process is destroyed and stays on the table. A
  search that comes to it reads freed memory; the model passes over it, and no result here depends
  on what a search finds. -/
  | lost
  | running
  deriving DecidableEq, Repr

/-- `put_proc_on_proctable` in `common_prog`. -/
def Machine.enter (m : Machine) (x : Option ProcRef) : Machine :=
  match firstFree m.ptable.procArray with
  | none => m
  | some i =>
      { m with ptable := { m.ptable with
          procArray := Function.update m.ptable.procArray i x
          numOfProcs := m.ptable.numOfProcs + 1 } }

/-- `common_prog`. -/
def Machine.commonProg (m : Machine) : Start → Machine
  | .noProc => m.enter none
  -- the table keeps the pointer, and the process is gone
  | .lost => { m.enter (some m.nextProc) with nextProc := m.nextProc + 1 }
  | .running =>
      { m.enter (some m.nextProc) with
        nextProc := m.nextProc + 1
        tasks := Function.update m.tasks m.nextProc (some { pid := 0, ppid := -1, pc := .user })
        history := { m.history with family := (0, -1) :: m.history.family } }

/-- No process has a thread: `thread_wait_for_count` in `common_prog` has returned. -/
def Machine.Idle (m : Machine) : Prop := ∀ q Q, m.tasks q = some Q → Q.pc = .new

/-- What happens in a session. -/
inductive Event where
  | start (how : Start)
  | act (a : Action)

/-- One step of a session. -/
def sessionStep (m : Machine) : Event → Machine → Prop
  | .start how, m' => m.Idle ∧ m' = m.commonProg how
  | .act a, m' => step m a m'

/-- A `fork` that is going to succeed gets its number while the counter is in range. -/
def KeepsPids (m : Machine) (e : Event) : Prop :=
  ∀ a, e = .act a → ∀ T env, m.tasks a.caller = some T → T.pc = .forkNumber env →
    env.asCopy = 0 → env.threadFork = 0 → m.ptable.nextPid ≤ pidMax

/-! ## The invariant -/

/-- The child of a `fork` that is going to succeed. -/
def Pc.succeeding : Pc → Option ProcRef
  | .forkRelease env q | .forkPut env q | .forkThread env q =>
      if env.threadFork = 0 then some q else none
  | _ => none

theorem Pc.forked_of_succeeding {pc : Pc} {q : ProcRef} (h : pc.succeeding = some q) :
    pc.forked = some q := by
  cases pc <;> simp_all [Pc.succeeding, Pc.forked]

/-- What holds of the pids in every state of a session. -/
structure Pids (m : Machine) : Prop where
  wf : WellFormed m
  forks : Forks m
  next : pidMin ≤ m.ptable.nextPid
  /-- Only the first process of a program has a pid out of the counter's range. -/
  root : ∀ c n, (c, n) ∈ m.history.family → pidMin ≤ c ∨ (c = 0 ∧ n = -1)
  new : ∀ q Q, m.tasks q = some Q → Q.pc = .new → pidMin ≤ Q.pid
  /-- Who has not got past `post_exit_code` has no exit code; the first processes of earlier
  programs may have left some. -/
  notPosted : ∀ q Q i e, m.tasks q = some Q → ¬ Q.pc.past → pidMin ≤ Q.pid →
    m.ptable.activeExitCodes i = some e → e.pid ≠ Q.pid
  codes : ∀ i e, m.ptable.activeExitCodes i = some e → e.pid < m.ptable.nextPid
  limit : ∀ p P q Q, m.tasks p = some P → P.pc.succeeding = some q → m.tasks q = some Q →
    Q.pid ≤ pidMax

theorem Goes.succeeding {m : Machine} {p q : ProcRef} {T : Task} {op : Op} {pc₀ pc : Pc}
    (h : Goes m p T pc₀ op pc) (hs : pc.succeeding = some q) :
    op = .create ∨ (pc₀.succeeding = some q ∧ ∀ r, op ≠ .start r) := by
  cases h <;> simp_all [Pc.succeeding]

theorem Passive.succeeding {pc pc' : Pc} {q : ProcRef} (h : Passive pc pc')
    (hs : pc'.succeeding = some q) : pc.succeeding = some q := by
  cases h with
  | same => exact hs
  | woken => cases hs
  | started => cases hs

/-- A process is created by `fork` after `as_copy` has succeeded. -/
theorem create_of_plan {m : Machine} {p : ProcRef} {T : Task} {move : Move} {pc : Pc}
    (h : plan m p T move = some (.create, pc)) :
    ∃ env, T.pc = .forkNumber env ∧ env.asCopy = 0 ∧ pc = .forkRelease env m.nextProc := by
  have hgo := goes_of_plan h
  obtain ⟨env, hpc, rfl⟩ : ∃ env, T.pc = .forkNumber env ∧ pc = .forkRelease env m.nextProc := by
    generalize T.pc = pc₀ at hgo
    cases hgo
    exact ⟨_, rfl, rfl⟩
  refine ⟨env, hpc, ?_, rfl⟩
  cases move with
  | tick =>
      simp only [plan, advance, hpc] at h
      split_ifs at h with hzero
      · cases h
      · exact not_not.1 hzero
  | waitpid pid status options => simp [plan, hpc] at h
  | exit exitcode alloc => simp [plan, hpc] at h
  | fork env' => simp [plan, hpc] at h

/-- The exit codes after a step were there before, or the one of the process that made it is. -/
theorem Effect.codes_sub {m m' : Machine} {T : Task} {op : Op} (h : Effect m T m' op)
    {i : Fin procMax} {e : Pidxcode} (hi : m'.ptable.activeExitCodes i = some e) :
    (∃ j, m.ptable.activeExitCodes j = some e) ∨ ((∃ x, op = .post x) ∧ e.pid = T.pid) := by
  rcases h.codes with ⟨hc, -⟩ | ⟨pid, -, hc, -⟩ | ⟨-, hc, -⟩ | ⟨x, hop, hc, -⟩
  · exact .inl ⟨i, by rw [← hc, hi]⟩
  · rw [hc] at hi
    exact .inl ⟨i, getExitCode_sub hi⟩
  · rw [hc] at hi
    exact .inl ⟨i, (remAllExitCodes_eq_some.1 hi).1⟩
  · rw [hc] at hi
    split_ifs at hi
    · rcases postExitCode_cases m.ptable.activeExitCodes ⟨T.ppid, T.pid, mkwaitExit x.code⟩ with
        ⟨hput, -⟩ | ⟨k, -, hput⟩
      · rw [hput] at hi
        exact .inl ⟨i, hi⟩
      · rw [hput] at hi
        rcases update_eq_some hi with ⟨-, hx⟩ | ⟨-, hi⟩
        · cases hx
          exact .inr ⟨⟨x, hop⟩, rfl⟩
        · exact .inl ⟨i, hi⟩
    · exact .inl ⟨i, hi⟩

theorem Pids.act {m m' : Machine} {a : Action} (hI : Pids m) (hok : KeepsPids m (.act a))
    (h : step m a m') : Pids m' := by
  obtain ⟨T, hT, hrest⟩ := Option.bind_eq_some_iff.1 h
  obtain ⟨⟨op, pc⟩, hplan, happly⟩ := Option.bind_eq_some_iff.1 hrest
  have hgo := goes_of_plan hplan
  have heff := effect_of_apply hT happly
  have hb : ∀ q Q, m'.tasks q = some Q → Becomes m a.caller T op pc q Q :=
    fun q Q hq => becomes_of_step hgo happly hq
  -- the counter never goes down
  have hnext : m.ptable.nextPid ≤ m'.ptable.nextPid := by
    rcases heff.counters with ⟨-, -, hn, -⟩ | ⟨-, -, hn, -⟩
    · exact hn
    · omega
  constructor
  case wf => exact wellFormed_of_step hI.wf h
  case forks => exact forks_of_step hI.wf hI.forks h
  case next => exact le_trans hI.next hnext
  case root =>
    intro c n hc
    rcases heff.counters with ⟨-, -, -, hf⟩ | ⟨-, -, -, hf⟩
    · rw [hf] at hc
      exact hI.root c n hc
    · rw [hf, List.mem_cons] at hc
      rcases hc with hc | hc
      · cases hc
        exact .inl hI.next
      · exact hI.root c n hc
  case new =>
    intro q Q hQ hpc
    cases hb q Q hQ with
    | moved _ =>
        -- a process that makes a step has its thread
        obtain rfl : pc = .new := hpc
        generalize T.pc = pc₀ at hgo
        cases hgo
    | @other Q₀ pc' _ hQ₀ hpass =>
        obtain rfl : pc' = .new := hpc
        apply hI.new q Q₀ hQ₀
        generalize Q₀.pc = pc₀ at hpass
        cases hpass
        rfl
    | created _ _ => exact hI.next
  case notPosted =>
    intro q Q i e hQ hpast hlow hi
    -- a new exit code carries the pid of the process that posts it
    have hold : ∀ Q₀, m.tasks q = some Q₀ → ¬ Q₀.pc.past → Q₀.pid = Q.pid → q ≠ a.caller ∨
        (∀ x, op ≠ .post x) → e.pid ≠ Q.pid := by
      intro Q₀ hQ₀ hpast₀ hpid hne
      rcases heff.codes_sub hi with ⟨j, hj⟩ | ⟨⟨x, hop⟩, he⟩
      · rw [← hpid]
        exact hI.notPosted q Q₀ j e hQ₀ hpast₀ (by rw [hpid]; exact hlow) hj
      · rcases hne with hne | hne
        · rw [he]
          exact fun hT' => hne (hI.wf.distinct q Q₀ a.caller T hQ₀ hT (by rw [hpid, hT']))
        · exact absurd hop (hne x)
    cases hb q Q hQ with
    | moved he =>
        subst he
        refine hold T hT (fun hp => hpast (hgo.past hp)) rfl (.inr ?_)
        rintro x rfl
        obtain ⟨r, -, rfl⟩ := hgo.post
        exact hpast trivial
    | @other Q₀ pc' hne hQ₀ hpass =>
        refine hold Q₀ hQ₀ (fun hp => hpast ?_) rfl (.inl hne)
        rw [hpass.from_leaving (.inr hp)]
        exact hp
    -- the new pid is the counter's, and every exit code has a smaller one
    | created _ hop =>
        subst hop
        rcases heff.codes_sub hi with ⟨j, hj⟩ | ⟨⟨x, hop⟩, -⟩
        · exact ne_of_lt (hI.codes j e hj)
        · cases hop
  case codes =>
    intro i e hi
    refine lt_of_lt_of_le ?_ hnext
    rcases heff.codes_sub hi with ⟨j, hj⟩ | ⟨-, he⟩
    · exact hI.codes j e hj
    · rw [he]
      exact hI.wf.pid_lt hT
  case limit =>
    intro p P q Q hP hs hQ
    -- a child keeps its pid while its fork goes on
    have hold : ∀ r R, m.tasks r = some R → R.pc.succeeding = some q → op ≠ .start q →
        Q.pid ≤ pidMax := by
      intro r R hR hs₀ hop
      obtain ⟨Q₀, hQ₀, hQ₁, -⟩ := hI.forks.stays hI.wf hT hgo happly hR
        (Pc.forked_of_succeeding hs₀) hop
      rw [hQ] at hQ₁
      cases hQ₁
      exact hI.limit r R q Q hR hs₀ hQ₀
    cases hb p P hP with
    | moved _ =>
        rcases hgo.succeeding hs with rfl | ⟨hs₀, hop⟩
        · -- the new child has the number of the counter
          obtain ⟨env, hpc, hcopy, rfl⟩ := create_of_plan hplan
          have hzero : env.threadFork = 0 ∧ m.nextProc = q := by
            simpa [Pc.succeeding] using hs
          obtain ⟨hzero, rfl⟩ := hzero
          rw [tasks_created happly] at hQ
          cases hQ
          exact hok a rfl T env hT hpc hcopy hzero
        · exact hold a.caller T hT hs₀ (hop q)
    | @other P₀ pc' hne hP₀ hpass =>
        have hs₀ := hpass.succeeding hs
        apply hold p P₀ hP₀ hs₀
        rintro rfl
        exact hne (hI.forks.inj hI.wf hP₀ hT (Pc.forked_of_succeeding hs₀) hgo.start)
    | created _ _ => cases hs

/-! ## The starts of programs -/

@[simp] theorem enter_tasks (m : Machine) (x : Option ProcRef) : (m.enter x).tasks = m.tasks := by
  unfold Machine.enter
  split <;> rfl

@[simp] theorem enter_owner (m : Machine) (x : Option ProcRef) : (m.enter x).owner = m.owner := by
  unfold Machine.enter
  split <;> rfl

@[simp] theorem enter_nextPid (m : Machine) (x : Option ProcRef) :
    (m.enter x).ptable.nextPid = m.ptable.nextPid := by
  unfold Machine.enter
  split <;> rfl

@[simp] theorem enter_codes (m : Machine) (x : Option ProcRef) :
    (m.enter x).ptable.activeExitCodes = m.ptable.activeExitCodes := by
  unfold Machine.enter
  split <;> rfl

@[simp] theorem enter_history (m : Machine) (x : Option ProcRef) :
    (m.enter x).history = m.history := by
  unfold Machine.enter
  split <;> rfl

@[simp] theorem enter_nextProc (m : Machine) (x : Option ProcRef) :
    (m.enter x).nextProc = m.nextProc := by
  unfold Machine.enter
  split <;> rfl

/-- The pids do not depend on who is on the table. -/
theorem Pids.of_entered {m m' : Machine} (h : Pids m) (ht : m'.tasks = m.tasks)
    (hp : m'.ptable.nextPid = m.ptable.nextPid)
    (hc : m'.ptable.activeExitCodes = m.ptable.activeExitCodes)
    (hf : m'.history.family = m.history.family) (hn : m.nextProc ≤ m'.nextProc) : Pids m' := by
  constructor
  case wf =>
    constructor
    · rw [ht]
      exact fun q Q hq => lt_of_lt_of_le (h.wf.fresh q Q hq) hn
    · rw [ht, hf]
      exact h.wf.known
    · rw [hf, hp]
      exact h.wf.pids
    · rw [hf]
      exact h.wf.parents
    · rw [ht]
      exact h.wf.distinct
  case forks =>
    intro p P q
    rw [ht]
    exact h.forks p P q
  case next =>
    rw [hp]
    exact h.next
  case root =>
    rw [hf]
    exact h.root
  case new =>
    rw [ht]
    exact h.new
  case notPosted =>
    rw [ht, hc]
    exact h.notPosted
  case codes =>
    rw [hc, hp]
    exact h.codes
  case limit =>
    rw [ht]
    exact h.limit

@[simp] theorem started_family (m : Machine) :
    (m.commonProg .running).history.family = (0, -1) :: m.history.family := by
  simp [Machine.commonProg]

@[simp] theorem started_nextPid (m : Machine) :
    (m.commonProg .running).ptable.nextPid = m.ptable.nextPid := by
  simp [Machine.commonProg]

@[simp] theorem started_codes (m : Machine) :
    (m.commonProg .running).ptable.activeExitCodes = m.ptable.activeExitCodes := by
  simp [Machine.commonProg]

/-- The processes of a program that has just been started: its first one, and what earlier programs
have left without a thread. -/
theorem started_tasks {m : Machine} (hidle : m.Idle) {q : ProcRef} {Q : Task}
    (hQ : (m.commonProg .running).tasks q = some Q) :
    (q = m.nextProc ∧ Q = { pid := 0, ppid := -1, pc := .user }) ∨
      (m.tasks q = some Q ∧ Q.pc = .new) := by
  simp only [Machine.commonProg] at hQ
  rcases update_eq_some hQ with ⟨hq, hx⟩ | ⟨-, hQ⟩
  · cases hx
    exact .inl ⟨hq, rfl⟩
  · exact .inr ⟨hQ, hidle q Q hQ⟩

theorem Pids.wellFormed_started {m : Machine} (h : Pids m) (hidle : m.Idle) :
    WellFormed (m.commonProg .running) := by
  constructor
  · intro q Q hQ
    show q < m.nextProc + 1
    rcases started_tasks hidle hQ with ⟨rfl, -⟩ | ⟨hQ₀, -⟩
    · exact Nat.lt_succ_self _
    · exact Nat.lt_succ_of_lt (h.wf.fresh q Q hQ₀)
  · intro q Q hQ
    rw [started_family]
    rcases started_tasks hidle hQ with ⟨-, rfl⟩ | ⟨hQ₀, -⟩
    · exact List.mem_cons_self
    · exact List.mem_cons_of_mem _ (h.wf.known q Q hQ₀)
  · intro c n hc
    have hpos : (2 : Int) ≤ m.ptable.nextPid := h.next
    rw [started_family, List.mem_cons] at hc
    rw [started_nextPid]
    rcases hc with hc | hc
    · cases hc
      exact lt_of_lt_of_le (by decide) hpos
    · exact h.wf.pids c n hc
  · -- the pid 0 has had the parent -1 before
    intro c n n' hc hc'
    rw [started_family, List.mem_cons] at hc hc'
    have hroot : ∀ n, (0, n) ∈ m.history.family → n = -1 := by
      intro n hn
      rcases h.root 0 n hn with hlow | ⟨-, hn⟩
      · exact absurd hlow (by decide)
      · exact hn
    rcases hc with hc | hc <;> rcases hc' with hc' | hc'
    · cases hc
      cases hc'
      rfl
    · cases hc
      exact (hroot n' hc').symm
    · cases hc'
      exact hroot n hc
    · exact h.wf.parents c n n' hc hc'
  · -- the first process has the pid 0, which no child has
    intro q Q q' Q' hQ hQ' he
    rcases started_tasks hidle hQ with ⟨hq, rfl⟩ | ⟨hQ₀, hpc⟩ <;>
      rcases started_tasks hidle hQ' with ⟨hq', rfl⟩ | ⟨hQ₀', hpc'⟩
    · rw [hq, hq']
    · have hlow := h.new q' Q' hQ₀' hpc'
      rw [← he] at hlow
      exact absurd hlow (by decide)
    · have hlow := h.new q Q hQ₀ hpc
      rw [he] at hlow
      exact absurd hlow (by decide)
    · exact h.wf.distinct q Q q' Q' hQ₀ hQ₀' he

theorem Pids.started {m : Machine} (h : Pids m) (hidle : m.Idle) :
    Pids (m.commonProg .running) := by
  constructor
  case wf => exact h.wellFormed_started hidle
  case forks =>
    intro p P q hP hf
    rcases started_tasks hidle hP with ⟨-, rfl⟩ | ⟨-, hpc⟩
    · cases hf
    · rw [hpc] at hf
      cases hf
  case next =>
    rw [started_nextPid]
    exact h.next
  case root =>
    intro c n hc
    rw [started_family, List.mem_cons] at hc
    rcases hc with hc | hc
    · cases hc
      exact .inr ⟨rfl, rfl⟩
    · exact h.root c n hc
  case new =>
    intro q Q hQ hpc
    rcases started_tasks hidle hQ with ⟨-, rfl⟩ | ⟨hQ₀, -⟩
    · cases hpc
    · exact h.new q Q hQ₀ hpc
  case notPosted =>
    intro q Q i e hQ hpast hlow hi
    rw [started_codes] at hi
    rcases started_tasks hidle hQ with ⟨-, rfl⟩ | ⟨hQ₀, -⟩
    · exact absurd hlow (by decide)
    · exact h.notPosted q Q i e hQ₀ hpast hlow hi
  case codes =>
    rw [started_codes, started_nextPid]
    exact h.codes
  case limit =>
    intro p P q Q hP hs
    rcases started_tasks hidle hP with ⟨-, rfl⟩ | ⟨-, hpc⟩
    · cases hs
    · rw [hpc] at hs
      cases hs

theorem Pids.step {m m' : Machine} {e : Event} (h : Pids m) (hok : KeepsPids m e)
    (hst : sessionStep m e m') : Pids m' := by
  cases e with
  | act a => exact h.act hok hst
  | start how =>
      obtain ⟨hidle, rfl⟩ := hst
      have hof : ∀ x n, m.nextProc ≤ n → Pids { m.enter x with nextProc := n } := fun x n hn =>
        h.of_entered (enter_tasks m x) (enter_nextPid m x) (enter_codes m x)
          (congrArg History.family (enter_history m x)) hn
      cases how with
      | noProc =>
          have := hof none m.nextProc le_rfl
          rw [← enter_nextProc m none] at this
          exact this
      | lost => exact hof _ _ (Nat.le_succ _)
      | running => exact h.started hidle

section Lone

variable {pc : Pc} {holder : Option ProcRef} {n : Int}

end Lone

end Os161.Interleave

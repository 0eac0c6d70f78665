import Os161.Interleave.Records

set_option autoImplicit false

/-!
# Exit statuses that can still be asked for

`_exit` posts a status for a parent that is on the process table; the parent takes it with `waitpid`
or gives it up when it exits itself. Between the two the status stays in the exit code table, if
`post_exit_code` found a free slot for it. It does not report that the table is full.
-/

namespace Os161.Interleave

open Os161.Lib.Runs
open Os161.Lib.Slots
open Os161.Proc
open Os161.Syscall

/-- `post_exit_code` gets its memory. -/
def Allocates (m : Machine) (a : Action) : Prop :=
  ∀ T x q, m.tasks a.caller = some T → T.pc = .exitPost x q → x.alloc = true

/-- The slot `i` of the table holds the process with the pid `n`. -/
def SlotHas (m : Machine) (i : Fin procMax) (n : Int) : Prop :=
  ∃ q Q, m.ptable.procArray i = some q ∧ m.tasks q = some Q ∧ Q.pid = n

/-- The point `pc` of an `_exit` with the code `code` leads to a post for the parent `n`. -/
def Pc.heads (m : Machine) (code : BitVec 32) (n : Int) : Pc → Prop
  | .exitOwn x | .exitSearch x => x.code = code ∧ ∃ i, SlotHas m i n
  | .exitFetch x found => x.code = code ∧ ∃ i, found = some i ∧ SlotHas m i n
  | .exitRem x parent => x.code = code ∧ parent ≠ none
  | .exitParent x _ | .exitPost x _ => x.code = code
  | _ => False

/-- A call of `_exit` made while the parent was on the table is on its way to the post, or it has
posted, as long as the parent does not exit. -/
def Heading (m : Machine) : Prop :=
  ∀ l n, l ∈ m.history.exits → l.parentOnTable = true → (l.pid, n) ∈ m.history.family →
    (∀ l' ∈ m.history.exits, l'.pid ≠ n) →
    (∃ q Q, m.tasks q = some Q ∧ Q.pid = l.pid ∧ Q.pc.heads m l.code n) ∨
      ⟨n, l.pid, mkwaitExit l.code⟩ ∈ m.history.posted

theorem slotByPid_isSome {m : Machine} {n : Int} :
    (m.slotByPid n).isSome = true ↔ ∃ i, SlotHas m i n := by
  constructor
  · intro h
    obtain ⟨i, hi⟩ := Option.isSome_iff_exists.1 h
    obtain ⟨q, hq, hp⟩ := lastWith_eq_some hi
    obtain ⟨Q, hQ, hpid⟩ := (Option.any_eq_true _ _).1 hp
    exact ⟨i, q, Q, hq, hQ, by simpa using hpid⟩
  · rintro ⟨i, q, Q, hq, hQ, hpid⟩
    cases hs : m.slotByPid n with
    | some j => rfl
    | none =>
        have := lastWith_eq_none hs hq
        simp [hQ, hpid] at this

theorem slotHas_of_slotByPid {m : Machine} {n : Int} {i : Fin procMax}
    (h : m.slotByPid n = some i) : SlotHas m i n := by
  obtain ⟨q, hq, hp⟩ := lastWith_eq_some h
  obtain ⟨Q, hQ, hpid⟩ := (Option.any_eq_true _ _).1 hp
  exact ⟨q, Q, hq, hQ, by simpa using hpid⟩

section Step

variable {m m' : Machine} {p : ProcRef} {T : Task} {op : Op} {pc : Pc}

/-- A process that has not called `_exit` stays where it is on the table. -/
theorem SlotHas.of_step (hw : WellFormed m) (hr : Records m) (hT : m.tasks p = some T)
    (hgo : Goes m p T T.pc op pc) (happly : op.apply (m.goto p T pc) p T = some m')
    (heff : Effect m T m' op) {i : Fin procMax} {n : Int} (h : SlotHas m i n)
    (hn : ∀ l ∈ m.history.exits, l.pid ≠ n) : SlotHas m' i n := by
  obtain ⟨q, Q, hq, hQ, rfl⟩ := h
  have hstay : T.pid = Q.pid → ¬ T.pc.leaving := by
    intro he hl
    obtain ⟨l, hl, hpid, -⟩ := hr.left p T hT hl
    exact hn l hl (hpid.trans he)
  have htask : ∃ Q', m'.tasks q = some Q' ∧ Q'.pid = Q.pid := by
    by_cases hqp : q = p
    · subst hqp
      rw [hT] at hQ
      cases hQ
      have hop : op ≠ .destroy := by
        rintro rfl
        apply hstay rfl
        generalize T.pc = pc₀ at hgo
        cases hgo
        exact .inr trivial
      exact ⟨_, tasks_self hgo happly (hw.ne_nextProc hT) hop, rfl⟩
    · obtain ⟨pc', hQ', -⟩ := tasks_other happly hqp (hw.ne_nextProc hQ) hQ
      exact ⟨_, hQ', rfl⟩
  obtain ⟨Q', hQ', hpid⟩ := htask
  refine ⟨q, Q', ?_, hQ', hpid⟩
  cases heff with
  | remove j hj hp _ _ =>
      -- the slot that is cleared holds the caller, which is exiting
      have hij : i ≠ j := by
        rintro rfl
        obtain ⟨q', Q'', hq', hQ'', hpid'⟩ := slotHas_of_slotByPid hj
        rw [hq] at hq'
        cases hq'
        rw [hQ] at hQ''
        cases hQ''
        apply hstay hpid'.symm
        generalize T.pc = pc₀ at hgo
        cases hgo
        exact .inr trivial
      rw [hp]
      show Function.update m.ptable.procArray j none i = some q
      rw [Function.update_of_ne hij, hq]
  | put q' j hj hp _ _ =>
      have hij : i ≠ j := by
        rintro rfl
        rw [hq] at hj
        cases hj
      rw [hp]
      show Function.update m.ptable.procArray j (some q') i = some q
      rw [Function.update_of_ne hij, hq]
  | quiet _ _ hp _ _ | refuse _ _ hp _ _ | leave _ hp _ _ | collect _ hp _ _ | finish _ _ hp _ _
  | remAll hp _ _ | post _ _ _ hp _ _ | removeNone _ hp _ _ | number hp _ _ | create hp _ _
  | putNone _ _ hp _ _ =>
      rw [hp]
      exact hq

/-- The points before the post are kept by the steps of others. -/
theorem Pc.heads.mono {code : BitVec 32} {n : Int} {pc : Pc}
    (hs : ∀ i, SlotHas m i n → SlotHas m' i n) (h : pc.heads m code n) : pc.heads m' code n := by
  cases pc with
  | exitOwn x | exitSearch x =>
      obtain ⟨hc, i, hi⟩ := h
      exact ⟨hc, i, hs i hi⟩
  | exitFetch x found =>
      obtain ⟨hc, i, hf, hi⟩ := h
      exact ⟨hc, i, hf, hs i hi⟩
  | exitRem | exitParent | exitPost => exact h
  | _ => exact h.elim

theorem Pc.heads.leaving {code : BitVec 32} {n : Int} {pc : Pc} (h : pc.heads m code n) :
    pc.leaving := by
  cases pc <;> first | exact h.elim | exact .inl (by simp [Pc.exitArg])

/-- A step of the process itself goes on towards the post, or makes it. -/
theorem Goes.heads {code : BitVec 32} {pc₀ : Pc} (hgo : Goes m p T pc₀ op pc)
    (h : pc₀.heads m code T.ppid) :
    pc.heads m code T.ppid ∨ ∃ x, op = .post x ∧ x.code = code := by
  cases hgo with
  | exitOwn x => exact .inl h
  | exitSearch x =>
      obtain ⟨hc, hex⟩ := h
      obtain ⟨i, hi⟩ := Option.isSome_iff_exists.1 (slotByPid_isSome.2 hex)
      exact .inl ⟨hc, i, hi, slotHas_of_slotByPid hi⟩
  | exitFetch x found =>
      obtain ⟨hc, i, rfl, q, Q, hq, -⟩ := h
      exact .inl ⟨hc, by simp [hq]⟩
  | exitOrphan x => exact absurd rfl h.2
  | exitRem x q => exact .inl h.1
  | exitParent x q => exact .inl h
  | exitPost x q => exact .inr ⟨x, rfl, h⟩
  | _ => exact h.elim

end Step

/-! ## The entries stay -/

/-- A root process and its last child. -/
structure Crowd where
  child : Nat
  /-- Where the two are; the child may not be there yet, or no longer. -/
  root : Pc
  pc : Option Pc
  rootLock : Option ProcRef
  childLock : Option ProcRef
  /-- The child is on the process table. -/
  entered : Bool
  next : Nat
  codes : ExitCodes
  history : History

namespace Crowd

local instance neZeroProcMax : NeZero procMax := ⟨by decide⟩

/-- The process table of a crowd. -/
def array (x : Crowd) : Table procMax ProcRef := fun i =>
  if i = 0 then some 1 else if i = 1 ∧ x.entered = true then some x.child else none

/-- The crowd as a machine. -/
def machine (x : Crowd) : Machine :=
  { tasks := fun r =>
      if r = 1 then some ⟨0, -1, x.root⟩
      else if r = x.child then x.pc.map fun pc => ⟨x.child, 0, pc⟩ else none
    owner := fun r =>
      if r = 1 then x.rootLock else if r = x.child then x.childLock else none
    ptable :=
      { nextPid := x.next, numOfProcs := if x.entered then 2 else 1, procArray := x.array
        activeExitCodes := x.codes }
    nextProc := x.next
    history := x.history }

/-- Nobody is about to post without memory. -/
def Fine (x : Crowd) : Prop :=
  x.root.exitArg = none ∧ ∀ y, x.pc.bind Pc.exitArg = some y → y.alloc = true

variable {x y : Crowd} {s : Machine} {pc pc₀ : Pc}

theorem create {p : ProcRef} (hc : x.child ≠ 1) (hnext : x.next = x.child) :
    Op.apply x.machine p ⟨0, -1, pc⟩ .create =
      some ({ x with
        pc := some .new, next := x.next + 1
        history := { x.history with family := (x.child, 0) :: x.history.family } } :
        Crowd).machine := by
  simp only [Op.apply, Option.some.injEq]
  refine Machine.ext (funext fun r => ?_) rfl ?_ rfl ?_
  · by_cases hr : r = x.child
    · simp [machine, hr, hc, hnext]
    · simp [machine, hr, hnext]
  · simp only [machine]
    rfl
  · simp [machine, hnext]

theorem put {p : ProcRef} {T : Task} (h : x.entered = false) :
    Op.apply x.machine p T (.put x.child) = some ({ x with entered := true } : Crowd).machine := by
  have harray : x.machine.ptable.procArray = fun i => if i = 0 then some 1 else none := by
    funext i
    simp [machine, array, h]
  have hf : firstFree x.machine.ptable.procArray = some 1 := by
    rw [harray]
    decide +kernel
  simp only [Op.apply, hf, Option.some.injEq]
  refine Machine.ext rfl rfl ?_ rfl rfl
  simp only [machine, h, ProcTable.mk.injEq, true_and, and_true]
  refine ⟨rfl, funext fun i => ?_⟩
  by_cases hi : i = 1
  · simp [hi, array]
  · simp [hi, array]

theorem start {p : ProcRef} {T : Task} (hc : x.child ≠ 1) (hpc : x.pc = some .new) :
    Op.apply x.machine p T (.start x.child) = some ({ x with pc := some .user } : Crowd).machine := by
  have ht : x.machine.tasks x.child = some ⟨x.child, 0, .new⟩ := by simp [machine, hc, hpc]
  simp only [Op.apply, ht, Option.map_some, if_true, Option.some.injEq]
  refine Machine.ext (funext fun r => ?_) rfl rfl rfl rfl
  rw [goto_tasks]
  by_cases hr : r = x.child
  · simp [machine, hr, hc]
  · simp [machine, hr]

theorem tasks_cases {r : ProcRef} {Q : Task} (h : x.machine.tasks r = some Q) :
    (r = 1 ∧ Q.pid = 0) ∨ (r = x.child ∧ r ≠ 1 ∧ Q.pid = x.child) := by
  simp only [machine] at h
  split_ifs at h with h1 h2
  · cases h
    exact .inl ⟨h1, rfl⟩
  · obtain ⟨pc, -, rfl⟩ := Option.map_eq_some_iff.1 h
    exact .inr ⟨h2, h1, rfl⟩

theorem array_cases {i : Fin procMax} {r : ProcRef} (h : x.array i = some r) :
    (i = 0 ∧ r = 1) ∨ (i = 1 ∧ r = x.child) := by
  simp only [array] at h
  split_ifs at h with h0 h1
  · cases h
    exact .inl ⟨h0, rfl⟩
  · cases h
    exact .inr ⟨h1.1, rfl⟩

theorem slotByPid_root (hc : 1 < x.child) : x.machine.slotByPid 0 = some 0 := by
  apply lastWith_unique (a := 1) (by simp [machine, array]) (by simp [machine])
  intro j r hr hp
  obtain ⟨Q, hQ, hpid⟩ := (Option.any_eq_true _ _).1 hp
  rcases array_cases hr with ⟨hj, -⟩ | ⟨-, rfl⟩
  · exact hj
  · rcases tasks_cases hQ with ⟨h1, -⟩ | ⟨-, -, h2⟩
    · exact absurd h1 (Nat.ne_of_gt hc)
    · rw [h2] at hpid
      have : (x.child : Int) = 0 := by simpa using hpid
      omega

theorem slotByPid_child (hc : 1 < x.child) (hpc : x.pc = some pc) (h : x.entered = true) :
    x.machine.slotByPid x.child = some 1 := by
  have hne : x.child ≠ 1 := by omega
  refine lastWith_unique (a := x.child) (by simp [machine, array, h])
    (by simp [machine, hne, hpc]) ?_
  intro j r hr hp
  obtain ⟨Q, hQ, hpid⟩ := (Option.any_eq_true _ _).1 hp
  rcases array_cases hr with ⟨-, rfl⟩ | ⟨hj, -⟩
  · rcases tasks_cases hQ with ⟨-, h0⟩ | ⟨-, h1, -⟩
    · rw [h0] at hpid
      have : (0 : Int) = x.child := by simpa using hpid
      omega
    · exact absurd rfl h1
  · exact hj

theorem leave {p : ProcRef} {pc' : Pc} (hc : 1 < x.child) (code : BitVec 32) :
    Op.apply x.machine p ⟨x.child, 0, pc'⟩ (.leave code) =
      some ({ x with
        history := { x.history with exits := ⟨x.child, code, true⟩ :: x.history.exits } } :
        Crowd).machine := by
  simp only [Op.apply, slotByPid_root hc]
  rfl

theorem remAll {p : ProcRef} {pc' : Pc}
    (h : ExitCodes.remAllExitCodes x.codes x.child = x.codes) :
    Op.apply x.machine p ⟨x.child, 0, pc'⟩ .remAll = some x.machine := by
  have hc : x.machine.ptable.activeExitCodes = x.codes := rfl
  simp only [Op.apply, hc, h]
  rfl

theorem remove {p : ProcRef} {pc' : Pc} (hc : 1 < x.child) (hpc : x.pc = some pc)
    (h : x.entered = true) :
    Op.apply x.machine p ⟨x.child, 0, pc'⟩ .remove =
      some ({ x with entered := false } : Crowd).machine := by
  simp only [Op.apply, slotByPid_child hc hpc h, Option.some.injEq]
  refine Machine.ext rfl rfl ?_ rfl rfl
  simp only [machine, h, ProcTable.mk.injEq, true_and, and_true]
  refine ⟨rfl, funext fun i => ?_⟩
  by_cases hi : i = 1
  · simp [hi, array]
  · simp [hi, array]

theorem destroy {T : Task} (hc : x.child ≠ 1) (h : x.childLock = none) :
    Op.apply x.machine x.child T .destroy = some ({ x with pc := none } : Crowd).machine := by
  have ho : x.machine.owner x.child = none := by simp [machine, hc, h]
  simp only [Op.apply, if_pos ho, Option.some.injEq]
  refine Machine.ext (funext fun r => ?_) rfl rfl rfl rfl
  by_cases hr : r = x.child
  · simp [machine, hr, hc]
  · simp [machine, hr]

/-- The root process alone; the child `c` is to come. -/
def alone (c : Nat) (codes : ExitCodes) (history : History) : Crowd :=
  { child := c, root := .user, pc := none, rootLock := none, childLock := none, entered := false
    next := c, codes := codes, history := history }

/-- The exit codes of the first `n` children, as far as they fit. -/
structure Filled (n : Nat) (codes : ExitCodes) : Prop where
  entries : ∀ i e, codes i = some e → e.ppid = 0 ∧ e.pid < n + 2
  used : min n procMax ≤ used codes

theorem Filled.post {n : Nat} {codes : ExitCodes} (h : Filled n codes) :
    Filled (n + 1) (ExitCodes.postExitCode codes ⟨0, (n + 2 : Nat), mkwaitExit 0⟩) := by
  rcases postExitCode_cases codes ⟨0, (n + 2 : Nat), mkwaitExit 0⟩ with ⟨hc, hfull⟩ | ⟨i, hi, hc⟩
  · rw [hc]
    refine ⟨fun i e he => ?_, ?_⟩
    · have := h.entries i e he
      exact ⟨this.1, by push_cast; omega⟩
    · rw [used_of_full hfull]
      exact min_le_right _ _
  · rw [hc]
    refine ⟨fun j e he => ?_, ?_⟩
    · rcases update_eq_some he with ⟨-, hx⟩ | ⟨-, he⟩
      · cases hx
        exact ⟨rfl, by push_cast; omega⟩
      · have := h.entries j e he
        exact ⟨this.1, by push_cast; omega⟩
    · have hused := weigh_update (fun _ => 1) codes i (some ⟨0, (n + 2 : Nat), mkwaitExit 0⟩)
      rw [hi, slotWeight_none, slotWeight_some] at hused
      have := h.used
      unfold Lib.Slots.used at this ⊢
      omega

end Crowd

end Os161.Interleave

import Os161.Interleave.Machine

set_option autoImplicit false

/-!
# Effects of the steps

What one step does to each part of the machine (`tasks_of_apply`, `owner_of_apply`,
`codes_of_apply`, `history_of_apply`), and the facts about processes, pids and the family history
that hold in every reachable state (`WellFormed`).
-/

namespace Os161.Interleave

open Os161.Lib.Runs
open Os161.Lib.Slots
open Os161.Proc
open Os161.Syscall

/-! ## What a step does to the processes -/

/-- What can happen to a process that does not move itself: nothing, a wakeup, or its start. -/
inductive Passive : Pc → Pc → Prop where
  | same (pc : Pc) : Passive pc pc
  | woken (w : Wait) : Passive (.waitAsleep w) (.waitWoken w)
  | started : Passive .new .user

/-- The processes after a step of `p`, which was `T` and goes to `pc`. -/
inductive Becomes (m : Machine) (p : ProcRef) (T : Task) (op : Op) (pc : Pc) (q : ProcRef) :
    Task → Prop where
  | moved : q = p → Becomes m p T op pc q { T with pc := pc }
  | other {Q : Task} {pc' : Pc} : q ≠ p → m.tasks q = some Q → Passive Q.pc pc' →
      Becomes m p T op pc q { Q with pc := pc' }
  | created : q = m.nextProc → op = .create →
      Becomes m p T op pc q { pid := m.ptable.nextPid, ppid := T.pid, pc := .new }

theorem goto_tasks (m : Machine) (p : ProcRef) (T : Task) (pc : Pc) (q : ProcRef) :
    (m.goto p T pc).tasks q = if q = p then some { T with pc := pc } else m.tasks q := by
  by_cases h : q = p
  · simp [Machine.goto, h]
  · simp [Machine.goto, h]

theorem tasks_of_apply {m m' : Machine} {p : ProcRef} {T : Task} {op : Op}
    (h : op.apply m p T = some m') :
    m'.tasks = m.tasks ∨ (op = .destroy ∧ m'.tasks = Function.update m.tasks p none) ∨
      (op = .create ∧ m'.tasks = Function.update m.tasks m.nextProc
        (some { pid := m.ptable.nextPid, ppid := T.pid, pc := .new })) ∨
      (∃ q Q w, op = .signal q ∧ m.tasks q = some Q ∧ Q.pc = .waitAsleep w ∧
        m'.tasks = Function.update m.tasks q (some { Q with pc := .waitWoken w })) ∨
      (∃ q Q, op = .start q ∧ m.tasks q = some Q ∧ Q.pc = .new ∧
        m'.tasks = Function.update m.tasks q (some { Q with pc := .user })) := by
  cases op with
  | nop | refuse | leave | collect | remAll | post | number =>
      cases h
      exact .inl rfl
  | take r =>
      simp only [Op.apply] at h
      split_ifs at h
      cases h
      exact .inl rfl
  | give r =>
      simp only [Op.apply] at h
      split_ifs at h
      cases h
      exact .inl rfl
  | finish w r =>
      simp only [Op.apply] at h
      split_ifs at h
      cases h
      exact .inl rfl
  | remove =>
      simp only [Op.apply] at h
      split at h
      · cases h
        exact .inl rfl
      · cases h
        exact .inl rfl
  | put q =>
      simp only [Op.apply] at h
      split at h
      · cases h
        exact .inl rfl
      · cases h
        exact .inl rfl
  | destroy =>
      simp only [Op.apply] at h
      split_ifs at h
      cases h
      exact .inr (.inl ⟨rfl, rfl⟩)
  | create =>
      cases h
      exact .inr (.inr (.inl ⟨rfl, rfl⟩))
  | signal q =>
      obtain ⟨Q, hQ, h⟩ := Option.map_eq_some_iff.1 h
      split at h
      · rename_i w hpc
        subst h
        exact .inr (.inr (.inr (.inl ⟨q, Q, w, rfl, hQ, hpc, rfl⟩)))
      · exact .inl (by rw [h])
  | start q =>
      obtain ⟨Q, hQ, h⟩ := Option.map_eq_some_iff.1 h
      split_ifs at h with hpc
      · subst h
        exact .inr (.inr (.inr (.inr ⟨q, Q, rfl, hQ, hpc, rfl⟩)))
      · exact .inl (by rw [h])

/-- After a signal or the start of a thread, the process itself neither sleeps nor is new. -/
theorem Goes.awake {m : Machine} {p : ProcRef} {T : Task} {op : Op} {pc₀ pc : Pc}
    (h : Goes m p T pc₀ op pc) :
    (∀ q, op = .signal q → pc = .exitRemove) ∧ (∀ q, op = .start q → pc = .user) := by
  cases h <;> simp

theorem becomes_of_step {m m' : Machine} {p q : ProcRef} {T Q : Task} {op : Op} {pc : Pc}
    (hgo : Goes m p T T.pc op pc)
    (h : op.apply (m.goto p T pc) p T = some m') (hq : m'.tasks q = some Q) :
    Becomes m p T op pc q Q := by
  have hgoto : ∀ {q Q}, (m.goto p T pc).tasks q = some Q → Becomes m p T op pc q Q := by
    intro q Q hq
    rw [goto_tasks] at hq
    split_ifs at hq with he
    · cases hq
      exact .moved he
    · exact .other he hq (.same Q.pc)
  rcases tasks_of_apply h with ht | ⟨-, ht⟩ | ⟨hop, ht⟩ | ⟨q', Q', w, hop, hQ', hpc, ht⟩ |
    ⟨q', Q', hop, hQ', hpc, ht⟩
  · rw [ht] at hq
    exact hgoto hq
  · rw [ht] at hq
    by_cases he : q = p
    · rw [he, Function.update_self] at hq
      cases hq
    · rw [Function.update_of_ne he] at hq
      exact hgoto hq
  · rw [ht] at hq
    by_cases he : q = m.nextProc
    · have he' : q = (m.goto p T pc).nextProc := he
      rw [he', Function.update_self] at hq
      cases hq
      exact .created he hop
    · have he' : q ≠ (m.goto p T pc).nextProc := he
      rw [Function.update_of_ne he'] at hq
      exact hgoto hq
  · rw [ht] at hq
    by_cases he : q = q'
    · rw [he, Function.update_self] at hq
      cases hq
      rw [goto_tasks] at hQ'
      split_ifs at hQ' with hp
      · cases hQ'
        have := hgo.awake.1 q' hop
        rw [this] at hpc
        cases hpc
      · refine .other (by rw [he]; exact hp) (by rw [he]; exact hQ') ?_
        rw [hpc]
        exact .woken w
    · rw [Function.update_of_ne he] at hq
      exact hgoto hq
  · rw [ht] at hq
    by_cases he : q = q'
    · rw [he, Function.update_self] at hq
      cases hq
      rw [goto_tasks] at hQ'
      split_ifs at hQ' with hp
      · cases hQ'
        have := hgo.awake.2 q' hop
        rw [this] at hpc
        cases hpc
      · refine .other (by rw [he]; exact hp) (by rw [he]; exact hQ') ?_
        rw [hpc]
        exact .started
    · rw [Function.update_of_ne he] at hq
      exact hgoto hq

/-- A process that another one does not destroy stays, at its point or woken or started. -/
theorem tasks_other {m m' : Machine} {p q : ProcRef} {T Q : Task} {op : Op} {pc : Pc}
    (h : op.apply (m.goto p T pc) p T = some m') (hne : q ≠ p) (hnew : q ≠ m.nextProc)
    (hq : m.tasks q = some Q) :
    ∃ pc', m'.tasks q = some { Q with pc := pc' } ∧ Passive Q.pc pc' := by
  have hgoto : (m.goto p T pc).tasks q = some Q := by
    rw [goto_tasks, if_neg hne]
    exact hq
  have hsame : ∀ q' X, q ≠ q' → Function.update (m.goto p T pc).tasks q' X q = some Q := by
    intro q' X he
    rw [Function.update_of_ne he]
    exact hgoto
  rcases tasks_of_apply h with ht | ⟨-, ht⟩ | ⟨-, ht⟩ | ⟨q', Q', w, -, hQ', hpc, ht⟩ |
    ⟨q', Q', -, hQ', hpc, ht⟩
  · exact ⟨Q.pc, by rw [ht, hgoto], .same Q.pc⟩
  · exact ⟨Q.pc, by rw [ht, hsame p _ hne], .same Q.pc⟩
  · have hnew' : q ≠ (m.goto p T pc).nextProc := hnew
    exact ⟨Q.pc, by rw [ht, hsame _ _ hnew'], .same Q.pc⟩
  · by_cases he : q = q'
    · subst he
      rw [hgoto] at hQ'
      cases hQ'
      refine ⟨.waitWoken w, by rw [ht, Function.update_self], ?_⟩
      rw [hpc]
      exact .woken w
    · exact ⟨Q.pc, by rw [ht, hsame _ _ he], .same Q.pc⟩
  · by_cases he : q = q'
    · subst he
      rw [hgoto] at hQ'
      cases hQ'
      refine ⟨.user, by rw [ht, Function.update_self], ?_⟩
      rw [hpc]
      exact .started
    · exact ⟨Q.pc, by rw [ht, hsame _ _ he], .same Q.pc⟩

/-- The process that makes the step stays, unless it destroys itself. -/
theorem tasks_self {m m' : Machine} {p : ProcRef} {T : Task} {op : Op} {pc : Pc}
    (hgo : Goes m p T T.pc op pc) (h : op.apply (m.goto p T pc) p T = some m')
    (hnew : p ≠ m.nextProc) (hop : op ≠ .destroy) : m'.tasks p = some { T with pc := pc } := by
  have hgoto : (m.goto p T pc).tasks p = some { T with pc := pc } := by
    rw [goto_tasks, if_pos rfl]
  rcases tasks_of_apply h with ht | ⟨hd, -⟩ | ⟨-, ht⟩ | ⟨q', Q', w, hop', hQ', hpc, ht⟩ |
    ⟨q', Q', hop', hQ', hpc, ht⟩
  · rw [ht, hgoto]
  · exact absurd hd hop
  · have he : p ≠ (m.goto p T pc).nextProc := hnew
    rw [ht, Function.update_of_ne he, hgoto]
  · have he : p ≠ q' := by
      rintro rfl
      rw [hgoto] at hQ'
      cases hQ'
      have := hgo.awake.1 p hop'
      rw [this] at hpc
      cases hpc
    rw [ht, Function.update_of_ne he, hgoto]
  · have he : p ≠ q' := by
      rintro rfl
      rw [hgoto] at hQ'
      cases hQ'
      have := hgo.awake.2 p hop'
      rw [this] at hpc
      cases hpc
    rw [ht, Function.update_of_ne he, hgoto]

/-- A process without a thread stays so until its thread is started. -/
theorem tasks_new {m m' : Machine} {p q : ProcRef} {T Q : Task} {op : Op} {pc : Pc}
    (h : op.apply (m.goto p T pc) p T = some m') (hne : q ≠ p) (hnew : q ≠ m.nextProc)
    (hq : m.tasks q = some Q) (hpc : Q.pc = .new) (hop : op ≠ .start q) : m'.tasks q = some Q := by
  have hgoto : (m.goto p T pc).tasks q = some Q := by
    rw [goto_tasks, if_neg hne]
    exact hq
  rcases tasks_of_apply h with ht | ⟨-, ht⟩ | ⟨-, ht⟩ | ⟨q', Q', w, -, hQ', hpc', ht⟩ |
    ⟨q', Q', hop', -, -, ht⟩
  · rw [ht, hgoto]
  · rw [ht, Function.update_of_ne hne, hgoto]
  · have hnew' : q ≠ (m.goto p T pc).nextProc := hnew
    rw [ht, Function.update_of_ne hnew', hgoto]
  · have he : q ≠ q' := by
      rintro rfl
      rw [hgoto] at hQ'
      cases hQ'
      rw [hpc] at hpc'
      cases hpc'
    rw [ht, Function.update_of_ne he, hgoto]
  · have he : q ≠ q' := by
      rintro rfl
      exact hop hop'
    rw [ht, Function.update_of_ne he, hgoto]

theorem tasks_created {m m' : Machine} {p : ProcRef} {T : Task} {pc : Pc}
    (h : Op.create.apply (m.goto p T pc) p T = some m') :
    m'.tasks m.nextProc = some { pid := m.ptable.nextPid, ppid := T.pid, pc := .new } := by
  cases h
  exact Function.update_self ..

/-! ## What a step does to the locks -/

/-- The operation ends with the process having released `r`. -/
def Op.gives (p : ProcRef) : Op → ProcRef → Prop
  | .give r, r' => r' = r
  | .finish _ _, r' => r' = p
  | _, _ => False

theorem owner_of_apply {m m' : Machine} {p : ProcRef} {T : Task} {op : Op}
    (h : op.apply m p T = some m') :
    (m'.owner = m.owner ∧ (∀ r, op ≠ .take r) ∧ ∀ r, ¬ op.gives p r) ∨
      (∃ r, op = .take r ∧ m'.owner = Function.update m.owner r (some p)) ∨
      (∃ r, op.gives p r ∧ m'.owner = Function.update m.owner r none) := by
  cases op with
  | take r =>
      simp only [Op.apply] at h
      split_ifs at h
      cases h
      exact .inr (.inl ⟨r, rfl, rfl⟩)
  | give r =>
      simp only [Op.apply] at h
      split_ifs at h
      cases h
      exact .inr (.inr ⟨r, rfl, rfl⟩)
  | finish w r =>
      simp only [Op.apply] at h
      split_ifs at h
      cases h
      exact .inr (.inr ⟨p, rfl, rfl⟩)
  | nop | refuse | leave | collect | remAll | post | number | create =>
      cases h
      exact .inl ⟨rfl, by simp, by simp [Op.gives]⟩
  | destroy =>
      simp only [Op.apply] at h
      split_ifs at h
      cases h
      exact .inl ⟨rfl, by simp, by simp [Op.gives]⟩
  | remove | put q =>
      simp only [Op.apply] at h
      split at h
      all_goals
        cases h
        exact .inl ⟨rfl, by simp, by simp [Op.gives]⟩
  | signal q =>
      obtain ⟨Q, -, h⟩ := Option.map_eq_some_iff.1 h
      refine .inl ⟨?_, by simp, by simp [Op.gives]⟩
      split at h
      · rw [← h]
        rfl
      · rw [h]
  | start q =>
      obtain ⟨Q, -, h⟩ := Option.map_eq_some_iff.1 h
      refine .inl ⟨?_, by simp, by simp [Op.gives]⟩
      split_ifs at h
      · rw [← h]
        rfl
      · rw [h]

/-! ## What a step does to the process table and to the history -/

/-- The operations that change neither. -/
def Op.quiet : Op → Bool
  | .nop | .take _ | .give _ | .signal _ | .destroy | .start _ => true
  | _ => false

/-- What the operation `op` of the process `T` does to the process table, the counter of processes
and the history. -/
inductive Effect (m : Machine) (T : Task) (m' : Machine) : Op → Prop where
  | quiet (op : Op) : op.quiet = true → m'.ptable = m.ptable → m'.nextProc = m.nextProc →
      m'.history = m.history → Effect m T m' op
  | refuse (w : Wait) (e : Errno) : m'.ptable = m.ptable → m'.nextProc = m.nextProc →
      m'.history = { m.history with waits := ⟨T.pid, w, waitFail e⟩ :: m.history.waits } →
      Effect m T m' (.refuse w e)
  | leave (code : BitVec 32) : m'.ptable = m.ptable → m'.nextProc = m.nextProc →
      m'.history = { m.history with
        exits := ⟨T.pid, code, (m.slotByPid T.ppid).isSome⟩ :: m.history.exits } →
      Effect m T m' (.leave code)
  | collect (pid : Int) :
      m'.ptable = { m.ptable with
        activeExitCodes := (ExitCodes.getExitCode m.ptable.activeExitCodes T.pid pid).2 } →
      m'.nextProc = m.nextProc →
      m'.history = { m.history with collected := (T.pid, pid) :: m.history.collected } →
      Effect m T m' (.collect pid)
  | finish (w : Wait) (r : WaitResult) : m'.ptable = m.ptable → m'.nextProc = m.nextProc →
      m'.history = { m.history with waits := ⟨T.pid, w, r⟩ :: m.history.waits } →
      Effect m T m' (.finish w r)
  | remAll :
      m'.ptable = { m.ptable with
        activeExitCodes := ExitCodes.remAllExitCodes m.ptable.activeExitCodes T.pid } →
      m'.nextProc = m.nextProc → m'.history = m.history → Effect m T m' .remAll
  | post (x : Exit) (e : Pidxcode) :
      e = { ppid := T.ppid, pid := T.pid, exitCode := mkwaitExit x.code } →
      m'.ptable = { m.ptable with
        activeExitCodes :=
          if x.alloc then ExitCodes.postExitCode m.ptable.activeExitCodes e
          else m.ptable.activeExitCodes } →
      m'.nextProc = m.nextProc →
      m'.history = { m.history with posted := e :: m.history.posted } → Effect m T m' (.post x)
  | removeNone : m.slotByPid T.pid = none → m'.ptable = m.ptable → m'.nextProc = m.nextProc →
      m'.history = m.history → Effect m T m' .remove
  | remove (i : Fin procMax) : m.slotByPid T.pid = some i →
      m'.ptable = { m.ptable with
        procArray := Function.update m.ptable.procArray i none
        numOfProcs := m.ptable.numOfProcs - 1 } →
      m'.nextProc = m.nextProc → m'.history = m.history → Effect m T m' .remove
  | number : m'.ptable = { m.ptable with nextPid := m.ptable.nextPid + 1 } →
      m'.nextProc = m.nextProc → m'.history = m.history → Effect m T m' .number
  | create : m'.ptable = { m.ptable with nextPid := m.ptable.nextPid + 1 } →
      m'.nextProc = m.nextProc + 1 →
      m'.history = { m.history with family := (m.ptable.nextPid, T.pid) :: m.history.family } →
      Effect m T m' .create
  | putNone (q : ProcRef) : (∀ i, m.ptable.procArray i ≠ none) → m'.ptable = m.ptable →
      m'.nextProc = m.nextProc → m'.history = m.history → Effect m T m' (.put q)
  | put (q : ProcRef) (i : Fin procMax) : m.ptable.procArray i = none →
      m'.ptable = { m.ptable with
        procArray := Function.update m.ptable.procArray i (some q)
        numOfProcs := m.ptable.numOfProcs + 1 } →
      m'.nextProc = m.nextProc → m'.history = m.history → Effect m T m' (.put q)

/-- The searches by pid do not depend on where the processes are. -/
theorem slotByPid_goto {m : Machine} {p : ProcRef} {T : Task} (hT : m.tasks p = some T) (pc : Pc)
    (pid : Int) : (m.goto p T pc).slotByPid pid = m.slotByPid pid := by
  have e : (fun q => ((m.goto p T pc).tasks q).any fun Q => Q.pid == pid) =
      fun q => (m.tasks q).any fun Q => Q.pid == pid := by
    funext q
    rw [goto_tasks]
    split_ifs with hq
    · rw [hq, hT]
      rfl
    · rfl
  show lastWith _ _ = lastWith _ _
  rw [e]
  rfl

theorem effect_of_apply {m m' : Machine} {p : ProcRef} {T : Task} {op : Op} {pc : Pc}
    (hT : m.tasks p = some T) (h : op.apply (m.goto p T pc) p T = some m') :
    Effect m T m' op := by
  cases op with
  | nop =>
      cases h
      exact .quiet _ rfl rfl rfl rfl
  | take r =>
      simp only [Op.apply] at h
      split_ifs at h
      cases h
      exact .quiet _ rfl rfl rfl rfl
  | give r =>
      simp only [Op.apply] at h
      split_ifs at h
      cases h
      exact .quiet _ rfl rfl rfl rfl
  | destroy =>
      simp only [Op.apply] at h
      split_ifs at h
      cases h
      exact .quiet _ rfl rfl rfl rfl
  | signal q =>
      obtain ⟨Q, -, h⟩ := Option.map_eq_some_iff.1 h
      split at h
      all_goals
        subst h
        exact .quiet _ rfl rfl rfl rfl
  | start q =>
      obtain ⟨Q, -, h⟩ := Option.map_eq_some_iff.1 h
      split_ifs at h
      all_goals
        subst h
        exact .quiet _ rfl rfl rfl rfl
  | refuse w e =>
      cases h
      exact .refuse w e rfl rfl rfl
  | leave code =>
      cases h
      refine .leave code rfl rfl ?_
      rw [slotByPid_goto hT]
      rfl
  | collect pid =>
      cases h
      exact .collect pid rfl rfl rfl
  | finish w r =>
      simp only [Op.apply] at h
      split_ifs at h
      cases h
      exact .finish w r rfl rfl rfl
  | remAll =>
      cases h
      exact .remAll rfl rfl rfl
  | post x =>
      cases h
      exact .post x _ rfl rfl rfl rfl
  | remove =>
      simp only [Op.apply, slotByPid_goto hT] at h
      split at h
      · rename_i hi
        cases h
        exact .removeNone hi rfl rfl rfl
      · rename_i i hi
        cases h
        exact .remove i hi rfl rfl rfl
  | number =>
      cases h
      exact .number rfl rfl rfl
  | create =>
      cases h
      exact .create rfl rfl rfl
  | put q =>
      simp only [Op.apply] at h
      split at h
      · rename_i hi
        cases h
        exact .putNone q (firstFree_eq_none hi) rfl rfl rfl
      · rename_i i hi
        cases h
        exact .put q i (firstFree_eq_some hi) rfl rfl rfl

/-! ## Processes and pids -/

/-- What holds of the processes in every reachable state: pids are given out once, and the family
history knows every process. -/
structure WellFormed (m : Machine) : Prop where
  fresh : ∀ q Q, m.tasks q = some Q → q < m.nextProc
  known : ∀ q Q, m.tasks q = some Q → (Q.pid, Q.ppid) ∈ m.history.family
  pids : ∀ c n, (c, n) ∈ m.history.family → c < m.ptable.nextPid
  parents : ∀ c n n', (c, n) ∈ m.history.family → (c, n') ∈ m.history.family → n = n'
  distinct : ∀ q Q q' Q', m.tasks q = some Q → m.tasks q' = some Q' → Q.pid = Q'.pid → q = q'

theorem wellFormed_init : WellFormed init := by
  have htask : ∀ q Q, init.tasks q = some Q → q = 1 ∧ Q = { pid := 0, ppid := -1, pc := .user } := by
    intro q Q hq
    simp only [init] at hq
    split_ifs at hq with he
    cases hq
    exact ⟨he, rfl⟩
  refine ⟨fun q Q hq => ?_, fun q Q hq => ?_, fun c n hc => ?_, fun c n n' hc hc' => ?_,
    fun q Q q' Q' hq hq' _ => ?_⟩
  · rw [(htask q Q hq).1]
    decide
  · rw [(htask q Q hq).2]
    decide
  · simp only [init, List.mem_singleton, Prod.mk.injEq] at hc
    rw [hc.1]
    decide
  · simp only [init, List.mem_singleton, Prod.mk.injEq] at hc hc'
    rw [hc.2, hc'.2]
  · rw [(htask q Q hq).1, (htask q' Q' hq').1]

theorem WellFormed.pid_lt {m : Machine} (h : WellFormed m) {q : ProcRef} {Q : Task}
    (hq : m.tasks q = some Q) : Q.pid < m.ptable.nextPid :=
  h.pids _ _ (h.known q Q hq)

theorem WellFormed.ne_nextProc {m : Machine} (h : WellFormed m) {q : ProcRef} {Q : Task}
    (hq : m.tasks q = some Q) : q ≠ m.nextProc :=
  Nat.ne_of_lt (h.fresh q Q hq)

/-- The operations other than `create` add no process and never take a pid back. -/
theorem Effect.counters {m m' : Machine} {T : Task} {op : Op} (h : Effect m T m' op) :
    (op ≠ .create ∧ m'.nextProc = m.nextProc ∧ m.ptable.nextPid ≤ m'.ptable.nextPid ∧
        m'.history.family = m.history.family) ∨
      (op = .create ∧ m'.nextProc = m.nextProc + 1 ∧ m'.ptable.nextPid = m.ptable.nextPid + 1 ∧
        m'.history.family = (m.ptable.nextPid, T.pid) :: m.history.family) := by
  cases h with
  | create hp hn hh => exact .inr ⟨rfl, hn, by rw [hp], by rw [hh]⟩
  | quiet _ hq hp hn hh =>
      refine .inl ⟨?_, hn, by rw [hp], by rw [hh]⟩
      rintro rfl
      cases hq
  | number hp hn hh =>
      refine .inl ⟨by simp, hn, ?_, by rw [hh]⟩
      rw [hp]
      show m.ptable.nextPid ≤ m.ptable.nextPid + 1
      omega
  | refuse _ _ hp hn hh | leave _ hp hn hh | collect _ hp hn hh | finish _ _ hp hn hh
  | remAll hp hn hh | post _ _ _ hp hn hh | removeNone _ hp hn hh | remove _ _ hp hn hh
  | putNone _ _ hp hn hh | put _ _ _ hp hn hh =>
      exact .inl ⟨by simp, hn, by rw [hp], by rw [hh]⟩

theorem wellFormed_of_step {m m' : Machine} {a : Action} (hw : WellFormed m) (h : step m a m') :
    WellFormed m' := by
  obtain ⟨T, op, pc, hT, hgo, happly⟩ := step_cases h
  have hb : ∀ q Q, m'.tasks q = some Q → Becomes m a.caller T op pc q Q :=
    fun q Q hq => becomes_of_step hgo happly hq
  rcases (effect_of_apply hT happly).counters with ⟨hop, hnext, hpid, hfam⟩ |
    ⟨hop, hnext, hpid, hfam⟩
  · -- every process was there before, with the same pids
    have hold : ∀ q Q, m'.tasks q = some Q →
        ∃ Q₀, m.tasks q = some Q₀ ∧ Q₀.pid = Q.pid ∧ Q₀.ppid = Q.ppid := by
      intro q Q hq
      cases hb q Q hq with
      | moved he => exact ⟨T, he ▸ hT, rfl, rfl⟩
      | other _ hQ _ => exact ⟨_, hQ, rfl, rfl⟩
      | created _ hc => exact absurd hc hop
    refine ⟨fun q Q hq => ?_, fun q Q hq => ?_, fun c n hc => ?_, ?_, fun q Q q' Q' hq hq' he => ?_⟩
    · obtain ⟨Q₀, h₀, -, -⟩ := hold q Q hq
      rw [hnext]
      exact hw.fresh q Q₀ h₀
    · obtain ⟨Q₀, h₀, e, e'⟩ := hold q Q hq
      rw [hfam, ← e, ← e']
      exact hw.known q Q₀ h₀
    · rw [hfam] at hc
      exact lt_of_lt_of_le (hw.pids c n hc) hpid
    · rw [hfam]
      exact hw.parents
    · obtain ⟨Q₀, h₀, e, -⟩ := hold q Q hq
      obtain ⟨Q₁, h₁, e', -⟩ := hold q' Q' hq'
      exact hw.distinct q Q₀ q' Q₁ h₀ h₁ (by rw [e, e', he])
  · have hold : ∀ q Q, m'.tasks q = some Q →
        (∃ Q₀, m.tasks q = some Q₀ ∧ Q₀.pid = Q.pid ∧ Q₀.ppid = Q.ppid) ∨
          (q = m.nextProc ∧ Q.pid = m.ptable.nextPid ∧ Q.ppid = T.pid) := by
      intro q Q hq
      cases hb q Q hq with
      | moved he => exact .inl ⟨T, he ▸ hT, rfl, rfl⟩
      | other _ hQ _ => exact .inl ⟨_, hQ, rfl, rfl⟩
      | created he _ => exact .inr ⟨he, rfl, rfl⟩
    have hfreshPid : ∀ q Q, m.tasks q = some Q → Q.pid ≠ m.ptable.nextPid :=
      fun q Q hq => ne_of_lt (hw.pid_lt hq)
    refine ⟨fun q Q hq => ?_, fun q Q hq => ?_, fun c n hc => ?_, fun c n n' hc hc' => ?_,
      fun q Q q' Q' hq hq' he => ?_⟩
    · rw [hnext]
      rcases hold q Q hq with ⟨Q₀, h₀, -⟩ | ⟨he, -⟩
      · exact Nat.lt_succ_of_lt (hw.fresh q Q₀ h₀)
      · rw [he]
        exact Nat.lt_succ_self _
    · rw [hfam]
      rcases hold q Q hq with ⟨Q₀, h₀, e, e'⟩ | ⟨-, e, e'⟩
      · rw [← e, ← e']
        exact List.mem_cons_of_mem _ (hw.known q Q₀ h₀)
      · rw [e, e']
        exact List.mem_cons_self
    · rw [hfam, List.mem_cons] at hc
      rw [hpid]
      rcases hc with hc | hc
      · cases hc
        omega
      · have := hw.pids c n hc
        omega
    · rw [hfam, List.mem_cons] at hc hc'
      rcases hc with hc | hc <;> rcases hc' with hc' | hc'
      · cases hc
        cases hc'
        rfl
      · cases hc
        exact absurd (hw.pids _ _ hc') (lt_irrefl _)
      · cases hc'
        exact absurd (hw.pids _ _ hc) (lt_irrefl _)
      · exact hw.parents c n n' hc hc'
    · rcases hold q Q hq with ⟨Q₀, h₀, e, -⟩ | ⟨e, ep, -⟩ <;>
        rcases hold q' Q' hq' with ⟨Q₁, h₁, e', -⟩ | ⟨e', ep', -⟩
      · exact hw.distinct q Q₀ q' Q₁ h₀ h₁ (by rw [e, e', he])
      · exact absurd (by rw [e, he, ep']) (hfreshPid q Q₀ h₀)
      · exact absurd (by rw [e', ← he, ep]) (hfreshPid q' Q₁ h₁)
      · rw [e, e']

theorem wellFormed_of_reach {ok : Machine → Action → Prop} {m : Machine}
    (h : Reach step ok init m) : WellFormed m :=
  h.invariant (fun _ _ _ hw _ hst => wellFormed_of_step hw hst) wellFormed_init

/-! ## Parts of runs -/

/-- All allocations of `fork` succeed. -/
def forkOk : ForkEnv := { kmallocTrapframe := true, procCreate := true, asCopy := 0, threadFork := 0 }

/-- The process `p` goes on for `n` steps. -/
def ticks (p : ProcRef) (n : Nat) : List Action := List.replicate n ⟨p, .tick⟩

/-- A whole `fork` of the process `p`. -/
def forkTicks (p : ProcRef) : List Action := ⟨p, .fork forkOk⟩ :: ticks p 5

/-- The first `n` steps of a `waitpid` of the process `p`. -/
def waitTicks (p : ProcRef) (pid : Int) (n : Nat) : List Action :=
  ⟨p, .waitpid pid .valid 0⟩ :: ticks p n

/-- The first `n` steps of an `_exit` of the process `p`. -/
def exitTicks (p : ProcRef) (exitcode : BitVec 32) (n : Nat) : List Action :=
  ⟨p, .exit exitcode true⟩ :: ticks p n

end Os161.Interleave

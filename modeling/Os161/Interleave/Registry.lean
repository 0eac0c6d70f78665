import Os161.Interleave.Steps

set_option autoImplicit false

/-!
# The process table

Which processes are on the table. An entry is a process that has not left the table in `_exit`, no
process has two entries, and the child that a `fork` is about to enter has none (`Registry`). The
child is entered after `fork` has given up its lock, into a table that may have filled up since its
capacity was tested, and `fork` does not look at the answer of `put_proc_on_proctable`: the child is
started all the same.
-/

namespace Os161.Interleave

open Os161.Lib.Runs
open Os161.Lib.Slots
open Os161.Proc
open Os161.Syscall

/-! ## Entries -/

/-- The process has left the process table in `_exit`. -/
def Pc.ended : Pc → Prop
  | .exitRelease | .exitThread => True
  | _ => False

/-- The child that a `fork` has created and not started. -/
def Pc.forked : Pc → Option ProcRef
  | .forkRelease _ q | .forkPut _ q | .forkThread _ q => some q
  | _ => none

/-- The child that a `fork` has created and not entered. -/
def Pc.putting : Pc → Option ProcRef
  | .forkRelease _ q | .forkPut _ q => some q
  | _ => none

/-- What holds of the process table in every reachable state. -/
structure Registry (m : Machine) : Prop where
  alive : ∀ i r, m.ptable.procArray i = some r → ∃ R, m.tasks r = some R ∧ ¬ R.pc.ended
  once : ∀ i j r, m.ptable.procArray i = some r → m.ptable.procArray j = some r → i = j
  forks : ∀ p P q, m.tasks p = some P → P.pc.forked = some q →
    ∃ Q, m.tasks q = some Q ∧ Q.pc = .new ∧ Q.ppid = P.pid
  off : ∀ p P q, m.tasks p = some P → P.pc.putting = some q → ∀ i, m.ptable.procArray i ≠ some q

theorem Pc.forked_of_putting {pc : Pc} {q : ProcRef} (h : pc.putting = some q) :
    pc.forked = some q := by
  cases pc <;> simp_all [Pc.putting, Pc.forked]

theorem registry_init : Registry init := by
  have htask : ∀ q Q, init.tasks q = some Q → Q.pc = .user := by
    intro q Q hq
    simp only [init] at hq
    split_ifs at hq
    cases hq
    rfl
  have hslot : ∀ i r, init.ptable.procArray i = some r → i.val = 0 ∧ r = 1 := by
    intro i r hi
    simp only [init] at hi
    split_ifs at hi with h
    cases hi
    exact ⟨h, rfl⟩
  constructor
  · intro i r hi
    obtain ⟨-, rfl⟩ := hslot i r hi
    exact ⟨_, rfl, id⟩
  · intro i j r hi hj
    exact Fin.ext ((hslot i r hi).1.trans (hslot j r hj).1.symm)
  · intro p P q hP hpc
    rw [htask p P hP] at hpc
    cases hpc
  · intro p P q hP hpc
    rw [htask p P hP] at hpc
    cases hpc

theorem Goes.ended {m : Machine} {p : ProcRef} {T : Task} {op : Op} {pc₀ pc : Pc}
    (h : Goes m p T pc₀ op pc) (he : pc.ended) : pc₀.ended ∨ op = .remove := by
  cases h <;> simp_all [Pc.ended]

theorem Goes.forked {m : Machine} {p q : ProcRef} {T : Task} {op : Op} {pc₀ pc : Pc}
    (h : Goes m p T pc₀ op pc) (hf : pc.forked = some q) :
    (op = .create ∧ q = m.nextProc) ∨
      (pc₀.forked = some q ∧ op ≠ .create ∧ op ≠ .destroy ∧ ∀ r, op ≠ .start r) := by
  cases h <;> simp_all [Pc.forked]

theorem Goes.putting {m : Machine} {p q : ProcRef} {T : Task} {op : Op} {pc₀ pc : Pc}
    (h : Goes m p T pc₀ op pc) (hf : pc.putting = some q) :
    (op = .create ∧ q = m.nextProc) ∨ (pc₀.putting = some q ∧ ∀ r, op ≠ .put r) := by
  cases h <;> simp_all [Pc.putting]

theorem Goes.put {m : Machine} {p q : ProcRef} {T : Task} {pc₀ pc : Pc}
    (h : Goes m p T pc₀ (.put q) pc) : pc₀.putting = some q ∧ pc.forked = some q := by
  cases h
  exact ⟨rfl, rfl⟩

theorem Goes.start {m : Machine} {p q : ProcRef} {T : Task} {pc₀ pc : Pc}
    (h : Goes m p T pc₀ (.start q) pc) : pc₀.forked = some q := by
  cases h
  rfl

theorem Passive.ended {pc pc' : Pc} (h : Passive pc pc') (he : pc'.ended) : pc.ended := by
  cases h with
  | same => exact he
  | woken => exact he.elim
  | started => exact he.elim

theorem Passive.forked {pc pc' : Pc} {q : ProcRef} (h : Passive pc pc') (hf : pc'.forked = some q) :
    pc.forked = some q := by
  cases h with
  | same => exact hf
  | woken => cases hf
  | started => cases hf

theorem Passive.putting {pc pc' : Pc} {q : ProcRef} (h : Passive pc pc')
    (hf : pc'.putting = some q) : pc.putting = some q := by
  cases h with
  | same => exact hf
  | woken => cases hf
  | started => cases hf

/-- The child of a `fork` is there and has no thread until `fork` starts it. -/
def Forks (m : Machine) : Prop :=
  ∀ p P q, m.tasks p = some P → P.pc.forked = some q →
    ∃ Q, m.tasks q = some Q ∧ Q.pc = .new ∧ Q.ppid = P.pid

/-- Two processes do not fork the same child. -/
theorem Forks.inj {m : Machine} (hw : WellFormed m) (hf : Forks m) {p p' q : ProcRef}
    {P P' : Task} (hP : m.tasks p = some P) (hP' : m.tasks p' = some P')
    (h : P.pc.forked = some q) (h' : P'.pc.forked = some q) : p = p' := by
  obtain ⟨Q, hQ, -, hpid⟩ := hf p P q hP h
  obtain ⟨Q', hQ', -, hpid'⟩ := hf p' P' q hP' h'
  rw [hQ] at hQ'
  cases hQ'
  exact hw.distinct p P p' P' hP hP' (hpid.symm.trans hpid')

/-- A child stays as it is in every step but the one that starts it. -/
theorem Forks.stays {m m' : Machine} {p r q : ProcRef} {T P : Task} {op : Op} {pc : Pc}
    (hw : WellFormed m) (hf : Forks m) (hT : m.tasks p = some T) (hgo : Goes m p T T.pc op pc)
    (happly : op.apply (m.goto p T pc) p T = some m') (hP : m.tasks r = some P)
    (hq : P.pc.forked = some q) (hop : op ≠ .start q) :
    ∃ Q, m.tasks q = some Q ∧ m'.tasks q = some Q ∧ Q.pc = .new ∧ Q.ppid = P.pid := by
  obtain ⟨Q, hQ, hnew, hppid⟩ := hf r P q hP hq
  have hne : q ≠ p := by
    rintro rfl
    rw [hT] at hQ
    cases hQ
    generalize T.pc = pc₀ at hgo hnew
    subst hnew
    cases hgo
  exact ⟨Q, hQ, tasks_new happly hne (hw.ne_nextProc hQ) hQ hnew hop, hnew, hppid⟩

theorem forks_of_step {m m' : Machine} {a : Action} (hw : WellFormed m) (hf : Forks m)
    (h : step m a m') : Forks m' := by
  obtain ⟨T, op, pc, hT, hgo, happly⟩ := step_cases h
  intro p P q hP hq
  cases becomes_of_step hgo happly hP with
  | moved _ =>
      rcases hgo.forked hq with ⟨rfl, rfl⟩ | ⟨hq₀, -, -, hop⟩
      · exact ⟨_, tasks_created happly, rfl, rfl⟩
      · obtain ⟨Q, -, hQ, hrest⟩ := hf.stays hw hT hgo happly hT hq₀ (hop q)
        exact ⟨Q, hQ, hrest⟩
  | @other P₀ pc' hne hP₀ hpass =>
      have hq₀ := hpass.forked hq
      have hop : op ≠ .start q := by
        rintro rfl
        exact hne (hf.inj hw hP₀ hT hq₀ hgo.start)
      obtain ⟨Q, -, hQ, hrest⟩ := hf.stays hw hT hgo happly hP₀ hq₀ hop
      exact ⟨Q, hQ, hrest⟩
  | created _ _ => cases hq

/-- How the table changes. -/
theorem Effect.array {m m' : Machine} {T : Task} {op : Op} (h : Effect m T m' op) :
    (m'.ptable.procArray = m.ptable.procArray ∧ (op = .remove → m.slotByPid T.pid = none) ∧
        ∀ q, op = .put q → ∀ i, m.ptable.procArray i ≠ none) ∨
      (∃ i, op = .remove ∧ m.slotByPid T.pid = some i ∧
        m'.ptable.procArray = Function.update m.ptable.procArray i none) ∨
      ∃ q i, op = .put q ∧ m.ptable.procArray i = none ∧
        m'.ptable.procArray = Function.update m.ptable.procArray i (some q) := by
  cases h with
  | remove i hi hp _ _ => exact .inr (.inl ⟨i, rfl, hi, by rw [hp]⟩)
  | put q i hi hp _ _ => exact .inr (.inr ⟨q, i, rfl, hi, by rw [hp]⟩)
  | removeNone hi hp _ _ => exact .inl ⟨by rw [hp], fun _ => hi, by simp⟩
  | putNone q hfull hp _ _ => exact .inl ⟨by rw [hp], by simp, fun _ _ => hfull⟩
  | quiet op hq hp _ _ =>
      refine .inl ⟨by rw [hp], ?_, ?_⟩
      · rintro rfl
        cases hq
      · rintro q rfl
        cases hq
  | refuse _ _ hp _ _ | leave _ hp _ _ | collect _ hp _ _ | finish _ _ hp _ _ | remAll hp _ _
  | post _ _ _ hp _ _ | number hp _ _ | create hp _ _ =>
      exact .inl ⟨by rw [hp], by simp, by simp⟩

/-- The slot that is found by the pid of a process is its own. -/
theorem slotByPid_self {m : Machine} (hw : WellFormed m) {p : ProcRef} {T : Task}
    (hT : m.tasks p = some T) :
    (∀ i, m.slotByPid T.pid = some i → m.ptable.procArray i = some p) ∧
      (m.slotByPid T.pid = none → ∀ i, m.ptable.procArray i ≠ some p) := by
  constructor
  · intro i hi
    obtain ⟨q, hq, hp⟩ := lastWith_eq_some hi
    obtain ⟨Q, hQ, hpid⟩ := (Option.any_eq_true _ _).1 hp
    rw [hw.distinct p T q Q hT hQ (by simpa using hpid : Q.pid = T.pid).symm]
    exact hq
  · intro hnone i hi
    have := lastWith_eq_none hnone hi
    simp [hT] at this

theorem registry_of_step {m m' : Machine} {a : Action} (hw : WellFormed m) (hg : Registry m)
    (h : step m a m') : Registry m' := by
  obtain ⟨T, op, pc, hT, hgo, happly⟩ := step_cases h
  have hb : ∀ q Q, m'.tasks q = some Q → Becomes m a.caller T op pc q Q :=
    fun q Q hq => becomes_of_step hgo happly hq
  have heff := effect_of_apply hT happly
  have hself : ∀ i, m.slotByPid T.pid = some i → m.ptable.procArray i = some a.caller :=
    (slotByPid_self hw hT).1
  constructor
  case alive =>
    -- an entry that was there before, and that the step does not take out
    have hold : ∀ i r, m.ptable.procArray i = some r → (op = .remove → r ≠ a.caller) →
        ∃ R, m'.tasks r = some R ∧ ¬ R.pc.ended := by
      intro i r hi hrem
      obtain ⟨R, hR, hne⟩ := hg.alive i r hi
      by_cases hr : r = a.caller
      · subst hr
        rw [hT] at hR
        cases hR
        have hop : op ≠ .destroy := by
          rintro rfl
          apply hne
          generalize T.pc = pc₀ at hgo
          cases hgo
          trivial
        refine ⟨_, tasks_self hgo happly (hw.ne_nextProc hT) hop, fun he => ?_⟩
        rcases hgo.ended he with he₀ | hop'
        · exact hne he₀
        · exact hrem hop' rfl
      · obtain ⟨pc', hR', hpass⟩ := tasks_other happly hr (hw.ne_nextProc hR) hR
        exact ⟨_, hR', fun he => hne (hpass.ended he)⟩
    intro i r hi
    rcases heff.array with ⟨harr, hrem, -⟩ | ⟨j, hop, hj, harr⟩ | ⟨q, j, rfl, hj, harr⟩
    · rw [harr] at hi
      apply hold i r hi
      intro hop he
      exact (slotByPid_self hw hT).2 (hrem hop) i (he ▸ hi)
    · -- the slot that was cleared was the caller's
      rw [harr] at hi
      obtain ⟨hij, hi⟩ := cleared_eq_some hi
      exact hold i r hi fun _ he => hij (hg.once i j r hi (he ▸ hself j hj))
    · rw [harr] at hi
      rcases update_eq_some hi with ⟨-, hx⟩ | ⟨-, hi⟩
      · -- the child that has been entered waits for its thread
        cases hx
        obtain ⟨Q, -, hQ, hnew, -⟩ := Forks.stays hw hg.forks hT hgo happly hT
          (Pc.forked_of_putting hgo.put.1) (by simp)
        exact ⟨Q, hQ, by rw [hnew]; exact id⟩
      · exact hold i r hi (by simp)
  case once =>
    intro i j r hi hj
    rcases heff.array with ⟨harr, -, -⟩ | ⟨k, -, -, harr⟩ | ⟨q, k, rfl, hk, harr⟩
    · rw [harr] at hi hj
      exact hg.once i j r hi hj
    · rw [harr] at hi hj
      exact once_cleared hg.once hi hj
    · rw [harr] at hi hj
      exact once_written hg.once (hg.off a.caller T q hT hgo.put.1) hi hj
  case forks => exact forks_of_step hw hg.forks h
  case off =>
    intro p P q hP hf i hi
    -- a child that is to be entered was not on the table before, and it is not the one entered
    have hold : ∀ p₀ P₀, m.tasks p₀ = some P₀ → P₀.pc.putting = some q → op ≠ .put q → False := by
      intro p₀ P₀ hP₀ hf₀ hop
      have hoff := hg.off p₀ P₀ q hP₀ hf₀
      rcases heff.array with ⟨harr, -, -⟩ | ⟨j, -, -, harr⟩ | ⟨q', j, rfl, -, harr⟩
      · rw [harr] at hi
        exact hoff i hi
      · rw [harr] at hi
        exact hoff i (cleared_eq_some hi).2
      · rw [harr] at hi
        rcases update_eq_some hi with ⟨-, hx⟩ | ⟨-, hi⟩
        · cases hx
          exact hop rfl
        · exact hoff i hi
    cases hb p P hP with
    | moved _ =>
        rcases hgo.putting hf with ⟨rfl, rfl⟩ | ⟨hf₀, hop⟩
        · rcases heff.array with ⟨harr, -, -⟩ | ⟨j, hop, -⟩ | ⟨q', j, hop, -⟩
          · rw [harr] at hi
            obtain ⟨R, hR, -⟩ := hg.alive i _ hi
            exact hw.ne_nextProc hR rfl
          · cases hop
          · cases hop
        · exact hold a.caller T hT hf₀ (hop q)
    | @other P₀ pc' hne hP₀ hpass =>
        have hf₀ := hpass.putting hf
        apply hold p P₀ hP₀ hf₀
        rintro rfl
        exact hne (Forks.inj hw hg.forks hP₀ hT (Pc.forked_of_putting hf₀)
          (Pc.forked_of_putting hgo.put.1))
    | created _ _ => cases hf

/-! ## Every running process is on the table -/

end Os161.Interleave

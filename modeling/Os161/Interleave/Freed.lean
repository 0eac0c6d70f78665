import Os161.Interleave.Registry

set_option autoImplicit false

/-!
# Processes that have been destroyed

`get_reference_by_pid` hands out a pointer that nobody counts. `waitpid` goes on to lock the child
through it and `_exit` to lock and signal the parent, while the process it points to may come to the
end of its own `_exit` and be destroyed. Where a process comes to that end only when nobody holds a
pointer to it, no step touches a destroyed process.
-/

namespace Os161.Interleave

open Os161.Lib.Runs
open Os161.Lib.Slots
open Os161.Proc
open Os161.Syscall

/-- The process that a pointer of the process at this point leads to. -/
def Pc.refers : Pc → ProcRef → Prop
  | .waitNull _ (some c), r | .waitExited _ (some c), r | .waitInner _ c, r | .waitCheck _ c, r
  | .waitFailInner _ c, r | .waitPassInner _ c, r => r = c
  | .exitRem _ (some q), r | .exitParent _ q, r | .exitPost _ q, r | .exitUnlock q, r
  | .exitSignal q, r => r = q
  | _, _ => False

/-- The processes whose structure the next step reads, locks, unlocks or signals: those on the table
for the searches by pid, the child of `waitpid`, the parent of `_exit`, the new process of
`thread_fork`. -/
def Pc.uses (m : Machine) : Pc → ProcRef → Prop
  | .waitSearch _, r | .exitSearch _, r | .exitRemove, r => ∃ i, m.ptable.procArray i = some r
  | .waitInner _ c, r | .waitCheck _ c, r | .waitFailInner _ c, r | .waitPassInner _ c, r => r = c
  | .exitParent _ q, r | .exitUnlock q, r | .exitSignal q, r => r = q
  | .forkThread _ q, r => r = q
  | _, _ => False

/-- No step that can be taken touches a destroyed process, and no process that can be destroyed is
locked or has a sleeper. -/
structure NoneFreed (m : Machine) : Prop where
  uses : ∀ p T r, m.tasks p = some T → T.pc.uses m r → m.tasks r ≠ none
  destroys : ∀ p T, m.tasks p = some T → T.pc = .exitThread →
    m.owner p = none ∧ ∀ q Q w, m.tasks q = some Q → Q.pc = .waitAsleep w → q ≠ p

/-- A process gives up its lock at the end of `_exit` only when nobody holds a pointer to it. -/
def KeepsPointers (m : Machine) (a : Action) : Prop :=
  ∀ T, m.tasks a.caller = some T → T.pc = .exitRelease →
    ∀ q Q, m.tasks q = some Q → ¬ Q.pc.refers a.caller

/-- Pointers lead to processes that are not about to be destroyed, and who is about to be destroyed
is not locked. -/
structure Pointed (m : Machine) : Prop where
  refs : ∀ p P r, m.tasks p = some P → P.pc.refers r →
    ∃ R, m.tasks r = some R ∧ R.pc ≠ .exitThread
  idle : ∀ p P, m.tasks p = some P → P.pc = .exitThread → m.owner p = none

theorem pointed_init : Pointed init := by
  have htask : ∀ q Q, init.tasks q = some Q → Q.pc = .user := by
    intro q Q hq
    simp only [init] at hq
    split_ifs at hq
    cases hq
    rfl
  constructor
  · intro p P r hP hr
    rw [htask p P hP] at hr
    exact hr.elim
  · intro p P hP hpc
    rw [htask p P hP] at hpc
    cases hpc

/-- A pointer is kept, or it has just been read from the table. -/
theorem Goes.refers {m : Machine} {p r : ProcRef} {T : Task} {op : Op} {pc₀ pc : Pc}
    (h : Goes m p T pc₀ op pc) (hr : pc.refers r) :
    (pc₀.refers r ∨ ∃ i, m.ptable.procArray i = some r) ∧ op ≠ .destroy := by
  cases h with
  | waitFetch w found =>
      cases hb : found.bind m.ptable.procArray with
      | none =>
          rw [hb] at hr
          exact hr.elim
      | some c =>
          rw [hb] at hr
          obtain ⟨i, -, hi⟩ := Option.bind_eq_some_iff.1 hb
          exact ⟨.inr ⟨i, hi.trans (congrArg some hr.symm)⟩, by simp⟩
  | exitFetch x found =>
      cases hb : found.bind m.ptable.procArray with
      | none =>
          rw [hb] at hr
          exact hr.elim
      | some c =>
          rw [hb] at hr
          obtain ⟨i, -, hi⟩ := Option.bind_eq_some_iff.1 hb
          exact ⟨.inr ⟨i, hi.trans (congrArg some hr.symm)⟩, by simp⟩
  | waitNull w child =>
      cases child with
      | none => exact hr.elim
      | some c => exact ⟨.inl hr, by simp⟩
  | _ => first | exact hr.elim | exact ⟨.inl hr, by simp⟩

theorem Goes.take_refers {m : Machine} {p r : ProcRef} {T : Task} {pc₀ pc : Pc}
    (h : Goes m p T pc₀ (.take r) pc) : r = p ∨ pc₀.refers r := by
  cases h <;> first | exact .inl rfl | exact .inr rfl

theorem Goes.to_exitThread {m : Machine} {p : ProcRef} {T : Task} {op : Op} {pc₀ : Pc}
    (h : Goes m p T pc₀ op .exitThread) :
    (pc₀ = .exitRelease ∧ op = .give p) ∨ (pc₀ = .exitThread ∧ op = .destroy) := by
  cases h with
  | exitRelease => exact .inl ⟨rfl, rfl⟩
  | exitThread => exact .inr ⟨rfl, rfl⟩

theorem Passive.from_exitThread {pc pc' : Pc} (h : Passive pc pc') (hpc : pc' = .exitThread) :
    pc = .exitThread := by
  cases h with
  | same => exact hpc
  | woken => cases hpc
  | started => cases hpc

theorem Passive.from_refers {pc pc' : Pc} {r : ProcRef} (h : Passive pc pc')
    (hr : pc'.refers r) : pc.refers r := by
  cases h with
  | same => exact hr
  | woken => exact hr.elim
  | started => exact hr.elim

theorem pointed_of_step {m m' : Machine} {a : Action} (hw : WellFormed m) (hg : Registry m)
    (hp : Pointed m) (hok : KeepsPointers m a) (h : step m a m') : Pointed m' := by
  obtain ⟨T, op, pc, hT, hgo, happly⟩ := step_cases h
  have hb : ∀ q Q, m'.tasks q = some Q → Becomes m a.caller T op pc q Q :=
    fun q Q hq => becomes_of_step hgo happly hq
  -- a process that the caller leaves alone
  have hother : ∀ r R, m.tasks r = some R → R.pc ≠ .exitThread → r ≠ a.caller →
      ∃ R', m'.tasks r = some R' ∧ R'.pc ≠ .exitThread := by
    intro r R hR hpc hr
    obtain ⟨pc', hR', hpass⟩ := tasks_other happly hr (hw.ne_nextProc hR) hR
    exact ⟨_, hR', fun he => hpc (hpass.from_exitThread he)⟩
  constructor
  · intro p P r hP hr
    cases hb p P hP with
    | moved _ =>
        obtain ⟨hold, hop⟩ := hgo.refers hr
        -- who is on the table has not got to the end of `_exit`
        have hR : ∃ R, m.tasks r = some R ∧ R.pc ≠ .exitThread := by
          rcases hold with hr₀ | ⟨i, hi⟩
          · exact hp.refs a.caller T r hT hr₀
          · obtain ⟨R, hR, hend⟩ := hg.alive i r hi
            exact ⟨R, hR, fun he => hend (by rw [he]; trivial)⟩
        obtain ⟨R, hR, hpc⟩ := hR
        by_cases hra : r = a.caller
        · refine ⟨_, by rw [hra]; exact tasks_self hgo happly (hw.ne_nextProc hT) hop, ?_⟩
          intro he
          obtain rfl : pc = .exitThread := he
          exact hr
        · exact hother r R hR hpc hra
    | @other P₀ pc' hne hP₀ hpass =>
        have hr₀ := hpass.from_refers hr
        obtain ⟨R, hR, hpc⟩ := hp.refs p P₀ r hP₀ hr₀
        by_cases hra : r = a.caller
        · subst hra
          rw [hT] at hR
          cases hR
          have hop : op ≠ .destroy := by
            rintro rfl
            apply hpc
            generalize T.pc = pc₀ at hgo
            cases hgo
            rfl
          refine ⟨_, tasks_self hgo happly (hw.ne_nextProc hT) hop, fun he => ?_⟩
          obtain rfl : pc = .exitThread := he
          rcases hgo.to_exitThread with ⟨hpc₀, -⟩ | ⟨-, hd⟩
          · -- the guard: somebody holds a pointer to the caller
            exact hok T hT hpc₀ p P₀ hP₀ hr₀
          · exact hop hd
        · exact hother r R hR hpc hra
    | created _ _ => exact hr.elim
  · intro p P hP hpc
    cases hb p P hP with
    | moved he =>
        obtain rfl : pc = .exitThread := hpc
        -- the last release leaves the lock free
        rcases hgo.to_exitThread with ⟨-, rfl⟩ | ⟨hpc₀, rfl⟩
        · rcases owner_of_apply happly with ⟨-, -, hg⟩ | ⟨r, hop, -⟩ | ⟨r, hg, ho⟩
          · exact absurd rfl (hg a.caller)
          · cases hop
          · obtain rfl : r = a.caller := hg
            rw [ho, he, Function.update_self]
        · rcases owner_of_apply happly with ⟨ho, -, -⟩ | ⟨r, hop, -⟩ | ⟨r, hg, -⟩
          · rw [ho, he]
            exact hp.idle a.caller T hT hpc₀
          · cases hop
          · exact hg.elim
    | @other P₀ pc' hne hP₀ hpass =>
        have hpc₀ : P₀.pc = .exitThread := hpass.from_exitThread hpc
        have hfree := hp.idle p P₀ hP₀ hpc₀
        rcases owner_of_apply happly with ⟨ho, -, -⟩ | ⟨r, rfl, ho⟩ | ⟨r, -, ho⟩
        · rw [ho]
          exact hfree
        · -- whoever takes a lock has a pointer, and it leads elsewhere
          have hr : p ≠ r := by
            rintro rfl
            rcases hgo.take_refers with he | hr
            · exact hne he
            · obtain ⟨R, hR, hRpc⟩ := hp.refs a.caller T p hT hr
              rw [hP₀] at hR
              cases hR
              exact hRpc hpc₀
          rw [ho, Function.update_of_ne hr]
          exact hfree
        · rw [ho]
          by_cases hr : p = r
          · rw [hr, Function.update_self]
          · rw [Function.update_of_ne hr]
            exact hfree
    | created _ _ => cases hpc

theorem noneFreed_of_pointed {m : Machine} (hg : Registry m) (hp : Pointed m) : NoneFreed m := by
  constructor
  · intro p T r hT hu hnone
    have htable : (∃ i, m.ptable.procArray i = some r) → False := by
      rintro ⟨i, hi⟩
      obtain ⟨R, hR, -⟩ := hg.alive i r hi
      rw [hnone] at hR
      cases hR
    have href : T.pc.refers r → False := by
      intro hr
      obtain ⟨R, hR, -⟩ := hp.refs p T r hT hr
      rw [hnone] at hR
      cases hR
    cases hpc : T.pc with
    | waitSearch | exitSearch | exitRemove =>
        rw [hpc] at hu
        exact htable hu
    | forkThread env q =>
        rw [hpc] at hu
        obtain rfl : r = q := hu
        obtain ⟨Q, hQ, -⟩ := hg.forks p T r hT (by rw [hpc]; rfl)
        rw [hnone] at hQ
        cases hQ
    | waitInner | waitCheck | waitFailInner | waitPassInner | exitParent | exitUnlock | exitSignal =>
        rw [hpc] at hu href
        exact href hu
    | _ =>
        rw [hpc] at hu
        exact hu.elim
  · intro p T hT hpc
    -- a process sleeps on its own `waitpid_cv` only
    refine ⟨hp.idle p T hT hpc, fun q Q w hQ hQpc he => ?_⟩
    rw [he, hT] at hQ
    cases hQ
    rw [hpc] at hQpc
    cases hQpc

/-- In every run in which processes come to the end of `_exit` only when nobody holds a pointer to
them, no step touches a destroyed process. -/
theorem noneFreed_of_keepsPointers {m : Machine} (h : Reach step KeepsPointers init m) :
    NoneFreed m := by
  have hinv : WellFormed m ∧ Registry m ∧ Pointed m := by
    refine h.invariant (I := fun m => WellFormed m ∧ Registry m ∧ Pointed m) ?_
      ⟨wellFormed_init, registry_init, pointed_init⟩
    rintro t a u ⟨hw, hg, hp⟩ hok hst
    exact ⟨wellFormed_of_step hw hst, registry_of_step hw hg hst,
      pointed_of_step hw hg hp hok hst⟩
  exact noneFreed_of_pointed hinv.2.1 hinv.2.2

/-- The pointer of a process at this point, computed. -/
def Pc.pointer : Pc → Option ProcRef
  | .waitNull _ child | .waitExited _ child => child
  | .waitInner _ c | .waitCheck _ c | .waitFailInner _ c | .waitPassInner _ c => some c
  | .exitRem _ parent => parent
  | .exitParent _ q | .exitPost _ q | .exitUnlock q | .exitSignal q => some q
  | _ => none

theorem Pc.pointer_eq {pc : Pc} {r : ProcRef} (h : pc.refers r) : pc.pointer = some r := by
  cases pc with
  | waitNull _ child | waitExited _ child | exitRem _ child =>
      cases child with
      | none => exact h.elim
      | some c => exact congrArg some h.symm
  | waitInner | waitCheck | waitFailInner | waitPassInner | exitParent | exitPost | exitUnlock
  | exitSignal => exact congrArg some h.symm
  | _ => exact h.elim

/-- The test for `KeepsPointers`. -/
def keepsPointers (m : Machine) (a : Action) : Bool :=
  (m.tasks a.caller).all fun T =>
    match T.pc with
    | .exitRelease => (List.range m.nextProc).all fun q => (m.tasks q).all fun Q =>
        Q.pc.pointer != some a.caller
    | _ => true

theorem keepsPointers_sound {m : Machine} {a : Action} (hw : WellFormed m)
    (h : keepsPointers m a = true) : KeepsPointers m a := by
  intro T hT hpc q Q hQ hr
  simp only [keepsPointers, hT, Option.all_some, hpc, List.all_eq_true, List.mem_range] at h
  have := h q (hw.fresh q Q hQ)
  simp [hQ, Pc.pointer_eq hr] at this

/-- A parent waits for its child, the child exits, and then the parent. -/
def orderlyRun : List Action :=
  forkTicks 1 ++ waitTicks 1 2 10 ++ exitTicks 2 7 11 ++ ticks 1 5 ++ exitTicks 1 0 7

theorem noneFreed_orderlyRun :
    ∃ m, runChecked exec keepsPointers init orderlyRun = some m ∧ NoneFreed m := by
  have hrun : (runChecked exec keepsPointers init orderlyRun).isSome = true := by decide +kernel
  obtain ⟨m, hm⟩ := Option.isSome_iff_exists.1 hrun
  refine ⟨m, hm, noneFreed_of_keepsPointers ?_⟩
  refine reach_of_runChecked (fun _ _ _ h => h) (fun t a ht hc => ?_) orderlyRun .refl hm
  exact keepsPointers_sound (wellFormed_of_reach ht) hc

/-- The parent exits while its child is between the lookup of the parent and its lock. -/
def parentFirst : List Action :=
  forkTicks 1 ++ exitTicks 2 0 3 ++ exitTicks 1 0 7 ++ ticks 2 1

theorem not_noneFreed_of_anyStep : ¬ ∀ m, Reach step anyStep init m → NoneFreed m := by
  intro h
  have hrun : ((runAll exec init parentFirst).any fun m =>
      (m.tasks 2).any (fun T => decide (T.pc = .exitParent ⟨0, true⟩ 1)) && (m.tasks 1).isNone) =
      true := by decide +kernel
  obtain ⟨m, hm, hbad⟩ := (Option.any_eq_true _ _).1 hrun
  obtain ⟨hpc, hnone⟩ := Bool.and_eq_true_iff.1 hbad
  obtain ⟨T, hT, hpc⟩ := (Option.any_eq_true _ _).1 hpc
  have hpc := of_decide_eq_true hpc
  have hsafe := h m (reach_of_runAll (fun _ _ _ h => h) parentFirst .refl hm)
  exact hsafe.uses 2 T 1 hT (by rw [hpc]; rfl) (by simpa using hnone)

end Os161.Interleave

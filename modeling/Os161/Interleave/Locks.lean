import Os161.Interleave.Steps

set_option autoImplicit false

/-!
# Waiting for the ops_locks

`waitpid` takes the lock of the caller and then the lock of the process it waits for; `_exit` takes
the lock of the caller and then the lock of its parent. The two orders meet in a cycle when a parent
waits for a child that is exiting, and a process that waits for itself asks for a lock it has.

Where `waitpid` only goes on to processes with a higher pid that are not exiting, where `_exit` does
not begin under somebody who is about to lock the caller, and where the process fetched as the parent
has a lower pid, the waits of `waitpid` climb and the waits of `_exit` descend, and there is no cycle.
-/

namespace Os161.Interleave

open Os161.Lib.Runs
open Os161.Lib.Slots
open Os161.Proc
open Os161.Syscall

/-! ## Locks held and asked for -/

/-- The lock that a process is in `lock_acquire` for. -/
def Pc.wants (p : ProcRef) : Pc → Option ProcRef
  | .waitOwn _ | .waitWoken _ | .exitOwn _ | .forkOwn _ => some p
  | .waitInner _ c => some c
  | .exitParent _ q => some q
  | _ => none

/-- The locks that a process can have at a program point. -/
def Pc.holds (p : ProcRef) : Pc → ProcRef → Prop
  | .new, _ | .user, _ | .waitOwn _, _ | .waitAsleep _, _ | .waitWoken _, _ | .exitOwn _, _
  | .exitThread, _ | .forkOwn _, _ | .forkPut _ _, _ | .forkThread _ _, _ => False
  | .waitCheck _ c, r | .waitFailInner _ c, r | .waitPassInner _ c, r => r = p ∨ r = c
  | .exitPost _ q, r | .exitUnlock q, r => r = p ∨ r = q
  | _, r => r = p

/-- The process is in `_exit`, with its own lock and without that of its parent. -/
def Pc.exiting : Pc → Prop
  | .exitSearch _ | .exitFetch _ _ | .exitRem _ _ | .exitParent _ _ => True
  | _ => False

/-- The process `a` is blocked on an `ops_lock` that `b` holds. -/
def Waits (m : Machine) (a b : ProcRef) : Prop :=
  ∃ A r, m.tasks a = some A ∧ A.pc.wants a = some r ∧ m.owner r = some b

/-- Nobody is blocked on a lock it holds itself, directly or through others. -/
def DeadlockFree (m : Machine) : Prop := ∀ a, ¬ Relation.TransGen (Waits m) a a

/-- A step keeps what the process has, except for what the operation gives back. -/
theorem Goes.holds {m : Machine} {p : ProcRef} {T : Task} {op : Op} {pc₀ pc : Pc}
    (h : Goes m p T pc₀ op pc) (r : ProcRef) (hr : pc₀.holds p r) :
    pc.holds p r ∨ op.gives p r := by
  cases h <;> simp_all [Pc.holds, Op.gives]

theorem Goes.holds_take {m : Machine} {p r : ProcRef} {T : Task} {op : Op} {pc₀ pc : Pc}
    (h : Goes m p T pc₀ op pc) (hop : op = .take r) : pc.holds p r := by
  cases h <;> simp_all [Pc.holds]

theorem Passive.holds {pc pc' : Pc} (h : Passive pc pc') (q r : ProcRef) (hr : pc.holds q r) :
    pc'.holds q r := by
  cases h with
  | same => exact hr
  | woken w => exact hr.elim
  | started => exact hr.elim

theorem Op.gives_unique {p r r' : ProcRef} {op : Op} (h : op.gives p r) (h' : op.gives p r') :
    r = r' := by
  cases op <;> simp_all [Op.gives]

/-- A process that is blocked has at most its own lock, and it is on its way to another one. -/
theorem Pc.blocked {p r r' : ProcRef} {pc : Pc} (hw : pc.wants p = some r') (hh : pc.holds p r) :
    r = p ∧ ((∃ w, pc = .waitInner w r') ∨ ∃ x, pc = .exitParent x r') := by
  cases pc <;> simp_all [Pc.wants, Pc.holds]

/-! ## The order of the locks -/

/-- The action takes the locks in an order that cannot close a cycle. -/
structure KeepsOrder (m : Machine) (a : Action) : Prop where
  inner : ∀ T w c C, m.tasks a.caller = some T → T.pc = .waitExited w (some c) →
    m.exited w.pid = false → m.tasks c = some C → T.pid < C.pid ∧ ¬ C.pc.exiting
  exit : ∀ T x, m.tasks a.caller = some T → T.pc = .exitOwn x →
    ∀ q Q w, m.tasks q = some Q → Q.pc ≠ .waitInner w a.caller
  parent : ∀ T x q, m.tasks a.caller = some T → T.pc = .exitRem x (some q) →
    ∃ Q, m.tasks q = some Q ∧ Q.pid < T.pid

/-- Locks are held by processes that are at a point where they can have them. -/
def Owned (m : Machine) : Prop :=
  ∀ r q, m.owner r = some q → ∃ Q, m.tasks q = some Q ∧ Q.pc.holds q r

/-- What the order gives: whoever is about to lock the process it waits for has a lower pid, and
that process is not exiting; whoever is about to lock its parent has a higher pid. -/
structure Ordered (m : Machine) : Prop where
  inner : ∀ a A w c C, m.tasks a = some A → A.pc = .waitInner w c → m.tasks c = some C →
    A.pid < C.pid ∧ ¬ C.pc.exiting
  parent : ∀ a A x q, m.tasks a = some A → A.pc = .exitParent x q →
    q < m.nextProc ∧ ∀ Q, m.tasks q = some Q → Q.pid < A.pid

theorem owned_init : Owned init := by
  intro r q h
  cases h

theorem owned_of_step {m m' : Machine} {a : Action} (hw : WellFormed m) (ho : Owned m)
    (h : step m a m') : Owned m' := by
  obtain ⟨T, op, pc, hT, hgo, happly⟩ := step_cases h
  -- a lock that the step leaves alone stays with a process that can have it
  have hkeep : ∀ r q, m.owner r = some q → ¬ op.gives a.caller r →
      ∃ Q, m'.tasks q = some Q ∧ Q.pc.holds q r := by
    intro r q hr hg
    obtain ⟨Q, hQ, hh⟩ := ho r q hr
    by_cases hq : q = a.caller
    · subst hq
      rw [hT] at hQ
      cases hQ
      have hpc : pc.holds a.caller r := (hgo.holds r hh).resolve_right hg
      have hop : op ≠ .destroy := by
        rintro rfl
        generalize T.pc = pc₀ at hgo hh
        cases hgo
        exact hh
      exact ⟨_, tasks_self hgo happly (hw.ne_nextProc hT) hop, hpc⟩
    · obtain ⟨pc', hQ', hpass⟩ := tasks_other happly hq (hw.ne_nextProc hQ) hQ
      exact ⟨_, hQ', hpass.holds q r hh⟩
  intro r q hr
  rcases owner_of_apply happly with ⟨e, -, hg⟩ | ⟨r₀, hop, e⟩ | ⟨r₀, hg, e⟩
  · rw [e] at hr
    exact hkeep r q hr (hg r)
  · rw [e] at hr
    rcases update_eq_some hr with ⟨rfl, hx⟩ | ⟨he, hr⟩
    · cases hx
      have hne : op ≠ .destroy := by simp [hop]
      exact ⟨_, tasks_self hgo happly (hw.ne_nextProc hT) hne, hgo.holds_take hop⟩
    · apply hkeep r q hr
      intro hg
      rw [hop] at hg
      exact hg
  · rw [e] at hr
    obtain ⟨he, hr⟩ := cleared_eq_some hr
    exact hkeep r q hr fun hg' => he (Op.gives_unique hg' hg)

/-- Only the first step of `_exit` makes a process exiting. -/
theorem Goes.exiting {m : Machine} {p : ProcRef} {T : Task} {op : Op} {pc₀ pc : Pc}
    (h : Goes m p T pc₀ op pc) (he : pc.exiting) : pc₀.exiting ∨ ∃ x, pc₀ = .exitOwn x := by
  cases h <;> simp_all [Pc.exiting]

theorem Goes.to_waitInner {m : Machine} {p c : ProcRef} {T : Task} {op : Op} {pc₀ : Pc} {w : Wait}
    (h : Goes m p T pc₀ op (.waitInner w c)) :
    pc₀ = .waitExited w (some c) ∧ m.exited w.pid = false ∧ op = .nop := by
  cases h
  exact ⟨rfl, by assumption, rfl⟩

theorem Goes.to_exitParent {m : Machine} {p q : ProcRef} {T : Task} {op : Op} {pc₀ : Pc} {x : Exit}
    (h : Goes m p T pc₀ op (.exitParent x q)) : pc₀ = .exitRem x (some q) ∧ op = .remAll := by
  cases h
  exact ⟨rfl, rfl⟩

theorem Passive.exiting {pc pc' : Pc} (h : Passive pc pc') (he : pc'.exiting) : pc.exiting := by
  cases h with
  | same => exact he
  | woken w => exact he.elim
  | started => exact he.elim

/-- A process that is moved on by somebody else does not get to a lock of another process. -/
theorem Passive.eq_of_wants {pc pc' : Pc} (h : Passive pc pc')
    (hpc : (∃ w c, pc' = .waitInner w c) ∨ ∃ x q, pc' = .exitParent x q) : pc = pc' := by
  cases h with
  | same => rfl
  | woken w => simp at hpc
  | started => simp at hpc

theorem ordered_init : Ordered init := by
  have htask : ∀ q Q, init.tasks q = some Q → Q.pc = .user := by
    intro q Q hq
    simp only [init] at hq
    split_ifs at hq
    cases hq
    rfl
  constructor
  · intro a A w c C hA hpc
    rw [htask a A hA] at hpc
    cases hpc
  · intro a A x q hA hpc
    rw [htask a A hA] at hpc
    cases hpc

theorem ordered_of_step {m m' : Machine} {a : Action} (hw : WellFormed m) (ho : Ordered m)
    (hok : KeepsOrder m a) (h : step m a m') : Ordered m' := by
  obtain ⟨T, op, pc, hT, hgo, happly⟩ := step_cases h
  have hb : ∀ q Q, m'.tasks q = some Q → Becomes m a.caller T op pc q Q :=
    fun q Q hq => becomes_of_step hgo happly hq
  constructor
  · intro q Q w c C hQ hpc hC
    cases hb q Q hQ with
    | moved he =>
        obtain rfl : pc = .waitInner w c := hpc
        obtain ⟨hpc₀, hex, hop⟩ := hgo.to_waitInner
        cases hb c C hC with
        | moved hc =>
            have := hok.inner T w c T hT hpc₀ hex (hc ▸ hT)
            exact absurd this.1 (lt_irrefl _)
        | other _ hC₀ hpass =>
            obtain ⟨hlt, hne⟩ := hok.inner T w c _ hT hpc₀ hex hC₀
            exact ⟨hlt, fun hx => hne (hpass.exiting hx)⟩
        | created _ hcr =>
            rw [hop] at hcr
            cases hcr
    | @other Q₀ pc' _ hQ₀ hpass =>
        obtain rfl : pc' = .waitInner w c := hpc
        have hpc₀ : Q₀.pc = .waitInner w c := hpass.eq_of_wants (.inl ⟨w, c, rfl⟩)
        cases hb c C hC with
        | moved hc =>
            obtain ⟨hlt, hne⟩ := ho.inner q Q₀ w c T hQ₀ hpc₀ (hc ▸ hT)
            refine ⟨hlt, fun hx => ?_⟩
            rcases hgo.exiting hx with hx₀ | ⟨x, hx₀⟩
            · exact hne hx₀
            · -- `_exit` does not begin under somebody who is about to lock the caller
              exact hok.exit T x hT hx₀ q Q₀ w hQ₀ (hc ▸ hpc₀)
        | other _ hC₀ hpass' =>
            obtain ⟨hlt, hne⟩ := ho.inner q Q₀ w c _ hQ₀ hpc₀ hC₀
            exact ⟨hlt, fun hx => hne (hpass'.exiting hx)⟩
        | created _ _ =>
            have hlt : Q₀.pid < m.ptable.nextPid := hw.pid_lt hQ₀
            exact ⟨hlt, id⟩
    | created _ _ => cases hpc
  · intro q Q x r hQ hpc
    have hnext : m.nextProc ≤ m'.nextProc := by
      rcases (effect_of_apply hT happly).counters with ⟨-, e, -⟩ | ⟨-, e, -⟩
      · exact e.ge
      · rw [e]
        exact Nat.le_succ _
    cases hb q Q hQ with
    | moved he =>
        obtain rfl : pc = .exitParent x r := hpc
        obtain ⟨hpc₀, hop⟩ := hgo.to_exitParent
        obtain ⟨R, hR, hlt⟩ := hok.parent T x r hT hpc₀
        refine ⟨lt_of_lt_of_le (hw.fresh r R hR) hnext, fun R' hR' => ?_⟩
        cases hb r R' hR' with
        | moved hr =>
            rw [hr, hT] at hR
            cases hR
            exact hlt
        | other _ hR₀ _ =>
            rw [hR] at hR₀
            cases hR₀
            exact hlt
        | created _ hcr =>
            rw [hop] at hcr
            cases hcr
    | @other Q₀ pc' _ hQ₀ hpass =>
        obtain rfl : pc' = .exitParent x r := hpc
        have hpc₀ : Q₀.pc = .exitParent x r := hpass.eq_of_wants (.inr ⟨x, r, rfl⟩)
        obtain ⟨hlt, hpid⟩ := ho.parent q Q₀ x r hQ₀ hpc₀
        refine ⟨lt_of_lt_of_le hlt hnext, fun R' hR' => ?_⟩
        cases hb r R' hR' with
        | moved hr => exact hpid T (hr ▸ hT)
        | @other R₀ _ _ hR₀ _ =>
            have hlt' : R₀.pid < Q₀.pid := hpid R₀ hR₀
            exact hlt'
        | created hr _ => exact absurd hr (Nat.ne_of_lt hlt)
    | created _ _ => cases hpc

/-! ## No cycle -/

/-- The rank of a process in the order of the locks. -/
def rank (m : Machine) (p : ProcRef) : Int := (m.tasks p).elim 0 Task.pid

/-- The process is about to lock the process it waits for. -/
def Climbing (m : Machine) (p : ProcRef) : Prop :=
  ∃ P w c, m.tasks p = some P ∧ P.pc = .waitInner w c

/-- A process that is blocked and waited for has its own lock, the one that is asked for. -/
theorem Owned.blocked {m : Machine} (ho : Owned m) {r b : ProcRef} (hr : m.owner r = some b)
    (hb : ∃ c, Waits m b c) :
    r = b ∧ ∃ B r', m.tasks b = some B ∧
      ((∃ w, B.pc = .waitInner w r') ∨ ∃ x, B.pc = .exitParent x r') := by
  obtain ⟨c, B, r', hB, hwants, -⟩ := hb
  obtain ⟨B', hB', hh⟩ := ho r b hr
  rw [hB] at hB'
  cases hB'
  obtain ⟨e, hpc⟩ := Pc.blocked hwants hh
  exact ⟨e, B, r', hB, hpc⟩

theorem twoPhase_of_ordered {m : Machine} (hown : Owned m) (ho : Ordered m) :
    TwoPhase (fun x y => Waits m x y ∧ ∃ c, Waits m y c) (Climbing m) (rank m) := by
  constructor
  · rintro a b ⟨⟨A, r, hA, hwants, hr⟩, hblocked⟩ ⟨A', w, c, hA', hpc⟩
    rw [hA] at hA'
    cases hA'
    obtain rfl : c = r := by simpa [hpc, Pc.wants] using hwants
    obtain ⟨rfl, B, r', hB, hBpc⟩ := hown.blocked hr hblocked
    obtain ⟨hlt, hne⟩ := ho.inner a A w c B hA hpc hB
    rcases hBpc with ⟨w', hB'⟩ | ⟨x, hB'⟩
    · refine ⟨⟨B, w', r', hB, hB'⟩, ?_⟩
      simpa [rank, hA, hB] using hlt
    · rw [hB'] at hne
      exact absurd trivial hne
  · rintro a b ⟨⟨A, r, hA, hwants, hr⟩, hblocked⟩ hclimb
    obtain ⟨rfl, B, r', hB, hBpc⟩ := hown.blocked hr hblocked
    have hcases : r = a ∨ ∃ x, A.pc = .exitParent x r := by
      cases hpc : A.pc <;> simp_all [Pc.wants, Climbing]
    rcases hcases with rfl | ⟨x, hpc⟩
    · -- a process that waits for its own lock is not on its way to another one
      rw [hA] at hB
      cases hB
      rcases hBpc with ⟨w, hB'⟩ | ⟨x, hB'⟩
      · exact absurd ⟨A, w, r', hA, hB'⟩ hclimb
      · obtain rfl : r' = r := by simpa [hB', Pc.wants] using hwants
        exact absurd ((ho.parent r' A x r' hA hB').2 A hA) (lt_irrefl _)
    · have hlt := (ho.parent a A x r hA hpc).2 B hB
      simpa [rank, hA, hB] using hlt

/-- In every run that keeps the order of the locks, no state has a cycle of blocked processes. -/
theorem deadlockFree_of_keepsOrder {m : Machine} (h : Reach step KeepsOrder init m) :
    DeadlockFree m := by
  have hinv : WellFormed m ∧ Owned m ∧ Ordered m := by
    refine h.invariant (I := fun m => WellFormed m ∧ Owned m ∧ Ordered m) ?_
      ⟨wellFormed_init, owned_init, ordered_init⟩
    rintro t a u ⟨hw, hown, ho⟩ hok hst
    exact ⟨wellFormed_of_step hw hst, owned_of_step hw hown hst, ordered_of_step hw ho hok hst⟩
  obtain ⟨-, hown, ho⟩ := hinv
  intro a
  exact (twoPhase_of_ordered hown ho).acyclic_of_blocked a

/-- The test for `KeepsOrder`. -/
def keepsOrder (m : Machine) (a : Action) : Bool :=
  (m.tasks a.caller).all fun T =>
    match T.pc with
    | .waitExited w (some c) =>
        m.exited w.pid || (m.tasks c).all fun C =>
          decide (T.pid < C.pid) && match C.pc with
            | .exitSearch _ | .exitFetch _ _ | .exitRem _ _ | .exitParent _ _ => false
            | _ => true
    | .exitOwn _ =>
        (List.range m.nextProc).all fun q => (m.tasks q).all fun Q =>
          match Q.pc with
          | .waitInner _ c => c != a.caller
          | _ => true
    | .exitRem _ (some q) => (m.tasks q).any fun Q => decide (Q.pid < T.pid)
    | _ => true

theorem keepsOrder_sound {m : Machine} {a : Action} (hw : WellFormed m)
    (h : keepsOrder m a = true) : KeepsOrder m a := by
  constructor
  · intro T w c C hT hpc hex hC
    simp only [keepsOrder, hT, Option.all_some, hpc, hex, Bool.false_or, hC, Bool.and_eq_true,
      decide_eq_true_eq] at h
    refine ⟨h.1, fun he => ?_⟩
    cases hCpc : C.pc <;> simp_all [Pc.exiting]
  · intro T x hT hpc q Q w hQ hQpc
    simp only [keepsOrder, hT, Option.all_some, hpc, List.all_eq_true, List.mem_range] at h
    have := h q (hw.fresh q Q hQ)
    simp [hQ, hQpc] at this
  · intro T x q hT hpc
    simp only [keepsOrder, hT, Option.all_some, hpc, Option.any_eq_true, decide_eq_true_eq] at h
    exact h

/-- A parent sleeps in `waitpid` until its child has exited, and takes the status. -/
def sleepingRun : List Action :=
  forkTicks 1 ++ waitTicks 1 2 10 ++ exitTicks 2 7 11 ++ ticks 1 5

theorem deadlockFree_sleepingRun :
    ∃ m, runChecked exec keepsOrder init sleepingRun = some m ∧ DeadlockFree m := by
  have hrun : (runChecked exec keepsOrder init sleepingRun).isSome = true := by decide +kernel
  obtain ⟨m, hm⟩ := Option.isSome_iff_exists.1 hrun
  refine ⟨m, hm, deadlockFree_of_keepsOrder ?_⟩
  refine reach_of_runChecked (fun _ _ _ h => h) (fun t a ht hc => ?_) sleepingRun .refl hm
  exact keepsOrder_sound (wellFormed_of_reach ht) hc

/-- A process calls `waitpid` with its own pid. -/
def selfWait : List Action := forkTicks 1 ++ waitTicks 2 2 5

theorem not_deadlockFree_of_anyStep : ¬ ∀ m, Reach step anyStep init m → DeadlockFree m := by
  intro h
  have hrun : ((runAll exec init selfWait).any fun m =>
      (m.tasks 2).any (fun T => T.pc.wants 2 == some 2) && m.owner 2 == some 2) = true := by
    decide +kernel
  obtain ⟨m, hm, hbad⟩ := (Option.any_eq_true _ _).1 hrun
  obtain ⟨hwants, howner⟩ := Bool.and_eq_true_iff.1 hbad
  obtain ⟨T, hT, hwants⟩ := (Option.any_eq_true _ _).1 hwants
  have hw : Waits m 2 2 := ⟨T, 2, hT, by simpa using hwants, by simpa using howner⟩
  exact h m (reach_of_runAll (fun _ _ _ h => h) selfWait .refl hm) 2 (.single hw)

end Os161.Interleave

import Os161.Main.Calls

set_option autoImplicit false

/-!
# Waiting for somebody else's child

`waitpid` on a pid that is not one of the caller's children. The lookup goes by the pid alone, the
test of the parent compares the wrong values, and the loop waits for an exit code with that pid,
whoever it was posted for; `declines_iff` says in which states the call is refused all the same.
-/

namespace Os161.Main

open Os161.Lib.Program
open Os161.Lib.Runs
open Os161.Lib.Slots
open Os161.Vfs
open Os161.Proc
open Os161.Syscall

/-! ## Searches that return -/

theorem testPid_returns {pid : Int} {s : Kernel} {x : Option ProcRef} {b : Bool} {s' : Kernel} :
    Runs (testPid pid x) s b s' ↔
      (∀ p, x = some p → s.procs p ≠ none) ∧
        b = (x.any fun p => (s.procs p).any fun P => P.pid == pid) ∧ s' = s := by
  cases x with
  | none => simp [testPid]
  | some p =>
      simp only [testPid, runs_bind, runs_readProc, runs_pure]
      constructor
      · rintro ⟨P, s₁, ⟨hP, rfl⟩, rfl, rfl⟩
        exact ⟨fun q hq => by cases hq; simp [hP], by simp [hP], rfl⟩
      · rintro ⟨hne, rfl, rfl⟩
        obtain ⟨P, hP⟩ := Option.ne_none_iff_exists'.1 (hne p rfl)
        exact ⟨P, s', ⟨hP, rfl⟩, by simp [hP], rfl⟩

/-- No entry of the process table dangles. -/
def TableAllocated (s : Kernel) : Prop :=
  ∀ i p, s.ptable.procArray i = some p → s.procs p ≠ none

theorem getReferenceByPid_returns {pid : Int} {x : Option ProcRef} {s s' : Kernel} :
    Runs (getReferenceByPid pid) s x s' ↔
      s.held .proctable = none ∧ TableAllocated s ∧
        x = (slotByPid s pid).bind s.ptable.procArray ∧ s' = s := by
  constructor
  · intro h
    obtain ⟨hx, hs⟩ := runs_getReferenceByPid h
    simp only [getReferenceByPid, runs_bind, runs_lockAcquire, runs_get] at h
    obtain ⟨_, s₁, ⟨hfree, rfl⟩, t, s₂, ⟨rfl, rfl⟩, found, s₃, hscan, -⟩ := h
    refine ⟨hfree, fun i p hi => ?_, hx, hs⟩
    -- the search does not stop at a hit, so it tests every slot
    have htest := scanLast_tests (reads_testPid _ _ _) _ hscan i (List.mem_finRange i)
    exact (testPid_returns.1 htest).1 p hi
  · rintro ⟨hfree, halloc, rfl, rfl⟩
    have htest : ∀ i ∈ List.finRange procMax, Runs (testPid pid (s'.ptable.procArray i))
        { s' with held := Function.update s'.held .proctable (some s'.curproc) }
        ((s'.ptable.procArray i).any fun p => (s'.procs p).any fun P => P.pid == pid)
        { s' with held := Function.update s'.held .proctable (some s'.curproc) } :=
      fun i _ => testPid_returns.2 ⟨halloc i, rfl, rfl⟩
    have hscan := scanLast_returns (List.finRange procMax) none htest
    simp only [getReferenceByPid, runs_bind, runs_lockAcquire, runs_get, runs_lockRelease,
      runs_pure]
    refine ⟨(), _, ⟨hfree, rfl⟩, _, _, ⟨rfl, rfl⟩, _, _, hscan, (), _, ⟨by simp, rfl⟩, ?_, ?_⟩
    · rw [Option.or_none]
      rfl
    · simp only [update_held_cancel hfree]

theorem isProcExited_returns {pid : Int} {b : Bool} {s s' : Kernel} :
    Runs (isProcExited pid) s b s' ↔
      s.held .proctable = none ∧ b = ExitCodes.isProcExited s.ptable.activeExitCodes pid ∧
        s' = s := by
  constructor
  · intro h
    have hrest := runs_isProcExited h
    simp only [isProcExited, runs_bind, runs_lockAcquire] at h
    obtain ⟨_, s₁, ⟨hfree, -⟩, -⟩ := h
    exact ⟨hfree, hrest⟩
  · rintro ⟨hfree, rfl, rfl⟩
    simp only [isProcExited, runs_bind, runs_lockAcquire, runs_get, runs_lockRelease, runs_pure]
    refine ⟨(), _, ⟨hfree, rfl⟩, _, _, ⟨rfl, rfl⟩, (), _, ⟨by simp, rfl⟩, rfl, ?_⟩
    simp only [update_held_cancel hfree]

/-! ## Who is refused -/

/-- `pid` names neither a live child of the process `P` nor a child of it whose status is kept. -/
structure Stranger (s : Kernel) (P : Os161.Proc) (pid : Int) : Prop where
  live : ∀ q Q, s.procs q = some Q → Q.pid = pid → Q.ppid ≠ P.pid
  exited : ∀ i e, s.ptable.activeExitCodes i = some e → e.pid = pid → e.ppid ≠ P.pid

/-- `waitpid` returns `ESRCH` or `ECHILD` without sleeping, it stores nothing, and the exit codes
stay as they are. -/
def Declines (s : Kernel) (pid : Int) (status : StatusArg) : Prop :=
  ∃ e s', (e = .ESRCH ∨ e = .ECHILD) ∧ Runs (sysWaitpid pid status 0 []) s (waitFail e) s' ∧
    s'.ptable.activeExitCodes = s.ptable.activeExitCodes

/-- The locks `waitpid` takes first are free and the process table can be searched; no exit code
has the pid; and if the search finds a process, it is not the caller, its lock is free, and the
test of `waitpid` takes it for somebody else's child. -/
structure Refuses (s : Kernel) (P : Os161.Proc) (pid : Int) : Prop where
  own : s.held (.ops s.curproc) = none
  table : s.held .proctable = none
  allocated : TableAllocated s
  notExited : ExitCodes.isProcExited s.ptable.activeExitCodes pid = false
  found : ∀ i c C, slotByPid s pid = some i → s.ptable.procArray i = some c →
    s.procs c = some C → c ≠ s.curproc ∧ s.held (.ops c) = none ∧
      (P.pid = 0 ∨ (P.pid = 1 ∧ C.ppid = 0) ∨ pid = P.pid)

/-- The slot that is found holds a process with the pid. -/
theorem slotByPid_spec {s : Kernel} {pid : Int} {i : Fin procMax} (h : slotByPid s pid = some i) :
    ∃ c C, s.ptable.procArray i = some c ∧ s.procs c = some C ∧ C.pid = pid := by
  obtain ⟨c, hc, hp⟩ := lastWith_eq_some h
  obtain ⟨C, hC, hpid⟩ := (Option.any_eq_true _ _).1 hp
  exact ⟨c, C, hc, hC, by simpa using hpid⟩

section Waitpid

variable {s : Kernel} {P : Os161.Proc} {pid : Int} {status : StatusArg}

/-- For a process that is not the caller's child, the test of `waitpid` comes down to the pids. -/
theorem test_iff {C : Os161.Proc} (hne : C.ppid ≠ P.pid) :
    ((if C.ppid = 0 then (1 : Int) else 0) = P.pid ∨ pid = P.pid) ↔
      (P.pid = 0 ∨ (P.pid = 1 ∧ C.ppid = 0) ∨ pid = P.pid) := by
  -- `!child_proc->ppid` is 1 where the parent is 0, and 0 for all others
  split_ifs with h0
  · rw [h0] at hne
    constructor
    · rintro (h | h)
      · exact .inr (.inl ⟨h.symm, h0⟩)
      · exact .inr (.inr h)
    · rintro (h | ⟨h, -⟩ | h)
      · exact absurd h.symm hne
      · exact .inl h.symm
      · exact .inr h
  · constructor
    · rintro (h | h)
      · exact .inl h.symm
      · exact .inr (.inr h)
    · rintro (h | ⟨-, h⟩ | h)
      · exact .inl h.symm
      · exact absurd h h0
      · exact .inr h

/-- The state in which `waitpid` looks around: the caller has its own lock. -/
def ownLocked (s : Kernel) : Kernel :=
  { s with held := Function.update s.held (.ops s.curproc) (some s.curproc) }

/-- Everything `waitpid` does before it looks around. -/
theorem runs_sysWaitpid (hP : s.procs s.curproc = some P) (hlow : pidMin ≤ pid)
    (hhigh : pid ≤ pidMax) {wakes : List ExitCodes} {r : WaitResult} {s' : Kernel} :
    Runs (sysWaitpid pid status 0 wakes) s r s' ↔
      s.held (.ops s.curproc) = none ∧ s.held .proctable = none ∧ TableAllocated s ∧
        ((∃ i c, slotByPid s pid = some i ∧ s.ptable.procArray i = some c ∧
            Runs (waitFound s.curproc P (some c) pid status wakes) (ownLocked s) r s') ∨
          (slotByPid s pid = none ∧
            ExitCodes.isProcExited s.ptable.activeExitCodes pid = true ∧
            Runs (waitFound s.curproc P none pid status wakes) (ownLocked s) r s') ∨
          (slotByPid s pid = none ∧
            ExitCodes.isProcExited s.ptable.activeExitCodes pid = false ∧
            r = waitFail .ESRCH ∧ s' = s)) := by
  -- the two tests before the lock have passed
  have hrange : ¬ (pid < pidMin ∨ pid > pidMax) := by omega
  have htable : (ownLocked s).held .proctable = s.held .proctable := by simp [ownLocked]
  have hexited : ∀ {b t}, Runs (isProcExited pid) (ownLocked s) b t ↔
      s.held .proctable = none ∧ b = ExitCodes.isProcExited s.ptable.activeExitCodes pid ∧
        t = ownLocked s := by
    intro b t
    rw [isProcExited_returns, htable]
    rfl
  have hsearch : ∀ {x t}, Runs (getReferenceByPid pid) (ownLocked s) x t ↔
      s.held .proctable = none ∧ TableAllocated s ∧
        x = (slotByPid s pid).bind s.ptable.procArray ∧ t = ownLocked s := by
    intro x t
    rw [getReferenceByPid_returns, htable]
    rfl
  have hrelease : { ownLocked s with held := Function.update (ownLocked s).held (.ops s.curproc) none } =
      { s with held := Function.update s.held (.ops s.curproc) none } := by
    simp [ownLocked]
  simp only [sysWaitpid, ne_eq, not_true_eq_false, if_false, if_neg hrange, runs_bind,
    runs_curproc, runs_lockAcquire, runs_readProc]
  constructor
  · rintro ⟨p, s₁, ⟨rfl, rfl⟩, _, s₂, ⟨hown, rfl⟩, P', s₃, ⟨hP', rfl⟩, x, s₄, hx, h⟩
    rw [show s₁.procs s₁.curproc = some P from hP] at hP'
    cases hP'
    obtain ⟨htab, halloc, rfl, rfl⟩ := hsearch.1 hx
    refine ⟨hown, htab, halloc, ?_⟩
    cases hslot : slotByPid s₁ pid with
    -- whoever is found, the exit codes are not searched
    | some i =>
        obtain ⟨c, -, hc, -, -⟩ := slotByPid_spec hslot
        rw [hslot, Option.bind_some, hc] at h
        exact .inl ⟨i, c, rfl, hc, h⟩
    -- nobody has the pid: it is `ESRCH` unless a status is kept
    | none =>
        rw [hslot] at h
        simp only [Option.bind_none, runs_bind, runs_ite, runs_lockRelease, runs_pure] at h
        obtain ⟨b, s₅, hb, h⟩ := h
        obtain ⟨-, rfl, rfl⟩ := hexited.1 hb
        rcases h with ⟨hex, h⟩ | ⟨hex, _, s₆, ⟨-, rfl⟩, rfl, rfl⟩
        · exact .inr (.inl ⟨rfl, hex, h⟩)
        · refine .inr (.inr ⟨rfl, by simpa using hex, rfl, ?_⟩)
          rw [hrelease, ← hown, Function.update_eq_self]
  · rintro ⟨hown, htab, halloc, h⟩
    refine ⟨_, _, ⟨rfl, rfl⟩, (), ownLocked s, ⟨hown, rfl⟩, P, _, ⟨hP, rfl⟩, _, _,
      hsearch.2 ⟨htab, halloc, rfl, rfl⟩, ?_⟩
    rcases h with ⟨i, c, hslot, hc, h⟩ | ⟨hslot, hex, h⟩ | ⟨hslot, hex, rfl, rfl⟩
    · rw [hslot, Option.bind_some, hc]
      exact h
    · rw [hslot]
      simp only [Option.bind_none, runs_bind, runs_ite]
      exact ⟨_, _, hexited.2 ⟨htab, rfl, rfl⟩, .inl ⟨hex, h⟩⟩
    · rw [hslot]
      simp only [Option.bind_none, runs_bind, runs_ite, runs_lockRelease, runs_pure]
      refine ⟨_, _, hexited.2 ⟨htab, rfl, rfl⟩, .inr ⟨by simp [hex], (), _, ⟨?_, rfl⟩, trivial, ?_⟩⟩
      · simp [ownLocked]
      · rw [hrelease, ← hown, Function.update_eq_self]

theorem waitFail_ne (e : Errno) (n : Int) (x : Option (BitVec 32)) :
    waitFail e ≠ { err := 0, retval := n, stored := x } := by
  intro h
  have := fail_neg e
  rw [show fail e = 0 from congrArg WaitResult.err h] at this
  exact lt_irrefl _ this

/-- Without a wakeup, the loop of `waitpid` ends only if the exit code is there. -/
theorem exited_of_waitLoop {p : ProcRef} {s s' : Kernel} {u : Unit}
    (h : Runs (waitLoop p pid []) s u s') :
    ExitCodes.isProcExited s.ptable.activeExitCodes pid = true := by
  simp only [waitLoop, runs_bind, runs_ite, runs_throw, and_false, or_false] at h
  obtain ⟨b, s₁, hb, hex, -⟩ := h
  obtain ⟨-, rfl, -⟩ := isProcExited_returns.1 hb
  exact hex

/-- A process that is found refuses the caller at the test of its parent. -/
theorem runs_waitFound {c : ProcRef} {C : Os161.Proc} {e : Errno} {s' : Kernel}
    (hC : s.procs c = some C) (htab : s.held .proctable = none)
    (hown : s.held (.ops s.curproc) = none) :
    Runs (waitFound s.curproc P (some c) pid status []) (ownLocked s) (waitFail e) s' ↔
      ExitCodes.isProcExited s.ptable.activeExitCodes pid = false ∧ c ≠ s.curproc ∧
        s.held (.ops c) = none ∧ ((if C.ppid = 0 then (1 : Int) else 0) = P.pid ∨ pid = P.pid) ∧
        e = .ECHILD ∧ s' = s := by
  have hexited : Runs (isProcExited pid) (ownLocked s)
      (ExitCodes.isProcExited s.ptable.activeExitCodes pid) (ownLocked s) :=
    isProcExited_returns.2 ⟨by simp [ownLocked, htab], rfl, rfl⟩
  -- both locks are given back before the return
  have hback : ∀ h : c ≠ s.curproc, s.held (.ops c) = none →
      ({ ownLocked s with
        held := Function.update (Function.update (Function.update (ownLocked s).held (.ops c)
          (some s.curproc)) (.ops c) none) (.ops s.curproc) none } : Kernel) = s := by
    intro hne hfree
    have hops : LockName.ops c ≠ .ops s.curproc := by simpa using hne
    have hc : (ownLocked s).held (.ops c) = none := by simp [ownLocked, hne, hfree]
    rw [update_held_cancel hc]
    simp only [ownLocked, update_held_cancel hown]
  constructor
  · intro h
    simp only [waitFound, runs_bind, runs_ite, runs_lockRelease, runs_pure] at h
    obtain ⟨b, s₁, hb, h⟩ := h
    obtain ⟨-, rfl, rfl⟩ := isProcExited_returns.1 hb
    rcases h with ⟨-, _, s₂, -, hr, -⟩ | ⟨hex, h⟩
    · -- with a status under the pid the call succeeds, whoever posted it
      exact absurd hr (waitFail_ne e _ _)
    · have hex' : ExitCodes.isProcExited s.ptable.activeExitCodes pid = false :=
        Bool.not_eq_true _ ▸ hex
      simp only [waitChild, runs_bind, runs_ite, runs_readProc, runs_lockAcquire, runs_lockRelease,
        runs_pure] at h
      obtain ⟨C₁, s₂, ⟨hC₁, rfl⟩, _, s₃, ⟨hfree, rfl⟩, C₂, s₄, ⟨hC₂, rfl⟩, h⟩ := h
      have hCC : C₂ = C := Option.some.inj (hC₂.symm.trans hC)
      subst hCC
      -- taking the caller's own lock once more would stop
      have hne : c ≠ s.curproc := by
        rintro rfl
        simp [ownLocked] at hfree
      have hfree' : s.held (.ops c) = none := by simpa [ownLocked, hne] using hfree
      rcases h with ⟨htest, _, s₅, ⟨-, rfl⟩, _, s₆, ⟨-, rfl⟩, hr, rfl⟩ | ⟨-, _, s₅, ⟨-, rfl⟩, _, s₆, hloop, -⟩
      · refine ⟨hex', hne, hfree', htest, ?_, hback hne hfree'⟩
        have hcode : e.code = Errno.ECHILD.code := by
          have := congrArg WaitResult.err hr
          simp only [waitFail, fail] at this
          omega
        revert hcode
        cases e <;> simp [Errno.code]
      · -- past the test the call sleeps
        have := exited_of_waitLoop hloop
        rw [show ExitCodes.isProcExited s.ptable.activeExitCodes pid = true from this] at hex'
        cases hex'
  · rintro ⟨hex, hne, hfree, htest, rfl, rfl⟩
    have hops : LockName.ops c ≠ .ops s'.curproc := by simpa using hne
    rw [hex] at hexited
    simp only [waitFound, waitChild, runs_bind, runs_ite, runs_readProc, runs_lockAcquire,
      runs_lockRelease, runs_pure]
    refine ⟨false, _, hexited, .inr ⟨by simp, C, _, ⟨hC, rfl⟩, (), _, ⟨?_, rfl⟩, C, _, ⟨hC, rfl⟩,
      .inl ⟨htest, (), _, ⟨?_, rfl⟩, (), _, ⟨?_, rfl⟩, trivial, (hback hne hfree).symm⟩⟩⟩
    · simp [ownLocked, hne, hfree]
    · simp
    · simp [ownLocked, Ne.symm hne]

/-- Exactly when `waitpid` turns down a pid that is not one of the caller's children. -/
theorem declines_iff_refuses (hP : s.procs s.curproc = some P) (hlow : pidMin ≤ pid)
    (hhigh : pid ≤ pidMax) (hstr : Stranger s P pid) :
    Declines s pid status ↔ Refuses s P pid := by
  constructor
  · rintro ⟨e, s', -, hrun, -⟩
    obtain ⟨hown, htab, halloc, h⟩ := (runs_sysWaitpid hP hlow hhigh).1 hrun
    rcases h with ⟨i, c, hslot, hc, h⟩ | ⟨hslot, hex, h⟩ | ⟨hslot, hex, -, -⟩
    · obtain ⟨c', C, hc', hC, hpid⟩ := slotByPid_spec hslot
      rw [hc] at hc'
      cases hc'
      obtain ⟨hex, hne, hfree, htest, -, -⟩ := (runs_waitFound hC htab hown).1 h
      refine ⟨hown, htab, halloc, hex, fun i' c' C' hi' hc' hC' => ?_⟩
      rw [hslot] at hi'
      cases hi'
      rw [hc] at hc'
      cases hc'
      rw [hC] at hC'
      cases hC'
      exact ⟨hne, hfree, (test_iff (hstr.live c C hC hpid)).1 htest⟩
    · -- nobody is found, but the exit code is there: the call succeeds
      simp only [waitFound, runs_bind, runs_ite, runs_lockRelease, runs_pure] at h
      obtain ⟨b, s₁, hb, h⟩ := h
      obtain ⟨-, rfl, rfl⟩ := isProcExited_returns.1 hb
      rcases h with ⟨-, _, s₂, -, hr, -⟩ | ⟨hne, -⟩
      · exact absurd hr (waitFail_ne e _ _)
      · exact absurd hex hne
    · refine ⟨hown, htab, halloc, hex, fun i' c' C' hi' => ?_⟩
      rw [hslot] at hi'
      cases hi'
  · intro h
    cases hslot : slotByPid s pid with
    | none =>
        exact ⟨.ESRCH, s, .inl rfl, (runs_sysWaitpid hP hlow hhigh).2
          ⟨h.own, h.table, h.allocated, .inr (.inr ⟨hslot, h.notExited, rfl, rfl⟩)⟩, rfl⟩
    | some i =>
        obtain ⟨c, C, hc, hC, hpid⟩ := slotByPid_spec hslot
        obtain ⟨hne, hfree, htest⟩ := h.found i c C hslot hc hC
        have hfound : Runs (waitFound s.curproc P (some c) pid status []) (ownLocked s)
            (waitFail .ECHILD) s := (runs_waitFound hC h.table h.own).2
          ⟨h.notExited, hne, hfree, (test_iff (hstr.live c C hC hpid)).2 htest, rfl, rfl⟩
        exact ⟨.ECHILD, s, .inr rfl, (runs_sysWaitpid hP hlow hhigh).2
          ⟨h.own, h.table, h.allocated, .inl ⟨i, c, hslot, hc, hfound⟩⟩, rfl⟩

end Waitpid

/-! ## Two callers -/

/-- `Stranger`, computed for the processes created so far. -/
def stranger (s : Kernel) (ppid pid : Int) : Bool :=
  ((List.range s.nextProc).all fun q => (s.procs q).all fun Q => Q.pid != pid || Q.ppid != ppid) &&
    (List.finRange procMax).all fun i => (s.ptable.activeExitCodes i).all fun e =>
      e.pid != pid || e.ppid != ppid

theorem stranger_sound {s : Kernel} {P : Os161.Proc} {pid : Int} (hwf : (Ledger.of s).WF)
    (h : stranger s P.pid pid = true) : Stranger s P pid := by
  obtain ⟨hprocs, hcodes⟩ := Bool.and_eq_true_iff.1 h
  constructor
  · intro q Q hQ hpid hppid
    have hspace : (Ledger.of s).space q = some Q.pAddrspace := by simp [Ledger.of, spaceOf, hQ]
    have := List.all_eq_true.1 hprocs q (List.mem_range.2 (hwf.known q _ hspace))
    simp [hQ, hpid, hppid] at this
  · intro i e hi hpid hppid
    have := List.all_eq_true.1 hcodes i (List.mem_finRange i)
    simp [hi, hpid, hppid] at this

/-- The first process waits for a pid that nobody has. -/
theorem declines_startOne : ∃ s P, execChecked closesSoleDups boot startOne = some s ∧
    s.procs 1 = some P ∧ Stranger s P 2 ∧ Declines { s with curproc := 1 } 2 .valid := by
  have hrun : (execChecked closesSoleDups boot startOne).any (fun s =>
      (s.procs 1).any (fun P => stranger s P.pid 2) && (s.held (.ops 1) == none) &&
        (s.held .proctable == none) && (slotByPid s 2 == none) &&
        !(ExitCodes.isProcExited s.ptable.activeExitCodes 2) &&
        (List.finRange procMax).all fun i => (s.ptable.procArray i).all fun p =>
          (s.procs p).isSome) = true := by decide +kernel
  obtain ⟨s, hs, hrun⟩ := (Option.any_eq_true _ _).1 hrun
  simp only [Bool.and_eq_true, beq_iff_eq, Option.any_eq_true, List.all_eq_true,
    Bool.not_eq_true'] at hrun
  obtain ⟨⟨⟨⟨⟨⟨P, hP, hstr⟩, hown⟩, htab⟩, hslot⟩, hex⟩, halloc⟩ := hrun
  have hreach : Reach step ClosesSoleDups boot s :=
    reach_of_execChecked (fun t a ht hc => closesSoleDups_sound (wf_of_reach (fun _ _ h => h) ht) hc)
      startOne .refl hs
  have hstranger := stranger_sound (wf_of_reach (fun _ _ h => h) hreach) hstr
  refine ⟨s, P, hs, hP, hstranger, ?_⟩
  have hrefuses : Refuses { s with curproc := 1 } P 2 := by
    refine ⟨hown, htab, fun i p hi => ?_, hex, fun i c C hi => ?_⟩
    · have := halloc i (List.mem_finRange i)
      rw [show s.ptable.procArray i = some p from hi] at this
      exact Option.isSome_iff_ne_none.1 this
    · rw [show slotByPid { s with curproc := 1 } 2 = none from hslot] at hi
      cases hi
  have hstr₁ : Stranger { s with curproc := 1 } P 2 := ⟨hstranger.live, hstranger.exited⟩
  exact (declines_iff_refuses hP (by decide) (by decide) hstr₁).2 hrefuses

/-- A program with two children. -/
def twoChildren : List Action := startOne ++ [⟨1, .fork forkOk⟩, ⟨1, .fork forkOk⟩]

/-- The child 2 waits for its brother, the child 3: it goes to sleep. -/
theorem not_declines_of_anyStep : ¬ ∀ s p P pid status, Reach step anyStep boot s →
    userThread s p true = true → s.procs p = some P → pidMin ≤ pid → pid ≤ pidMax →
    Stranger s P pid → Declines { s with curproc := p } pid status := by
  intro h
  have hrun : (execChecked closesSoleDups boot twoChildren).any (fun s =>
      userThread s 2 true && (s.procs 2).any (fun P => P.pid == 2 && stranger s P.pid 3) &&
        (s.procs 3).isSome && (s.ptable.procArray 2 == some 3) && (slotByPid s 3 == some 2)) =
      true := by decide +kernel
  obtain ⟨s, hs, hrun⟩ := (Option.any_eq_true _ _).1 hrun
  simp only [Bool.and_eq_true, beq_iff_eq, Option.any_eq_true] at hrun
  obtain ⟨⟨⟨⟨hready, P, hP, hpid, hstr⟩, hC⟩, harr⟩, hslot⟩ := hrun
  obtain ⟨C, hC⟩ := Option.isSome_iff_exists.1 hC
  have hreach : Reach step ClosesSoleDups boot s :=
    reach_of_execChecked (fun t a ht hc => closesSoleDups_sound (wf_of_reach (fun _ _ h => h) ht) hc)
      twoChildren .refl hs
  have hstranger := stranger_sound (wf_of_reach (fun _ _ h => h) hreach) hstr
  have hdecl := h s 2 P 3 .valid (hreach.mono fun _ _ _ => trivial) hready hP (by decide)
    (by decide) hstranger
  have hstr₂ : Stranger { s with curproc := 2 } P 3 := ⟨hstranger.live, hstranger.exited⟩
  have hrefuses := (declines_iff_refuses hP (by decide) (by decide) hstr₂).1 hdecl
  obtain ⟨-, -, htest⟩ := hrefuses.found 2 3 C hslot harr hC
  -- the caller is 2, so none of the three tests fires
  rw [hpid] at htest
  rcases htest with htest | ⟨htest, -⟩ | htest
  · cases htest
  · cases htest
  · cases htest

end Os161.Main

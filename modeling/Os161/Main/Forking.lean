import Os161.Main.ProcTable

set_option autoImplicit false

/-!
# fork that fails

When `fork` returns an error it has given back what it had acquired, with one exception: an error
of `thread_fork` is only passed on. The new process is then left behind without a thread, with its
entry in the process table, its references to the files of the parent and the reference on the
current directory.

The current directory of a process is part of the runs here: the menu starts in a directory, or in
none, and a process may move to another directory at any time.
-/

namespace Os161.Main

open Os161.Lib.Program
open Os161.Lib.Runs
open Os161.Lib.Slots
open Os161.Vfs
open Os161.Proc
open Os161.Syscall

/-! ## Runs with current directories -/

/-- `vfs_setcurdir`, once the vnode is known to be a directory. -/
def vfsSetcurdir (dir : VnodeRef) : K Unit := do
  modify fun s => { s with vnCwd := Function.update s.vnCwd dir (s.vnCwd dir + 1) }
  let p ← curproc
  let P ← readProc p
  writeProc p { P with pCwd := some dir }
  -- the directory left is given back last
  decrefCwd P.pCwd

/-- The state after boot, with the current directory of the menu. -/
def bootIn (cwd : Option VnodeRef) : Kernel :=
  { boot with
    procs := fun p => (boot.procs p).map fun P => { P with pCwd := cwd }
    -- only the menu is in a directory
    vnCwd := fun v => if cwd = some v then 1 else 0 }

/-- An action, or a change of the current directory by the menu or by a loaded process. -/
inductive Move where
  | act (a : Action)
  | chdir (caller : ProcRef) (dir : VnodeRef)

/-- One move. -/
def move (s : Kernel) : Move → Kernel → Prop
  | .act a, s' => step s a s'
  | .chdir p dir, s' => (p = kproc ∨ userThread s p true = true) ∧
      ∃ u, Runs (vfsSetcurdir dir) { s with curproc := p } u s'

/-! ## Fresh processes and pids -/

/-- The next process does not exist yet, and the next pid is positive. -/
structure Fresh (R : Roster) : Prop where
  fresh : ∀ p, R.nextProc ≤ p → R.pidOf p = none
  nextPid : 0 < R.nextPid

namespace Fresh

variable {R : Roster}

theorem put (h : Fresh R) (p : ProcRef) : Fresh (R.put p) := by
  unfold Roster.put
  cases firstFree R.procArray with
  | none => exact h
  | some i => exact ⟨h.fresh, h.nextPid⟩

theorem remove (h : Fresh R) (pid : Int) : Fresh (R.remove pid) := by
  unfold Roster.remove
  cases lastWith (fun p => R.pidOf p == some pid) R.procArray with
  | none => exact h
  | some i => exact ⟨h.fresh, h.nextPid⟩

theorem destroy (h : Fresh R) (p : ProcRef) : Fresh (R.destroy p) := by
  constructor
  · intro q hq
    by_cases he : q = p
    · simp [Roster.destroy, he]
    · simpa [Roster.destroy, he] using h.fresh q hq
  · exact h.nextPid

theorem create (h : Fresh R) : Fresh R.create := by
  constructor
  · intro q hq
    have hlt : R.nextProc < q := hq
    have hne : q ≠ R.nextProc := ne_of_gt hlt
    simpa [Roster.create, hne] using h.fresh q (le_of_lt hlt)
  · exact h.nextPid

theorem number (h : Fresh R) {p : ProcRef} (hp : p < R.nextProc) : Fresh (R.number p) := by
  constructor
  · intro q hq
    have hne : q ≠ p := ne_of_gt (lt_of_lt_of_le hp hq)
    simpa [Roster.number, hne] using h.fresh q hq
  · have := h.nextPid
    show 0 < R.nextPid + 1
    omega

end Fresh

theorem fresh_of_start {env : ProgEnv} {ret : Int} {s s' : Kernel} (h : Fresh (Roster.of s))
    (hrun : Runs (commonProg env) s ret s') : Fresh (Roster.of s') := by
  rcases roster_commonProg hrun with ⟨-, n, hnull⟩ | hof | ⟨-, hof⟩
  · rcases runs_putProcOnProctable hnull with ⟨-, rfl⟩ | ⟨i, -, rfl⟩
    · exact h
    · exact ⟨h.fresh, h.nextPid⟩
  · rw [hof]
    exact h.create.put _
  · rw [hof]
    exact (h.create.put _).destroy _

/-- Every action keeps the next process and the next pid fresh. -/
theorem fresh_of_step {s s' : Kernel} {a : Action} (h : Fresh (Roster.of s)) (hst : step s a s') :
    Fresh (Roster.of s') := by
  obtain ⟨p, call⟩ := a
  obtain ⟨-, ret, hrun⟩ := hst
  have h' : Fresh (Roster.of { s with curproc := p }) := h
  cases call with
  | start env => exact fresh_of_start h' hrun
  | load result =>
      simp only [Call.run, runs_bind, runs_pure] at hrun
      obtain ⟨_, s₁, hrun, -, rfl⟩ := hrun
      rcases roster_cmdProgthread hrun with ⟨-, hof⟩ | ⟨-, hof⟩
      · rw [hof]
        exact h'
      · rw [hof]
        exact h'.destroy _
  -- these three leave the process table alone
  | openFile filename flags env =>
      have hof : Roster.of s' = _ := Frame.keeps (m := sysOpen filename flags env) _ _ _ hrun
      rw [hof]
      exact h'
  | close fd =>
      have hof : Roster.of s' = _ := Frame.keeps (m := sysClose fd) _ _ _ hrun
      rw [hof]
      exact h'
  | dup2 oldfd newfd alloc =>
      have hof : Roster.of s' = _ := Frame.keeps (m := sysDup2 oldfd newfd alloc) _ _ _ hrun
      rw [hof]
      exact h'
  | fork env =>
      have hnum := h'.create.number (p := s.nextProc) (Nat.lt_succ_self _)
      rcases roster_sysFork hrun with hof | hof | hof
      · rw [hof]
        exact h'
      · -- `as_copy` failed: the pid is spent all the same
        rw [hof]
        exact hnum.destroy _
      · rw [hof]
        exact hnum.put _
  | exit exitcode alloc =>
      simp only [Call.run, runs_bind, runs_pure] at hrun
      obtain ⟨_, s₁, hrun, -, rfl⟩ := hrun
      obtain ⟨n, -, hof⟩ := roster_sysExit hrun
      rw [hof]
      exact (h'.remove n).destroy _

theorem roster_vfsSetcurdir {dir : VnodeRef} {u : Unit} {s s' : Kernel}
    (h : Runs (vfsSetcurdir dir) s u s') : Roster.of s' = Roster.of s := by
  simp only [vfsSetcurdir, runs_bind, runs_modify, runs_curproc, runs_readProc,
    runs_writeProc] at h
  obtain ⟨_, s₁, rfl, p, s₂, ⟨rfl, rfl⟩, P, s₃, ⟨hP, rfl⟩, _, s₄, ⟨-, rfl⟩, hcwd⟩ := h
  obtain ⟨vn, rfl⟩ := runs_decrefCwd hcwd
  have hP' : s.procs s.curproc = some P := hP
  exact Roster.of_writeProc hP' rfl

theorem fresh_of_move {s s' : Kernel} {m : Move} (h : Fresh (Roster.of s)) (hst : move s m s') :
    Fresh (Roster.of s') := by
  cases m with
  | act a => exact fresh_of_step h hst
  | chdir p dir =>
      obtain ⟨-, u, hrun⟩ := hst
      rw [roster_vfsSetcurdir hrun]
      exact h

theorem fresh_bootIn (cwd : Option VnodeRef) : Fresh (Roster.of (bootIn cwd)) := by
  constructor
  · intro p hp
    have hne : p ≠ kproc := by
      rintro rfl
      exact absurd (show 1 ≤ kproc from hp) (by decide)
    simp [Roster.of, bootIn, boot, hne]
  · show (0 : Int) < pidMin
    decide

/-- In every run the next process does not exist yet, and the next pid is positive. -/
theorem fresh_of_reach {cwd : Option VnodeRef} {s : Kernel}
    (h : Reach move anyStep (bootIn cwd) s) : Fresh (Roster.of s) :=
  h.invariant (I := fun s => Fresh (Roster.of s)) (fun _ _ _ ht _ hst => fresh_of_move ht hst)
    (fresh_bootIn cwd)

theorem Fresh.procs_nextProc {s : Kernel} (h : Fresh (Roster.of s)) : s.procs s.nextProc = none :=
  Option.map_eq_none_iff.1 (h.fresh s.nextProc le_rfl)

/-! ## What fork does -/

/-- The references on current directories when one more process is in `x`. -/
def enterCwd (x : Option VnodeRef) (vn : VnodeRef → Int) : VnodeRef → Int :=
  fun v => if x = some v then vn v + 1 else vn v

/-- The same when one process less is in `x`. -/
def leaveCwd (x : Option VnodeRef) (vn : VnodeRef → Int) : VnodeRef → Int :=
  fun v => if x = some v then vn v - 1 else vn v

theorem leaveCwd_enterCwd (x : Option VnodeRef) (vn : VnodeRef → Int) :
    leaveCwd x (enterCwd x vn) = vn := by
  funext v
  by_cases hv : x = some v
  · simp [leaveCwd, enterCwd, hv]
  · simp [leaveCwd, enterCwd, hv]

theorem enterCwd_some (v : VnodeRef) (vn : VnodeRef → Int) :
    Function.update vn v (vn v + 1) = enterCwd (some v) vn := by
  funext w
  by_cases hw : w = v
  · simp [enterCwd, hw]
  · have hne : v ≠ w := fun e => hw e.symm
    simp [enterCwd, hw, hne]

theorem runs_decrefCwd_eq {x : Option VnodeRef} {u : Unit} {s s' : Kernel}
    (h : Runs (decrefCwd x) s u s') : s' = { s with vnCwd := leaveCwd x s.vnCwd } := by
  cases x with
  | none =>
      obtain ⟨-, rfl⟩ := (runs_pure _ _ _ _).1 h
      rfl
  | some v =>
      obtain rfl := (runs_modify _ _ _ _).1 h
      congr 1
      funext w
      by_cases hw : w = v
      · simp [leaveCwd, hw]
      · have hne : v ≠ w := fun e => hw e.symm
        simp [leaveCwd, hw, hne]

/-- The process `proc_create` makes, in the directory `cwd`. -/
def newProc (s : Kernel) (cwd : Option VnodeRef) : Os161.Proc :=
  { pid := 0, ppid := -1, pNumthreads := 0, pAddrspace := false, pCwd := cwd
    pFiletable :=
      { files := fun i => if i.val < 3 then s.gft.openFiles i else none
        stdinOpen := true, stdoutOpen := true, stderrOpen := true, size := 0 } }

/-- `proc_create_runprogram` makes a process in the directory of the process that runs. -/
theorem runs_procCreateRunprogram_eq {alloc : Bool} {x : Option ProcRef} {P : Os161.Proc}
    {s s' : Kernel} (hP : s.procs s.curproc = some P) (hfresh : s.procs s.nextProc = none)
    (h : Runs (procCreateRunprogram alloc) s x s') :
    (alloc = false ∧ x = none ∧ s' = s) ∨
      (alloc = true ∧ x = some s.nextProc ∧
        s' = { s with
          procs := Function.update s.procs s.nextProc (some (newProc s P.pCwd))
          nextProc := s.nextProc + 1
          vnCwd := enterCwd P.pCwd s.vnCwd }) := by
  -- the process that runs is not the one to be made
  have hne : s.curproc ≠ s.nextProc := by
    intro e
    rw [e, hfresh] at hP
    cases hP
  cases alloc with
  | false =>
      simp only [procCreateRunprogram, procCreate, Bool.false_eq_true, if_false, runs_bind,
        runs_pure] at h
      obtain ⟨y, s₁, ⟨rfl, rfl⟩, h⟩ := h
      obtain ⟨rfl, rfl⟩ := (runs_pure _ _ _ _).1 h
      exact .inl ⟨rfl, rfl, rfl⟩
  | true =>
      simp only [procCreateRunprogram, procCreate, pFiletableCreate, if_true, runs_bind, runs_get,
        runs_modify, runs_pure] at h
      obtain ⟨y, s₁, ⟨t, s₂, ⟨u, s₃, ⟨rfl, rfl⟩, rfl, rfl⟩, w, s₄, ⟨rfl, rfl⟩, _, s₅, rfl, rfl, rfl⟩,
        h⟩ := h
      simp only [runs_bind, runs_curproc, runs_readProc] at h
      obtain ⟨c, s₆, ⟨rfl, rfl⟩, P', s₇, ⟨hP', rfl⟩, Q, s₈, ⟨hQ, rfl⟩, h⟩ := h
      simp only [Function.update_of_ne hne, hP, Option.some.injEq] at hP'
      subst hP'
      simp only [Function.update_self, Option.some.injEq] at hQ
      subst hQ
      refine .inr ⟨rfl, ?_⟩
      -- the directory is inherited, with a reference of its own
      cases hc : P.pCwd with
      | none =>
          simp only [hc, runs_pure] at h
          obtain ⟨rfl, rfl⟩ := h
          exact ⟨rfl, rfl⟩
      | some v =>
          simp only [hc, runs_bind, runs_modify, runs_writeProc, runs_pure] at h
          obtain ⟨_, s₉, rfl, _, s₁₀, ⟨-, rfl⟩, rfl, rfl⟩ := h
          refine ⟨rfl, ?_⟩
          simp only [Function.update_idem, enterCwd_some, newProc]

/-- `proc_destroy` of a process without an address space: its directory is given back, and its file
table is not looked at. -/
theorem runs_procDestroy_noSpace {p : ProcRef} {Q : Os161.Proc} {u : Unit} {s s' : Kernel}
    (hQ : s.procs p = some Q) (hspace : Q.pAddrspace = false) (h : Runs (procDestroy p) s u s') :
    s' = { s with
      procs := Function.update s.procs p none
      vnCwd := leaveCwd Q.pCwd s.vnCwd } := by
  simp only [procDestroy, runs_ite, runs_bind, runs_throw, false_and, exists_false, and_false,
    false_or, runs_readProc] at h
  obtain ⟨-, Q', s₁, ⟨hQ', rfl⟩, _, s₂, hcwd, hend⟩ := h
  rw [hQ] at hQ'
  cases hQ'
  obtain rfl := runs_decrefCwd_eq hcwd
  rcases hend with ⟨htrue, -⟩ | ⟨-, hend⟩
  · rw [hspace] at htrue
    cases htrue
  · exact runs_procFree hend

/-- A process with other slots. -/
def withFiles (Q : Os161.Proc) (files : Table openMax FileRef) : Os161.Proc :=
  { Q with pFiletable := { Q.pFiletable with files := files } }

/-- One round of the loop of `copy_p_filetable`. -/
theorem runs_copyRound {p q : ProcRef} {i : Fin openMax} {s s' : Kernel} {u : Unit}
    (h : Runs (copyRound p q i) s u s') :
    ∃ P, s.procs p = some P ∧
      ((P.pFiletable.files i = none ∧ s' = s) ∨
        ∃ r f Q vn, P.pFiletable.files i = some r ∧ s.heap r = some f ∧ s.procs q = some Q ∧
          s' = { s with
            vnFile := vn
            heap := Function.update s.heap r (some { f with refcount := f.refcount + 1 })
            procs := Function.update s.procs q (some (withFiles Q
              (Function.update Q.pFiletable.files i (some r)))) }) := by
  simp only [copyRound, runs_bind, runs_readTable] at h
  obtain ⟨t, s₁, ⟨⟨P, hP, rfl⟩, rfl⟩, h⟩ := h
  refine ⟨P, hP, ?_⟩
  cases hi : P.pFiletable.files i with
  | none =>
      simp only [hi, runs_pure] at h
      obtain ⟨-, rfl⟩ := h
      exact .inl ⟨rfl, rfl⟩
  | some r =>
      simp only [hi, runs_bind, runs_lockFile, runs_readFile, runs_writeFile,
        runs_lockRelease] at h
      obtain ⟨_, s₂, ⟨-, hfree, rfl⟩, f, s₃, ⟨hf, rfl⟩, _, s₄, hinc, _, s₅, ⟨-, rfl⟩, _, s₆,
        ⟨-, rfl⟩, hset⟩ := h
      obtain ⟨vn, rfl, -⟩ := runs_increfCopied hinc
      obtain ⟨Q, hQ, rfl⟩ := runs_setSlot hset
      refine .inr ⟨r, f, Q, vn, rfl, hf, hQ, ?_⟩
      simp only [update_held_cancel hfree, withFiles]

/-- What `copy_p_filetable` does: the new process gets the files of its parent where the parent
has one, and every file keeps its number. -/
structure Copied (p q : ProcRef) (s s' : Kernel) : Prop where
  procs : ∃ P Q, s.procs p = some P ∧ s.procs q = some Q ∧
    s'.procs = Function.update s.procs q
      (some (withFiles Q fun i => (P.pFiletable.files i).or (Q.pFiletable.files i)))
  heap : ∀ r, (s'.heap r).map File.localFd = (s.heap r).map File.localFd
  alloc : ∀ P i r, s.procs p = some P → P.pFiletable.files i = some r → s.heap r ≠ none
  gft : s'.gft = s.gft

theorem runs_copyPFiletable {p q : ProcRef} {P Q : Os161.Proc} {s s' : Kernel} {u : Unit}
    (hpq : p ≠ q) (hP : s.procs p = some P) (hQ : s.procs q = some Q)
    (h : Runs (copyPFiletable p q) s u s') : Copied p q s s' := by
  simp only [copyPFiletable, runs_bind, runs_lockAcquire, runs_lockRelease] at h
  obtain ⟨_, s₁, ⟨-, rfl⟩, _, s₂, ⟨-, rfl⟩, _, s₃, hloop, _, s₄, ⟨-, rfl⟩, -, rfl⟩ := h
  -- the slots that are still to be visited hold what the new process started with
  have key := runs_forEach (b := copyRound p q)
    (I := fun rest t => rest.Nodup ∧
      t.procs = Function.update s.procs q (some (withFiles Q fun i =>
        if i ∈ rest then Q.pFiletable.files i else
          (P.pFiletable.files i).or (Q.pFiletable.files i))) ∧
      (∀ r, (t.heap r).map File.localFd = (s.heap r).map File.localFd) ∧
      (∀ i r, i ∉ rest → P.pFiletable.files i = some r → s.heap r ≠ none) ∧ t.gft = s.gft)
    ?_ (List.finRange openMax) ?_ hloop
  · obtain ⟨-, hprocs, hheap, halloc, hgft⟩ := key
    refine ⟨⟨P, Q, hP, hQ, ?_⟩, hheap, fun P' i r hP' hi => ?_, hgft⟩
    · show s₃.procs = _
      rw [hprocs]
      simp
    · rw [hP] at hP'
      cases hP'
      exact halloc i r List.not_mem_nil hi
  · rintro i is t v t' ⟨hnd, hprocs, hheap, halloc, hgft⟩ hround
    obtain ⟨hi, hnd⟩ := List.nodup_cons.1 hnd
    obtain ⟨P', hP', hcase⟩ := runs_copyRound hround
    rw [hprocs, Function.update_of_ne hpq, hP] at hP'
    cases hP'
    -- an empty slot of the parent leaves the slot of the child as it is
    rcases hcase with ⟨hnone, rfl⟩ | ⟨r, f, Q', vn, hr, hf, hQ', rfl⟩
    · refine ⟨hnd, ?_, hheap, fun k r hk hr => ?_, hgft⟩
      · rw [hprocs]
        congr 3
        funext k
        by_cases hki : k = i
        · subst hki
          simp [hi, hnone]
        · simp [hki]
      · by_cases hki : k = i
        · subst hki
          rw [hnone] at hr
          cases hr
        · exact halloc k r (by simp [hki, hk]) hr
    · rw [hprocs, Function.update_self] at hQ'
      cases hQ'
      -- the file of a full slot is counted once more, its number stays
      have hloc := hheap r
      rw [hf] at hloc
      refine ⟨hnd, ?_, fun r' => ?_, fun k r' hk hr' => ?_, hgft⟩
      · simp only [hprocs, Function.update_idem, withFiles]
        congr 4
        funext k
        by_cases hki : k = i
        · subst hki
          simp [hi, hr]
        · simp [hki]
      · by_cases hrr : r' = r
        · subst hrr
          simpa using hloc
        · simpa [hrr] using hheap r'
      · by_cases hki : k = i
        · subst hki
          rw [hr] at hr'
          cases hr'
          intro hnone
          rw [hnone] at hloc
          cases hloc
        · exact halloc k r' (by simp [hki, hk]) hr'
  · refine ⟨List.nodup_finRange _, ?_, fun r => rfl, fun i r hi => ?_, rfl⟩
    · simp only [List.mem_finRange, if_true, withFiles]
      exact (Function.update_eq_self_iff.2 hQ.symm).symm
    · exact absurd (List.mem_finRange i) hi

/-- What a `fork` that copies the file table leaves: a new process with the files of its parent `P`
and otherwise the table of a new process. -/
structure Forked (P : Os161.Proc) (s s' : Kernel) : Prop where
  parent : ∃ P', s'.procs s.curproc = some P' ∧ P'.pFiletable = P.pFiletable
  child : ∃ Q, s'.procs s.nextProc = some Q ∧ Q.pFiletable =
    (withFiles (newProc s none) fun i => (P.pFiletable.files i).or
      ((newProc s none).pFiletable.files i)).pFiletable
  heap : ∀ r, (s'.heap r).map File.localFd = (s.heap r).map File.localFd
  alloc : ∀ i r, P.pFiletable.files i = some r → s.heap r ≠ none

theorem procs_of_threadFork {p : ProcRef} {result n : Int} {s s' : Kernel}
    (h : Runs (threadFork p result) s n s') :
    n = result ∧ s'.heap = s.heap ∧ ∀ q Q, s.procs q = some Q →
      ∃ Q', s'.procs q = some Q' ∧ Q'.pFiletable = Q.pFiletable := by
  simp only [threadFork, runs_ite, runs_bind, runs_readProc, runs_writeProc, runs_pure] at h
  rcases h with ⟨-, P, s₁, ⟨hP, rfl⟩, _, s₂, ⟨-, rfl⟩, rfl, rfl⟩ | ⟨-, rfl, rfl⟩
  · refine ⟨rfl, rfl, fun q Q hQ => ?_⟩
    by_cases hq : q = p
    · subst hq
      rw [hP] at hQ
      cases hQ
      exact ⟨{ P with pNumthreads := P.pNumthreads + 1 }, by simp, rfl⟩
    · exact ⟨Q, by simpa [hq] using hQ, rfl⟩
  · exact ⟨rfl, rfl, fun q Q hQ => ⟨Q, hQ, rfl⟩⟩

/-- Everything `fork` can do: fail before the new process has a pid, give the new process up when
`as_copy` fails, or copy the file table. -/
theorem runs_sysFork_cases {env : ForkEnv} {ret : Int} {P : Os161.Proc} {s s' : Kernel}
    (hP : s.procs s.curproc = some P) (hfresh : s.procs s.nextProc = none)
    (h : Runs (sysFork env) s ret s') :
    (¬ Forks s env ∧ s' = s) ∨
      (env.asCopy ≠ 0 ∧ s' = { s with
        nextProc := s.nextProc + 1
        ptable := { s.ptable with nextPid := s.ptable.nextPid + 1 } }) ∨
      (Forks s env ∧ ret = (if env.threadFork = 0 then s.ptable.nextPid else -1 * env.threadFork) ∧
        Forked P s s') := by
  have hne : s.curproc ≠ s.nextProc := by
    intro e
    rw [e, hfresh] at hP
    cases hP
  simp only [sysFork, runs_bind, runs_get, runs_ite, runs_pure] at h
  obtain ⟨t, s₁, ⟨rfl, rfl⟩, h⟩ := h
  -- `ENPROC`, no trapframe, or no process: nothing has been done yet
  rcases h with ⟨hfull, -, rfl⟩ | ⟨hroom, ⟨htf, -, rfl⟩ | ⟨htf, x, s₂, hcreate, h⟩⟩
  · exact .inl ⟨fun hf => hf.room hfull, rfl⟩
  · refine .inl ⟨fun hf => ?_, rfl⟩
    rw [hf.trapframe] at htf
    cases htf
  rcases runs_procCreateRunprogram_eq hP hfresh hcreate with ⟨hfalse, rfl, rfl⟩ | ⟨htrue, rfl, rfl⟩
  · simp only [runs_pure] at h
    obtain ⟨-, rfl⟩ := h
    refine .inl ⟨fun hf => ?_, rfl⟩
    rw [hf.process] at hfalse
    cases hfalse
  -- from here on the child has a pid
  simp only [forkInto, runs_bind, runs_curproc, runs_lockAcquire, runs_readProc, runs_writeProc,
    runs_ite, runs_lockRelease, runs_pure] at h
  obtain ⟨p, s₂, ⟨rfl, rfl⟩, _, s₃, ⟨hfree, rfl⟩, pid, s₄, hpid, P', s₅, ⟨-, rfl⟩, Q, s₆, ⟨hQ, rfl⟩,
    _, s₇, ⟨-, rfl⟩, h⟩ := h
  obtain ⟨rfl, rfl⟩ := runs_getNextPid hpid
  simp only [Function.update_self, Option.some.injEq] at hQ
  subst hQ
  right
  rcases h with ⟨has, _, s₈, hdes, _, s₉, ⟨-, rfl⟩, -, rfl⟩ | ⟨has, Q', s₈, ⟨hQ', rfl⟩, _, s₉,
    ⟨-, rfl⟩, _, s₁₀, hcopy, _, s₁₁, ⟨-, rfl⟩, n, s₁₂, hput, err, s₁₃, hfork, h⟩
  · -- the new process has no address space, so only its directory is given back
    left
    refine ⟨has, ?_⟩
    obtain rfl := runs_procDestroy_noSpace (Function.update_self _ _ _) rfl hdes
    simp only [Function.update_idem, newProc, leaveCwd_enterCwd, update_held_cancel hfree]
    congr 1
    exact Function.update_eq_self_iff.2 hfresh.symm
  · right
    have has' : env.asCopy = 0 := not_not.1 has
    have htf' : env.kmallocTrapframe = true := by simpa using htf
    simp only [Function.update_self, Option.some.injEq] at hQ'
    subst hQ'
    simp only [Function.update_idem] at hcopy
    -- the child is not the parent, so the two tables do not overlap
    have hcopied := fun P Q h₁ h₂ => runs_copyPFiletable (P := P) (Q := Q) hne h₁ h₂ hcopy
    obtain ⟨⟨P₁, Q₁, hP₁, hQ₁, hprocs⟩, hheap, halloc, -⟩ := hcopied P _
      (by simpa [hne] using hP) (Function.update_self _ _ _)
    simp only [Function.update_of_ne hne, hP, Option.some.injEq] at hP₁
    subst hP₁
    simp only [Function.update_self, Option.some.injEq] at hQ₁
    subst hQ₁
    obtain ⟨rfl, hsame, hkeep⟩ := procs_of_threadFork hfork
    -- entering the child in the process table touches neither
    have hs₁₂ : s₁₂.procs = s₁₀.procs ∧ s₁₂.heap = s₁₀.heap := by
      rcases runs_putProcOnProctable hput with ⟨-, rfl⟩ | ⟨i, -, rfl⟩ <;> exact ⟨rfl, rfl⟩
    -- both ends of `fork` leave the state of `thread_fork`
    have hret : ret = (if env.threadFork = 0 then s₁.ptable.nextPid else -1 * env.threadFork) ∧
        s' = s₁₃ := by
      rcases h with ⟨hfail, rfl, rfl⟩ | ⟨hok, rfl, rfl⟩
      · exact ⟨by rw [if_neg hfail], rfl⟩
      · exact ⟨by rw [if_pos (not_not.1 hok)], rfl⟩
    obtain ⟨hret, rfl⟩ := hret
    refine ⟨⟨hroom, htf', htrue, has'⟩, hret, ?_, ?_, fun r => ?_, fun i r hi => ?_⟩
    · apply hkeep s₁.curproc P
      rw [hs₁₂.1, hprocs]
      simpa [hne] using hP
    · obtain ⟨Q, hQ, htab⟩ := hkeep s₁.nextProc _ (by rw [hs₁₂.1, hprocs, Function.update_self])
      exact ⟨Q, hQ, htab⟩
    · rw [hsame, hs₁₂.2, hheap]
    · exact halloc P i r (by simpa [hne] using hP) hi

/-! ## A fork that fails -/

/-- The process can run: it has a thread. -/
def Runnable (s : Kernel) (p : ProcRef) : Prop := ∃ P, s.procs p = some P ∧ P.pNumthreads ≠ 0

/-- The tables, counts and processes of `s'` are those of `s`. -/
structure Unchanged (s s' : Kernel) : Prop where
  procArray : s'.ptable.procArray = s.ptable.procArray
  numOfProcs : s'.ptable.numOfProcs = s.ptable.numOfProcs
  refcounts : ∀ r, (s'.heap r).map File.refcount = (s.heap r).map File.refcount
  tables : ∀ p, (s'.procs p).map Proc.pFiletable = (s.procs p).map Proc.pFiletable
  vnFile : s'.vnFile = s.vnFile
  vnCwd : s'.vnCwd = s.vnCwd
  runnable : ∀ p, Runnable s' p ↔ Runnable s p

/-- `fork` gets as far as `thread_fork`, and that fails. -/
structure FailsInThread (s : Kernel) (env : ForkEnv) : Prop where
  forks : Forks s env
  thread : env.threadFork ≠ 0

/-- In every reachable state, a `fork` that returns an error leaves everything as it was, unless
it fails in `thread_fork`. -/
theorem unchanged_iff_not_failsInThread {cwd : Option VnodeRef} {s s' : Kernel} {p : ProcRef}
    {env : ForkEnv} {ret : Int} (hs : Reach move anyStep (bootIn cwd) s)
    (hready : ready s ⟨p, .fork env⟩ = true)
    (hrun : Runs (sysFork env) { s with curproc := p } ret s') (hret : ret < 0) :
    Unchanged s s' ↔ ¬ FailsInThread s env := by
  have hfresh := fresh_of_reach hs
  obtain ⟨P, hP⟩ := exists_proc_of_userThread (b := true) hready
  rcases runs_sysFork_cases (s := { s with curproc := p }) hP hfresh.procs_nextProc hrun with
    ⟨hnot, rfl⟩ | ⟨has, rfl⟩ | ⟨hforks, hcode, hforked⟩
  · refine iff_of_true ⟨rfl, rfl, fun _ => rfl, fun _ => rfl, rfl, rfl, fun _ => Iff.rfl⟩ ?_
    rintro ⟨⟨h₁, h₂, h₃, h₄⟩, -⟩
    exact hnot ⟨h₁, h₂, h₃, h₄⟩
  · refine iff_of_true ⟨rfl, rfl, fun _ => rfl, fun _ => rfl, rfl, rfl, fun _ => Iff.rfl⟩ ?_
    intro hfail
    exact has hfail.forks.space
  · -- the pid is positive, so a negative result comes from `thread_fork`
    have hthread : env.threadFork ≠ 0 := by
      intro hz
      rw [if_pos hz] at hcode
      have hpos := hfresh.nextPid
      have e : ret = s.ptable.nextPid := hcode
      have hpos' : 0 < s.ptable.nextPid := hpos
      omega
    refine iff_of_false ?_ fun hn => hn ⟨⟨hforks.room, hforks.trapframe, hforks.process,
      hforks.space⟩, hthread⟩
    -- the new process is left behind
    intro hsame
    obtain ⟨Q, hQ, -⟩ := hforked.child
    have htab := hsame.tables s.nextProc
    rw [hfresh.procs_nextProc, show s'.procs s.nextProc = some Q from hQ] at htab
    cases htab

/-- Runs of actions are runs of moves. -/
theorem reach_move {s t : Kernel} (h : Reach step anyStep s t) : Reach move anyStep s t := by
  induction h with
  | refl => exact .refl
  | @tail u v a _ _ hst ih => exact ih.tail (a := .act a) trivial hst

/-- `fork` without memory for the address space. -/
def forkNoSpace : ForkEnv :=
  { kmallocTrapframe := true, procCreate := true, asCopy := Errno.ENOMEM.code, threadFork := 0 }

/-- `fork` without memory for the thread. -/
def forkNoThread : ForkEnv :=
  { kmallocTrapframe := true, procCreate := true, asCopy := 0, threadFork := Errno.ENOMEM.code }

/-- The program of a menu that started in the directory `cwd` makes a `fork` call. -/
def forkOnce (cwd : Option VnodeRef) (env : ForkEnv) : Option (Kernel × Int × Kernel) :=
  (execAll (bootIn cwd) startOne).bind fun s =>
    match sysFork env { s with curproc := 1 } with
    | .ok (ret, s') => if ready s ⟨1, .fork env⟩ && ret < 0 then some (s, ret, s') else none
    | .error _ => none

theorem forkOnce_spec {cwd : Option VnodeRef} {env : ForkEnv} {s s' : Kernel} {ret : Int}
    (h : forkOnce cwd env = some (s, ret, s')) :
    Reach move anyStep (bootIn cwd) s ∧ ready s ⟨1, .fork env⟩ = true ∧
      Runs (sysFork env) { s with curproc := 1 } ret s' ∧ ret < 0 := by
  obtain ⟨t, ht, h⟩ := Option.bind_eq_some_iff.1 h
  cases hrun : sysFork env { t with curproc := 1 } with
  | error e => simp [hrun] at h
  | ok x =>
      obtain ⟨n, t'⟩ := x
      simp only [hrun, Bool.and_eq_true, decide_eq_true_eq] at h
      split_ifs at h with hc
      simp only [Option.some.injEq, Prod.mk.injEq] at h
      obtain ⟨rfl, rfl, rfl⟩ := h
      exact ⟨reach_move (reach_of_execAll startOne .refl ht), hc.1, hrun, hc.2⟩

theorem unchanged_forkNoSpace : ∃ s ret s', forkOnce (some 5) forkNoSpace = some (s, ret, s') ∧
    Unchanged s s' := by
  have hsome : (forkOnce (some 5) forkNoSpace).isSome = true := by decide +kernel
  obtain ⟨⟨s, ret, s'⟩, h⟩ := Option.isSome_iff_exists.1 hsome
  obtain ⟨hs, hready, hrun, hret⟩ := forkOnce_spec h
  refine ⟨s, ret, s', h, (unchanged_iff_not_failsInThread hs hready hrun hret).2 ?_⟩
  rintro ⟨⟨-, -, -, has⟩, -⟩
  exact absurd has (by decide)

theorem not_unchanged_of_anyStep : ¬ ∀ cwd s p env ret s',
    Reach move anyStep (bootIn cwd) s → ready s ⟨p, .fork env⟩ = true →
    Runs (sysFork env) { s with curproc := p } ret s' → ret < 0 → Unchanged s s' := by
  intro hall
  have hrun : ((forkOnce none forkNoThread).any fun x =>
      x.1.ptable.numOfProcs != x.2.2.ptable.numOfProcs) = true := by decide +kernel
  obtain ⟨⟨s, ret, s'⟩, h, hne⟩ := (Option.any_eq_true _ _).1 hrun
  obtain ⟨hs, hready, hrun, hret⟩ := forkOnce_spec h
  -- the child that has no thread is still counted
  have hsame := (hall none s 1 forkNoThread ret s' hs hready hrun hret).numOfProcs
  simp [hsame] at hne

end Os161.Main

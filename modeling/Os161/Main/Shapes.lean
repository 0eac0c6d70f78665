import Os161.Main.Calls
import Os161.Vfs.Shapes

set_option autoImplicit false

/-!
# The shapes of open files over whole runs

Every action keeps `Ledger.Shaped`, whatever has been closed before it. The lemmas follow the
handlers from `open` to `_exit`.
-/

namespace Os161.Main

open Os161.Lib.Program
open Os161.Lib.Runs
open Os161.Lib.Slots
open Os161.Vfs
open Os161.Proc
open Os161.Syscall

variable {s s' : Kernel} {p : ProcRef} {ret : Int}

/-! ## open, close and dup2 -/

/-- The end of `open`: the new file has its vnode before it gets a slot. -/
theorem shaped_installFile {f : File} {v : VnodeRef} {r : FileRef} (hs : (Ledger.of s).Shaped)
    (h3 : 3 ≤ r) (hlt : r < s.nextFile) (hoff : ∀ q j, (Ledger.of s).row q j ≠ some r)
    (hf : s.heap r = some f) (hk : f.stdFileStatus = -1) (hc : f.seekPos ≠ none)
    (h : Runs (installFile p r v) s ret s') : (Ledger.of s').Shaped := by
  simp only [installFile, runs_bind, runs_vopIncref, runs_readFile, runs_writeFile,
    runs_lockRelease, runs_pure] at h
  obtain ⟨_, s₁, rfl, g, s₂, ⟨hg, rfl⟩, fd, s₃, hfd, _, s₄, ⟨-, rfl⟩, m, s₅, hput, n, s₆, hpl, _,
    s₇, ⟨-, rfl⟩, rfl, rfl⟩ := h
  obtain ⟨rfl, rfl⟩ := runs_getNextFd hfd
  have e : g = f := Option.some.inj (hg.symm.trans hf)
  subst e
  -- the file is in no slot yet, so what it holds does not matter
  have hmid := (hs.setOff h3 hoff (some (installed g v s.gft.nextFd))).of_global (fun _ _ => rfl)
    (s.gft.nextFd + 1) s.gft.size (Function.update s.vnFile v (s.vnFile v + 1))
  obtain ⟨hs₅, hheap, hnext⟩ := shaped_putFileOnGtable (by exact hmid) hput
  have hend : (Ledger.of s₆).Shaped := by
    refine shaped_putFileOnPtable hs₅ h3 ?_ ?_ hpl
    · rw [hnext]
      exact hlt
    · -- by the time it gets one it has a vnode
      intro f' hf'
      rw [hheap] at hf'
      simp only [Function.update_self, Option.some.injEq] at hf'
      subst hf'
      exact .data hk hc (by simp)
  exact hend

theorem shaped_openPath {flags : BitVec 32} {env : OpenEnv} (hs : (Ledger.of s).Shaped)
    (h : Runs (openPath p flags env) s ret s') : (Ledger.of s').Shaped := by
  unfold openPath at h
  rw [runs_bind] at h
  obtain ⟨x, s₁, hcreate, h⟩ := h
  rcases runs_createFile hcreate with ⟨-, rfl, rfl⟩ | ⟨-, rfl, cs, rfl⟩
  · simp only [runs_bind, runs_lockRelease, runs_pure] at h
    obtain ⟨_, s₂, ⟨-, rfl⟩, -, rfl⟩ := h
    exact hs
  · cases hacc : accessOf flags with
    -- a bad access mode leaves the new file behind, in no slot
    | none =>
        simp only [hacc, runs_pure] at h
        obtain ⟨-, rfl⟩ := h
        exact hs.alloc (blankFile env.path s.nextCell)
    | some rw' =>
        simp only [hacc, runs_bind, runs_readFile, runs_writeFile, Function.update_self,
          Option.some.injEq] at h
        obtain ⟨f, s₂, ⟨rfl, rfl⟩, _, s₃, ⟨-, rfl⟩, h⟩ := h
        have hnew := (hs.alloc (blankFile env.path s.nextCell)).setOff (r := s.nextFile) hs.three
          (fun q j => hs.ne_nextFile) (some { blankFile env.path s.nextCell with
            canRead := rw'.1, canWrite := rw'.2 })
        cases hv : env.vfsOpen with
        -- so does a `vfs_open` that fails
        | error tst =>
            simp only [hv, runs_bind, runs_lockRelease, runs_pure] at h
            obtain ⟨_, s₄, ⟨-, rfl⟩, -, rfl⟩ := h
            exact hnew
        | ok v =>
            simp only [hv] at h
            have hf := Function.update_self s.nextFile (some { blankFile env.path s.nextCell with
              canRead := rw'.1, canWrite := rw'.2 })
              (Function.update s.heap s.nextFile (some (blankFile env.path s.nextCell)))
            refine shaped_installFile ?_ hs.three ?_ ?_ hf ?_ ?_ h
            · exact hnew
            · exact Nat.lt_succ_self s.nextFile
            · exact fun q j => hs.ne_nextFile
            · rfl
            · simp [blankFile]

theorem shaped_sysOpen {filename : Option UserPtr} {flags : BitVec 32} {env : OpenEnv}
    (hs : (Ledger.of s).Shaped) (h : Runs (sysOpen filename flags env) s ret s') :
    (Ledger.of s').Shaped := by
  simp only [sysOpen, runs_bind, runs_get, runs_ite, runs_curproc, runs_lockAcquire,
    runs_readTable, runs_lockRelease, runs_pure] at h
  obtain ⟨a, s₀, ⟨rfl, rfl⟩, h⟩ := h
  rcases h with ⟨-, -, rfl⟩ | ⟨-, ⟨-, -, rfl⟩ | ⟨-, h⟩⟩
  · exact hs
  · exact hs
  obtain ⟨p, s₁, ⟨rfl, rfl⟩, _, s₂, ⟨-, rfl⟩, t, s₃, ⟨-, rfl⟩, h⟩ := h
  rcases h with ⟨-, _, s₄, ⟨-, rfl⟩, -, rfl⟩ | ⟨-, ⟨-, _, s₄, ⟨-, rfl⟩, -, rfl⟩ | ⟨-,
    ⟨-, _, s₄, ⟨-, rfl⟩, -, rfl⟩ | ⟨-, h⟩⟩⟩
  · exact hs
  · exact hs
  · exact hs
  · -- past the last test the file is made
    refine shaped_openPath ?_ h
    exact hs

theorem shaped_sysClose {fd : Int} (hs : (Ledger.of s).Shaped) (h : Runs (sysClose fd) s ret s') :
    (Ledger.of s').Shaped := by
  simp only [sysClose, runs_bind, runs_curproc, runs_lockAcquire] at h
  obtain ⟨p, s₁, ⟨rfl, rfl⟩, _, s₂, ⟨-, rfl⟩, x, s₃, hlook, h⟩ := h
  obtain ⟨rfl, -⟩ := runs_pFiletableLookup hlook
  cases x with
  | none =>
      simp only [runs_bind, runs_lockRelease, runs_pure] at h
      obtain ⟨_, s₄, ⟨-, rfl⟩, -, rfl⟩ := h
      exact hs
  | some r =>
      simp only [closeFound, runs_bind, runs_readFile, runs_ite, runs_readTable,
        runs_writeTable, runs_lockRelease, runs_pure] at h
      obtain ⟨f, s₄, ⟨-, rfl⟩, h⟩ := h
      rcases h with ⟨-, t, s₅, ⟨⟨P, hP, rfl⟩, rfl⟩, _, s₆, ⟨Q, hQ, rfl⟩, _, s₇, ⟨-, rfl⟩, -, rfl⟩ |
        ⟨-, _, s₅, hclose, _, s₆, ⟨-, rfl⟩, -, rfl⟩
      · -- only the flags of the table change
        have e : Q = P := Option.some.inj (hQ.symm.trans hP)
        subst e
        have hfiles : (closeStdStream Q.pFiletable f.stdFileStatus).files =
            Q.pFiletable.files := by
          unfold closeStdStream
          split_ifs <;> rfl
        exact shaped_writeProc hs hP hfiles
      · have hend : (Ledger.of s₅).Shaped := by
          refine shaped_closeFileOnPtable ?_ hclose
          exact hs
        exact hend

theorem shaped_dupInto {oldfd newfd : Int} {alloc : Bool} (hs : (Ledger.of s).Shaped)
    (h : Runs (dupInto p oldfd newfd alloc) s ret s') : (Ledger.of s').Shaped := by
  simp only [dupInto, runs_bind, runs_lockRelease, runs_ite, runs_pure] at h
  obtain ⟨g, t₁, hd, n, t₂, hput, _, t₃, ⟨-, rfl⟩, hret⟩ := h
  have hs' : s' = { t₂ with held := Function.update t₂.held (.ops p) none } := by
    rcases hret with ⟨-, -, rfl⟩ | ⟨-, -, rfl⟩ <;> rfl
  subst hs'
  obtain ⟨hs₁, h3, hlt, hshape⟩ := shaped_dupFile hs hd
  have hend : (Ledger.of t₂).Shaped := shaped_putFileOnPtable hs₁ h3 hlt hshape hput
  exact hend

theorem shaped_sysDup2 {oldfd newfd : Int} {alloc : Bool} (hs : (Ledger.of s).Shaped)
    (h : Runs (sysDup2 oldfd newfd alloc) s ret s') : (Ledger.of s').Shaped := by
  simp only [sysDup2, runs_ite, runs_bind, runs_curproc, runs_lockAcquire, runs_lockRelease,
    runs_pure] at h
  rcases h with ⟨-, -, rfl⟩ | ⟨-, ⟨-, -, rfl⟩ | ⟨-, p, s₁, ⟨rfl, rfl⟩, _, s₂, ⟨-, rfl⟩, x, s₃, hold, y,
    s₄, hnew, h⟩⟩
  · exact hs
  · exact hs
  obtain ⟨rfl, -⟩ := runs_pFiletableLookup hold
  obtain ⟨rfl, -⟩ := runs_pFiletableLookup hnew
  rcases h with ⟨-, _, s₅, ⟨-, rfl⟩, -, rfl⟩ | ⟨-, h⟩
  · exact hs
  rcases h with ⟨-, h⟩ | ⟨-, _, s₅, hclose, h⟩
  · refine shaped_dupInto ?_ h
    exact hs
  · refine shaped_dupInto (shaped_closeFileOnPtable ?_ hclose) h
    exact hs

/-! ## Processes -/

theorem shaped_procDestroy {u : Unit} (hs : (Ledger.of s).Shaped)
    (h : Runs (procDestroy p) s u s') : (Ledger.of s').Shaped := by
  simp only [procDestroy, runs_ite, runs_bind, runs_throw, false_and, exists_false, and_false,
    false_or, runs_readProc] at h
  obtain ⟨-, P, s₁, ⟨-, rfl⟩, _, s₂, hcwd, h⟩ := h
  obtain ⟨vn, rfl⟩ := runs_decrefCwd hcwd
  -- the row of the process goes last
  have hend : ∀ {t : Kernel}, Runs (procFree p) t u s' → (Ledger.of t).Shaped →
      (Ledger.of s').Shaped := by
    intro t ht hst
    have hof : Ledger.of s' = (Ledger.of t).dropRow p := by
      rw [runs_procFree ht]
      simp only [Ledger.of, Ledger.dropRow, rowOf_update, spaceOf_update, Option.elim_none,
        Option.map_none]
    rw [hof]
    exact hst.dropRow p
  -- the files are given up only by a process with an address space
  rcases h with ⟨-, _, s₃, hdestroy, h⟩ | ⟨-, h⟩
  · refine hend h (shaped_pFiletableDestroy ?_ hdestroy)
    exact hs
  · apply hend h
    exact hs

theorem shaped_threadExit {u : Unit} (hs : (Ledger.of s).Shaped) (h : Runs threadExit s u s') :
    (Ledger.of s').Shaped := by
  simp only [threadExit, runs_bind, runs_curproc, runs_readProc, runs_ite, runs_throw, false_and,
    exists_false, and_false, false_or, runs_writeProc] at h
  obtain ⟨p, s₁, ⟨rfl, rfl⟩, P, s₂, ⟨hP, rfl⟩, -, _, s₃, ⟨-, rfl⟩, h⟩ := h
  refine shaped_procDestroy ?_ h
  exact shaped_writeProc hs hP rfl

theorem shaped_commonProg {env : ProgEnv} (hs : (Ledger.of s).Shaped)
    (h : Runs (commonProg env) s ret s') : (Ledger.of s').Shaped := by
  simp only [commonProg, runs_bind] at h
  obtain ⟨x, s₁, hcreate, n, s₂, hput, h⟩ := h
  -- the process table is no part of the ledger
  have hof₂ := of_putProcOnProctable hput
  rcases of_procCreateRunprogram hcreate with ⟨rfl, rfl⟩ | ⟨rfl, -, -, hof⟩
  · simp only [runs_pure] at h
    obtain ⟨-, rfl⟩ := h
    rw [hof₂]
    exact hs
  · simp only [runs_bind, runs_ite, runs_pure] at h
    obtain ⟨m, s₃, hfork, h⟩ := h
    have hs₃ : (Ledger.of s₃).Shaped := by
      rw [(of_threadFork hfork).2, hof₂, hof]
      exact hs.addRow
    rcases h with ⟨-, _, s₄, hdes, -, rfl⟩ | ⟨-, -, rfl⟩
    · exact shaped_procDestroy hs₃ hdes
    · exact hs₃

theorem shaped_cmdProgthread {result : LoadResult} {u : Unit} (hs : (Ledger.of s).Shaped)
    (h : Runs (cmdProgthread result) s u s') : (Ledger.of s').Shaped := by
  simp only [cmdProgthread, runs_bind, runs_curproc, runs_readProc] at h
  obtain ⟨p, s₁, ⟨rfl, rfl⟩, P, s₂, ⟨hP, rfl⟩, h⟩ := h
  cases result with
  | running =>
      simp only [runs_writeProc] at h
      obtain ⟨-, rfl⟩ := h
      exact shaped_writeProc hs hP rfl
  | noAddrspace => exact shaped_threadExit hs h
  | afterSetas =>
      simp only [runs_bind, runs_writeProc] at h
      obtain ⟨_, s₃, ⟨-, rfl⟩, h⟩ := h
      refine shaped_threadExit ?_ h
      exact shaped_writeProc hs hP rfl

theorem shaped_sysFork {env : ForkEnv} (hs : (Ledger.of s).Shaped)
    (h : Runs (sysFork env) s ret s') : (Ledger.of s').Shaped := by
  simp only [sysFork, runs_bind, runs_get, runs_ite, runs_pure] at h
  obtain ⟨t, s₁, ⟨rfl, rfl⟩, h⟩ := h
  rcases h with ⟨-, -, rfl⟩ | ⟨-, ⟨-, -, rfl⟩ | ⟨-, x, s₂, hcreate, h⟩⟩
  · exact hs
  · exact hs
  rcases of_procCreateRunprogram hcreate with ⟨rfl, rfl⟩ | ⟨rfl, -, -, hof⟩
  · simp only [runs_pure] at h
    obtain ⟨-, rfl⟩ := h
    exact hs
  have hs₂ : (Ledger.of s₂).Shaped := by
    rw [hof]
    exact hs.addRow
  simp only [forkInto, runs_bind, runs_curproc, runs_lockAcquire, runs_readProc, runs_writeProc,
    runs_ite, runs_lockRelease, runs_pure] at h
  obtain ⟨p, s₃, ⟨rfl, rfl⟩, _, s₄, ⟨-, rfl⟩, pid, s₅, hpid, P, s₆, ⟨-, rfl⟩, Q, s₇, ⟨hQ, rfl⟩, _,
    s₈, ⟨-, rfl⟩, h⟩ := h
  obtain ⟨-, rfl⟩ := runs_getNextPid hpid
  -- the pids, like the address space below, are no part of it either
  have hnum := fun x => shaped_writeProc (Q := { Q with pid := x, ppid := P.pid }) hs₂ hQ rfl
  rcases h with ⟨-, _, s₉, hdes, _, s₁₀, ⟨-, rfl⟩, -, rfl⟩ | ⟨-, Q', s₉, ⟨hQ', rfl⟩, _, s₁₀, ⟨-, rfl⟩,
    _, s₁₁, hcopy, _, s₁₂, ⟨-, rfl⟩, n, s₁₃, hput, err, s₁₄, hfork, h⟩
  · have hend : (Ledger.of s₉).Shaped := by
      refine shaped_procDestroy ?_ hdes
      exact hnum _
    exact hend
  · have hs' : s' = s₁₄ := by
      rcases h with ⟨-, -, rfl⟩ | ⟨-, -, rfl⟩ <;> rfl
    have hcopied : (Ledger.of s₁₁).Shaped := by
      refine shaped_copyPFiletable ?_ hcopy
      refine shaped_writeProc (P := Q') ?_ hQ' rfl
      exact hnum _
    rw [hs', (of_threadFork hfork).2, of_putProcOnProctable hput]
    exact hcopied

theorem shaped_sysExit {exitcode : BitVec 32} {alloc : Bool} {u : Unit}
    (hs : (Ledger.of s).Shaped) (h : Runs (sysExit exitcode alloc) s u s') :
    (Ledger.of s').Shaped := by
  have hend : ∀ {p P} {t : Kernel}, Runs (exitEnd p P) t u s' → (Ledger.of t).Shaped →
      (Ledger.of s').Shaped := by
    intro p P t ht hst
    simp only [exitEnd, runs_bind, runs_lockRelease] at ht
    obtain ⟨_, s₁, hremove, _, s₂, ⟨-, rfl⟩, hexit⟩ := ht
    refine shaped_threadExit ?_ hexit
    rcases runs_removeProcFromProctable hremove with ⟨-, rfl⟩ | ⟨i, -, rfl⟩
    · exact hst
    · exact hst
  simp only [sysExit, runs_bind, runs_curproc, runs_lockAcquire, runs_readProc] at h
  obtain ⟨p, s₁, ⟨rfl, rfl⟩, _, s₂, ⟨-, rfl⟩, P, s₃, ⟨hP, rfl⟩, x, s₄, href, _, s₅, hrem, h⟩ := h
  obtain ⟨rfl, rfl⟩ := runs_getReferenceByPid href
  obtain rfl := runs_remAllExitCodes hrem
  -- the parent may be gone
  generalize hx : (slotByPid _ _).bind _ = x at h
  cases x with
  | none =>
      simp only at h
      exact hend h hs
  | some q =>
      simp only [postToParent, runs_bind, runs_readProc, runs_lockAcquire, runs_lockRelease] at h
      obtain ⟨_, s₆, ⟨Q, s₇, ⟨-, rfl⟩, _, s₈, ⟨-, rfl⟩, _, s₉, hpost, -, rfl⟩, h⟩ := h
      obtain ⟨codes, rfl⟩ := runs_postExitCode hpost
      exact hend h hs

/-! ## Every action -/

/-- Every action keeps the shapes. -/
theorem shaped_of_step {a : Action} (hs : (Ledger.of s).Shaped) (h : step s a s') :
    (Ledger.of s').Shaped := by
  obtain ⟨p, call⟩ := a
  obtain ⟨-, ret, hrun⟩ := h
  have hs' : (Ledger.of { s with curproc := p }).Shaped := hs
  cases call with
  | start env => exact shaped_commonProg hs' hrun
  | load result =>
      simp only [Call.run, runs_bind, runs_pure] at hrun
      obtain ⟨_, s₁, hrun, -, rfl⟩ := hrun
      exact shaped_cmdProgthread hs' hrun
  | openFile filename flags env => exact shaped_sysOpen hs' hrun
  | close fd => exact shaped_sysClose hs' hrun
  | dup2 oldfd newfd alloc => exact shaped_sysDup2 hs' hrun
  | fork env => exact shaped_sysFork hs' hrun
  | exit exitcode alloc =>
      simp only [Call.run, runs_bind, runs_pure] at hrun
      obtain ⟨_, s₁, hrun, -, rfl⟩ := hrun
      exact shaped_sysExit hs' hrun

theorem boot_shaped : (Ledger.of boot).Shaped := by
  have hheap : ∀ k, k < 3 → (Ledger.of boot).heap k = some (stdFile k) := by
    intro k hk
    show (if k < 3 then some (stdFile k) else none) = some (stdFile k)
    rw [if_pos hk]
  -- only the menu has a table, with the standard files in their places
  have hrow : ∀ p (i : Fin openMax) r, (Ledger.of boot).row p i = some r → r < 3 ∧ r = i.val := by
    intro p i r hr
    rw [boot_row] at hr
    split_ifs at hr
    obtain ⟨hi, rfl⟩ := stdSlots_eq_some hr
    exact ⟨hi, rfl⟩
  have hstd : ∀ k, StdStream k (stdFile k) := fun k => ⟨stdFile_spec k, rfl, rfl, rfl⟩
  refine ⟨le_rfl, fun k hk => ⟨_, hheap k hk, hstd k⟩, fun i hi => ?_, fun p i r hr => (hrow p i r hr).1,
    fun p i r hr _ => (hrow p i r hr).2, fun p i r f hr hf => ?_⟩
  · show stdSlots i = some i.val
    unfold stdSlots
    rw [if_pos hi]
  · obtain ⟨h3, rfl⟩ := boot_heap hf
    exact (hstd r).shape h3

/-- In every run the open files have their shapes. -/
theorem shaped_of_reach (h : Reach step anyStep boot s) : (Ledger.of s).Shaped :=
  h.invariant (I := fun s => (Ledger.of s).Shaped) (fun _ _ _ ht _ hst => shaped_of_step ht hst)
    boot_shaped

end Os161.Main

import Os161.Vfs.Refine
import Os161.Syscall.LockBalance

set_option autoImplicit false

/-!
# The system calls on the ledger

Which events of the ledger the handlers `open`, `close`, `dup2`, `fork` and `_exit` make, and the
thread function that loads a program. `Os161.Vfs.Refine` has the loops these handlers run.
-/

namespace Os161.Syscall

open Os161.Lib.Program
open Os161.Lib.Slots
open Os161.Vfs
open Os161.Proc

/-! ## open -/

/-- A file that `open` made and gave up: nothing refers to it. -/
structure Abandoned (f : File) : Prop where
  refcount : f.refcount = 1
  isDupe : f.isDupe = false

/-- The file `open` installs. -/
def installed (f : File) (v : VnodeRef) (fd : Int) : File :=
  { f with fileVnode := some v, globalFd := fd, localFd := fd }

theorem sim_installFile {p : ProcRef} {f : File} {v : VnodeRef} {ret : Int} {s t s' : Kernel}
    (hwf : (Ledger.of s).WF) (hroom : s.gft.size ≠ openMax)
    (ht : Ledger.of t = (Ledger.of s).alloc f)
    (hone : f.refcount = 1) (hdup : f.isDupe = false) (hstd : f.stdFileStatus = -1)
    (h : Runs (installFile p s.nextFile v) t ret s') :
    ret = s.gft.nextFd ∧
      Ledger.Open p (installed f v s.gft.nextFd) (Ledger.of s) (Ledger.of s') := by
  simp only [installFile, runs_bind, runs_vopIncref, runs_readFile, runs_writeFile,
    runs_lockRelease, runs_pure] at h
  obtain ⟨_, s₁, rfl, g, s₂, ⟨hg, rfl⟩, fd, s₃, hfd, _, s₄, ⟨-, rfl⟩, m, s₅, hput, n, s₆, hpl, _,
    s₇, ⟨-, rfl⟩, rfl, rfl⟩ := h
  obtain ⟨rfl, rfl⟩ := runs_getNextFd hfd
  -- the ledger of `t`, field by field
  simp only [Ledger.of, Ledger.alloc, Ledger.mk.injEq] at ht
  obtain ⟨hheap, hfile, hnext, htab, hsz, hrow, hsp, hproc, hvn⟩ := ht
  have e : g = f := by
    have hg' : t.heap s.nextFile = some g := hg
    rw [hheap, Function.update_self] at hg'
    exact (Option.some.inj hg').symm
  subst e
  obtain ⟨j, hj, rfl⟩ := runs_putFileOnGtable (by simp only [hsz, htab]; exact hwf.size)
    (by simp only [hsz]; exact hroom) hput
  have hnew : Ledger.NewFile (Ledger.of s).nextFd (installed g v s.gft.nextFd) :=
    ⟨hone, by simp [installed], rfl, rfl, hdup, hstd⟩
  have hj' : s.gft.openFiles j = none := by
    rw [← htab]
    exact hj
  refine ⟨hnext, .opened (j := j) hnew hj' ?_⟩
  have hplaced := (sim_putFileOnPtable hpl).1
  have hof : Ledger.of { t with
      vnFile := Function.update t.vnFile v (t.vnFile v + 1)
      heap := Function.update t.heap s.nextFile (some (installed g v t.gft.nextFd))
      gft := { t.gft with
        nextFd := t.gft.nextFd + 1
        openFiles := Function.update t.gft.openFiles j (some s.nextFile)
        size := t.gft.size + 1 } } =
      ((((Ledger.of s).addVnode (some v) 1).alloc (installed g v s.gft.nextFd)).register j
        s.nextFile) := by
    rw [addVnode_update]
    simp only [Ledger.of, Ledger.alloc, Ledger.register, hheap, hfile, hnext, htab, hsz, hrow, hsp,
      hproc, hvn, Function.update_idem]
  show Ledger.Placed p s.nextFile ((((Ledger.of s).addVnode (some v) 1).alloc
    (installed g v s.gft.nextFd)).register j s.nextFile) _
  rw [← hof]
  exact hplaced

/-- `open` passes all its checks and gets a vnode. -/
structure Opens (s : Kernel) (p : ProcRef) (filename : Option UserPtr) (flags : BitVec 32)
    (env : OpenEnv) : Prop where
  filename : filename ≠ none
  gtable : s.gft.size ≠ openMax
  ptable : ∃ P, s.procs p = some P ∧ P.pFiletable.size ≠ openMax
  path : env.kmallocPath = true
  copied : env.copyinstr ≠ Errno.EFAULT.code
  file : env.createFile = true
  mode : accessOf flags ≠ none
  vnode : ∃ v, env.vfsOpen = .ok v

/-- What `open` does to the ledger: it fails and leaves at most a file behind that nothing refers
to, or it returns the next number and the file is open. -/
inductive OpenEffect (s : Kernel) (p : ProcRef) (filename : Option UserPtr) (flags : BitVec 32)
    (env : OpenEnv) (ret : Int) (s' : Kernel) : Prop where
  | failed : ret < 0 → Ledger.of s' = Ledger.of s → OpenEffect s p filename flags env ret s'
  | abandoned {f : File} : ret < 0 → Abandoned f → Ledger.of s' = (Ledger.of s).alloc f →
      OpenEffect s p filename flags env ret s'
  | opened {f : File} : ret = s.gft.nextFd → Opens s p filename flags env →
      env.vfsOpen.toOption = f.fileVnode → Ledger.Open p f (Ledger.of s) (Ledger.of s') →
      OpenEffect s p filename flags env ret s'

theorem sim_openPath {p : ProcRef} {filename : Option UserPtr} {flags : BitVec 32}
    {env : OpenEnv} {ret : Int} {s s' : Kernel} (hwf : (Ledger.of s).WF)
    (hchecks : env.createFile = true → accessOf flags ≠ none → (∃ v, env.vfsOpen = .ok v) →
      Opens s p filename flags env)
    (hroom : s.gft.size ≠ openMax) (h : Runs (openPath p flags env) s ret s') :
    OpenEffect s p filename flags env ret s' := by
  unfold openPath at h
  rw [runs_bind] at h
  obtain ⟨x, s₁, hcreate, h⟩ := h
  rcases runs_createFile hcreate with ⟨-, rfl, rfl⟩ | ⟨halloc, rfl, cs, rfl⟩
  · simp only [runs_bind, runs_lockRelease, runs_pure] at h
    obtain ⟨_, s₂, ⟨-, rfl⟩, rfl, rfl⟩ := h
    exact .failed (fail_neg _) rfl
  · cases hacc : accessOf flags with
    | none =>
        simp only [hacc, runs_pure] at h
        obtain ⟨rfl, rfl⟩ := h
        exact .abandoned (f := blankFile env.path s.nextCell) (fail_neg _) ⟨rfl, rfl⟩ rfl
    | some rw' =>
        simp only [hacc, runs_bind, runs_readFile, runs_writeFile, Function.update_self,
          Option.some.injEq] at h
        obtain ⟨f, s₂, ⟨rfl, rfl⟩, _, s₃, ⟨-, rfl⟩, h⟩ := h
        cases hv : env.vfsOpen with
        | error tst =>
            simp only [hv, runs_bind, runs_lockRelease, runs_pure] at h
            obtain ⟨_, s₄, ⟨-, rfl⟩, rfl, rfl⟩ := h
            have hneg : -1 * tst.val < 0 := by
              have := tst.2
              omega
            refine .abandoned
              (f := { blankFile env.path s.nextCell with canRead := rw'.1, canWrite := rw'.2 })
              hneg ⟨rfl, rfl⟩ ?_
            simp only [Ledger.of, Ledger.alloc, Function.update_idem]
        | ok v =>
            simp only [hv] at h
            obtain ⟨hret, hopen⟩ := sim_installFile (s := s) (f := { blankFile env.path s.nextCell
              with canRead := rw'.1, canWrite := rw'.2 }) hwf hroom
              (by simp only [Ledger.of, Ledger.alloc, Function.update_idem]) rfl rfl rfl h
            have hmode : accessOf flags ≠ none := by simp [hacc]
            exact .opened hret (hchecks halloc hmode ⟨v, hv⟩) (by rw [hv]; rfl) hopen

theorem sim_sysOpen {filename : Option UserPtr} {flags : BitVec 32} {env : OpenEnv} {ret : Int}
    {s s' : Kernel} (hwf : (Ledger.of s).WF) (h : Runs (sysOpen filename flags env) s ret s') :
    OpenEffect s s.curproc filename flags env ret s' := by
  simp only [sysOpen, runs_bind, runs_get, runs_ite, runs_curproc, runs_lockAcquire,
    runs_readTable, runs_lockRelease, runs_pure] at h
  obtain ⟨a, s₀, ⟨rfl, rfl⟩, h⟩ := h
  rcases h with ⟨-, rfl, rfl⟩ | ⟨hfn, ⟨-, rfl, rfl⟩ | ⟨hg, h⟩⟩
  · exact .failed (fail_neg _) rfl
  · exact .failed (fail_neg _) rfl
  obtain ⟨p, s₁, ⟨rfl, rfl⟩, _, s₂, ⟨hfree, rfl⟩, t, s₃, ⟨⟨P, hP, rfl⟩, rfl⟩, h⟩ := h
  rcases h with ⟨-, _, s₄, ⟨-, rfl⟩, rfl, rfl⟩ | ⟨hp, ⟨-, _, s₄, ⟨-, rfl⟩, rfl, rfl⟩ | ⟨hk,
    ⟨-, _, s₄, ⟨-, rfl⟩, rfl, rfl⟩ | ⟨hc, h⟩⟩⟩
  · exact .failed (fail_neg _) rfl
  · exact .failed (fail_neg _) rfl
  · exact .failed (fail_neg _) rfl
  · have hchecks : env.createFile = true → accessOf flags ≠ none → (∃ v, env.vfsOpen = .ok v) →
        Opens s₁ s₁.curproc filename flags env :=
      fun hf hm hv => ⟨hfn, hg, ⟨P, hP, hp⟩, by simpa using hk, hc, hf, hm, hv⟩
    cases sim_openPath (s := { s₁ with
        held := Function.update s₁.held (.ops s₁.curproc) (some s₁.curproc) }) hwf
        (fun hf hm hv => ⟨hfn, hg, ⟨P, hP, hp⟩, by simpa using hk, hc, hf, hm, hv⟩) hg h with
    | failed hret hof => exact .failed hret hof
    | abandoned hret hab hof => exact .abandoned hret hab hof
    | opened hret hopens hf hopen =>
        exact .opened hret (hchecks hopens.file hopens.mode hopens.vnode) hf hopen

/-! ## close and dup2 -/

/-- A standard file that is not a duplicate: `close` only marks the stream as closed. -/
def StdOriginal (f : File) : Prop :=
  f.isDupe = false ∧ (f.stdFileStatus = 0 ∨ f.stdFileStatus = 1 ∨ f.stdFileStatus = 2)

/-- `close(fd)` gets as far as closing slots. -/
def ClosesSlots (L : Ledger) (p : ProcRef) (fd : Int) : Prop :=
  ∃ r f, L.lookup p fd = some r ∧ L.heap r = some f ∧ ¬ StdOriginal f

/-- `close` leaves the ledger alone, or closes the slots with the number. -/
theorem sim_sysClose {fd ret : Int} {s s' : Kernel} (hwf : (Ledger.of s).WF)
    (hsole : ClosesSlots (Ledger.of s) s.curproc fd → (Ledger.of s).SoleDups s.curproc fd)
    (h : Runs (sysClose fd) s ret s') :
    (¬ ClosesSlots (Ledger.of s) s.curproc fd ∧ Ledger.of s' = Ledger.of s) ∨
      (ClosesSlots (Ledger.of s) s.curproc fd ∧
        Ledger.Closes s.curproc fd (Ledger.of s) (Ledger.of s') ∧
        Ledger.Unused (Ledger.of s') s.curproc fd) := by
  simp only [sysClose, runs_bind, runs_curproc, runs_lockAcquire] at h
  obtain ⟨p, s₁, ⟨rfl, rfl⟩, _, s₂, ⟨hfree, rfl⟩, x, s₃, hlook, h⟩ := h
  obtain ⟨rfl, rfl⟩ := runs_pFiletableLookup hlook
  rw [lookupFd_eq] at h
  cases hx : (Ledger.of s₁).lookup s₁.curproc fd with
  | none =>
      have hx' : (Ledger.of { s₁ with
          held := Function.update s₁.held (.ops s₁.curproc) (some s₁.curproc) }).lookup
          s₁.curproc fd = none := hx
      simp only [hx', runs_bind, runs_lockRelease, runs_pure] at h
      obtain ⟨_, s₄, ⟨-, rfl⟩, -, rfl⟩ := h
      refine .inl ⟨?_, rfl⟩
      rintro ⟨r, f, hr, -⟩
      rw [hx] at hr
      cases hr
  | some r =>
      have hx' : (Ledger.of { s₁ with
          held := Function.update s₁.held (.ops s₁.curproc) (some s₁.curproc) }).lookup
          s₁.curproc fd = some r := hx
      simp only [hx', closeFound, runs_bind, runs_readFile, runs_ite, runs_readTable,
        runs_writeTable, runs_lockRelease, runs_pure] at h
      obtain ⟨f, s₄, ⟨hf, rfl⟩, h⟩ := h
      rcases h with ⟨horig, t, s₅, ⟨⟨P, hP, rfl⟩, rfl⟩, _, s₆, ⟨Q, hQ, rfl⟩, _, s₇, ⟨-, rfl⟩, -, rfl⟩ |
        ⟨hstd, _, s₅, hclose, _, s₆, ⟨-, rfl⟩, -, rfl⟩
      · left
        have e : Q = P := Option.some.inj (hQ.symm.trans hP)
        subst e
        have hfiles : (closeStdStream Q.pFiletable f.stdFileStatus).files =
            Q.pFiletable.files := by
          unfold closeStdStream
          split_ifs <;> rfl
        refine ⟨?_, of_writeProc (s := s₁) hP hfiles rfl⟩
        rintro ⟨r', g, hr', hg, hng⟩
        rw [hx] at hr'
        cases hr'
        have hf' : (Ledger.of s₁).heap r = some f := hf
        rw [hf'] at hg
        cases hg
        exact hng horig
      · right
        have hcl : ClosesSlots (Ledger.of s₁) s₁.curproc fd := ⟨r, f, hx, hf, hstd⟩
        obtain ⟨hcloses, hgone⟩ := sim_closeFileOnPtable (s := { s₁ with
          held := Function.update s₁.held (.ops s₁.curproc) (some s₁.curproc) })
          hwf (hsole hcl) hclose
        exact ⟨hcl, hcloses, hgone⟩

/-- `dup2(oldfd, newfd)` gets as far as duplicating: the numbers are different and in range, and
the old one denotes the file `r`. -/
structure Duplicates (L : Ledger) (p : ProcRef) (oldfd newfd : Int) (r : FileRef) : Prop where
  range : ¬ (oldfd < 0 ∨ newfd < 0 ∨ newfd ≥ openMax)
  ne : oldfd ≠ newfd
  found : L.lookup p oldfd = some r

/-- The end of `dup2`, after the slots with the new number have been closed. -/
theorem sim_dupInto {p : ProcRef} {oldfd newfd ret : Int} {alloc : Bool} {r : FileRef} {L : Ledger}
    {t s' : Kernel} (hcl : Ledger.Closes p newfd L (Ledger.of t))
    (hdup : Duplicates L p oldfd newfd r) (h : Runs (dupInto p oldfd newfd alloc) t ret s') :
    ∃ f, Ledger.Dup p r f newfd (Ledger.of t) (Ledger.of s') := by
  simp only [dupInto, runs_bind, runs_lockRelease, runs_ite, runs_pure] at h
  obtain ⟨g, t₁, hd, n, t₂, hput, _, t₃, ⟨-, rfl⟩, hret⟩ := h
  have hs' : s' = { t₂ with held := Function.update t₂.held (.ops p) none } := by
    rcases hret with ⟨-, -, rfl⟩ | ⟨-, -, rfl⟩ <;> rfl
  subst hs'
  obtain ⟨rfl, r', f, hr', hf, hof⟩ := sim_dupFile
    (fun _ _ _ _ hg => ne_of_lt (hcl.wf_and_sole.1.lt_nextFile hg)) hd
  have hlook : (Ledger.of t).lookup p oldfd = some r := by
    rw [hcl.lookup_keep hdup.ne]
    exact hdup.found
  rw [hlook] at hr'
  cases hr'
  obtain ⟨i, -, hi, -⟩ := Ledger.lookup_eq_some hlook
  have hpl := (sim_putFileOnPtable hput).1
  rw [hof] at hpl
  exact ⟨f, .dup hi hf hpl⟩

/-- `dup2` leaves the ledger alone, or closes the slots with the new number and then makes a
duplicate under it. -/
theorem sim_sysDup2 {oldfd newfd ret : Int} {alloc : Bool} {s s' : Kernel}
    (hwf : (Ledger.of s).WF)
    (hsole : ∀ r, Duplicates (Ledger.of s) s.curproc oldfd newfd r →
      (Ledger.of s).SoleDups s.curproc newfd)
    (h : Runs (sysDup2 oldfd newfd alloc) s ret s') :
    Ledger.of s' = Ledger.of s ∨
      ∃ r f L₁, Duplicates (Ledger.of s) s.curproc oldfd newfd r ∧
        Ledger.Closes s.curproc newfd (Ledger.of s) L₁ ∧
        L₁.Unused s.curproc newfd ∧
        Ledger.Dup s.curproc r f newfd L₁ (Ledger.of s') := by
  simp only [sysDup2, runs_ite, runs_bind, runs_curproc, runs_lockAcquire, runs_lockRelease,
    runs_pure] at h
  rcases h with ⟨-, -, rfl⟩ | ⟨hrange, ⟨-, -, rfl⟩ | ⟨hne, p, s₁, ⟨rfl, rfl⟩, _, s₂, ⟨hfree, rfl⟩,
    x, s₃, hlook, y, s₄, hlook', h⟩⟩
  · exact .inl rfl
  · exact .inl rfl
  obtain ⟨rfl, rfl⟩ := runs_pFiletableLookup hlook
  obtain ⟨rfl, rfl⟩ := runs_pFiletableLookup hlook'
  rw [lookupFd_eq, lookupFd_eq] at h
  rcases h with ⟨-, _, s₅, ⟨-, rfl⟩, -, rfl⟩ | ⟨hold, h⟩
  · exact .inl rfl
  right
  obtain ⟨r, hr⟩ : ∃ r, (Ledger.of s₁).lookup s₁.curproc oldfd = some r :=
    Option.ne_none_iff_exists'.1 hold
  have hdup : Duplicates (Ledger.of s₁) s₁.curproc oldfd newfd r := ⟨hrange, hne, hr⟩
  have hso := hsole r hdup
  rcases h with ⟨hnew, h⟩ | ⟨-, _, s₅, hclose, h⟩
  · have hcl : Ledger.Closes s₁.curproc newfd (Ledger.of s₁) (Ledger.of s₁) := ⟨.refl, hwf, hso⟩
    obtain ⟨f, hd⟩ := sim_dupInto (t := { s₁ with
      held := Function.update s₁.held (.ops s₁.curproc) (some s₁.curproc) }) hcl hdup h
    exact ⟨r, f, Ledger.of s₁, hdup, hcl,
      fun i r' g hr' hg => Ledger.lookup_eq_none hnew hr' hg, hd⟩
  · obtain ⟨hcl, hgone⟩ := sim_closeFileOnPtable (s := { s₁ with
      held := Function.update s₁.held (.ops s₁.curproc) (some s₁.curproc) }) hwf hso hclose
    obtain ⟨f, hd⟩ := sim_dupInto hcl hdup h
    exact ⟨r, f, Ledger.of s₅, hdup, hcl, hgone, hd⟩

/-! ## Processes -/

theorem of_procCreateRunprogram {alloc : Bool} {x : Option ProcRef} {s s' : Kernel}
    (h : Runs (procCreateRunprogram alloc) s x s') :
    (x = none ∧ s' = s) ∨
      (x = some s.nextProc ∧ alloc = true ∧ s'.curproc = s.curproc ∧
        Ledger.of s' = (Ledger.of s).addRow) := by
  rcases runs_procCreateRunprogram h with ⟨rfl, -, rfl⟩ | ⟨rfl, ha, Q, vn, hQ, rfl⟩
  · exact .inl ⟨rfl, rfl⟩
  · refine .inr ⟨rfl, ha, rfl, ?_⟩
    simp only [Ledger.of, Ledger.addRow, rowOf_update, spaceOf_update, Option.elim_some,
      Option.map_some, hQ.files, hQ.pAddrspace]
    rfl

/-- Before a process disappears, its table is closed if it has an address space; without one it
has standard files only. -/
theorem sim_procDestroy {p : ProcRef} {L : Ledger} {s s' : Kernel} {u : Unit}
    (h : Runs (procDestroy p) s u s') (hwf : L.WF) (hof : Ledger.of s = L) :
    Ledger.Gone p L (Ledger.of s') := by
  subst hof
  simp only [procDestroy, runs_ite, runs_bind, runs_throw, false_and, exists_false, and_false,
    false_or, runs_readProc] at h
  obtain ⟨-, P, s₁, ⟨hP, rfl⟩, _, s₂, hcwd, h⟩ := h
  obtain ⟨vn, rfl⟩ := runs_decrefCwd hcwd
  -- the end of `proc_destroy` removes the process
  have hend : ∀ {t : Kernel}, Runs (procFree p) t u s' →
      Ledger.of s' = (Ledger.of t).dropRow p := by
    intro t ht
    rw [runs_procFree ht]
    simp only [Ledger.of, Ledger.dropRow, rowOf_update, spaceOf_update, Option.elim_none,
      Option.map_none]
  rcases h with ⟨-, _, s₃, hdestroy, h⟩ | ⟨hbare, h⟩
  · simp only [pFiletableDestroy, runs_bind, runs_lockDestroy] at hdestroy
    obtain ⟨_, s₄, hall, -, rfl⟩ := hdestroy
    obtain ⟨hl, hpost⟩ := sim_closeAllFilesPtable (s := { s₁ with vnCwd := vn }) hwf hall
    exact ⟨Ledger.of s₃, hl, hpost, hend h⟩
  · refine ⟨Ledger.of s₁, ⟨.refl, hwf⟩, fun i r f hr hf => ?_,
      hend (t := { s₁ with vnCwd := vn }) h⟩
    have hb : (Ledger.of s₁).space p = some false := by
      simp only [Ledger.of, spaceOf, hP, Option.map_some]
      simpa using hbare
    exact (hwf.std_status (hwf.bareStd p i r hb hr) hf).stdFileStatus_ne

theorem sim_threadExit {p : ProcRef} {L : Ledger} {s s' : Kernel} {u : Unit}
    (h : Runs threadExit s u s') (hwf : L.WF) (hof : Ledger.of s = L) (hp : s.curproc = p) :
    Ledger.Gone p L (Ledger.of s') := by
  subst hof
  subst hp
  simp only [threadExit, runs_bind, runs_curproc, runs_readProc, runs_ite, runs_throw, false_and,
    exists_false, and_false, false_or, runs_writeProc] at h
  obtain ⟨p, s₁, ⟨rfl, rfl⟩, P, s₂, ⟨hP, rfl⟩, -, _, s₃, ⟨-, rfl⟩, h⟩ := h
  exact sim_procDestroy h hwf (of_writeProc hP rfl rfl)

theorem sim_exitEnd {p : ProcRef} {P : Os161.Proc} {L : Ledger} {s s' : Kernel} {u : Unit}
    (h : Runs (exitEnd p P) s u s') (hwf : L.WF) (hof : Ledger.of s = L) (hp : s.curproc = p) :
    Ledger.Gone p L (Ledger.of s') := by
  subst hof
  subst hp
  simp only [exitEnd, runs_bind, runs_lockRelease] at h
  obtain ⟨_, s₁, hremove, _, s₂, ⟨-, rfl⟩, hexit⟩ := h
  rcases runs_removeProcFromProctable hremove with ⟨-, rfl⟩ | ⟨i, -, rfl⟩
  · exact sim_threadExit hexit hwf rfl rfl
  · exact sim_threadExit hexit hwf rfl rfl

/-- `_exit` is, for the file layer, the end of the process. -/
theorem sim_sysExit {exitcode : BitVec 32} {alloc : Bool} {s s' : Kernel} {u : Unit}
    (hwf : (Ledger.of s).WF) (h : Runs (sysExit exitcode alloc) s u s') :
    Ledger.Gone s.curproc (Ledger.of s) (Ledger.of s') := by
  simp only [sysExit, runs_bind, runs_curproc, runs_lockAcquire, runs_readProc] at h
  obtain ⟨p, s₁, ⟨rfl, rfl⟩, _, s₂, ⟨-, rfl⟩, P, s₃, ⟨hP, rfl⟩, x, s₄, href, _, s₅, hrem, h⟩ := h
  obtain ⟨rfl, rfl⟩ := runs_getReferenceByPid href
  obtain rfl := runs_remAllExitCodes hrem
  generalize hx : (slotByPid _ _).bind _ = x at h
  cases x with
  | none =>
      simp only at h
      exact sim_exitEnd h hwf rfl rfl
  | some q =>
      simp only [postToParent, runs_bind, runs_readProc, runs_lockAcquire, runs_lockRelease] at h
      obtain ⟨_, s₆, ⟨Q, s₇, ⟨-, rfl⟩, _, s₈, ⟨-, rfl⟩, _, s₉, hpost, -, rfl⟩, h⟩ := h
      obtain ⟨codes, rfl⟩ := runs_postExitCode hpost
      exact sim_exitEnd h hwf rfl rfl

/-! ## fork and the menu -/

theorem of_threadFork {p : ProcRef} {result n : Int} {s s' : Kernel}
    (h : Runs (threadFork p result) s n s') : n = result ∧ Ledger.of s' = Ledger.of s := by
  simp only [threadFork, runs_ite, runs_bind, runs_readProc, runs_writeProc, runs_pure] at h
  rcases h with ⟨-, P, s₁, ⟨hP, rfl⟩, _, s₂, ⟨-, rfl⟩, rfl, rfl⟩ | ⟨-, rfl, rfl⟩
  · exact ⟨rfl, of_writeProc hP rfl rfl⟩
  · exact ⟨rfl, rfl⟩

theorem of_putProcOnProctable {x : Option ProcRef} {n : Int} {s s' : Kernel}
    (h : Runs (putProcOnProctable x) s n s') : Ledger.of s' = Ledger.of s := by
  rcases runs_putProcOnProctable h with ⟨-, rfl⟩ | ⟨i, -, rfl⟩ <;> rfl

/-- `fork` gets as far as copying the file table. -/
structure Forks (s : Kernel) (env : ForkEnv) : Prop where
  room : s.ptable.numOfProcs ≠ procMax
  trapframe : env.kmallocTrapframe = true
  process : env.procCreate = true
  space : env.asCopy = 0

/-- What `fork` does to the ledger: nothing; a new process that is destroyed at once, when
`as_copy` fails; or a new process that shares the files of its parent. -/
inductive ForkEffect (p : ProcRef) (forks : Prop) (L L' : Ledger) : Prop where
  | none : L' = L → ForkEffect p forks L L'
  | failed : Ledger.Gone L.nextProc L.addRow L' → ForkEffect p forks L L'
  | forked : forks → Ledger.Shares p L.nextProc (L.addRow.load L.nextProc) L' →
      (∀ i, L'.row L.nextProc i = (L.row p i).or (L.stdRow i)) → ForkEffect p forks L L'

theorem sim_forkInto {env : ForkEnv} {ret : Int} {forks : Prop} {L : Ledger} {s s' : Kernel}
    (hwf : L.WF) (hof : Ledger.of s = L.addRow) (hp : s.curproc < L.nextProc)
    (hforks : env.asCopy = 0 → forks) (h : Runs (forkInto L.nextProc env) s ret s') :
    ForkEffect s.curproc forks L (Ledger.of s') := by
  have hwf' : (Ledger.of s).WF := by
    rw [hof]
    exact hwf.addRow
  simp only [forkInto, runs_bind, runs_curproc, runs_lockAcquire, runs_readProc, runs_writeProc,
    runs_ite, runs_lockRelease, runs_pure] at h
  obtain ⟨p, s₁, ⟨rfl, rfl⟩, _, s₂, ⟨-, rfl⟩, pid, s₃, hpid, P, s₄, ⟨-, rfl⟩, Q, s₅, ⟨hQ, rfl⟩, _,
    s₆, ⟨-, rfl⟩, h⟩ := h
  obtain ⟨-, rfl⟩ := runs_getNextPid hpid
  have hQ' : s₁.procs L.nextProc = some Q := hQ
  have hof₁ := of_writeProc (Q := { Q with pid := pid, ppid := P.pid }) hQ' rfl rfl
  rw [hof] at hof₁
  have hne : s₁.curproc ≠ L.nextProc := ne_of_lt hp
  rcases h with ⟨-, _, s₇, hdes, _, s₈, ⟨-, rfl⟩, -, rfl⟩ | ⟨has, Q', s₇, ⟨hQ₁, rfl⟩, _, s₈, ⟨-, rfl⟩, _,
    s₉, hcopy, _, s₁₀, ⟨-, rfl⟩, n, s₁₁, hput, err, s₁₂, hfork, h⟩
  · have hgone := sim_procDestroy hdes hwf.addRow hof₁
    exact .failed hgone
  · obtain ⟨-, hfork⟩ := of_threadFork hfork
    have hput := of_putProcOnProctable hput
    have hs' : Ledger.of s' = Ledger.of s₉ := by
      rcases h with ⟨-, -, rfl⟩ | ⟨-, -, rfl⟩
      · exact hfork.trans hput
      · exact hfork.trans hput
    rw [hs']
    simp only [Function.update_self, Option.some.injEq] at hQ₁
    subst hQ₁
    -- the new process has got its address space and still has the standard files
    have hload := of_loadProc (Q := { Q with pid := pid, ppid := P.pid, pAddrspace := true })
      (s := { s₁ with
        procs := Function.update s₁.procs L.nextProc
          (some { Q with pid := pid, ppid := P.pid }) }) (p := L.nextProc)
      (P := { Q with pid := pid, ppid := P.pid }) (by simp) rfl rfl
    rw [hof₁] at hload
    have hstart : (L.addRow.load L.nextProc).row L.nextProc = L.stdRow := by
      simp [Ledger.load, Ledger.addRow]
    have hparent : (L.addRow.load L.nextProc).row s₁.curproc = L.row s₁.curproc := by
      simp [Ledger.load, Ledger.addRow, hne]
    have hlt : L.nextProc < L.addRow.nextProc := Nat.lt_succ_self _
    obtain ⟨hsh, hrow⟩ := sim_copyPFiletable hcopy (hwf.addRow.load hlt) hload hne hlt
      (by simp [Ledger.load]) (fun i r hr => by
        rw [hstart] at hr
        obtain ⟨hi, rfl⟩ := Ledger.stdRow_eq_some hwf hr
        exact hi)
    refine .forked (hforks (not_not.1 has)) hsh fun i => ?_
    rw [hrow i, hstart, hparent]

theorem sim_sysFork {env : ForkEnv} {ret : Int} {s s' : Kernel} (hwf : (Ledger.of s).WF)
    (hp : s.curproc < s.nextProc) (h : Runs (sysFork env) s ret s') :
    ForkEffect s.curproc (Forks s env) (Ledger.of s) (Ledger.of s') := by
  simp only [sysFork, runs_bind, runs_get, runs_ite, runs_pure] at h
  obtain ⟨t, s₁, ⟨rfl, rfl⟩, h⟩ := h
  rcases h with ⟨-, -, rfl⟩ | ⟨hroom, ⟨-, -, rfl⟩ | ⟨htf, x, s₂, hcreate, h⟩⟩
  · exact .none rfl
  · exact .none rfl
  · rcases of_procCreateRunprogram hcreate with ⟨rfl, rfl⟩ | ⟨rfl, halloc, hcur, hof⟩
    · simp only [runs_pure] at h
      obtain ⟨-, rfl⟩ := h
      exact .none rfl
    · simp only at h
      rw [← hcur]
      exact sim_forkInto hwf hof (hcur ▸ hp)
        (fun has => ⟨hroom, by simpa using htf, halloc, has⟩) h

end Os161.Syscall

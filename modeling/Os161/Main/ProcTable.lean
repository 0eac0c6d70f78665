import Os161.Main.Calls
import Os161.Proc.Roster

set_option autoImplicit false

/-!
# The process table over whole runs

Every entry of the process table is a process that exists, no two entries have one pid, and the
counter counts the entries, in every run in which the menu starts programs one after another and
all of them load. A program that does not load, or whose thread cannot be created, is destroyed
while it is on the table; and a process that cannot be created is counted all the same.
-/

namespace Os161.Main

open Os161.Lib.Program
open Os161.Lib.Runs
open Os161.Lib.Slots
open Os161.Vfs
open Os161.Proc
open Os161.Syscall

/-! ## What the calls do to the roster -/

instance (p : ProcRef) (r : FileRef) (v : VnodeRef) : Frame Bare.of (installFile p r v) := by
  unfold installFile
  refine Frame.seq fun _ => Frame.seq fun _ => Frame.seq fun _ => Frame.seq fun _ => ?_
  infer_instance

instance (p : ProcRef) (flags : BitVec 32) (env : OpenEnv) :
    Frame Bare.of (openPath p flags env) := by
  unfold openPath
  apply Frame.seq
  intro x
  cases x with
  | none => infer_instance
  | some r => cases accessOf flags <;> cases env.vfsOpen <;> infer_instance

instance (filename : Option UserPtr) (flags : BitVec 32) (env : OpenEnv) :
    Frame Bare.of (sysOpen filename flags env) := by
  unfold sysOpen
  apply Frame.seq
  intro s
  split
  · infer_instance
  · split
    · infer_instance
    · exact Frame.seq fun _ => Frame.seq fun _ => inferInstance

instance (p : ProcRef) (fd : Int) (r : FileRef) : Frame Roster.of (closeFound p fd r) := by
  unfold closeFound
  infer_instance

instance (fd : Int) : Frame Roster.of (sysClose fd) := by
  unfold sysClose
  refine Frame.seq fun _ => Frame.seq fun _ => Frame.seq fun x => ?_
  cases x <;> infer_instance

instance (p : ProcRef) (oldfd newfd : Int) (alloc : Bool) :
    Frame Bare.of (dupInto p oldfd newfd alloc) := by
  unfold dupInto
  infer_instance

instance (oldfd newfd : Int) (alloc : Bool) : Frame Bare.of (sysDup2 oldfd newfd alloc) := by
  unfold sysDup2
  infer_instance

theorem roster_procCreateRunprogram {alloc : Bool} {x : Option ProcRef} {s s' : Kernel}
    (h : Runs (procCreateRunprogram alloc) s x s') :
    (x = none ∧ alloc = false ∧ s' = s) ∨
      (x = some s.nextProc ∧ s'.curproc = s.curproc ∧ Roster.of s' = (Roster.of s).create) := by
  rcases runs_procCreateRunprogram h with hnone | ⟨rfl, -, Q, vn, hQ, rfl⟩
  · exact .inl hnone
  · refine .inr ⟨rfl, rfl, ?_⟩
    simp only [Roster.of, Roster.create, Roster.mk.injEq, true_and]
    funext q
    by_cases hq : q = s.nextProc
    · simp [hq, hQ.pid]
    · simp [hq]

theorem roster_putProcOnProctable {p : ProcRef} {n : Int} {s s' : Kernel}
    (h : Runs (putProcOnProctable (some p)) s n s') :
    s'.curproc = s.curproc ∧ Roster.of s' = (Roster.of s).put p := by
  rcases runs_putProcOnProctable h with ⟨hf, rfl⟩ | ⟨i, hf, rfl⟩
  · refine ⟨rfl, ?_⟩
    simp only [Roster.put, Roster.of, hf]
  · refine ⟨rfl, ?_⟩
    simp only [Roster.put, Roster.of, hf]

theorem roster_removeProcFromProctable {pid : Int} {u : Unit} {s s' : Kernel}
    (h : Runs (removeProcFromProctable pid) s u s') :
    s'.curproc = s.curproc ∧ Roster.of s' = (Roster.of s).remove pid := by
  have e : lastWith (fun p => (Roster.of s).pidOf p == some pid) (Roster.of s).procArray =
      slotByPid s pid := by
    unfold slotByPid
    congr 1
    funext p
    cases hP : s.procs p with
    | none => simp [Roster.of, hP]
    | some P => simp [Roster.of, hP]
  rcases runs_removeProcFromProctable h with ⟨hs, rfl⟩ | ⟨i, hs, rfl⟩
  · refine ⟨rfl, ?_⟩
    simp only [Roster.remove, e, hs]
  · refine ⟨rfl, ?_⟩
    simp only [Roster.remove, e, hs]
    rfl

theorem roster_procDestroy {p : ProcRef} {u : Unit} {s s' : Kernel}
    (h : Runs (procDestroy p) s u s') : Roster.of s' = (Roster.of s).destroy p := by
  simp only [procDestroy, runs_ite, runs_bind, runs_throw, false_and, exists_false, and_false,
    false_or, runs_readProc] at h
  obtain ⟨-, P, s₁, ⟨-, rfl⟩, _, s₂, hcwd, h⟩ := h
  obtain ⟨vn, rfl⟩ := runs_decrefCwd hcwd
  have hend : ∀ {t : Kernel}, Runs (procFree p) t u s' →
      Roster.of s' = (Roster.of t).destroy p := by
    intro t ht
    rw [runs_procFree ht]
    simp only [Roster.of, Roster.destroy, Roster.mk.injEq, true_and]
    funext q
    by_cases hq : q = p
    · simp [hq]
    · simp [hq]
  rcases h with ⟨-, _, s₃, hdestroy, h⟩ | ⟨-, h⟩
  · have hkeep : Roster.of s₃ = Roster.of _ := Frame.keeps _ _ _ hdestroy
    rw [hend h, hkeep]
    rfl
  · rw [hend h]
    rfl

theorem roster_threadFork {p : ProcRef} {result n : Int} {s s' : Kernel}
    (h : Runs (threadFork p result) s n s') : n = result ∧ Roster.of s' = Roster.of s := by
  simp only [threadFork, runs_ite, runs_bind, runs_readProc, runs_writeProc, runs_pure] at h
  rcases h with ⟨-, P, s₁, ⟨hP, rfl⟩, _, s₂, ⟨-, rfl⟩, rfl, rfl⟩ | ⟨-, rfl, rfl⟩
  · exact ⟨rfl, Roster.of_writeProc hP rfl⟩
  · exact ⟨rfl, rfl⟩

theorem roster_threadExit {u : Unit} {s s' : Kernel} (h : Runs threadExit s u s') :
    Roster.of s' = (Roster.of s).destroy s.curproc := by
  simp only [threadExit, runs_bind, runs_curproc, runs_readProc, runs_ite, runs_throw, false_and,
    exists_false, and_false, false_or, runs_writeProc] at h
  obtain ⟨p, s₁, ⟨rfl, rfl⟩, P, s₂, ⟨hP, rfl⟩, -, _, s₃, ⟨-, rfl⟩, h⟩ := h
  rw [roster_procDestroy h, Roster.of_writeProc hP]
  rfl

/-- `common_prog`: a process that cannot be created is put on the table as NULL; a new process is
put on the table, and destroyed again when it gets no thread. -/
theorem roster_commonProg {env : ProgEnv} {ret : Int} {s s' : Kernel}
    (h : Runs (commonProg env) s ret s') :
    (env.procCreate = false ∧ ∃ n, Runs (putProcOnProctable none) s n s') ∨
      Roster.of s' = (Roster.of s).create.put s.nextProc ∨
      (env.threadFork ≠ 0 ∧
        Roster.of s' = ((Roster.of s).create.put s.nextProc).destroy s.nextProc) := by
  simp only [commonProg, runs_bind] at h
  obtain ⟨x, s₁, hcreate, n, s₂, hput, h⟩ := h
  rcases roster_procCreateRunprogram hcreate with ⟨rfl, hfalse, rfl⟩ | ⟨rfl, -, hof⟩
  · simp only [runs_pure] at h
    obtain ⟨-, rfl⟩ := h
    exact .inl ⟨hfalse, n, hput⟩
  · simp only [runs_bind, runs_ite, runs_pure] at h
    obtain ⟨m, s₃, hfork, h⟩ := h
    obtain ⟨rfl, hof₃⟩ := roster_threadFork hfork
    rw [(roster_putProcOnProctable hput).2, hof] at hof₃
    rcases h with ⟨hfail, _, s₄, hdes, -, rfl⟩ | ⟨-, -, rfl⟩
    · refine .inr (.inr ⟨hfail, ?_⟩)
      rw [roster_procDestroy hdes, hof₃]
    · exact .inr (.inl hof₃)

theorem roster_cmdProgthread {result : LoadResult} {u : Unit} {s s' : Kernel}
    (h : Runs (cmdProgthread result) s u s') :
    (result = .running ∧ Roster.of s' = Roster.of s) ∨
      (result ≠ .running ∧ Roster.of s' = (Roster.of s).destroy s.curproc) := by
  simp only [cmdProgthread, runs_bind, runs_curproc, runs_readProc] at h
  obtain ⟨p, s₁, ⟨rfl, rfl⟩, P, s₂, ⟨hP, rfl⟩, h⟩ := h
  cases result with
  | running =>
      simp only [runs_writeProc] at h
      obtain ⟨-, rfl⟩ := h
      exact .inl ⟨rfl, Roster.of_writeProc hP rfl⟩
  | noAddrspace => exact .inr ⟨by simp, roster_threadExit h⟩
  | afterSetas =>
      simp only [runs_bind, runs_writeProc] at h
      obtain ⟨_, s₃, ⟨-, rfl⟩, h⟩ := h
      refine .inr ⟨by simp, ?_⟩
      rw [roster_threadExit h, Roster.of_writeProc hP]
      rfl

theorem roster_forkInto {q : ProcRef} {env : ForkEnv} {ret : Int} {s s' : Kernel}
    (h : Runs (forkInto q env) s ret s') :
    Roster.of s' = ((Roster.of s).number q).destroy q ∨
      Roster.of s' = ((Roster.of s).number q).put q := by
  simp only [forkInto, runs_bind, runs_curproc, runs_lockAcquire, runs_readProc, runs_writeProc,
    runs_ite, runs_lockRelease, runs_pure] at h
  obtain ⟨p, s₁, ⟨rfl, rfl⟩, _, s₂, ⟨-, rfl⟩, pid, s₃, hpid, P, s₄, ⟨-, rfl⟩, Q, s₅, ⟨-, rfl⟩, _, s₆,
    ⟨-, hs₆⟩, h⟩ := h
  obtain ⟨rfl, rfl⟩ := runs_getNextPid hpid
  -- the new process has got the next pid
  have hnum : Roster.of s₆ = (Roster.of s₁).number q := by
    rw [hs₆]
    simp only [Roster.of, Roster.number, Roster.mk.injEq, true_and]
    funext q'
    by_cases hq : q' = q
    · simp [hq]
    · simp [hq]
  rcases h with ⟨-, _, s₇, hdes, _, s₈, ⟨-, rfl⟩, -, rfl⟩ | ⟨-, Q', s₇, ⟨hQ', rfl⟩, _, s₈, ⟨-, hs₈⟩,
    _, s₉, hcopy, _, s₁₀, ⟨-, rfl⟩, n, s₁₁, hput, err, s₁₂, hfork, h⟩
  · left
    have hd := roster_procDestroy hdes
    rw [hnum] at hd
    exact hd
  · right
    have hs' : s' = s₁₂ := by
      rcases h with ⟨-, -, rfl⟩ | ⟨-, -, rfl⟩ <;> rfl
    have hload : Roster.of s₈ = Roster.of s₇ := by
      rw [hs₈]
      exact Roster.of_writeProc hQ' rfl
    have hcopied : Roster.of s₉ = Roster.of s₈ := Frame.keeps _ _ _ hcopy
    rw [hs', (roster_threadFork hfork).2, (roster_putProcOnProctable hput).2, ← hnum, ← hload,
      ← hcopied]
    rfl

/-- `fork` does nothing, uses up a pid for a process that it destroys, or puts a new process with
the next pid on the table. -/
theorem roster_sysFork {env : ForkEnv} {ret : Int} {s s' : Kernel}
    (h : Runs (sysFork env) s ret s') :
    Roster.of s' = Roster.of s ∨
      Roster.of s' = ((Roster.of s).create.number s.nextProc).destroy s.nextProc ∨
      Roster.of s' = ((Roster.of s).create.number s.nextProc).put s.nextProc := by
  simp only [sysFork, runs_bind, runs_get, runs_ite, runs_pure] at h
  obtain ⟨t, s₁, ⟨rfl, rfl⟩, h⟩ := h
  rcases h with ⟨-, -, rfl⟩ | ⟨-, ⟨-, -, rfl⟩ | ⟨-, x, s₂, hcreate, h⟩⟩
  · exact .inl rfl
  · exact .inl rfl
  rcases roster_procCreateRunprogram hcreate with ⟨rfl, -, rfl⟩ | ⟨rfl, -, hof⟩
  · simp only [runs_pure] at h
    obtain ⟨-, rfl⟩ := h
    exact .inl rfl
  · rw [← hof]
    exact .inr (roster_forkInto h)

/-- `_exit` clears the entry with the pid of the process and destroys the process. -/
theorem roster_sysExit {exitcode : BitVec 32} {alloc : Bool} {u : Unit} {s s' : Kernel}
    (h : Runs (sysExit exitcode alloc) s u s') :
    ∃ n, (Roster.of s).pidOf s.curproc = some n ∧
      Roster.of s' = ((Roster.of s).remove n).destroy s.curproc := by
  have hend : ∀ {p P} {t : Kernel}, Runs (exitEnd p P) t u s' → Roster.of t = Roster.of s →
      t.curproc = s.curproc →
      Roster.of s' = ((Roster.of s).remove P.pid).destroy s.curproc := by
    intro p P t ht hofs hcurs
    simp only [exitEnd, runs_bind, runs_lockRelease] at ht
    obtain ⟨_, s₁, hremove, _, s₂, ⟨-, rfl⟩, hexit⟩ := ht
    obtain ⟨hcur, hof⟩ := roster_removeProcFromProctable hremove
    rw [roster_threadExit hexit, ← hofs, ← hof, ← hcurs, ← hcur]
    rfl
  simp only [sysExit, runs_bind, runs_curproc, runs_lockAcquire, runs_readProc] at h
  obtain ⟨p, s₁, ⟨rfl, rfl⟩, _, s₂, ⟨-, rfl⟩, P, s₃, ⟨hP, rfl⟩, x, s₄, href, _, s₅, hrem, h⟩ := h
  obtain ⟨rfl, rfl⟩ := runs_getReferenceByPid href
  obtain rfl := runs_remAllExitCodes hrem
  refine ⟨P.pid, congrArg (Option.map Os161.Proc.pid) hP, ?_⟩
  generalize hx : (slotByPid _ _).bind _ = x at h
  cases x with
  | none =>
      simp only at h
      exact hend h rfl rfl
  | some q =>
      simp only [postToParent, runs_bind, runs_readProc, runs_lockAcquire, runs_lockRelease] at h
      obtain ⟨_, s₆, ⟨Q, s₇, ⟨-, rfl⟩, _, s₈, ⟨-, rfl⟩, _, s₉, hpost, -, rfl⟩, h⟩ := h
      obtain ⟨codes, rfl⟩ := runs_postExitCode hpost
      exact hend h rfl rfl

/-! ## The table in every state of a run -/

theorem boot_roster_wf : (Roster.of boot).WF := by
  refine ⟨fun i p hi => ?_, fun i j p q n hi => ?_, ?_, fun p hp => ?_, fun i p n hi => ?_, ?_⟩
  · cases hi
  · cases hi
  · show (0 : Int) = used (fun _ => none : Table procMax ProcRef)
    rw [used, weigh_eq_zero fun i a ha => by cases ha]
    rfl
  · have hne : p ≠ kproc := by
      rintro rfl
      exact absurd hp (by decide)
    simp [Roster.of, boot, hne]
  · cases hi
  · decide

end Os161.Main

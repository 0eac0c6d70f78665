import Os161.Main.Numbers
import Os161.Main.ProcTable
import Os161.Main.Shapes

set_option autoImplicit false

/-!
# Closing a standard stream

A process has a slot and a flag for each standard stream. `close` of an original standard file
clears the flag and leaves the slot, and only the console paths of `read` and `write` look at
flags; `close` of anything else empties the slot. So a closed standard descriptor is closed for
every call only when the process had put a duplicate in its place before.

In runs that close no original standard file all flags stay set (`AllOpen`), and what a number
denotes is a matter of slots alone.
-/

namespace Os161.Main

open Os161.Lib.Program
open Os161.Lib.Runs
open Os161.Lib.Slots
open Os161.Vfs
open Os161.Proc
open Os161.Syscall

/-! ## The flags -/

/-- The flags of the three standard streams are set. -/
structure StreamsOpen (t : PFileTable) : Prop where
  stdin : t.stdinOpen = true
  stdout : t.stdoutOpen = true
  stderr : t.stderrOpen = true

/-- The flags are set in every process. -/
def AllOpen (s : Kernel) : Prop := ∀ p P, s.procs p = some P → StreamsOpen P.pFiletable

section Flags

variable {α : Type}

theorem keeps_of_procs {m : K α} (h : ∀ s a s', Runs m s a s' → s'.procs = s.procs) :
    Keeps AllOpen m fun _ => True := by
  intro s a s' hs hr
  refine ⟨fun p P hP => ?_, trivial⟩
  rw [h s a s' hr] at hP
  exact hs p P hP

theorem keeps_of_bare (m : K α) [Frame Bare.of m] : Keeps AllOpen m fun _ => True := by
  refine Keeps.of_frame Bare.of
    (J := fun B => ∀ p P, B.procs p = some P → StreamsOpen P.pFiletable) fun s => ?_
  -- what is left out of a bare process is not about the flags
  constructor
  · intro hs p P hP
    obtain ⟨Q, hQ, rfl⟩ := Option.map_eq_some_iff.1 hP
    obtain ⟨h₁, h₂, h₃⟩ := hs p Q hQ
    exact ⟨h₁, h₂, h₃⟩
  · intro hs p P hP
    obtain ⟨h₁, h₂, h₃⟩ := hs p (bareProc P) (congrArg (Option.map bareProc) hP)
    exact ⟨h₁, h₂, h₃⟩

theorem AllOpen.update {s : Kernel} (hs : AllOpen s) (p : ProcRef) {x : Option Os161.Proc}
    (hx : ∀ P, x = some P → StreamsOpen P.pFiletable) :
    ∀ q P, Function.update s.procs p x q = some P → StreamsOpen P.pFiletable := by
  intro q P hP
  rcases update_eq_some hP with ⟨-, hP⟩ | ⟨-, hP⟩
  · exact hx P hP
  · exact hs q P hP

theorem keeps_readProc (p : ProcRef) :
    Keeps AllOpen (readProc p) fun P => StreamsOpen P.pFiletable := by
  intro s P s' hs hr
  obtain ⟨hP, rfl⟩ := (runs_readProc _ _ _ _).1 hr
  exact ⟨hs, hs p P hP⟩

theorem keeps_writeProc (p : ProcRef) {P : Os161.Proc} (h : StreamsOpen P.pFiletable) :
    Keeps AllOpen (writeProc p P) fun _ => True := by
  intro s u s' hs hr
  obtain ⟨-, rfl⟩ := (runs_writeProc _ _ _ _ _).1 hr
  refine ⟨hs.update p fun Q hQ => ?_, trivial⟩
  cases hQ
  exact h

theorem keeps_procCreateRunprogram (alloc : Bool) :
    Keeps AllOpen (procCreateRunprogram alloc) fun _ => True := by
  have hcreate : Keeps AllOpen (procCreate alloc) fun _ => True := by
    intro s x s' hs hr
    simp only [procCreate, pFiletableCreate, runs_ite, runs_bind, runs_get, runs_modify,
      runs_pure] at hr
    rcases hr with ⟨-, t, s₁, ⟨u, s₂, ⟨rfl, rfl⟩, rfl, rfl⟩, w, s₃, ⟨rfl, rfl⟩, _, s₄, rfl, -, rfl⟩ |
      ⟨-, -, rfl⟩
    · -- a new table has its three flags set
      refine ⟨hs.update _ fun P hP => ?_, trivial⟩
      cases hP
      exact ⟨rfl, rfl, rfl⟩
    · exact ⟨hs, trivial⟩
  apply Keeps.bind hcreate
  intro x _
  cases x with
  | none => exact Keeps.pure trivial
  | some q =>
      apply Keeps.bind (keeps_of_bare curproc)
      intro p _
      apply Keeps.bind (keeps_readProc p)
      intro P _
      apply Keeps.bind (keeps_readProc q)
      intro Q hQ
      cases P.pCwd with
      | none => exact Keeps.pure trivial
      | some v =>
          refine Keeps.bind (keeps_of_procs fun s u s' hr => ?_) fun _ _ => ?_
          · rw [(runs_modify _ _ _ _).1 hr]
          · exact Keeps.bind (keeps_writeProc q hQ) fun _ _ => Keeps.pure trivial

theorem keeps_threadFork (p : ProcRef) (result : Int) :
    Keeps AllOpen (threadFork p result) fun _ => True := by
  refine Keeps.ite ?_ (Keeps.pure trivial)
  apply Keeps.bind (keeps_readProc p)
  intro P hP
  exact Keeps.bind (keeps_writeProc p hP) fun _ _ => Keeps.pure trivial

theorem keeps_procDestroy (p : ProcRef) : Keeps AllOpen (procDestroy p) fun _ => True := by
  have hfree : Keeps AllOpen (procFree p) fun _ => True := by
    intro s u s' hs hr
    rw [runs_procFree hr]
    refine ⟨hs.update p fun P hP => ?_, trivial⟩
    cases hP
  refine Keeps.ite (Keeps.throw _) (Keeps.bind (keeps_readProc p) fun P _ => ?_)
  refine Keeps.bind (keeps_of_procs fun s u s' hr => ?_) fun _ _ => Keeps.ite ?_ hfree
  · obtain ⟨vn, rfl⟩ := runs_decrefCwd hr
    rfl
  · -- the table is emptied, its flags are not touched
    exact Keeps.bind (keeps_of_bare (pFiletableDestroy p)) fun _ _ => hfree

theorem keeps_threadExit : Keeps AllOpen threadExit fun _ => True := by
  apply Keeps.bind (keeps_of_bare curproc)
  intro p _
  refine Keeps.bind (keeps_readProc p) fun P hP => Keeps.ite (Keeps.throw _) ?_
  exact Keeps.bind (keeps_writeProc p hP) fun _ _ => keeps_procDestroy p

theorem keeps_putProcOnProctable (x : Option ProcRef) :
    Keeps AllOpen (putProcOnProctable x) fun _ => True := by
  apply keeps_of_procs
  intro s n s' hr
  rcases runs_putProcOnProctable hr with ⟨-, rfl⟩ | ⟨i, -, rfl⟩ <;> rfl

theorem keeps_commonProg (env : ProgEnv) : Keeps AllOpen (commonProg env) fun _ => True := by
  apply Keeps.bind (keeps_procCreateRunprogram _)
  intro x _
  apply Keeps.bind (keeps_putProcOnProctable x)
  intro _ _
  cases x with
  | none => exact Keeps.pure trivial
  | some p =>
      refine Keeps.bind (keeps_threadFork p _) fun result _ => Keeps.ite ?_ (Keeps.pure trivial)
      exact Keeps.bind (keeps_procDestroy p) fun _ _ => Keeps.pure trivial

theorem keeps_cmdProgthread (result : LoadResult) :
    Keeps AllOpen (cmdProgthread result) fun _ => True := by
  apply Keeps.bind (keeps_of_bare curproc)
  intro p _
  apply Keeps.bind (keeps_readProc p)
  intro P hP
  cases result with
  | running => exact keeps_writeProc p hP
  | noAddrspace => exact keeps_threadExit
  | afterSetas => exact Keeps.bind (keeps_writeProc p hP) fun _ _ => keeps_threadExit

theorem keeps_forkInto (q : ProcRef) (env : ForkEnv) :
    Keeps AllOpen (forkInto q env) fun _ => True := by
  apply Keeps.bind (keeps_of_bare curproc)
  intro p _
  apply Keeps.bind (keeps_of_bare (lockAcquire _))
  intro _ _
  refine Keeps.bind (keeps_of_procs fun s n s' hr => ?_) fun pid _ => ?_
  · rw [(runs_getNextPid hr).2]
  apply Keeps.bind (keeps_readProc p)
  intro P _
  apply Keeps.bind (keeps_readProc q)
  intro Q hQ
  refine Keeps.bind (keeps_writeProc q hQ) fun _ _ => Keeps.ite ?_ ?_
  · apply Keeps.bind (keeps_procDestroy q)
    intro _ _
    exact Keeps.bind (keeps_of_bare (lockRelease _)) fun _ _ => Keeps.pure trivial
  · apply Keeps.bind (keeps_readProc q)
    intro Q' hQ'
    refine Keeps.bind (keeps_writeProc q hQ') fun _ _ => ?_
    -- the flags of the parent are not copied, and both are as in a new table
    apply Keeps.bind (keeps_of_bare (copyPFiletable p q))
    intro _ _
    apply Keeps.bind (keeps_of_bare (lockRelease _))
    intro _ _
    apply Keeps.bind (keeps_putProcOnProctable _)
    intro _ _
    apply Keeps.bind (keeps_threadFork q _)
    intro err _
    exact Keeps.ite (Keeps.pure trivial) (Keeps.pure trivial)

theorem keeps_sysFork (env : ForkEnv) : Keeps AllOpen (sysFork env) fun _ => True := by
  apply Keeps.bind (keeps_of_bare get)
  intro s _
  refine Keeps.ite (Keeps.pure trivial) (Keeps.ite (Keeps.pure trivial) ?_)
  apply Keeps.bind (keeps_procCreateRunprogram _)
  intro x _
  cases x with
  | none => exact Keeps.pure trivial
  | some q => exact keeps_forkInto q env

theorem keeps_exitEnd (p : ProcRef) (P : Os161.Proc) :
    Keeps AllOpen (exitEnd p P) fun _ => True := by
  refine Keeps.bind (keeps_of_procs fun s u s' hr => ?_) fun _ _ => ?_
  · rcases runs_removeProcFromProctable hr with ⟨-, rfl⟩ | ⟨i, -, rfl⟩ <;> rfl
  · exact Keeps.bind (keeps_of_bare (lockRelease _)) fun _ _ => keeps_threadExit

theorem keeps_sysExit (exitcode : BitVec 32) (alloc : Bool) :
    Keeps AllOpen (sysExit exitcode alloc) fun _ => True := by
  apply Keeps.bind (keeps_of_bare curproc)
  intro p _
  apply Keeps.bind (keeps_of_bare (lockAcquire _))
  intro _ _
  apply Keeps.bind (keeps_readProc p)
  intro P _
  refine Keeps.bind (keeps_of_procs fun s x s' hr => ?_) fun parent _ => ?_
  · rw [(runs_getReferenceByPid hr).2]
  refine Keeps.bind (keeps_of_procs fun s u s' hr => ?_) fun _ _ => ?_
  · rw [runs_remAllExitCodes hr]
  cases parent with
  | none => exact keeps_exitEnd p P
  | some q =>
      have hpost : Keeps AllOpen (postToParent q alloc exitcode P) fun _ => True := by
        apply Keeps.bind (keeps_readProc q)
        intro Q _
        apply Keeps.bind (keeps_of_bare (lockAcquire _))
        intro _ _
        refine Keeps.bind (keeps_of_procs fun s u s' hr => ?_) fun _ _ => keeps_of_bare _
        obtain ⟨codes, rfl⟩ := runs_postExitCode hr
        rfl
      exact Keeps.bind hpost fun _ _ => keeps_exitEnd p P

/-- `close` of anything but an original standard file keeps the flags. -/
theorem allOpen_sysClose {fd ret : Int} {s s' : Kernel} (hs : AllOpen s)
    (hdup : ∀ r f, lookupFd s s.curproc fd = some r → s.heap r = some f → ¬ StdOriginal f)
    (h : Runs (sysClose fd) s ret s') : AllOpen s' := by
  simp only [sysClose, runs_bind, runs_curproc, runs_lockAcquire] at h
  obtain ⟨p, s₁, ⟨rfl, rfl⟩, _, s₂, ⟨-, rfl⟩, x, s₃, hlook, h⟩ := h
  obtain ⟨rfl, rfl⟩ := runs_pFiletableLookup hlook
  generalize hx : lookupFd _ _ _ = x at h
  cases x with
  | none =>
      simp only [runs_bind, runs_lockRelease, runs_pure] at h
      obtain ⟨_, s₄, ⟨-, rfl⟩, -, rfl⟩ := h
      exact hs
  | some r =>
      simp only [closeFound, runs_bind, runs_readFile, runs_ite] at h
      obtain ⟨f, s₄, ⟨hf, rfl⟩, h⟩ := h
      rcases h with ⟨hstd, -⟩ | ⟨-, _, s₅, hclose, _, s₆, hrel, hret⟩
      · -- the branch that clears a flag is not taken
        exact absurd hstd (hdup r f hx hf)
      · have hs₅ := (keeps_of_bare _ _ _ _ (by exact hs) hclose).1
        obtain ⟨-, rfl⟩ := (runs_pure _ _ _ _).1 hret
        exact (keeps_of_bare _ _ _ _ hs₅ hrel).1

end Flags

/-! ## Calls on a descriptor that is closed, and on one that is not -/

/-- The calls on the descriptor `fd` of `p` fail with `EBADF`. -/
structure Closed (s : Kernel) (p : ProcRef) (fd : Int) : Prop where
  read : ∀ buf buflen env, ∃ s',
    Runs (sysRead fd (some buf) buflen env) { s with curproc := p } (fail .EBADF) s'
  write : ∀ buf buflen env, ∃ s',
    Runs (sysWrite fd (some buf) buflen env) { s with curproc := p } (fail .EBADF) s'
  /-- `dup2` of a number onto itself looks at no table. -/
  dup2 : ∀ newfd alloc, newfd ≠ fd → ∃ s',
    Runs (sysDup2 fd newfd alloc) { s with curproc := p } (fail .EBADF) s'
  close : ∃ s', Runs (sysClose fd) { s with curproc := p } (fail .EBADF) s'

/-- The calls on the descriptor `fd` of `p` go on with the file `r`, which is still `f`; and when
that is a standard stream, they reach the console. -/
structure Works (s : Kernel) (p : ProcRef) (fd : Int) (r : FileRef) (f : File) : Prop where
  finds : Finds s p fd r
  file : ∃ f', s.heap r = some f' ∧ Ledger.SameFile f f'
  read : f.stdFileStatus = 0 → ∀ buf buflen env,
    sysRead fd (some buf) buflen env { s with curproc := p } =
      readConsole buflen env { s with curproc := p }
  write : f.stdFileStatus = 1 ∨ f.stdFileStatus = 2 → ∀ buf buflen env,
    sysWrite fd (some buf) buflen env { s with curproc := p } =
      (do lockFile r; writeConsole r env) { s with curproc := p }

section Calls

variable {s : Kernel} {p : ProcRef} {fd : Int} {r : FileRef} {P : Os161.Proc} {f : File}

theorem closed_of_lookup (hP : s.procs p = some P) (hheld : s.held = fun _ => none)
    (halloc : ∀ i r, P.pFiletable.files i = some r → s.heap r ≠ none)
    (hlook : lookupFd s p fd = none) : Closed s p fd := by
  have hfail : ∃ s', Runs (do lockAcquire (.ops p); lockRelease (.ops p); pure (fail .EBADF))
      { s with curproc := p } (fail .EBADF) s' := by
    simp [hheld]
  -- `read`, `write` and `close` begin alike
  have hbind : ∀ {g : Option FileRef → K Int},
      g none = (do lockRelease (.ops p); pure (fail .EBADF)) →
      ∃ s', Runs (do lockAcquire (.ops p); let x ← pFiletableLookup p fd; g x)
        { s with curproc := p } (fail .EBADF) s' := by
    intro g hg
    obtain ⟨s', h⟩ := hfail
    refine ⟨s', ?_⟩
    unfold Runs at h ⊢
    rw [lookup_bind hP (by rw [hheld]) halloc hlook hg]
    exact h
  refine ⟨fun buf buflen env => hbind rfl, fun buf buflen env => hbind rfl,
    fun newfd alloc hne => ?_, hbind rfl⟩
  by_cases hrange : fd < 0 ∨ newfd < 0 ∨ newfd ≥ openMax
  · refine ⟨{ s with curproc := p }, ?_⟩
    rw [sysDup2, if_pos hrange]
    exact (runs_pure _ _ _ _).2 ⟨rfl, rfl⟩
  · -- both lookups come before the test
    have hlook' := fun n => pFiletableLookup_returns (s := { s with
      curproc := p, held := Function.update s.held (.ops p) (some p) }) hP (by simp [hheld]) halloc n
    rw [sysDup2, if_neg hrange, if_neg hne.symm]
    refine ⟨{ s with curproc := p }, ?_⟩
    simp only [runs_bind, runs_curproc, runs_lockAcquire, runs_ite, runs_lockRelease, runs_pure]
    refine ⟨p, _, ⟨rfl, rfl⟩, (), _, ⟨by rw [hheld], rfl⟩, none, _, ?_, _, _, hlook' newfd,
      .inl ⟨rfl, (), _, ⟨by simp, rfl⟩, trivial, ?_⟩⟩
    · rw [← hlook]
      exact hlook' fd
    · simp only [update_held_cancel (show s.held (.ops p) = none by rw [hheld])]

/-- What `read` and `write` do before they look at the flags: both locks are taken. -/
theorem found_bind {α : Type} (hP : s.procs s.curproc = some P) (hf : s.heap r = some f)
    (hheld : s.held = fun _ => none) (g : File → PFileTable → K α) :
    (do lockAcquire (.ops s.curproc); lockFile r; let f ← readFile r; let t ← readTable s.curproc
        g f t) s =
      g f P.pFiletable { s with
        held := Function.update (Function.update s.held (.ops s.curproc) (some s.curproc)) (.file r)
          (some s.curproc) } := by
  have h₁ : Runs (lockAcquire (.ops s.curproc)) s ()
      { s with held := Function.update s.held (.ops s.curproc) (some s.curproc) } :=
    (runs_lockAcquire _ _ _ _).2 ⟨by rw [hheld], rfl⟩
  have h₂ : Runs (lockFile r)
      { s with held := Function.update s.held (.ops s.curproc) (some s.curproc) } ()
      { s with
        held := Function.update (Function.update s.held (.ops s.curproc) (some s.curproc)) (.file r)
          (some s.curproc) } :=
    (runs_lockFile _ _ _ _).2 ⟨⟨f, hf⟩, by simp [hheld], rfl⟩
  rw [bind_of_runs h₁, bind_of_runs h₂, bind_of_runs ((runs_readFile _ _ _ _).2 ⟨by exact hf, rfl⟩),
    bind_of_runs ((runs_readTable _ _ _ _).2 ⟨⟨P, by exact hP, rfl⟩, rfl⟩)]

/-- The console path of `read`. -/
theorem readFound_console (hP : s.procs s.curproc = some P) (hf : s.heap r = some f)
    (hheld : s.held = fun _ => none) (hread : f.canRead = true) (hstd : f.stdFileStatus = 0)
    (hopen : P.pFiletable.stdinOpen = true) (buflen : Nat) (env : ReadEnv) :
    (do lockAcquire (.ops s.curproc); readFound s.curproc r buflen env) s =
      readConsole buflen env s := by
  have hops : s.held (.ops s.curproc) = none := by rw [hheld]
  have hfile : Function.update s.held (.ops s.curproc) (some s.curproc) (.file r) = none := by
    simp [hheld]
  have hnot : ¬ f.canRead = false := by simp [hread]
  unfold readFound
  rw [found_bind hP hf hheld, if_neg hnot, if_pos hstd]
  rw [bind_of_runs ((runs_lockRelease _ _ _ ()).2 ⟨by simp, rfl⟩),
    bind_of_runs ((runs_lockRelease _ _ _ ()).2 ⟨by simp, rfl⟩), if_pos hopen]
  simp only [update_held_cancel hfile, update_held_cancel hops]

/-- The console path of `write`. -/
theorem writeFound_console (hP : s.procs s.curproc = some P) (hf : s.heap r = some f)
    (hheld : s.held = fun _ => none) (hwrite : f.canWrite = true)
    (hstd : f.stdFileStatus = 1 ∨ f.stdFileStatus = 2) (hopen : P.pFiletable.stderrOpen = true)
    (buflen : Nat) (env : WriteEnv) :
    (do lockAcquire (.ops s.curproc); writeFound s.curproc r buflen env) s =
      (do lockFile r; writeConsole r env) s := by
  have hops : s.held (.ops s.curproc) = none := by rw [hheld]
  have hnot : ¬ f.canWrite = false := by simp [hwrite]
  have hlock : Runs (lockFile r) s ()
      { s with held := Function.update s.held (.file r) (some s.curproc) } :=
    (runs_lockFile _ _ _ _).2 ⟨⟨f, hf⟩, by rw [hheld], rfl⟩
  unfold writeFound
  rw [found_bind hP hf hheld, if_neg hnot, if_pos hstd, if_pos (.inl hopen)]
  rw [bind_of_runs ((runs_lockRelease _ _ _ ()).2 ⟨by simp, rfl⟩), bind_of_runs hlock]
  -- the locks are taken one after the other and released in the same order
  have hcomm : Function.update (Function.update (Function.update s.held (.ops s.curproc)
      (some s.curproc)) (.file r) (some s.curproc)) (.ops s.curproc) none =
      Function.update s.held (.file r) (some s.curproc) := by
    rw [Function.update_comm (by simp), update_held_cancel hops]
  simp only [hcomm]

theorem works_of_lookup (hP : s.procs p = some P) (hheld : s.held = fun _ => none)
    (halloc : ∀ i r, P.pFiletable.files i = some r → s.heap r ≠ none) (hlo : 0 ≤ fd)
    (hhi : fd < openMax) (hlook : lookupFd s p fd = some r) {f' : File} (hf' : s.heap r = some f')
    (hsame : Ledger.SameFile f f') (hshape : Shape f') (hopen : StreamsOpen P.pFiletable) :
    Works s p fd r f := by
  have hfinds := finds_of_lookup hP (by rw [hheld]) halloc hlo hhi hlook
  have hstd : f'.stdFileStatus = f.stdFileStatus := by rw [hsame]
  have hconsole : f.stdFileStatus ≠ -1 → f'.canRead = true ∧ f'.canWrite = true := by
    intro hne
    cases hshape with
    | console _ hread hwrite _ _ => exact ⟨hread, hwrite⟩
    | data hdata _ _ => exact absurd (hstd.symm.trans hdata) hne
  refine ⟨hfinds, ⟨f', hf', hsame⟩, fun h buf buflen env => ?_, fun h buf buflen env => ?_⟩
  · obtain ⟨hread, -⟩ := hconsole (by rw [h]; decide)
    rw [hfinds.read]
    exact readFound_console (s := { s with curproc := p }) hP hf' hheld hread (hstd.trans h)
      hopen.stdin buflen env
  · obtain ⟨-, hwrite⟩ := hconsole (by rcases h with h | h <;> rw [h] <;> decide)
    rw [hfinds.write]
    refine writeFound_console (s := { s with curproc := p }) hP hf' hheld hwrite ?_
      hopen.stderr buflen env
    rw [hstd]
    exact h

end Calls

/-! ## Closing a standard descriptor -/

/-- The action closes no original standard file, frees no duplicate that another slot refers to,
and opens no file under a number in use or with an access mode that does not make sense. -/
structure KeepsStreams (s : Kernel) (a : Action) : Prop where
  sole : ClosesSoleDups s a
  dup : ∀ fd r f, a.call = .close fd → lookupFd s a.caller fd = some r → s.heap r = some f →
    ¬ StdOriginal f
  number : ∀ filename flags env, a.call = .openFile filename flags env →
    Opens s a.caller filename flags env → (Ledger.of s).Unused a.caller s.gft.nextFd
  mode : sensibleMode s a = true

/-- `p` puts a file back under the number `fd`. -/
def Reestablishes (a : Action) (p : ProcRef) (fd : Int) : Prop :=
  a.caller = p ∧ ∃ oldfd alloc, a.call = .dup2 oldfd fd alloc

theorem allOpen_of_step {s s' : Kernel} {a : Action} (hs : AllOpen s) (hok : KeepsStreams s a)
    (h : step s a s') : AllOpen s' := by
  obtain ⟨p, call⟩ := a
  obtain ⟨-, ret, hrun⟩ := h
  have hs' : AllOpen { s with curproc := p } := hs
  cases call with
  | start env => exact (keeps_commonProg env _ _ _ hs' hrun).1
  | load result =>
      simp only [Call.run, runs_bind, runs_pure] at hrun
      obtain ⟨_, s₁, hrun, -, rfl⟩ := hrun
      exact (keeps_cmdProgthread result _ _ _ hs' hrun).1
  | openFile filename flags env => exact (keeps_of_bare (sysOpen _ _ _) _ _ _ hs' hrun).1
  | close fd => exact allOpen_sysClose hs' (fun r f => hok.dup fd r f rfl) hrun
  | dup2 oldfd newfd alloc => exact (keeps_of_bare (sysDup2 _ _ _) _ _ _ hs' hrun).1
  | fork env => exact (keeps_sysFork env _ _ _ hs' hrun).1
  | exit exitcode alloc =>
      simp only [Call.run, runs_bind, runs_pure] at hrun
      obtain ⟨_, s₁, hrun, -, rfl⟩ := hrun
      exact (keeps_sysExit exitcode alloc _ _ _ hs' hrun).1

theorem boot_allOpen : AllOpen boot := by
  intro p P hP
  by_cases hp : p = kproc
  · simp only [boot, hp, if_true, Option.some.injEq] at hP
    subst hP
    exact ⟨rfl, rfl, rfl⟩
  · simp [boot, hp] at hP

/-- What holds in every state of a run within the condition. -/
structure StreamsWF (s : Kernel) : Prop where
  wf : (Ledger.of s).WF
  shaped : (Ledger.of s).Shaped
  allOpen : AllOpen s
  held : s.held = fun _ => none

theorem streamsWF_of_reach {s : Kernel} (h : Reach step KeepsStreams boot s) : StreamsWF s where
  wf := wf_of_reach (fun _ _ ha => ha.sole) h
  shaped := shaped_of_reach (h.mono fun _ _ _ => trivial)
  allOpen := h.invariant (I := AllOpen) (fun _ _ _ ht ha hst => allOpen_of_step ht ha hst)
    boot_allOpen
  held := held_of_reach (h.mono fun _ _ ha => ha.mode)

section Closing

variable {s s' t : Kernel} {p q : ProcRef} {k fd : Int} {r : FileRef} {f : File}

/-- What a descriptor denotes: the process is loaded, and the number denotes the file `r`, which
is still `f`. -/
structure Denotes (L : Ledger) (p : ProcRef) (fd : Int) (r : FileRef) (f : File) : Prop where
  space : L.space p = some true
  lookup : L.lookup p fd = some r
  file : ∃ f', L.heap r = some f' ∧ Ledger.SameFile f f'

theorem Effect.denotes {a : Action} {L' : Ledger} (h : Effect s a (Ledger.of s) L')
    (hwf : (Ledger.of s).WF) (hok : KeepsStreams s a) (hkeep : ¬ Drops s a p fd)
    (hd : Denotes (Ledger.of s) p fd r f) : Denotes L' p fd r f := by
  obtain ⟨i, g, hi, hg, hfd⟩ := Ledger.lookup_eq_some hd.lookup
  obtain ⟨hstay, hspace⟩ := h.stay hwf hd.space hkeep
  have hnew : Ledger.NoneNew p fd (Ledger.of s) L' := by
    refine h.noneNew hwf (hwf.known p _ hd.space) ?_ ?_
    · -- `open` takes a number that the process does not use, so not this one
      intro filename flags env hcall hopens he
      have hun := hok.number _ _ _ hcall hopens
      rw [he] at hun
      rw [← hfd]
      exact (hun i r g hi hg).symm
    · -- a `dup2` onto the number would drop it first
      intro oldfd newfd alloc hcall hdup he hn
      refine hkeep ⟨he, .inl ?_⟩
      rw [ClosesNumber, hcall]
      exact ⟨hn, hdup⟩
  refine ⟨hspace, (Ledger.lookup_of_stay hstay hnew).trans hd.lookup, ?_⟩
  obtain ⟨f', hf', hsame⟩ := hd.file
  rw [hg] at hf'
  cases hf'
  obtain ⟨-, f'', hf'', hsame'⟩ := hstay i r g hi hg hfd
  exact ⟨f'', hf'', hsame.trans hsame'⟩

theorem works_of_denotes (hs : StreamsWF s) (hlo : 0 ≤ fd) (hhi : fd < openMax)
    (hd : Denotes (Ledger.of s) p fd r f) : Works s p fd r f := by
  obtain ⟨i, g, hi, -, -⟩ := Ledger.lookup_eq_some hd.lookup
  obtain ⟨P, hP, -⟩ := exists_proc_of_row hi
  obtain ⟨f', hf', hsame⟩ := hd.file
  refine works_of_lookup hP hs.held ?_ hlo hhi ((lookupFd_eq s p fd).trans hd.lookup) hf' hsame
    (hs.shaped.shape p i r f' hi hf') (hs.allOpen p P hP)
  exact fun j r' hr' => (noDangling_of_wf hs.wf).process p P j r' hP hr'

/-- `close` returns zero only for a number that denotes a file. -/
theorem lookup_of_sysClose {s s' : Kernel} {fd : Int} (h : Runs (sysClose fd) s 0 s') :
    ∃ r, lookupFd s s.curproc fd = some r := by
  simp only [sysClose, runs_bind, runs_curproc, runs_lockAcquire] at h
  obtain ⟨p, s₁, ⟨rfl, rfl⟩, _, s₂, ⟨-, rfl⟩, x, s₃, hlook, h⟩ := h
  obtain ⟨rfl, rfl⟩ := runs_pFiletableLookup hlook
  generalize hx : lookupFd _ _ _ = x at h
  cases x with
  | none =>
      simp only [runs_bind, runs_lockRelease, runs_pure] at h
      obtain ⟨_, s₄, -, hret, -⟩ := h
      exact absurd hret (by decide)
  | some r => exact ⟨r, hx⟩

theorem closesSlots_of_sysClose (hok : KeepsStreams s ⟨p, .close k⟩)
    (h : Runs (sysClose k) { s with curproc := p } 0 s') : ClosesSlots (Ledger.of s) p k := by
  obtain ⟨r, hr⟩ := lookup_of_sysClose h
  have hlook : lookupFd s p k = some r := hr
  have hlook' := hlook
  rw [lookupFd_eq] at hlook'
  obtain ⟨i, f, -, hf, -⟩ := Ledger.lookup_eq_some hlook'
  exact ⟨r, f, hlook', hf, hok.dup k r f rfl hlook hf⟩

/-- A standard number without slots gets none until its process puts a file back. -/
theorem unused_of_reach (hs : (Ledger.of s).WF) (hlt : p < (Ledger.of s).nextProc) (hk : k < 3)
    (hun : (Ledger.of s).Unused p k)
    (h : Reach step (fun u a => KeepsStreams u a ∧ ¬ Reestablishes a p k) s t) :
    (Ledger.of t).Unused p k := by
  have key : (Ledger.of t).WF ∧ p < (Ledger.of t).nextProc ∧ (Ledger.of t).Unused p k := by
    refine h.invariant (I := fun t => (Ledger.of t).WF ∧ p < (Ledger.of t).nextProc ∧
      (Ledger.of t).Unused p k) (fun u a u' hI ha hst => ?_) ⟨hs, hlt, hun⟩
    obtain ⟨hwf, hlt, hun⟩ := hI
    have heff := effect_of_step hwf ha.1.sole hst
    refine ⟨heff.wf hwf, lt_of_lt_of_le hlt heff.nextProc_le, hun.of_noneNew ?_⟩
    refine heff.noneNew hwf hlt (fun _ _ _ _ _ _ => ?_) fun oldfd newfd alloc hcall _ he hn => ?_
    · -- numbers of `open` begin at 3
      have h3 : 3 ≤ u.gft.nextFd := hwf.nextFd
      omega
    · subst hn
      exact ha.2 ⟨he, oldfd, alloc, hcall⟩
  exact key.2.2

theorem denotes_of_reach (hs : (Ledger.of s).WF) (hd : Denotes (Ledger.of s) q fd r f)
    (h : Reach step (fun u a => KeepsStreams u a ∧ ¬ Drops u a q fd) s t) :
    Denotes (Ledger.of t) q fd r f := by
  have key : (Ledger.of t).WF ∧ Denotes (Ledger.of t) q fd r f := by
    refine h.invariant (I := fun t => (Ledger.of t).WF ∧ Denotes (Ledger.of t) q fd r f)
      (fun u a u' hI ha hst => ?_) ⟨hs, hd⟩
    have heff := effect_of_step hI.1 ha.1.sole hst
    exact ⟨heff.wf hI.1, heff.denotes hI.1 ha.1 ha.2 hI.2⟩
  exact key.2

/-- In a run that closes no original standard file, a `close` of a standard descriptor closes it
for every call until its process puts a file back, and every other descriptor goes on working
until it is closed itself. -/
theorem closed_and_works_of_keepsStreams (h : Reach step KeepsStreams boot s)
    (hready : userThread s p true = true) (hk : k < 3) (hok : KeepsStreams s ⟨p, .close k⟩)
    (hrun : Runs (sysClose k) { s with curproc := p } 0 s') :
    (∀ t, Reach step (fun u a => KeepsStreams u a ∧ ¬ Reestablishes a p k) s' t →
      userThread t p true = true → Closed t p k) ∧
    ∀ q (fd : Int) r f, userThread s q true = true → 0 ≤ fd → fd < openMax → ¬ (q = p ∧ fd = k) →
      lookupFd s q fd = some r → s.heap r = some f →
      ∀ t, Reach step (fun u a => KeepsStreams u a ∧ ¬ Drops u a q fd) s' t → Works t q fd r f := by
  have hwf := (streamsWF_of_reach h).wf
  have hst : step s ⟨p, .close k⟩ s' := ⟨hready, 0, hrun⟩
  have hreach : Reach step KeepsStreams boot s' := h.tail hok hst
  constructor
  · -- the closed descriptor: its number has no slot, and gets none
    intro t ht halive
    have hlt := hwf.known p _ (space_of_userThread hready)
    have hcl := closesSlots_of_sysClose hok hrun
    rcases sim_sysClose (s := { s with curproc := p }) hwf (fun hcl => hok.sole k ⟨rfl, hcl⟩) hrun with
      ⟨hno, -⟩ | ⟨-, hcloses, hun⟩
    · exact absurd hcl hno
    have hlt' : p < (Ledger.of s').nextProc := by
      rw [hcloses.shrinks.nextProc]
      exact hlt
    have hunt := unused_of_reach (streamsWF_of_reach hreach).wf hlt' hk hun ht
    have hwft := streamsWF_of_reach (hreach.trans (ht.mono fun _ _ ha => ha.1))
    obtain ⟨P, hP⟩ := exists_proc_of_userThread halive
    refine closed_of_lookup hP hwft.held
      (fun i r hr => (noDangling_of_wf hwft.wf).process p P i r hP hr) ?_
    rw [lookupFd_eq]
    cases hl : (Ledger.of t).lookup p k with
    | none => rfl
    | some r =>
        obtain ⟨i, f, hi, hf, hfd⟩ := Ledger.lookup_eq_some hl
        exact absurd hfd (hunt i r f hi hf)
  · -- any other descriptor: the close does not drop it, and nothing after it does
    intro q fd r f hq hlo hhi hne hlook hf t ht
    rw [lookupFd_eq] at hlook
    have hkeep : ¬ Drops s ⟨p, .close k⟩ q fd := by
      rintro ⟨he, ⟨hn, -⟩ | hends⟩
      · exact hne ⟨he.symm, hn.symm⟩
      · exact hends
    have hd : Denotes (Ledger.of s') q fd r f :=
      (effect_of_step hwf hok.sole hst).denotes hwf hok hkeep
        ⟨space_of_userThread hq, hlook, f, hf, rfl⟩
    have hwft := streamsWF_of_reach (hreach.trans (ht.mono fun _ _ ha => ha.1))
    exact works_of_denotes hwft hlo hhi
      (denotes_of_reach (streamsWF_of_reach hreach).wf hd ht)

end Closing

/-- `KeepsStreams`, computed. -/
def keepsStreams (s : Kernel) (a : Action) : Bool :=
  closesSoleDups s a && sensibleMode s a &&
    match a.call with
    | .close fd => (lookupFd s a.caller fd).all fun r => (s.heap r).all fun f =>
        f.isDupe || (f.stdFileStatus != 0 && f.stdFileStatus != 1 && f.stdFileStatus != 2)
    | .openFile .. => unused (Ledger.of s) a.caller s.gft.nextFd
    | _ => true

theorem keepsStreams_sound {s : Kernel} {a : Action} (hwf : (Ledger.of s).WF)
    (h : keepsStreams s a = true) : KeepsStreams s a := by
  obtain ⟨p, call⟩ := a
  obtain ⟨hboth, hcall⟩ := Bool.and_eq_true_iff.1 h
  obtain ⟨hsole, hmode⟩ := Bool.and_eq_true_iff.1 hboth
  refine ⟨closesSoleDups_sound hwf hsole, ?_, ?_, hmode⟩
  · rintro fd r f rfl hr hf ⟨hdupe, hstd⟩
    simp only [hr, hf, hdupe, Option.all_some, Bool.false_or, Bool.and_eq_true,
      bne_iff_ne] at hcall
    omega
  · rintro filename flags env rfl -
    exact unused_sound hcall

/-- The action puts a file under the number `fd` of its caller. -/
def bringsBack (fd : Int) (a : Action) : Bool :=
  match a.call with
  | .dup2 _ n _ => n == fd
  | _ => false

theorem bringsBack_sound {a : Action} {p : ProcRef} {fd : Int} (h : bringsBack fd a = false) :
    ¬ Reestablishes a p fd := by
  rintro ⟨-, oldfd, alloc, hcall⟩
  simp [bringsBack, hcall] at h

/-- Standard input is duplicated over standard output, after a child has inherited both. -/
def redirectRun : List Action := startOne ++ [⟨1, .fork forkOk⟩, ⟨1, .dup2 0 1 true⟩]

/-- What happens after the duplicate has been closed. -/
def redirectTail : List Action := [⟨1, .fork forkOk⟩, ⟨2, .dup2 0 5 true⟩]

/-- Descriptor 1 is closed in the first process, and works in its child. -/
theorem closed_and_works_redirectRun : ∃ s s' t r f, execChecked keepsStreams boot redirectRun = some s ∧
    Runs (sysClose 1) { s with curproc := 1 } 0 s' ∧
    execChecked (fun u a => keepsStreams u a && !bringsBack 1 a && leavesNumber 1 a) s' redirectTail =
      some t ∧ Closed t 1 1 ∧ Works t 2 1 r f := by
  have hrun : ((execChecked keepsStreams boot redirectRun).any fun s =>
      userThread s 1 true && userThread s 2 true && keepsStreams s ⟨1, .close 1⟩ &&
      ((lookupFd s 2 1).any fun r => (s.heap r).isSome) &&
      tested (sysClose 1) { s with curproc := 1 } fun ret s' => ret == 0 &&
        (execChecked (fun u a => keepsStreams u a && !bringsBack 1 a && leavesNumber 1 a) s'
          redirectTail).any fun t => userThread t 1 true) = true := by decide +kernel
  obtain ⟨s, hs, hrun⟩ := (Option.any_eq_true _ _).1 hrun
  simp only [Bool.and_eq_true] at hrun
  obtain ⟨⟨⟨⟨hready, hready'⟩, hok⟩, hlook⟩, hclose⟩ := hrun
  obtain ⟨r, hr, hf⟩ := (Option.any_eq_true _ _).1 hlook
  obtain ⟨f, hf⟩ := Option.isSome_iff_exists.1 hf
  obtain ⟨ret, s', hret, hafter⟩ := runs_of_tested hclose
  obtain ⟨hzero, htail⟩ := Bool.and_eq_true_iff.1 hafter
  obtain ⟨t, ht, halive⟩ := (Option.any_eq_true _ _).1 htail
  have hzero' : ret = 0 := by simpa using hzero
  subst hzero'
  have hreach : Reach step KeepsStreams boot s :=
    reach_of_execChecked (fun u a hu hc => keepsStreams_sound (streamsWF_of_reach hu).wf hc)
      redirectRun .refl hs
  have hok' := keepsStreams_sound (streamsWF_of_reach hreach).wf hok
  have hreach' : Reach step KeepsStreams boot s' := hreach.tail hok' ⟨hready, 0, hret⟩
  have htail' : Reach step (fun u a => KeepsStreams u a ∧ ¬ Reestablishes a 1 1 ∧ ¬ Drops u a 2 1)
      s' t := by
    refine reach_of_execChecked (fun u a hu hc => ?_) redirectTail .refl ht
    obtain ⟨hboth, hleaves⟩ := Bool.and_eq_true_iff.1 hc
    obtain ⟨hkeeps, hback⟩ := Bool.and_eq_true_iff.1 hboth
    have hreach'' := hreach'.trans (hu.mono fun _ _ ha => ha.1)
    exact ⟨keepsStreams_sound (streamsWF_of_reach hreach'').wf hkeeps,
      bringsBack_sound (by simpa using hback), leavesNumber_sound hleaves⟩
  obtain ⟨hclosed, hworks⟩ :=
    closed_and_works_of_keepsStreams hreach hready (by decide) hok' hret
  refine ⟨s, s', t, r, f, hs, hret, ht, ?_, ?_⟩
  · exact hclosed t (htail'.mono fun _ _ ha => ⟨ha.1, ha.2.1⟩) halive
  · exact hworks 2 1 r f hready' (by decide) (by decide) (by simp) hr hf t
      (htail'.mono fun _ _ ha => ⟨ha.1, ha.2.2⟩)

/-- A second `close` of standard output succeeds. -/
theorem not_closed_of_anyStep : ¬ ∀ s p (k : Int) s', Reach step anyStep boot s →
    userThread s p true = true → 0 ≤ k → k < 3 → Runs (sysClose k) { s with curproc := p } 0 s' →
    Closed s' p k := by
  intro h
  have hrun : ((execAll boot startOne).any fun s => userThread s 1 true &&
      tested (sysClose 1) { s with curproc := 1 } fun ret s' => ret == 0 &&
        tested (sysClose 1) { s' with curproc := 1 } fun ret' _ => ret' == 0) = true := by
    decide +kernel
  obtain ⟨s, hs, hrun⟩ := (Option.any_eq_true _ _).1 hrun
  obtain ⟨hready, hclose⟩ := Bool.and_eq_true_iff.1 hrun
  obtain ⟨ret, s', hret, hafter⟩ := runs_of_tested hclose
  obtain ⟨hzero, hagain⟩ := Bool.and_eq_true_iff.1 hafter
  have hzero' : ret = 0 := by simpa using hzero
  subst hzero'
  obtain ⟨ret', s'', hret', hzero'⟩ := runs_of_tested hagain
  have hzero'' : ret' = 0 := by simpa using hzero'
  subst hzero''
  obtain ⟨u, hu⟩ := (h s 1 1 s' (reach_of_execAll startOne .refl hs) hready (by decide)
    (by decide) hret).close
  exact absurd (Runs.det hu hret').1 (by decide)

end Os161.Main

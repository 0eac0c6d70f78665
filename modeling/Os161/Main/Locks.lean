import Os161.Main.Calls
import Os161.Syscall.LockBalance

set_option autoImplicit false

/-!
# Locks at the end of a system call

A thread that enters the kernel holds no lock. When the handler returns it holds none again, with
two exceptions: `open` keeps the `ops_lock` when the access mode does not make sense, and `read`
keeps the `file_lock` when the buffer of a file that is not standard input cannot be allocated.
-/

namespace Os161.Main

open Os161.Lib.Program
open Os161.Lib.Runs
open Os161.Lib.Slots
open Os161.Vfs
open Os161.Proc
open Os161.Syscall
open Os161.Syscall.LockBalance

variable {α : Type}

/-! ## Requests -/

/-- A system call with its arguments and the answers it gets. -/
inductive Request where
  | openFile (filename : Option UserPtr) (flags : BitVec 32) (env : OpenEnv)
  | close (fd : Int)
  | read (fd : Int) (buf : Option UserPtr) (buflen : Nat) (env : ReadEnv)
  | write (fd : Int) (buf : Option UserPtr) (buflen : Nat) (env : WriteEnv)
  | lseek (fd pos whence : Int) (env : LseekEnv)
  | dup2 (oldfd newfd : Int) (alloc : Bool)
  | fork (env : ForkEnv)
  | waitpid (pid : Int) (status : StatusArg) (options : Int) (wakes : List ExitCodes)
  | getpid
  | chdir (copyinstr vfsChdir : Int)
  | getcwd (buf : Option UserPtr) (buflen : Nat) (copyinstr vfsGetcwd : Int) (uioResid : Nat)

/-- The handler of a request. -/
def handle : Request → K Int
  | .openFile filename flags env => sysOpen filename flags env
  | .close fd => sysClose fd
  | .read fd buf buflen env => sysRead fd buf buflen env
  | .write fd buf buflen env => sysWrite fd buf buflen env
  | .lseek fd pos whence env => sysLseek fd pos whence env
  | .dup2 oldfd newfd alloc => sysDup2 oldfd newfd alloc
  | .fork env => sysFork env
  | .waitpid pid status options wakes => do
      let r ← sysWaitpid pid status options wakes
      pure r.err
  | .getpid => sysGetpid
  | .chdir copyinstr vfsChdir => sysChdir copyinstr vfsChdir
  | .getcwd buf buflen copyinstr vfsGetcwd uioResid =>
      sysGetcwd buf buflen copyinstr vfsGetcwd uioResid

/-- The running thread holds no lock. -/
def HoldsNoLock (s : Kernel) : Prop := ∀ l, s.held l ≠ some s.curproc

/-- `open` gets past its other checks and meets an access mode that does not make sense. -/
structure OpenLeaks (s : Kernel) (filename : Option UserPtr) (flags : BitVec 32)
    (env : OpenEnv) : Prop where
  filename : filename ≠ none
  gtable : s.gft.size ≠ openMax
  ptable : ∀ P, s.procs s.curproc = some P → P.pFiletable.size ≠ openMax
  path : env.kmallocPath = true
  copied : env.copyinstr ≠ Errno.EFAULT.code
  file : env.createFile = true
  mode : accmode flags = 3

/-- `read` finds a readable file that is not standard input, and has no memory for its buffer. -/
structure ReadLeaks (s : Kernel) (fd : Int) (buf : Option UserPtr) (env : ReadEnv) : Prop where
  buf : buf ≠ none
  memory : env.kmalloc = false
  found : ∃ r f, lookupFd s s.curproc fd = some r ∧ s.heap r = some f ∧ f.canRead = true ∧
    f.stdFileStatus ≠ 0

/-- The requests that return with a lock. -/
def Leaks (s : Kernel) : Request → Prop
  | .openFile filename flags env => OpenLeaks s filename flags env
  | .read fd buf _ env => ReadLeaks s fd buf env
  | _ => False

theorem holdsNoLock_of_balanced {m : K α} (hm : Balanced m) {s s' : Kernel} {a : α}
    (h : Runs m s a s') (hs : HoldsNoLock s) : HoldsNoLock s' := by
  obtain ⟨hheld, hcur⟩ := hm s a s' (fun l hl => absurd hl List.not_mem_nil) h
  rw [drop_nil] at hheld
  intro l
  rw [hheld, hcur]
  exact hs l

theorem accmode_lt (flags : BitVec 32) : (accmode flags).toNat < 4 := by
  have h : (accmode flags).toNat ≤ 3 := by
    simpa [accmode, BitVec.toNat_and] using Nat.and_le_right
  omega

theorem accessOf_eq_none (flags : BitVec 32) : accessOf flags = none ↔ accmode flags = 3 := by
  have hlt := accmode_lt flags
  unfold accessOf
  constructor
  · intro h
    split_ifs at h with h0 h1 h2
    apply BitVec.eq_of_toNat_eq
    have e0 : (accmode flags).toNat ≠ 0 := fun e => h0 (BitVec.eq_of_toNat_eq e)
    have e1 : (accmode flags).toNat ≠ 1 := fun e => h1 (BitVec.eq_of_toNat_eq e)
    have e2 : (accmode flags).toNat ≠ 2 := fun e => h2 (BitVec.eq_of_toNat_eq e)
    show (accmode flags).toNat = 3
    omega
  · intro h
    rw [h]
    rfl

theorem HoldsNoLock.of_held {s t : Kernel} (hs : HoldsNoLock s) (hheld : t.held = s.held)
    (hcur : t.curproc = s.curproc) : HoldsNoLock t := by
  intro l
  rw [hheld, hcur]
  exact hs l

/-- With the access mode that does not make sense, `open` returns the lock only when it has no
memory for the file. -/
theorem runs_openPath_badMode {p : ProcRef} {flags : BitVec 32} {env : OpenEnv} {s s' : Kernel}
    {ret : Int} (hmode : accmode flags = 3) (h : Runs (openPath p flags env) s ret s') :
    (env.createFile = true ∧ s'.held = s.held ∧ s'.curproc = s.curproc) ∨
      (env.createFile = false ∧ s'.held = Function.update s.held (.ops p) none ∧
        s'.curproc = s.curproc) := by
  have hacc : accessOf flags = none := (accessOf_eq_none flags).2 hmode
  obtain ⟨x, s₁, hcreate, h⟩ := (runs_bind _ _ _ _ _).1 h
  obtain ⟨hheld, hcur⟩ := balanced_createFile _ _ s x s₁ (fun l hl => absurd hl List.not_mem_nil)
    hcreate
  rw [drop_nil] at hheld
  cases hc : env.createFile with
  | true =>
      left
      simp only [createFile, hc, if_true, runs_bind, runs_pure] at hcreate
      obtain ⟨c, t, -, r, t', -, rfl, -⟩ := hcreate
      simp only [hacc, runs_pure] at h
      obtain ⟨-, rfl⟩ := h
      exact ⟨rfl, hheld, hcur⟩
  | false =>
      right
      simp only [createFile, hc, Bool.false_eq_true, if_false, runs_pure] at hcreate
      obtain ⟨rfl, -⟩ := hcreate
      simp only [runs_bind, runs_lockRelease, runs_pure] at h
      obtain ⟨u, s₂, ⟨-, rfl⟩, -, rfl⟩ := h
      exact ⟨rfl, by simp only [hheld], hcur⟩

theorem holdsNoLock_sysOpen_iff {filename : Option UserPtr} {flags : BitVec 32} {env : OpenEnv}
    {s s' : Kernel} {ret : Int} (hs : HoldsNoLock s)
    (h : Runs (sysOpen filename flags env) s ret s') :
    HoldsNoLock s' ↔ ¬ OpenLeaks s filename flags env := by
  by_cases hmode : accmode flags = 3
  · simp only [sysOpen, runs_bind, runs_get, runs_ite, runs_curproc, runs_lockAcquire,
      runs_readTable, runs_lockRelease, runs_pure] at h
    obtain ⟨a, s₀, ⟨rfl, rfl⟩, h⟩ := h
    rcases h with ⟨hfn, -, rfl⟩ | ⟨hfn, ⟨hg, -, rfl⟩ | ⟨hg, h⟩⟩
    · exact iff_of_true hs fun hl => hl.filename hfn
    · exact iff_of_true hs fun hl => hl.gtable hg
    obtain ⟨p, s₁, ⟨rfl, rfl⟩, u, s₂, ⟨hfree, rfl⟩, t, s₃, ⟨⟨P, hP, rfl⟩, rfl⟩, h⟩ := h
    rcases h with ⟨hp, u, s₄, ⟨-, rfl⟩, -, rfl⟩ | ⟨hp, ⟨hk, u, s₄, ⟨-, rfl⟩, -, rfl⟩ | ⟨hk,
      ⟨hc, u, s₄, ⟨-, rfl⟩, -, rfl⟩ | ⟨hc, h⟩⟩⟩
    · exact iff_of_true (hs.of_held (update_held_cancel hfree) rfl) fun hl => hl.ptable P hP hp
    · refine iff_of_true (hs.of_held (update_held_cancel hfree) rfl) fun hl => ?_
      rw [hl.path] at hk
      cases hk
    · exact iff_of_true (hs.of_held (update_held_cancel hfree) rfl) fun hl => hl.copied hc
    · rcases runs_openPath_badMode hmode h with ⟨hf, hheld, hcur⟩ | ⟨hf, hheld, hcur⟩
      · refine iff_of_false (fun hn => ?_) (fun hn => hn ⟨hfn, hg, ?_, by simpa using hk, hc, hf,
          hmode⟩)
        · apply hn (.ops s₁.curproc)
          rw [hheld, hcur]
          simp
        · intro Q hQ
          rw [hP] at hQ
          cases hQ
          exact hp
      · refine iff_of_true (hs.of_held ?_ hcur) fun hl => ?_
        · rw [hheld]
          exact update_held_cancel hfree
        · rw [hl.file] at hf
          cases hf
  · have hacc : accessOf flags ≠ none := fun e => hmode ((accessOf_eq_none flags).1 e)
    exact iff_of_true (holdsNoLock_of_balanced (balanced_sysOpen hacc filename env) h hs)
      fun hl => hmode hl.mode

theorem holdsNoLock_sysRead_iff {fd : Int} {buf : Option UserPtr} {buflen : Nat} {env : ReadEnv}
    {s s' : Kernel} {ret : Int} (hs : HoldsNoLock s) (h : Runs (sysRead fd buf buflen env) s ret s') :
    HoldsNoLock s' ↔ ¬ ReadLeaks s fd buf env := by
  cases hk : env.kmalloc with
  | true =>
      apply iff_of_true (holdsNoLock_of_balanced (balanced_sysRead hk fd buf buflen) h hs)
      intro hl
      have := hl.memory
      rw [hk] at this
      cases this
  | false =>
      simp only [sysRead, runs_bind, runs_ite, runs_curproc, runs_lockAcquire, runs_pure] at h
      rcases h with ⟨hb, -, rfl⟩ | ⟨hb, p, s₁, ⟨rfl, rfl⟩, u, s₂, ⟨hfree, rfl⟩, x, s₃, hl, h⟩
      · exact iff_of_true hs fun hl => hl.buf hb
      obtain ⟨rfl, rfl⟩ := runs_pFiletableLookup hl
      have hlook : ∀ held, lookupFd { s₁ with held := held } s₁.curproc fd =
          lookupFd s₁ s₁.curproc fd := fun _ => rfl
      rw [hlook] at h
      cases hx : lookupFd s₁ s₁.curproc fd with
      | none =>
          simp only [hx, runs_bind, runs_lockRelease, runs_pure] at h
          obtain ⟨u, s₄, ⟨-, rfl⟩, -, rfl⟩ := h
          refine iff_of_true (hs.of_held (update_held_cancel hfree) rfl) fun hl => ?_
          obtain ⟨r, f, hr, -⟩ := hl.found
          rw [hx] at hr
          cases hr
      | some r =>
          simp only [hx, readFound, runs_bind, runs_lockFile, runs_readFile, runs_readTable,
            runs_ite, runs_lockRelease, runs_pure] at h
          obtain ⟨u, s₄, ⟨-, hfile, rfl⟩, f, s₅, ⟨hf, rfl⟩, t, s₆, ⟨-, rfl⟩, h⟩ := h
          simp only [hk, readConsole, Bool.false_eq_true, if_false, false_and, not_true, or_false,
            true_and, runs_pure] at h
          have hne : (LockName.file r) ≠ .ops s₁.curproc := by simp
          have hfile' : s₁.held (.file r) = none := by simpa [hne] using hfile
          have hf' : s₁.heap r = some f := hf
          have hsame : ReadLeaks s₁ fd buf env → f.canRead = true ∧ f.stdFileStatus ≠ 0 := by
            intro hl
            obtain ⟨r', g, hr, hg, hread, hstd⟩ := hl.found
            rw [hx] at hr
            cases hr
            rw [hf'] at hg
            cases hg
            exact ⟨hread, hstd⟩
          rcases h with ⟨hc, u, s₇, ⟨-, rfl⟩, v, s₈, ⟨-, rfl⟩, -, rfl⟩ | ⟨hc, ⟨h0, u, s₇, ⟨-, rfl⟩,
            v, s₈, ⟨-, rfl⟩, h⟩ | ⟨h0, u, s₇, ⟨-, rfl⟩, h⟩⟩
          · refine iff_of_true (hs.of_held ?_ rfl) fun hl => ?_
            · simp only [update_held_cancel hfile, update_held_cancel hfree]
            · rw [(hsame hl).1] at hc
              cases hc
          · refine iff_of_true (hs.of_held ?_ ?_) fun hl => (hsame hl).2 h0
            · rcases h with ⟨-, -, rfl⟩ | ⟨-, -, rfl⟩ <;>
                simp only [update_held_cancel hfile, update_held_cancel hfree]
            · rcases h with ⟨-, -, rfl⟩ | ⟨-, -, rfl⟩ <;> rfl
          · obtain ⟨-, rfl⟩ := h
            refine iff_of_false (fun hn => ?_) fun hn => hn ⟨hb, hk, r, f, hx, hf', ?_, h0⟩
            · apply hn (.file r)
              simp
            · simpa using hc

theorem runs_seekCur {whence cur : Int} {x : Option CellRef} {s s' : Kernel}
    (h : Runs (seekCur whence x) s cur s') : s' = s := by
  unfold seekCur at h
  split_ifs at h
  · cases x with
    | none => exact absurd h (runs_throw _ _ _ _)
    | some c => exact ((runs_readCell _ _ _ _).1 h).2
  · exact ((runs_pure _ _ _ _).1 h).2

/-! ## Between the calls of a run -/

/-- The action does not open a file with the access mode that does not make sense. -/
def sensibleMode (_ : Kernel) (a : Action) : Bool :=
  match a.call with
  | .openFile _ flags _ => accmode flags != 3
  | _ => true

theorem balanced_commonProg (env : ProgEnv) : Balanced (commonProg env) := by
  apply Releases.bind (balanced_procCreateRunprogram _)
  intro proc
  apply Releases.bind (balanced_putProcOnProctable proc)
  intro _
  cases proc with
  | none => exact Balanced.pure _
  | some p =>
      refine Releases.bind (balanced_threadFork p _) fun result => Releases.ite ?_ (Balanced.pure _)
      exact Releases.bind (balanced_procDestroy p) fun _ => Balanced.pure _

theorem balanced_cmdProgthread (result : LoadResult) : Balanced (cmdProgthread result) := by
  refine Releases.bind balanced_curproc fun p => Releases.bind (balanced_readProc p) fun P => ?_
  cases result with
  | running => exact balanced_writeProc p _
  | noAddrspace => exact balanced_threadExit
  | afterSetas => exact Releases.bind (balanced_writeProc p _) fun _ => balanced_threadExit

theorem balanced_run {s : Kernel} {a : Action} (h : sensibleMode s a = true) :
    Balanced a.call.run := by
  obtain ⟨p, call⟩ := a
  cases call with
  | start env => exact balanced_commonProg env
  | load result => exact Releases.bind (balanced_cmdProgthread result) fun _ => Balanced.pure _
  | openFile filename flags env =>
      refine balanced_sysOpen (fun hacc => ?_) filename env
      simp [sensibleMode, (accessOf_eq_none flags).1 hacc] at h
  | close fd => exact balanced_sysClose fd
  | dup2 oldfd newfd alloc => exact balanced_sysDup2 oldfd newfd alloc
  | fork env => exact balanced_sysFork env
  | exit exitcode alloc =>
      exact Releases.bind (balanced_sysExit exitcode alloc) fun _ => Balanced.pure _

/-- In a run that opens files with sensible access modes only, nobody holds a lock between two
actions. -/
theorem held_of_reach {s : Kernel} (h : Reach step (fun t a => sensibleMode t a = true) boot s) :
    s.held = fun _ => none := by
  refine h.invariant (I := fun s => s.held = fun _ => none) (fun t a u ht ha hst => ?_) rfl
  obtain ⟨-, ret, hrun⟩ := hst
  obtain ⟨hheld, -⟩ := balanced_run ha _ _ _ (fun l hl => absurd hl List.not_mem_nil) hrun
  rw [hheld, drop_nil]
  exact ht

theorem held_sysOpen_badMode {filename : Option UserPtr} {flags : BitVec 32} {env : OpenEnv}
    {s s' : Kernel} {ret : Int} (hmode : accmode flags = 3)
    (h : Runs (sysOpen filename flags env) s ret s') :
    ∃ x, s'.held = Function.update s.held (.ops s.curproc) x := by
  have hsame : ∃ x, s.held = Function.update s.held (.ops s.curproc) x :=
    ⟨_, (Function.update_eq_self _ _).symm⟩
  simp only [sysOpen, runs_bind, runs_get, runs_ite, runs_curproc, runs_lockAcquire,
    runs_readTable, runs_lockRelease, runs_pure] at h
  obtain ⟨a, s₀, ⟨rfl, rfl⟩, h⟩ := h
  rcases h with ⟨-, -, rfl⟩ | ⟨-, ⟨-, -, rfl⟩ | ⟨-, h⟩⟩
  · exact hsame
  · exact hsame
  obtain ⟨p, s₁, ⟨rfl, rfl⟩, u, s₂, ⟨hfree, rfl⟩, t, s₃, ⟨-, rfl⟩, h⟩ := h
  rcases h with ⟨-, u, s₄, ⟨-, rfl⟩, -, rfl⟩ | ⟨-, ⟨-, u, s₄, ⟨-, rfl⟩, -, rfl⟩ | ⟨-,
    ⟨-, u, s₄, ⟨-, rfl⟩, -, rfl⟩ | ⟨-, h⟩⟩⟩
  · exact ⟨none, Function.update_idem ..⟩
  · exact ⟨none, Function.update_idem ..⟩
  · exact ⟨none, Function.update_idem ..⟩
  · rcases runs_openPath_badMode hmode h with ⟨-, hheld, -⟩ | ⟨-, hheld, -⟩
    · exact ⟨_, hheld⟩
    · exact ⟨none, hheld.trans (Function.update_idem ..)⟩

/-- Between two actions, the only locks that can be held are the `ops_lock`s. -/
theorem held_of_step {l : LockName} (hl : ∀ p, l ≠ .ops p) {s s' : Kernel} {a : Action}
    (h : step s a s') : s'.held l = s.held l := by
  obtain ⟨-, ret, hrun⟩ := h
  by_cases hmode : sensibleMode s a = true
  · obtain ⟨hheld, -⟩ := balanced_run hmode _ _ _ (fun l hl => absurd hl List.not_mem_nil) hrun
    rw [hheld, drop_nil]
  · obtain ⟨p, call⟩ := a
    cases call with
    | openFile filename flags env =>
        have hbad : accmode flags = 3 := by simpa [sensibleMode] using hmode
        obtain ⟨x, hx⟩ := held_sysOpen_badMode hbad hrun
        rw [hx, Function.update_of_ne (hl _)]
    | start env => exact absurd rfl hmode
    | load result => exact absurd rfl hmode
    | close fd => exact absurd rfl hmode
    | dup2 oldfd newfd alloc => exact absurd rfl hmode
    | fork env => exact absurd rfl hmode
    | exit exitcode alloc => exact absurd rfl hmode

theorem held_procFt_of_reach {ok : Kernel → Action → Prop} {s : Kernel}
    (h : Reach step ok boot s) (p : ProcRef) : s.held (.procFt p) = none := by
  refine h.invariant (I := fun s => s.held (.procFt p) = none) (fun t a u ht _ hst => ?_) rfl
  rw [held_of_step (fun q => by simp) hst]
  exact ht

theorem holdsNoLock_of_execChecked {as : List Action} {s : Kernel}
    (h : execChecked sensibleMode boot as = some s) (p : ProcRef) :
    HoldsNoLock { s with curproc := p } := by
  intro l
  show s.held l ≠ some p
  rw [held_of_reach (reach_of_execChecked (fun _ _ _ hc => hc) as .refl h)]
  exact Option.some_ne_none p ∘ Eq.symm

/-- The handler returns, computed. -/
def returns (call : Request) (s : Kernel) : Bool :=
  match handle call s with
  | .ok _ => true
  | .error _ => false

theorem runs_of_returns {call : Request} {s : Kernel} (h : returns call s = true) :
    ∃ ret s', Runs (handle call) s ret s' := by
  unfold returns at h
  split at h
  · rename_i x hx
    exact ⟨x.1, x.2, hx⟩
  · cases h

/-! ## Every request -/

/-- A request that starts without a lock returns without one, unless it is one of the two
exceptions. -/
theorem holdsNoLock_iff_not_leaks {s s' : Kernel} {call : Request} {ret : Int}
    (hs : HoldsNoLock s) (h : Runs (handle call) s ret s') :
    HoldsNoLock s' ↔ ¬ Leaks s call := by
  cases call with
  | openFile filename flags env => exact holdsNoLock_sysOpen_iff hs h
  | read fd buf buflen env => exact holdsNoLock_sysRead_iff hs h
  | close fd => exact iff_of_true (holdsNoLock_of_balanced (balanced_sysClose fd) h hs) id
  | write fd buf buflen env =>
      exact iff_of_true (holdsNoLock_of_balanced (balanced_sysWrite fd buf buflen env) h hs) id
  | lseek fd pos whence env =>
      exact iff_of_true (holdsNoLock_of_balanced (balanced_sysLseek fd pos whence env) h hs) id
  | dup2 oldfd newfd alloc =>
      exact iff_of_true (holdsNoLock_of_balanced (balanced_sysDup2 oldfd newfd alloc) h hs) id
  | fork env => exact iff_of_true (holdsNoLock_of_balanced (balanced_sysFork env) h hs) id
  | waitpid pid status options wakes =>
      obtain ⟨w, t, hw, hp⟩ := (runs_bind _ _ _ _ _).1 h
      obtain ⟨-, rfl⟩ := (runs_pure _ _ _ _).1 hp
      exact iff_of_true
        (holdsNoLock_of_balanced (balanced_sysWaitpid pid status options wakes) hw hs) id
  | getpid => exact iff_of_true (holdsNoLock_of_balanced balanced_sysGetpid h hs) id
  | chdir copyinstr vfsChdir =>
      exact iff_of_true (holdsNoLock_of_balanced (balanced_sysChdir copyinstr vfsChdir) h hs) id
  | getcwd buf buflen copyinstr vfsGetcwd uioResid =>
      exact iff_of_true (holdsNoLock_of_balanced
        (balanced_sysGetcwd buf buflen copyinstr vfsGetcwd uioResid) h hs) id

/-- Reading from descriptor 3 with enough memory. -/
def readThree : Request :=
  .read 3 (some 1) 4 { kmalloc := true, getch := fun _ => 10, copyoutstr := fun _ => 0, vopRead := 0
                       uioResid := 0, uioOffset := 4, copyout := 0 }

theorem holdsNoLock_readThree : ∃ s ret s', execChecked sensibleMode boot openOne = some s ∧
    Runs (handle readThree) { s with curproc := 1 } ret s' ∧ HoldsNoLock s' := by
  have hrun : (execChecked sensibleMode boot openOne).any (fun s =>
      returns readThree { s with curproc := 1 }) = true := by decide +kernel
  obtain ⟨s, hs, hret⟩ := (Option.any_eq_true _ _).1 hrun
  obtain ⟨ret, s', h⟩ := runs_of_returns hret
  refine ⟨s, ret, s', hs, h, ?_⟩
  apply (holdsNoLock_iff_not_leaks (holdsNoLock_of_execChecked hs 1) h).2
  intro hl
  exact absurd hl.memory (by decide)

/-- Opening a file with the access mode 3. -/
def openModeThree : Request := .openFile (some 1) 3 (openOk 7)

theorem not_holdsNoLock_handle : ¬ ∀ s p call ret s', Reach step anyStep boot s →
    userThread s p true = true → HoldsNoLock { s with curproc := p } →
    Runs (handle call) { s with curproc := p } ret s' → HoldsNoLock s' := by
  intro h
  have hrun : (execChecked sensibleMode boot openOne).any (fun s => userThread s 1 true &&
      tested (handle openModeThree) { s with curproc := 1 } fun _ s' =>
        s'.held (.ops 1) == some 1 && s'.curproc == 1) = true := by decide +kernel
  obtain ⟨s, hs, hbad⟩ := (Option.any_eq_true _ _).1 hrun
  obtain ⟨huser, hbad⟩ := Bool.and_eq_true_iff.1 hbad
  obtain ⟨ret, s', hret, hafter⟩ := runs_of_tested hbad
  obtain ⟨hheld, hcur⟩ := Bool.and_eq_true_iff.1 hafter
  have hreach : Reach step anyStep boot s :=
    (reach_of_execChecked (fun _ _ _ hc => hc) openOne .refl hs).mono fun _ _ _ => trivial
  apply h s 1 openModeThree ret s' hreach huser (holdsNoLock_of_execChecked hs 1) hret (.ops 1)
  rw [beq_iff_eq.1 hcur]
  exact beq_iff_eq.1 hheld

end Os161.Main

import Os161.Lib.Runs
import Os161.Main.Menu
import Os161.Syscall.Refine

set_option autoImplicit false

/-!
# Runs of the system

A run is a sequence of actions from the state after boot: the menu starts a program, a new process
loads it, and the processes make system calls, in any order. An action is possible when its caller
can make it (`ready`), and it happens when the kernel path it enters returns; a path that panics,
waits for ever or touches freed memory has no successor state.

`boot_wf` and the effects of `common_prog` and `cmd_progthread` on the ledger complete the
refinement of `Os161.Syscall.Refine` to whole runs.
-/

namespace Os161.Main

open Os161.Lib.Program
open Os161.Lib.Runs
open Os161.Lib.Slots
open Os161.Vfs
open Os161.Proc
open Os161.Syscall

/-! ## Actions -/

/-- What a process can do. -/
inductive Call where
  | start (env : ProgEnv)
  | load (result : LoadResult)
  | openFile (filename : Option UserPtr) (flags : BitVec 32) (env : OpenEnv)
  | close (fd : Int)
  | dup2 (oldfd newfd : Int) (alloc : Bool)
  | fork (env : ForkEnv)
  | exit (exitcode : BitVec 32) (alloc : Bool)

/-- The kernel path of a call. -/
def Call.run : Call → K Int
  | .start env => commonProg env
  | .load result => do
      cmdProgthread result
      pure 0
  | .openFile filename flags env => sysOpen filename flags env
  | .close fd => sysClose fd
  | .dup2 oldfd newfd alloc => sysDup2 oldfd newfd alloc
  | .fork env => sysFork env
  | .exit exitcode alloc => do
      sysExit exitcode alloc
      pure 0

/-- A call and the process that makes it. -/
structure Action where
  caller : ProcRef
  call : Call

/-- A user process with a thread, which has its address space (`loaded`) or not yet. -/
def userThread (s : Kernel) (p : ProcRef) (loaded : Bool) : Bool :=
  p != kproc && (s.procs p).any fun P => P.pNumthreads != 0 && P.pAddrspace == loaded

/-- The caller can make the call: the menu starts programs, a new process loads its program, and
a loaded process makes system calls. -/
def ready (s : Kernel) (a : Action) : Bool :=
  match a.call with
  | .start _ => a.caller == kproc
  | .load _ => userThread s a.caller false
  | _ => userThread s a.caller true

/-- One action. -/
def step (s : Kernel) (a : Action) (s' : Kernel) : Prop :=
  ready s a = true ∧ ∃ ret, Runs a.call.run { s with curproc := a.caller } ret s'

/-- One action, computed. -/
def exec (s : Kernel) (a : Action) : Option Kernel :=
  if ready s a then
    match a.call.run { s with curproc := a.caller } with
    | .ok (_, s') => some s'
    | .error _ => none
  else none

/-- A sequence of actions, computed. -/
def execAll (s : Kernel) : List Action → Option Kernel
  | [] => some s
  | a :: as => (exec s a).bind fun s' => execAll s' as

theorem step_of_exec {s s' : Kernel} {a : Action} (h : exec s a = some s') : step s a s' := by
  unfold exec at h
  split_ifs at h with hready
  cases hrun : a.call.run { s with curproc := a.caller } with
  | error r =>
      rw [hrun] at h
      cases h
  | ok x =>
      obtain ⟨ret, t⟩ := x
      rw [hrun] at h
      cases h
      exact ⟨hready, ret, hrun⟩

theorem reach_of_execAll : ∀ (as : List Action) {s₀ s s' : Kernel},
    Reach step anyStep s₀ s → execAll s as = some s' → Reach step anyStep s₀ s'
  | [], s₀, s, s', hs, h => by
      cases h
      exact hs
  | a :: as, s₀, s, s', hs, h => by
      obtain ⟨t, ht, h⟩ := Option.bind_eq_some_iff.1 h
      exact reach_of_execAll as (hs.tail trivial (step_of_exec ht)) h

/-- A test of what `m` returns and of the state after it; a panic does not pass. -/
def tested {α : Type} (m : K α) (s : Kernel) (check : α → Kernel → Bool) : Bool :=
  match m s with
  | .ok (a, s') => check a s'
  | .error _ => false

theorem runs_of_tested {α : Type} {m : K α} {s : Kernel} {check : α → Kernel → Bool}
    (h : tested m s check = true) : ∃ a s', Runs m s a s' ∧ check a s' = true := by
  unfold tested at h
  split at h
  · rename_i a s' hrun
    exact ⟨a, s', hrun, h⟩
  · cases h

/-! ## Boot -/

theorem used_stdSlots : used stdSlots = 3 := by decide +kernel

theorem boot_row (p : ProcRef) :
    (Ledger.of boot).row p = if p = kproc then stdSlots else fun _ => none := by
  by_cases hp : p = kproc
  · simp [Ledger.of, rowOf, boot, hp]
  · simp [Ledger.of, rowOf, boot, hp]

theorem stdSlots_eq_some {i : Fin openMax} {r : FileRef} (h : stdSlots i = some r) :
    i.val < 3 ∧ r = i.val := by
  unfold stdSlots at h
  split_ifs at h with hi
  cases h
  exact ⟨hi, rfl⟩

theorem boot_heap {r : FileRef} {f : File} (h : (Ledger.of boot).heap r = some f) :
    r < 3 ∧ f = stdFile r := by
  have h' : (if r < 3 then some (stdFile r) else none) = some f := h
  split_ifs at h' with hr
  cases h'
  exact ⟨hr, rfl⟩

theorem stdFile_spec (k : Nat) : Ledger.StdFile k (stdFile k) := ⟨rfl, rfl, rfl, rfl, rfl⟩

theorem boot_slot {p : ProcRef} {i : Fin openMax} {r : FileRef}
    (h : (Ledger.of boot).row p i = some r) : p = kproc ∧ r < 3 := by
  rw [boot_row] at h
  split_ifs at h with hp
  obtain ⟨hi, rfl⟩ := stdSlots_eq_some h
  exact ⟨hp, hi⟩

/-- The ledger is in order after boot. -/
theorem boot_wf : (Ledger.of boot).WF := by
  have hheap : ∀ k, k < 3 → (Ledger.of boot).heap k = some (stdFile k) := by
    intro k hk
    show (if k < 3 then some (stdFile k) else none) = some (stdFile k)
    rw [if_pos hk]
  have htable : ∀ (i : Fin openMax) r, (Ledger.of boot).openFiles i = some r →
      i.val < 3 ∧ r = i.val := fun i r h => stdSlots_eq_some h
  refine
    { fresh := fun r hr => ?_, nextFd := le_rfl, std := fun k hk => ⟨_, hheap k hk, stdFile_spec k⟩
      openStd := fun i hi => ?_, openReg := fun i r hi hr => ?_
      openInj := fun i j r r' f f' hi hj hr => ?_
      size := ?_, live := fun p i r hr => ?_, slots := fun p i r hr => ?_
      known := fun p b hb => ?_, bareStd := fun p i r _ hr => (boot_slot hr).2
      counts := fun r f hf hs => ?_ }
  · have h3 : ¬ r < 3 := not_lt.2 hr
    show (if r < 3 then some (stdFile r) else none) = none
    rw [if_neg h3]
  · show stdSlots i = some i.val
    unfold stdSlots
    rw [if_pos hi]
  · exact absurd (htable i r hr).1 (not_lt.2 hi)
  · exact absurd (htable i r hr).1 (not_lt.2 hi)
  · show (3 : Int) = used stdSlots
    rw [used_stdSlots]
    rfl
  · rw [(boot_slot hr).1]
    exact Nat.zero_lt_one
  · obtain ⟨-, h3⟩ := boot_slot hr
    exact ⟨_, hheap r h3, .std h3⟩
  · by_cases hp : p = kproc
    · rw [hp]
      exact Nat.zero_lt_one
    · simp [Ledger.of, spaceOf, boot, hp] at hb
  · obtain ⟨-, rfl⟩ := boot_heap hf
    exact absurd hs (stdFile_spec r).stdFileStatus_ne

/-! ## The menu -/

/-- What the start of a program does to the ledger: nothing, a new process, or a new process that
is destroyed at once. -/
theorem sim_commonProg {env : ProgEnv} {ret : Int} {s s' : Kernel} (hwf : (Ledger.of s).WF)
    (h : Runs (commonProg env) s ret s') :
    Ledger.of s' = Ledger.of s ∨ Ledger.of s' = (Ledger.of s).addRow ∨
      Ledger.Gone s.nextProc (Ledger.of s).addRow (Ledger.of s') := by
  simp only [commonProg, runs_bind] at h
  obtain ⟨x, s₁, hcreate, n, s₂, hput, h⟩ := h
  have hof₂ := of_putProcOnProctable hput
  rcases of_procCreateRunprogram hcreate with ⟨rfl, rfl⟩ | ⟨rfl, -, -, hof⟩
  · simp only [runs_pure] at h
    obtain ⟨-, rfl⟩ := h
    exact .inl hof₂
  · simp only [runs_bind, runs_ite, runs_pure] at h
    obtain ⟨m, s₃, hfork, h⟩ := h
    have hof₃ : Ledger.of s₃ = (Ledger.of s).addRow := by
      rw [(of_threadFork hfork).2, hof₂, hof]
    rcases h with ⟨-, _, s₄, hdes, -, rfl⟩ | ⟨-, -, rfl⟩
    · exact .inr (.inr (sim_procDestroy hdes hwf.addRow hof₃))
    · exact .inr (.inl hof₃)

/-- What loading a program does to the ledger: the process gets its address space, or it ends. -/
theorem sim_cmdProgthread {result : LoadResult} {p : ProcRef} {s s' : Kernel} {u : Unit}
    (hwf : (Ledger.of s).WF) (hp : s.curproc = p) (hlt : p < s.nextProc)
    (h : Runs (cmdProgthread result) s u s') :
    Ledger.of s' = (Ledger.of s).load p ∨ Ledger.Gone p (Ledger.of s) (Ledger.of s') ∨
      Ledger.Gone p ((Ledger.of s).load p) (Ledger.of s') := by
  subst hp
  simp only [cmdProgthread, runs_bind, runs_curproc, runs_readProc] at h
  obtain ⟨p, s₁, ⟨rfl, rfl⟩, P, s₂, ⟨hP, rfl⟩, h⟩ := h
  cases result with
  | running =>
      simp only [runs_writeProc] at h
      obtain ⟨-, rfl⟩ := h
      exact .inl (of_loadProc hP rfl rfl)
  | noAddrspace => exact .inr (.inl (sim_threadExit h hwf rfl rfl))
  | afterSetas =>
      simp only [runs_bind, runs_writeProc] at h
      obtain ⟨_, s₃, ⟨-, rfl⟩, h⟩ := h
      exact .inr (.inr (sim_threadExit h (hwf.load hlt) (of_loadProc hP rfl rfl) rfl))

/-! ## Every action -/

/-- The action closes the slots of its caller with the number `fd`. -/
def ClosesNumber (s : Kernel) (a : Action) (fd : Int) : Prop :=
  match a.call with
  | .close n => n = fd ∧ ClosesSlots (Ledger.of s) a.caller n
  | .dup2 oldfd newfd _ =>
      newfd = fd ∧ ∃ r, Duplicates (Ledger.of s) a.caller oldfd newfd r
  | _ => False

/-- A duplicate is closed only where no other slot refers to it. -/
def ClosesSoleDups (s : Kernel) (a : Action) : Prop :=
  ∀ fd, ClosesNumber s a fd → (Ledger.of s).SoleDups a.caller fd

/-- The call is `_exit`. -/
def Ends : Call → Prop
  | .exit _ _ => True
  | _ => False

/-- What an action does to the ledger `L` of the state `s` before it. -/
inductive Effect (s : Kernel) (a : Action) (L L' : Ledger) : Prop where
  | idle : L' = L → Effect s a L L'
  | abandoned {f : File} : Abandoned f → L' = L.alloc f → Effect s a L L'
  | opened {filename : Option UserPtr} {flags : BitVec 32} {env : OpenEnv} {f : File} :
      a.call = .openFile filename flags env → Opens s a.caller filename flags env →
      L.space a.caller = some true → Ledger.Open a.caller f L L' → Effect s a L L'
  | closed {fd : Int} : a.call = .close fd → ClosesSlots L a.caller fd →
      Ledger.Closes a.caller fd L L' → L'.Unused a.caller fd → Effect s a L L'
  | duped {oldfd newfd : Int} {alloc : Bool} {r : FileRef} {f : File} {L₁ : Ledger} :
      a.call = .dup2 oldfd newfd alloc → L.space a.caller = some true →
      Duplicates L a.caller oldfd newfd r → Ledger.Closes a.caller newfd L L₁ →
      L₁.Unused a.caller newfd → Ledger.Dup a.caller r f newfd L₁ L' → Effect s a L L'
  | started : L' = L.addRow → Effect s a L L'
  | failed : Ledger.Gone L.nextProc L.addRow L' → Effect s a L L'
  | forked {env : ForkEnv} : a.call = .fork env → Forks s env → a.caller < L.nextProc →
      Ledger.Shares a.caller L.nextProc (L.addRow.load L.nextProc) L' →
      (∀ i, L'.row L.nextProc i = (L.row a.caller i).or (L.stdRow i)) → Effect s a L L'
  | loaded : a.caller < L.nextProc → L' = L.load a.caller → Effect s a L L'
  | left : Ends a.call ∨ L.space a.caller = some false → Ledger.Gone a.caller L L' →
      Effect s a L L'
  | leftLoaded : a.caller < L.nextProc → L.space a.caller = some false →
      Ledger.Gone a.caller (L.load a.caller) L' → Effect s a L L'

theorem space_of_userThread {s : Kernel} {p : ProcRef} {b : Bool} (h : userThread s p b = true) :
    (Ledger.of s).space p = some b := by
  simp only [userThread, Bool.and_eq_true, Option.any_eq_true] at h
  obtain ⟨-, P, hP, -, hb⟩ := h
  simp only [Ledger.of, spaceOf, hP, Option.map_some]
  simpa using hb

theorem exists_proc_of_userThread {s : Kernel} {p : ProcRef} {b : Bool}
    (h : userThread s p b = true) : ∃ P, s.procs p = some P := by
  simp only [userThread, Bool.and_eq_true, Option.any_eq_true] at h
  obtain ⟨-, P, hP, -⟩ := h
  exact ⟨P, hP⟩

/-- Every action is an event of the ledger. -/
theorem effect_of_step {s s' : Kernel} {a : Action} (hwf : (Ledger.of s).WF)
    (hok : ClosesSoleDups s a) (h : step s a s') : Effect s a (Ledger.of s) (Ledger.of s') := by
  obtain ⟨p, call⟩ := a
  obtain ⟨hready, ret, hrun⟩ := h
  -- the ledger does not see which process runs
  have hwf' : (Ledger.of { s with curproc := p }).WF := hwf
  cases call with
  | start env =>
      rcases sim_commonProg hwf' hrun with h | h | h
      · exact .idle h
      · exact .started h
      · exact .failed h
  | load result =>
      have hlt := hwf.known p _ (space_of_userThread hready)
      simp only [Call.run, runs_bind, runs_pure] at hrun
      obtain ⟨_, s₁, hrun, -, rfl⟩ := hrun
      rcases sim_cmdProgthread hwf' rfl hlt hrun with h | h | h
      · exact .loaded hlt h
      · exact .left (.inr (space_of_userThread hready)) h
      · exact .leftLoaded hlt (space_of_userThread hready) h
  | openFile filename flags env =>
      cases sim_sysOpen hwf' hrun with
      | failed _ h => exact .idle h
      | abandoned _ hf h => exact .abandoned hf h
      | opened _ hopens _ h =>
          obtain ⟨h₁, h₂, h₃, h₄, h₅, h₆, h₇, h₈⟩ := hopens
          exact .opened rfl ⟨h₁, h₂, h₃, h₄, h₅, h₆, h₇, h₈⟩ (space_of_userThread hready) h
  | close fd =>
      rcases sim_sysClose hwf' (fun hcl => hok fd ⟨rfl, hcl⟩) hrun with ⟨-, h⟩ | ⟨hcl, h, hgone⟩
      · exact .idle h
      · exact .closed rfl hcl h hgone
  | dup2 oldfd newfd alloc =>
      rcases sim_sysDup2 hwf' (fun r hd => hok newfd ⟨rfl, r, hd⟩) hrun with h |
        ⟨r, f, L₁, hd, hcl, hgone, h⟩
      · exact .idle h
      · exact .duped rfl (space_of_userThread hready) hd hcl hgone h
  | fork env =>
      have hlt := hwf.known p _ (space_of_userThread hready)
      cases sim_sysFork hwf' hlt hrun with
      | none h => exact .idle h
      | failed h => exact .failed h
      | forked hforks hsh hrow =>
          obtain ⟨h₁, h₂, h₃, h₄⟩ := hforks
          exact .forked rfl ⟨h₁, h₂, h₃, h₄⟩ hlt hsh hrow
  | exit exitcode alloc =>
      simp only [Call.run, runs_bind, runs_pure] at hrun
      obtain ⟨_, s₁, hrun, -, rfl⟩ := hrun
      exact .left (.inl trivial) (sim_sysExit hwf' hrun)

/-- Every action that closes duplicates only where they are the only ones keeps the ledger in
order. -/
theorem Effect.wf {s : Kernel} {a : Action} {L L' : Ledger} (h : Effect s a L L') (hwf : L.WF) :
    L'.WF := by
  cases h with
  | idle h =>
      rw [h]
      exact hwf
  | @abandoned f hf h =>
      rw [h]
      apply hwf.alloc
      intro _
      rw [hf.refcount, Ledger.spare, hf.isDupe]
      decide
  | opened _ _ hsp h => exact h.wf hwf (hwf.known _ _ hsp) (by simp [hsp])
  | closed _ _ h _ => exact h.wf_and_sole.1
  | @duped _ _ _ _ _ L₁ _ hsp _ hcl _ h =>
      have hsh := hcl.shrinks
      refine h.wf hcl.wf_and_sole.1 ?_ ?_
      · rw [hsh.nextProc]
        exact hwf.known _ _ hsp
      · rw [hsh.space, hsp]
        simp
  | started h =>
      rw [h]
      exact hwf.addRow
  | failed h => exact h.wf
  | forked _ _ _ h _ => exact h.wf
  | loaded hlt h =>
      rw [h]
      exact hwf.load hlt
  | left _ h => exact h.wf
  | leftLoaded _ _ h => exact h.wf

/-- The ledger stays in order in every run that closes duplicates only where they are the only
ones. -/
theorem wf_of_reach {ok : Kernel → Action → Prop} (hok : ∀ s a, ok s a → ClosesSoleDups s a)
    {s : Kernel} (h : Reach step ok boot s) : (Ledger.of s).WF :=
  h.invariant (I := fun s => (Ledger.of s).WF)
    (fun _ a _ hwf ha hst => (effect_of_step hwf (hok _ a ha) hst).wf hwf) boot_wf

/-! ## Checked runs -/

/-- `SoleDups`, computed for the processes created so far. -/
def soleDups (L : Ledger) (p : ProcRef) (fd : Int) : Bool :=
  (List.finRange openMax).all fun i => (L.row p i).all fun r => (L.heap r).all fun f =>
    !(f.localFd == fd && f.isDupe) || (List.range L.nextProc).all fun q =>
      (List.finRange openMax).all fun j => L.row q j != some r || (q == p && j == i)

theorem soleDups_sound {L : Ledger} {p : ProcRef} {fd : Int} (hlive : L.Live)
    (h : soleDups L p fd = true) : L.SoleDups p fd := by
  intro i r f hr hf hfd hd q j hq
  have h₁ := List.all_eq_true.1 h i (List.mem_finRange i)
  simp only [hr, hf, hfd, hd, Option.all_some, beq_self_eq_true, Bool.and_true, Bool.not_true,
    Bool.false_or] at h₁
  have h₂ := List.all_eq_true.1 h₁ q (List.mem_range.2 (hlive q j r hq))
  have h₃ := List.all_eq_true.1 h₂ j (List.mem_finRange j)
  simpa [hq] using h₃

/-- `ClosesSoleDups`, computed. -/
def closesSoleDups (s : Kernel) (a : Action) : Bool :=
  match a.call with
  | .close fd => soleDups (Ledger.of s) a.caller fd
  | .dup2 _ newfd _ => soleDups (Ledger.of s) a.caller newfd
  | _ => true

theorem closesSoleDups_sound {s : Kernel} {a : Action} (hwf : (Ledger.of s).WF)
    (h : closesSoleDups s a = true) : ClosesSoleDups s a := by
  obtain ⟨p, call⟩ := a
  intro fd hfd
  cases call with
  | close n =>
      obtain ⟨rfl, -⟩ := hfd
      exact soleDups_sound hwf.live h
  | dup2 oldfd newfd alloc =>
      obtain ⟨rfl, -⟩ := hfd
      exact soleDups_sound hwf.live h
  | start env => exact hfd.elim
  | load result => exact hfd.elim
  | openFile filename flags env => exact hfd.elim
  | fork env => exact hfd.elim
  | exit exitcode alloc => exact hfd.elim

/-- A sequence of actions, computed, with a check before each of them. -/
def execChecked (check : Kernel → Action → Bool) (s : Kernel) : List Action → Option Kernel
  | [] => some s
  | a :: as => if check s a then (exec s a).bind fun s' => execChecked check s' as else none

theorem reach_of_execChecked {ok : Kernel → Action → Prop} {check : Kernel → Action → Bool}
    {s₀ : Kernel}
    (hcheck : ∀ s a, Reach step ok s₀ s → check s a = true → ok s a) :
    ∀ (as : List Action) {s s' : Kernel}, Reach step ok s₀ s →
      execChecked check s as = some s' → Reach step ok s₀ s'
  | [], s, s', hs, h => by
      cases h
      exact hs
  | a :: as, s, s', hs, h => by
      unfold execChecked at h
      split_ifs at h with hc
      obtain ⟨t, ht, h⟩ := Option.bind_eq_some_iff.1 h
      exact reach_of_execChecked hcheck as (hs.tail (hcheck s a hs hc) (step_of_exec ht)) h

/-- All allocations of `common_prog` succeed. -/
def progOk : ProgEnv := { procCreate := true, threadFork := 0 }

/-- The path is found and gives the vnode `v`. -/
def openOk (v : VnodeRef) : OpenEnv :=
  { kmallocPath := true, copyinstr := 0, path := "f", createFile := true, vfsOpen := .ok v }

/-- All steps of `fork` succeed. -/
def forkOk : ForkEnv :=
  { kmallocTrapframe := true, procCreate := true, asCopy := 0, threadFork := 0 }

/-- The menu starts one program. -/
def startOne : List Action := [⟨kproc, .start progOk⟩, ⟨1, .load .running⟩]

/-- The program opens a file for reading: descriptor 3. -/
def openOne : List Action := startOne ++ [⟨1, .openFile (some 1) 0 (openOk 7)⟩]

end Os161.Main

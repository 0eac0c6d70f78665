import Os161.Main.OpenFiles
import Os161.Main.Locks
import Os161.Vfs.Numbers
import Os161.Vfs.Returning

set_option autoImplicit false

/-!
# What `dup2` does to the descriptors

A `dup2` that goes right makes the new number denote the open file of the old one, takes one
reference from the file the new number denoted, and leaves every other descriptor of every process
alone. It goes right where the new number can be vacated: no slot has it and one slot is free, or
one slot has it and the search of the global table by the file's global number ends at that very
file.

The search goes wrong for duplicates, which have the global number of their original, and for the
standard files, which share one. And a number duplicated onto itself is returned before anybody
asks whether it is open.
-/

namespace Os161.Main

open Os161.Lib.Program
open Os161.Lib.Runs
open Os161.Lib.Slots
open Os161.Vfs
open Os161.Proc
open Os161.Syscall

/-! ## The meaning of the call -/

/-- The descriptor `fd` of `p` denotes the open file `f` at `r`. -/
structure Denoted (s : Kernel) (p : ProcRef) (fd : Int) (r : FileRef) (f : File) : Prop where
  nonneg : 0 ≤ fd
  found : lookupFd s p fd = some r
  file : s.heap r = some f

/-- The same open file under another number: the vnode, the seek position, the path, the modes. -/
def SameOpen (f n : File) : Prop :=
  n = { f with refcount := n.refcount, localFd := n.localFd, isDupe := n.isDupe }

/-- In `t` the descriptor `newfd` of `p` denotes the open file `f`; what it denoted in `s` has lost
one reference, and nothing else has changed its meaning. -/
structure Redirected (s : Kernel) (p : ProcRef) (newfd : Int) (f : File) (t : Kernel) : Prop where
  denotes : ∃ g n, Denoted t p newfd g n ∧ SameOpen f n
  lost : ∀ r' f', Denoted s p newfd r' f' → t.heap r' = lessOne f'
  others : ∀ q fd, (q = p → fd ≠ newfd) → lookupFd t q fd = lookupFd s q fd ∧
    ∀ r' f', Denoted s q fd r' f' → ∃ f'', Denoted t q fd r' f'' ∧ Ledger.SameFile f' f''

/-- A call of `dup2` by `p` has its documented meaning. -/
structure MeansDup2 (s : Kernel) (p : ProcRef) (oldfd newfd : Int) (alloc : Bool) : Prop where
  opened : ∀ r f, Denoted s p oldfd r f → 0 ≤ newfd → newfd < openMax →
    ∃ t, Runs (sysDup2 oldfd newfd alloc) { s with curproc := p } newfd t ∧
      if oldfd = newfd then t = { s with curproc := p } else Redirected s p newfd f t
  closed : (∀ r f, ¬ Denoted s p oldfd r f) →
    ∃ t, Runs (sysDup2 oldfd newfd alloc) { s with curproc := p } (fail .EBADF) t
  failed : ∀ ret t, ret < 0 → Runs (sysDup2 oldfd newfd alloc) { s with curproc := p } ret t →
    t.gft = s.gft ∧ t.procs = s.procs

/-! ## When the call has it -/

/-- The number `newfd` can be taken. -/
inductive Vacates (s : Kernel) (p : ProcRef) (newfd : Int) : Prop where
  /-- No slot has the number, and one is free. -/
  | unused {P : Os161.Proc} {i : Fin openMax} : s.procs p = some P →
      lookupFd s p newfd = none → P.pFiletable.files i = none → Vacates s p newfd
  /-- One slot has the number, and the global number of its file leads back to the file. When it
  is the last reference, there is a vnode to give back. -/
  | sole {P : Os161.Proc} {i : Fin openMax} {r : FileRef} {f : File} : s.procs p = some P →
      P.pFiletable.files i = some r → s.heap r = some f → f.localFd = newfd →
      (∀ j q g, P.pFiletable.files j = some q → s.heap q = some g → g.localFd = newfd → j = i) →
      (globalSlot s f.globalFd).bind s.gft.openFiles = some r →
      (f.refcount = 1 → f.fileVnode ≠ none) → Vacates s p newfd

/-- The seek position of `f` is there, and does not go away with the file of `newfd`. -/
def SeekKept (s : Kernel) (p : ProcRef) (newfd : Int) (f : File) : Prop :=
  ∀ c, f.seekPos = some c → s.cells c ≠ none ∧
    ∀ r' f', Denoted s p newfd r' f' → f'.refcount = 1 → f'.seekPos ≠ some c

/-- The call is within the condition. -/
structure Duplicable (s : Kernel) (p : ProcRef) (oldfd newfd : Int) (alloc : Bool) : Prop where
  same : oldfd = newfd → 0 ≤ newfd → newfd < openMax → ∃ r f, Denoted s p oldfd r f
  distinct : ∀ r f, Denoted s p oldfd r f → 0 ≤ newfd → newfd < openMax → oldfd ≠ newfd →
    alloc = true ∧ Vacates s p newfd ∧ SeekKept s p newfd f

/-- The action keeps the file tables in order and gives its locks back. -/
def KeepsTables (s : Kernel) (a : Action) : Prop :=
  ClosesSoleDups s a ∧ sensibleMode s a = true

section Call

variable {s : Kernel} {p : ProcRef} {P : Os161.Proc} {r : FileRef} {f : File} {i : Fin openMax}
  {oldfd newfd : Int} {alloc : Bool}

/-! ## The paths of the call -/

/-- The end of `dup2`: the new number is vacated and the table has a free slot. -/
theorem returns_dupInto (hlock : LocksFree s p) (hops : s.held (.ops p) = some s.curproc)
    (hP : s.procs p = some P)
    (hlive : ∀ j q, P.pFiletable.files j = some q → s.heap q ≠ none)
    (hlook : lookupFd s p oldfd = some r) (hf : s.heap r = some f) (hr : r ≠ s.nextFile)
    (hseek : ∀ c, f.seekPos = some c → s.cells c ≠ none)
    (hi : firstFree P.pFiletable.files = some i) (hnew : 0 ≤ newfd) :
    Returns (dupInto p oldfd newfd true) s fun ret t => ret = newfd ∧
      Duplicated s p P i r f newfd t := by
  rw [dupInto, returns_bind]
  refine returns_mono (returns_dupFile hlock hP hlive hlook hf hr hseek) ?_
  rintro g t ⟨rfl, cs, vn, rfl⟩
  rw [returns_bind, returns_putFileOnPtable (P := P) (i := i) (g := Ledger.dupOf f newfd)
    (by exact hlock.procFt) (by exact hP) hi (by simp)]
  have hne : ¬ (Ledger.dupOf f newfd).localFd = -1 := by
    show ¬ newfd = -1
    omega
  rw [returns_bind, returns_lockRelease (by exact hops), if_neg hne, returns_pure]
  exact ⟨rfl, rfl, rfl⟩

/-- A number in range that is duplicated onto itself is returned at once. -/
theorem runs_sysDup2_same (h0 : 0 ≤ newfd) (hmax : newfd < openMax) :
    Runs (sysDup2 newfd newfd alloc) s newfd s := by
  have hrange : ¬ (newfd < 0 ∨ newfd < 0 ∨ newfd ≥ openMax) := by omega
  rw [sysDup2, if_neg hrange, if_pos rfl]
  exact (runs_pure _ _ _ _).2 ⟨rfl, rfl⟩

/-- The call up to its two lookups. -/
theorem returns_sysDup2 (hP : s.procs s.curproc = some P) (hheld : s.held = fun _ => none)
    (hlive : ∀ j q, P.pFiletable.files j = some q → s.heap q ≠ none)
    (hrange : ¬ (oldfd < 0 ∨ newfd < 0 ∨ newfd ≥ openMax)) (hne : oldfd ≠ newfd)
    {Q : Int → Kernel → Prop} :
    Returns (sysDup2 oldfd newfd alloc) s Q ↔
      if lookupFd s s.curproc oldfd = none then Q (fail .EBADF) s
      else if lookupFd s s.curproc newfd = none then
        Returns (dupInto s.curproc oldfd newfd alloc)
          { s with held := Function.update s.held (.ops s.curproc) (some s.curproc) } Q
      else
        Returns (closeFileOnPtable s.curproc newfd)
          { s with held := Function.update s.held (.ops s.curproc) (some s.curproc) } fun _ t =>
            Returns (dupInto s.curproc oldfd newfd alloc) t Q := by
  have hfree : s.held (.ops s.curproc) = none := by rw [hheld]
  have hlook := fun n => pFiletableLookup_returns (s := { s with
    held := Function.update s.held (.ops s.curproc) (some s.curproc) }) hP (by simp [hheld]) hlive n
  have hcur : Runs curproc s s.curproc s := (runs_curproc _ _ _).2 ⟨rfl, rfl⟩
  rw [sysDup2, if_neg hrange, if_neg hne, returns_bind, returns_of_runs hcur, returns_bind,
    returns_lockAcquire hfree, returns_bind, returns_of_runs (hlook oldfd), returns_bind,
    returns_of_runs (hlook newfd)]
  have hsame : ∀ n, lookupFd { s with
      held := Function.update s.held (.ops s.curproc) (some s.curproc) } s.curproc n =
      lookupFd s s.curproc n := fun n => rfl
  simp only [hsame]
  by_cases hold : lookupFd s s.curproc oldfd = none
  · rw [if_pos hold, if_pos hold, returns_bind, returns_lockRelease (by simp), returns_pure]
    simp only [update_held_cancel hfree]
  · rw [if_neg hold, if_neg hold]
    by_cases hnew : lookupFd s s.curproc newfd = none
    · rw [if_pos hnew, if_pos hnew]
    · rw [if_neg hnew, if_neg hnew, returns_bind]

/-! ## What the condition gives -/

/-- A file that the search of the global table leads back to is no duplicate. -/
theorem isDupe_of_found (hwf : (Ledger.of s).WF) (hf : s.heap r = some f)
    (hfound : (globalSlot s f.globalFd).bind s.gft.openFiles = some r) : f.isDupe = false := by
  obtain ⟨j, -, hj⟩ := Option.bind_eq_some_iff.1 hfound
  by_cases h3 : j.val < 3
  · have hr : r = j.val := Option.some.inj (hj.symm.trans (hwf.openStd j h3))
    rw [hr] at hf
    exact (hwf.std_status h3 hf).isDupe
  · obtain ⟨-, hop⟩ := hwf.opened hf ⟨j, not_lt.1 h3, hj⟩
    exact hop.isDupe

theorem found_of_globalSlot (hwf : (Ledger.of s).WF) (hf : s.heap r = some f)
    (hfound : (globalSlot s f.globalFd).bind s.gft.openFiles = some r)
    (hv : f.refcount = 1 → f.fileVnode ≠ none) : Found s r f where
  live := (noDangling_of_wf hwf).table
  slot := Option.bind_eq_some_iff.1 hfound
  file := hf
  vnode := hv

/-- Vacating a number frees no duplicate that another slot refers to. -/
theorem Vacates.soleDups (h : Vacates s p newfd) (hwf : (Ledger.of s).WF) :
    (Ledger.of s).SoleDups p newfd := by
  intro k r' f' hr' hf' hfd hd
  exfalso
  cases h with
  | @unused P i hP hnone hi =>
      rw [lookupFd_eq] at hnone
      exact Ledger.lookup_eq_none hnone hr' hf' hfd
  | @sole P i r f hP hi hf hn hsole hfound hv =>
      have hr'' : P.pFiletable.files k = some r' := by
        rw [← rowOf_some hP]
        exact hr'
      have hk := hsole k r' f' hr'' hf' hfd
      subst hk
      rw [hi] at hr''
      cases hr''
      have e : f' = f := Option.some.inj (hf'.symm.trans hf)
      rw [e, isDupe_of_found hwf hf hfound] at hd
      cases hd

/-- The state after the number has been vacated: it is unused, and a slot is free. -/
structure Vacated (s : Kernel) (p : ProcRef) (newfd : Int) (s₁ : Kernel) : Prop where
  lost : ∀ r' f', Denoted s p newfd r' f' → s₁.heap r' = lessOne f'
  other : ∀ r' f', s.heap r' = some f' → f'.localFd ≠ newfd → s₁.heap r' = some f'
  cells : ∀ c, (∀ r' f', Denoted s p newfd r' f' → f'.refcount = 1 → f'.seekPos ≠ some c) →
    s₁.cells c = s.cells c
  held : s₁.held = s.held
  curproc : s₁.curproc = s.curproc
  nextFile : s₁.nextFile = s.nextFile
  closes : Ledger.Closes p newfd (Ledger.of s) (Ledger.of s₁)
  room : ∃ P₁ k, s₁.procs p = some P₁ ∧ firstFree P₁.pFiletable.files = some k

/-- `close_file_on_ptable` vacates a number that one slot has. -/
theorem returns_close_sole (hlock : LocksFree s p) (hwf : (Ledger.of s).WF) (hnew : 0 ≤ newfd)
    (hP : s.procs p = some P) (hi : P.pFiletable.files i = some r) (hf : s.heap r = some f)
    (hn : f.localFd = newfd)
    (hsole : ∀ j q g, P.pFiletable.files j = some q → s.heap q = some g → g.localFd = newfd →
      j = i)
    (hfound : (globalSlot s f.globalFd).bind s.gft.openFiles = some r)
    (hv : f.refcount = 1 → f.fileVnode ≠ none) :
    Returns (closeFileOnPtable p newfd) s fun _ s₁ => Vacated s p newfd s₁ := by
  subst hn
  have hdup := isDupe_of_found hwf hf hfound
  have hc : Closable s P i r f :=
    ⟨hi, fun j q hq => (noDangling_of_wf hwf).process p P j q hP hq, hsole, hdup,
      found_of_globalSlot hwf hf hfound hv⟩
  have hvac : Vacates s p f.localFd := .sole hP hi hf rfl hsole hfound hv
  obtain ⟨u, s₁, hrun, hlost, hprocs⟩ := returns_closeFileOnPtable hlock hP hc
  -- the file is the one that the number denotes
  have hden : ∀ r' f', Denoted s p f.localFd r' f' → r' = r ∧ f' = f := by
    rintro r' f' ⟨-, hlook, hf'⟩
    rw [lookupFd_eq] at hlook
    obtain ⟨k, g, hk, hg, hgd⟩ := Ledger.lookup_eq_some hlook
    have hk' : P.pFiletable.files k = some r' := by
      rw [← rowOf_some hP]
      exact hk
    have hki := hsole k r' g hk' hg hgd
    subst hki
    rw [hi] at hk'
    cases hk'
    exact ⟨rfl, Option.some.inj (hf'.symm.trans hf)⟩
  have hself : Denoted s p f.localFd r f := by
    refine ⟨hnew, ?_, hf⟩
    have hrow : (Ledger.of s).row p i = some r := by
      rw [← hi]
      exact congrFun (rowOf_some hP) i
    cases hl : lookupFd s p f.localFd with
    | none =>
        rw [lookupFd_eq] at hl
        exact absurd rfl (Ledger.lookup_eq_none hl hrow hf)
    | some r' =>
        have hl' := hl
        rw [lookupFd_eq] at hl'
        obtain ⟨k, g, hk, hg, -⟩ := Ledger.lookup_eq_some hl'
        rw [(hden r' g ⟨hnew, hl, hg⟩).1]
  refine ⟨u, s₁, hrun, fun r' f' hd => ?_, fun r' f' hf' hne => ?_, fun c hcell => ?_, hlost.held,
    hlost.curproc, hlost.nextFile, (sim_closeFileOnPtable hwf (hvac.soleDups hwf) hrun).1, ?_⟩
  · obtain ⟨rfl, rfl⟩ := hden r' f' hd
    rw [hlost.heap, Function.update_self]
  · have hrr : r' ≠ r := by
      rintro rfl
      rw [hf] at hf'
      cases hf'
      exact hne rfl
    rw [hlost.heap, Function.update_of_ne hrr, hf']
  · exact hlost.cells c (hcell r f hself)
  · obtain ⟨k, hk⟩ := exists_firstFree (t := (emptied P i).pFiletable.files)
      ⟨i, by simp [emptied]⟩
    exact ⟨_, k, (congrFun hprocs p).trans (Function.update_self _ _ _), hk⟩

/-- What is known when the number has been vacated and the file has got its duplicate. -/
theorem redirected_of_dup {s₁ t : Kernel} {L₁ : Ledger} {P₁ : Os161.Proc} {r₁ : FileRef}
    {f₁ : File}
    (hcl : Ledger.Closes p newfd (Ledger.of s) L₁) (hunused : L₁.Unused p newfd)
    (hdup : Ledger.Dup p r₁ f₁ newfd L₁ (Ledger.of t)) (hnew : 0 ≤ newfd)
    (hd : Duplicated s₁ p P₁ i r f newfd t) (hs₁ : s₁.nextFile = s.nextFile)
    (hlost : ∀ r' f', Denoted s p newfd r' f' → t.heap r' = lessOne f') :
    Redirected s p newfd f t := by
  have hadds := hdup.adds hcl.wf_and_sole.1
  have hnext : L₁.nextFile = s.nextFile := hcl.shrinks.nextFile
  have hgheap : t.heap s.nextFile = some (Ledger.dupOf f newfd) := by
    rw [hd.heap, hs₁, Function.update_self]
  have hrow : (Ledger.of t).row p i = some s.nextFile := by
    have h : rowOf t.procs p i = some s₁.nextFile := by
      rw [hd.procs, rowOf_update]
      simp
    rw [← hs₁]
    exact h
  refine ⟨⟨s.nextFile, Ledger.dupOf f newfd, ⟨hnew, ?_, hgheap⟩, rfl⟩, hlost, ?_⟩
  · rw [lookupFd_eq]
    cases hl : (Ledger.of t).lookup p newfd with
    | none => exact absurd rfl (Ledger.lookup_eq_none hl hrow hgheap)
    | some r' =>
        obtain ⟨j, f', hj, hf', hfd⟩ := Ledger.lookup_eq_some hl
        obtain ⟨k, hk⟩ := hadds.slot
        -- the only slot that the number has got is that of the new file
        rcases hk p j r' hj with hold | ⟨-, -, rfl⟩
        · obtain ⟨f₀, hf₀, -⟩ := hcl.wf_and_sole.1.slots p j r' hold
          obtain ⟨f'', hf'', hsame⟩ := hadds.old r' f₀ hf₀
          have e : f'' = f' := Option.some.inj (hf''.symm.trans hf')
          subst e
          exact absurd (hsame.localFd.symm.trans hfd) (hunused j r' f₀ hold hf₀)
        · rw [hnext]
  · intro q fd hne
    have hstay : Ledger.Stay q fd (Ledger.of s) (Ledger.of t) :=
      (hcl.stay fun he => (hne he.symm).symm).trans hadds.stay
    have hnone : Ledger.NoneNew q fd (Ledger.of s) (Ledger.of t) :=
      (hcl.shrinks.noneNew).trans (hadds.noneNew hcl.wf_and_sole.1 fun he => (hne he.symm).symm)
    have hlook : lookupFd t q fd = lookupFd s q fd := by
      rw [lookupFd_eq, lookupFd_eq]
      exact Ledger.lookup_of_stay hstay hnone
    refine ⟨hlook, fun r' f' hd' => ?_⟩
    have hl := hd'.found
    rw [lookupFd_eq] at hl
    obtain ⟨j, g', hj, hg', hgd⟩ := Ledger.lookup_eq_some hl
    have e : g' = f' := Option.some.inj (hg'.symm.trans hd'.file)
    subst e
    obtain ⟨-, f'', hf'', hsame⟩ := hstay j r' g' hj hg' hgd
    exact ⟨f'', ⟨hd'.nonneg, hlook.trans hd'.found, hf''⟩, hsame⟩

/-- The number is vacated, the file gets its duplicate, and the call returns the number. -/
theorem returns_redirected (hwf : (Ledger.of s).WF) (hheld : s.held = fun _ => none)
    (hP : s.procs s.curproc = some P) (hden : Denoted s s.curproc oldfd r f) (hnew : 0 ≤ newfd)
    (hmax : newfd < openMax) (hne : oldfd ≠ newfd) (hvac : Vacates s s.curproc newfd)
    (hseek : SeekKept s s.curproc newfd f) :
    Returns (sysDup2 oldfd newfd true) s fun ret t => ret = newfd ∧
      Redirected s s.curproc newfd f t := by
  have hrange : ¬ (oldfd < 0 ∨ newfd < 0 ∨ newfd ≥ openMax) := by
    have := hden.nonneg
    omega
  have hlive : ∀ j q, P.pFiletable.files j = some q → s.heap q ≠ none :=
    fun j q hq => (noDangling_of_wf hwf).process _ P j q hP hq
  let s₀ : Kernel := { s with held := Function.update s.held (.ops s.curproc) (some s.curproc) }
  have hlock₀ : LocksFree s₀ s.curproc := by constructor <;> simp [s₀, hheld]
  have hlook := hden.found
  rw [lookupFd_eq] at hlook
  obtain ⟨j, f', hj, hf', hfd⟩ := Ledger.lookup_eq_some hlook
  have e : f' = f := Option.some.inj (hf'.symm.trans hden.file)
  subst e
  have hr : r ≠ s.nextFile := ne_of_lt (hwf.lt_nextFile hden.file)
  -- the end of the call, from the state in which the number has been vacated
  have hend : ∀ s₁, Vacated s₀ s.curproc newfd s₁ →
      Returns (dupInto s.curproc oldfd newfd true) s₁ fun ret t => ret = newfd ∧
        ∃ P₁ k, Duplicated s₁ s.curproc P₁ k r f' newfd t := by
    intro s₁ hv
    obtain ⟨P₁, k, hP₁, hk⟩ := hv.room
    have hlock₁ : LocksFree s₁ s.curproc := by
      constructor
      · rw [hv.held]
        exact hlock₀.globalFile
      · rw [hv.held]
        exact hlock₀.procFt
      · rw [hv.held]
        exact hlock₀.file
    have hops : s₁.held (.ops s.curproc) = some s₁.curproc := by
      rw [hv.held, hv.curproc]
      simp [s₀]
    have hlook₁ : lookupFd s₁ s.curproc oldfd = some r := by
      rw [lookupFd_eq, hv.closes.lookup_keep hne]
      exact hlook
    have hf₁ : s₁.heap r = some f' := hv.other r f' hden.file (by rw [hfd]; exact hne)
    have hcell : ∀ c, f'.seekPos = some c → s₁.cells c ≠ none := by
      intro c hc
      obtain ⟨hc₀, hkeep⟩ := hseek c hc
      rw [hv.cells c fun r' f'' hd => hkeep r' f'' ⟨hd.nonneg, hd.found, hd.file⟩]
      exact hc₀
    have hlive₁ : ∀ j q, P₁.pFiletable.files j = some q → s₁.heap q ≠ none :=
      fun j q hq => (noDangling_of_wf hv.closes.wf_and_sole.1).process _ P₁ j q hP₁ hq
    have hr₁ : r ≠ s₁.nextFile := by
      rw [hv.nextFile]
      exact hr
    exact returns_mono (returns_dupInto hlock₁ hops hP₁ hlive₁ hlook₁ hf₁ hr₁ hcell hk hnew)
      fun ret t ht => ⟨ht.1, P₁, k, ht.2⟩
  have hcall : Returns (sysDup2 oldfd newfd true) s fun ret t => ret = newfd ∧
      ∃ s₁ P₁ k, Vacated s₀ s.curproc newfd s₁ ∧ Duplicated s₁ s.curproc P₁ k r f' newfd t := by
    rw [returns_sysDup2 hP hheld hlive hrange hne, if_neg (by rw [hden.found]; simp)]
    cases hvac with
    | @unused P' i hP' hnone hi =>
        have hv : Vacated s₀ s.curproc newfd s₀ := by
          obtain ⟨k, hk⟩ := exists_firstFree ⟨i, hi⟩
          refine ⟨fun r' f'' hd => ?_, fun r' f'' h _ => h, fun c _ => rfl, rfl, rfl, rfl,
            ⟨.refl, hwf, ?_⟩, P', k, hP', hk⟩
          · have hn : lookupFd s s.curproc newfd = some r' := hd.found
            rw [hnone] at hn
            cases hn
          · exact (Vacates.unused hP' hnone hi).soleDups hwf
        rw [if_pos hnone]
        exact returns_mono (hend s₀ hv) fun ret t ⟨hret, P₁, k, hd⟩ => ⟨hret, s₀, P₁, k, hv, hd⟩
    | @sole P' i r' f'' hP' hi hf'' hn hsole hfound hv =>
        have hsome : lookupFd s s.curproc newfd ≠ none := by
          intro hnone
          rw [lookupFd_eq] at hnone
          have hrow : (Ledger.of s).row s.curproc i = some r' := by
            rw [← hi]
            exact congrFun (rowOf_some hP') i
          exact Ledger.lookup_eq_none hnone hrow hf'' hn
        rw [if_neg hsome]
        exact returns_mono (returns_close_sole (s := s₀) hlock₀ hwf hnew hP' hi hf'' hn hsole
          hfound hv) fun _ s₁ hs₁ => returns_mono (hend s₁ hs₁)
            fun ret t ⟨hret, P₁, k, hd⟩ => ⟨hret, s₁, P₁, k, hs₁, hd⟩
  obtain ⟨ret, t, hrun, hret, s₁, P₁, k, hv, hd⟩ := hcall
  refine ⟨ret, t, hrun, hret, ?_⟩
  rcases sim_sysDup2 hwf (fun _ _ => hvac.soleDups hwf) hrun with hsame |
    ⟨r', f'', L₁, hdups, hcl, hunused, hdup⟩
  · -- the ledger has changed: there is a new file
    have hnone := hwf.fresh s.nextFile (le_refl _)
    rw [← hsame] at hnone
    have hgheap : t.heap s₁.nextFile = some (Ledger.dupOf f' newfd) := by
      rw [hd.heap, Function.update_self]
    rw [hv.nextFile] at hgheap
    exact absurd (hnone.symm.trans hgheap) (by simp)
  · refine redirected_of_dup hcl hunused hdup hnew hd hv.nextFile fun q g hq => ?_
    have hqf := hq.found
    rw [lookupFd_eq] at hqf
    obtain ⟨k', g', -, hg', hgd⟩ := Ledger.lookup_eq_some hqf
    have eg : g' = g := Option.some.inj (hg'.symm.trans hq.file)
    subst eg
    have hqr : q ≠ r := by
      rintro rfl
      have eg : g' = f' := Option.some.inj (hq.file.symm.trans hden.file)
      subst eg
      exact hne (hfd.symm.trans hgd)
    have hqn : q ≠ s₁.nextFile := by
      rw [hv.nextFile]
      exact ne_of_lt (hwf.lt_nextFile hq.file)
    rw [hd.heap, Function.update_of_ne hqn, Function.update_of_ne hqr]
    exact hv.lost q g' ⟨hq.nonneg, hq.found, hq.file⟩

/-- A number that is not open is refused. -/
theorem returns_refused (hP : s.procs s.curproc = some P) (hheld : s.held = fun _ => none)
    (hlive : ∀ j q, P.pFiletable.files j = some q → s.heap q ≠ none)
    (hclosed : ∀ r f, ¬ Denoted s s.curproc oldfd r f)
    (hne : oldfd = newfd → ¬ (0 ≤ newfd ∧ newfd < openMax)) :
    Runs (sysDup2 oldfd newfd alloc) s (fail .EBADF) s := by
  by_cases hrange : oldfd < 0 ∨ newfd < 0 ∨ newfd ≥ openMax
  · rw [sysDup2, if_pos hrange]
    exact (runs_pure _ _ _ _).2 ⟨rfl, rfl⟩
  · have hne' : oldfd ≠ newfd := fun he => hne he (by omega)
    have hlook : lookupFd s s.curproc oldfd = none := by
      cases hl : lookupFd s s.curproc oldfd with
      | none => rfl
      | some r =>
          have hl' := hl
          rw [lookupFd_eq] at hl'
          obtain ⟨i, f, -, hf, -⟩ := Ledger.lookup_eq_some hl'
          exact absurd ⟨by omega, hl, hf⟩ (hclosed r f)
    have hreturns : Returns (sysDup2 oldfd newfd alloc) s fun ret t => ret = fail .EBADF ∧ t = s := by
      rw [returns_sysDup2 hP hheld hlive hrange hne', if_pos hlook]
      exact ⟨rfl, rfl⟩
    obtain ⟨ret, t, hrun, rfl, rfl⟩ := hreturns
    exact hrun

end Call

/-- A descriptor denotes the same whichever process runs. -/
theorem denoted_curproc {s : Kernel} {p q : ProcRef} {fd : Int} {r : FileRef} {f : File} :
    Denoted { s with curproc := q } p fd r f ↔ Denoted s p fd r f :=
  ⟨fun h => ⟨h.nonneg, h.found, h.file⟩, fun h => ⟨h.nonneg, h.found, h.file⟩⟩

/-- In a run whose closes keep the file tables in order, a `dup2` within the condition has its
documented meaning. -/
theorem dup2_means {s : Kernel} (h : Reach step KeepsTables boot s) {p : ProcRef}
    (hp : userThread s p true = true) {oldfd newfd : Int} {alloc : Bool}
    (hd : Duplicable s p oldfd newfd alloc) : MeansDup2 s p oldfd newfd alloc := by
  have hwf : (Ledger.of s).WF := wf_of_reach (fun _ _ ha => ha.1) h
  have hheld := held_of_reach (h.mono fun _ _ ha => ha.2)
  obtain ⟨P, hP⟩ := exists_proc_of_userThread hp
  have hlive : ∀ j q, P.pFiletable.files j = some q → s.heap q ≠ none :=
    fun j q hq => (noDangling_of_wf hwf).process p P j q hP hq
  -- what the call does to a number that is not open
  have hrefused : (∀ r f, ¬ Denoted s p oldfd r f) →
      Runs (sysDup2 oldfd newfd alloc) { s with curproc := p } (fail .EBADF)
        { s with curproc := p } := by
    intro hclosed
    refine returns_refused (s := { s with curproc := p }) hP hheld hlive
      (fun r f hden => hclosed r f ⟨hden.nonneg, hden.found, hden.file⟩) fun he hr => ?_
    obtain ⟨r, f, hden⟩ := hd.same he hr.1 hr.2
    exact hclosed r f hden
  -- and to one that is, when the new number is in range
  have hopened : ∀ r f, Denoted s p oldfd r f → 0 ≤ newfd → newfd < openMax →
      ∃ t, Runs (sysDup2 oldfd newfd alloc) { s with curproc := p } newfd t ∧
        if oldfd = newfd then t = { s with curproc := p } else Redirected s p newfd f t := by
    intro r f hden hnew hmax
    by_cases he : oldfd = newfd
    · subst he
      exact ⟨_, runs_sysDup2_same hnew hmax, by rw [if_pos rfl]⟩
    · obtain ⟨rfl, hvac, hseek⟩ := hd.distinct r f hden hnew hmax he
      have hvac' : Vacates { s with curproc := p } p newfd := by
        cases hvac with
        | unused hP' hnone hi => exact .unused hP' hnone hi
        | sole hP' hi hf hn hsole hfound hv => exact .sole hP' hi hf hn hsole hfound hv
      have hseek' : SeekKept { s with curproc := p } p newfd f := fun c hc =>
        ⟨(hseek c hc).1, fun r' f' hd' => (hseek c hc).2 r' f' (denoted_curproc.1 hd')⟩
      obtain ⟨ret, t, hrun, rfl, hred⟩ := returns_redirected (s := { s with curproc := p }) hwf
        hheld hP (denoted_curproc.2 hden) hnew hmax he hvac' hseek'
      refine ⟨t, hrun, ?_⟩
      rw [if_neg he]
      exact ⟨hred.denotes, fun r' f' hd' => hred.lost r' f' (denoted_curproc.2 hd'),
        fun q fd hne => ⟨(hred.others q fd hne).1,
          fun r' f' hd' => (hred.others q fd hne).2 r' f' (denoted_curproc.2 hd')⟩⟩
  refine ⟨hopened, fun hclosed => ⟨_, hrefused hclosed⟩, fun ret t hret hrun => ?_⟩
  by_cases hclosed : ∀ r f, ¬ Denoted s p oldfd r f
  · obtain ⟨-, rfl⟩ := (hrefused hclosed).det hrun
    exact ⟨rfl, rfl⟩
  · push Not at hclosed
    obtain ⟨r, f, hden⟩ := hclosed
    by_cases hr : 0 ≤ newfd ∧ newfd < openMax
    · obtain ⟨t', hrun', -⟩ := hopened r f hden hr.1 hr.2
      obtain ⟨hn, -⟩ := hrun'.det hrun
      omega
    · have hrange : oldfd < 0 ∨ newfd < 0 ∨ newfd ≥ openMax := by omega
      rw [sysDup2, if_pos hrange] at hrun
      obtain ⟨-, rfl⟩ := (runs_pure _ _ _ _).1 hrun
      exact ⟨rfl, rfl⟩

/-! ## Checked calls -/

/-- `KeepsTables`, computed. -/
def keepsTables (s : Kernel) (a : Action) : Bool := closesSoleDups s a && sensibleMode s a

theorem reach_of_keepsTables {s : Kernel} {as : List Action}
    (h : execChecked keepsTables boot as = some s) : Reach step KeepsTables boot s := by
  refine reach_of_execChecked (fun t a ht hc => ?_) as .refl h
  obtain ⟨hsole, hmode⟩ := Bool.and_eq_true_iff.1 hc
  exact ⟨closesSoleDups_sound (wf_of_reach (fun _ _ ha => ha.1) ht) hsole, hmode⟩

/-- Whether the slot `i` of `p` is the only one with the number `newfd`, and the search of the
global table leads back to its file. -/
def soleSlot (s : Kernel) (p : ProcRef) (newfd : Int) (i : Fin openMax) : Bool :=
  (s.procs p).any fun P => (P.pFiletable.files i).any fun r => (s.heap r).any fun f =>
    f.localFd == newfd &&
    ((List.finRange openMax).all fun j => (P.pFiletable.files j).all fun q =>
      (s.heap q).all fun g => g.localFd != newfd || j == i) &&
    (globalSlot s f.globalFd).bind s.gft.openFiles == some r &&
    (f.refcount != 1 || f.fileVnode.isSome)

theorem vacates_of_soleSlot {s : Kernel} {p : ProcRef} {newfd : Int} {i : Fin openMax}
    (h : soleSlot s p newfd i = true) : Vacates s p newfd := by
  obtain ⟨P, hP, h⟩ := (Option.any_eq_true _ _).1 h
  obtain ⟨r, hi, h⟩ := (Option.any_eq_true _ _).1 h
  obtain ⟨f, hf, h⟩ := (Option.any_eq_true _ _).1 h
  simp only [Bool.and_eq_true, beq_iff_eq, Bool.or_eq_true, bne_iff_ne] at h
  obtain ⟨⟨⟨hn, hsole⟩, hfound⟩, hv⟩ := h
  refine .sole hP hi hf hn (fun j q g hq hg hgd => ?_) hfound fun hone => ?_
  · have hj := List.all_eq_true.1 hsole j (List.mem_finRange j)
    simpa [hq, hg, hgd] using hj
  · rcases hv with hv | hv
    · exact absurd hone hv
    · exact Option.isSome_iff_ne_none.1 hv

/-- Whether `fd` of `p` is open, with a seek position that is allocated and is not the one of
`newfd`. -/
def seekApart (s : Kernel) (p : ProcRef) (fd newfd : Int) : Bool :=
  (lookupFd s p fd).any fun r => (s.heap r).any fun f => f.seekPos.all fun c =>
    (s.cells c).isSome && (lookupFd s p newfd).all fun q => (s.heap q).all fun g =>
      g.seekPos != some c

theorem seekKept_of_seekApart {s : Kernel} {p : ProcRef} {fd newfd : Int}
    (h : seekApart s p fd newfd = true) {r : FileRef} {f : File} (hd : Denoted s p fd r f) :
    SeekKept s p newfd f := by
  intro c hc
  simp only [seekApart, hd.found, hd.file, hc, Option.any_some, Option.all_some,
    Bool.and_eq_true] at h
  refine ⟨Option.isSome_iff_ne_none.1 h.1, fun r' f' hd' _ => ?_⟩
  have h₂ := h.2
  rw [hd'.found, Option.all_some, hd'.file, Option.all_some] at h₂
  simpa using h₂

/-- A second file is opened: descriptor 4. -/
def openTwo : List Action := openOne ++ [⟨1, .openFile (some 1) 0 (openOk 8)⟩]

/-- Descriptor 3 is duplicated over descriptor 4, which is open. -/
theorem dup2_means_openTwo : ∃ s, execChecked keepsTables boot openTwo = some s ∧
    (∃ r f, Denoted s 1 3 r f) ∧ (∃ r f, Denoted s 1 4 r f) ∧ MeansDup2 s 1 3 4 true := by
  have hrun : ((execChecked keepsTables boot openTwo).any fun s =>
      userThread s 1 true && ((lookupFd s 1 3).any fun r => (s.heap r).isSome) &&
      ((lookupFd s 1 4).any fun r => (s.heap r).isSome) && soleSlot s 1 4 4 &&
      seekApart s 1 3 4) = true := by decide +kernel
  obtain ⟨s, hs, hrun⟩ := (Option.any_eq_true _ _).1 hrun
  simp only [Bool.and_eq_true] at hrun
  obtain ⟨⟨⟨⟨hp, h3⟩, h4⟩, hslot⟩, hseek⟩ := hrun
  have hopen : ∀ {fd : Int}, 0 ≤ fd →
      ((lookupFd s 1 fd).any fun r => (s.heap r).isSome) = true → ∃ r f, Denoted s 1 fd r f := by
    intro fd h0 h
    obtain ⟨r, hr, hf⟩ := (Option.any_eq_true _ _).1 h
    obtain ⟨f, hf⟩ := Option.isSome_iff_exists.1 hf
    exact ⟨r, f, h0, hr, hf⟩
  refine ⟨s, hs, hopen (by decide) h3, hopen (by decide) h4, ?_⟩
  exact dup2_means (reach_of_keepsTables hs) hp
    ⟨fun he => absurd he (by decide), fun r f hd _ _ _ =>
      ⟨rfl, vacates_of_soleSlot hslot, seekKept_of_seekApart hseek hd⟩⟩

/-- A number that is not open, duplicated onto itself, is returned. -/
theorem not_dup2_means : ¬ ∀ s, Reach step KeepsTables boot s → ∀ p, userThread s p true = true →
    ∀ oldfd newfd alloc, MeansDup2 s p oldfd newfd alloc := by
  intro h
  have hrun : ((execChecked keepsTables boot startOne).any fun s =>
      userThread s 1 true && (lookupFd s 1 7).isNone) = true := by decide +kernel
  obtain ⟨s, hs, hrun⟩ := (Option.any_eq_true _ _).1 hrun
  obtain ⟨hp, hnone⟩ := Bool.and_eq_true_iff.1 hrun
  have hclosed : ∀ r f, ¬ Denoted s 1 7 r f := by
    intro r f hd
    rw [Option.isNone_iff_eq_none, hd.found] at hnone
    cases hnone
  obtain ⟨t, ht⟩ := (h s (reach_of_keepsTables hs) 1 hp 7 7 true).closed hclosed
  have hsame : Runs (sysDup2 7 7 true) { s with curproc := 1 } 7 { s with curproc := 1 } :=
    runs_sysDup2_same (by decide) (by decide)
  obtain ⟨hret, -⟩ := ht.det hsame
  exact absurd hret (by decide)

end Os161.Main

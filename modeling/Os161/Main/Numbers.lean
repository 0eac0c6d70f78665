import Os161.Main.Locks
import Os161.Main.OpenFiles
import Os161.Vfs.Numbers

set_option autoImplicit false

/-!
# Descriptor numbers over whole runs

`open` draws the number of a new descriptor from one counter for the whole system, `dup2` takes
any number below `OPEN_MAX` from the user, and `fork` leaves a standard file in every standard slot
that is empty in the parent. So numbers are unique within a process, and the number that `open`
returns denotes the file just opened, only in runs in which these sources do not collide.
-/

namespace Os161.Main

open Os161.Lib.Program
open Os161.Lib.Runs
open Os161.Lib.Slots
open Os161.Vfs
open Os161.Proc
open Os161.Syscall

/-! ## Numbers are unique -/

/-- No two slots of a process have one number, so that a number denotes at most one file. -/
structure UniqueNumbers (s : Kernel) : Prop where
  slots : ∀ p P i j r r' f f', s.procs p = some P → P.pFiletable.files i = some r →
    P.pFiletable.files j = some r' → s.heap r = some f → s.heap r' = some f' →
    f.localFd = f'.localFd → i = j
  lookup : ∀ p P i r f, s.procs p = some P → P.pFiletable.files i = some r → s.heap r = some f →
    lookupFd s p f.localFd = some r

/-- Closing a number takes exactly one slot of the process away. -/
def ClosesOne (s s' : Kernel) (p : ProcRef) : Prop :=
  ∃! i, (Ledger.of s).row p i ≠ none ∧ (Ledger.of s').row p i = none

/-- The action does not bring the sources of numbers into collision. -/
structure KeepsNumbers (s : Kernel) (a : Action) : Prop where
  sole : ClosesSoleDups s a
  opens : ∀ filename flags env, a.call = .openFile filename flags env →
    Opens s a.caller filename flags env → (∃ i, (Ledger.of s).row a.caller i = none) →
    (Ledger.of s).Unused a.caller s.gft.nextFd
  forks : ∀ env, a.call = .fork env → Forks s env → (Ledger.of s).StdInPlace a.caller

theorem Effect.unique {s : Kernel} {a : Action} {L' : Ledger}
    (h : Effect s a (Ledger.of s) L') (hok : KeepsNumbers s a) (hwf : (Ledger.of s).WF)
    (hu : (Ledger.of s).Unique) : L'.Unique := by
  cases h with
  | idle h =>
      rw [h]
      exact hu
  | @abandoned f hf h =>
      rw [h]
      apply hu.of_sub
      intro q i n hn
      obtain ⟨r, g, hr, hg, hfd⟩ := Ledger.number_eq_some.1 hn
      obtain ⟨g', hg', -⟩ := hwf.slots q i r hr
      have hne : r ≠ (Ledger.of s).nextFile := ne_of_lt (hwf.lt_nextFile hg')
      exact Ledger.number_eq_some.2 ⟨r, g, hr, by simpa [Ledger.alloc, hne] using hg, hfd⟩
  | opened hcall hopens _ h =>
      exact hu.adds (h.adds hwf) hwf (hok.opens _ _ _ hcall hopens)
  | closed _ _ h _ => exact hu.of_sub fun _ _ _ hn => h.shrinks.number hn
  | @duped oldfd newfd alloc r f L₁ hcall _ hd hcl hgone h =>
      have hu₁ : L₁.Unique := hu.of_sub fun _ _ _ hn => hcl.shrinks.number hn
      exact hu₁.adds (h.adds hcl.wf_and_sole.1) hcl.wf_and_sole.1 fun _ => hgone
  | started h =>
      rw [h]
      exact hu.addRow hwf
  | failed h => exact (hu.addRow hwf).of_sub fun _ _ _ hn => h.number hn
  | forked hcall hforks _ h hrow => exact hu.shares hwf (hok.forks _ hcall hforks) h hrow
  | loaded _ h =>
      rw [h]
      exact hu
  | left _ h => exact hu.of_sub fun _ _ _ hn => h.number hn
  | leftLoaded _ _ h =>
      have hu' : ((Ledger.of s).load a.caller).Unique := hu
      exact hu'.of_sub fun _ _ _ hn => h.number hn

theorem boot_unique : (Ledger.of boot).Unique := by
  intro p i j n hi hj
  obtain ⟨r, f, hr, hf, hfd⟩ := Ledger.number_eq_some.1 hi
  obtain ⟨r', f', hr', hf', hfd'⟩ := Ledger.number_eq_some.1 hj
  rw [boot_row] at hr hr'
  split_ifs at hr with hp
  rw [if_pos hp] at hr'
  obtain ⟨-, rfl⟩ := stdSlots_eq_some hr
  obtain ⟨-, rfl⟩ := stdSlots_eq_some hr'
  obtain ⟨-, rfl⟩ := boot_heap hf
  obtain ⟨-, rfl⟩ := boot_heap hf'
  have h₁ : ((i.val : Nat) : Int) = n := hfd
  have h₂ : ((j.val : Nat) : Int) = n := hfd'
  exact Fin.ext (by omega)

theorem uniqueNumbers_of_unique {s : Kernel} (hu : (Ledger.of s).Unique) : UniqueNumbers s := by
  have hnum : ∀ {p P i r f}, s.procs p = some P → P.pFiletable.files i = some r →
      s.heap r = some f → (Ledger.of s).number p i = some f.localFd := by
    intro p P i r f hP hr hf
    exact Ledger.number_eq_some.2 ⟨r, f, (congrFun (rowOf_some hP) i).trans hr, hf, rfl⟩
  refine ⟨fun p P i j r r' f f' hP hr hr' hf hf' hfd => ?_, fun p P i r f hP hr hf => ?_⟩
  · apply hu p i j _ (hnum hP hr hf)
    rw [hfd]
    exact hnum hP hr' hf'
  · rw [lookupFd_eq]
    have hrow : (Ledger.of s).row p i = some r := (congrFun (rowOf_some hP) i).trans hr
    cases hl : (Ledger.of s).lookup p f.localFd with
    | none => exact absurd rfl (Ledger.lookup_eq_none hl hrow hf)
    | some r' =>
        obtain ⟨j, g, hj, hg, hgd⟩ := Ledger.lookup_eq_some hl
        have hji := hu p j i _ (Ledger.number_eq_some.2 ⟨r', g, hj, hg, hgd⟩) (hnum hP hr hf)
        subst hji
        rw [hrow] at hj
        exact hj.symm

theorem closesOne_of_unique {s s' : Kernel} {p : ProcRef} {fd ret : Int}
    (hwf : (Ledger.of s).WF) (hu : (Ledger.of s).Unique)
    (hsole : (Ledger.of s).SoleDups p fd) (hcl : ClosesSlots (Ledger.of s) p fd)
    (h : Runs (sysClose fd) { s with curproc := p } ret s') : ClosesOne s s' p := by
  rcases sim_sysClose (s := { s with curproc := p }) hwf (fun _ => hsole) h with ⟨hno, -⟩ |
    ⟨-, hcloses, hgone⟩
  · exact absurd hcl hno
  · obtain ⟨r, f, hlook, hf, -⟩ := hcl
    obtain ⟨i, g, hi, hg, hfd⟩ := Ledger.lookup_eq_some hlook
    have hni : (Ledger.of s).number p i = some fd := Ledger.number_eq_some.2 ⟨r, g, hi, hg, hfd⟩
    refine ⟨i, ⟨by simp [hi], ?_⟩, fun j ⟨hj, hj'⟩ => ?_⟩
    · cases hr : (Ledger.of s').row p i with
      | none => rfl
      | some r' =>
          obtain ⟨g', hg', -⟩ := hcloses.wf_and_sole.1.slots p i r' hr
          obtain ⟨g₀, hg₀, hsame⟩ := hcloses.shrinks.heap r' g' hg'
          have hold := hcloses.shrinks.row p i r' hr
          have e : r' = r := Option.some.inj (hold.symm.trans hi)
          subst e
          have e : g₀ = g := Option.some.inj (hg₀.symm.trans hg)
          subst e
          exact absurd (hsame.localFd.trans hfd) (hgone i r' g' hr hg')
    · obtain ⟨r', hr'⟩ := Option.ne_none_iff_exists'.1 hj
      by_contra hne
      have hnj : (Ledger.of s).number p j ≠ some fd := fun hn => hne (hu p j i fd hn hni)
      rw [hcloses.slot_keep hr' hnj] at hj'
      cases hj'

/-- In a run without a collision, numbers are unique in every process, and a close takes away
exactly one slot. -/
theorem uniqueNumbers_of_keepsNumbers {s : Kernel} (h : Reach step KeepsNumbers boot s) :
    UniqueNumbers s ∧ ∀ p fd ret s', KeepsNumbers s ⟨p, .close fd⟩ →
      ClosesSlots (Ledger.of s) p fd → Runs (sysClose fd) { s with curproc := p } ret s' →
      ClosesOne s s' p := by
  have key : (Ledger.of s).WF ∧ (Ledger.of s).Unique := by
    refine h.invariant (I := fun s => (Ledger.of s).WF ∧ (Ledger.of s).Unique)
      (fun t a u ht ha hst => ?_) ⟨boot_wf, boot_unique⟩
    have heff := effect_of_step ht.1 ha.sole hst
    exact ⟨heff.wf ht.1, heff.unique ha ht.1 ht.2⟩
  refine ⟨uniqueNumbers_of_unique key.2, fun p fd ret s' hok hcl hrun => ?_⟩
  exact closesOne_of_unique key.1 key.2 (hok.sole fd ⟨rfl, hcl⟩) hcl hrun

/-- `Unused`, computed. -/
def unused (L : Ledger) (p : ProcRef) (fd : Int) : Bool :=
  (List.finRange openMax).all fun i => L.number p i != some fd

theorem unused_sound {L : Ledger} {p : ProcRef} {fd : Int} (h : unused L p fd = true) :
    L.Unused p fd := by
  intro i r f hr hf hfd
  have h₁ := List.all_eq_true.1 h i (List.mem_finRange i)
  rw [Ledger.number_eq_some.2 ⟨r, f, hr, hf, hfd⟩] at h₁
  simp at h₁

/-- `StdInPlace`, computed. -/
def stdInPlace (L : Ledger) (p : ProcRef) : Bool :=
  (List.finRange openMax).all fun k =>
    !(decide (k.val < 3) && (L.row p k).isNone) || unused L p k.val

theorem stdInPlace_sound {L : Ledger} {p : ProcRef} (h : stdInPlace L p = true) :
    L.StdInPlace p := by
  intro k hk hnone
  have h₁ := List.all_eq_true.1 h k (List.mem_finRange k)
  simp only [hk, hnone, decide_true, Option.isNone_none, Bool.and_true, Bool.not_true,
    Bool.false_or] at h₁
  exact unused_sound h₁

/-- `KeepsNumbers`, computed. -/
def keepsNumbers (s : Kernel) (a : Action) : Bool :=
  closesSoleDups s a &&
    match a.call with
    | .openFile .. => unused (Ledger.of s) a.caller s.gft.nextFd
    | .fork _ => stdInPlace (Ledger.of s) a.caller
    | _ => true

theorem keepsNumbers_sound {s : Kernel} {a : Action} (hwf : (Ledger.of s).WF)
    (h : keepsNumbers s a = true) : KeepsNumbers s a := by
  obtain ⟨p, call⟩ := a
  obtain ⟨hsole, hcall⟩ := Bool.and_eq_true_iff.1 h
  refine ⟨closesSoleDups_sound hwf hsole, ?_, ?_⟩
  · rintro filename flags env rfl - -
    exact unused_sound hcall
  · rintro env rfl -
    exact stdInPlace_sound hcall

/-- A run within the condition: a file is opened and duplicated, the table is inherited, and the
child opens a file of its own. -/
def numbersRun : List Action :=
  openOne ++ [⟨1, .dup2 3 5 true⟩, ⟨1, .fork forkOk⟩, ⟨2, .openFile (some 1) 0 (openOk 8)⟩]

theorem uniqueNumbers_numbersRun : ∃ s ret s', execChecked keepsNumbers boot numbersRun = some s ∧
    Runs (sysClose 4) { s with curproc := 2 } ret s' ∧ UniqueNumbers s ∧ ClosesOne s s' 2 := by
  have hrun : ((execChecked keepsNumbers boot numbersRun).any fun s =>
      keepsNumbers s ⟨2, .close 4⟩ && returns (.close 4) { s with curproc := 2 } &&
        ((Ledger.of s).lookup 2 4).any fun r => (s.heap r).any fun f =>
          f.stdFileStatus == -1) = true := by decide +kernel
  obtain ⟨s, hs, hrun⟩ := (Option.any_eq_true _ _).1 hrun
  simp only [Bool.and_eq_true, Option.any_eq_true] at hrun
  obtain ⟨⟨hok, hret⟩, r, hr, f, hf, hstd⟩ := hrun
  obtain ⟨ret, s', hclose⟩ := runs_of_returns hret
  have hreach : Reach step KeepsNumbers boot s :=
    reach_of_execChecked (fun t a ht hc => keepsNumbers_sound
      (wf_of_reach (fun _ _ ha => ha.sole) ht) hc) numbersRun .refl hs
  have hwf := wf_of_reach (fun _ _ ha => ha.sole) hreach
  have hstd' : f.stdFileStatus = -1 := by simpa using hstd
  have hcl : ClosesSlots (Ledger.of s) 2 4 := by
    refine ⟨r, f, hr, hf, ?_⟩
    rintro ⟨-, h⟩
    omega
  obtain ⟨hu, hone⟩ := uniqueNumbers_of_keepsNumbers hreach
  exact ⟨s, ret, s', hs, hclose, hu, hone 2 4 ret s' (keepsNumbers_sound hwf hok) hcl hclose⟩

/-- Standard output is duplicated under the number that the next `open` draws. -/
def collidingRun : List Action :=
  startOne ++ [⟨1, .dup2 1 3 true⟩, ⟨1, .openFile (some 1) 0 (openOk 7)⟩]

theorem not_uniqueNumbers_of_anyStep : ¬ ∀ s, Reach step anyStep boot s → UniqueNumbers s := by
  intro h
  have hrun : ((execAll boot collidingRun).any fun s => (s.procs 1).any fun P =>
      (P.pFiletable.files 3).any fun r => (P.pFiletable.files 4).any fun r' =>
        (s.heap r).any fun f => (s.heap r').any fun f' => f.localFd == f'.localFd) = true := by
    decide +kernel
  obtain ⟨s, hs, hrun⟩ := (Option.any_eq_true _ _).1 hrun
  simp only [Option.any_eq_true, beq_iff_eq] at hrun
  obtain ⟨P, hP, r, hr, r', hr', f, hf, f', hf', hfd⟩ := hrun
  have hreach := reach_of_execAll collidingRun .refl hs
  exact absurd ((h s hreach).slots 1 P 3 4 r r' f f' hP hr hr' hf hf' hfd) (by decide)

/-! ## The number that open returns -/

/-- The calls on the descriptor `fd` of `p` find the file `r`: after taking the `ops_lock` they go
on with `r`. -/
structure Finds (s : Kernel) (p : ProcRef) (fd : Int) (r : FileRef) : Prop where
  lookup : lookupFd s p fd = some r
  read : ∀ buf buflen env, sysRead fd (some buf) buflen env { s with curproc := p } =
    (do lockAcquire (.ops p); readFound p r buflen env) { s with curproc := p }
  write : ∀ buf buflen env, sysWrite fd (some buf) buflen env { s with curproc := p } =
    (do lockAcquire (.ops p); writeFound p r buflen env) { s with curproc := p }
  lseek : ∀ pos whence env, sysLseek fd pos whence env { s with curproc := p } =
    (do lockAcquire (.ops p); lockRelease (.ops p); lseekFound r pos whence env)
      { s with curproc := p }
  close : sysClose fd { s with curproc := p } =
    (do lockAcquire (.ops p); closeFound p fd r) { s with curproc := p }
  dup2 : ∀ (newfd : Int) alloc ret s', 0 ≤ newfd → newfd < openMax →
    Runs (sysDup2 fd newfd alloc) { s with curproc := p } ret s' → ret = newfd ∨ ret = fail .EMFILE

section FindsOfLookup

variable {s : Kernel} {p : ProcRef} {fd : Int} {r : FileRef}

/-- A lookup with the `ops_lock` held finds what it finds without. -/
theorem lookup_bind {α : Type} {P : Os161.Proc} (hP : s.procs p = some P)
    (hlock : s.held (.procFt p) = none)
    (halloc : ∀ i r, P.pFiletable.files i = some r → s.heap r ≠ none)
    {x : Option FileRef} (hlook : lookupFd s p fd = x) {f : Option FileRef → K α} {k : K α}
    (hk : f x = k) :
    (do lockAcquire (.ops p); let x ← pFiletableLookup p fd; f x) { s with curproc := p } =
      (do lockAcquire (.ops p); k) { s with curproc := p } := by
  apply bind_congr_of_runs
  intro _ s' hacq
  obtain ⟨-, rfl⟩ := (runs_lockAcquire _ _ _ _).1 hacq
  have hl := pFiletableLookup_returns (s := { s with
    curproc := p, held := Function.update s.held (.ops p) (some p) }) hP
    (by simpa using hlock) halloc fd
  have e : lookupFd { s with curproc := p, held := Function.update s.held (.ops p) (some p) } p fd =
      lookupFd s p fd := rfl
  rw [e, hlook] at hl
  rw [bind_of_runs hl, hk]

theorem ret_of_dupInto {oldfd newfd ret : Int} {alloc : Bool} {s' : Kernel}
    (h : Runs (dupInto p oldfd newfd alloc) s ret s') : ret = newfd ∨ ret = fail .EMFILE := by
  simp only [dupInto, runs_bind, runs_ite, runs_pure] at h
  obtain ⟨g, t₁, -, n, t₂, -, _, t₃, -, h⟩ := h
  rcases h with ⟨-, rfl, -⟩ | ⟨-, rfl, -⟩
  · exact .inr rfl
  · exact .inl rfl

theorem finds_of_lookup {P : Os161.Proc} (hP : s.procs p = some P)
    (hlock : s.held (.procFt p) = none)
    (halloc : ∀ i r, P.pFiletable.files i = some r → s.heap r ≠ none) (hlo : 0 ≤ fd)
    (hhi : fd < openMax) (hlook : lookupFd s p fd = some r) : Finds s p fd r := by
  refine
    { lookup := hlook
      read := fun buf buflen env => lookup_bind (k := readFound p r buflen env) hP hlock halloc
        hlook rfl
      write := fun buf buflen env => lookup_bind (k := writeFound p r buflen env) hP hlock halloc
        hlook rfl
      lseek := fun pos whence env => ?_
      close := lookup_bind (k := closeFound p fd r) hP hlock halloc hlook rfl
      dup2 := fun newfd alloc ret s' hlo' hhi' h => ?_ }
  · have hrange : ¬ (fd < 0 ∨ fd ≥ openMax) := by omega
    rw [sysLseek, if_neg hrange]
    exact lookup_bind (k := do lockRelease (.ops p); lseekFound r pos whence env) hP hlock halloc
      hlook rfl
  · have hrange : ¬ (fd < 0 ∨ newfd < 0 ∨ newfd ≥ openMax) := by omega
    rw [sysDup2, if_neg hrange, runs_ite] at h
    simp only [runs_bind, runs_curproc, runs_ite, runs_pure] at h
    rcases h with ⟨-, rfl, -⟩ | ⟨-, q, s₁, ⟨rfl, rfl⟩, _, s₂, hacq, x, s₃, hl, y, s₄, hl', h⟩
    · exact .inl rfl
    · obtain ⟨-, rfl⟩ := (runs_lockAcquire _ _ _ _).1 hacq
      obtain ⟨rfl, rfl⟩ := runs_pFiletableLookup hl
      rcases h with ⟨hnone, -⟩ | ⟨-, ⟨-, h⟩ | ⟨-, _, s₅, -, h⟩⟩
      · exact absurd (hlook.symm.trans hnone) (Option.some_ne_none r)
      · exact ret_of_dupInto h
      · exact ret_of_dupInto h

end FindsOfLookup

/-- An `open` that succeeds gets a number below `OPEN_MAX` that its caller does not use, and into a
full table only an `open` that the counters stop is tried. -/
structure KeepsUsable (s : Kernel) (a : Action) : Prop where
  sole : ClosesSoleDups s a
  number : ∀ filename flags env, a.call = .openFile filename flags env →
    Opens s a.caller filename flags env →
    s.gft.nextFd < openMax ∧ (Ledger.of s).Unused a.caller s.gft.nextFd
  room : ∀ filename flags env, a.call = .openFile filename flags env →
    (∀ i, (Ledger.of s).row a.caller i ≠ none) →
    s.gft.size = openMax ∨ ∃ P, s.procs a.caller = some P ∧ P.pFiletable.size = openMax

/-- The action closes the descriptor `fd` of `p`, or ends `p`. -/
def Drops (s : Kernel) (a : Action) (p : ProcRef) (fd : Int) : Prop :=
  a.caller = p ∧ (ClosesNumber s a fd ∨ Ends a.call)

section Effects

variable {s : Kernel} {a : Action} {L' : Ledger} {p : ProcRef} {fd : Int}

/-- The number gets no new slot when neither an `open` nor a `dup2` of the process brings it. -/
theorem Effect.noneNew (h : Effect s a (Ledger.of s) L') (hwf : (Ledger.of s).WF)
    (hlt : p < (Ledger.of s).nextProc)
    (hopen : ∀ filename flags env, a.call = .openFile filename flags env →
      Opens s a.caller filename flags env → a.caller = p → s.gft.nextFd ≠ fd)
    (hdup : ∀ oldfd newfd alloc, a.call = .dup2 oldfd newfd alloc →
      (∃ r, Duplicates (Ledger.of s) a.caller oldfd newfd r) → a.caller = p → newfd ≠ fd) :
    Ledger.NoneNew p fd (Ledger.of s) L' := by
  have hnew : p ≠ (Ledger.of s).nextProc := ne_of_lt hlt
  cases h with
  | idle h =>
      rw [h]
      exact fun i r hr hn => ⟨hr, hn⟩
  | @abandoned f hf h =>
      rw [h]
      intro i r hr hn
      refine ⟨hr, ?_⟩
      obtain ⟨r', g', hr', hg', hfd⟩ := Ledger.number_eq_some.1 hn
      obtain ⟨g, hg, -⟩ := hwf.slots p i r' hr'
      have hne : r' ≠ (Ledger.of s).nextFile := ne_of_lt (hwf.lt_nextFile hg)
      exact Ledger.number_eq_some.2 ⟨r', g', hr', by simpa [Ledger.alloc, hne] using hg', hfd⟩
  | opened hcall hopens _ h => exact (h.adds hwf).noneNew hwf (hopen _ _ _ hcall hopens)
  | closed _ _ h _ => exact h.shrinks.noneNew
  | duped hcall _ hd hcl _ h =>
      exact hcl.shrinks.noneNew.trans
        ((h.adds hcl.wf_and_sole.1).noneNew hcl.wf_and_sole.1 (hdup _ _ _ hcall ⟨_, hd⟩))
  | started h =>
      rw [h]
      exact Ledger.noneNew_addRow hlt
  | failed h => exact (Ledger.noneNew_addRow hlt).trans h.noneNew
  | forked _ _ _ h _ =>
      exact ((Ledger.noneNew_addRow hlt).trans (Ledger.noneNew_load _)).trans (h.noneNew hnew)
  | loaded _ h =>
      rw [h]
      exact Ledger.noneNew_load _
  | left _ h => exact h.noneNew
  | leftLoaded _ _ h => exact (Ledger.noneNew_load _).trans h.noneNew

/-- The slots of a process with a number stay until the process closes the number or ends. -/
theorem Effect.stay (h : Effect s a (Ledger.of s) L') (hwf : (Ledger.of s).WF)
    (hspace : (Ledger.of s).space p = some true) (hkeep : ¬ Drops s a p fd) :
    Ledger.Stay p fd (Ledger.of s) L' ∧ L'.space p = some true := by
  have hlt : p < (Ledger.of s).nextProc := hwf.known p _ hspace
  have hnew : p ≠ (Ledger.of s).nextProc := ne_of_lt hlt
  have hloading : (Ledger.of s).space a.caller = some false → p ≠ a.caller := by
    rintro hfalse rfl
    rw [hspace] at hfalse
    cases hfalse
  cases h with
  | idle h =>
      rw [h]
      exact ⟨fun i r f hr hf _ => ⟨hr, f, hf, rfl⟩, hspace⟩
  | @abandoned f hf h =>
      rw [h]
      refine ⟨fun i r g hr hg _ => ⟨hr, g, ?_, rfl⟩, hspace⟩
      have hne : r ≠ (Ledger.of s).nextFile := ne_of_lt (hwf.lt_nextFile hg)
      simpa [Ledger.alloc, hne] using hg
  | opened _ _ _ h =>
      have hadds := h.adds hwf
      exact ⟨hadds.stay, by rw [hadds.space]; exact hspace⟩
  | @closed n hcall hcl h _ =>
      refine ⟨h.stay fun he hn => hkeep ⟨he, .inl ?_⟩, by rw [h.shrinks.space]; exact hspace⟩
      rw [ClosesNumber, hcall]
      exact ⟨hn, hcl⟩
  | @duped oldfd newfd alloc r' f L₁ hcall _ hd hcl _ h =>
      have hadds := h.adds hcl.wf_and_sole.1
      have hstay : Ledger.Stay p fd (Ledger.of s) L₁ := by
        refine hcl.stay fun he hn => hkeep ⟨he, .inl ?_⟩
        rw [ClosesNumber, hcall]
        exact ⟨hn, r', hd⟩
      exact ⟨hstay.trans hadds.stay, by rw [hadds.space, hcl.shrinks.space]; exact hspace⟩
  | started h =>
      rw [h]
      exact ⟨Ledger.stay_addRow hlt, (Ledger.space_addRow hlt).trans hspace⟩
  | failed h =>
      exact ⟨(Ledger.stay_addRow hlt).trans (h.stay hnew),
        (h.space_other hnew).trans ((Ledger.space_addRow hlt).trans hspace)⟩
  | forked _ _ _ h _ =>
      refine ⟨((Ledger.stay_addRow hlt).trans (Ledger.stay_load _)).trans (h.stay hnew), ?_⟩
      rw [h.fills.space]
      exact Ledger.space_load ((Ledger.space_addRow hlt).trans hspace)
  | loaded _ h =>
      rw [h]
      exact ⟨Ledger.stay_load _, Ledger.space_load hspace⟩
  | left hends h =>
      have hne : p ≠ a.caller := by
        rcases hends with hends | hfalse
        · exact fun he => hkeep ⟨he.symm, .inr hends⟩
        · exact hloading hfalse
      exact ⟨h.stay hne, (h.space_other hne).trans hspace⟩
  | leftLoaded _ hfalse h =>
      have hne := hloading hfalse
      exact ⟨(Ledger.stay_load _).trans (h.stay hne),
        (h.space_other hne).trans (Ledger.space_load hspace)⟩

theorem Effect.nextProc_le (h : Effect s a (Ledger.of s) L') :
    (Ledger.of s).nextProc ≤ L'.nextProc := by
  have hplaced : ∀ {q : ProcRef} {r : FileRef} {M M' : Ledger}, Ledger.Placed q r M M' →
      M'.nextProc = M.nextProc := by
    intro q r M M' hpl
    cases hpl <;> rfl
  have hgone : ∀ {q : ProcRef} {M M' : Ledger}, Ledger.Gone q M M' → M'.nextProc = M.nextProc := by
    intro q M M' hg
    obtain ⟨L₁, hl, -, rfl⟩ := hg.ends
    exact hl.shrinks.nextProc
  cases h with
  | idle h => rw [h]
  | abandoned _ h =>
      rw [h]
      exact le_rfl
  | opened _ _ _ h =>
      cases h with
      | opened _ _ hpl => exact le_of_eq (hplaced hpl).symm
  | closed _ _ h _ => exact le_of_eq h.shrinks.nextProc.symm
  | duped _ _ _ hcl _ h =>
      cases h with
      | dup _ _ hpl => exact le_of_eq (hcl.shrinks.nextProc.symm.trans (hplaced hpl).symm)
  | started h =>
      rw [h]
      exact Nat.le_succ _
  | failed h =>
      rw [hgone h]
      exact Nat.le_succ _
  | forked _ _ _ h _ =>
      rw [h.fills.nextProc]
      exact Nat.le_succ _
  | loaded _ h =>
      rw [h]
      exact le_rfl
  | left _ h => exact le_of_eq (hgone h).symm
  | leftLoaded _ _ h => exact le_of_eq (hgone h).symm

theorem Effect.holds {r : FileRef} {v : VnodeRef} (h : Effect s a (Ledger.of s) L')
    (hok : KeepsUsable s a) (hkeep : ¬ Drops s a p fd) (hwf : (Ledger.of s).WF)
    (hh : (Ledger.of s).Holds p fd r v) : L'.Holds p fd r v := by
  obtain ⟨hstay, hspace⟩ := h.stay hwf hh.space hkeep
  refine hh.of_stay hstay (h.noneNew hwf (hwf.known p _ hh.space) ?_ ?_) hspace
  · intro filename flags env hcall hopens he
    obtain ⟨-, hun⟩ := hok.number _ _ _ hcall hopens
    obtain ⟨i, hi⟩ := hh.slot
    obtain ⟨f, hf, hfd, -⟩ := hh.file
    rw [he] at hun
    rw [← hfd]
    exact (hun i r f hi hf).symm
  · intro oldfd newfd alloc hcall hd he hn
    refine hkeep ⟨he, .inl ?_⟩
    rw [ClosesNumber, hcall]
    exact ⟨hn, hd⟩

end Effects

theorem finds_of_holds {s : Kernel} {p : ProcRef} {fd : Int} {r : FileRef} {v : VnodeRef}
    (hwf : (Ledger.of s).WF) (hlock : s.held (.procFt p) = none) (hlo : 0 ≤ fd)
    (hhi : fd < openMax) (h : (Ledger.of s).Holds p fd r v) :
    Finds s p fd r ∧ ∃ f, s.heap r = some f ∧ f.fileVnode = some v := by
  obtain ⟨i, hi⟩ := h.slot
  obtain ⟨P, hP, -⟩ := exists_proc_of_row hi
  obtain ⟨f, hf, -, hv⟩ := h.file
  refine ⟨finds_of_lookup hP hlock (fun j r' hr' => ?_) hlo hhi ?_, f, hf, hv⟩
  · exact (noDangling_of_wf hwf).process p P j r' hP hr'
  · rw [lookupFd_eq]
    exact h.lookup

theorem ret_sysOpen_of_full {s s' : Kernel} {filename : Option UserPtr} {flags : BitVec 32}
    {env : OpenEnv} {ret : Int} (hfn : filename ≠ none)
    (hfull : s.gft.size = openMax ∨ ∃ P, s.procs s.curproc = some P ∧ P.pFiletable.size = openMax)
    (h : Runs (sysOpen filename flags env) s ret s') :
    ret = fail .ENFILE ∨ (s.gft.size ≠ openMax ∧ ret = fail .EMFILE) := by
  simp only [sysOpen, runs_bind, runs_get, runs_ite, runs_curproc, runs_lockAcquire,
    runs_readTable, runs_lockRelease, runs_pure] at h
  obtain ⟨a, s₀, ⟨rfl, rfl⟩, h⟩ := h
  rcases h with ⟨hnone, -⟩ | ⟨-, ⟨-, rfl, -⟩ | ⟨hg, p, s₁, ⟨rfl, rfl⟩, _, s₂, ⟨-, rfl⟩, t, s₃,
    ⟨⟨P, hP, rfl⟩, rfl⟩, h⟩⟩
  · exact absurd hnone hfn
  · exact .inl rfl
  · rcases hfull with hfull | ⟨Q, hQ, hsize⟩
    · exact absurd hfull hg
    · have e : Q = P := Option.some.inj (hQ.symm.trans hP)
      subst e
      rcases h with ⟨-, _, s₄, -, rfl, -⟩ | ⟨hne, -⟩
      · exact .inr ⟨hg, rfl⟩
      · exact absurd hsize hne

theorem wf_of_keepsUsable {s : Kernel} (h : Reach step KeepsUsable boot s) : (Ledger.of s).WF :=
  wf_of_reach (fun _ _ ha => ha.sole) h

/-- In a run without a collision of numbers, the descriptor that `open` returns is below
`OPEN_MAX` and denotes the file just opened until it is closed; and when a table is full, `open`
says so. -/
theorem open_usable_of_keepsUsable {s s' : Kernel} {p : ProcRef} {filename : Option UserPtr}
    {flags : BitVec 32} {env : OpenEnv} {ret : Int} (h : Reach step KeepsUsable boot s)
    (hready : ready s ⟨p, .openFile filename flags env⟩ = true)
    (hok : KeepsUsable s ⟨p, .openFile filename flags env⟩)
    (hrun : Runs (sysOpen filename flags env) { s with curproc := p } ret s') :
    (0 ≤ ret → ret < openMax ∧ s.heap s.nextFile = none ∧ ∃ v, env.vfsOpen = .ok v ∧
      ∀ t, Reach step (fun u a => KeepsUsable u a ∧ ¬ Drops u a p ret) s' t →
        Finds t p ret s.nextFile ∧ ∃ f, t.heap s.nextFile = some f ∧ f.fileVnode = some v) ∧
    (filename ≠ none → (∀ i, s.gft.openFiles i ≠ none) → ret = fail .ENFILE) ∧
    (filename ≠ none → (∀ i, (Ledger.of s).row p i ≠ none) →
      ret = fail .ENFILE ∨ ret = fail .EMFILE) := by
  have hwf := wf_of_keepsUsable h
  refine ⟨fun hret => ?_, fun hfn hfull => ?_, fun hfn hfull => ?_⟩
  · cases sim_sysOpen (s := { s with curproc := p }) hwf hrun with
    | failed hneg _ => exact absurd hneg (not_lt.2 hret)
    | abandoned hneg _ _ => exact absurd hneg (not_lt.2 hret)
    | @opened f hnum hopens hv hopen =>
        subst hnum
        have hopens' : Opens s p filename flags env := by
          obtain ⟨h₁, h₂, h₃, h₄, h₅, h₆, h₇, h₈⟩ := hopens
          exact ⟨h₁, h₂, h₃, h₄, h₅, h₆, h₇, h₈⟩
        obtain ⟨hlt, hun⟩ := hok.number _ _ _ rfl hopens'
        obtain ⟨v, hvok⟩ := hopens.vnode
        refine ⟨hlt, hwf.fresh _ le_rfl, v, hvok, fun t ht => ?_⟩
        have hroom : ∃ i, (Ledger.of s).row p i = none := by
          by_contra hc
          rcases hok.room _ _ _ rfl (fun i hi => hc ⟨i, hi⟩) with hg | ⟨P, hP, hsize⟩
          · exact hopens'.gtable hg
          · obtain ⟨Q, hQ, hne⟩ := hopens'.ptable
            have e : Q = P := Option.some.inj (hQ.symm.trans hP)
            subst e
            exact hne hsize
        have hvf : f.fileVnode = some v := by
          rw [← hv, hvok]
          rfl
        have hholds : (Ledger.of s').Holds p s.gft.nextFd s.nextFile v :=
          hopen.holds hwf hun hroom hvf (space_of_userThread hready)
        -- the run goes on from `s'`, which is itself reached by an action within the condition
        have hreach : Reach step KeepsUsable boot s' := h.tail hok ⟨hready, _, hrun⟩
        have key : (Ledger.of t).WF ∧ (Ledger.of t).Holds p s.gft.nextFd s.nextFile v := by
          refine ht.invariant (I := fun t => (Ledger.of t).WF ∧
            (Ledger.of t).Holds p s.gft.nextFd s.nextFile v) (fun t a u hI ha hst => ?_)
            ⟨wf_of_keepsUsable hreach, hholds⟩
          have heff := effect_of_step hI.1 ha.1.sole hst
          exact ⟨heff.wf hI.1, heff.holds ha.1 ha.2 hI.1 hI.2⟩
        exact finds_of_holds key.1
          (held_procFt_of_reach (hreach.trans (ht.mono fun _ _ ha => ha.1)) p) hret hlt key.2
  · have hsize : s.gft.size = openMax := by
      have h₁ : s.gft.size = used s.gft.openFiles := hwf.size
      rw [h₁, used_of_full hfull]
    rcases ret_sysOpen_of_full (s := { s with curproc := p }) hfn (.inl hsize) hrun with hret | ⟨hne, -⟩
    · exact hret
    · exact absurd hsize hne
  · rcases ret_sysOpen_of_full hfn (hok.room _ _ _ rfl hfull) hrun with hret | ⟨-, hret⟩
    · exact .inl hret
    · exact .inr hret

/-- `KeepsUsable`, computed. -/
def keepsUsable (s : Kernel) (a : Action) : Bool :=
  closesSoleDups s a &&
    match a.call with
    | .openFile .. => decide (s.gft.nextFd < openMax) && unused (Ledger.of s) a.caller s.gft.nextFd &&
        (List.finRange openMax).any fun i => ((Ledger.of s).row a.caller i).isNone
    | _ => true

theorem keepsUsable_sound {s : Kernel} {a : Action} (hwf : (Ledger.of s).WF)
    (h : keepsUsable s a = true) : KeepsUsable s a := by
  obtain ⟨p, call⟩ := a
  obtain ⟨hsole, hcall⟩ := Bool.and_eq_true_iff.1 h
  refine ⟨closesSoleDups_sound hwf hsole, ?_, ?_⟩
  · rintro filename flags env rfl -
    obtain ⟨hcall, -⟩ := Bool.and_eq_true_iff.1 hcall
    obtain ⟨hlt, hun⟩ := Bool.and_eq_true_iff.1 hcall
    exact ⟨of_decide_eq_true hlt, unused_sound hun⟩
  · rintro filename flags env rfl hfull
    obtain ⟨i, -, hi⟩ := List.any_eq_true.1 (Bool.and_eq_true_iff.1 hcall).2
    exact absurd (by simpa using hi) (hfull i)

/-- The action leaves the descriptor `fd` of every process alone. -/
def leavesNumber (fd : Int) (a : Action) : Bool :=
  match a.call with
  | .close n => n != fd
  | .dup2 _ n _ => n != fd
  | .exit .. => false
  | _ => true

theorem leavesNumber_sound {s : Kernel} {a : Action} {p : ProcRef} {fd : Int}
    (h : leavesNumber fd a = true) : ¬ Drops s a p fd := by
  obtain ⟨q, call⟩ := a
  rintro ⟨-, hcl | hends⟩
  · cases call with
    | close n =>
        obtain ⟨rfl, -⟩ := hcl
        simp [leavesNumber] at h
    | dup2 oldfd newfd alloc =>
        obtain ⟨rfl, -⟩ := hcl
        simp [leavesNumber] at h
    | start env => exact hcl
    | load result => exact hcl
    | openFile filename flags env => exact hcl
    | fork env => exact hcl
    | exit exitcode alloc => exact hcl
  · cases call with
    | exit exitcode alloc => cases h
    | start env => exact hends
    | load result => exact hends
    | openFile filename flags env => exact hends
    | close n => exact hends
    | dup2 oldfd newfd alloc => exact hends
    | fork env => exact hends

/-- What happens to the descriptor before it is used again: it is duplicated and inherited, and
another file is opened and closed. -/
def usableTail : List Action :=
  [⟨1, .dup2 3 5 true⟩, ⟨1, .fork forkOk⟩, ⟨1, .openFile (some 1) 0 (openOk 8)⟩, ⟨1, .close 4⟩]

theorem open_usable_startOne : ∃ s s' t, execChecked keepsUsable boot startOne = some s ∧
    exec s ⟨1, .openFile (some 1) 0 (openOk 7)⟩ = some s' ∧
    execChecked (fun u a => keepsUsable u a && leavesNumber 3 a) s' usableTail = some t ∧
    Finds t 1 3 s.nextFile := by
  have hrun : ((execChecked keepsUsable boot startOne).any fun s =>
      ready s ⟨1, .openFile (some 1) 0 (openOk 7)⟩ &&
      keepsUsable s ⟨1, .openFile (some 1) 0 (openOk 7)⟩ &&
      tested (sysOpen (some 1) 0 (openOk 7)) { s with curproc := 1 } fun ret s' =>
        ret == 3 &&
          (execChecked (fun u a => keepsUsable u a && leavesNumber 3 a) s' usableTail).isSome) =
      true := by decide +kernel
  obtain ⟨s, hs, hrun⟩ := (Option.any_eq_true _ _).1 hrun
  obtain ⟨hrun, hopen⟩ := Bool.and_eq_true_iff.1 hrun
  obtain ⟨hready, hok⟩ := Bool.and_eq_true_iff.1 hrun
  obtain ⟨ret, s', hret, hafter⟩ := runs_of_tested hopen
  obtain ⟨h3, htail⟩ := Bool.and_eq_true_iff.1 hafter
  have h3' : ret = 3 := by simpa using h3
  subst h3'
  obtain ⟨t, ht⟩ := Option.isSome_iff_exists.1 htail
  have hreach : Reach step KeepsUsable boot s :=
    reach_of_execChecked (fun u a hu hc => keepsUsable_sound (wf_of_keepsUsable hu) hc)
      startOne .refl hs
  have hok' := keepsUsable_sound (wf_of_keepsUsable hreach) hok
  have hreach' : Reach step KeepsUsable boot s' := hreach.tail hok' ⟨hready, 3, hret⟩
  have htail' : Reach step (fun u a => KeepsUsable u a ∧ ¬ Drops u a 1 3) s' t := by
    refine reach_of_execChecked (fun u a hu hc => ?_) usableTail .refl ht
    obtain ⟨hk, hl⟩ := Bool.and_eq_true_iff.1 hc
    have hreach'' := hreach'.trans (hu.mono fun _ _ ha => ha.1)
    exact ⟨keepsUsable_sound (wf_of_keepsUsable hreach'') hk, leavesNumber_sound hl⟩
  refine ⟨s, s', t, hs, ?_, ht, ?_⟩
  · have hret' : (Call.openFile (some 1) 0 (openOk 7)).run { s with curproc := 1 } =
        .ok (3, s') := hret
    simp only [exec, hready, if_true, hret']
  · obtain ⟨-, -, v, -, hfinds⟩ :=
      (open_usable_of_keepsUsable hreach hready hok' hret).1 (by decide)
    exact (hfinds t htail').1

/-- Standard output is duplicated under the number that the next `open` draws. -/
def takenRun : List Action := startOne ++ [⟨1, .dup2 1 3 true⟩]

theorem not_open_usable_of_anyStep : ¬ ∀ s p filename flags env ret s',
    Reach step anyStep boot s → ready s ⟨p, .openFile filename flags env⟩ = true →
    Runs (sysOpen filename flags env) { s with curproc := p } ret s' → 0 ≤ ret →
    ret < openMax ∧ lookupFd s' p ret = some s.nextFile := by
  intro h
  have hrun : ((execAll boot takenRun).any fun s =>
      ready s ⟨1, .openFile (some 1) 0 (openOk 7)⟩ &&
      tested (sysOpen (some 1) 0 (openOk 7)) { s with curproc := 1 } fun ret s' =>
        ret == 3 && lookupFd s' 1 3 == some 3 && s.nextFile == 4) = true := by decide +kernel
  obtain ⟨s, hs, hrun⟩ := (Option.any_eq_true _ _).1 hrun
  obtain ⟨hready, hopen⟩ := Bool.and_eq_true_iff.1 hrun
  obtain ⟨ret, s', hret, hafter⟩ := runs_of_tested hopen
  simp only [Bool.and_eq_true, beq_iff_eq] at hafter
  obtain ⟨⟨rfl, hlook⟩, hnext⟩ := hafter
  obtain ⟨-, hbad⟩ := h s 1 (some 1) 0 (openOk 7) 3 s' (reach_of_execAll takenRun .refl hs) hready
    hret (by decide)
  rw [hlook, hnext] at hbad
  cases hbad

end Os161.Main

import Os161.Main.Forking
import Os161.Main.Shapes

set_option autoImplicit false

/-!
# The file table of a child

A `fork` that succeeds gives the child a new table, with the files of the parent where the parent
has one. The flags, the counter and the slots that the parent has emptied are those of a new
process, so the two tables answer alike only when the parent's flags, counter and emptied slots
are those of a new process too.
-/

namespace Os161.Main

open Os161.Lib.Program
open Os161.Lib.Runs
open Os161.Lib.Slots
open Os161.Vfs
open Os161.Proc
open Os161.Syscall

/-- The table of `q` answers as the table of `p` does: every number denotes the same file, a
standard stream closed in `p` is closed in `q`, and the sizes are the same. -/
structure Faithful (s : Kernel) (p q : ProcRef) (P Q : Os161.Proc) : Prop where
  parent : s.procs p = some P
  child : s.procs q = some Q
  lookup : ∀ fd, lookupFd s q fd = lookupFd s p fd
  stdin : P.pFiletable.stdinOpen = false → Q.pFiletable.stdinOpen = false
  stdout : P.pFiletable.stdoutOpen = false → Q.pFiletable.stdoutOpen = false
  stderr : P.pFiletable.stderrOpen = false → Q.pFiletable.stderrOpen = false
  size : Q.pFiletable.size = P.pFiletable.size

/-- A table that `fork` copies without loss: no standard stream has been closed, the counter is
where it started, and each of the first three slots is occupied, or an earlier slot has its
number. -/
structure Inheritable (heap : FileRef → Option File) (t : PFileTable) : Prop where
  stdin : t.stdinOpen = true
  stdout : t.stdoutOpen = true
  stderr : t.stderrOpen = true
  size : t.size = 0
  slots : ∀ k : Fin openMax, k.val < 3 → t.files k = none →
    ∃ j r f, j < k ∧ t.files j = some r ∧ heap r = some f ∧ f.localFd = k.val

/-- A slot has the number `fd`. -/
def hasNumber (heap : FileRef → Option File) (fd : Int) (x : Option FileRef) : Bool :=
  x.any fun r => (heap r).any fun f => f.localFd == fd

theorem hasNumber_eq_true {heap : FileRef → Option File} {fd : Int} {x : Option FileRef} :
    hasNumber heap fd x = true ↔ ∃ r f, x = some r ∧ heap r = some f ∧ f.localFd = fd := by
  simp only [hasNumber, Option.any_eq_true, beq_iff_eq]
  constructor
  · rintro ⟨r, hr, f, hf, hfd⟩
    exact ⟨r, f, hr, hf, hfd⟩
  · rintro ⟨r, f, hr, hf, hfd⟩
    exact ⟨r, hr, f, hf, hfd⟩

theorem lookupIn_eq_some {heap : FileRef → Option File} {t : Table openMax FileRef} {fd : Int}
    {r : FileRef} : lookupIn heap t fd = some r ↔
      ∃ i, t i = some r ∧ hasNumber heap fd (t i) = true ∧
        ∀ j, j < i → hasNumber heap fd (t j) = false := by
  unfold lookupIn
  rw [Option.bind_eq_some_iff]
  constructor
  · rintro ⟨i, hi, hr⟩
    obtain ⟨htest, hbefore⟩ := firstWith_eq_some_iff.1 hi
    exact ⟨i, hr, htest, hbefore⟩
  · rintro ⟨i, hr, htest, hbefore⟩
    exact ⟨i, firstWith_eq_some_iff.2 ⟨htest, hbefore⟩, hr⟩

/-- A lookup that finds nothing has found the number in no slot. -/
theorem hasNumber_of_lookupIn_none {heap : FileRef → Option File} {t : Table openMax FileRef}
    {fd : Int} (h : lookupIn heap t fd = none) (j : Fin openMax) :
    hasNumber heap fd (t j) = false := by
  by_contra hc
  obtain ⟨r, f, hr, hf, hfd⟩ := hasNumber_eq_true.1 (by simpa using hc)
  unfold lookupIn at h
  cases hw : firstWith (fun r => (heap r).any fun f => f.localFd == fd) t with
  | none =>
      have := firstWith_eq_none hw hr
      simp [hf, hfd] at this
  | some k =>
      obtain ⟨a, ha, -⟩ := firstWith_eq_some hw
      rw [hw, Option.bind_some, ha] at h
      cases h

/-- A lookup depends on the numbers of the files only. -/
theorem lookupIn_congr {heap heap' : FileRef → Option File}
    (h : ∀ r, (heap' r).map File.localFd = (heap r).map File.localFd)
    (t : Table openMax FileRef) (fd : Int) : lookupIn heap' t fd = lookupIn heap t fd := by
  have htest : ∀ r, ((heap' r).any fun f => f.localFd == fd) =
      (heap r).any fun f => f.localFd == fd := by
    intro r
    have hr := h r
    cases h₁ : heap' r <;> cases h₂ : heap r <;> simp_all
  unfold lookupIn
  simp only [htest]

section Table

variable {s : Kernel} {t : Table openMax FileRef}

/-- The slots of a child whose parent has the slots `t`. -/
def childSlots (s : Kernel) (t : Table openMax FileRef) : Table openMax FileRef :=
  fun i => (t i).or (if i.val < 3 then s.gft.openFiles i else none)

theorem childSlots_of_some {i : Fin openMax} {r : FileRef} (h : t i = some r) :
    childSlots s t i = some r := by
  simp [childSlots, h]

/-- Where the parent has no file, the child has a standard file or none. -/
theorem childSlots_of_none (hs : (Ledger.of s).Shaped) {i : Fin openMax} {r : FileRef}
    (h : t i = none) (hr : childSlots s t i = some r) : i.val < 3 ∧ r = i.val := by
  rw [childSlots, h, Option.none_or] at hr
  split_ifs at hr with hi
  have hstd : s.gft.openFiles i = some i.val := hs.openStd i hi
  rw [hstd] at hr
  cases hr
  exact ⟨hi, rfl⟩

/-- A standard file has its own number and no other. -/
theorem hasNumber_std (hs : (Ledger.of s).Shaped) {k : Nat} (hk : k < 3) (fd : Int) :
    hasNumber s.heap fd (some k) = true ↔ fd = k := by
  obtain ⟨f, hf, hstd⟩ := hs.std k hk
  have hf' : s.heap k = some f := hf
  rw [hasNumber_eq_true]
  constructor
  · rintro ⟨r, g, hr, hg, hfd⟩
    cases hr
    rw [hf'] at hg
    cases hg
    rw [← hfd]
    exact hstd.std.localFd
  · rintro rfl
    exact ⟨k, f, rfl, hf', hstd.std.localFd⟩

/-- With an earlier slot for every number whose slot is empty, all lookups agree. -/
theorem lookupIn_childSlots (hs : (Ledger.of s).Shaped)
    (h : ∀ k : Fin openMax, k.val < 3 → t k = none →
      ∃ j r f, j < k ∧ t j = some r ∧ s.heap r = some f ∧ f.localFd = k.val) (fd : Int) :
    lookupIn s.heap (childSlots s t) fd = lookupIn s.heap t fd := by
  -- a slot of the child with the number is one of the parent, or comes behind one of the parent
  have hback : ∀ i, hasNumber s.heap fd (childSlots s t i) = true →
      hasNumber s.heap fd (t i) = false → ∃ j, j < i ∧ hasNumber s.heap fd (t j) = true := by
    intro i hi hno
    cases hti : t i with
    | some r =>
        rw [childSlots_of_some hti, ← hti, hno] at hi
        cases hi
    | none =>
        obtain ⟨r, f, hr, -⟩ := hasNumber_eq_true.1 hi
        obtain ⟨h3, rfl⟩ := childSlots_of_none hs hti hr
        rw [hr, hasNumber_std hs h3] at hi
        obtain ⟨j, r, f, hj, hr, hf, hfd⟩ := h i h3 hti
        exact ⟨j, hj, hasNumber_eq_true.2 ⟨r, f, hr, hf, hfd.trans hi.symm⟩⟩
  -- a slot of the parent with the number is copied
  have hforth : ∀ i, hasNumber s.heap fd (t i) = true → childSlots s t i = t i := by
    intro i hi
    obtain ⟨r, f, hr, -⟩ := hasNumber_eq_true.1 hi
    rw [hr, childSlots_of_some hr]
  have hsome : ∀ r, lookupIn s.heap t fd = some r →
      lookupIn s.heap (childSlots s t) fd = some r := by
    intro r hr
    obtain ⟨i, hi, htest, hbefore⟩ := lookupIn_eq_some.1 hr
    refine lookupIn_eq_some.2 ⟨i, (hforth i htest).trans hi, ?_, fun j hj => ?_⟩
    · rw [hforth i htest]
      exact htest
    · by_contra hc
      obtain ⟨k, hk, hk'⟩ := hback j (by simpa using hc) (hbefore j hj)
      rw [hbefore k (lt_trans hk hj)] at hk'
      cases hk'
  cases hp : lookupIn s.heap t fd with
  | some r => exact hsome r hp
  | none =>
      cases hq : lookupIn s.heap (childSlots s t) fd with
      | none => rfl
      | some r =>
          exfalso
          obtain ⟨i, -, htest, -⟩ := lookupIn_eq_some.1 hq
          obtain ⟨j, -, hj⟩ := hback i htest (hasNumber_of_lookupIn_none hp i)
          rw [hasNumber_of_lookupIn_none hp j] at hj
          cases hj

/-- When the lookups agree, an empty slot of the parent has an earlier slot with its number. -/
theorem slots_of_lookupIn (hs : (Ledger.of s).Shaped) {p : ProcRef} {P : Os161.Proc}
    (hP : s.procs p = some P) (ht : P.pFiletable.files = t)
    (h : ∀ fd, lookupIn s.heap (childSlots s t) fd = lookupIn s.heap t fd)
    (k : Fin openMax) (hk : k.val < 3) (hnone : t k = none) :
    ∃ j r f, j < k ∧ t j = some r ∧ s.heap r = some f ∧ f.localFd = k.val := by
  by_contra hc
  have hno : ∀ j, j < k → hasNumber s.heap k.val (t j) = false := by
    intro j hj
    by_contra hn
    obtain ⟨r, f, hr, hf, hfd⟩ := hasNumber_eq_true.1 (by simpa using hn)
    exact hc ⟨j, r, f, hj, hr, hf, hfd⟩
  have hstd : s.gft.openFiles k = some k.val := hs.openStd k hk
  -- the child has the standard file of the slot, and finds it there first
  have hchild : childSlots s t k = some k.val := by
    simp [childSlots, hnone, hk, hstd]
  have hlook : lookupIn s.heap (childSlots s t) k.val = some k.val := by
    refine lookupIn_eq_some.2 ⟨k, hchild, ?_, fun j hj => ?_⟩
    · rw [hchild]
      exact (hasNumber_std hs hk _).2 rfl
    · cases htj : t j with
      | some r =>
          rw [childSlots_of_some htj, ← htj]
          exact hno j hj
      | none =>
          by_contra hn
          obtain ⟨r, f, hr, -⟩ := hasNumber_eq_true.1 (by simpa using hn)
          obtain ⟨h3, rfl⟩ := childSlots_of_none hs htj hr
          rw [hr] at hn
          -- a standard file in another slot has another number
          have e := (hasNumber_std hs h3 k.val).1 (by simpa using hn)
          have hval : j.val < k.val := hj
          omega
  -- the parent finds the standard file too, which stands in its own place only
  rw [h, lookupIn_eq_some] at hlook
  obtain ⟨i, hi, -⟩ := hlook
  have hrow : (Ledger.of s).row p i = some k.val := by
    rw [show (Ledger.of s).row p = P.pFiletable.files from rowOf_some hP, ht]
    exact hi
  have hik : i = k := Fin.ext (hs.inPlace p i k.val hrow hk).symm
  subst hik
  rw [hnone] at hi
  cases hi

end Table

/-- In every reachable state, a `fork` that copies the file table gives the child a table that
answers as the parent's does exactly when the parent's table is inheritable. -/
theorem faithful_iff_inheritable {s s' : Kernel} {p : ProcRef} {env : ForkEnv} {ret : Int}
    {P : Os161.Proc} (hs : Reach step anyStep boot s) (hP : s.procs p = some P)
    (hforks : Forks s env)
    (hrun : Runs (sysFork env) { s with curproc := p } ret s') :
    (∃ P' Q, Faithful s' p s.nextProc P' Q) ↔ Inheritable s.heap P.pFiletable := by
  have hshaped := shaped_of_reach hs
  have hfresh : Fresh (Roster.of s) := hs.invariant (I := fun s => Fresh (Roster.of s))
    (fun _ _ _ ht _ hst => fresh_of_step ht hst) ⟨boot_roster_wf.fresh, boot_roster_wf.nextPid⟩
  rcases runs_sysFork_cases (s := { s with curproc := p }) hP hfresh.procs_nextProc hrun with
    ⟨hnot, -⟩ | ⟨has, -⟩ | ⟨-, -, hforked⟩
  · exact (hnot ⟨hforks.room, hforks.trapframe, hforks.process, hforks.space⟩).elim
  · exact absurd hforks.space has
  obtain ⟨P', hP', hparent⟩ := hforked.parent
  obtain ⟨Q, hQ, hchild⟩ := hforked.child
  have hP₁ : s'.procs p = some P' := hP'
  have hQ₁ : s'.procs s.nextProc = some Q := hQ
  have hfiles : Q.pFiletable.files = childSlots s P.pFiletable.files := by
    rw [hchild]
    rfl
  -- both lookups, in terms of the heap before the call
  have hlook : ∀ fd, lookupFd s' p fd = lookupIn s.heap P.pFiletable.files fd ∧
      lookupFd s' s.nextProc fd = lookupIn s.heap (childSlots s P.pFiletable.files) fd := by
    intro fd
    have hheap : ∀ r, (s'.heap r).map File.localFd = (s.heap r).map File.localFd := hforked.heap
    constructor
    · rw [lookupFd, hP₁, Option.bind_some, hparent, lookupIn_congr hheap]
    · rw [lookupFd, hQ₁, Option.bind_some, hfiles, lookupIn_congr hheap]
  constructor
  · rintro ⟨P₂, Q₂, h⟩
    have e : P₂ = P' := Option.some.inj (h.parent.symm.trans hP₁)
    have e' : Q₂ = Q := Option.some.inj (h.child.symm.trans hQ₁)
    subst e e'
    -- a flag that the parent has cleared is set in the child
    refine ⟨?_, ?_, ?_, ?_, ?_⟩
    · by_contra hc
      have := h.stdin (by rw [hparent]; simpa using hc)
      rw [hchild] at this
      cases this
    · by_contra hc
      have := h.stdout (by rw [hparent]; simpa using hc)
      rw [hchild] at this
      cases this
    · by_contra hc
      have := h.stderr (by rw [hparent]; simpa using hc)
      rw [hchild] at this
      cases this
    · rw [← hparent, ← h.size, hchild]
      rfl
    · apply slots_of_lookupIn hshaped hP rfl
      intro fd
      rw [← (hlook fd).1, ← (hlook fd).2]
      exact h.lookup fd
  · intro h
    refine ⟨P', Q, hP₁, hQ₁, fun fd => ?_, ?_, ?_, ?_, ?_⟩
    · rw [(hlook fd).1, (hlook fd).2]
      exact lookupIn_childSlots hshaped h.slots fd
    · rw [hparent, h.stdin]
      exact fun hc => absurd hc (by simp)
    · rw [hparent, h.stdout]
      exact fun hc => absurd hc (by simp)
    · rw [hparent, h.stderr]
      exact fun hc => absurd hc (by simp)
    · rw [hparent, h.size, hchild]
      rfl

/-- The state of a run and the state after the first program forks in it. -/
def forkAfter (run : List Action) : Option (Kernel × Kernel) :=
  (execAll boot run).bind fun s =>
    match sysFork forkOk { s with curproc := 1 } with
    | .ok (_, s') =>
        if ready s ⟨1, .fork forkOk⟩ && s.ptable.numOfProcs != procMax then some (s, s') else none
    | .error _ => none

theorem forkAfter_spec {run : List Action} {s s' : Kernel} (h : forkAfter run = some (s, s')) :
    Reach step anyStep boot s ∧ ready s ⟨1, .fork forkOk⟩ = true ∧ Forks s forkOk ∧
      ∃ ret, Runs (sysFork forkOk) { s with curproc := 1 } ret s' := by
  obtain ⟨t, ht, h⟩ := Option.bind_eq_some_iff.1 h
  cases hrun : sysFork forkOk { t with curproc := 1 } with
  | error e => simp [hrun] at h
  | ok x =>
      obtain ⟨n, t'⟩ := x
      simp only [hrun, Bool.and_eq_true, bne_iff_ne, ne_eq] at h
      split_ifs at h with hc
      simp only [Option.some.injEq, Prod.mk.injEq] at h
      obtain ⟨rfl, rfl⟩ := h
      exact ⟨reach_of_execAll run .refl ht, hc.1, ⟨hc.2, rfl, rfl, rfl⟩, n, hrun⟩

/-- `Inheritable` for a table whose first three slots are occupied. -/
def inheritable (t : PFileTable) : Bool :=
  t.stdinOpen && t.stdoutOpen && t.stderrOpen && t.size == 0 &&
    (List.finRange openMax).all fun k => 3 ≤ k.val || (t.files k).isSome

theorem inheritable_sound {heap : FileRef → Option File} {t : PFileTable}
    (h : inheritable t = true) : Inheritable heap t := by
  simp only [inheritable, Bool.and_eq_true, beq_iff_eq] at h
  obtain ⟨⟨⟨⟨hin, hout⟩, herr⟩, hsize⟩, hall⟩ := h
  refine ⟨hin, hout, herr, hsize, fun k hk hnone => ?_⟩
  have hsome := List.all_eq_true.1 hall k (List.mem_finRange k)
  simp [hnone, not_le.2 hk] at hsome

/-- A program opens a file and closes it again. -/
def closedAgain : List Action := openOne ++ [⟨1, .close 3⟩]

theorem faithful_closedAgain : ∃ s s' P' Q, forkAfter closedAgain = some (s, s') ∧
    Faithful s' 1 s.nextProc P' Q := by
  have hrun : ((forkAfter closedAgain).any fun x =>
      (x.1.procs 1).any fun P => inheritable P.pFiletable) = true := by decide +kernel
  obtain ⟨⟨s, s'⟩, h, hP⟩ := (Option.any_eq_true _ _).1 hrun
  obtain ⟨P, hP, hinh⟩ := (Option.any_eq_true _ _).1 hP
  obtain ⟨hs, -, hforks, ret, hrun⟩ := forkAfter_spec h
  obtain ⟨P', Q, hf⟩ := (faithful_iff_inheritable hs hP hforks hrun).2
    (inheritable_sound hinh)
  exact ⟨s, s', P', Q, h, hf⟩

/-- A program closes its standard output. -/
def closedOut : List Action := startOne ++ [⟨1, .close 1⟩]

theorem not_faithful_of_anyStep : ¬ ∀ s p env ret s' P, Reach step anyStep boot s →
    ready s ⟨p, .fork env⟩ = true → s.procs p = some P → Forks s env →
    Runs (sysFork env) { s with curproc := p } ret s' →
    ∃ P' Q, Faithful s' p s.nextProc P' Q := by
  intro hall
  have hrun : ((forkAfter closedOut).any fun x =>
      ((x.2.procs 1).any fun P => P.pFiletable.stdoutOpen == false) && (x.1.procs 1).isSome &&
      (x.2.procs x.1.nextProc).any fun Q => Q.pFiletable.stdoutOpen) = true := by decide +kernel
  obtain ⟨⟨s, s'⟩, h, hc⟩ := (Option.any_eq_true _ _).1 hrun
  simp only [Bool.and_eq_true, Option.any_eq_true, beq_iff_eq] at hc
  obtain ⟨⟨⟨P₁, hP₁, hclosed⟩, hsome⟩, Q₁, hQ₁, hopen⟩ := hc
  obtain ⟨hs, hready, hforks, ret, hrun⟩ := forkAfter_spec h
  obtain ⟨P, hP⟩ := Option.isSome_iff_exists.1 hsome
  obtain ⟨P', Q, hf⟩ := hall s 1 forkOk ret s' P hs hready hP hforks hrun
  have e : P' = P₁ := Option.some.inj (hf.parent.symm.trans hP₁)
  have e' : Q = Q₁ := Option.some.inj (hf.child.symm.trans hQ₁)
  subst e e'
  rw [hf.stdout hclosed] at hopen
  cases hopen

end Os161.Main

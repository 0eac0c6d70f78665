import Os161.Proc.Table

set_option autoImplicit false

/-!
# The roster

What the process table is for: which processes are on it, which pids they have, and how many they
are. `Roster.WF` says that the table holds processes that exist, under different pids, and that
the counter counts them. Processes enter with a pid nobody has, and leave when the entry with
their pid is cleared.

The functions of the file layer change nothing of a process but its slots and their counter
(`Frame Bare.of`), so they do not change the roster either.
-/

namespace Os161.Proc

open Os161.Lib.Program
open Os161.Lib.Slots
open Os161.Vfs

/-- The process table with the pids of all processes that exist. -/
structure Roster where
  procArray : Table procMax ProcRef
  numOfProcs : Int
  nextPid : Int
  nextProc : ProcRef
  pidOf : ProcRef → Option Int

/-- The roster of a kernel state. -/
def Roster.of (s : Kernel) : Roster :=
  { procArray := s.ptable.procArray, numOfProcs := s.ptable.numOfProcs
    nextPid := s.ptable.nextPid, nextProc := s.nextProc
    pidOf := fun p => (s.procs p).map Os161.Proc.pid }

namespace Roster

variable {R : Roster}

/-! ## Moves -/

/-- A process is created; it has the pid `0` and is not on the table. -/
def create (R : Roster) : Roster :=
  { R with pidOf := Function.update R.pidOf R.nextProc (some 0), nextProc := R.nextProc + 1 }

/-- A process gets the next pid. -/
def number (R : Roster) (p : ProcRef) : Roster :=
  { R with pidOf := Function.update R.pidOf p (some R.nextPid), nextPid := R.nextPid + 1 }

/-- `put_proc_on_proctable` for a process. -/
def put (R : Roster) (p : ProcRef) : Roster :=
  match firstFree R.procArray with
  | none => R
  | some i => { R with
      procArray := Function.update R.procArray i (some p)
      numOfProcs := R.numOfProcs + 1 }

/-- `remove_proc_from_proctable`. -/
def remove (R : Roster) (pid : Int) : Roster :=
  match lastWith (fun p => R.pidOf p == some pid) R.procArray with
  | none => R
  | some i => { R with
      procArray := Function.update R.procArray i none
      numOfProcs := R.numOfProcs - 1 }

/-- A process is destroyed. -/
def destroy (R : Roster) (p : ProcRef) : Roster :=
  { R with pidOf := Function.update R.pidOf p none }

/-! ## The invariant -/

/-- The table holds processes that exist, under different pids, and its counter counts them. -/
structure WF (R : Roster) : Prop where
  live : ∀ i p, R.procArray i = some p → R.pidOf p ≠ none
  distinct : ∀ i j p q n, R.procArray i = some p → R.procArray j = some q → R.pidOf p = some n →
    R.pidOf q = some n → i = j
  count : R.numOfProcs = used R.procArray
  fresh : ∀ p, R.nextProc ≤ p → R.pidOf p = none
  pids : ∀ i p n, R.procArray i = some p → R.pidOf p = some n → n < R.nextPid
  nextPid : 0 < R.nextPid

theorem WF.lt_nextProc (h : R.WF) {p : ProcRef} {n : Int} (hn : R.pidOf p = some n) :
    p < R.nextProc := by
  by_contra hc
  rw [h.fresh p (not_lt.1 hc)] at hn
  cases hn

/-- The processes on the table are older than the next one. -/
theorem WF.ne_nextProc (h : R.WF) {i : Fin procMax} {p : ProcRef} (hi : R.procArray i = some p) :
    p ≠ R.nextProc := by
  obtain ⟨n, hn⟩ := Option.ne_none_iff_exists'.1 (h.live i p hi)
  exact ne_of_lt (h.lt_nextProc hn)

/-- Changes to a process that is not on the table, and more pids in use, keep the invariant. -/
theorem WF.of_off (h : R.WF) {p : ProcRef} (hoff : ∀ i, R.procArray i ≠ some p) {x : Option Int}
    {nextPid : Int} {nextProc : ProcRef} (hpid : R.nextPid ≤ nextPid) (hproc : R.nextProc ≤ nextProc)
    (hx : x ≠ none → p < nextProc) :
    ({ R with pidOf := Function.update R.pidOf p x, nextPid := nextPid, nextProc := nextProc } :
      Roster).WF := by
  have hkeep : ∀ i q, R.procArray i = some q → Function.update R.pidOf p x q = R.pidOf q := by
    intro i q hi
    refine Function.update_of_ne ?_ _ _
    rintro rfl
    exact hoff i hi
  refine ⟨fun i q hi => ?_, fun i j q q' n hi hj hq hq' => ?_, h.count, fun q hq => ?_,
    fun i q n hi hq => ?_, lt_of_lt_of_le h.nextPid hpid⟩
  · show Function.update R.pidOf p x q ≠ none
    rw [hkeep i q hi]
    exact h.live i q hi
  · refine h.distinct i j q q' n hi hj ?_ ?_
    · rw [← hkeep i q hi]
      exact hq
    · rw [← hkeep j q' hj]
      exact hq'
  · show Function.update R.pidOf p x q = none
    by_cases he : q = p
    · subst he
      rw [Function.update_self]
      by_contra hne
      exact absurd (hx hne) (not_lt.2 hq)
    · rw [Function.update_of_ne he]
      exact h.fresh q (le_trans hproc hq)
  · refine lt_of_lt_of_le (h.pids i q n hi ?_) hpid
    rw [← hkeep i q hi]
    exact hq

theorem WF.create (h : R.WF) : R.create.WF :=
  h.of_off (fun _ hi => h.ne_nextProc hi rfl) le_rfl (Nat.le_succ _) fun _ => Nat.lt_succ_self _

theorem WF.number (h : R.WF) {p : ProcRef} (hoff : ∀ i, R.procArray i ≠ some p)
    (hlt : p < R.nextProc) : (R.number p).WF :=
  h.of_off hoff (by omega) le_rfl fun _ => hlt

theorem WF.destroy (h : R.WF) {p : ProcRef} (hoff : ∀ i, R.procArray i ≠ some p) :
    (R.destroy p).WF :=
  h.of_off hoff le_rfl le_rfl fun hne => absurd rfl hne

/-- A process enters the table under a pid that no entry has. -/
theorem WF.put (h : R.WF) {p : ProcRef} {n : Int} (hn : R.pidOf p = some n) (hlt : n < R.nextPid)
    (hnew : firstFree R.procArray ≠ none → ∀ i q, R.procArray i = some q → R.pidOf q ≠ some n) :
    (R.put p).WF := by
  unfold Roster.put
  cases hf : firstFree R.procArray with
  | none => exact h
  | some k =>
      have hk := firstFree_eq_some hf
      have hnew' := hnew (by simp [hf])
      have hslot : ∀ i q, Function.update R.procArray k (some p) i = some q →
          (i = k ∧ q = p) ∨ (i ≠ k ∧ R.procArray i = some q) := by
        intro i q hi
        rcases update_eq_some hi with ⟨he, hx⟩ | hold
        · exact .inl ⟨he, (Option.some.inj hx).symm⟩
        · exact .inr hold
      refine ⟨fun i q hi => ?_, fun i j q q' m hi hj hq hq' => ?_, ?_, h.fresh,
        fun i q m hi hq => ?_, h.nextPid⟩
      · rcases hslot i q hi with ⟨rfl, rfl⟩ | ⟨-, hi⟩
        · simp [hn]
        · exact h.live i q hi
      · rcases hslot i q hi with ⟨rfl, rfl⟩ | ⟨-, hi₀⟩
        · rcases hslot j q' hj with ⟨rfl, -⟩ | ⟨-, hj₀⟩
          · rfl
          · have e : m = n := Option.some.inj (hq.symm.trans hn)
            subst e
            exact absurd hq' (hnew' j q' hj₀)
        · rcases hslot j q' hj with ⟨rfl, rfl⟩ | ⟨-, hj₀⟩
          · have e : m = n := Option.some.inj (hq'.symm.trans hn)
            subst e
            exact absurd hq (hnew' i q hi₀)
          · exact h.distinct i j q q' m hi₀ hj₀ hq hq'
      · have h₁ := weigh_update (fun _ => 1) R.procArray k (some p)
        rw [hk] at h₁
        simp only [slotWeight_none, slotWeight_some] at h₁
        show R.numOfProcs + 1 = (used (Function.update R.procArray k (some p)) : Int)
        rw [h.count]
        unfold used
        omega
      · rcases hslot i q hi with ⟨rfl, rfl⟩ | ⟨-, hi⟩
        · have e : m = n := Option.some.inj (hq.symm.trans hn)
          subst e
          exact hlt
        · exact h.pids i q m hi hq

theorem WF.remove (h : R.WF) (pid : Int) : (R.remove pid).WF := by
  unfold Roster.remove
  cases hl : lastWith (fun p => R.pidOf p == some pid) R.procArray with
  | none => exact h
  | some k =>
      obtain ⟨p, hp, -⟩ := lastWith_eq_some hl
      have hslot : ∀ i q, Function.update R.procArray k none i = some q →
          R.procArray i = some q := fun i q hi => (cleared_eq_some hi).2
      refine ⟨fun i q hi => h.live i q (hslot i q hi), fun i j q q' m hi hj =>
        h.distinct i j q q' m (hslot i q hi) (hslot j q' hj), ?_, h.fresh,
        fun i q m hi => h.pids i q m (hslot i q hi), h.nextPid⟩
      have h₁ := weigh_update (fun _ => 1) R.procArray k none
      rw [hp] at h₁
      simp only [slotWeight_none, slotWeight_some] at h₁
      show R.numOfProcs - 1 = (used (Function.update R.procArray k none) : Int)
      rw [h.count]
      unfold used
      omega

end Roster

/-! ## What the file layer leaves alone -/

/-- The process table and the processes, without the slots and the counters of their file
tables. -/
structure Bare where
  ptable : ProcTable
  nextProc : ProcRef
  procs : ProcRef → Option Os161.Proc

/-- A process without slots. -/
def bareProc (P : Os161.Proc) : Os161.Proc :=
  { P with pFiletable := { P.pFiletable with files := fun _ => none, size := 0 } }

/-- The processes of a kernel state, without their slots. -/
def Bare.of (s : Kernel) : Bare :=
  { ptable := s.ptable, nextProc := s.nextProc, procs := fun p => (s.procs p).map bareProc }

section Frames

variable {α : Type}

theorem Roster.of_bare (s : Kernel) : Roster.of s =
    { procArray := (Bare.of s).ptable.procArray, numOfProcs := (Bare.of s).ptable.numOfProcs
      nextPid := (Bare.of s).ptable.nextPid, nextProc := (Bare.of s).nextProc
      pidOf := fun p => ((Bare.of s).procs p).map Os161.Proc.pid } := by
  simp only [Roster.of, Bare.of, Option.map_map]
  rfl

instance (priority := low) frame_roster (m : K α) [Frame Bare.of m] : Frame Roster.of m :=
  Frame.comp Bare.of (fun B =>
    { procArray := B.ptable.procArray, numOfProcs := B.ptable.numOfProcs
      nextPid := B.ptable.nextPid, nextProc := B.nextProc
      pidOf := fun p => (B.procs p).map Os161.Proc.pid }) Roster.of_bare m

/-- A change that leaves the process table alone and keeps every process but its slots. -/
theorem frame_modify {f : Kernel → Kernel} (h : ∀ s, Bare.of (f s) = Bare.of s) :
    Frame Bare.of (modify f : K Unit) :=
  ⟨fun s u s' hr => by rw [(runs_modify _ _ _ _).1 hr, h]⟩

instance (l : LockName) : Frame Bare.of (lockAcquire l) :=
  ⟨fun s u s' h => by rw [((runs_lockAcquire _ _ _ _).1 h).2]; rfl⟩

instance (l : LockName) : Frame Bare.of (lockRelease l) :=
  ⟨fun s u s' h => by rw [((runs_lockRelease _ _ _ _).1 h).2]; rfl⟩

instance (l : LockName) : Frame Bare.of (lockDestroy l) :=
  ⟨fun s u s' h => by rw [((runs_lockDestroy _ _ _ _).1 h).2]⟩

instance (r : FileRef) : Frame Bare.of (readFile r) :=
  ⟨fun s u s' h => by rw [((runs_readFile _ _ _ _).1 h).2]⟩

instance (r : FileRef) (f : File) : Frame Bare.of (writeFile r f) :=
  ⟨fun s u s' h => by rw [((runs_writeFile _ _ _ _ _).1 h).2]; rfl⟩

instance (f : File) : Frame Bare.of (allocFile f) :=
  ⟨fun s u s' h => by rw [((runs_allocFile _ _ _ _).1 h).2]; rfl⟩

instance (r : FileRef) : Frame Bare.of (freeFile r) :=
  ⟨fun s u s' h => by rw [(runs_freeFile _ _ _ _).1 h]; rfl⟩

instance (c : CellRef) : Frame Bare.of (readCell c) :=
  ⟨fun s u s' h => by rw [((runs_readCell _ _ _ _).1 h).2]⟩

instance (c : CellRef) (v : Int) : Frame Bare.of (writeCell c v) :=
  ⟨fun s u s' h => by rw [((runs_writeCell _ _ _ _ _).1 h).2]; rfl⟩

instance (v : Int) : Frame Bare.of (allocCell v) :=
  ⟨fun s u s' h => by rw [((runs_allocCell _ _ _ _).1 h).2]; rfl⟩

instance (x : Option CellRef) : Frame Bare.of (freeCell x) :=
  ⟨fun s u s' h => by
    obtain ⟨cs, rfl⟩ := runs_freeCell h
    rfl⟩

instance (v : VnodeRef) : Frame Bare.of (vopIncref v) :=
  ⟨fun s u s' h => by rw [(runs_vopIncref _ _ _ _).1 h]; rfl⟩

instance (x : Option VnodeRef) : Frame Bare.of (vopDecref x) :=
  ⟨fun s u s' h => by
    obtain ⟨v, -, rfl⟩ := (runs_vopDecref _ _ _ _).1 h
    rfl⟩

instance : Frame Bare.of curproc :=
  ⟨fun s u s' h => by rw [((runs_curproc _ _ _).1 h).2]⟩

instance (p : ProcRef) : Frame Bare.of (readTable p) :=
  ⟨fun s u s' h => by rw [((runs_readTable _ _ _ _).1 h).2]⟩

/-- Writing a process back with other slots and another counter. -/
theorem Bare.of_writeProc {s : Kernel} {p : ProcRef} {P Q : Os161.Proc} (hP : s.procs p = some P)
    (hbare : bareProc Q = bareProc P) :
    Bare.of { s with procs := Function.update s.procs p (some Q) } = Bare.of s := by
  have e : (fun q => (Function.update s.procs p (some Q) q).map bareProc) =
      fun q => (s.procs q).map bareProc := by
    funext q
    by_cases hq : q = p
    · subst hq
      simp [hP, hbare]
    · simp [hq]
  simp only [Bare.of, e]

/-- Writing a process back with its old pid. -/
theorem Roster.of_writeProc {s : Kernel} {p : ProcRef} {P Q : Os161.Proc} (hP : s.procs p = some P)
    (hpid : Q.pid = P.pid) :
    Roster.of { s with procs := Function.update s.procs p (some Q) } = Roster.of s := by
  have e : (fun q => (Function.update s.procs p (some Q) q).map Os161.Proc.pid) =
      fun q => (s.procs q).map Os161.Proc.pid := by
    funext q
    by_cases hq : q = p
    · subst hq
      simp [hP, hpid]
    · simp [hq]
  simp only [Roster.of, e]

instance (p : ProcRef) (t : PFileTable) : Frame Roster.of (writeTable p t) :=
  ⟨fun s u s' h => by
    obtain ⟨P, hP, rfl⟩ := (runs_writeTable _ _ _ _ _).1 h
    exact Roster.of_writeProc hP rfl⟩

instance (r : FileRef) : Frame Bare.of (lockFile r) := by
  unfold lockFile
  infer_instance

instance (p : ProcRef) (i : Fin openMax) (x : Option FileRef) : Frame Bare.of (setSlot p i x) :=
  ⟨fun s u s' h => by
    obtain ⟨P, hP, rfl⟩ := runs_setSlot h
    exact Bare.of_writeProc hP rfl⟩

instance (p : ProcRef) (d : Int) : Frame Bare.of (bumpSize p d) :=
  ⟨fun s u s' h => by
    obtain ⟨P, hP, rfl⟩ := runs_bumpSize h
    exact Bare.of_writeProc hP rfl⟩

instance (alloc : Bool) (path : String) : Frame Bare.of (createFile alloc path) := by
  unfold createFile
  infer_instance

instance (r : FileRef) : Frame Bare.of (destroyFile r) := by
  unfold destroyFile
  infer_instance

instance (r : FileRef) : Frame Bare.of (destroyDup r) := by
  unfold destroyDup
  infer_instance

instance (x : Option VnodeRef) : Frame Bare.of (increfCopied x) := by
  cases x <;> unfold increfCopied <;> infer_instance

instance (x y : Option CellRef) : Frame Bare.of (copySeek x y) := by
  cases x <;> cases y <;> unfold copySeek <;> infer_instance

instance (alloc : Bool) (r : FileRef) : Frame Bare.of (copyFile alloc r) := by
  unfold copyFile
  refine Frame.seq fun _ => Frame.seq fun f => Frame.seq fun x => ?_
  cases x <;> infer_instance

instance : Frame Bare.of getNextFd := by
  unfold getNextFd
  refine Frame.seq fun _ => Frame.seq fun _ => ?_
  have := frame_modify (f := fun s => { s with gft := { s.gft with nextFd := s.gft.nextFd + 1 } })
    fun _ => rfl
  infer_instance

instance (r : FileRef) : Frame Bare.of (putFileOnGtable r) := by
  unfold putFileOnGtable
  refine Frame.seq fun _ => Frame.seq fun s => Frame.seq fun f => ?_
  cases firstFree s.gft.openFiles with
  | none => infer_instance
  | some i =>
      have := frame_modify (f := fun s => { s with gft := { s.gft with
        openFiles := Function.update s.gft.openFiles i (some r), size := s.gft.size + 1 } })
        fun _ => rfl
      infer_instance

instance (p : File → Bool) (x : Option FileRef) : Frame Bare.of (testSlot p x) := by
  cases x <;> unfold testSlot <;> infer_instance

instance (i : Fin openMax) (r : FileRef) : Frame Bare.of (closeGlobalSlot i r) := by
  unfold closeGlobalSlot
  have h₁ := frame_modify (f := fun s => { s with gft := { s.gft with
    openFiles := Function.update s.gft.openFiles i none } }) fun _ => rfl
  have h₂ := frame_modify (f := fun s => { s with gft := { s.gft with size := s.gft.size - 1 } })
    fun _ => rfl
  infer_instance

instance (fd : Int) : Frame Bare.of (closeFileOnGtable fd) := by
  unfold closeFileOnGtable
  refine Frame.seq fun _ => Frame.seq fun s => Frame.seq fun found => ?_
  cases found with
  | none => infer_instance
  | some i =>
      dsimp only
      cases s.gft.openFiles i <;> infer_instance

instance (p : ProcRef) (fd : Int) : Frame Bare.of (pFiletableLookup p fd) := by
  unfold pFiletableLookup
  infer_instance

instance (p : ProcRef) (r : FileRef) : Frame Bare.of (putFileOnPtable p r) := by
  refine ⟨fun s n s' h => ?_⟩
  simp only [putFileOnPtable, runs_bind, runs_lockAcquire, runs_readTable] at h
  obtain ⟨_, s₁, ⟨-, rfl⟩, t, s₂, ⟨⟨P, hP, rfl⟩, rfl⟩, h⟩ := h
  cases hfree : firstFree P.pFiletable.files with
  | none =>
      simp only [hfree, runs_bind, runs_lockRelease, runs_pure] at h
      obtain ⟨_, s₃, ⟨-, rfl⟩, -, rfl⟩ := h
      rfl
  | some i =>
      simp only [hfree, runs_bind, runs_writeTable, runs_lockRelease, runs_readFile,
        runs_pure] at h
      obtain ⟨_, s₃, ⟨Q, hQ, rfl⟩, _, s₄, ⟨-, rfl⟩, f, s₅, ⟨-, rfl⟩, -, rfl⟩ := h
      have e : Q = P := Option.some.inj (hQ.symm.trans hP)
      subst e
      have hQ' : s.procs p = some Q := hQ
      exact Bare.of_writeProc hQ' rfl

instance (p : ProcRef) (i : Fin openMax) (r : FileRef) (f : File) :
    Frame Bare.of (closeSlot p i r f) := by
  unfold closeSlot
  infer_instance

instance (p : ProcRef) (fd : Int) (i : Fin openMax) : Frame Bare.of (closeFileRound p fd i) := by
  unfold closeFileRound
  apply Frame.seq
  intro t
  cases t.files i <;> infer_instance

instance (p : ProcRef) (fd : Int) : Frame Bare.of (closeFileOnPtable p fd) := by
  unfold closeFileOnPtable
  infer_instance

instance (alloc : Bool) (p : ProcRef) (oldfd newfd : Int) :
    Frame Bare.of (dupFile alloc p oldfd newfd) := by
  unfold dupFile
  apply Frame.seq
  intro x
  cases x <;> infer_instance

instance (p q : ProcRef) (i : Fin openMax) : Frame Bare.of (copyRound p q i) := by
  unfold copyRound
  apply Frame.seq
  intro t
  cases t.files i <;> infer_instance

instance (p q : ProcRef) : Frame Bare.of (copyPFiletable p q) := by
  unfold copyPFiletable
  infer_instance

instance (p : ProcRef) (i : Fin openMax) (r : FileRef) : Frame Bare.of (closeAllSlot p i r) := by
  unfold closeAllSlot
  refine Frame.seq fun _ => Frame.seq fun f => ?_
  cases f.fileVnode <;> infer_instance

/-- The last step of a round of `close_all_files_ptable` sets the counter. -/
instance (p : ProcRef) : Frame Bare.of (do
    let t ← readTable p
    writeTable p { t with size := 0 } : K Unit) := by
  refine ⟨fun s u s' h => ?_⟩
  simp only [runs_bind, runs_readTable, runs_writeTable] at h
  obtain ⟨t, s₁, ⟨⟨P, hP, rfl⟩, rfl⟩, Q, hQ, rfl⟩ := h
  have e : Q = P := Option.some.inj (hQ.symm.trans hP)
  subst e
  exact Bare.of_writeProc hQ rfl

instance (p : ProcRef) (i : Fin openMax) : Frame Bare.of (closeAllRound p i) := by
  unfold closeAllRound
  apply Frame.seq
  intro t
  cases t.files i <;> infer_instance

instance (p : ProcRef) : Frame Bare.of (closeAllFilesPtable p) := by
  unfold closeAllFilesPtable
  infer_instance

instance (p : ProcRef) : Frame Bare.of (pFiletableDestroy p) := by
  unfold pFiletableDestroy
  infer_instance

end Frames

end Os161.Proc
